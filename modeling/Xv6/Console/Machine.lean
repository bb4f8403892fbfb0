import Xv6.Data.FreeRing
import Xv6.Data.Trace
import Xv6.Data.Words

namespace Xv6.Console

open Xv6.Data

/-! # The console's input

The input side of `console.c`, with the processes that are inside `consoleread`.
A step of a process runs from where it takes `cons.lock` to where it releases it or
sleeps; `consoleintr` is one step.  No process is killed while it reads.
-/

abbrev INPUT_BUF : Nat := 128

scoped instance : NeZero INPUT_BUF := ⟨by decide⟩

structure Input where
  buf : Fin INPUT_BUF → Byte
  r : BitVec 32
  w : BitVec 32
  e : BitVec 32

def C (x : Char) : Byte := BitVec.ofNat 8 (x.toNat - '@'.toNat)

def newline : Byte := BitVec.ofNat 8 '\n'.toNat

def carriageReturn : Byte := BitVec.ofNat 8 '\r'.toNat

def delete : Byte := 0x7f

/-- The loop of `^U`; `left` is how many bytes are after `w`. -/
def killLine : Nat → Input → Input
  | 0, input => input
  | left + 1, input =>
    if input.e ≠ input.w ∧ input.buf (FreeRing.slot (input.e - 1)) ≠ newline then
      killLine left { input with e := input.e - 1 }
    else input

def backspace (input : Input) : Input := if input.e ≠ input.w then { input with e := input.e - 1 } else input

def store (input : Input) (c : Byte) : Input :=
  { input with buf := Function.update input.buf (FreeRing.slot input.e) c, e := input.e + 1 }

/-- One turn of the loop of `consoleintr`, and whether it wakes the readers. -/
def edit (input : Input) (c : Byte) : Input × Bool :=
  if c = C 'P' then (input, false)
  else if c = C 'U' then (killLine (input.e - input.w).toNat input, false)
  else if c = C 'H' ∨ c = delete then (backspace input, false)
  else if c ≠ 0 ∧ (input.e - input.r).toNat < INPUT_BUF then
    let c := if c = carriageReturn then newline else c
    let input := store input c
    if c = newline ∨ c = C 'D' ∨ input.e = input.r + BitVec.ofNat 32 INPUT_BUF then
      ({ input with w := input.e }, true)
    else (input, false)
  else (input, false)

inductive Progress where
  | sleeps (n : Nat)
  | returns (result : Nat)
deriving DecidableEq, Repr

/-- The loop of `consoleread`, with `n` bytes wanted of `target`, up to where it
sleeps or ends: the bytes that it copies out and what becomes of the call. -/
def readLoop (target : Nat) : Nat → Input → List Byte × Progress × Input
  | 0, input => ([], .returns target, input)
  | n + 1, input =>
    if input.r = input.w then ([], .sleeps (n + 1), input)
    else
      let c := input.buf (FreeRing.slot input.r)
      let input := { input with r := input.r + 1 }
      if c = C 'D' then
        -- A `^D` after some bytes is kept for the next call.
        if n + 1 < target then ([], .returns (target - (n + 1)), { input with r := input.r - 1 })
        else ([], .returns (target - (n + 1)), input)
      else if c = newline then ([c], .returns (target - n), input)
      else
        let (bytes, progress, input) := readLoop target n input
        (c :: bytes, progress, input)

/-- What a process is doing: it is not in `consoleread`, is about to take the lock
there, or sleeps on `&input.r`. -/
inductive Op where
  | outside
  | reading (n target : Nat)
  | sleeping (n target : Nat)
deriving DecidableEq, Repr

structure State where
  input : Input
  ops : Nat → Op

def Op.wake : Op → Op
  | .sleeping n target => .reading n target
  | op => op

def wakeup (s : State) : State := { s with ops := fun p => (s.ops p).wake }

def getc (s : State) (c : Byte) : State :=
  let (input, wakes) := edit s.input c
  if wakes then wakeup { s with input } else { s with input }

def consoleintr (s : State) (chars : List Byte) : State := chars.foldl getc s

def Op.after (target : Nat) : Progress → Op
  | .sleeps n => .sleeping n target
  | .returns _ => .outside

def consoleread (s : State) (p n target : Nat) : State :=
  let (_, progress, input) := readLoop target n s.input
  { input, ops := Function.update s.ops p (.after target progress) }

inductive Action where
  | intr (chars : List Byte)
  | callRead (p : Nat) (n : Int)
  | run (p : Nat)

/-- A call that wants no bytes, or a negative number of them, returns `0` without
looking at the buffer. -/
def step (s : State) : Action → Option State
  | .intr chars => some (consoleintr s chars)
  | .callRead p n =>
    if s.ops p = .outside then some { s with ops := Function.update s.ops p (.reading n.toNat n.toNat) } else none
  | .run p =>
    match s.ops p with
    | .reading n target => some (consoleread s p n target)
    | _ => none

def consoleinit : State :=
  { input := { buf := fun _ => 0, r := 0, w := 0, e := 0 }
    ops := fun _ => .outside }

def committed (before after : Input) : List Byte := (FreeRing.mk after.buf before.w after.w).contents

def intrCommits : State → List Byte → List Byte
  | _, [] => []
  | s, c :: rest => committed s.input (edit s.input c).1 ++ intrCommits (getc s c) rest

def commits (s : State) : Action → List Byte
  | .intr chars => intrCommits s chars
  | _ => []

/-- What a reader gets: a byte, or the result `0` of a call that wanted some. -/
inductive Item where
  | byte (c : Byte)
  | endOfFile
deriving DecidableEq, Repr

def items (target : Nat) (bytes : List Byte) (progress : Progress) : List Item :=
  bytes.map .byte ++ if progress = .returns 0 ∧ 0 < target then [.endOfFile] else []

def delivers (s : State) : Action → List Item
  | .run p =>
    match s.ops p with
    | .reading n target =>
      let (bytes, progress, _) := readLoop target n s.input
      items target bytes progress
    | _ => []
  | _ => []

def Item.of (c : Byte) : Item := if c = C 'D' then .endOfFile else .byte c

end Xv6.Console
