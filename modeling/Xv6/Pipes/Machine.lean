import Xv6.Data.FreeRing
import Xv6.Data.Trace
import Xv6.Data.Words

namespace Xv6.Pipes

open Xv6.Data

/-! # Pipes

`pipe.c`, with the processes that are inside `pipewrite` and `piperead`.  A step of a
process runs from where it takes `p->lock` to where it releases it or sleeps.
-/

abbrev PIPESIZE : Nat := 512

scoped instance : NeZero PIPESIZE := ⟨by decide⟩

structure Pipe extends FreeRing PIPESIZE Byte where
  readopen : Bool
  writeopen : Bool

/-- What a process is doing with the pipe: it is in neither function, is about to
take the lock in `piperead` with `n` bytes wanted or in `pipewrite` with bytes
left to write, or sleeps on `&p->nread` or `&p->nwrite`. -/
inductive Op where
  | outside
  | reading (n : Int)
  | sleepsRead (n : Int)
  | writing (rest : List Byte)
  | sleepsWrite (rest : List Byte)
deriving DecidableEq, Repr

structure State where
  pipe : Pipe
  ops : Nat → Op
  killed : Nat → Bool

def State.setOp (s : State) (p : Nat) (op : Op) : State := { s with ops := Function.update s.ops p op }

inductive Chan where
  | nread | nwrite
deriving DecidableEq, Repr

def Op.wake : Chan → Op → Op
  | .nread, .sleepsRead n => .reading n
  | .nwrite, .sleepsWrite rest => .writing rest
  | _, op => op

def wakeup (s : State) (chan : Chan) : State := { s with ops := fun p => (s.ops p).wake chan }

/-- The loop of `pipewrite` up to the first byte for which there is no room, and
how many bytes it has stored. -/
def store : FreeRing PIPESIZE Byte → List Byte → Nat × FreeRing PIPESIZE Byte
  | ring, [] => (0, ring)
  | ring, byte :: rest =>
    if ring.nwrite = ring.nread + BitVec.ofNat 32 PIPESIZE then (0, ring)
    else
      let (i, ring) := store (ring.put byte) rest
      (i + 1, ring)

def fetch : Nat → FreeRing PIPESIZE Byte → List Byte × FreeRing PIPESIZE Byte
  | 0, ring => ([], ring)
  | n + 1, ring =>
    if ring.nread = ring.nwrite then ([], ring)
    else
      let (bytes, rest) := fetch n ring.drop
      (ring.front :: bytes, rest)

def Pipe.setRing (pipe : Pipe) (ring : FreeRing PIPESIZE Byte) : Pipe := { pipe with toFreeRing := ring }

def pipewrite (s : State) (p : Nat) (bytes : List Byte) : State :=
  let (i, ring) := store s.pipe.toFreeRing bytes
  let s := { s with pipe := s.pipe.setRing ring }
  if i < bytes.length then
    if s.pipe.readopen = false ∨ s.killed p = true then s.setOp p .outside
    else (wakeup s .nread).setOp p (.sleepsWrite (bytes.drop i))
  else (wakeup s .nread).setOp p .outside

def piperead (s : State) (p : Nat) (n : Int) : State :=
  if s.pipe.nread = s.pipe.nwrite ∧ s.pipe.writeopen = true then
    if s.killed p then s.setOp p .outside
    else s.setOp p (.sleepsRead n)
  else
    let (_, ring) := fetch n.toNat s.pipe.toFreeRing
    (wakeup { s with pipe := s.pipe.setRing ring } .nwrite).setOp p .outside

def pipeclose (s : State) (writable : Bool) : State :=
  if writable then wakeup { s with pipe := { s.pipe with writeopen := false } } .nread
  else wakeup { s with pipe := { s.pipe with readopen := false } } .nwrite

def kill (s : State) (p : Nat) : State :=
  { s with
    killed := Function.update s.killed p true
    ops := Function.update s.ops p (((s.ops p).wake .nread).wake .nwrite) }

inductive Action where
  | callWrite (p : Nat) (bytes : List Byte)
  | callRead (p : Nat) (n : Int)
  | run (p : Nat)
  | close (writable : Bool)
  | kill (p : Nat)

/-- The pipe is freed when both of its ends are closed. -/
def State.allocated (s : State) : Bool := s.pipe.readopen || s.pipe.writeopen

def step (s : State) : Action → Option State
  | .callWrite p bytes => if s.ops p = .outside then some (s.setOp p (.writing bytes)) else none
  | .callRead p n => if s.ops p = .outside then some (s.setOp p (.reading n)) else none
  | .run p =>
    if s.allocated then
      match s.ops p with
      | .writing bytes => some (pipewrite s p bytes)
      | .reading n => some (piperead s p n)
      | _ => none
    else none
  | .close writable => if s.allocated then some (pipeclose s writable) else none
  | .kill p => some (kill s p)

/-- The pipe that `pipealloc` makes in a page with the given contents. -/
def pipealloc (data : Fin PIPESIZE → Byte) : State :=
  { pipe := { data, nread := 0, nwrite := 0, readopen := true, writeopen := true }
    ops := fun _ => .outside
    killed := fun _ => false }

def stores (s : State) : Action → List Byte
  | .run p =>
    match s.ops p with
    | .writing bytes => bytes.take (store s.pipe.toFreeRing bytes).1
    | _ => []
  | _ => []

def returns (s : State) : Action → List Byte
  | .run p =>
    match s.ops p with
    | .reading n =>
      if s.pipe.nread = s.pipe.nwrite ∧ s.pipe.writeopen = true then []
      else (fetch n.toNat s.pipe.toFreeRing).1
    | _ => []
  | _ => []

inductive Effect (s : State) : Action → State → Prop where
  | callsWrite {p bytes} (outside : s.ops p = .outside) : Effect s (.callWrite p bytes) (s.setOp p (.writing bytes))
  | callsRead {p n} (outside : s.ops p = .outside) : Effect s (.callRead p n) (s.setOp p (.reading n))
  | writes {p bytes} (inside : s.ops p = .writing bytes) : Effect s (.run p) (pipewrite s p bytes)
  | reads {p n} (inside : s.ops p = .reading n) : Effect s (.run p) (piperead s p n)
  | closes {writable} : Effect s (.close writable) (pipeclose s writable)
  | kills {p} : Effect s (.kill p) (kill s p)

theorem step_effect {s t : State} {a : Action} (taken : step s a = some t) : Effect s a t := by
  cases a with
  | callWrite p bytes =>
    simp only [step, Option.ite_none_right_eq_some, Option.some.injEq] at taken
    exact taken.2 ▸ .callsWrite taken.1
  | callRead p n =>
    simp only [step, Option.ite_none_right_eq_some, Option.some.injEq] at taken
    exact taken.2 ▸ .callsRead taken.1
  | run p =>
    simp only [step, Option.ite_none_right_eq_some] at taken
    obtain ⟨-, taken⟩ := taken
    split at taken <;> cases taken
    · next bytes inside => exact .writes inside
    · next n inside => exact .reads inside
  | close writable =>
    simp only [step, Option.ite_none_right_eq_some, Option.some.injEq] at taken
    exact taken.2 ▸ .closes
  | kill p =>
    cases taken
    exact .kills

end Xv6.Pipes
