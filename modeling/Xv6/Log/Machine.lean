import Xv6.Data.Trace
import Xv6.Disk.Block

namespace Xv6.Log

open Xv6.Data Xv6.Disk
open Function (update)

/-! # The redo log

`log.c` over the buffer cache and a disk that writes one block at a time.  The process
whose `end_op` ends the last operation runs `commit`, whose loops are cut after each
block that they write.  A crash keeps the disk and nothing else; `boot` is the call
of `recover_from_log`.  A buffer that is not dirty may be recycled at any moment.
-/

abbrev MAXOPBLOCKS : Nat := 10
abbrev LOGSIZE : Nat := MAXOPBLOCKS * 3

structure Buf where
  data : Block
  dirty : Bool

/-- Where the superblock says the log is: `log.start` and `log.size`. -/
structure Geometry where
  start : BlockNo
  size : Int
deriving DecidableEq, Repr

/-- The log of an image with `LOGSIZE` log blocks after the superblock. -/
def imageLog : Geometry := ⟨2, 30⟩

/-- Where a process is with respect to `begin_op` and `end_op`: sleeping on the
log in `begin_op`, woken there, inside an operation, or in the `commit` of its
`end_op`. -/
inductive Op where
  | outside | asleep | woken | inside | ending
deriving DecidableEq, Repr

/-- What the log is doing.  `install` and `clear` are shared by `commit`, run by
the given process, and by `recover_from_log`. -/
inductive Control where
  | idle
  | writeLog (p : Nat) (tail : Nat)
  | writeHead (p : Nat)
  | install (p : Option Nat) (tail : Nat)
  | clear (p : Option Nat)
  | finish (p : Nat)
  | down
deriving DecidableEq, Repr

structure State where
  disk : BlockNo → Block
  cache : BlockNo → Option Buf
  lh : List BlockNo
  outstanding : Int
  committing : Bool
  ops : Nat → Op
  control : Control

inductive Panic where
  | logCommitting | tooBigTransaction | outsideOfTrans
deriving DecidableEq, Repr

inductive Result where
  | next (s : State)
  | panic (message : Panic)
  | disabled

def bread (s : State) (b : BlockNo) : Block × State :=
  match s.cache b with
  | some buf => (buf.data, s)
  | none => (s.disk b, { s with cache := update s.cache b (some ⟨s.disk b, false⟩) })

def bwrite (s : State) (b : BlockNo) (data : Block) : State :=
  { s with
    disk := update s.disk b data
    cache := update s.cache b (some ⟨data, false⟩) }

/-- The word of `block[i]` in a header block, after the word of `n`. -/
def headerSlot (i : Nat) : Fin NINDIRECT := Fin.ofNat NINDIRECT (i + 1)

/-- `read_head`.  A count over `LOGSIZE` would overrun `log.lh.block`. -/
def readHead (block : Block) : Option (List BlockNo) :=
  if (block.word 0).toInt ≤ LOGSIZE then
    some ((List.range (block.word 0).toInt.toNat).map fun i => block.word (headerSlot i))
  else none

def setBlocks : Block → Nat → List BlockNo → Block
  | block, _, [] => block
  | block, i, b :: rest => setBlocks (block.setWord (headerSlot i) b) (i + 1) rest

def headerBlock (block : Block) (lh : List BlockNo) : Block :=
  setBlocks (block.setWord 0 (BitVec.ofNat 32 lh.length)) 0 lh

def writeHead (g : Geometry) (s : State) : State :=
  let (block, s) := bread s g.start
  bwrite s g.start (headerBlock block s.lh)

def Geometry.logBlock (g : Geometry) (tail : Nat) : BlockNo := g.start + BitVec.ofNat 32 tail + 1

def writeLogRound (g : Geometry) (s : State) (tail : Nat) (b : BlockNo) : State :=
  let (_, s) := bread s (g.logBlock tail)
  let (data, s) := bread s b
  bwrite s (g.logBlock tail) data

def installRound (g : Geometry) (s : State) (tail : Nat) (b : BlockNo) : State :=
  let (data, s) := bread s (g.logBlock tail)
  let (_, s) := bread s b
  bwrite s b data

def wakeup (s : State) : State :=
  { s with ops := fun p => if s.ops p = .asleep then .woken else s.ops p }

/-- `commit` returns to `end_op`, `recover_from_log` to `initlog`. -/
def Control.cleared : Option Nat → Control
  | some p => .finish p
  | none => .idle

def advance (g : Geometry) (s : State) : Result :=
  match s.control with
  | .writeLog p tail =>
    match s.lh[tail]? with
    | some b => .next { writeLogRound g s tail b with control := .writeLog p (tail + 1) }
    | none => .next { s with control := .writeHead p }
  | .writeHead p => .next { writeHead g s with control := .install (some p) 0 }
  | .install p tail =>
    match s.lh[tail]? with
    | some b => .next { installRound g s tail b with control := .install p (tail + 1) }
    | none => .next { s with control := .clear p }
  | .clear p => .next { writeHead g { s with lh := [] } with control := .cleared p }
  | .finish p =>
    .next (wakeup { s with committing := false, ops := update s.ops p .outside, control := .idle })
  | .idle | .down => .disabled

def beginOp (s : State) (p : Nat) : State :=
  if s.committing then
    { s with ops := update s.ops p .asleep }
  else if s.lh.length + (s.outstanding + 1) * MAXOPBLOCKS > LOGSIZE then
    { s with ops := update s.ops p .asleep }
  else
    { s with outstanding := s.outstanding + 1, ops := update s.ops p .inside }

def endOp (s : State) (p : Nat) : Result :=
  let s := { s with outstanding := s.outstanding - 1 }
  if s.committing then .panic .logCommitting
  else if s.outstanding = 0 then
    .next { s with
      committing := true
      ops := update s.ops p .ending
      control := if 0 < s.lh.length then .writeLog p 0 else .finish p }
  else .next (wakeup { s with ops := update s.ops p .outside })

/-- A caller reads block `b`, changes the buffer to `data`, and calls
`log_write`. -/
def logWrite (g : Geometry) (s : State) (b : BlockNo) (data : Block) : Result :=
  if s.lh.length ≥ LOGSIZE ∨ s.lh.length ≥ g.size - 1 then .panic .tooBigTransaction
  else if s.outstanding < 1 then .panic .outsideOfTrans
  else .next { s with
    lh := if b ∈ s.lh then s.lh else s.lh ++ [b]
    cache := update s.cache b (some ⟨data, true⟩) }

inductive Action where
  | beginOp (p : Nat)
  | endOp (p : Nat)
  | logWrite (p : Nat) (b : BlockNo) (data : Block)
  | read (b : BlockNo)
  | evict (b : BlockNo)
  | advance
  | crash
  | boot

/-- `initlog` runs in the first process, before any system call. -/
def Control.up : Control → Bool
  | .down | .install none _ | .clear none => false
  | _ => true

def crash (s : State) : State :=
  { disk := s.disk, cache := fun _ => none, lh := [], outstanding := 0, committing := false,
    ops := fun _ => .outside, control := .down }

def act (g : Geometry) (s : State) : Action → Result
  | .beginOp p =>
    if s.control.up = true ∧ (s.ops p = .outside ∨ s.ops p = .woken) then .next (beginOp s p)
    else .disabled
  | .endOp p => if s.ops p = .inside then endOp s p else .disabled
  | .logWrite p b data => if s.ops p = .inside then logWrite g s b data else .disabled
  | .read b => if s.control = .down then .disabled else .next (bread s b).2
  | .evict b =>
    match s.cache b with
    | some buf =>
      if buf.dirty then .disabled else .next { s with cache := update s.cache b none }
    | none => .disabled
  | .advance => advance g s
  | .crash => if s.control = .down then .disabled else .next (crash s)
  | .boot =>
    if s.control = .down then
      match readHead (bread s g.start).1 with
      | some lh => .next { (bread s g.start).2 with lh, control := .install none 0 }
      | none => .disabled
    else .disabled

def step (g : Geometry) (s : State) (a : Action) : Option State :=
  match act g s a with
  | .next t => some t
  | _ => none

inductive Advance (g : Geometry) (s : State) : State → Prop where
  | copy {p tail b} (at_ : s.control = .writeLog p tail) (listed : s.lh[tail]? = some b) :
      Advance g s { writeLogRound g s tail b with control := .writeLog p (tail + 1) }
  | copied {p tail} (at_ : s.control = .writeLog p tail) (done : s.lh.length ≤ tail) :
      Advance g s { s with control := .writeHead p }
  | head {p} (at_ : s.control = .writeHead p) :
      Advance g s { writeHead g s with control := .install (some p) 0 }
  | install {p tail b} (at_ : s.control = .install p tail) (listed : s.lh[tail]? = some b) :
      Advance g s { installRound g s tail b with control := .install p (tail + 1) }
  | installed {p tail} (at_ : s.control = .install p tail) (done : s.lh.length ≤ tail) :
      Advance g s { s with control := .clear p }
  | clear {p} (at_ : s.control = .clear p) :
      Advance g s { writeHead g { s with lh := [] } with control := .cleared p }
  | finish {p} (at_ : s.control = .finish p) :
      Advance g s (wakeup { s with
        committing := false, ops := update s.ops p .outside, control := .idle })

inductive Effect (g : Geometry) (s : State) : Action → State → Prop where
  | waits {p} (up : s.control.up = true) (entering : s.ops p = .outside ∨ s.ops p = .woken)
      (full : s.committing = true ∨ s.lh.length + (s.outstanding + 1) * MAXOPBLOCKS > LOGSIZE) :
      Effect g s (.beginOp p) { s with ops := update s.ops p .asleep }
  | begins {p} (up : s.control.up = true) (entering : s.ops p = .outside ∨ s.ops p = .woken)
      (quiet : s.committing = false) (room : s.lh.length + (s.outstanding + 1) * MAXOPBLOCKS ≤ LOGSIZE) :
      Effect g s (.beginOp p)
        { s with outstanding := s.outstanding + 1, ops := update s.ops p .inside }
  | commits {p} (inside : s.ops p = .inside) (quiet : s.committing = false) (last : s.outstanding = 1) :
      Effect g s (.endOp p) { s with
        outstanding := 0
        committing := true
        ops := update s.ops p .ending
        control := if 0 < s.lh.length then .writeLog p 0 else .finish p }
  | ends {p} (inside : s.ops p = .inside) (quiet : s.committing = false) (others : s.outstanding ≠ 1) :
      Effect g s (.endOp p) (wakeup { s with
        outstanding := s.outstanding - 1, ops := update s.ops p .outside })
  | logs {p b data} (inside : s.ops p = .inside) (room : s.lh.length < LOGSIZE)
      (area : s.lh.length < g.size - 1) (open_ : 1 ≤ s.outstanding) :
      Effect g s (.logWrite p b data) { s with
        lh := if b ∈ s.lh then s.lh else s.lh ++ [b]
        cache := update s.cache b (some ⟨data, true⟩) }
  | reads {b} (alive : s.control ≠ .down) : Effect g s (.read b) (bread s b).2
  | evicts {b data} (clean : s.cache b = some ⟨data, false⟩) :
      Effect g s (.evict b) { s with cache := update s.cache b none }
  | advances {t : State} (moves : Advance g s t) : Effect g s .advance t
  | crashes (alive : s.control ≠ .down) : Effect g s .crash (crash s)
  | boots {lh} (dead : s.control = .down) (head : readHead (bread s g.start).1 = some lh) :
      Effect g s .boot { (bread s g.start).2 with lh, control := .install none 0 }

inductive Panics (g : Geometry) (s : State) : Action → Panic → Prop where
  | committing {p} (inside : s.ops p = .inside) (busy : s.committing = true) :
      Panics g s (.endOp p) .logCommitting
  | tooBig {p b data} (inside : s.ops p = .inside) (full : s.lh.length ≥ LOGSIZE ∨ s.lh.length ≥ g.size - 1) :
      Panics g s (.logWrite p b data) .tooBigTransaction
  | outside {p b data} (inside : s.ops p = .inside) (nobody : s.outstanding < 1) :
      Panics g s (.logWrite p b data) .outsideOfTrans

section

variable {g : Geometry} {s t : State} {a : Action}

theorem advance_moves (moved : advance g s = .next t) : Advance g s t := by
  unfold advance at moved
  split at moved
  · rename_i p tail at_
    split at moved <;> cases moved
    · next b listed => exact .copy at_ listed
    · next none => exact .copied at_ (List.getElem?_eq_none_iff.mp none)
  · rename_i p at_
    cases moved
    exact .head at_
  · rename_i p tail at_
    split at moved <;> cases moved
    · next b listed => exact .install at_ listed
    · next none => exact .installed at_ (List.getElem?_eq_none_iff.mp none)
  · rename_i p at_
    cases moved
    exact .clear at_
  · rename_i p at_
    cases moved
    exact .finish at_
  · cases moved
  · cases moved

theorem endOp_effect {p : Nat} (inside : s.ops p = .inside) (moved : endOp s p = .next t) :
    Effect g s (.endOp p) t := by
  unfold endOp at moved
  cases quiet : s.committing with
  | true => simp [quiet] at moved
  | false =>
    simp only [quiet, Bool.false_eq_true, if_false] at moved
    split at moved <;> cases moved
    · rename_i last
      have commits := Effect.commits (g := g) inside quiet (by omega)
      simpa only [last] using commits
    · rename_i others
      have ends := Effect.ends (g := g) inside quiet (by omega)
      simpa only [quiet] using ends

theorem logWrite_effect {p : Nat} {b : BlockNo} {data : Block} (inside : s.ops p = .inside)
    (moved : logWrite g s b data = .next t) : Effect g s (.logWrite p b data) t := by
  unfold logWrite at moved
  split at moved
  · cases moved
  · rename_i small
    split at moved <;> cases moved
    next open_ => exact .logs inside (by omega) (by omega) (by omega)

theorem step_effect (taken : step g s a = some t) : Effect g s a t := by
  have moved : act g s a = .next t := by
    unfold step at taken
    split at taken <;> simp_all
  cases a with
  | beginOp p =>
    simp only [act] at moved
    split at moved <;> cases moved
    next enabled =>
      unfold beginOp
      split
      · next busy => exact .waits enabled.1 enabled.2 (.inl busy)
      · rename_i quiet
        split
        · next full => exact .waits enabled.1 enabled.2 (.inr full)
        · next room => exact .begins enabled.1 enabled.2 (by simpa using quiet) (by omega)
  | endOp p =>
    simp only [act] at moved
    split at moved
    · next inside => exact endOp_effect inside moved
    · cases moved
  | logWrite p b data =>
    simp only [act] at moved
    split at moved
    · next inside => exact logWrite_effect inside moved
    · cases moved
  | read b =>
    simp only [act] at moved
    split at moved <;> cases moved
    next alive => exact .reads alive
  | evict b =>
    simp only [act] at moved
    split at moved
    · rename_i buf cached
      split at moved <;> cases moved
      next clean =>
        obtain ⟨data, dirty⟩ := buf
        obtain rfl : dirty = false := by simpa using clean
        exact .evicts cached
    · cases moved
  | advance => exact .advances (advance_moves moved)
  | crash =>
    simp only [act] at moved
    split at moved <;> cases moved
    next alive => exact .crashes alive
  | boot =>
    simp only [act] at moved
    split at moved
    · rename_i dead
      split at moved <;> cases moved
      next lh head => exact .boots dead head
    · cases moved

theorem act_panics {message : Panic} (stopped : act g s a = .panic message) : Panics g s a message := by
  cases a with
  | endOp p =>
    simp only [act, endOp] at stopped
    split at stopped
    · rename_i inside
      split at stopped
      · rename_i busy
        cases stopped
        exact .committing inside busy
      · split at stopped <;> cases stopped
    · cases stopped
  | logWrite p b data =>
    simp only [act, logWrite] at stopped
    split at stopped
    · rename_i inside
      split at stopped
      · rename_i full
        cases stopped
        exact .tooBig inside full
      · split at stopped <;> cases stopped
        next nobody => exact .outside inside nobody
    · cases stopped
  | beginOp p | read b | crash =>
    simp only [act] at stopped
    split at stopped <;> cases stopped
  | evict b | boot =>
    simp only [act] at stopped
    split at stopped
    · split at stopped <;> cases stopped
    · cases stopped
  | advance =>
    simp only [act, advance] at stopped
    split at stopped
    case h_1 | h_3 => split at stopped <;> cases stopped
    all_goals cases stopped

end

end Xv6.Log
