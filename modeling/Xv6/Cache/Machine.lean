import Xv6.Log.Machine

namespace Xv6.Cache

open Xv6.Data Xv6.Disk

/-! # The buffer cache

`bio.c` over the memory disk of `memide.c`, used by any number of processes and
by the `commit` of `log.c`.  `bread` is cut before the sleep lock is held, `brelse`
after `releasesleep`, `log_write` after its checks and `commit` between the calls it
makes.  A process changes the data of a buffer in the step that sets `B_DIRTY`, since
nobody else sees the data while it holds the sleep lock.
-/

abbrev NBUF : Nat := Log.MAXOPBLOCKS * 3

scoped instance : NeZero NBUF := ⟨by decide⟩

abbrev Slot := Fin NBUF

abbrev Dev := BitVec 32

def ROOTDEV : Dev := 1

abbrev Key := Dev × BlockNo

/-- A `struct buf`; `owner` holds its sleep lock. -/
structure Buf (n : Nat) where
  dev : Dev := 0
  blockno : BlockNo := 0
  valid : Bool := false
  dirty : Bool := false
  refcnt : Nat := 0
  owner : Option (Fin n) := none
  data : Block := .zero

structure Geometry where
  log : Log.Geometry
  disksize : Nat

def Buf.key {n : Nat} (buf : Buf n) : Key := (buf.dev, buf.blockno)

/-- Where a process is inside `bread`, `brelse` or `log_write`. -/
inductive Call where
  | ready
  | locking (i : Slot) (key : Key)
  | leaving (i : Slot)
  | logging (i : Slot) (data : Block)

inductive Loop where
  | writeLog | installTrans
deriving DecidableEq, Repr

/-- Where a process is inside `commit`, with the buffers that it holds.  The flag
of the header states says whether the transaction is being erased. -/
inductive Job where
  | user
  | loop (which : Loop) (tail : Nat)
  | first (which : Loop) (tail : Nat)
  | gotFirst (which : Loop) (tail : Nat) (i : Slot)
  | second (which : Loop) (tail : Nat) (i : Slot)
  | gotSecond (which : Loop) (tail : Nat) (i j : Slot)
  | copied (which : Loop) (tail : Nat) (i j : Slot)
  | half (which : Loop) (tail : Nat) (k : Slot)
  | head (erase : Bool)
  | getHead (erase : Bool)
  | gotHead (erase : Bool) (i : Slot)
  | wroteHead (erase : Bool) (i : Slot)
  | finish
deriving DecidableEq, Repr

/-- `order` lists the buffers from `bcache.head.next` on, the most recently used
first. -/
structure State (n : Nat) where
  buf : Slot → Buf n
  order : List Slot
  disk : BlockNo → Block
  lh : List BlockNo
  outstanding : Int
  committing : Bool
  call : Fin n → Call
  job : Fin n → Job

inductive Panic where
  | noBuffers | notLocked | nothingToDo | notDisk1 | outOfRange | bwrite | brelse
  | tooBigTransaction | outsideOfTrans | logCommitting
deriving DecidableEq, Repr

inductive Result (n : Nat) where
  | next (s : State n)
  | panic (message : Panic)
  | disabled

variable {n : Nat}

def State.setBuf (s : State n) (i : Slot) (f : Buf n → Buf n) : State n :=
  { s with buf := Function.update s.buf i (f (s.buf i)) }

def State.setCall (s : State n) (p : Fin n) (call : Call) : State n :=
  { s with call := Function.update s.call p call }

def State.setJob (s : State n) (p : Fin n) (job : Job) : State n :=
  { s with job := Function.update s.job p job }

/-- `bget` up to `release(&bcache.lock)`. -/
def bget (s : State n) (dev : Dev) (blockno : BlockNo) : Option (Slot × State n) :=
  match s.order.find? fun i => (s.buf i).key = (dev, blockno) with
  | some i => some (i, s.setBuf i fun buf => { buf with refcnt := buf.refcnt + 1 })
  | none =>
    match s.order.reverse.find? fun i => (s.buf i).refcnt = 0 ∧ (s.buf i).dirty = false with
    | some i => some (i, s.setBuf i ({ · with dev, blockno, valid := false, dirty := false, refcnt := 1 }))
    | none => none

def breadBegin (s : State n) (p : Fin n) (dev : Dev) (blockno : BlockNo) : Result n :=
  match bget s dev blockno with
  | some (i, s) => .next (s.setCall p (.locking i (dev, blockno)))
  | none => .panic .noBuffers

def iderw (g : Geometry) (s : State n) (p : Fin n) (i : Slot) : Result n :=
  let buf := s.buf i
  if buf.owner ≠ some p then .panic .notLocked
  else if buf.valid ∧ ¬ buf.dirty then .panic .nothingToDo
  else if buf.dev ≠ ROOTDEV then .panic .notDisk1
  else if g.disksize ≤ buf.blockno.toNat then .panic .outOfRange
  else if buf.dirty then
    .next { s.setBuf i ({ · with dirty := false, valid := true }) with
      disk := Function.update s.disk buf.blockno buf.data }
  else .next (s.setBuf i ({ · with data := s.disk buf.blockno, valid := true }))

def Job.returned : Job → Slot → Job
  | .first which tail, i => .gotFirst which tail i
  | .second which tail i, j => .gotSecond which tail i j
  | .getHead erase, i => .gotHead erase i
  | job, _ => job

def Result.andThen : Result n → (State n → State n) → Result n
  | .next s, f => .next (f s)
  | .panic message, _ => .panic message
  | .disabled, _ => .disabled

def breadEnd (g : Geometry) (s : State n) (p : Fin n) : Result n :=
  match s.call p with
  | .locking i _ =>
    if (s.buf i).owner ≠ none then .disabled
    else
      let s := s.setBuf i ({ · with owner := some p })
      let return_ := fun s : State n => (s.setCall p .ready).setJob p ((s.job p).returned i)
      if (s.buf i).valid then .next (return_ s) else (iderw g s p i).andThen return_
  | _ => .disabled

def bwrite (g : Geometry) (s : State n) (p : Fin n) (i : Slot) (data : Block) : Result n :=
  if (s.buf i).owner ≠ some p then .panic .bwrite
  else iderw g (s.setBuf i ({ · with data := data, dirty := true })) p i

def brelseBegin (s : State n) (p : Fin n) (i : Slot) : Result n :=
  if (s.buf i).owner ≠ some p then .panic .brelse
  else .next ((s.setBuf i ({ · with owner := none })).setCall p (.leaving i))

def brelseEnd (s : State n) (p : Fin n) : Result n :=
  match s.call p with
  | .leaving i =>
    let s := s.setBuf i fun buf => { buf with refcnt := buf.refcnt - 1 }
    .next ({ s with order := if (s.buf i).refcnt = 0 then i :: s.order.erase i else s.order }.setCall p .ready)
  | _ => .disabled

def logWriteBegin (g : Geometry) (s : State n) (p : Fin n) (i : Slot) (data : Block) : Result n :=
  if s.lh.length ≥ Log.LOGSIZE ∨ s.lh.length ≥ g.log.size - 1 then .panic .tooBigTransaction
  else if s.outstanding < 1 then .panic .outsideOfTrans
  else .next (s.setCall p (.logging i data))

local instance : LawfulBEq BlockNo := inferInstance

def logWriteEnd (s : State n) (p : Fin n) : Result n :=
  match s.call p with
  | .logging i data =>
    let b := (s.buf i).blockno
    .next ({ s.setBuf i ({ · with data, dirty := true }) with
      lh := if b ∈ s.lh then s.lh else s.lh ++ [b] }.setCall p .ready)
  | _ => .disabled

/-- `begin_op` returns; a process that has to wait does nothing. -/
def beginOp (s : State n) : Result n :=
  if s.committing then .disabled
  else if s.lh.length + (s.outstanding + 1) * Log.MAXOPBLOCKS > Log.LOGSIZE then .disabled
  else .next { s with outstanding := s.outstanding + 1 }

def endOp (s : State n) (p : Fin n) : Result n :=
  let s := { s with outstanding := s.outstanding - 1 }
  if s.committing then .panic .logCommitting
  else if s.outstanding = 0 then
    .next ({ s with committing := true }.setJob p (if 0 < s.lh.length then .loop .writeLog 0 else .finish))
  else .next s

/-- What follows a loop of `commit`; `log.lh.n` is set to 0 after the second. -/
def loopDone (s : State n) (p : Fin n) : Loop → State n
  | .writeLog => s.setJob p (.head false)
  | .installTrans => { s with lh := [] }.setJob p (.head true)

def roundTarget (s : State n) : Loop → Slot → Slot → Slot × Block
  | .writeLog, i, j => (i, (s.buf j).data)
  | .installTrans, i, j => (j, (s.buf i).data)

def roundReleases : Loop → Slot → Slot → Slot × Slot
  | .writeLog, i, j => (j, i)
  | .installTrans, i, j => (i, j)

def commit (g : Geometry) (s : State n) (p : Fin n) : Result n :=
  match s.job p with
  | .loop which tail =>
    match s.lh[tail]? with
    | some _ => (breadBegin s p ROOTDEV (g.log.logBlock tail)).andThen (·.setJob p (.first which tail))
    | none => .next (loopDone s p which)
  | .gotFirst which tail i =>
    match s.lh[tail]? with
    | some b => (breadBegin s p ROOTDEV b).andThen (·.setJob p (.second which tail i))
    | none => .disabled
  | .gotSecond which tail i j =>
    (bwrite g s p (roundTarget s which i j).1 (roundTarget s which i j).2).andThen
      (·.setJob p (.copied which tail i j))
  | .copied which tail i j =>
    (brelseBegin s p (roundReleases which i j).1).andThen
      (·.setJob p (.half which tail (roundReleases which i j).2))
  | .half which tail k => (brelseBegin s p k).andThen (·.setJob p (.loop which (tail + 1)))
  | .head erase => (breadBegin s p ROOTDEV g.log.start).andThen (·.setJob p (.getHead erase))
  | .gotHead erase i =>
    (bwrite g s p i (Log.headerBlock (s.buf i).data s.lh)).andThen (·.setJob p (.wroteHead erase i))
  | .wroteHead erase i =>
    (brelseBegin s p i).andThen (·.setJob p (if erase then .finish else .loop .installTrans 0))
  | .finish => .next ({ s with committing := false }.setJob p .user)
  | .user | .first _ _ | .second _ _ _ | .getHead _ => .disabled

inductive Action (n : Nat) where
  | bread (p : Fin n) (dev : Dev) (b : BlockNo)
  | lock (p : Fin n)
  | bwrite (p : Fin n) (i : Slot) (data : Block)
  | logWrite (p : Fin n) (i : Slot) (data : Block)
  | append (p : Fin n)
  | brelse (p : Fin n) (i : Slot)
  | unref (p : Fin n)
  | beginOp (p : Fin n)
  | endOp (p : Fin n)
  | commit (p : Fin n)

def State.free (s : State n) (p : Fin n) : Prop :=
  s.call p = .ready ∧ s.job p = .user

instance (call : Call) : Decidable (call = .ready) :=
  match call with
  | .ready => isTrue rfl
  | .locking _ _ | .leaving _ | .logging _ _ => isFalse Call.noConfusion

instance (s : State n) (p : Fin n) : Decidable (s.free p) := inferInstanceAs (Decidable (_ ∧ _))

def act (g : Geometry) (s : State n) : Action n → Result n
  | .bread p dev b => if s.free p then breadBegin s p dev b else .disabled
  | .lock p => breadEnd g s p
  | .bwrite p i data => if s.free p ∧ (s.buf i).owner = some p then bwrite g s p i data else .disabled
  | .logWrite p i data => if s.free p ∧ (s.buf i).owner = some p then logWriteBegin g s p i data else .disabled
  | .append p => logWriteEnd s p
  | .brelse p i => if s.free p ∧ (s.buf i).owner = some p then brelseBegin s p i else .disabled
  | .unref p => brelseEnd s p
  | .beginOp p => if s.free p then beginOp s else .disabled
  | .endOp p => if s.free p then endOp s p else .disabled
  | .commit p => if s.call p = .ready then commit g s p else .disabled

def step (g : Geometry) (s : State n) (a : Action n) : Option (State n) :=
  match act g s a with
  | .next t => some t
  | _ => none

/-- After `binit`: each buffer has been put in front of the ones before it. -/
def binit (n : Nat) (disk : BlockNo → Block) : State n where
  buf := fun _ => {}
  order := (List.finRange NBUF).reverse
  disk := disk
  lh := []
  outstanding := 0
  committing := false
  call := fun _ => .ready
  job := fun _ => .user

end Xv6.Cache
