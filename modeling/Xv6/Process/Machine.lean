import Xv6.Process.Calls

namespace Xv6.Process

open Xv6.Data

/-! # The machine

Any number of CPUs run `scheduler` and the processes it dispatches.  An action
is one part of a kernel function that is atomic under `ptable.lock`, or one of
the parts of `fork` and `exit` that run outside it.  Calls that do not depend
on their caller (`wakeup`, `kill`, `setPriority`, `setqueue`, `changepolicy`)
carry only their arguments.
-/

inductive Action where
  | tick
  | wakeup (address : Nat)
  | kill (pid : Int)
  | setPriority (pid priority : Int)
  | setqueue (pid queue : Int)
  | changepolicy (policy : Int)
  | syscall (c : CpuId) (num : Int) (allocated : Bool)
  | fork (c : CpuId)
  | forkStack (c : CpuId) (kstack : Option Nat)
  | forkCopy (c : CpuId) (pgdir : Option Nat)
  | forkReady (c : CpuId)
  | exitBegin (c : CpuId)
  | exitEnd (c : CpuId)
  | wait (c : CpuId)
  | sleep (c : CpuId) (address : Nat)
  | yield (c : CpuId)
  | resume (c : CpuId)
  | pass (c : CpuId)
  | scheduler (c : CpuId)
deriving DecidableEq, Repr

/-- A part that takes `ptable.lock` can start only while the lock is free. -/
def locked (s : State) (result : Result) : Result :=
  if s.lock = .free then result else .disabled

def running (s : State) (c : CpuId) (part : Slot → Result) : Result :=
  match (s.cpu c).proc with
  | some p => if s.lock = .scheduler c ∨ s.lock = .process c then .disabled else part p
  | none => .disabled

def resume (s : State) (c : CpuId) (p : Slot) : State :=
  match (s.proc p).context with
  | .forkret => { s with lock := .free }
  | .yield => { s.setProc p ({ · with lastTime := s.ticks }) with lock := .free }
  | .sleep =>
    let t := s.setProc p ({ · with chan := none })
    if (s.proc p).inside = .wait then waitBody t c p else { t with lock := .free }

def act (s : State) : Action → Result
  | .tick => .next { s with ticks := s.ticks + 1 }
  | .wakeup address => locked s (.next (wakeup1 s (some (.addr address))))
  | .kill pid => locked s (.next (kill s pid).2)
  | .setPriority pid priority => locked s (.next (setPriority s pid priority).2)
  | .setqueue pid queue => locked s (.next (setqueue s pid queue).2)
  | .changepolicy policy => .next (changepolicy s policy).2
  | .syscall c num allocated =>
    running s c fun p =>
      if (s.proc p).inside = .user then
        .next (s.setProc p fun q =>
          { q with syscallhistory := updatesyscallhistory num allocated q.syscallhistory })
      else .disabled
  | .fork c =>
    running s c fun p => locked s <|
      if (s.proc p).inside = .user then
        match allocproc s with
        | some (np, t) => .next (t.setProc p ({ · with inside := .forkStack np }))
        | none => .next s
      else .disabled
  | .forkStack c kstack =>
    running s c fun p =>
      match (s.proc p).inside with
      | .forkStack np =>
        .next ((s.setProc np (·.stacked s.ticks kstack)).setProc p
          ({ · with inside := if kstack = none then .user else .forkCopy np }))
      | _ => .disabled
  | .forkCopy c pgdir =>
    running s c fun p =>
      match (s.proc p).inside with
      | .forkCopy np =>
        .next ((s.setProc np (·.copied p pgdir)).setProc p
          ({ · with inside := if pgdir = none then .user else .forkReady np }))
      | _ => .disabled
  | .forkReady c =>
    running s c fun p => locked s <|
      match (s.proc p).inside with
      | .forkReady np =>
        .next ((s.setProc np ({ · with state := .runnable })).setProc p
          ({ · with inside := .user }))
      | _ => .disabled
  | .exitBegin c =>
    running s c fun p =>
      if (s.proc p).inside = .user then
        if p = s.initproc then .panic .initExiting else .next (exitBegin s p)
      else .disabled
  | .exitEnd c =>
    running s c fun p => locked s <|
      if (s.proc p).inside = .exit then .next (exitEnd s c p) else .disabled
  | .wait c =>
    running s c fun p => locked s <|
      if (s.proc p).inside = .user then .next (waitBody s c p) else .disabled
  | .sleep c address =>
    running s c fun p => locked s <|
      if (s.proc p).inside = .user ∨ (s.proc p).inside = .exit then
        .next (sleep s c p (.addr address))
      else .disabled
  | .yield c => running s c fun p => locked s (.next (yield s c p))
  | .resume c =>
    match (s.cpu c).proc with
    | some p => if s.lock = .process c then .next (resume s c p) else .disabled
    | none => .disabled
  | .pass c =>
    locked s <|
      if (s.cpu c).proc = none ∧ (s.cpu c).scheduler = .idle then pass s c else .disabled
  | .scheduler c => if s.lock = .scheduler c then schedulerStep s c else .disabled

def step (s : State) (a : Action) : Option State :=
  match act s a with
  | .next t => some t
  | _ => none

def Reachable (s : State) : Prop :=
  ∃ ticks kstack pgdir actions, exec step (userinit ticks kstack pgdir) actions = some s

/-! Parts of the runs that witnesses take. -/

def onePass : List Action := [.pass 0, .scheduler 0, .scheduler 0, .scheduler 0, .scheduler 0]

def firstDispatch : List Action := onePass ++ [.resume 0]

def forkChild : List Action := [.fork 0, .forkStack 0 (some 3), .forkCopy 0 (some 4), .forkReady 0]

section

variable {s : State} {c : CpuId} {p : Slot}

@[simp] theorem resume_queue : (resume s c p).queue = s.queue := by
  unfold resume
  split
  · rfl
  · rfl
  · split
    · exact waitBody_queue
    · rfl

@[simp] theorem resume_cpu : (resume s c p).cpu = s.cpu := by
  unfold resume
  split
  · rfl
  · rfl
  · split
    · exact waitBody_cpu
    · rfl

@[simp] theorem resume_ticks : (resume s c p).ticks = s.ticks := by
  unfold resume
  split
  · rfl
  · rfl
  · split
    · exact waitBody_ticks
    · rfl

end

end Xv6.Process
