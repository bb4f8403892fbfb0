import Xv6.Process.Machine

namespace Xv6.Process

open Xv6.Data

/-! # What a step can do

One inversion for the whole machine. -/

def SchedPc.AtHead : SchedPc → Prop
  | .mlq _ _ | .table _ => True
  | _ => False

/-- The queues are unchanged, or the pop loop has run on one of the two rings. -/
inductive Turned (s : State) : (Int → Queue) → Prop
  | same : Turned s s.queue
  | popped {q : Int} {p p' : Option Slot} {ring : Queue}
      (isRing : q = QUEUE_DEFAULT ∨ q = QUEUE_PRIORITY_RR)
      (run : popLoop s (s.queue q).size (s.queue q) p = some (ring, p')) :
      Turned s (Function.update s.queue q ring)

inductive Scheduled (s : State) (c : CpuId) : State → Prop
  | moved {queue : Int → Queue} {pc : SchedPc} {lock : Lock} (turned : Turned s queue)
      (holds : lock = .scheduler c ∧ pc.AtHead ∨ lock = .free ∧ pc = .idle) :
      Scheduled s c { s.setCpu c ⟨none, pc⟩ with queue, lock }
  | dispatched {queue : Int → Queue} {pc : SchedPc} {x : Slot} {counted : Bool} (turned : Turned s queue)
      (away : ¬ pc.AtHead ∧ pc ≠ .idle)
      (runnable : (s.proc x).state = .runnable)
      (kstack : (s.proc x).kstack ≠ none) (pgdir : (s.proc x).pgdir ≠ none) :
      Scheduled s c { (s.setCpu c ⟨some x, pc⟩).setProc x (·.dispatched s.ticks counted) with
        queue, lock := .process c }

inductive Effect (s : State) : Action → State → Prop
  | tick : Effect s .tick { s with ticks := s.ticks + 1 }
  | wakeup {address : Nat} (free : s.lock = .free) :
      Effect s (.wakeup address) (wakeup1 s (some (.addr address)))
  | kill {pid : Int} {x : Slot} (free : s.lock = .free) (found : s.findSlot (·.pid == pid) = some x) :
      Effect s (.kill pid) (s.setProc x (·.killedAt s.ticks))
  | setPriority {pid priority : Int} {x : Slot} (free : s.lock = .free) (found : (s.proc x).pid = pid) :
      Effect s (.setPriority pid priority)
        ((s.setProc x (·.prioritized priority)).countIn QUEUE_PRIORITY)
  | setqueue {pid queue : Int} (free : s.lock = .free) :
      Effect s (.setqueue pid queue) ((List.finRange NPROC).foldl (setqueueStep pid queue) s)
  | changepolicy {policy : Int} : Effect s (.changepolicy policy) { s with policy }
  | syscall {c : CpuId} {num : Int} {allocated : Bool} {p : Slot} (on : (s.cpu c).proc = some p) :
      Effect s (.syscall c num allocated) (s.setProc p fun q =>
        { q with syscallhistory := updatesyscallhistory num allocated q.syscallhistory })
  | fork {c : CpuId} {p np : Slot} {t : State} (on : (s.cpu c).proc = some p) (free : s.lock = .free)
      (user : (s.proc p).inside = .user) (unused : (s.proc np).state = .unused)
      (allocated : allocproc s = some (np, t)) :
      Effect s (.fork c) (t.setProc p ({ · with inside := .forkStack np }))
  | forkStack {c : CpuId} {p np : Slot} {kstack : Option Nat} (on : (s.cpu c).proc = some p)
      (elsewhere : s.lock ≠ .scheduler c ∧ s.lock ≠ .process c)
      (inside : (s.proc p).inside = .forkStack np) :
      Effect s (.forkStack c kstack) ((s.setProc np (·.stacked s.ticks kstack)).setProc p
        ({ · with inside := if kstack = none then .user else .forkCopy np }))
  | forkCopy {c : CpuId} {p np : Slot} {pgdir : Option Nat} (on : (s.cpu c).proc = some p)
      (elsewhere : s.lock ≠ .scheduler c ∧ s.lock ≠ .process c)
      (inside : (s.proc p).inside = .forkCopy np) :
      Effect s (.forkCopy c pgdir) ((s.setProc np (·.copied p pgdir)).setProc p
        ({ · with inside := if pgdir = none then .user else .forkReady np }))
  | forkReady {c : CpuId} {p np : Slot} (on : (s.cpu c).proc = some p) (free : s.lock = .free)
      (inside : (s.proc p).inside = .forkReady np) :
      Effect s (.forkReady c) ((s.setProc np ({ · with state := .runnable })).setProc p
        ({ · with inside := .user }))
  | exitBegin {c : CpuId} {p : Slot} (on : (s.cpu c).proc = some p)
      (elsewhere : s.lock ≠ .scheduler c ∧ s.lock ≠ .process c)
      (user : (s.proc p).inside = .user) (notInit : p ≠ s.initproc) :
      Effect s (.exitBegin c) (exitBegin s p)
  | exitEnd {c : CpuId} {p : Slot} (on : (s.cpu c).proc = some p) (free : s.lock = .free)
      (inside : (s.proc p).inside = .exit) : Effect s (.exitEnd c) (exitEnd s c p)
  | wait {c : CpuId} {p : Slot} (on : (s.cpu c).proc = some p) (free : s.lock = .free)
      (user : (s.proc p).inside = .user) : Effect s (.wait c) (waitBody s c p)
  | sleep {c : CpuId} {p : Slot} {address : Nat} (on : (s.cpu c).proc = some p) (free : s.lock = .free)
      (inside : (s.proc p).inside = .user ∨ (s.proc p).inside = .exit) :
      Effect s (.sleep c address) (sleep s c p (.addr address))
  | yield {c : CpuId} {p : Slot} (on : (s.cpu c).proc = some p) (free : s.lock = .free) :
      Effect s (.yield c) (yield s c p)
  | resume {c : CpuId} {p : Slot} (on : (s.cpu c).proc = some p) (held : s.lock = .process c) :
      Effect s (.resume c) (resume s c p)
  | pass {c : CpuId} {t : State} (free : s.lock = .free) (idle : (s.cpu c).scheduler = .idle)
      (none : (s.cpu c).proc = none) (effect : Scheduled s c t) : Effect s (.pass c) t
  | scheduler {c : CpuId} {t : State} (held : s.lock = .scheduler c)
      (effect : Scheduled s c t) : Effect s (.scheduler c) t
  | nothing {a : Action} (noTick : a ≠ .tick) (full : ∀ c, a = .fork c → allocproc s = none) : Effect s a s

variable {s t : State} {a : Action} {c : CpuId} {x : Slot} {p : Option Slot} {i k : Nat} {q : Int}
  {counted : Bool} {pc : SchedPc} {queue : Int → Queue}

theorem step_eq_some : step s a = some t ↔ act s a = .next t := by
  unfold step
  cases act s a <;> simp

theorem dispatch_next (ran : dispatch s c x counted pc = .next t) :
    (s.proc x).kstack ≠ none ∧ (s.proc x).pgdir ≠ none ∧
      t = { (s.setCpu c ⟨some x, pc⟩).setProc x (·.dispatched s.ticks counted) with
        lock := .process c } := by
  unfold dispatch at ran
  split at ran
  · contradiction
  · split at ran
    · contradiction
    · rename_i kstack pgdir
      exact ⟨kstack, pgdir, (Result.next.inj ran).symm⟩

theorem Scheduled.of_dispatch (turned : Turned s queue) (away : ¬ pc.AtHead ∧ pc ≠ .idle)
    (runnable : (s.proc x).state = .runnable)
    (ran : dispatch { s with queue } c x counted pc = .next t) : Scheduled s c t := by
  obtain ⟨kstack, pgdir, rfl⟩ := dispatch_next ran
  exact .dispatched turned away runnable kstack pgdir

theorem Scheduled.of_moved (turned : Turned s queue) (head : pc.AtHead)
    (held : s.lock = .scheduler c) (none : (s.cpu c).proc = none) :
    Scheduled s c (({ s with queue } : State).schedulerAt c pc) := by
  have shape : ({ s with queue } : State).schedulerAt c pc =
      { s.setCpu c ⟨.none, pc⟩ with queue, lock := .scheduler c } := by
    simp [State.schedulerAt, State.setCpu, none, held]
  rw [shape]
  exact .moved turned (.inl ⟨rfl, head⟩)

theorem Scheduled.of_release (none : (s.cpu c).proc = none) : Scheduled s c (s.release c) := by
  have shape : s.release c = { s.setCpu c ⟨.none, .idle⟩ with queue := s.queue, lock := .free } := by
    simp [State.release, State.schedulerAt, State.setCpu, none]
  rw [shape]
  exact .moved .same (.inr ⟨rfl, rfl⟩)

theorem mlqTail_scheduled (turned : Turned s queue) (held : s.lock = .scheduler c)
    (none : (s.cpu c).proc = none) (ran : mlqTail { s with queue } c i q p = .next t) :
    Scheduled s c t := by
  cases p with
  | none =>
    cases ran
    exact .of_moved turned trivial held none
  | some x =>
    simp only [mlqTail] at ran
    split at ran
    · rename_i runnable
      exact .of_dispatch turned ⟨id, by simp⟩ runnable ran
    · cases ran
      exact .of_moved turned trivial held none

theorem mlqBody_scheduled (held : s.lock = .scheduler c) (none : (s.cpu c).proc = none)
    (ran : mlqBody s c i p = .next t) : Scheduled s c t := by
  simp only [mlqBody] at ran
  split at ran
  · cases ran
    exact .of_moved .same trivial held none
  · split at ran
    · rename_i isRing
      cases popped : popLoop s (s.queue (newQueue s c i)).size (s.queue (newQueue s c i)) p with
      | none => simp [popped] at ran
      | some result =>
        simp only [popped] at ran
        exact mlqTail_scheduled (.popped isRing popped) held none ran
    · cases chosen : findPriority s (if newQueue s c i = QUEUE_PRIORITY then 1 else 2) with
      | none =>
        simp only [chosen] at ran
        exact mlqTail_scheduled .same held none ran
      | some x =>
        simp only [chosen] at ran
        exact .of_dispatch .same ⟨id, by simp⟩ (findPriority_runnable chosen) ran

theorem tableBody_scheduled (held : s.lock = .scheduler c) (none : (s.cpu c).proc = none)
    (ran : tableBody s c k = .next t) : Scheduled s c t := by
  unfold tableBody at ran
  split at ran
  · split at ran
    · rename_i runnable
      exact .of_dispatch .same ⟨id, by simp⟩ runnable ran
    · cases ran
      exact .of_moved .same trivial held none
  · cases ran
    exact .of_release none

theorem pass_scheduled (none : (s.cpu c).proc = none) (ran : pass s c = .next t) :
    Scheduled s c t := by
  have entered {head : SchedPc} (atHead : head.AtHead) :
      Scheduled s c { s.schedulerAt c head with lock := .scheduler c } := by
    have shape : ({ s.schedulerAt c head with lock := .scheduler c } : State) =
        { s.setCpu c ⟨.none, head⟩ with queue := s.queue, lock := .scheduler c } := by
      simp [State.schedulerAt, State.setCpu, none]
    rw [shape]
    exact .moved .same (.inl ⟨rfl, atHead⟩)
  unfold pass at ran
  split at ran
  · cases chosen : findPriority s 3 with
    | none =>
      simp only [chosen] at ran
      cases ran
      exact .of_release none
    | some x =>
      simp only [chosen] at ran
      exact .of_dispatch .same ⟨id, by simp⟩ (findPriority_runnable chosen) ran
  · split at ran <;> cases ran <;> exact entered trivial

/-- A step after a return from `swtch` does what it would do with `c->proc`
already cleared. -/
theorem Scheduled.of_back (ran : Scheduled (s.swtchBack c) c t) : Scheduled s c t := by
  have same {v : Cpu} : (s.swtchBack c).setCpu c v = s.setCpu c v := by
    simp [State.swtchBack, State.setCpu]
  have turns {queue : Int → Queue} (turned : Turned (s.swtchBack c) queue) : Turned s queue := by
    cases turned with
    | same => exact .same
    | popped isRing run =>
      rw [popLoop_congr (s := s.swtchBack c) (t := s) rfl] at run
      exact .popped isRing run
  cases ran with
  | moved turned holds =>
    rw [same]
    exact .moved (turns turned) holds
  | dispatched turned away runnable kstack pgdir =>
    rw [same]
    exact .dispatched (turns turned) away runnable kstack pgdir

theorem schedulerStep_scheduled (held : s.lock = .scheduler c)
    (heads : (s.cpu c).scheduler.AtHead → (s.cpu c).proc = none)
    (ran : schedulerStep s c = .next t) : Scheduled s c t := by
  have cleared : ((s.swtchBack c).cpu c).proc = none := by simp [State.swtchBack]
  unfold schedulerStep at ran
  split at ran
  · contradiction
  · cases ran
    exact .of_back (.of_release cleared)
  · rename_i i p at_
    have none := heads (by rw [at_]; trivial)
    split at ran
    · exact mlqBody_scheduled held none ran
    · cases ran
      exact .of_release none
  · exact .of_back (mlqTail_scheduled .same held cleared ran)
  · cases ran
    exact .of_back (.of_moved .same trivial held cleared)
  · rename_i k at_
    exact tableBody_scheduled held (heads (by rw [at_]; trivial)) ran
  · cases ran
    exact .of_back (.of_moved .same trivial held cleared)

theorem locked_next {result : Result} (ran : locked s result = .next t) :
    s.lock = .free ∧ result = .next t := by
  unfold locked at ran
  split at ran
  · exact ⟨‹_›, ran⟩
  · contradiction

theorem running_next {part : Slot → Result} (ran : running s c part = .next t) :
    ∃ p, (s.cpu c).proc = some p ∧ (s.lock ≠ .scheduler c ∧ s.lock ≠ .process c) ∧
      part p = .next t := by
  unfold running at ran
  split at ran
  · rename_i p on
    split at ran
    · contradiction
    · rename_i elsewhere
      exact ⟨p, on, not_or.mp elsewhere, ran⟩
  · contradiction

theorem ite_disabled_next {condition : Prop} [Decidable condition] {result : Result}
    (ran : (if condition then result else .disabled) = .next t) : condition ∧ result = .next t := by
  split at ran
  · exact ⟨‹_›, ran⟩
  · contradiction

theorem exitBegin_taken (taken : step s (.exitBegin c) = some t) :
    ∃ p, (s.cpu c).proc = some p ∧ s.lock ≠ .scheduler c ∧ (s.proc p).inside = .user ∧ t = exitBegin s p := by
  obtain ⟨p, on, elsewhere, part⟩ := running_next (step_eq_some.mp taken)
  obtain ⟨user, part⟩ := ite_disabled_next part
  split at part
  · contradiction
  · exact ⟨p, on, elsewhere.1, user, (Result.next.inj part).symm⟩

theorem allocproc_some {np : Slot} (allocated : allocproc s = some (np, t)) :
    (s.proc np).state = .unused ∧
      t = { (s.setProc np (·.allocated s.nextpid)).enqueue QUEUE_DEFAULT np with
        nextpid := s.nextpid + 1 } := by
  unfold allocproc at allocated
  split at allocated
  · contradiction
  · rename_i found
    obtain ⟨rfl, rfl⟩ := Prod.mk.inj (Option.some.inj allocated)
    exact ⟨by simpa using State.findSlot_some found, rfl⟩

theorem setPriority_effect (free : s.lock = .free) (pid priority : Int) :
    Effect s (.setPriority pid priority) (setPriority s pid priority).2 := by
  unfold setPriority
  split
  · rename_i x found
    have distinct : ((s.setProc x (·.prioritized priority)).proc x).queueNumber ≠ QUEUE_DEFAULT ∨
        ((s.setProc x (·.prioritized priority)).proc x).queueNumber ≠ QUEUE_PRIORITY_RR := by
      by_contra both
      obtain ⟨first, second⟩ := not_or.mp both
      exact absurd ((not_not.mp first).symm.trans (not_not.mp second)) (by decide)
    simp only [if_pos distinct]
    exact .setPriority free (by simpa using State.findSlot_some found)
  · exact .nothing (by simp) (by simp)

theorem kill_effect (free : s.lock = .free) (pid : Int) : Effect s (.kill pid) (kill s pid).2 := by
  unfold kill
  split
  · rename_i x found
    exact .kill free found
  · exact .nothing (by simp) (by simp)

theorem setqueue_effect (free : s.lock = .free) (pid queue : Int) :
    Effect s (.setqueue pid queue) (setqueue s pid queue).2 := by
  simp only [setqueue]
  exact .setqueue free

theorem changepolicy_effect (policy : Int) :
    Effect s (.changepolicy policy) (changepolicy s policy).2 := by
  unfold changepolicy
  split
  · exact .nothing (by simp) (by simp)
  · exact .changepolicy

/-- Every step of the machine is one of the listed effects. -/
theorem step_effect
    (heads : ∀ c, s.lock = .scheduler c → (s.cpu c).scheduler.AtHead → (s.cpu c).proc = none)
    (taken : step s a = some t) : Effect s a t := by
  have ran := step_eq_some.mp taken
  cases a with
  | tick =>
    cases ran
    exact .tick
  | wakeup address =>
    obtain ⟨free, ran⟩ := locked_next ran
    cases ran
    exact .wakeup free
  | kill pid =>
    obtain ⟨free, ran⟩ := locked_next ran
    cases ran
    exact kill_effect free pid
  | setPriority pid priority =>
    obtain ⟨free, ran⟩ := locked_next ran
    cases ran
    exact setPriority_effect free pid priority
  | setqueue pid queue =>
    obtain ⟨free, ran⟩ := locked_next ran
    cases Result.next.inj ran
    exact setqueue_effect free pid queue
  | changepolicy policy =>
    cases ran
    exact changepolicy_effect policy
  | syscall c num allocated =>
    obtain ⟨p, on, _, ran⟩ := running_next ran
    obtain ⟨_, ran⟩ := ite_disabled_next ran
    cases ran
    exact .syscall on
  | fork c =>
    obtain ⟨p, on, _, ran⟩ := running_next ran
    obtain ⟨free, ran⟩ := locked_next ran
    obtain ⟨user, ran⟩ := ite_disabled_next ran
    split at ran
    · rename_i np t allocated
      cases ran
      exact .fork on free user (allocproc_some allocated).1 allocated
    · rename_i full
      cases ran
      exact .nothing (by simp) fun _ _ => full
  | forkStack c kstack =>
    obtain ⟨p, on, elsewhere, ran⟩ := running_next ran
    split at ran
    · rename_i np inside
      cases ran
      exact .forkStack on elsewhere inside
    · contradiction
  | forkCopy c pgdir =>
    obtain ⟨p, on, elsewhere, ran⟩ := running_next ran
    split at ran
    · rename_i np inside
      cases ran
      exact .forkCopy on elsewhere inside
    · contradiction
  | forkReady c =>
    obtain ⟨p, on, _, ran⟩ := running_next ran
    obtain ⟨free, ran⟩ := locked_next ran
    split at ran
    · rename_i np inside
      cases ran
      exact .forkReady on free inside
    · contradiction
  | exitBegin c =>
    obtain ⟨p, on, elsewhere, ran⟩ := running_next ran
    obtain ⟨user, ran⟩ := ite_disabled_next ran
    split at ran
    · contradiction
    · cases ran
      exact .exitBegin on elsewhere user ‹_›
  | exitEnd c =>
    obtain ⟨p, on, _, ran⟩ := running_next ran
    obtain ⟨free, ran⟩ := locked_next ran
    obtain ⟨inside, ran⟩ := ite_disabled_next ran
    cases ran
    exact .exitEnd on free inside
  | wait c =>
    obtain ⟨p, on, _, ran⟩ := running_next ran
    obtain ⟨free, ran⟩ := locked_next ran
    obtain ⟨user, ran⟩ := ite_disabled_next ran
    cases ran
    exact .wait on free user
  | sleep c address =>
    obtain ⟨p, on, _, ran⟩ := running_next ran
    obtain ⟨free, ran⟩ := locked_next ran
    obtain ⟨inside, ran⟩ := ite_disabled_next ran
    cases ran
    exact .sleep on free inside
  | yield c =>
    obtain ⟨p, on, _, ran⟩ := running_next ran
    obtain ⟨free, ran⟩ := locked_next ran
    cases ran
    exact .yield on free
  | resume c =>
    simp only [act] at ran
    split at ran
    · rename_i p on
      obtain ⟨held, ran⟩ := ite_disabled_next ran
      cases ran
      exact .resume on held
    · contradiction
  | pass c =>
    obtain ⟨free, ran⟩ := locked_next ran
    obtain ⟨⟨none, idle⟩, ran⟩ := ite_disabled_next ran
    exact .pass free idle none (pass_scheduled none ran)
  | scheduler c =>
    obtain ⟨held, ran⟩ := ite_disabled_next ran
    exact .scheduler held (schedulerStep_scheduled held (heads c held) ran)

end Xv6.Process
