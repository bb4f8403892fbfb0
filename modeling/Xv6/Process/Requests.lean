import Xv6.Process.Choice
import Xv6.Process.Parameters

namespace Xv6.Process

open Xv6.Data

/-! # Requested priorities

`sys_setpriority` stores a request above 6 as 5, which is more urgent than 6. -/

variable {s t : State} {a : Action} {c : CpuId} {x y : Slot} {pid priority first second : Int} {r : Request}

def stored (priority : Int) : Int := if priority > 6 then 5 else priority

theorem stored_lt_iff (less : min first MAXPRIORITY < min second MAXPRIORITY) :
    stored first < stored second ↔ ¬(first = 5 ∧ MAXPRIORITY < second) := by
  unfold stored
  simp only [MAXPRIORITY] at less ⊢
  omega

/-- The last priority asked for by an accepted call, since the slot was last unused. -/
def lastRequest (s : State) (r : Request) (last : Slot → Option Int) (x : Slot) : Option Int :=
  if (s.proc x).state = .unused then none
  else
    match r with
    | .setpriority pid priority =>
      if (sysSetpriority s pid priority).1 ≠ -1 ∧ s.findSlot (·.pid == pid) = some x then some priority
      else last x
    | _ => last x

def requested (s : State) (requests : List Request) : Slot → Option Int :=
  ghost serve lastRequest s (fun _ => none) requests

structure Stored (s : State) (last : Slot → Option Int) : Prop where
  sound : Sound s
  priority : ∀ x r, (s.proc x).state ≠ .unused → last x = some r → (s.proc x).priority = stored r

theorem priority_of_step (sound : Sound s) (taken : step s a = some t) (used : (s.proc x).state ≠ .unused)
    (other : ∀ pid priority, a ≠ .setPriority pid priority) : (t.proc x).priority = (s.proc x).priority := by
  apply (updates_of_step sound taken x).keeps (P := fun p => p.priority = (s.proc x).priority) _ rfl
  intro p q update same
  cases update with
  | prioritized is named => exact absurd is (other _ _)
  | allocated unused => exact absurd unused used
  | @stacked kstack c embryo => cases kstack <;> exact same
  | @copied parent pgdir embryo => cases pgdir <;> exact same
  | _ => exact same

theorem setPriority_proc (found : s.findSlot (·.pid == pid) = some y) :
    (setPriority s pid priority).2.proc = Function.update s.proc y ((s.proc y).prioritized priority) := by
  unfold setPriority
  rw [found]
  dsimp only
  split
  · rfl
  · rfl

theorem sysSetpriority_accepted (accepted : (sysSetpriority s pid priority).1 ≠ -1) :
    1 ≤ priority ∧ sysSetpriority s pid priority = setPriority s pid (stored priority) := by
  unfold sysSetpriority at accepted ⊢
  split at accepted
  · exact absurd rfl accepted
  · rename_i inside
    split at accepted
    · exact absurd rfl accepted
    · rename_i low
      rw [if_neg inside, if_neg low]
      exact ⟨not_lt.mp low, rfl⟩

variable {last : Slot → Option Int}

theorem Stored.kernel (good : Stored s last) (taken : step s a = some t)
    (other : ∀ pid priority, a ≠ .setPriority pid priority) :
    Stored t fun x => if (s.proc x).state = .unused then none else last x where
  sound := good.sound.step taken
  priority := by
    intro x r _ asked
    split at asked
    · contradiction
    · rename_i used
      rw [priority_of_step good.sound taken used other]
      exact good.priority x r used asked

theorem Stored.same (good : Stored s last) :
    Stored s fun x => if (s.proc x).state = .unused then none else last x where
  sound := good.sound
  priority := by
    intro x r used asked
    rw [if_neg used] at asked
    exact good.priority x r used asked

theorem Stored.setpriority (good : Stored s last) (free : s.lock = .free)
    (accepted : (sysSetpriority s pid priority).1 ≠ -1) :
    Stored (sysSetpriority s pid priority).2 (lastRequest s (.setpriority pid priority) last) := by
  obtain ⟨-, passed⟩ := sysSetpriority_accepted accepted
  have taken : step s (.setPriority pid (stored priority)) = some (sysSetpriority s pid priority).2 := by
    rw [passed]
    simp [step, act, locked, free]
  refine ⟨good.sound.step taken, ?_⟩
  intro x r used asked
  cases found : s.findSlot (·.pid == pid) with
  | none =>
    rw [passed, setPriority_missing found] at used ⊢
    simp only [lastRequest, if_neg used, found] at asked
    exact good.priority x r used (by simpa using asked)
  | some y =>
    rw [passed, setPriority_proc found] at used ⊢
    unfold lastRequest at asked
    split at asked
    · contradiction
    · rename_i live
      dsimp only at asked
      by_cases same : x = y
      · subst same
        rw [if_pos ⟨accepted, found⟩, Option.some.injEq] at asked
        rw [Function.update_self, ← asked]
        rfl
      · have others : s.findSlot (·.pid == pid) ≠ some x := by
          rw [found, Ne, Option.some.injEq]
          exact fun isY => same isY.symm
        rw [if_neg fun both => others both.2] at asked
        rw [Function.update_of_ne same]
        exact good.priority x r live asked

theorem Stored.serve (good : Stored s last) (served : serve s r = some t) :
    Stored t (lastRequest s r last) := by
  cases r with
  | setpriority pid priority =>
    simp only [Process.serve] at served
    split at served
    · rename_i free
      cases served
      by_cases rejected : (sysSetpriority s pid priority).1 = -1
      · have unasked : lastRequest s (.setpriority pid priority) last =
            fun x => if (s.proc x).state = .unused then none else last x := by
          funext x
          simp [lastRequest, rejected]
        rw [unasked, sysSetpriority_rejected rejected]
        exact good.same
      · exact good.setpriority free rejected
    · contradiction
  | setqueue pid queue =>
    simp only [Process.serve] at served
    split at served
    · rename_i enabled
      have free := enabled.1
      cases served
      by_cases rejected : (sysSetqueue s pid queue).1 = -1
      · rw [sysSetqueue_rejected rejected]
        exact good.same
      · obtain ⟨-, -, passed⟩ := sysSetqueue_accepted rejected
        apply good.kernel (a := .setqueue pid queue)
        · rw [passed]
          simp [step, act, locked, free]
        · intro pid priority is
          cases is
    · contradiction
  | other a =>
    simp only [Process.serve] at served
    split at served
    · contradiction
    · rename_i plain
      apply good.kernel served
      intro pid priority is
      subst is
      exact plain rfl

theorem stored_run {ticks : Ticks} {kstack pgdir : Nat} {requests : List Request}
    (ran : exec serve (userinit ticks kstack pgdir) requests = some s) :
    Stored s (requested (userinit ticks kstack pgdir) requests) := by
  apply ghost_invariant Stored _ along_true _ ran
  · refine ⟨sound_userinit ticks kstack pgdir, ?_⟩
    intro x r _ asked
    contradiction
  · intro before last request after good _ served
    exact good.serve served

theorem pass_dispatches (policy : s.policy = POLICY_PRIORITY) (taken : step s (.pass c) = some t)
    (put : (t.cpu c).proc = some y) : findPriority s 3 = some y := by
  have ran := step_eq_some.mp taken
  simp only [act, locked] at ran
  split at ran
  · split at ran
    · rename_i idle
      simp only [pass, policy, ↓reduceIte] at ran
      split at ran
      · rename_i chosen picked
        obtain ⟨_, _, rfl⟩ := dispatch_next ran
        rw [picked]
        simpa [State.setCpu, State.setProc] using put
      · cases ran
        rw [show ((s.release c).cpu c).proc = none by simp [State.release, State.schedulerAt, State.setCpu, idle.1]] at put
        contradiction
    · contradiction
  · contradiction

theorem requests_order (policy : s.policy = POLICY_PRIORITY) (good : Stored s last)
    (less : stored first < stored second) (runnableX : (s.proc x).state = .runnable)
    (runnableY : (s.proc y).state = .runnable) (askedX : last x = some first) (askedY : last y = some second)
    (taken : step s (.pass c) = some t) : (t.cpu c).proc ≠ some y := by
  intro put
  have priorityX := good.priority x first (by simp [runnableX]) askedX
  have priorityY := good.priority y second (by simp [runnableY]) askedY
  have precedes := findPriority_three_some (pass_dispatches policy taken put) runnableX
  unfold Precedes at precedes
  omega

def askFirst (first : Int) : List Request :=
  (firstDispatch ++ forkChild).map .other ++ [.setpriority 2 first]

def yieldToPriority : List Request :=
  [.other (.changepolicy POLICY_PRIORITY), .other (.yield 0), .other (.scheduler 0), .other (.scheduler 0)]

def askedTwice (first second : Int) : List Request := askFirst first ++ .setpriority 1 second :: yieldToPriority

def afterFirst (first : Int) : State := (exec serve (userinit 0 1 2) (askFirst first)).getD (boot 0)

theorem afterFirst_reached (is : first = 5 ∨ first = 6) :
    exec serve (userinit 0 1 2) (askFirst first) = some (afterFirst first) := by
  have reached : (exec serve (userinit 0 1 2) (askFirst first)).isSome = true := by
    rcases is with rfl | rfl <;> decide +kernel
  obtain ⟨s, ran⟩ := Option.isSome_iff_exists.mp reached
  rw [afterFirst, ran]
  rfl

def afterTwo (first : Int) : State := (sysSetpriority (afterFirst first) 1 7).2

theorem serve_above (is : first = 5 ∨ first = 6) (above : MAXPRIORITY < second) :
    serve (afterFirst first) (.setpriority 1 second) = some (afterTwo first) ∧
      (sysSetpriority (afterFirst first) 1 second).1 ≠ -1 := by
  have same : sysSetpriority (afterFirst first) 1 second = sysSetpriority (afterFirst first) 1 7 := by
    simp only [MAXPRIORITY] at above
    unfold sysSetpriority
    rw [if_neg (show ¬second < 1 by omega), if_pos (show second > 6 by omega)]
    rfl
  have accepted : (afterFirst first).lock = .free ∧ (sysSetpriority (afterFirst first) 1 7).1 ≠ -1 := by
    rcases is with rfl | rfl <;> decide +kernel
  constructor
  · simp only [serve, if_pos accepted.1, same]
    rfl
  · rw [same]
    exact accepted.2

def Request.isOther : Request → Bool
  | .other _ => true
  | _ => false

theorem ghost_other {requests : List Request}
    (along : Along serve (fun s r => (s.proc x).state ≠ .unused ∧ r.isOther) s requests) :
    ghost serve lastRequest s last requests x = last x := by
  induction requests generalizing s last with
  | nil => rfl
  | cons request rest ih =>
    obtain ⟨⟨used, isOther⟩, remaining⟩ := along
    have kept : lastRequest s request last x = last x := by
      cases request with
      | other a => simp [lastRequest, used]
      | setpriority pid priority | setqueue pid queue => cases isOther
    cases taken : serve s request with
    | none => simp only [ghost, taken]
    | some next =>
      simp only [ghost, taken]
      rw [ih (remaining next taken), kept]

theorem requested_askedTwice (is : first = 5 ∨ first = 6) (above : MAXPRIORITY < second) :
    requested (userinit 0 1 2) (askedTwice first second) 1 = some first ∧
      requested (userinit 0 1 2) (askedTwice first second) 0 = some second := by
  have asked : requested (userinit 0 1 2) (askFirst first) 1 = some first := by
    rcases is with rfl | rfl <;> decide +kernel
  have slots : (afterFirst first).findSlot (·.pid == 1) = some 0 ∧ ((afterFirst first).proc 0).state ≠ .unused ∧
      ((afterFirst first).proc 1).state ≠ .unused := by
    rcases is with rfl | rfl <;> decide +kernel
  have later (x : Slot) (one : x = 0 ∨ x = 1) :
      Along serve (fun s r => (s.proc x).state ≠ .unused ∧ r.isOther) (afterTwo first) yieldToPriority := by
    rcases one with rfl | rfl <;> rcases is with rfl | rfl <;> decide +kernel
  obtain ⟨served, accepted⟩ := serve_above is above
  obtain ⟨found, usedInit, usedChild⟩ := slots
  have split (x : Slot) : requested (userinit 0 1 2) (askedTwice first second) x =
      ghost serve lastRequest (afterTwo first) (lastRequest (afterFirst first) (.setpriority 1 second)
        (requested (userinit 0 1 2) (askFirst first))) yieldToPriority x := by
    rw [requested, askedTwice, ghost_append (afterFirst_reached is)]
    simp only [ghost, served]
    rfl
  rw [split, split, ghost_other (later 1 (.inr rfl)), ghost_other (later 0 (.inl rfl))]
  constructor
  · simp only [lastRequest, if_neg usedChild, found]
    simpa using asked
  · simp only [lastRequest, if_neg usedInit, found]
    simp [accepted]

theorem askedTwice_overtakes (is : first = 5 ∨ first = 6) (above : MAXPRIORITY < second) : ∃ s t,
    exec serve (userinit 0 1 2) (askedTwice first second) = some s ∧ s.policy = POLICY_PRIORITY ∧
      (s.proc 1).state = .runnable ∧ (s.proc 0).state = .runnable ∧ step s (.pass 0) = some t ∧
      (t.cpu 0).proc = some 0 := by
  have observed : ((exec serve (afterTwo first) yieldToPriority).bind fun s =>
      (step s (.pass 0)).map fun t => (s.policy, (s.proc 1).state, (s.proc 0).state, (t.cpu 0).proc)) =
      some (POLICY_PRIORITY, .runnable, .runnable, some 0) := by
    rcases is with rfl | rfl <;> decide +kernel
  obtain ⟨s, ran, later⟩ := Option.bind_eq_some_iff.mp observed
  obtain ⟨t, taken, seen⟩ := Option.map_eq_some_iff.mp later
  simp only [Prod.mk.injEq] at seen
  obtain ⟨policy, child, init, put⟩ := seen
  refine ⟨s, t, ?_, policy, child, init, taken, put⟩
  rw [askedTwice, exec_append]
  refine ⟨afterFirst first, afterFirst_reached is, ?_⟩
  simp only [exec, (serve_above is above).1, Option.bind_some]
  exact ran

/-- Of two runnable processes whose last accepted requests were `first` and `second`, the
first has no larger priority value, and the `POLICY_PRIORITY` branch never runs the second
if the requests differ below the maximum. -/
def Honoured (first second : Int) : Prop :=
  ∀ ticks kstack pgdir requests s x y, exec serve (userinit ticks kstack pgdir) requests = some s →
    (s.proc x).state = .runnable → (s.proc y).state = .runnable →
    requested (userinit ticks kstack pgdir) requests x = some first →
    requested (userinit ticks kstack pgdir) requests y = some second →
    (s.proc x).priority ≤ (s.proc y).priority ∧
      (min first MAXPRIORITY < min second MAXPRIORITY → s.policy = POLICY_PRIORITY →
        ∀ t c, step s (.pass c) = some t → (t.cpu c).proc ≠ some y)

/-- A smaller request is honoured unless it is 5 or 6 and the other one is above the maximum. -/
theorem requests_honoured_iff (less : first < second) :
    Honoured first second ↔ ¬((first = 5 ∨ first = 6) ∧ MAXPRIORITY < second) := by
  constructor
  · intro honoured ⟨is, above⟩
    obtain ⟨s, t, ran, policy, child, init, taken, put⟩ := askedTwice_overtakes is above
    obtain ⟨askedChild, askedInit⟩ := requested_askedTwice is above
    obtain ⟨ordered, never⟩ := honoured 0 1 2 _ s 1 0 ran child init askedChild askedInit
    rcases is with rfl | rfl
    · exact never (by simp only [MAXPRIORITY] at above ⊢; omega) policy t 0 taken put
    · have good := stored_run ran
      rw [good.priority 1 6 (by simp [child]) askedChild, good.priority 0 second (by simp [init]) askedInit] at ordered
      simp only [stored, MAXPRIORITY] at ordered above
      omega
  · intro apart ticks kstack pgdir requests s x y ran runnableX runnableY askedX askedY
    have good := stored_run ran
    constructor
    · rw [good.priority x first (by simp [runnableX]) askedX, good.priority y second (by simp [runnableY]) askedY]
      simp only [stored, MAXPRIORITY] at apart ⊢
      omega
    · intro smaller policy t c taken
      refine requests_order policy good ((stored_lt_iff smaller).mpr ?_) runnableX runnableY askedX askedY taken
      exact fun both => apart ⟨.inl both.1, both.2⟩

theorem requests_honoured_three_nine : Honoured 3 9 :=
  (requests_honoured_iff (by decide)).mpr (by decide)

theorem request_seven_overtakes_five : ∃ s t,
    exec serve (userinit 0 1 2) (askedTwice 5 7) = some s ∧ s.policy = POLICY_PRIORITY ∧
      requested (userinit 0 1 2) (askedTwice 5 7) 1 = some 5 ∧ requested (userinit 0 1 2) (askedTwice 5 7) 0 = some 7 ∧
      min 5 MAXPRIORITY < min 7 MAXPRIORITY ∧ (s.proc 1).state = .runnable ∧ (s.proc 0).state = .runnable ∧
      step s (.pass 0) = some t ∧ (t.cpu 0).proc = some 0 := by
  have above : MAXPRIORITY < 7 := by decide
  obtain ⟨s, t, ran, policy, child, init, taken, put⟩ := askedTwice_overtakes (.inl rfl) above
  obtain ⟨askedChild, askedInit⟩ := requested_askedTwice (.inl rfl) above
  exact ⟨s, t, ran, policy, askedChild, askedInit, by decide, child, init, taken, put⟩

end Xv6.Process
