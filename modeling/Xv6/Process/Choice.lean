import Xv6.Process.Turns

namespace Xv6.Process

open Xv6.Data

/-! # What `findPriority` returns

Modes 1 and 2 return the best member of their queue that has run the fewest times,
unless the tie-break meets an outsider that has run even less.
-/

variable {s t : State} {a : Action} {c : CpuId} {x y : Slot} {q : Int}

/-- What a search in a priority queue is for: a member of the best priority that has
been scheduled least among the members of that priority, if there are members. -/
def RightChoice (s : State) (q : Int) : Option Slot → Prop
  | none => ∀ v, ¬ Member s q v
  | some x => BestMember s q x ∧ ∀ v, Member s q v → (s.proc v).priority = (s.proc x).priority →
      (s.proc x).scheduledTimes ≤ (s.proc v).scheduledTimes

/-- A runnable process of another queue that comes after a best member and has its
priority has been scheduled more often than some best member, or as often and comes
later in the table. -/
def NoIntruder (s : State) (q : Int) : Prop :=
  ∀ y, (s.proc y).state = .runnable → (s.proc y).queueNumber ≠ q →
    ∀ w, BestMember s q w → w < y → (s.proc w).priority = (s.proc y).priority →
      ∃ x, BestMember s q x ∧ Sooner s x y

theorem BestMember.of_same_priority (best : BestMember s q x) (member : Member s q y)
    (same : (s.proc y).priority = (s.proc x).priority) : BestMember s q y := by
  refine ⟨member, ?_⟩
  intro v other
  rw [same]
  exact best.2 v other

theorem Sooner.scheduledTimes_le (sooner : Sooner s x y) :
    (s.proc x).scheduledTimes ≤ (s.proc y).scheduledTimes := by
  rcases sooner with fewer | ⟨equal, _⟩
  · exact fewer.le
  · exact equal.le

theorem rightChoice_iff (isQueue : q = QUEUE_PRIORITY ∨ q = QUEUE_PRIORITY_REVERSE) :
    RightChoice s q (findPriority s (if q = QUEUE_PRIORITY then 1 else 2)) ↔ NoIntruder s q := by
  have inside := findPriority_inside_iff (s := s) isQueue
  have result := findPriority_result s (if q = QUEUE_PRIORITY then 1 else 2)
  cases chosen : findPriority s (if q = QUEUE_PRIORITY then 1 else 2) with
  | none =>
    have none := (findPriority_none_iff isQueue).mp chosen
    refine iff_of_true none ?_
    intro y _ _ w best
    exact absurd best.1 (none w)
  | some x =>
    rw [chosen] at result
    obtain ⟨w, picked⟩ := result
    have first := picked.best.bestMember isQueue
    constructor
    · intro right
      apply inside.mp
      intro other same
      obtain rfl := Option.some.inj (chosen.symm.trans same)
      exact right.1.1.2
    · intro none
      have member : Member s q x := ⟨picked.ties.1, inside.mpr none x chosen⟩
      have best : BestMember s q x := first.of_same_priority member picked.ties.2.2
      refine ⟨best, ?_⟩
      intro v other same
      have ties := picked.best.ties isQueue (best.of_same_priority other same)
      exact (picked.soonest v (List.mem_finRange v) ties).scheduledTimes_le

/-- Modes 1 and 2 make the right choice exactly in the tables without an intruder. -/
theorem findPriority_picks_from_queue_iff (s : State) :
    (RightChoice s QUEUE_PRIORITY (findPriority s 1) ↔ NoIntruder s QUEUE_PRIORITY) ∧
      (RightChoice s QUEUE_PRIORITY_REVERSE (findPriority s 2) ↔ NoIntruder s QUEUE_PRIORITY_REVERSE) := by
  constructor
  · exact rightChoice_iff (q := QUEUE_PRIORITY) (.inl rfl)
  · exact rightChoice_iff (q := QUEUE_PRIORITY_REVERSE) (.inr rfl)

def intruded : State :=
  ((boot 0).setProc 0 ({ · with
      state := .runnable, priority := 3, queueNumber := QUEUE_PRIORITY, scheduledTimes := 1 })).setProc 1
    ({ · with state := .runnable, priority := 3, queueNumber := QUEUE_DEFAULT })

theorem findPriority_picks_intruder :
    findPriority intruded 1 = some 1 ∧ ¬ RightChoice intruded QUEUE_PRIORITY (findPriority intruded 1) := by
  have picked : findPriority intruded 1 = some 1 := by decide +kernel
  refine ⟨picked, ?_⟩
  rw [picked]
  intro right
  exact absurd right.1.1.2 (by decide +kernel)

def Precedes (s : State) (x y : Slot) : Prop :=
  (s.proc x).priority < (s.proc y).priority ∨
    (s.proc x).priority = (s.proc y).priority ∧ Sooner s x y

theorem findPriority_three_none : findPriority s 3 = none ↔ ∀ y, (s.proc y).state ≠ .runnable := by
  have result := findPriority_result s 3
  cases chosen : findPriority s 3 with
  | none =>
    rw [chosen] at result
    refine iff_of_true rfl ?_
    intro y runnable
    exact result y (List.mem_finRange y) ⟨runnable, .inr (.inr rfl)⟩
  | some x =>
    refine iff_of_false (by simp) ?_
    intro none
    exact none x (findPriority_runnable chosen)

theorem findPriority_three_some (chosen : findPriority s 3 = some x) (runnable : (s.proc y).state = .runnable) :
    Precedes s x y := by
  have result := findPriority_result s 3
  rw [chosen] at result
  obtain ⟨w, picked⟩ := result
  have candidate : Candidate s 3 y := ⟨runnable, .inr (.inr rfl)⟩
  have rank (p : Proc) : modeRank 3 p = p.priority := by simp [modeRank]
  have best := picked.best.best y (List.mem_finRange y) candidate
  rw [rank, rank, ← picked.ties.2.2] at best
  rcases lt_or_eq_of_le best with less | same
  · exact .inl less
  · refine .inr ⟨same, picked.soonest y (List.mem_finRange y) ⟨runnable, ?_, ?_⟩⟩
    · by_contra before
      have first := picked.best.first y (List.mem_finRange y) (not_le.mp before) candidate
      rw [rank, rank, ← picked.ties.2.2] at first
      omega
    · rw [← same, picked.ties.2.2]

def Dispatched (s t : State) (c : CpuId) (x : Slot) : Prop := (s.cpu c).proc ≠ some x ∧ (t.cpu c).proc = some x

/-- The policy is in force, and no scheduler is still inside the loop of another one. -/
structure PriorityRules (s : State) : Prop where
  policy : s.policy = POLICY_PRIORITY
  places : ∀ c, (s.cpu c).scheduler = .idle ∨ (s.cpu c).scheduler = .priority

def PolicyStays (s : State) (a : Action) : Prop := ∀ t, step s a = some t → t.policy = POLICY_PRIORITY

def Action.IsScheduling : Action → Prop
  | .pass _ | .scheduler _ => True
  | _ => False

theorem cpu_of_effect (effect : Effect s a t) (other : ¬ a.IsScheduling) : t.cpu = s.cpu := by
  cases effect with
  | fork on free user unused allocated =>
    obtain ⟨_, rfl⟩ := allocproc_some allocated
    rfl
  | setqueue free => rw [foldl_setqueueStep _ (List.nodup_finRange NPROC)]
  | exitEnd on free inside => exact exitEnd_cpu
  | wait on free user => exact waitBody_cpu
  | resume on held => exact resume_cpu
  | pass | scheduler => exact absurd trivial other
  | _ => rfl

namespace PriorityRules

section

variable (rules : PriorityRules s)
include rules

theorem not_atHead (c : CpuId) : ¬ (s.cpu c).scheduler.AtHead := by
  rcases rules.places c with idle | priority
  · rw [idle]
    exact id
  · rw [priority]
    exact id

theorem effect (taken : step s a = some t) : Effect s a t :=
  step_effect (fun c _ head => absurd head (rules.not_atHead c)) taken

theorem pass_cases (taken : step s (.pass c) = some t) : (s.cpu c).proc = none ∧
      ((∃ x, findPriority s 3 = some x ∧ dispatch s c x true .priority = .next t) ∨
        findPriority s 3 = none ∧ t = s.release c) := by
  obtain ⟨_, ran⟩ := locked_next (step_eq_some.mp taken)
  obtain ⟨⟨none, _⟩, ran⟩ := ite_disabled_next ran
  refine ⟨none, ?_⟩
  rw [pass, if_pos rules.policy] at ran
  cases chosen : findPriority s 3 with
  | none =>
    simp only [chosen] at ran
    exact .inr ⟨rfl, (Result.next.inj ran).symm⟩
  | some x =>
    simp only [chosen] at ran
    exact .inl ⟨x, rfl, ran⟩

theorem scheduler_back (taken : step s (.scheduler c) = some t) : t = (s.swtchBack c).release c := by
  obtain ⟨_, ran⟩ := ite_disabled_next (step_eq_some.mp taken)
  rw [schedulerStep] at ran
  rcases rules.places c with idle | priority
  · simp only [idle] at ran
    contradiction
  · simp only [priority] at ran
    exact (Result.next.inj ran).symm

theorem cpu_cases (taken : step s a = some t) (d : CpuId) :
    t.cpu d = s.cpu d ∨ t.cpu d = ⟨none, .idle⟩ ∨
      ∃ x, a = .pass d ∧ findPriority s 3 = some x ∧ t.cpu d = ⟨some x, .priority⟩ := by
  by_cases scheduling : a.IsScheduling
  · cases a with
    | pass c =>
      obtain ⟨none, ⟨x, chosen, ran⟩ | ⟨_, rfl⟩⟩ := rules.pass_cases taken
      · obtain ⟨_, _, rfl⟩ := dispatch_next ran
        by_cases same : d = c
        · subst same
          exact .inr (.inr ⟨x, rfl, chosen, by simp⟩)
        · exact .inl (by simp [State.setCpu_cpu, same])
      · by_cases same : d = c
        · subst same
          exact .inr (.inl (by simp [State.release, State.schedulerAt, none]))
        · exact .inl (by simp [State.release, State.schedulerAt, State.setCpu_cpu, same])
    | scheduler c =>
      cases rules.scheduler_back taken
      by_cases same : d = c
      · subst same
        exact .inr (.inl (by simp [State.release, State.schedulerAt, State.swtchBack]))
      · exact .inl (by simp [State.release, State.schedulerAt, State.swtchBack, State.setCpu_cpu, same])
    | _ => exact scheduling.elim
  · exact .inl (by rw [cpu_of_effect (rules.effect taken) scheduling])

theorem dispatched_first (taken : step s a = some t) (put : Dispatched s t c x) :
    findPriority s 3 = some x := by
  obtain ⟨before, after⟩ := put
  rcases rules.cpu_cases taken c with same | idle | ⟨y, _, chosen, on⟩
  · rw [same] at after
    exact absurd after before
  · rw [idle] at after
    cases after
  · rw [on] at after
    cases after
    exact chosen

theorem step (stays : PolicyStays s a) (taken : Process.step s a = some t) : PriorityRules t := by
  refine ⟨stays t taken, ?_⟩
  intro d
  rcases rules.cpu_cases taken d with same | idle | ⟨x, _, _, on⟩
  · rw [same]
    exact rules.places d
  · rw [idle]
    exact .inl rfl
  · rw [on]
    exact .inr rfl

end

end PriorityRules

/-- Mode 3 returns the first runnable process of the table among the smallest in priority
and then in scheduled times.  So no run that starts with the policy in force and every
scheduler at the top of its loop passes over a smaller priority value. -/
theorem findPriority_lexicographic (s : State) :
    (findPriority s 3 = none ↔ ∀ y, (s.proc y).state ≠ .runnable) ∧
      (∀ x, findPriority s 3 = some x →
        (s.proc x).state = .runnable ∧ ∀ y, (s.proc y).state = .runnable → Precedes s x y) ∧
      (PriorityRules s → ∀ actions t, Along step PolicyStays s actions → exec step s actions = some t →
        ∀ a u c x, step t a = some u → Dispatched t u c x →
          ∀ y, (t.proc y).state = .runnable → (t.proc x).priority ≤ (t.proc y).priority) := by
  refine ⟨findPriority_three_none, ?_, ?_⟩
  · intro x chosen
    exact ⟨findPriority_runnable chosen, fun y => findPriority_three_some chosen⟩
  · intro start actions t along ran a u c x taken put y runnable
    have rules : PriorityRules t :=
      exec_invariant PriorityRules start along (fun _ _ _ rules stays taken => rules.step stays taken) ran
    rcases findPriority_three_some (rules.dispatched_first taken put) runnable with less | ⟨same, _⟩
    · exact less.le
    · exact same.le

instance : Decidable (PolicyStays s a) :=
  match taken : step s a with
  | none => isTrue (by simp [PolicyStays, taken])
  | some t => decidable_of_iff (t.policy = POLICY_PRIORITY) (by simp [PolicyStays, taken])

def withPolicy : State := { userinit 0 1 2 with policy := POLICY_PRIORITY }

def urgentChild : List Action :=
  [.pass 0, .resume 0] ++ forkChild ++ [.setPriority 2 1, .yield 0, .scheduler 0]

theorem findPriority_lexicographic_child : step (userinit 0 1 2) (.changepolicy 2) = some withPolicy ∧
    ∃ t u, exec step withPolicy urgentChild = some t ∧ step t (.pass 0) = some u ∧ Dispatched t u 0 1 ∧
      (t.proc 0).state = .runnable ∧ (t.proc 1).priority ≤ (t.proc 0).priority := by
  have along : Along step PolicyStays withPolicy urgentChild := by decide +kernel
  have observed : ((exec step withPolicy urgentChild).bind fun t => (step t (.pass 0)).map fun u =>
      ((t.cpu 0).proc, (u.cpu 0).proc, (t.proc 0).state)) = some (none, some 1, .runnable) := by decide +kernel
  obtain ⟨t, ran, later⟩ := Option.bind_eq_some_iff.mp observed
  obtain ⟨u, taken, seen⟩ := Option.map_eq_some_iff.mp later
  simp only [Prod.mk.injEq] at seen
  obtain ⟨free, put, runnable⟩ := seen
  have dispatched : Dispatched t u 0 1 := ⟨by simp [free], put⟩
  exact ⟨rfl, t, u, ran, taken, dispatched, runnable, (findPriority_lexicographic withPolicy).2.2 ⟨rfl, fun _ => .inl rfl⟩
    urgentChild t along ran _ u 0 1 taken dispatched 0 runnable⟩

def leftInLoop : List Action :=
  List.flatten [firstDispatch, forkChild, [.setPriority 1 5, .setqueue 1 3, .yield 0, .scheduler 0, .scheduler 0,
    .pass 0, .scheduler 0, .resume 0, .changepolicy 2, .yield 0, .scheduler 0]]

/-- Init has changed the policy inside a round of the MLQ loop, which goes on and runs it
again before the child, whose priority value is smaller. -/
theorem mlq_loop_ignores_priority : ∃ s t, exec step (userinit 0 1 2) leftInLoop = some s ∧
    s.policy = POLICY_PRIORITY ∧ (s.proc 1).state = .runnable ∧ (s.proc 1).priority < (s.proc 0).priority ∧
    step s (.scheduler 0) = some t ∧ Dispatched s t 0 0 := by
  have observed : ((exec step (userinit 0 1 2) leftInLoop).bind fun s => (step s (.scheduler 0)).map fun t =>
      (s.policy, (s.proc 1).state, decide ((s.proc 1).priority < (s.proc 0).priority), (s.cpu 0).proc,
        (t.cpu 0).proc)) = some (POLICY_PRIORITY, .runnable, true, none, some 0) := by decide +kernel
  obtain ⟨s, ran, later⟩ := Option.bind_eq_some_iff.mp observed
  obtain ⟨t, taken, seen⟩ := Option.map_eq_some_iff.mp later
  simp only [Prod.mk.injEq, decide_eq_true_eq] at seen
  obtain ⟨policy, runnable, smaller, free, put⟩ := seen
  exact ⟨s, t, ran, policy, runnable, smaller, taken, by simp [free], put⟩

end Xv6.Process
