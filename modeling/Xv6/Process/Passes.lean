import Xv6.Process.Choice
import Xv6.Process.Turns

namespace Xv6.Process

open Xv6.Data

/-! # The queues of one MLQ pass

The loop `for (i = 1; i <= 4; i++)` computes each queue number from `lastQueue`, which
`sched` overwrites whenever a process comes back in the middle of the loop.
-/

variable {s t u : State} {a : Action} {c d : CpuId} {i n : Nat} {q start : Int} {found : Option Slot}

def takenQueue (c : CpuId) (s : State) : Action → List Int
  | .scheduler d =>
    if d = c then
      match (s.cpu c).scheduler with
      | .mlq i _ => if i ≤ 4 then [newQueue s c i] else []
      | _ => []
    else []
  | _ => []

def takenQueues (c : CpuId) (s : State) (actions : List Action) : List Int :=
  (emitted step (takenQueue c) s actions).flatten

/-- The iteration in which the MLQ loop waits for a process to come back. -/
def SchedPc.waits : SchedPc → Option Nat
  | .mlqSelected i _ _ | .mlqRing i _ _ => some i
  | _ => none

/-- A process that CPU `c` runs before the last iteration belongs to the queue
that is recorded for the CPU. -/
def RunsRecorded (c : CpuId) (s : State) : Prop :=
  ∀ i ∈ (s.cpu c).scheduler.waits, i < 4 → ∀ p ∈ (s.cpu c).proc, (s.proc p).queueNumber = s.lastQueue c

instance : Decidable (RunsRecorded c s) := by
  unfold RunsRecorded
  infer_instance

def SchedPc.begun : SchedPc → Option Nat
  | .mlq (i + 1) _ => some i
  | .mlqSelected i _ _ | .mlqRing i _ _ => some i
  | .idle => some 4
  | _ => none

theorem dispatch_begun {x : Slot} {counted : Bool} {pc : SchedPc}
    (ran : dispatch s c x counted pc = .next t) : (t.cpu c).scheduler = pc := by
  obtain ⟨_, _, rfl⟩ := dispatch_next ran
  simp

theorem mlqTail_begun (ran : mlqTail s c i q found = .next t) :
    (t.cpu c).scheduler.begun = some i := by
  have moved : ((s.schedulerAt c (.mlq (i + 1) found)).cpu c).scheduler.begun = some i := by
    simp [State.schedulerAt, SchedPc.begun]
  cases found with
  | none =>
    cases ran
    exact moved
  | some x =>
    simp only [mlqTail] at ran
    split at ran
    · rw [dispatch_begun ran]
      rfl
    · cases ran
      exact moved

theorem mlqBody_begun (ran : mlqBody s c i found = .next t) : (t.cpu c).scheduler.begun = some i := by
  simp only [mlqBody] at ran
  split at ran
  · cases ran
    simp [State.schedulerAt, SchedPc.begun]
  · split at ran
    · cases popped : popLoop s (s.queue (newQueue s c i)).size (s.queue (newQueue s c i)) found with
      | none => simp [popped] at ran
      | some result =>
        simp only [popped] at ran
        exact mlqTail_begun ran
    · cases chosen : findPriority s (if newQueue s c i = QUEUE_PRIORITY then 1 else 2) with
      | none =>
        simp only [chosen] at ran
        exact mlqTail_begun ran
      | some x =>
        simp only [chosen] at ran
        rw [dispatch_begun ran]
        rfl

theorem SchedPc.waits_of_begun {pc : SchedPc} (begun : pc.begun = some n) (inPass : pc ≠ .idle)
    (away : ¬ pc.AtHead) : pc.waits = some n := by
  cases pc with
  | mlqSelected i q p | mlqRing i q p => exact begun
  | idle => exact absurd rfl inPass
  | mlq | table => exact absurd trivial away
  | priority | tableRun => cases begun

/-- A scheduler step begins an iteration and takes its queue, or goes on with the
iteration begun last. -/
theorem schedulerStep_begun (begun : (s.cpu c).scheduler.begun = some n) (few : n ≤ 4)
    (ran : schedulerStep s c = .next t) :
    n < 4 ∧ takenQueue c s (.scheduler c) = [newQueue s c (n + 1)] ∧
        (t.cpu c).scheduler.begun = some (n + 1) ∨
      takenQueue c s (.scheduler c) = [] ∧ (t.cpu c).scheduler.begun = some n := by
  simp only [schedulerStep] at ran
  cases place : (s.cpu c).scheduler with
  | mlq i found =>
    simp only [place] at ran begun
    cases i with
    | zero => simp [SchedPc.begun] at begun
    | succ i =>
      obtain rfl : i = n := by simpa [SchedPc.begun] using begun
      by_cases more : i + 1 ≤ 4
      · rw [if_pos more] at ran
        exact .inl ⟨more, by simp [takenQueue, place, more], mlqBody_begun ran⟩
      · rw [if_neg more] at ran
        cases ran
        obtain rfl : i = 4 := by omega
        exact .inr ⟨by simp [takenQueue, place], by simp [State.release, State.schedulerAt, SchedPc.begun]⟩
  | mlqSelected i r found =>
    simp only [place] at ran begun
    obtain rfl : i = n := by simpa [SchedPc.begun] using begun
    exact .inr ⟨by simp [takenQueue, place], mlqTail_begun ran⟩
  | mlqRing i r found =>
    simp only [place] at ran begun
    obtain rfl : i = n := by simpa [SchedPc.begun] using begun
    cases ran
    exact .inr ⟨by simp [takenQueue, place], by simp [State.schedulerAt, SchedPc.begun]⟩
  | idle | priority | table | tableRun => simp_all [SchedPc.begun]

theorem takenQueue_other (other : a ≠ .scheduler c) : takenQueue c s a = [] := by
  cases a with
  | scheduler d => exact if_neg fun same => other (by rw [same])
  | _ => rfl

theorem cpu_of_other (effect : Effect s a t) (inPass : (s.cpu c).scheduler ≠ .idle)
    (other : a ≠ .scheduler c) : t.cpu c = s.cpu c := by
  have scheduled {d : CpuId} (apart : c ≠ d) (effect : Scheduled s d t) : t.cpu c = s.cpu c := by
    cases effect with
    | moved | dispatched => exact Function.update_of_ne apart _ _
  by_cases scheduling : a.IsScheduling
  · cases effect with
    | pass free idle none effect => exact scheduled (fun same => inPass (by rw [same, idle])) effect
    | scheduler held effect => exact scheduled (fun same => other (by rw [same])) effect
    | nothing => rfl
    | _ => exact absurd scheduling id
  · rw [cpu_of_effect effect scheduling]

def successive (start : Int) (n : Nat) : List Int :=
  (List.range n).map fun k => (start + (k + 1 : Nat)).tmod 4

theorem successive_succ : successive start (n + 1) = successive start n ++ [(start + (n + 1 : Nat)).tmod 4] := by
  simp [successive, List.range_succ]

theorem successive_perm (range : -1 ≤ start) : (successive start 4).Perm [0, 1, 2, 3] := by
  have shape : successive start 4 =
      [(start + 1).tmod 4, (start + 2).tmod 4, (start + 3).tmod 4, (start + 4).tmod 4] := by
    simp [successive, List.range_succ]
  have cycles : start % 4 = 0 ∨ start % 4 = 1 ∨ start % 4 = 2 ∨ start % 4 = 3 := by omega
  have positive {k : Int} (some : 1 ≤ k) : (start + k).tmod 4 = (start + k) % 4 :=
    Int.tmod_eq_emod_of_nonneg (by omega)
  rw [shape, positive (by decide), positive (by decide), positive (by decide), positive (by decide)]
  have fold (k : Int) : (start + k) % 4 = (start % 4 + k) % 4 := by omega
  rw [fold 1, fold 2, fold 3, fold 4]
  rcases cycles with is | is | is | is <;> rw [is] <;> decide

structure Passing (c : CpuId) (start : Int) (s : State) (taken : List (List Int)) (n : Nat) : Prop where
  begun : (s.cpu c).scheduler.begun = some n
  few : n ≤ 4
  queues : taken.flatten = successive start n
  recorded : n < 4 → s.lastQueue c = start

theorem Passing.step {past : List (List Int)} (sound : Sound s) (passing : Passing c start s past n)
    (inPass : (s.cpu c).scheduler ≠ .idle) (runs : RunsRecorded c s) (taken : step s a = some t) :
    ∃ n', Passing c start t (past ++ [takenQueue c s a]) n' := by
  have effect := sound.effect taken
  by_cases isOwn : a = .scheduler c
  · subst isOwn
    obtain ⟨_, ran⟩ := ite_disabled_next (step_eq_some.mp taken)
    have last : t.lastQueue = s.lastQueue := by
      cases effect with
      | scheduler held effect => exact effect.lastQueue
      | nothing => rfl
    rcases schedulerStep_begun passing.begun passing.few ran with ⟨more, queue, begun⟩ | ⟨queue, begun⟩
    · refine ⟨n + 1, begun, more, ?_, fun _ => by rw [last, passing.recorded more]⟩
      simp [queue, successive_succ, passing.queues, newQueue, passing.recorded more]
    · refine ⟨n, begun, passing.few, by simp [queue, passing.queues], ?_⟩
      rw [last]
      exact passing.recorded
  · have cpu := cpu_of_other effect inPass isOwn
    refine ⟨n, by rw [cpu]; exact passing.begun, passing.few, ?_, fun more => ?_⟩
    · simp [takenQueue_other isOwn, passing.queues]
    · -- Only a process that leaves this CPU writes `lastQueue`, and it writes what is there.
      rcases recorded_of_effect effect with same | ⟨d, p, on, recorded⟩
      · rw [same, passing.recorded more]
      · rw [recorded, Function.update_apply]
        split
        · rename_i same
          rw [← same] at on
          have away : ¬ (s.cpu c).scheduler.AtHead := by
            intro head
            rw [(sound.cpus.head c head).1] at on
            cases on
          rw [runs n (SchedPc.waits_of_begun passing.begun inPass away) more p on, passing.recorded more]
        · exact passing.recorded more

theorem passing_start (policy : s.policy = POLICY_MLQ) (began : Process.step s (.pass c) = some u) :
    Passing c (s.lastQueue c) u [] 0 := by
  obtain ⟨_, ran⟩ := locked_next (step_eq_some.mp began)
  obtain ⟨_, ran⟩ := ite_disabled_next ran
  have notPriority : POLICY_MLQ ≠ POLICY_PRIORITY := by decide
  rw [pass, policy, if_neg notPriority, if_pos rfl] at ran
  cases ran
  refine ⟨?_, Nat.zero_le 4, rfl, fun _ => rfl⟩
  simp [State.schedulerAt, SchedPc.begun]

/-- A whole pass during which the processes that come back before its last iteration
belong to the queue recorded for the CPU takes each of the four queues once. -/
theorem pass_takes_each_queue {during : List Action} (reachable : Reachable s)
    (policy : s.policy = POLICY_MLQ) (range : -1 ≤ s.lastQueue c) (began : step s (.pass c) = some u)
    (ran : exec step u during = some t)
    (inPass : Along step (fun v _ => (v.cpu c).scheduler ≠ .idle) u during)
    (ended : (t.cpu c).scheduler = .idle) (runs : Along step (fun v _ => RunsRecorded c v) u during) :
    (takenQueues c u during).Perm [0, 1, 2, 3] := by
  have invariant : Sound t ∧ ∃ n, Passing c (s.lastQueue c) t (emitted step (takenQueue c) u during) n := by
    apply emitted_invariant (fun v past => Sound v ∧ ∃ n, Passing c (s.lastQueue c) v past n) _ (inPass.and runs) _ ran
    · exact ⟨reachable.sound.step began, 0, passing_start policy began⟩
    · intro before past action after ⟨sound, n, passing⟩ ⟨inPass, runs⟩ taken
      exact ⟨sound.step taken, passing.step sound inPass runs taken⟩
  obtain ⟨_, n, passing⟩ := invariant
  have begun := passing.begun
  rw [ended] at begun
  cases begun
  rw [takenQueues, passing.queues]
  exact successive_perm range

def initPass : List Action :=
  [.scheduler 0, .scheduler 0, .scheduler 0, .scheduler 0, .resume 0, .yield 0, .scheduler 0, .scheduler 0]

theorem pass_takes_each_queue_init : ∃ u t, step (userinit 0 1 2) (.pass 0) = some u ∧
    exec step u initPass = some t ∧ (t.cpu 0).scheduler = .idle ∧ (takenQueues 0 u initPass).Perm [0, 1, 2, 3] := by
  have observed : ((step (userinit 0 1 2) (.pass 0)).bind fun u => (exec step u initPass).map fun t =>
      ((t.cpu 0).scheduler, decide (Along step (fun v _ => (v.cpu 0).scheduler ≠ .idle) u initPass),
        decide (Along step (fun v _ => RunsRecorded 0 v) u initPass))) = some (.idle, true, true) := by
    decide +kernel
  obtain ⟨u, began, later⟩ := Option.bind_eq_some_iff.mp observed
  obtain ⟨t, ran, seen⟩ := Option.map_eq_some_iff.mp later
  simp only [Prod.mk.injEq, decide_eq_true_eq] at seen
  obtain ⟨ended, inPass, runs⟩ := seen
  refine ⟨u, t, began, ran, ended, ?_⟩
  exact pass_takes_each_queue ⟨0, 1, 2, [], rfl⟩ (by decide +kernel) (by decide +kernel) began ran inPass
    ended runs

def childMoved : List Action :=
  firstDispatch ++ forkChild ++ [.setqueue 2 3, .yield 0, .scheduler 0, .scheduler 0]

def childPass : List Action :=
  [.scheduler 0, .scheduler 0, .scheduler 0, .resume 0, .yield 0, .scheduler 0, .scheduler 0, .resume 0,
    .yield 0, .scheduler 0, .scheduler 0]

theorem pass_misses_queue_zero : ∃ s u t, Reachable s ∧ s.policy = POLICY_MLQ ∧
    (s.proc 0).state = .runnable ∧ (s.proc 0).queueNumber = 0 ∧
    step s (.pass 0) = some u ∧ exec step u childPass = some t ∧
    Along step (fun v _ => (v.cpu 0).scheduler ≠ .idle) u childPass ∧ (t.cpu 0).scheduler = .idle ∧
    takenQueues 0 u childPass = [1, 2, 3, 3] := by
  have observed : ((exec step (userinit 0 1 2) childMoved).bind fun s => (step s (.pass 0)).bind fun u =>
      (exec step u childPass).map fun t => ((s.policy, (s.proc 0).state, (s.proc 0).queueNumber),
        decide (Along step (fun v _ => (v.cpu 0).scheduler ≠ .idle) u childPass), (t.cpu 0).scheduler,
        takenQueues 0 u childPass)) = some ((POLICY_MLQ, .runnable, 0), true, .idle, [1, 2, 3, 3]) := by
    decide +kernel
  obtain ⟨s, reached, later⟩ := Option.bind_eq_some_iff.mp observed
  obtain ⟨u, began, later⟩ := Option.bind_eq_some_iff.mp later
  obtain ⟨t, ran, seen⟩ := Option.map_eq_some_iff.mp later
  simp only [Prod.mk.injEq, decide_eq_true_eq] at seen
  obtain ⟨⟨policy, runnable, number⟩, inPass, ended, queues⟩ := seen
  exact ⟨s, u, t, ⟨0, 1, 2, childMoved, reached⟩, policy, runnable, number, began, ran, inPass, ended, queues⟩

end Xv6.Process
