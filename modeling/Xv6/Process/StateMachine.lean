import Xv6.Process.Sound

namespace Xv6.Process

open Xv6.Data

/-! # The process state machine

Every step moves every entry along an edge of the life cycle. -/

def Moves (old new : ProcState) : Prop :=
  new = old ∨ Edge old new

variable {s t : State} {a : Action} {c : CpuId} {x p np : Slot}

theorem Proc.Turn.moved {old new : Proc} (turn : old.Turn new) : Moves old.state new.state := by
  cases turn with
  | stays state => exact .inl state
  | moves edge => exact .inr edge
  | reaped zombie reaped =>
    rw [reaped, zombie]
    exact .inr .reap

theorem ForkStep.moved {activity : Activity} {child : Proc} (forks : Forks s)
    (step : ForkStep s t p np activity child) : Moves (s.proc np).state child.state := by
  have embryo {activity : Activity} (inside : (s.proc p).inside = activity)
      (some : activity.child = some np) : (s.proc np).state = .embryo :=
    (forks.parent p np (by rw [inside]; exact some)).2
  cases step with
  | allocate unused =>
    rw [unused]
    exact .inr .allocate
  | noStack inside | noCopy inside =>
    rw [embryo inside rfl]
    exact .inr .abandon
  | stack inside | copy inside => exact .inl rfl
  | ready inside =>
    rw [embryo inside rfl]
    exact .inr .ready

theorem moves_exitEnd (running : (s.proc p).state = .running) (x : Slot) :
    Moves (s.proc x).state ((exitEnd s c p).proc x).state := by
  by_cases same : x = p
  · subst same
    rw [exitEnd_proc_self running, running]
    exact .inr .exit
  · rw [exitEnd_proc same]
    split
    · rename_i wakes
      rw [State.exitWakes_state wakes]
      exact .inr .wake
    · exact .inl rfl

theorem Sound.moves (good : Sound s) (change : Change s a t) (x : Slot) :
    Moves (s.proc x).state (t.proc x).state := by
  cases change with
  | turns init nextpid turns => exact (turns x).moved
  | @fork p np activity child init part forks =>
    by_cases isParent : x = p
    · subst isParent
      rw [part.parent]
      exact .inl rfl
    · by_cases isChild : x = np
      · subst isChild
        rw [part.child]
        exact forks.moved good.forks
      · rw [part.others x isParent isChild]
        exact .inl rfl
  | exitBegin running user notInit result =>
    subst result
    rw [exitBegin_proc]
    split
    · next same => exact same ▸ .inl rfl
    · exact .inl rfl
  | exitEnd running inside result =>
    subst result
    exact moves_exitEnd running x

/-- The two panics of `switchuvm` that a dispatch could reach. -/
def Result.FailsSwitch (result : Result) : Prop :=
  result = .panic .switchuvmNoKstack ∨ result = .panic .switchuvmNoPgdir

def Loaded (s : State) : Prop :=
  ∀ x, (s.proc x).state = .runnable → (s.proc x).kstack ≠ none ∧ (s.proc x).pgdir ≠ none

theorem dispatch_safe {counted : Bool} {pc : SchedPc} (loaded : Loaded s)
    (runnable : (s.proc x).state = .runnable) : ¬ (dispatch s c x counted pc).FailsSwitch := by
  obtain ⟨kstack, pgdir⟩ := loaded x runnable
  simp [dispatch, kstack, pgdir, Result.FailsSwitch]

theorem mlqTail_safe {i : Nat} {q : Int} {p : Option Slot} (loaded : Loaded s) :
    ¬ (mlqTail s c i q p).FailsSwitch := by
  cases p with
  | none => simp [mlqTail, Result.FailsSwitch]
  | some x =>
    simp only [mlqTail]
    split
    · next runnable => exact dispatch_safe loaded runnable
    · simp [Result.FailsSwitch]

theorem mlqBody_safe {i : Nat} {p : Option Slot} (loaded : Loaded s) :
    ¬ (mlqBody s c i p).FailsSwitch := by
  simp only [mlqBody]
  split
  · simp [Result.FailsSwitch]
  · split
    · split
      · simp [Result.FailsSwitch]
      · exact mlqTail_safe loaded
    · split
      · next chosen => exact dispatch_safe loaded (findPriority_runnable chosen)
      · exact mlqTail_safe loaded

theorem tableBody_safe {k : Nat} (loaded : Loaded s) : ¬ (tableBody s c k).FailsSwitch := by
  unfold tableBody
  split
  · split
    · next runnable => exact dispatch_safe loaded runnable
    · simp [Result.FailsSwitch]
  · simp [Result.FailsSwitch]

theorem pass_safe (loaded : Loaded s) : ¬ (pass s c).FailsSwitch := by
  unfold pass
  split
  · split
    · next chosen => exact dispatch_safe loaded (findPriority_runnable chosen)
    · simp [Result.FailsSwitch]
  · split <;> simp [Result.FailsSwitch]

theorem schedulerStep_safe (loaded : Loaded s) : ¬ (schedulerStep s c).FailsSwitch := by
  unfold schedulerStep
  split
  case h_3 =>
    split
    · exact mlqBody_safe loaded
    · simp [Result.FailsSwitch]
  case h_4 => exact mlqTail_safe (s := s.swtchBack c) loaded
  case h_6 => exact tableBody_safe loaded
  all_goals simp [Result.FailsSwitch]

theorem locked_safe {result : Result} (safe : ¬ result.FailsSwitch) : ¬ (locked s result).FailsSwitch := by
  unfold locked
  split
  · exact safe
  · simp [Result.FailsSwitch]

theorem running_safe {part : Slot → Result} (safe : ∀ p, ¬ (part p).FailsSwitch) :
    ¬ (running s c part).FailsSwitch := by
  unfold running
  split
  · split
    · simp [Result.FailsSwitch]
    · exact safe _
  · simp [Result.FailsSwitch]

theorem act_safe (loaded : Loaded s) (a : Action) : ¬ (act s a).FailsSwitch := by
  cases a with
  | tick | changepolicy => simp [act, Result.FailsSwitch]
  | wakeup | kill | setPriority | setqueue => exact locked_safe (by simp [Result.FailsSwitch])
  | syscall | forkStack | forkCopy =>
    refine running_safe fun p => ?_
    split <;> simp [Result.FailsSwitch]
  | fork =>
    refine running_safe fun p => locked_safe ?_
    split
    · split <;> simp [Result.FailsSwitch]
    · simp [Result.FailsSwitch]
  | forkReady | exitEnd | wait | sleep =>
    refine running_safe fun p => locked_safe ?_
    split <;> simp [Result.FailsSwitch]
  | exitBegin =>
    refine running_safe fun p => ?_
    split
    · split <;> simp [Result.FailsSwitch]
    · simp [Result.FailsSwitch]
  | yield => exact running_safe fun p => locked_safe (by simp [Result.FailsSwitch])
  | resume =>
    simp only [act]
    split
    · split <;> simp [Result.FailsSwitch]
    · simp [Result.FailsSwitch]
  | pass =>
    refine locked_safe ?_
    split
    · exact pass_safe loaded
    · simp [Result.FailsSwitch]
  | scheduler =>
    simp only [act]
    split
    · exact schedulerStep_safe loaded
    · simp [Result.FailsSwitch]

theorem OnCpu.running_iff (good : OnCpu s) (free : s.lock = .free) (x : Slot) :
    (s.proc x).state = .running ↔ ∃! c, (s.cpu c).proc = some x := by
  constructor
  · intro running
    obtain ⟨c, on⟩ := good.owned x running
    exact ⟨c, on, fun d onD => good.unique d c x onD on⟩
  · rintro ⟨c, on, _⟩
    exact good.running c x on (by simp [free])

theorem Sound.loaded (good : Sound s) : Loaded s :=
  fun x runnable => good.forks.memory x (.inr (.inl runnable))

/-- In every state any number of CPUs can reach: while the lock is free, a
process is running exactly when one CPU holds it, and what can run has its
memory; no dispatch fails in `switchuvm`; and the next step moves each process
along an edge of its life cycle. -/
theorem process_state_machine (reachable : Reachable s) : (s.lock = .free → ∀ x,
      ((s.proc x).state = .running ↔ ∃! c, (s.cpu c).proc = some x) ∧
      ((s.proc x).state = .runnable ∨ (s.proc x).state = .running →
        (s.proc x).kstack ≠ none ∧ (s.proc x).pgdir ≠ none)) ∧
    (∀ a, act s a ≠ .panic .switchuvmNoKstack ∧ act s a ≠ .panic .switchuvmNoPgdir) ∧
    ∀ a t, step s a = some t → ∀ x, Moves (s.proc x).state (t.proc x).state := by
  have good := reachable.sound
  refine ⟨?_, ?_, ?_⟩
  · intro free x
    exact ⟨good.cpus.running_iff free x, fun live => good.forks.memory x (.inr live)⟩
  · intro a
    exact not_or.mp (act_safe good.loaded a)
  · intro a t taken x
    exact good.moves (good.change taken) x

theorem process_state_machine_init_running : ∃ s, exec step (userinit 0 1 2) firstDispatch = some s ∧
    (s.proc 0).state = .running ∧ (∃! c, (s.cpu c).proc = some 0) ∧ (s.proc 0).kstack ≠ none ∧
    ∀ a t, step s a = some t → Moves .running (t.proc 0).state := by
  have observed : ((exec step (userinit 0 1 2) firstDispatch).map fun s => ((s.proc 0).state, s.lock)) =
      some (.running, .free) := by decide
  obtain ⟨s, ran, seen⟩ := Option.map_eq_some_iff.mp observed
  obtain ⟨running, free⟩ := Prod.mk.inj seen
  obtain ⟨held, _, moves⟩ := process_state_machine ⟨0, 1, 2, firstDispatch, ran⟩
  obtain ⟨unique, memory⟩ := held free 0
  refine ⟨s, ran, running, unique.mp running, (memory (.inr running)).1, ?_⟩
  intro a t taken
  have moved := moves a t taken 0
  rwa [running] at moved

end Xv6.Process
