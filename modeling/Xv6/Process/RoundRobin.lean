import Xv6.Process.Choice
import Xv6.Process.Updates

namespace Xv6.Process

open Xv6.Data

/-! # Turns among equals under `POLICY_PRIORITY`

One CPU schedules, and a set of processes that shares the smallest priority value is
runnable whenever it decides.
-/

variable {s t u : State} {a : Action} {c : CpuId} {x y : Slot} {group : Finset Slot} {m : Int} {entry : Proc}

def Proc.standing (p : Proc) : Int × Int := (p.priority, p.scheduledTimes)

theorem standing_of_step (sound : Sound s) (taken : step s a = some t) (other : ¬ a.IsScheduling)
    (used : ∀ d p, (s.cpu d).proc = some p → s.lock = .free → (s.proc x).state ≠ .unused)
    (stays : ∀ pid priority, a = .setPriority pid priority → (s.proc x).pid = pid →
      priority = (s.proc x).priority) : (t.proc x).standing = (s.proc x).standing := by
  apply (updates_of_step sound taken x).keeps (P := fun p => p.standing = (s.proc x).standing) _ rfl
  intro old new update same
  cases update with
  | prioritized is named =>
    rw [stays _ _ is named]
    simp [Proc.standing, Proc.prioritized]
  | allocated unused forks on free => exact absurd unused (used _ _ on free)
  | @stacked kstack => cases kstack <;> exact same
  | @copied parent pgdir => cases pgdir <;> exact same
  | dispatched runnable is =>
    refine absurd ?_ other
    rcases is with is | is <;> rw [is] <;> trivial
  | _ => exact same

/-- What is asked of a run of CPU `c` under `POLICY_PRIORITY`: no other CPU decides; at a
decision the group is runnable, its counts are below the largest `int`, and nobody else
who is runnable has its priority or a smaller one; and nobody changes the priority of a
member. -/
def Equals (c : CpuId) (group : Finset Slot) (m : Int) (s : State) (a : Action) : Prop :=
  s.policy = POLICY_PRIORITY ∧
    match a with
    | .pass d =>
      d = c ∧ (∀ x ∈ group, (s.proc x).state = .runnable) ∧
        (∀ x ∈ group, 0 ≤ (s.proc x).scheduledTimes ∧ (s.proc x).scheduledTimes < MAXINT) ∧
        ∀ y, y ∉ group → (s.proc y).state = .runnable → m < (s.proc y).priority
    | .setPriority pid priority => ∀ x ∈ group, (s.proc x).pid = pid → priority = m
    | _ => True

/-- Only CPU `c` has work, and it is at the top of its loop or in the branch for
`POLICY_PRIORITY`. -/
structure Alone (c : CpuId) (s : State) : Prop where
  others : ∀ d, d ≠ c → s.cpu d = ⟨none, .idle⟩
  place : (s.cpu c).scheduler = .idle ∨ (s.cpu c).scheduler = .priority

structure Sharing (c : CpuId) (group : Finset Slot) (m : Int) (s : State) : Prop where
  sound : Sound s
  alone : Alone c s
  same : ∀ x ∈ group, (s.proc x).priority = m
  near : ∀ x ∈ group, ∀ y ∈ group, (s.proc x).scheduledTimes ≤ (s.proc y).scheduledTimes + 1
  /-- While a process is on the CPU no member sleeps or is gone. -/
  ready : ∀ p, (s.cpu c).proc = some p → s.lock ≠ .scheduler c →
    ∀ x ∈ group, (s.proc x).state = .runnable ∨ (s.proc x).state = .running

theorem Alone.rules (alone : Alone c s) (policy : s.policy = POLICY_PRIORITY) : PriorityRules s := by
  refine ⟨policy, ?_⟩
  intro d
  by_cases same : d = c
  · rw [same]
    exact alone.place
  · rw [alone.others d same]
    exact .inl rfl

theorem Alone.on (alone : Alone c s) {d : CpuId} {p : Slot} (on : (s.cpu d).proc = some p) : d = c := by
  by_contra other
  rw [alone.others d other] at on
  cases on

theorem Alone.step (alone : Alone c s) (allowed : Equals c group m s a) (taken : Process.step s a = some t) :
    Alone c t := by
  have cases := (alone.rules allowed.1).cpu_cases taken
  constructor
  · intro d other
    rcases cases d with same | idle | ⟨x, rfl, _⟩
    · rw [same]
      exact alone.others d other
    · exact idle
    · exact absurd allowed.2.1 other
  · rcases cases c with same | idle | ⟨x, _, _, on⟩
    · rw [same]
      exact alone.place
    · exact .inl (by rw [idle])
    · exact .inr (by rw [on])

theorem lock_of_effect (effect : Effect s a t) (other : ¬ a.IsScheduling) (held : s.lock = .scheduler c) :
    t.lock = .scheduler c := by
  have locked (free : s.lock = .free) : t.lock = .scheduler c := by
    rw [held] at free
    cases free
  cases effect with
  | tick | changepolicy | nothing | syscall | forkStack | forkCopy | exitBegin => exact held
  | wakeup free | kill free | setPriority free | setqueue free => exact locked free
  | fork on free | forkReady on free | exitEnd on free | wait on free | sleep on free | yield on free =>
    exact locked free
  | resume on process =>
    rw [held] at process
    cases process
  | pass | scheduler => exact absurd trivial other

theorem findPriority_group (nonempty : group.Nonempty) (same : ∀ x ∈ group, (s.proc x).priority = m)
    (runnable : ∀ x ∈ group, (s.proc x).state = .runnable)
    (larger : ∀ y, y ∉ group → (s.proc y).state = .runnable → m < (s.proc y).priority) :
    ∃ x ∈ group, findPriority s 3 = some x ∧
      ∀ y ∈ group, (s.proc x).scheduledTimes ≤ (s.proc y).scheduledTimes := by
  obtain ⟨z, member⟩ := nonempty
  cases chosen : findPriority s 3 with
  | none => exact absurd (runnable z member) (findPriority_three_none.mp chosen z)
  | some x =>
    have inGroup : x ∈ group := by
      by_contra outside
      have more := larger x outside (findPriority_runnable chosen)
      rcases findPriority_three_some chosen (runnable z member) with less | ⟨equal, _⟩
      · rw [same z member] at less
        omega
      · rw [same z member] at equal
        omega
    refine ⟨x, inGroup, rfl, ?_⟩
    intro y other
    rcases findPriority_three_some chosen (runnable y other) with less | ⟨_, sooner⟩
    · rw [same x inGroup, same y other] at less
      omega
    · exact sooner.scheduledTimes_le

theorem Edge.of_runnable {new : ProcState} (edge : Edge .runnable new) : new = .running := by
  cases edge
  rfl

namespace Sharing

section

variable (sharing : Sharing c group m s)
include sharing

theorem pass (nonempty : group.Nonempty) (allowed : Equals c group m s (.pass c))
    (taken : Process.step s (.pass c) = some t) :
    Sharing c group m t ∧ ∃ x ∈ group, (t.cpu c).proc = some x := by
  have alone := sharing.alone.step allowed taken
  obtain ⟨policy, _, runnable, few, larger⟩ := allowed
  obtain ⟨x, member, chosen, least⟩ := findPriority_group nonempty sharing.same runnable larger
  have sound := sharing.sound.step taken
  obtain ⟨_, ⟨y, chosen', ran⟩ | ⟨none, _⟩⟩ := (sharing.alone.rules policy).pass_cases taken
  · obtain rfl := Option.some.inj (chosen.symm.trans chosen')
    obtain ⟨_, _, rfl⟩ := dispatch_next ran
    have table (y : Slot) : ((s.setCpu c ⟨some x, .priority⟩).setProc x (·.dispatched s.ticks true)).proc y =
        if y = x then (s.proc x).dispatched s.ticks true else s.proc y := State.setProc_proc
    have counted (y : Slot) :
        (((s.setCpu c ⟨some x, .priority⟩).setProc x (·.dispatched s.ticks true)).proc y).scheduledTimes =
          if y = x then (s.proc x).scheduledTimes + 1 else (s.proc y).scheduledTimes := by
      rw [table]
      split
      · obtain ⟨lower, upper⟩ := few x member
        have limit : (MAXINT : Int) = 2147483647 := rfl
        simp only [Proc.dispatched, if_true]
        rw [Int.bmod_def]
        split <;> omega
      · rfl
    refine ⟨{ sound := sound, alone := alone, same := ?_, near := ?_, ready := ?_ }, x, member, by simp⟩
    · intro y inGroup
      simp only [table]
      split
      · exact sharing.same x member
      · exact sharing.same y inGroup
    · intro y first z second
      have near := sharing.near y first z second
      have leastY := least y first
      have leastZ := least z second
      have nearX := sharing.near y first x member
      simp only [counted]
      split <;> split <;> omega
    · intro p _ _ y inGroup
      simp only [table]
      split
      · exact .inr rfl
      · exact .inl (runnable y inGroup)
  · rw [chosen] at none
    cases none

theorem back {d : CpuId} (allowed : Equals c group m s (.scheduler d))
    (taken : Process.step s (.scheduler d) = some t) : Sharing c group m t := by
  have sound := sharing.sound.step taken
  have alone := sharing.alone.step allowed taken
  have held : s.lock = .scheduler d := (ite_disabled_next (step_eq_some.mp taken)).1
  cases (sharing.alone.rules allowed.1).scheduler_back taken
  refine { sound := sound, alone := alone, same := sharing.same, near := sharing.near, ready := ?_ }
  intro p on _
  by_cases same : d = c
  · subst same
    simp [State.release, State.schedulerAt, State.swtchBack] at on
  · have before : (s.cpu c).proc = some p := by
      simpa [State.release, State.schedulerAt, State.swtchBack, State.setCpu_cpu, Ne.symm same] using on
    exact sharing.ready p before (by simpa [held] using same)

theorem other (allowed : Equals c group m s a) (other : ¬ a.IsScheduling)
    (taken : Process.step s a = some t) : Sharing c group m t := by
  have sound := sharing.sound.step taken
  have effect := sharing.sound.effect taken
  have cpu := cpu_of_effect effect other
  have kept (x : Slot) (member : x ∈ group) : (t.proc x).standing = (s.proc x).standing := by
    apply standing_of_step sharing.sound taken other
    · intro d p on free unused
      obtain rfl := sharing.alone.on on
      rcases sharing.ready p on (by simp [free]) x member with runnable | running
      · rw [unused] at runnable
        cases runnable
      · rw [unused] at running
        cases running
    · rintro pid priority rfl named
      rw [sharing.same x member]
      exact allowed.2 x member named
  have priority (x : Slot) (member : x ∈ group) : (t.proc x).priority = (s.proc x).priority :=
    congrArg Prod.fst (kept x member)
  have times (x : Slot) (member : x ∈ group) : (t.proc x).scheduledTimes = (s.proc x).scheduledTimes :=
    congrArg Prod.snd (kept x member)
  refine { sound := sound, alone := sharing.alone.step allowed taken, same := ?_, near := ?_, ready := ?_ }
  · intro x member
    rw [priority x member]
    exact sharing.same x member
  · intro x first y second
    rw [times x first, times y second]
    exact sharing.near x first y second
  · intro p on away x member
    rw [cpu] at on
    have before : s.lock ≠ .scheduler c := fun held => away (lock_of_effect effect other held)
    rcases sharing.ready p on before x member with runnable | running
    · have moved := sharing.sound.moves (sharing.sound.change taken) x
      rw [runnable] at moved
      rcases moved with same | edge
      · exact .inl same
      · exact .inr edge.of_runnable
    · -- a member that runs is the process on the CPU, which still holds it
      obtain ⟨d, owns⟩ := sharing.sound.cpus.owned x running
      obtain rfl := sharing.alone.on owns
      exact .inr (sound.cpus.running d x (by rw [cpu]; exact owns) away)

theorem step (nonempty : group.Nonempty) (allowed : Equals c group m s a)
    (taken : Process.step s a = some t) : Sharing c group m t := by
  by_cases scheduling : a.IsScheduling
  · cases a with
    | pass d =>
      obtain rfl := allowed.2.1
      exact (sharing.pass nonempty allowed taken).1
    | scheduler d => exact sharing.back allowed taken
    | _ => exact scheduling.elim
  · exact sharing.other allowed scheduling taken

end

end Sharing

def decision (s : State) : Action → Option (Option Slot)
  | .pass c => some ((step s (.pass c)).bind fun t => (t.cpu c).proc)
  | _ => none

/-- As long as no count reaches the largest `int`, every process dispatched is one of the
group, and their counts differ by at most one. -/
theorem equals_take_turns {actions : List Action} (reachable : Reachable s) (alone : Alone c s)
    (idle : (s.cpu c).proc = none) (nonempty : group.Nonempty) (same : ∀ x ∈ group, (s.proc x).priority = m)
    (equal : ∀ x ∈ group, ∀ y ∈ group, (s.proc x).scheduledTimes = (s.proc y).scheduledTimes)
    (along : Along step (Equals c group m) s actions) (ran : exec step s actions = some t) :
    (∀ put, some put ∈ emitted step decision s actions → ∃ x ∈ group, put = some x) ∧
      ∀ x ∈ group, ∀ y ∈ group, (t.proc x).scheduledTimes ≤ (t.proc y).scheduledTimes + 1 := by
  have start : Sharing c group m s := by
    refine { sound := reachable.sound, alone := alone, same := same, near := ?_, ready := ?_ }
    · intro x first y second
      rw [equal x first y second]
      omega
    · intro p on
      rw [idle] at on
      cases on
  have invariant : Sharing c group m t ∧
      ∀ put, some put ∈ emitted step decision s actions → ∃ x ∈ group, put = some x := by
    refine emitted_invariant
      (fun s past => Sharing c group m s ∧ ∀ put, some put ∈ past → ∃ x ∈ group, put = some x)
      ⟨start, by simp⟩ along ?_ ran
    intro s past a t good allowed taken
    refine ⟨good.1.step nonempty allowed taken, ?_⟩
    intro put member
    rcases List.mem_append.mp member with old | new
    · exact good.2 put old
    · have is := List.mem_singleton.mp new
      cases a with
      | pass d =>
        obtain rfl := allowed.2.1
        obtain ⟨_, x, inGroup, on⟩ := good.1.pass nonempty allowed taken
        refine ⟨x, inGroup, ?_⟩
        simpa [decision, taken, on] using is
      | _ => cases is
  exact ⟨invariant.2, invariant.1.near⟩

def twoEquals : List Action :=
  [.changepolicy 2, .pass 0, .resume 0] ++ forkChild ++ [.yield 0, .scheduler 0, .pass 0, .resume 0, .yield 0,
    .scheduler 0]

def afterTwoEquals : State := (exec step (userinit 0 1 2) twoEquals).getD (boot 0)

def oneTurn : List Action := [.pass 0, .resume 0, .yield 0, .scheduler 0]

instance (c : CpuId) (group : Finset Slot) (m : Int) (s : State) : (a : Action) → Decidable (Equals c group m s a)
  | .pass _ => inferInstanceAs (Decidable (_ ∧ _ ∧ _ ∧ _ ∧ _))
  | .setPriority _ _ => inferInstanceAs (Decidable (_ ∧ _))
  | .tick | .wakeup _ | .kill _ | .setqueue _ _ | .changepolicy _ | .syscall _ _ _ | .fork _ | .forkStack _ _
  | .forkCopy _ _ | .forkReady _ | .exitBegin _ | .exitEnd _ | .wait _ | .sleep _ _ | .yield _ | .resume _
  | .scheduler _ => inferInstanceAs (Decidable (_ ∧ True))

theorem afterTwoEquals_reachable : Reachable afterTwoEquals := by
  refine ⟨0, 1, 2, twoEquals, ?_⟩
  have ends : (exec step (userinit 0 1 2) twoEquals).isSome = true := by decide +kernel
  unfold afterTwoEquals
  cases ran : exec step (userinit 0 1 2) twoEquals with
  | none =>
    rw [ran] at ends
    cases ends
  | some s => rfl

theorem afterTwoEquals_alone : Alone 0 afterTwoEquals := by
  constructor
  · intro d other
    cases d with
    | zero => exact absurd rfl other
    | succ d => rfl
  · decide +kernel

theorem equals_take_turns_init_and_child :
    ∃ t, exec step afterTwoEquals (oneTurn ++ oneTurn ++ oneTurn) = some t ∧
      ∀ x ∈ ({0, 1} : Finset Slot), ∀ y ∈ ({0, 1} : Finset Slot),
        (t.proc x).scheduledTimes ≤ (t.proc y).scheduledTimes + 1 := by
  have ends : (exec step afterTwoEquals (oneTurn ++ oneTurn ++ oneTurn)).isSome = true := by decide +kernel
  obtain ⟨t, ran⟩ := Option.isSome_iff_exists.mp ends
  refine ⟨t, ran, ?_⟩
  have along : Along step (Equals 0 {0, 1} 3) afterTwoEquals (oneTurn ++ oneTurn ++ oneTurn) := by decide +kernel
  exact (equals_take_turns afterTwoEquals_reachable afterTwoEquals_alone (by decide +kernel) (by decide)
    (by decide +kernel) (by decide +kernel) along ran).2

def worn : State := { afterTwoEquals with
  proc := fun x => { afterTwoEquals.proc x with scheduledTimes := MAXINT } }

theorem equals_overflow : Alone 0 worn ∧ worn.policy = POLICY_PRIORITY ∧
    (∀ x ∈ ({0, 1} : Finset Slot), (worn.proc x).state = .runnable ∧ (worn.proc x).priority = 3) ∧
    (∀ y ∉ ({0, 1} : Finset Slot), (worn.proc y).state = .unused) ∧
    ∃ t, exec step worn oneTurn = some t ∧ (t.proc 1).scheduledTimes = (t.proc 0).scheduledTimes + (2 ^ 32 - 1) := by
  refine ⟨⟨afterTwoEquals_alone.others, afterTwoEquals_alone.place⟩, by decide +kernel, by decide +kernel,
    by decide +kernel, ?_⟩
  have observed : ((exec step worn oneTurn).map fun t =>
      decide ((t.proc 1).scheduledTimes = (t.proc 0).scheduledTimes + (2 ^ 32 - 1))) = some true := by decide +kernel
  obtain ⟨t, ran, seen⟩ := Option.map_eq_some_iff.mp observed
  exact ⟨t, ran, of_decide_eq_true seen⟩

end Xv6.Process
