import Xv6.Process.Updates

namespace Xv6.Process

open Xv6.Data

/-! # Charging of CPU and waiting time

`last_time` marks the moment up to which a process has been charged.  `kill` and the
end of `yield` move it without charging, `yield` charges without moving it, and `exit`
does neither.
-/

variable {s t : State} {a : Action} {c : CpuId} {x y p np : Slot} {ticks : Ticks}

structure Elapsed where
  running : Slot → Nat
  ready : Slot → Nat

def Elapsed.zero : Elapsed := ⟨fun _ => 0, fun _ => 0⟩

/-- One tick counts for every process by its state; a new process starts at zero. -/
def Elapsed.advance (s : State) (a : Action) (elapsed : Elapsed) : Elapsed :=
  match a with
  | .tick =>
    { running := fun x => if (s.proc x).state = .running then elapsed.running x + 1 else elapsed.running x
      ready := fun x =>
        if (s.proc x).state = .embryo ∨ (s.proc x).state = .runnable then elapsed.ready x + 1
        else elapsed.ready x }
  | .fork _ =>
    match allocproc s with
    | some (np, _) => ⟨Function.update elapsed.running np 0, Function.update elapsed.ready np 0⟩
    | none => elapsed
  | _ => elapsed

def elapsed (s : State) (actions : List Action) : Elapsed :=
  ghost step Elapsed.advance s .zero actions

/-- A new process whose clocks `allocproc` has not set yet. -/
def Unstamped (s : State) (x : Slot) : Prop :=
  ∃ p, (s.proc p).inside = .forkStack x

/-- No tick has passed since `last_time` when a call is made that would lose it
or count it twice, and none passes while a new process is not stamped. -/
def Undisturbed (s : State) : Action → Prop
  | .tick => ∀ x, ¬ Unstamped s x
  | .kill pid => ∀ x, s.findSlot (·.pid == pid) = some x →
      (s.proc x).state = .running ∨ (s.proc x).state = .runnable ∨
        (s.proc x).state = .embryo ∧ ¬ Unstamped s x → (s.proc x).lastTime = s.ticks
  | .exitBegin c | .yield c => ∀ p, (s.cpu c).proc = some p → (s.proc p).lastTime = s.ticks
  | .resume c => ∀ p, (s.cpu c).proc = some p → (s.proc p).context = .yield → (s.proc p).lastTime = s.ticks
  | _ => True

/-- The times of an entry, with what is not charged yet, are the elapsed ones. -/
structure Proc.Charged (p : Proc) (ticks : Ticks) (unstamped : Prop) (running ready : Nat) : Prop where
  onCpu : p.state = .running →
    p.runningTime + (ticks - p.lastTime) = BitVec.ofNat 32 running ∧ p.readyTime = BitVec.ofNat 32 ready
  waiting : p.state = .runnable ∨ p.state = .embryo ∧ ¬ unstamped →
    p.runningTime = BitVec.ofNat 32 running ∧ p.readyTime + (ticks - p.lastTime) = BitVec.ofNat 32 ready
  asleep : p.state = .sleeping →
    p.runningTime = BitVec.ofNat 32 running ∧ p.readyTime = BitVec.ofNat 32 ready
  fresh : p.state = .embryo → unstamped → running = 0 ∧ ready = 0

def Charged (s : State) (elapsed : Elapsed) : Prop :=
  ∀ x, (s.proc x).Charged s.ticks (Unstamped s x) (elapsed.running x) (elapsed.ready x)

inductive Proc.Clock (ticks : Ticks) (unstamped : Prop) (old new : Proc) : Prop
  | same (state : new.state = old.state) (running : new.runningTime = old.runningTime)
      (ready : new.readyTime = old.readyTime) (last : new.lastTime = old.lastTime)
  | woken (before : old.state = .sleeping) (after : new.state = .runnable)
      (running : new.runningTime = old.runningTime) (ready : new.readyTime = old.readyTime)
      (last : new.lastTime = ticks)
  | grown (before : old.state = .embryo) (stamped : ¬ unstamped) (after : new.state = .runnable)
      (running : new.runningTime = old.runningTime) (ready : new.readyTime = old.readyTime)
      (last : new.lastTime = old.lastTime)
  | dispatched (before : old.state = .runnable) (after : new.state = .running)
      (running : new.runningTime = old.runningTime)
      (ready : new.readyTime = old.readyTime + (ticks - old.lastTime)) (last : new.lastTime = ticks)
  | asleep (before : old.state = .running) (after : new.state = .sleeping)
      (running : new.runningTime = old.runningTime + (ticks - old.lastTime))
      (ready : new.readyTime = old.readyTime) (last : new.lastTime = ticks)
  | yielded (before : old.state = .running) (after : new.state = .runnable)
      (running : new.runningTime = old.runningTime + (ticks - old.lastTime))
      (ready : new.readyTime = old.readyTime) (last : new.lastTime = old.lastTime)
      (now : old.lastTime = ticks)
  | restarted (state : new.state = old.state) (running : new.runningTime = old.runningTime)
      (ready : new.readyTime = old.readyTime) (last : new.lastTime = ticks)
      (now : old.state = .running ∨ old.state = .runnable ∨ old.state = .embryo ∧ ¬ unstamped →
        old.lastTime = ticks)
  | ended (after : new.state = .unused ∨ new.state = .zombie)

theorem Proc.Clock.refl {unstamped : Prop} (p : Proc) : p.Clock ticks unstamped p :=
  .same rfl rfl rfl rfl

theorem Proc.Clock.charged {unstamped unstamped' : Prop} {old new : Proc} {running ready : Nat}
    (clock : Proc.Clock ticks unstamped old new) (stamps : unstamped' ↔ unstamped)
    (good : old.Charged ticks unstamped running ready) : new.Charged ticks unstamped' running ready := by
  have zero : ticks - ticks = 0 := BitVec.sub_self ticks
  rw [stamps]
  cases clock with
  | same state run rdy last =>
    refine { onCpu := ?_, waiting := ?_, asleep := ?_, fresh := ?_ } <;> rw [state]
    · rw [run, rdy, last]
      exact good.onCpu
    · rw [run, rdy, last]
      exact good.waiting
    · rw [run, rdy]
      exact good.asleep
    · exact good.fresh
  | woken before after run rdy last =>
    obtain ⟨runs, waits⟩ := good.asleep before
    refine { onCpu := by simp [after], waiting := fun _ => ?_, asleep := by simp [after],
             fresh := by simp [after] }
    rw [run, rdy, last, zero]
    exact ⟨runs, by simpa using waits⟩
  | grown before stamped after run rdy last =>
    refine { onCpu := by simp [after], waiting := fun _ => ?_, asleep := by simp [after],
             fresh := by simp [after] }
    rw [run, rdy, last]
    exact good.waiting (.inr ⟨before, stamped⟩)
  | dispatched before after run rdy last =>
    obtain ⟨runs, waits⟩ := good.waiting (.inl before)
    refine { onCpu := fun _ => ?_, waiting := by simp [after], asleep := by simp [after],
             fresh := by simp [after] }
    rw [run, rdy, last, zero]
    exact ⟨by simpa using runs, waits⟩
  | asleep before after run rdy last =>
    obtain ⟨runs, waits⟩ := good.onCpu before
    refine { onCpu := by simp [after], waiting := by simp [after], asleep := fun _ => ?_,
             fresh := by simp [after] }
    rw [run, rdy]
    exact ⟨runs, waits⟩
  | yielded before after run rdy last now =>
    obtain ⟨runs, waits⟩ := good.onCpu before
    refine { onCpu := by simp [after], waiting := fun _ => ?_, asleep := by simp [after],
             fresh := by simp [after] }
    rw [run, rdy, last, now, zero]
    rw [now, zero] at runs
    exact ⟨by simpa using runs, by simpa using waits⟩
  | restarted state run rdy last now =>
    refine { onCpu := fun is => ?_, waiting := fun is => ?_, asleep := fun is => ?_, fresh := ?_ }
    · rw [state] at is
      rw [run, rdy, last, ← now (.inl is)]
      have := good.onCpu is
      rwa [now (.inl is)] at this ⊢
    · rw [state] at is
      have moment := now (.inr is)
      rw [run, rdy, last]
      have := good.waiting is
      rwa [moment] at this
    · rw [state] at is
      rw [run, rdy]
      exact good.asleep is
    · rw [state]
      exact good.fresh
  | ended after =>
    refine { onCpu := ?_, waiting := ?_, asleep := ?_, fresh := ?_ } <;>
      rcases after with after | after <;> simp [after]

theorem Proc.clock_killedAt {unstamped : Prop} (proc : Proc)
    (now : proc.state = .running ∨ proc.state = .runnable ∨ proc.state = .embryo ∧ ¬ unstamped →
      proc.lastTime = ticks) : proc.Clock ticks unstamped (proc.killedAt ticks) := by
  by_cases asleep : proc.state = .sleeping
  · exact .woken asleep (by simp [Proc.killedAt, asleep]) rfl rfl rfl
  · exact .restarted (by simp [Proc.killedAt, asleep]) rfl rfl rfl now

theorem Proc.Update.clock {old new : Proc} (update : Proc.Update s a x old new) (undisturbed : Undisturbed s a)
    (plain : ¬ a.Forks) : old.Clock s.ticks (Unstamped s x) new := by
  cases update with
  | woken asleep => exact .woken asleep rfl rfl rfl rfl
  | killed is found =>
    subst is
    exact Proc.clock_killedAt _ (undisturbed _ found)
  | prioritized | requeued | counted | exits | adopted | awakes | enters => exact .same rfl rfl rfl rfl
  | copied _ forks | ready _ _ forks => exact absurd forks plain
  | allocated _ is | stacked _ is => exact absurd (by rw [is]; trivial) plain
  | ends => exact .ended (.inr rfl)
  | reaped => exact .ended (.inl rfl)
  | sleeps running => exact .asleep running rfl (by simp [Proc.asleep, running]) (by simp [Proc.asleep, running]) rfl
  | yields running free is on =>
    subst is
    exact .yielded running rfl rfl rfl rfl (undisturbed _ on)
  | dispatched runnable => exact .dispatched runnable rfl rfl rfl rfl
  | stamped running is on yielded =>
    subst is
    exact .restarted rfl rfl rfl rfl fun _ => undisturbed _ on yielded

theorem stacking_of_step (sound : Sound s) (taken : step s a = some t) (plain : ¬ a.Forks) (p : Slot) :
    ∀ y, (t.proc p).inside = .forkStack y ↔ (s.proc p).inside = .forkStack y := by
  apply (updates_of_step sound taken p).keeps
    (P := fun q => ∀ y, q.inside = .forkStack y ↔ (s.proc p).inside = .forkStack y) _ fun _ => .rfl
  intro old new update before y
  cases update with
  | exits running user => simp [user]
  | enters running _ _ idle =>
    obtain ⟨none, child⟩ := idle.resolve_left plain
    have other {activity : Activity} (none : activity.child = .none) : activity ≠ .forkStack y := by
      intro is
      rw [is] at none
      contradiction
    rw [← before y]
    exact iff_of_false (other child) (other none)
  | copied _ forks | ready _ _ forks => exact absurd forks plain
  | allocated _ is | stacked _ is => exact absurd (by rw [is]; trivial) plain
  | _ => exact before y

theorem Charged.kept {elapsed : Elapsed} (good : Charged s elapsed) (sound : Sound s) (undisturbed : Undisturbed s a)
    (taken : step s a = some t) (noTick : a ≠ .tick) (plain : ¬ a.Forks) : Charged t elapsed := by
  intro x
  have stamps : Unstamped t x ↔ Unstamped s x := exists_congr fun p => stacking_of_step sound taken plain p x
  rw [ticks_of_step sound taken noTick]
  refine (Proc.Clock.refl _).charged stamps ?_
  apply (updates_of_step sound taken x).keeps
    (P := fun p => p.Charged s.ticks (Unstamped s x) (elapsed.running x) (elapsed.ready x)) _ (good x)
  intro old new update
  exact (update.clock undisturbed plain).charged .rfl

section

variable {activity : Activity} {child : Proc} {elapsed : Elapsed}

theorem ForkStep.inside_iff (step : ForkStep s t p np activity child) (other : y ≠ np) :
    activity = .forkStack y ↔ (s.proc p).inside = .forkStack y := by
  cases step with
  | allocate unused nextpid user => simp [user, other.symm]
  | noStack inside | stack inside => simp [inside, other.symm]
  | noCopy inside | copy inside | ready inside => simp [inside]

theorem ForkPart.unstamped_iff (forks : Forks s) (part : ForkPart s t p np activity child)
    (step : ForkStep s t p np activity child) (dead : ¬ (s.proc np).Live)
    (inert : child.inside.child = none) (other : x ≠ np) : Unstamped t x ↔ Unstamped s x := by
  have idle := forks.not_forking dead
  refine exists_congr fun q => ?_
  by_cases isParent : q = p
  · rw [isParent, part.parent]
    exact step.inside_iff other
  · by_cases isChild : q = np
    · rw [isChild, part.child]
      refine iff_of_false ?_ ?_
      · intro is
        simp [is, Activity.child] at inert
      · intro is
        simp [is, Activity.child] at idle
    · rw [part.others q isParent isChild]

theorem ForkPart.unstamped_child (part : ForkPart s t p np activity child)
    (inert : child.inside.child = none) : Unstamped t np ↔ activity = .forkStack np := by
  constructor
  · rintro ⟨q, inside⟩
    by_cases isParent : q = p
    · rwa [isParent, part.parent] at inside
    · by_cases isChild : q = np
      · rw [isChild, part.child] at inside
        simp [inside, Activity.child] at inert
      · rw [part.others q isParent isChild] at inside
        exact absurd (by rw [inside]; rfl) (part.free q isParent)
  · intro is
    exact ⟨p, by rw [part.parent]; exact is⟩

theorem ForkStep.child_facts (forks : Forks s) (step : ForkStep s t p np activity child) :
    ¬ (s.proc np).Live ∧ child.inside.child = none := by
  have owned {activity : Activity} (inside : (s.proc p).inside = activity)
      (some : activity.child = some np) : ¬ (s.proc np).Live := by
    have embryo := (forks.parent p np (by rw [inside]; exact some)).2
    exact fun live => live.not_embryo embryo
  cases step with
  | allocate unused =>
    have dead : ¬ (s.proc np).Live := by simp [Proc.Live, unused]
    exact ⟨dead, forks.not_forking dead⟩
  | noStack inside | noCopy inside | copy inside | ready inside =>
    exact ⟨owned inside rfl, forks.not_forking (owned inside rfl)⟩
  | stack inside => exact ⟨owned inside rfl, rfl⟩

theorem Proc.charged_dead {proc : Proc} {unstamped : Prop} {running ready : Nat}
    (dead : proc.state = .unused) : proc.Charged ticks unstamped running ready := by
  constructor <;> simp [dead]

theorem Forks.stamped (forks : Forks s) (owned : (s.proc p).inside.child = some np)
    (past : (s.proc p).inside ≠ .forkStack np) : ¬ Unstamped s np := by
  rintro ⟨q, stacking⟩
  have same : q = p := forks.unique q p np (by rw [stacking]; rfl) owned
  exact past (same ▸ stacking)

theorem Charged.forkChild (good : Charged s elapsed) (forks : Forks s)
    (step : ForkStep s t p np activity child) (kept : activity ≠ .forkStack np) :
    child.Charged s.ticks False (elapsed.running np) (elapsed.ready np) := by
  have owned {before : Activity} (inside : (s.proc p).inside = before) (some : before.child = some np) :
      (s.proc p).inside.child = .some np ∧ (s.proc np).state = .embryo := by
    rw [← inside] at some
    exact ⟨some, (forks.parent p np some).2⟩
  cases step with
  | allocate => exact absurd rfl kept
  | noStack | noCopy => exact Proc.charged_dead rfl
  | @stack kstack inside =>
    obtain ⟨running, ready⟩ := (good np).fresh (owned inside rfl).2 ⟨p, inside⟩
    rw [running, ready]
    have embryo : ((s.proc np).stacked s.ticks (some kstack)).state = .embryo := (owned inside rfl).2
    refine { onCpu := by simp [embryo], waiting := fun _ => ?_, asleep := by simp [embryo],
             fresh := fun _ => False.elim }
    simp [Proc.stacked]
  | @copy pgdir inside =>
    have stamped := forks.stamped (owned inside rfl).1 (by simp [inside])
    have clock : (s.proc np).Clock s.ticks (Unstamped s np) ((s.proc np).copied p (some pgdir)) :=
      .same rfl rfl rfl rfl
    exact clock.charged (iff_of_false id stamped) (good np)
  | ready inside =>
    obtain ⟨child, embryo⟩ := owned inside rfl
    have stamped := forks.stamped child (by simp [inside])
    exact Proc.Clock.charged (.grown embryo stamped rfl rfl rfl rfl) (iff_of_false id stamped) (good np)

theorem Charged.forkStep {after : Elapsed} (good : Charged s elapsed) (forks : Forks s)
    (part : ForkPart s t p np activity child) (step : ForkStep s t p np activity child)
    (now : t.ticks = s.ticks)
    (others : ∀ x, x ≠ np → after.running x = elapsed.running x ∧ after.ready x = elapsed.ready x)
    (fresh : activity = .forkStack np → after.running np = 0 ∧ after.ready np = 0)
    (kept : activity ≠ .forkStack np → after = elapsed) : Charged t after := by
  obtain ⟨dead, inert⟩ := step.child_facts forks
  intro x
  rw [now]
  by_cases isChild : x = np
  · subst isChild
    rw [part.child]
    by_cases new : activity = .forkStack x
    · obtain ⟨running, ready⟩ := fresh new
      have unstamped := (part.unstamped_child inert).mpr new
      have embryo : child.state = .embryo := by
        cases step with
        | allocate => rfl
        | noStack | stack | noCopy | copy | ready => contradiction
      rw [running, ready]
      exact { onCpu := by simp [embryo], waiting := by simp [embryo, unstamped], asleep := by simp [embryo],
              fresh := fun _ _ => ⟨rfl, rfl⟩ }
    · have stamped := mt (part.unstamped_child inert).mp new
      rw [kept new, eq_false stamped]
      exact good.forkChild forks step new
  · obtain ⟨running, ready⟩ := others x isChild
    rw [running, ready]
    refine Proc.Clock.charged ?_ (part.unstamped_iff forks step dead inert isChild) (good x)
    by_cases isParent : x = p
    · rw [isParent, part.parent]
      exact .same rfl rfl rfl rfl
    · rw [part.others x isParent isChild]
      exact .refl _

end

theorem Charged.tick {elapsed : Elapsed} (good : Charged s elapsed) (settled : ∀ x, ¬ Unstamped s x) :
    Charged { s with ticks := s.ticks + 1 } (elapsed.advance s .tick) := by
  intro x
  have entry := good x
  have later : s.ticks + 1 - (s.proc x).lastTime = s.ticks - (s.proc x).lastTime + 1 := by ring
  have next (n : Nat) : BitVec.ofNat 32 (n + 1) = BitVec.ofNat 32 n + 1 := BitVec.ofNat_add n 1
  have stamps : ¬ Unstamped { s with ticks := s.ticks + 1 } x := settled x
  refine { onCpu := ?_, waiting := ?_, asleep := ?_, fresh := fun _ unstamped => absurd unstamped stamps }
  · intro (is : (s.proc x).state = .running)
    obtain ⟨runs, waits⟩ := entry.onCpu is
    simp only [Elapsed.advance, is, later, reduceCtorEq, or_self, if_true, if_false]
    rw [← BitVec.add_assoc, runs, next]
    exact ⟨rfl, waits⟩
  · intro (is : (s.proc x).state = .runnable ∨ (s.proc x).state = .embryo ∧ _)
    have state : (s.proc x).state = .embryo ∨ (s.proc x).state = .runnable := is.symm.imp And.left id
    have notRunning : (s.proc x).state ≠ .running := by rcases state with is | is <;> simp [is]
    obtain ⟨runs, waits⟩ := entry.waiting (is.imp_right fun new => ⟨new.1, settled x⟩)
    simp only [Elapsed.advance, if_neg notRunning, if_pos state, later]
    rw [← BitVec.add_assoc, waits, next]
    exact ⟨runs, rfl⟩
  · intro (is : (s.proc x).state = .sleeping)
    simp only [Elapsed.advance, is, reduceCtorEq, or_self, if_false]
    exact entry.asleep is

theorem Charged.step {elapsed : Elapsed} (good : Charged s elapsed) (sound : Sound s)
    (undisturbed : Undisturbed s a) (taken : step s a = some t) : Charged t (elapsed.advance s a) := by
  have unlocked {c : CpuId} {p : Slot} (on : (s.cpu c).proc = some p) (free : s.lock = .free) :
      (s.proc p).state = .running := sound.cpus.running c p on (by simp [free])
  have later {c : CpuId} {p np : Slot} (on : (s.cpu c).proc = some p)
      (elsewhere : s.lock ≠ .scheduler c) (owned : (s.proc p).inside.child = some np)
      (f : Proc → Proc) (activity : Activity) :=
    ForkPart.later sound.forks (sound.cpus.running c p on elsewhere) owned f activity
  cases sound.effect taken with
  | tick => exact good.tick undisturbed
  | @fork c p np u on free user unused allocated =>
    have part := ForkPart.first sound.forks (unlocked on free) unused allocated
    have reset : elapsed.advance s (.fork c) =
        ⟨Function.update elapsed.running np 0, Function.update elapsed.ready np 0⟩ := by
      simp only [Elapsed.advance, allocated]
    obtain ⟨_, rfl⟩ := allocproc_some allocated
    rw [reset]
    refine good.forkStep sound.forks part (.allocate unused rfl user) rfl ?_ ?_ ?_
    · intro x other
      simp [other]
    · simp
    · simp
  | @forkStack c p np kstack on elsewhere inside =>
    have part := later on elsewhere.1 (by rw [inside]; rfl) (·.stacked s.ticks kstack)
      (if kstack = none then .user else .forkCopy np)
    cases kstack with
    | none =>
      exact good.forkStep sound.forks part (.noStack inside rfl) rfl (fun _ _ => ⟨rfl, rfl⟩) (by simp)
        fun _ => rfl
    | some stack =>
      exact good.forkStep sound.forks part (.stack inside rfl) rfl (fun _ _ => ⟨rfl, rfl⟩) (by simp)
        fun _ => rfl
  | @forkCopy c p np pgdir on elsewhere inside =>
    have part := later on elsewhere.1 (by rw [inside]; rfl) (·.copied p pgdir)
      (if pgdir = none then .user else .forkReady np)
    cases pgdir with
    | none =>
      exact good.forkStep sound.forks part (.noCopy inside rfl) rfl (fun _ _ => ⟨rfl, rfl⟩) (by simp)
        fun _ => rfl
    | some directory =>
      exact good.forkStep sound.forks part (.copy inside rfl) rfl (fun _ _ => ⟨rfl, rfl⟩) (by simp)
        fun _ => rfl
  | forkReady on free inside =>
    have part := later on (by simp [free]) (by rw [inside]; rfl) ({ · with state := .runnable }) .user
    exact good.forkStep sound.forks part (.ready inside rfl) rfl (fun _ _ => ⟨rfl, rfl⟩) (by simp)
      fun _ => rfl
  | wakeup | kill | setPriority | setqueue | changepolicy | syscall | exitBegin | exitEnd | wait | sleep | yield
  | resume | pass | scheduler => exact good.kept sound undisturbed taken (by simp) id
  | nothing noTick full =>
    have same : elapsed.advance s a = elapsed := by
      cases a with
      | tick => exact absurd rfl noTick
      | fork c => simp only [Elapsed.advance, full c rfl]
      | _ => rfl
    rw [same]
    exact good

theorem charged_userinit (ticks : Ticks) (kstack pgdir : Nat) :
    Charged (userinit ticks kstack pgdir) .zero := by
  have now : (userinit ticks kstack pgdir).ticks = ticks := by rw [userinit_eq]; rfl
  intro x
  by_cases init : x = 0
  · rw [init, now, userinit_proc_init]
    constructor <;> simp [Elapsed.zero]
  · rw [userinit_proc_other _ _ _ init]
    exact Proc.charged_dead rfl

/-- A word that holds a number of ticks, read as the `int` it is. -/
def Shows (word : Ticks) (n : Nat) : Prop :=
  word.toInt = Int.bmod n (2 ^ 32) ∧ (n < 2 ^ 31 → word.toInt = n)

theorem shows_ofNat (n : Nat) : Shows (BitVec.ofNat 32 n) n := by
  have reduced : (BitVec.ofNat 32 n).toInt = Int.bmod n (2 ^ 32) := BitVec.toInt_ofNat ..
  refine ⟨reduced, fun small => ?_⟩
  rw [reduced, Int.bmod_def]
  split <;> omega

/-- In every run whose steps are undisturbed, the running and ready time that
`exit` records for a process are the ticks that elapsed while it was running,
and while it was an embryo or runnable, as an `int`. -/
theorem exit_records_elapsed {ticks : Ticks} {kstack pgdir : Nat} {actions : List Action}
    (undisturbed : Along step Undisturbed (userinit ticks kstack pgdir) (actions ++ [.exitBegin c]))
    (ran : exec step (userinit ticks kstack pgdir) actions = some s)
    (on : (s.cpu c).proc = some p) (exits : step s (.exitBegin c) = some t) :
    Shows (t.infos (s.proc p).pid).runningTime ((elapsed (userinit ticks kstack pgdir) actions).running p) ∧
      Shows (t.infos (s.proc p).pid).readyTime ((elapsed (userinit ticks kstack pgdir) actions).ready p) := by
  obtain ⟨before, last⟩ := undisturbed.of_append ran
  have good : Sound s ∧ Charged s (elapsed (userinit ticks kstack pgdir) actions) := by
    refine ghost_invariant (fun s elapsed => Sound s ∧ Charged s elapsed)
      ⟨sound_userinit ticks kstack pgdir, charged_userinit ticks kstack pgdir⟩ before ?_ ran
    intro before elapsed action after good undisturbed taken
    exact ⟨good.1.step taken, good.2.step good.1 undisturbed taken⟩
  obtain ⟨q, onQ, away, _, rfl⟩ := exitBegin_taken exits
  obtain rfl : p = q := Option.some.inj (on.symm.trans onQ)
  have running := good.1.cpus.running c p on away
  have now := last.1 p on
  obtain ⟨runs, waits⟩ := (good.2 p).onCpu running
  rw [now, BitVec.sub_self, BitVec.add_zero] at runs
  simp only [exitBegin, Function.update_self, runs, waits]
  exact ⟨shows_ofNat _, shows_ofNat _⟩

instance (x : Slot) : Decidable (Unstamped s x) := inferInstanceAs (Decidable (∃ _, _))

instance : Decidable (Undisturbed s a) := by
  cases a <;> unfold Undisturbed <;> infer_instance

def runSleepRun : List Action :=
  List.flatten [firstDispatch, forkChild, [.tick, .wait 0, .scheduler 0, .scheduler 0], onePass, [.scheduler 0],
    firstDispatch, [.tick, .sleep 0 7, .scheduler 0, .scheduler 0, .wakeup 7, .tick], onePass, [.scheduler 0],
    firstDispatch]

theorem exit_records_elapsed_child : ∃ s t,
    exec step (userinit 0 1 2) runSleepRun = some s ∧ step s (.exitBegin 0) = some t ∧
    (elapsed (userinit 0 1 2) runSleepRun).running 1 = 1 ∧ (elapsed (userinit 0 1 2) runSleepRun).ready 1 = 2 ∧
    (t.infos (s.proc 1).pid).runningTime.toInt = 1 ∧ (t.infos (s.proc 1).pid).readyTime.toInt = 2 := by
  have undisturbed : Along step Undisturbed (userinit 0 1 2) (runSleepRun ++ [.exitBegin 0]) := by
    decide +kernel
  have observed : ((exec step (userinit 0 1 2) runSleepRun).map fun s =>
      ((s.cpu 0).proc, (step s (.exitBegin 0)).isSome)) = some (some 1, true) := by decide +kernel
  have counted : (elapsed (userinit 0 1 2) runSleepRun).running 1 = 1 ∧
      (elapsed (userinit 0 1 2) runSleepRun).ready 1 = 2 := by decide +kernel
  obtain ⟨s, ran, seen⟩ := Option.map_eq_some_iff.mp observed
  obtain ⟨on, enabled⟩ := Prod.mk.inj seen
  obtain ⟨t, exits⟩ := Option.isSome_iff_exists.mp enabled
  obtain ⟨runs, waits⟩ := exit_records_elapsed undisturbed ran on exits
  rw [counted.1] at runs
  rw [counted.2] at waits
  exact ⟨s, t, ran, exits, counted.1, counted.2, runs.2 (by decide), waits.2 (by decide)⟩

def runOneTick : List Action :=
  List.flatten [firstDispatch, forkChild, [.wait 0, .scheduler 0, .scheduler 0], onePass, [.scheduler 0],
    firstDispatch, [.tick]]

theorem exit_loses_tick : ∃ s t,
    exec step (userinit 0 1 2) runOneTick = some s ∧ (s.cpu 0).proc = some 1 ∧
    step s (.exitBegin 0) = some t ∧ (elapsed (userinit 0 1 2) runOneTick).running 1 = 1 ∧
    (t.infos (s.proc 1).pid).runningTime = 0 := by
  have observed : ((exec step (userinit 0 1 2) runOneTick).map fun s =>
      ((s.cpu 0).proc, (step s (.exitBegin 0)).map fun t => (t.infos (s.proc 1).pid).runningTime)) =
      some (some 1, some 0) := by decide +kernel
  have counted : (elapsed (userinit 0 1 2) runOneTick).running 1 = 1 := by decide +kernel
  obtain ⟨s, ran, seen⟩ := Option.map_eq_some_iff.mp observed
  obtain ⟨on, recorded⟩ := Prod.mk.inj seen
  obtain ⟨t, exits, zero⟩ := Option.map_eq_some_iff.mp recorded
  exact ⟨s, t, ran, on, exits, counted, zero⟩

end Xv6.Process
