import Xv6.Process.Lifecycle

namespace Xv6.Process

open Xv6.Data

/-! # Invariants of the machine -/

variable {s t : State} {a : Action} {c : CpuId} {x y p np : Slot}

def SameRunning (old new : Slot → Proc) : Prop :=
  ∀ x, (new x).state = .running ↔ (old x).state = .running

theorem OnCpu.calm (good : OnCpu s) (cpu : t.cpu = s.cpu) (lock : t.lock = s.lock)
    (states : SameRunning s.proc t.proc) : OnCpu t where
  running c x on away := by
    rw [cpu] at on
    rw [lock] at away
    exact (states x).mpr (good.running c x on away)
  back c x on held := by
    rw [cpu] at on
    rw [lock] at held
    exact mt (states x).mp (good.back c x on held)
  unique c d x first second := by
    rw [cpu] at first second
    exact good.unique c d x first second
  owned x running := by
    rw [cpu]
    exact good.owned x ((states x).mp running)
  head c head := by
    rw [cpu] at head ⊢
    rw [lock]
    exact good.head c head
  idle c idle := by
    rw [cpu] at idle ⊢
    exact good.idle c idle

theorem OnCpu.leave (good : OnCpu s) (on : (s.cpu c).proc = some p) (cpu : t.cpu = s.cpu)
    (away : ∀ d, s.lock ≠ .scheduler d) (lock : t.lock = .scheduler c)
    (stopped : (t.proc p).state ≠ .running)
    (others : ∀ x, x ≠ p → ((t.proc x).state = .running ↔ (s.proc x).state = .running)) :
    OnCpu t where
  running d x onD awayD := by
    rw [cpu] at onD
    have other : x ≠ p := by
      rintro rfl
      rw [good.unique d c x onD on, lock] at awayD
      exact awayD rfl
    exact (others x other).mpr (good.running d x onD (away d))
  back d x onD held := by
    rw [cpu] at onD
    rw [lock] at held
    cases held
    rw [on] at onD
    cases onD
    exact stopped
  unique d e x first second := by
    rw [cpu] at first second
    exact good.unique d e x first second
  owned x running := by
    rw [cpu]
    by_cases same : x = p
    · exact absurd (same ▸ running) stopped
    · exact good.owned x ((others x same).mp running)
  head d head := by
    rw [cpu] at head
    exact absurd (good.head d head).2 (away d)
  idle d idle := by
    rw [cpu] at idle ⊢
    exact good.idle d idle

/-- A scheduler holding the lock, or taking it while its CPU runs nothing. -/
def Between (s : State) (c : CpuId) : Prop :=
  s.lock = .scheduler c ∨ s.lock = .free ∧ (s.cpu c).proc = none

theorem Between.others (between : Between s c) {d : CpuId} (other : d ≠ c) : s.lock ≠ .scheduler d := by
  rintro held
  rcases between with between | ⟨free, _⟩
  · exact other (Lock.scheduler.inj (held.symm.trans between))
  · exact absurd (held.symm.trans free) (by simp)

theorem OnCpu.not_running (good : OnCpu s) (between : Between s c) (on : (s.cpu c).proc = some x) :
    (s.proc x).state ≠ .running := by
  rcases between with held | ⟨_, none⟩
  · exact good.back c x on held
  · exact absurd (on.symm.trans none) (by simp)

theorem OnCpu.moved {queue : Int → Queue} {pc : SchedPc} {lock : Lock} (good : OnCpu s)
    (between : Between s c) (holds : lock = .scheduler c ∧ pc.AtHead ∨ lock = .free ∧ pc = .idle) :
    OnCpu { s.setCpu c ⟨none, pc⟩ with queue, lock } := by
  have elsewhere {d : CpuId} {x : Slot} (on : ((s.setCpu c ⟨none, pc⟩).cpu d).proc = some x) :
      d ≠ c ∧ (s.cpu d).proc = some x := by
    rw [State.setCpu_cpu] at on
    split at on
    · contradiction
    · exact ⟨‹_›, on⟩
  constructor
  · intro d x on _
    obtain ⟨other, on⟩ := elsewhere on
    exact good.running d x on (between.others other)
  · intro d x on held
    obtain ⟨other, on⟩ := elsewhere on
    rcases holds with ⟨rfl, _⟩ | ⟨rfl, _⟩
    · exact absurd (Lock.scheduler.inj held).symm other
    · contradiction
  · intro d e x first second
    exact good.unique d e x (elsewhere first).2 (elsewhere second).2
  · intro x running
    obtain ⟨d, on⟩ := good.owned x running
    have other : d ≠ c := by
      rintro rfl
      exact good.not_running between on running
    exact ⟨d, by simp [State.setCpu_cpu, other, on]⟩
  · intro d head
    by_cases same : d = c
    · subst same
      simp only [State.setCpu_cpu_self] at head ⊢
      rcases holds with ⟨rfl, _⟩ | ⟨_, rfl⟩
      · simp
      · exact head.elim
    · simp only [State.setCpu_cpu, if_neg same] at head
      exact absurd (good.head d head).2 (between.others same)
  · intro d idle
    by_cases same : d = c
    · subst same
      simp
    · simp only [State.setCpu_cpu, if_neg same] at idle ⊢
      exact good.idle d idle

theorem OnCpu.dispatched {queue : Int → Queue} {pc : SchedPc} {counted : Bool} (good : OnCpu s)
    (between : Between s c) (away : ¬ pc.AtHead ∧ pc ≠ .idle)
    (runnable : (s.proc x).state = .runnable) :
    OnCpu { (s.setCpu c ⟨some x, pc⟩).setProc x (·.dispatched s.ticks counted) with
      queue, lock := .process c } := by
  have free : ∀ d, d ≠ c → (s.cpu d).proc ≠ some x := by
    intro d other on
    have running := good.running d x on (between.others other)
    rw [runnable] at running
    contradiction
  constructor
  · intro d y on _
    by_cases same : d = c
    · subst same
      simp only [State.setProc_cpu, State.setCpu_cpu_self, Option.some.injEq] at on
      subst on
      simp [Proc.dispatched]
    · simp only [State.setProc_cpu, State.setCpu_cpu, if_neg same] at on
      have other : y ≠ x := by
        rintro rfl
        exact free d same on
      simp only [State.setProc_proc, if_neg other]
      exact good.running d y on (between.others same)
  · intro d y _ held
    contradiction
  · intro d e y first second
    simp only [State.setProc_cpu, State.setCpu_cpu] at first second
    split at first <;> split at second
    · simp_all
    · cases first
      exact absurd second (free e ‹_›)
    · cases second
      exact absurd first (free d ‹_›)
    · exact good.unique d e y first second
  · intro y running
    by_cases same : y = x
    · subst same
      exact ⟨c, by simp⟩
    · simp only [State.setProc_proc, if_neg same] at running
      obtain ⟨d, on⟩ := good.owned y running
      have other : d ≠ c := by
        rintro rfl
        exact good.not_running between on running
      exact ⟨d, by simp [State.setCpu_cpu, other, on]⟩
  · intro d head
    by_cases same : d = c
    · subst same
      simp only [State.setProc_cpu, State.setCpu_cpu_self] at head
      exact absurd head away.1
    · simp only [State.setProc_cpu, State.setCpu_cpu, if_neg same] at head
      exact absurd (good.head d head).2 (between.others same)
  · intro d idle
    by_cases same : d = c
    · subst same
      simp only [State.setProc_cpu, State.setCpu_cpu_self] at idle
      exact absurd idle away.2
    · simp only [State.setProc_cpu, State.setCpu_cpu, if_neg same] at idle ⊢
      exact good.idle d idle

theorem OnCpu.released (good : OnCpu s) (held : ∀ d, s.lock ≠ .scheduler d) (cpu : t.cpu = s.cpu)
    (lock : t.lock = .free) (states : SameRunning s.proc t.proc) : OnCpu t where
  running d x on _ := by
    rw [cpu] at on
    exact (states x).mpr (good.running d x on (held d))
  back d x _ bad := absurd (lock.symm.trans bad) (by simp)
  unique d e x first second := by
    rw [cpu] at first second
    exact good.unique d e x first second
  owned x running := by
    rw [cpu]
    exact good.owned x ((states x).mp running)
  head d head := by
    rw [cpu] at head
    exact absurd (good.head d head).2 (held d)
  idle d idle := by
    rw [cpu] at idle ⊢
    exact good.idle d idle

theorem sameRunning_update {old new : Slot → Proc} {p : Proc} (table : new = Function.update old x p)
    (same : p.state = .running ↔ (old x).state = .running) : SameRunning old new :=
  State.update_rel (R := fun old new => new.state = .running ↔ old.state = .running) (fun _ => .rfl)
    table same

theorem SameRunning.update {old mid new : Slot → Proc} {p : Proc} (first : SameRunning old mid)
    (table : new = Function.update mid x p) (same : p.state = .running ↔ (mid x).state = .running) :
    SameRunning old new :=
  fun y => (sameRunning_update table same y).trans (first y)

theorem sameRunning_wakeup1 (chan : Option Chan) : SameRunning s.proc (wakeup1 s chan).proc := by
  intro x
  rw [wakeup1_proc]
  split
  · next sleeps => simp [Proc.woken, Proc.sleepsOn_state sleeps]
  · exact .rfl

theorem OnCpu.sleep {chan : Chan} (good : OnCpu s) (on : (s.cpu c).proc = some p)
    (away : ∀ d, s.lock ≠ .scheduler d) : OnCpu (sleep s c p chan) := by
  refine good.leave on rfl away rfl ?_ ?_
  · simp [Process.sleep, sched, Proc.asleep]
  · intro x other
    simp [Process.sleep, sched, State.setProc_proc, other]

theorem OnCpu.waitBody (good : OnCpu s) (on : (s.cpu c).proc = some p)
    (away : ∀ d, s.lock ≠ .scheduler d) : OnCpu (waitBody s c p) := by
  unfold Process.waitBody
  split
  · rename_i child scanned
    have zombie := (waitScan_found scanned).2
    have reaped : SameRunning s.proc (s.setProc child (·.reaped)).proc :=
      sameRunning_update rfl (by simp [Proc.reaped, zombie])
    exact good.released away rfl rfl (reaped.update rfl .rfl)
  · exact good.released away rfl rfl (sameRunning_update rfl .rfl)
  · have entered : OnCpu (s.setProc p ({ · with inside := .wait })) :=
      good.calm rfl rfl (sameRunning_update rfl .rfl)
    exact entered.sleep on away

theorem OnCpu.resume (good : OnCpu s) (on : (s.cpu c).proc = some p) (held : s.lock = .process c) :
    OnCpu (resume s c p) := by
  have away : ∀ d, s.lock ≠ .scheduler d := by simp [held]
  unfold Process.resume
  split
  · exact good.released away rfl rfl fun _ => .rfl
  · exact good.released away rfl rfl (sameRunning_update rfl .rfl)
  · split
    · exact OnCpu.waitBody (good.calm rfl rfl (sameRunning_update rfl .rfl)) on away
    · exact good.released away rfl rfl (sameRunning_update rfl .rfl)

theorem OnCpu.scheduled (good : OnCpu s) (between : Between s c) (effect : Scheduled s c t) : OnCpu t := by
  cases effect with
  | moved turned holds => exact good.moved between holds
  | dispatched turned away runnable => exact good.dispatched between away runnable

theorem OnCpu.step (good : OnCpu s) (forks : Forks s) (effect : Effect s a t) : OnCpu t := by
  cases effect with
  | tick | changepolicy => exact good.calm rfl rfl fun _ => .rfl
  | wakeup free => exact good.calm rfl rfl (sameRunning_wakeup1 _)
  | @kill pid x free found =>
    refine good.calm rfl rfl (sameRunning_update rfl ?_)
    by_cases asleep : (s.proc x).state = .sleeping <;> simp [Proc.killedAt, asleep]
  | setPriority free found | syscall on | exitBegin on elsewhere user notInit =>
    exact good.calm rfl rfl (sameRunning_update rfl .rfl)
  | setqueue free =>
    rw [foldl_setqueueStep _ (List.nodup_finRange NPROC)]
    refine good.calm rfl rfl fun x => ?_
    dsimp only
    split <;> rfl
  | @fork c p np t on free user unused allocated =>
    obtain ⟨_, rfl⟩ := allocproc_some allocated
    have fresh : SameRunning s.proc (s.setProc np (·.allocated s.nextpid)).proc :=
      sameRunning_update rfl (by simp [Proc.allocated, unused])
    exact good.calm rfl rfl (fresh.update rfl .rfl)
  | @forkStack c p np kstack on elsewhere inside =>
    have embryo := (forks.parent p np (by rw [inside]; rfl)).2
    have stacked : SameRunning s.proc (s.setProc np (·.stacked s.ticks kstack)).proc :=
      sameRunning_update rfl (by cases kstack <;> simp [Proc.stacked, embryo])
    exact good.calm rfl rfl (stacked.update rfl .rfl)
  | @forkCopy c p np pgdir on elsewhere inside =>
    have embryo := (forks.parent p np (by rw [inside]; rfl)).2
    have copied : SameRunning s.proc (s.setProc np (·.copied p pgdir)).proc :=
      sameRunning_update rfl (by cases pgdir <;> simp [Proc.copied, embryo])
    exact good.calm rfl rfl (copied.update rfl .rfl)
  | @forkReady c p np on free inside =>
    have embryo := (forks.parent p np (by rw [inside]; rfl)).2
    have ready : SameRunning s.proc (s.setProc np ({ · with state := .runnable })).proc :=
      sameRunning_update rfl (by simp [embryo])
    exact good.calm rfl rfl (ready.update rfl .rfl)
  | @exitEnd c p on free inside =>
    refine good.leave on exitEnd_cpu (by simp [free]) exitEnd_lock ?_ ?_
    · have running := good.running c p on (by simp [free])
      simp [exitEnd_proc_self running]
    · intro x other
      rw [exitEnd_proc other]
      split
      · next wakes => simp [Proc.woken, State.exitWakes_state wakes]
      · rfl
  | wait on free user => exact good.waitBody on (by simp [free])
  | sleep on free inside => exact good.sleep on (by simp [free])
  | yield on free =>
    refine good.leave on rfl (by simp [free]) rfl (by simp [yield, sched]) ?_
    intro x other
    simp [yield, sched, State.setProc_proc, other]
  | resume on held => exact good.resume on held
  | pass free idle none effect => exact good.scheduled (.inr ⟨free, none⟩) effect
  | scheduler held effect => exact good.scheduled (.inl held) effect
  | nothing => exact good

/-- A change of one entry that no fork in progress notices: nothing comes alive
or loses its memory, an embryo stays as it is, and a process inside `fork` stays
there unless it ends. -/
structure Proc.Steady (old new : Proc) : Prop where
  inside : new.inside.child = none ∨ new.inside = old.inside ∧ (old.Live → new.Live)
  live : new.Live → old.Live ∧ new.kstack = old.kstack ∧ new.pgdir = old.pgdir
  embryo : old.state = .embryo → new.state = .embryo ∧ new.kstack = old.kstack ∧ new.pgdir = old.pgdir

theorem Proc.Turn.steady {old new : Proc} (turn : old.Turn new) : old.Steady new := by
  cases turn with
  | stays state keeps =>
    constructor
    · rcases keeps.inside with same | idle
      · exact .inr ⟨same, by simp [Proc.Live, state]⟩
      · exact .inl idle.2.1
    · intro live
      exact ⟨by simpa [Proc.Live, state] using live, keeps.kstack, keeps.pgdir⟩
    · intro embryo
      exact ⟨state.trans embryo, keeps.kstack, keeps.pgdir⟩
  | moves edge before after keeps =>
    constructor
    · rcases keeps.inside with same | idle
      · exact .inr ⟨same, fun _ => after⟩
      · exact .inl idle.2.1
    · intro _
      exact ⟨before, keeps.kstack, keeps.pgdir⟩
    · intro embryo
      exact absurd embryo before.not_embryo
  | reaped zombie reaped =>
    subst reaped
    refine { inside := .inr ⟨rfl, ?_⟩, live := ?_, embryo := ?_ }
    · intro live
      simp [Proc.Live, zombie] at live
    · intro live
      simp [Proc.Live, Proc.reaped] at live
    · intro embryo
      exact absurd (zombie.symm.trans embryo) (by simp)

theorem Forks.steady (good : Forks s) (steady : ∀ x, (s.proc x).Steady (t.proc x)) : Forks t := by
  have forking {x np : Slot} (child : (t.proc x).inside.child = some np) :
      (t.proc x).inside = (s.proc x).inside ∧ ((s.proc x).Live → (t.proc x).Live) := by
    rcases (steady x).inside with none | same
    · exact absurd (child.symm.trans none) (by simp)
    · exact same
  have embryo {x np : Slot} (child : (t.proc x).inside.child = some np) :
      (t.proc np).state = .embryo ∧ (t.proc np).kstack = (s.proc np).kstack ∧
        (t.proc np).pgdir = (s.proc np).pgdir := by
    have before := child
    rw [(forking child).1] at before
    exact (steady np).embryo (good.parent x np before).2
  constructor
  · intro x live
    obtain ⟨alive, kstack, pgdir⟩ := (steady x).live live
    rw [kstack, pgdir]
    exact good.memory x alive
  · intro x np child
    obtain ⟨same, alive⟩ := forking child
    refine ⟨alive ?_, (embryo child).1⟩
    rw [same] at child
    exact (good.parent x np child).1
  · intro x y np first second
    rw [(forking first).1] at first
    rw [(forking second).1] at second
    exact good.unique x y np first second
  · intro x np inside
    have child : (t.proc x).inside.child = some np := by
      rcases inside with inside | inside <;> rw [inside] <;> rfl
    rw [(forking child).1] at inside
    rw [(embryo child).2.1]
    exact good.kstack x np inside
  · intro x np inside
    have child : (t.proc x).inside.child = some np := by rw [inside]; rfl
    rw [(forking child).1] at inside
    rw [(embryo child).2.2]
    exact good.pgdir x np inside

section

variable {activity : Activity} {child : Proc}

theorem Activity.child_of_copied (inside : activity = .forkCopy np ∨ activity = .forkReady np) :
    activity.child = some np := by
  rcases inside with inside | inside <;> rw [inside] <;> rfl

theorem Forks.forking (good : Forks s) (part : ForkPart s t p np activity child)
    (inert : child.inside.child = none)
    (owns : activity.child = none ∨ activity.child = some np ∧ child.state = .embryo)
    (kstack : activity = .forkCopy np ∨ activity = .forkReady np → child.kstack ≠ none)
    (pgdir : activity = .forkReady np → child.pgdir ≠ none)
    (memory : child.Live → child.kstack ≠ none ∧ child.pgdir ≠ none) : Forks t := by
  have forker {x y : Slot} (inside : (t.proc x).inside.child = some y) :=
    part.forker inert (owns.imp_right And.left) inside
  have notParent {x y : Slot} (inside : (s.proc x).inside.child = some y) : y ≠ p := by
    rintro rfl
    exact absurd ((good.parent x y inside).2.symm.trans part.running) (by simp)
  constructor
  · intro x alive
    by_cases isParent : x = p
    · subst isParent
      rw [part.parent]
      exact good.memory x (.inr (.inr part.running))
    · by_cases isChild : x = np
      · subst isChild
        rw [part.child] at alive ⊢
        exact memory alive
      · rw [part.others x isParent isChild] at alive ⊢
        exact good.memory x alive
  · intro x y inside
    rcases forker inside with ⟨rfl, rfl⟩ | ⟨isParent, isChild, other, inside⟩
    · rw [part.parent] at inside ⊢
      rw [part.child]
      rcases owns with none | ⟨_, embryo⟩
      · exact absurd (inside.symm.trans none) (by simp)
      · exact ⟨.inr (.inr part.running), embryo⟩
    · rw [part.others x isParent isChild, part.others y (notParent inside) other]
      exact good.parent x y inside
  · intro x y z first second
    rcases forker first with ⟨isParent, isChild⟩ | ⟨_, _, other, first⟩ <;>
      rcases forker second with ⟨isParent', isChild'⟩ | ⟨_, _, other', second⟩
    · exact isParent.trans isParent'.symm
    · exact absurd isChild other'
    · exact absurd isChild' other
    · exact good.unique x y z first second
  · intro x y inside
    rcases forker (Activity.child_of_copied inside) with ⟨rfl, rfl⟩ | ⟨isParent, isChild, other, before⟩
    · rw [part.parent] at inside
      rw [part.child]
      exact kstack inside
    · rw [part.others x isParent isChild] at inside
      rw [part.others y (notParent before) other]
      exact good.kstack x y inside
  · intro x y inside
    rcases forker (Activity.child_of_copied (.inr inside)) with ⟨rfl, rfl⟩ | ⟨isParent, isChild, other, before⟩
    · rw [part.parent] at inside
      rw [part.child]
      exact pgdir inside
    · rw [part.others x isParent isChild] at inside
      rw [part.others y (notParent before) other]
      exact good.pgdir x y inside

end

theorem Forks.not_forking (good : Forks s) (dead : ¬ (s.proc x).Live) :
    (s.proc x).inside.child = none := by
  cases child : (s.proc x).inside.child with
  | none => rfl
  | some np => exact absurd (good.parent x np child).1 dead

theorem Forks.forkStep {activity : Activity} {child : Proc} (good : Forks s)
    (part : ForkPart s t p np activity child) (forks : ForkStep s t p np activity child) : Forks t := by
  have owned {activity : Activity} (inside : (s.proc p).inside = activity)
      (some : activity.child = some np) : (s.proc np).state = .embryo ∧ (s.proc np).inside.child = none := by
    have embryo := (good.parent p np (by rw [inside]; exact some)).2
    exact ⟨embryo, good.not_forking (by simp [Proc.Live, embryo])⟩
  cases forks with
  | allocate unused =>
    have idle := good.not_forking (x := np) (by simp [Proc.Live, unused])
    exact good.forking part idle (.inr ⟨rfl, rfl⟩) (by simp) (by simp) (by simp [Proc.Live, Proc.allocated])
  | noStack inside =>
    have idle := (owned inside rfl).2
    exact good.forking part idle (.inl rfl) (by simp) (by simp) (by simp [Proc.Live, Proc.stacked])
  | stack inside =>
    have embryo := (owned inside rfl).1
    exact good.forking part rfl (.inr ⟨rfl, embryo⟩) (by simp [Proc.stacked]) (by simp)
      (by simp [Proc.Live, Proc.stacked, embryo])
  | noCopy inside =>
    have idle := (owned inside rfl).2
    exact good.forking part idle (.inl rfl) (by simp) (by simp) (by simp [Proc.Live, Proc.copied])
  | copy inside =>
    obtain ⟨embryo, idle⟩ := owned inside rfl
    exact good.forking part idle (.inr ⟨rfl, embryo⟩) (fun _ => good.kstack p np (.inl inside))
      (by simp [Proc.copied]) (by simp [Proc.Live, Proc.copied, embryo])
  | ready inside =>
    have idle := (owned inside rfl).2
    exact good.forking part idle (.inl rfl) (by simp) (by simp)
      fun _ => ⟨good.kstack p np (.inr inside), good.pgdir p np inside⟩

theorem Proc.steady_exitBegin {p : Proc} {ticks : Ticks} : p.Steady
    { p with terminationTime := ticks, syscallhistory := [], inside := .exit } where
  inside := .inl rfl
  live live := ⟨live, rfl, rfl⟩
  embryo embryo := ⟨embryo, rfl, rfl⟩

theorem steady_exitEnd (running : (s.proc p).state = .running) (inside : (s.proc p).inside = .exit)
    (x : Slot) : (s.proc x).Steady ((exitEnd s c p).proc x) := by
  by_cases same : x = p
  · subst same
    rw [exitEnd_proc_self running]
    refine { inside := .inl (by simp [inside, Activity.child]), live := ?_, embryo := ?_ }
    · intro live
      simp [Proc.Live] at live
    · intro embryo
      exact absurd (embryo.symm.trans running) (by simp)
  · rw [exitEnd_proc same]
    split
    · rename_i wakes
      have asleep := State.exitWakes_state wakes
      exact {
        inside := .inr ⟨rfl, fun _ => .inr (.inl rfl)⟩
        live := fun _ => ⟨.inl asleep, rfl, rfl⟩
        embryo := fun embryo => absurd (asleep.symm.trans embryo) (by simp) }
    · exact { inside := .inr ⟨rfl, id⟩, live := fun live => ⟨live, rfl, rfl⟩,
              embryo := fun embryo => ⟨embryo, rfl, rfl⟩ }

theorem Forks.step (good : Forks s) (change : Change s a t) : Forks t := by
  cases change with
  | turns init nextpid turns => exact good.steady fun x => (turns x).steady
  | fork init part forks => exact good.forkStep part forks
  | exitBegin running user notInit result =>
    subst result
    exact good.steady (State.update_rel (fun p => (Proc.Turn.refl p).steady) rfl Proc.steady_exitBegin)
  | exitEnd running inside result =>
    subst result
    exact good.steady (steady_exitEnd running inside)

section

variable (ticks : Ticks)
include ticks

theorem userinit_eq (kstack pgdir : Nat) : userinit ticks kstack pgdir =
      { (((boot ticks).setProc 0 (·.allocated 1)).enqueue QUEUE_DEFAULT 0).setProc 0 fun q =>
          { q.stacked ticks (some kstack) with pgdir := some pgdir, state := .runnable } with
        nextpid := 2
        initproc := 0 } := by
  have first : (boot ticks).findSlot (·.state == .unused) = some 0 := rfl
  simp only [userinit, allocproc, first]
  rfl

theorem userinit_proc_other (kstack pgdir : Nat) (other : x ≠ 0) :
    (userinit ticks kstack pgdir).proc x = {} := by
  simp [userinit_eq, State.setProc_proc, other, boot]

theorem userinit_proc_init (kstack pgdir : Nat) :
    (userinit ticks kstack pgdir).proc 0 =
      { pgdir := some pgdir, kstack := some kstack, state := .runnable, pid := 1, priority := 3,
        creationTime := ticks, lastTime := ticks } := by
  simp [userinit_eq, boot, Proc.allocated, Proc.stacked, QUEUE_DEFAULT]

theorem userinit_queue (kstack pgdir : Nat) (q : Int) :
    (userinit ticks kstack pgdir).queue q =
      if q = QUEUE_DEFAULT then emptyQueue.push NPROC (some 0) else emptyQueue := by
  rw [userinit_eq]
  exact State.enqueue_queue

theorem userinit_idle (kstack pgdir : Nat) :
    (userinit ticks kstack pgdir).cpu c = ⟨none, .idle⟩ ∧ (userinit ticks kstack pgdir).lock = .free := by
  rw [userinit_eq]
  exact ⟨rfl, rfl⟩

theorem onCpu_userinit (kstack pgdir : Nat) : OnCpu (userinit ticks kstack pgdir) := by
  have none {c : CpuId} {x : Slot} : ((userinit ticks kstack pgdir).cpu c).proc ≠ some x := by
    rw [(userinit_idle ticks kstack pgdir).1]
    simp
  constructor
  · intro c x on
    exact absurd on none
  · intro c x on
    exact absurd on none
  · intro c d x on
    exact absurd on none
  · intro x running
    by_cases init : x = 0
    · rw [init, userinit_proc_init] at running
      contradiction
    · rw [userinit_proc_other _ _ _ init] at running
      contradiction
  · intro c head
    rw [(userinit_idle ticks kstack pgdir).1] at head
    exact head.elim
  · intro c _
    rw [(userinit_idle ticks kstack pgdir).1]

theorem forks_userinit (kstack pgdir : Nat) : Forks (userinit ticks kstack pgdir) := by
  have user (x : Slot) : ((userinit ticks kstack pgdir).proc x).inside = .user := by
    by_cases init : x = 0
    · rw [init, userinit_proc_init]
    · rw [userinit_proc_other _ _ _ init]
  constructor
  · intro x live
    by_cases init : x = 0
    · simp [init, userinit_proc_init]
    · rw [userinit_proc_other _ _ _ init] at live
      simp [Proc.Live] at live
  all_goals simp [user, Activity.child]

end

/-- What every reachable state satisfies and every other invariant builds on. -/
structure Sound (s : State) : Prop where
  cpus : OnCpu s
  forks : Forks s

theorem Sound.effect (good : Sound s) (taken : step s a = some t) : Effect s a t :=
  step_effect (fun c _ head => (good.cpus.head c head).1) taken

theorem Sound.change (good : Sound s) (taken : step s a = some t) : Change s a t :=
  change_of_effect good.cpus good.forks (good.effect taken)

theorem Sound.step (good : Sound s) (taken : step s a = some t) : Sound t where
  cpus := good.cpus.step good.forks (good.effect taken)
  forks := good.forks.step (good.change taken)

theorem sound_userinit (ticks : Ticks) (kstack pgdir : Nat) : Sound (userinit ticks kstack pgdir) :=
  ⟨onCpu_userinit ticks kstack pgdir, forks_userinit ticks kstack pgdir⟩

theorem Reachable.sound (reachable : Reachable s) : Sound s := by
  obtain ⟨ticks, kstack, pgdir, actions, ran⟩ := reachable
  exact exec_invariant_all Sound (sound_userinit ticks kstack pgdir) (fun _ _ _ good => good.step) ran

end Xv6.Process
