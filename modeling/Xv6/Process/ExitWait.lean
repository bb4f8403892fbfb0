import Xv6.Process.Updates

namespace Xv6.Process

open Xv6.Data

/-! # The exit and wait protocol

A parent asleep in `wait` has no zombie child, and each pid is handed out once. -/

variable {s t : State} {a : Action} {c : CpuId} {x y z p np : Slot}

structure Family (s : State) : Prop where
  init : (s.proc s.initproc).Live
  initParent : (s.proc s.initproc).parent = none
  exiting : ∀ x, (s.proc x).inside = .exit → x ≠ s.initproc
  parent : ∀ x, x ≠ s.initproc → (s.proc x).state ≠ .unused → (s.proc x).state ≠ .embryo →
    ∃ q, (s.proc x).parent = some q ∧ (s.proc q).Live
  selfless : ∀ x, (s.proc x).parent ≠ some x
  unused : ∀ x, (s.proc x).state = .unused → (s.proc x).parent = none
  young : ∀ p np, (s.proc p).inside = .forkStack np ∨ (s.proc p).inside = .forkCopy np →
    (s.proc np).parent = none
  child : ∀ p np, (s.proc p).inside = .forkReady np → (s.proc np).parent = some p

variable {old new : Proc} {activity : Activity}

section

variable (turn : old.Turn new)
include turn

theorem Proc.Turn.live (live : old.Live) : new.Live := by
  cases turn with
  | stays state => simpa [Proc.Live, state] using live
  | moves edge before after => exact after
  | reaped zombie => simp [Proc.Live, zombie] at live

theorem Proc.Turn.parent :
    new.parent = old.parent ∨ new.state = .unused ∧ new.parent = none ∧ old.state = .zombie := by
  cases turn with
  | stays state keeps | moves edge before after keeps => exact .inl keeps.parent
  | reaped zombie reaped => exact .inr ⟨by rw [reaped]; rfl, by rw [reaped]; rfl, zombie⟩

theorem Proc.Turn.inside :
    new.inside = old.inside ∨ old.inside.child = none ∧ new.inside.child = none ∧ new.inside ≠ .exit := by
  cases turn with
  | stays state keeps | moves edge before after keeps => exact keeps.inside
  | reaped zombie reaped => exact .inl (by rw [reaped]; rfl)

theorem Proc.Turn.used (used : new.state ≠ .unused) :
    old.state ≠ .unused ∧ (new.state = .embryo ↔ old.state = .embryo) := by
  cases turn with
  | stays state =>
    rw [state] at used ⊢
    exact ⟨used, .rfl⟩
  | moves edge before after =>
    refine ⟨?_, iff_of_false after.not_embryo before.not_embryo⟩
    rcases before with state | state | state <;> simp [state]
  | reaped zombie reaped =>
    rw [reaped] at used
    exact absurd rfl used

theorem Proc.Turn.unused (unused : new.state = .unused) :
    old.state = .unused ∨ new.parent = none := by
  cases turn with
  | stays state => exact .inl (state.symm.trans unused)
  | moves edge before after => rcases after with state | state | state <;> simp [state] at unused
  | reaped zombie reaped => exact .inr (by rw [reaped]; rfl)

end

theorem Family.turns (good : Family s) (forks : Forks s) (init : t.initproc = s.initproc)
    (turns : ∀ x, (s.proc x).Turn (t.proc x)) : Family t := by
  have embryo {p np : Slot} (child : (s.proc p).inside.child = some np) :
      (t.proc np).parent = (s.proc np).parent := by
    rcases (turns np).parent with same | ⟨_, _, zombie⟩
    · exact same
    · exact absurd ((forks.parent p np child).2.symm.trans zombie) (by simp)
  have inside {p np : Slot} {activity : Activity} (after : (t.proc p).inside = activity)
      (child : activity.child = some np) : (s.proc p).inside = activity := by
    rcases (turns p).inside with same | ⟨_, none, _⟩
    · exact same.symm.trans after
    · rw [after, child] at none
      contradiction
  constructor
  · rw [init]
    exact (turns _).live good.init
  · rw [init]
    rcases (turns s.initproc).parent with same | ⟨_, none, _⟩
    · exact same.trans good.initParent
    · exact none
  · intro x exit
    rw [init]
    rcases (turns x).inside with same | ⟨_, _, other⟩
    · exact good.exiting x (same.symm.trans exit)
    · exact absurd exit other
  · intro x notInit used grown
    rw [init] at notInit
    obtain ⟨before, embryo⟩ := (turns x).used used
    obtain ⟨q, parent, live⟩ := good.parent x notInit before (mt embryo.mpr grown)
    rcases (turns x).parent with same | ⟨unused, _, _⟩
    · exact ⟨q, same.trans parent, (turns q).live live⟩
    · exact absurd unused used
  · intro x
    rcases (turns x).parent with same | ⟨_, none, _⟩
    · rw [same]
      exact good.selfless x
    · simp [none]
  · intro x unused
    rcases (turns x).unused unused with before | none
    · rcases (turns x).parent with same | ⟨_, none, _⟩
      · exact same.trans (good.unused x before)
      · exact none
    · exact none
  · intro p np young
    rcases young with stack | copy
    · have before := inside stack rfl
      rw [embryo (by rw [before]; rfl)]
      exact good.young p np (.inl before)
    · have before := inside copy rfl
      rw [embryo (by rw [before]; rfl)]
      exact good.young p np (.inr before)
  · intro p np ready
    have before := inside ready rfl
    rw [embryo (by rw [before]; rfl)]
    exact good.child p np before

theorem Family.forking {child : Proc} (good : Family s)
    (init : t.initproc = s.initproc) (part : ForkPart s t p np activity child)
    (dead : ¬ (s.proc np).Live) (inert : child.inside.child = none)
    (owns : activity.child = none ∨ activity.child = some np) (notExit : activity ≠ .exit)
    (parent : child.parent = none ∨ child.parent = some p)
    (unused : child.state = .unused → child.parent = none)
    (grown : child.state ≠ .unused → child.state ≠ .embryo → child.parent = some p)
    (young : activity = .forkStack np ∨ activity = .forkCopy np → child.parent = none)
    (ready : activity = .forkReady np → child.parent = some p) : Family t := by
  have notInit : np ≠ s.initproc := by
    rintro rfl
    exact dead good.init
  have live {q : Slot} (alive : (s.proc q).Live) : (t.proc q).Live := by
    by_cases isParent : q = p
    · rw [isParent, part.parent]
      exact .inr (.inr part.running)
    · by_cases isChild : q = np
      · exact absurd (isChild ▸ alive) dead
      · rwa [part.others q isParent isChild]
  have kept {x : Slot} (other : x ≠ np) :
      (t.proc x).parent = (s.proc x).parent ∧ (t.proc x).state = (s.proc x).state := by
    by_cases isParent : x = p
    · rw [isParent, part.parent]
      exact ⟨rfl, rfl⟩
    · rw [part.others x isParent other]
      exact ⟨rfl, rfl⟩
  have inside {x y : Slot} {current : Activity} (after : (t.proc x).inside = current)
      (forking : current.child = some y) :
      x = p ∧ y = np ∧ activity = current ∨ y ≠ np ∧ (s.proc x).inside = current := by
    rcases part.forker inert owns (by rw [after]; exact forking) with
      ⟨isParent, isChild⟩ | ⟨isParent, isChild, other, _⟩
    · rw [isParent, part.parent] at after
      exact .inl ⟨isParent, isChild, after⟩
    · rw [part.others x isParent isChild] at after
      exact .inr ⟨other, after⟩
  constructor
  · rw [init]
    exact live good.init
  · rw [init, (kept notInit.symm).1]
    exact good.initParent
  · intro x exit
    rw [init]
    by_cases isChild : x = np
    · exact isChild ▸ notInit
    · by_cases isParent : x = p
      · rw [isParent, part.parent] at exit
        exact absurd exit notExit
      · rw [part.others x isParent isChild] at exit
        exact good.exiting x exit
  · intro x notInit used old
    rw [init] at notInit
    by_cases isChild : x = np
    · rw [isChild, part.child] at used old ⊢
      exact ⟨p, grown used old, live (.inr (.inr part.running))⟩
    · rw [(kept isChild).2] at used old
      obtain ⟨q, is, alive⟩ := good.parent x notInit used old
      exact ⟨q, (kept isChild).1.trans is, live alive⟩
  · intro x self
    by_cases isChild : x = np
    · rw [isChild, part.child] at self
      rcases parent with none | some
      · exact absurd (self.symm.trans none) (by simp)
      · exact part.distinct (Option.some.inj (self.symm.trans some))
    · exact good.selfless x ((kept isChild).1.symm.trans self)
  · intro x free
    by_cases isChild : x = np
    · rw [isChild, part.child] at free ⊢
      exact unused free
    · rw [(kept isChild).2] at free
      exact (kept isChild).1.trans (good.unused x free)
  · intro x y after
    rcases after with after | after
    · rcases inside after rfl with ⟨rfl, rfl, is⟩ | ⟨other, before⟩
      · rw [part.child]
        exact young (.inl is)
      · exact (kept other).1.trans (good.young x y (.inl before))
    · rcases inside after rfl with ⟨rfl, rfl, is⟩ | ⟨other, before⟩
      · rw [part.child]
        exact young (.inr is)
      · exact (kept other).1.trans (good.young x y (.inr before))
  · intro x y after
    rcases inside after rfl with ⟨rfl, rfl, is⟩ | ⟨other, before⟩
    · rw [part.child]
      exact ready is
    · exact (kept other).1.trans (good.child x y before)

theorem Family.forkStep {child : Proc} (good : Family s) (forks : Forks s)
    (init : t.initproc = s.initproc) (part : ForkPart s t p np activity child)
    (step : ForkStep s t p np activity child) : Family t := by
  have owned {activity : Activity} (inside : (s.proc p).inside = activity)
      (some : activity.child = some np) :
      (s.proc np).state = .embryo ∧ ¬ (s.proc np).Live ∧ (s.proc np).inside.child = none := by
    have embryo := (forks.parent p np (by rw [inside]; exact some)).2
    have dead : ¬ (s.proc np).Live := fun live => live.not_embryo embryo
    exact ⟨embryo, dead, forks.not_forking dead⟩
  cases step with
  | allocate unused =>
    have dead : ¬ (s.proc np).Live := by simp [Proc.Live, unused]
    have none := good.unused np unused
    exact good.forking init part dead (forks.not_forking dead) (.inr rfl) (by simp) (.inl none)
      (fun _ => none) (by simp [Proc.allocated]) (fun _ => none) (by simp)
  | noStack inside =>
    obtain ⟨_, dead, idle⟩ := owned inside rfl
    have none := good.young p np (.inl inside)
    exact good.forking init part dead idle (.inl rfl) (by simp) (.inl none) (fun _ => none)
      (by simp [Proc.stacked]) (by simp) (by simp)
  | stack inside =>
    obtain ⟨embryo, dead, _⟩ := owned inside rfl
    have none := good.young p np (.inl inside)
    exact good.forking init part dead rfl (.inr rfl) (by simp) (.inl none) (fun _ => none)
      (by simp [Proc.stacked, embryo]) (fun _ => none) (by simp)
  | noCopy inside =>
    obtain ⟨_, dead, idle⟩ := owned inside rfl
    have none := good.young p np (.inr inside)
    exact good.forking init part dead idle (.inl rfl) (by simp) (.inl none) (fun _ => none)
      (by simp [Proc.copied]) (by simp) (by simp)
  | copy inside =>
    obtain ⟨embryo, dead, idle⟩ := owned inside rfl
    exact good.forking init part dead idle (.inr rfl) (by simp) (.inr rfl)
      (by simp [Proc.copied, embryo]) (by simp [Proc.copied, embryo]) (by simp) (fun _ => rfl)
  | ready inside =>
    obtain ⟨_, dead, idle⟩ := owned inside rfl
    have some := good.child p np inside
    exact good.forking init part dead idle (.inl rfl) (by simp) (.inr some) (by simp)
      (fun _ _ => some) (by simp) (by simp)

theorem Family.exitBegin (good : Family s) (notInit : p ≠ s.initproc) : Family (exitBegin s p) := by
  have kept (x : Slot) : ((Process.exitBegin s p).proc x).parent = (s.proc x).parent ∧
      ((Process.exitBegin s p).proc x).state = (s.proc x).state := by
    rw [exitBegin_proc]
    split
    · next same => simp [same]
    · exact ⟨rfl, rfl⟩
  have inside {x y : Slot} {activity : Activity} (after : ((Process.exitBegin s p).proc x).inside = activity)
      (forking : activity.child = some y) : (s.proc x).inside = activity := by
    rw [exitBegin_proc] at after
    split at after
    · rw [← after] at forking
      contradiction
    · exact after
  have live (x : Slot) : ((Process.exitBegin s p).proc x).Live ↔ (s.proc x).Live := by
    simp only [Proc.Live, (kept x).2]
  constructor
  · exact (live _).mpr good.init
  · exact (kept _).1.trans good.initParent
  · intro x exit
    rw [exitBegin_proc] at exit
    split at exit
    · next same => exact same ▸ notInit
    · exact good.exiting x exit
  · intro x notInit used grown
    rw [(kept x).2] at used grown
    obtain ⟨q, is, alive⟩ := good.parent x notInit used grown
    exact ⟨q, (kept x).1.trans is, (live q).mpr alive⟩
  · intro x
    rw [(kept x).1]
    exact good.selfless x
  · intro x unused
    rw [(kept x).2] at unused
    exact (kept x).1.trans (good.unused x unused)
  · intro x y after
    rw [(kept y).1]
    exact good.young x y (after.imp (inside · rfl) (inside · rfl))
  · intro x y after
    rw [(kept y).1]
    exact good.child x y (inside after rfl)

theorem exitEnd_kept (running : (s.proc p).state = .running) (x : Slot) :
    ((exitEnd s c p).proc x).parent = s.heir p x ∧ ((exitEnd s c p).proc x).inside = (s.proc x).inside ∧
      ((exitEnd s c p).proc x).pid = (s.proc x).pid := by
  by_cases same : x = p
  · subst same
    rw [exitEnd_proc_self running]
    exact ⟨rfl, rfl, rfl⟩
  · rw [exitEnd_proc same]
    split <;> exact ⟨rfl, rfl, rfl⟩

theorem exitEnd_live (other : x ≠ p) : ((exitEnd s c p).proc x).state = (s.proc x).state ∨
      ((exitEnd s c p).proc x).state = .runnable ∧ (s.proc x).state = .sleeping := by
  rw [exitEnd_proc other]
  split
  · next wakes => exact .inr ⟨rfl, State.exitWakes_state wakes⟩
  · exact .inl rfl

theorem heir_eq (other : (s.proc x).parent ≠ some p) : s.heir p x = (s.proc x).parent :=
  if_neg other

theorem Family.exitEnd (good : Family s) (running : (s.proc p).state = .running)
    (inside : (s.proc p).inside = .exit) : Family (exitEnd s c p) := by
  have notInit := good.exiting p inside
  have kept := exitEnd_kept (c := c) running
  have live {q : Slot} (other : q ≠ p) (alive : (s.proc q).Live) : ((Process.exitEnd s c p).proc q).Live := by
    rcases exitEnd_live (s := s) (c := c) other with same | ⟨woken, _⟩
    · simpa only [Proc.Live, same] using alive
    · exact .inr (.inl woken)
  have used {q : Slot} (other : q ≠ p) :
      (((Process.exitEnd s c p).proc q).state = .unused ↔ (s.proc q).state = .unused) ∧
        (((Process.exitEnd s c p).proc q).state = .embryo ↔ (s.proc q).state = .embryo) := by
    rcases exitEnd_live (s := s) (c := c) other with same | ⟨woken, asleep⟩
    · rw [same]
      exact ⟨.rfl, .rfl⟩
    · simp [woken, asleep]
  have childless : (s.proc s.initproc).parent ≠ some p := by simp [good.initParent]
  constructor
  · rw [exitEnd_initproc]
    exact live notInit.symm good.init
  · rw [exitEnd_initproc, (kept _).1, heir_eq childless]
    exact good.initParent
  · intro x exit
    rw [exitEnd_initproc]
    exact good.exiting x ((kept x).2.1.symm.trans exit)
  · intro x isInit alive grown
    rw [exitEnd_initproc] at isInit
    rw [(kept x).1]
    have before : (s.proc x).state ≠ .unused ∧ (s.proc x).state ≠ .embryo := by
      by_cases same : x = p
      · simp [same, running]
      · exact ⟨mt (used same).1.mpr alive, mt (used same).2.mpr grown⟩
    obtain ⟨q, is, parentLive⟩ := good.parent x isInit before.1 before.2
    by_cases orphan : (s.proc x).parent = some p
    · exact ⟨s.initproc, if_pos orphan, live notInit.symm good.init⟩
    · have other : q ≠ p := by
        rintro rfl
        exact orphan is
      exact ⟨q, (heir_eq orphan).trans is, live other parentLive⟩
  · intro x self
    rw [(kept x).1] at self
    by_cases orphan : (s.proc x).parent = some p
    · have isInit : s.initproc = x := Option.some.inj ((if_pos orphan).symm.trans self)
      exact childless (isInit ▸ orphan)
    · exact good.selfless x ((heir_eq orphan).symm.trans self)
  · intro x unused
    have other : x ≠ p := by
      rintro rfl
      rw [exitEnd_proc_self running] at unused
      contradiction
    have none := good.unused x ((used other).1.mp unused)
    rw [(kept x).1, heir_eq (by simp [none])]
    exact none
  · intro x y forking
    rw [(kept x).2.1] at forking
    have none := good.young x y forking
    rw [(kept y).1, heir_eq (by simp [none])]
    exact none
  · intro x y forking
    rw [(kept x).2.1] at forking
    have is := good.child x y forking
    have other : x ≠ p := by
      rintro rfl
      exact absurd (inside.symm.trans forking) (by simp)
    rw [(kept y).1, heir_eq (by simp [is, other])]
    exact is

theorem Family.step (good : Family s) (forks : Forks s) (change : Change s a t) : Family t := by
  cases change with
  | turns init nextpid turns => exact good.turns forks init turns
  | fork init part step => exact good.forkStep forks init part step
  | exitBegin running user notInit result => exact result ▸ good.exitBegin notInit
  | exitEnd running inside result => exact result ▸ good.exitEnd running inside

theorem family_userinit (ticks : Ticks) (kstack pgdir : Nat) : Family (userinit ticks kstack pgdir) := by
  have isInit : (userinit ticks kstack pgdir).initproc = 0 := by rw [userinit_eq]
  have orphan (x : Slot) : ((userinit ticks kstack pgdir).proc x).parent = none ∧
      ((userinit ticks kstack pgdir).proc x).inside = .user := by
    by_cases first : x = 0
    · rw [first, userinit_proc_init]
      exact ⟨rfl, rfl⟩
    · rw [userinit_proc_other _ _ _ first]
      exact ⟨rfl, rfl⟩
  refine { init := ?_, initParent := (orphan _).1, exiting := ?_, parent := ?_, selfless := ?_,
           unused := fun x _ => (orphan x).1, young := fun _ np _ => (orphan np).1, child := ?_ }
  · rw [isInit, userinit_proc_init]
    exact .inr (.inl rfl)
  · intro x exit
    exact absurd ((orphan x).2.symm.trans exit) (by simp)
  · intro x notInit used
    rw [isInit] at notInit
    rw [userinit_proc_other _ _ _ notInit] at used
    exact absurd rfl used
  · intro x
    simp [(orphan x).1]
  · intro p np ready
    exact absurd ((orphan p).2.symm.trans ready) (by simp)

def Childless (s : State) (x : Slot) : Prop :=
  ∀ z, (s.proc z).parent = some x → (s.proc z).state ≠ .zombie

/-- Asleep on its own table entry, which only `wait` does. -/
def Proc.Waits (p : Proc) (x : Slot) : Prop :=
  p.state = .sleeping ∧ p.chan = some (.proc x)

/-- Who waits after a step waited before it or has just seen that it has no
zombie child. -/
theorem waits_before (sound : Sound s) (taken : step s a = some t) :
    (t.proc x).Waits x → (s.proc x).Waits x ∨ Childless s x := by
  apply (updates_of_step sound taken x).keeps (P := fun p => p.Waits x → (s.proc x).Waits x ∨ Childless s x) _ .inl
  intro old new update before waits
  cases update with
  | sleeps running watched => exact .inr (watched (Option.some.inj waits.2))
  | adopted | enters => exact before waits
  | prioritized | requeued | counted | exits | stamped => exact .inl waits
  | awakes => exact absurd waits.2 (by simp)
  | killed =>
    have awake := waits.1
    simp only [Proc.killedAt] at awake
    split at awake <;> contradiction
  | @stacked kstack c embryo => cases kstack <;> exact absurd waits.1 (by simp [Proc.stacked, embryo])
  | @copied parent pgdir embryo => cases pgdir <;> exact absurd waits.1 (by simp [Proc.copied, embryo])
  | woken | allocated | ready | ends | reaped | yields | dispatched =>
    exact absurd waits.1 (by simp [Proc.woken, Proc.allocated, Proc.reaped, Proc.dispatched])

def NoMissedExit (s : State) : Prop :=
  ∀ x, (s.proc x).Waits x → Childless s x

theorem Proc.Turn.zombie (turn : old.Turn new) (zombie : new.state = .zombie) :
    old.state = .zombie ∧ new.parent = old.parent := by
  cases turn with
  | stays state keeps => exact ⟨state.symm.trans zombie, keeps.parent⟩
  | moves edge before after => rcases after with state | state | state <;> simp [zombie] at state
  | reaped _ reaped => simp [reaped, Proc.reaped] at zombie

theorem ForkStep.not_zombie {child : Proc} (forks : Forks s)
    (step : ForkStep s t p np activity child) : child.state ≠ .zombie := by
  have embryo {activity : Activity} (inside : (s.proc p).inside = activity)
      (some : activity.child = some np) : (s.proc np).state = .embryo :=
    (forks.parent p np (by rw [inside]; exact some)).2
  cases step with
  | allocate unused => simp [Proc.allocated]
  | noStack inside => simp [Proc.stacked]
  | stack inside => simp [Proc.stacked, embryo inside rfl]
  | noCopy inside => simp [Proc.copied]
  | copy inside => simp [Proc.copied, embryo inside rfl]
  | ready inside => simp

theorem zombie_of_change (forks : Forks s) (change : Change s a t) :
    (∀ z, (t.proc z).state = .zombie →
      (s.proc z).state = .zombie ∧ (t.proc z).parent = (s.proc z).parent) ∨
    ∃ c p, (s.proc p).state = .running ∧ t = exitEnd s c p := by
  cases change with
  | turns init nextpid turns => exact .inl fun z => (turns z).zombie
  | @fork p np activity child init part step =>
    refine .inl fun z zombie => ?_
    by_cases isParent : z = p
    · rw [isParent, part.parent] at zombie
      exact absurd (part.running.symm.trans zombie) (by simp)
    · by_cases isChild : z = np
      · rw [isChild, part.child] at zombie
        exact absurd zombie (step.not_zombie forks)
      · rw [part.others z isParent isChild] at zombie ⊢
        exact ⟨zombie, rfl⟩
  | exitBegin running user notInit result =>
    refine .inl fun z zombie => ?_
    rw [result, exitBegin_proc] at zombie ⊢
    split at zombie
    · exact absurd (running.symm.trans zombie) (by simp)
    · next other => simp [other, zombie]
  | exitEnd running inside result => exact .inr ⟨_, _, running, result⟩

theorem exitEnd_waits (running : (s.proc p).state = .running) (waits : ((exitEnd s c p).proc x).Waits x) :
    (s.proc x).Waits x ∧ s.exitWakes p x = false := by
  have other : x ≠ p := by
    rintro rfl
    rw [exitEnd_proc_self running] at waits
    exact absurd waits.1 (by simp)
  rw [exitEnd_proc other] at waits
  split at waits
  · exact absurd waits.1 (by simp [Proc.woken])
  · next asleep => exact ⟨waits, by simpa using asleep⟩

theorem NoMissedExit.exitEnd (good : NoMissedExit s) (family : Family s)
    (running : (s.proc p).state = .running) : NoMissedExit (exitEnd s c p) := by
  intro x waits z parent zombie
  obtain ⟨before, asleep⟩ := exitEnd_waits running waits
  simp only [State.exitWakes, Bool.or_eq_false_iff, Bool.and_eq_false_iff] at asleep
  have sleepsOn : (s.proc x).sleepsOn (some (.proc x)) = true := by simp [Proc.sleepsOn, before.1, before.2]
  rw [(exitEnd_kept running z).1] at parent
  by_cases same : z = p
  · rw [same, heir_eq (family.selfless p)] at parent
    rw [parent, Option.map_some, sleepsOn] at asleep
    exact absurd asleep.1 (by simp)
  · have dead : (s.proc z).state = .zombie := by
      rcases exitEnd_live (s := s) (c := c) same with state | ⟨woken, _⟩
      · exact state.symm.trans zombie
      · exact absurd (woken.symm.trans zombie) (by simp)
    by_cases orphan : (s.proc z).parent = some p
    · have isInit : s.initproc = x := Option.some.inj ((if_pos orphan).symm.trans parent)
      have found : zombieChildIn (List.finRange NPROC) p s = true :=
        List.any_eq_true.mpr ⟨z, List.mem_finRange z, by simp [orphan, dead]⟩
      rw [isInit, sleepsOn, found] at asleep
      simp at asleep
    · exact good x before z ((heir_eq orphan).symm.trans parent) dead

theorem NoMissedExit.step (good : NoMissedExit s) (sound : Sound s) (family : Family s)
    (taken : step s a = some t) : NoMissedExit t := by
  rcases zombie_of_change sound.forks (sound.change taken) with kept | ⟨c, p, running, result⟩
  · intro x waits z parent zombie
    obtain ⟨dead, same⟩ := kept z zombie
    have childless : Childless s x := by
      rcases waits_before sound taken waits with before | childless
      · exact good x before
      · exact childless
    exact childless z (same.symm.trans parent) dead
  · exact result ▸ good.exitEnd family running

def reapedPid (s : State) (cur : Slot) : Option Int :=
  match waitScan s cur with
  | .found child => some (s.proc child).pid
  | _ => none

def waited (s : State) : Action → Option (Slot × Int)
  | .wait c => (s.cpu c).proc.bind fun p => (reapedPid s p).map (p, ·)
  | .resume c =>
    (s.cpu c).proc.bind fun p =>
      if (s.proc p).context = .sleep ∧ (s.proc p).inside = .wait then
        (reapedPid (s.setProc p ({ · with chan := none })) p).map (p, ·)
      else none
  | _ => none

def waitReturns (s : State) (actions : List Action) : List (Slot × Int) :=
  ghost step (fun s a past => past ++ (waited s a).toList) s [] actions

structure Pids (s : State) (past : List (Slot × Int)) : Prop where
  below : ∀ x, (s.proc x).state ≠ .unused → (s.proc x).pid < s.nextpid
  unique : ∀ x y, (s.proc x).state ≠ .unused → (s.proc y).state ≠ .unused →
    (s.proc x).pid = (s.proc y).pid → x = y
  gone : ∀ r ∈ past, r.2 < s.nextpid ∧ ∀ x, (s.proc x).state ≠ .unused → (s.proc x).pid ≠ r.2
  distinct : (past.map Prod.snd).Nodup

theorem Proc.Turn.pid (turn : old.Turn new) :
    new.pid = old.pid ∨ new.pid = 0 ∧ new.state = .unused := by
  cases turn with
  | stays state keeps | moves edge before after keeps => exact .inl keeps.pid
  | reaped zombie reaped => exact .inr ⟨by rw [reaped]; rfl, by rw [reaped]; rfl⟩

theorem ForkStep.pid {child : Proc} (forks : Forks s) (step : ForkStep s t p np activity child) :
    t.nextpid = s.nextpid ∧ (s.proc np).state ≠ .unused ∧ child.pid = (s.proc np).pid ∨
      t.nextpid = s.nextpid + 1 ∧ child.pid = s.nextpid := by
  have used {activity : Activity} (inside : (s.proc p).inside = activity)
      (some : activity.child = some np) : (s.proc np).state ≠ .unused := by
    rw [(forks.parent p np (by rw [inside]; exact some)).2]
    simp
  cases step with
  | allocate unused nextpid => exact .inr ⟨nextpid, rfl⟩
  | noStack inside nextpid | stack inside nextpid | noCopy inside nextpid | copy inside nextpid
  | ready inside nextpid =>
    exact .inl ⟨nextpid, used inside rfl, rfl⟩

/-- An entry keeps its pid, or loses it when it is reaped, or it is the one entry
that gets `nextpid`. -/
theorem pid_of_change (forks : Forks s) (change : Change s a t) :
    s.nextpid ≤ t.nextpid ∧ ∃ fresh : Option Slot,
      (∀ np ∈ fresh, (t.proc np).pid = s.nextpid ∧ s.nextpid < t.nextpid) ∧
      ∀ x, x ∉ fresh → ((t.proc x).state ≠ .unused → (s.proc x).state ≠ .unused) ∧
        ((t.proc x).pid = (s.proc x).pid ∨ (t.proc x).pid = 0 ∧ (t.proc x).state = .unused) := by
  cases change with
  | turns init nextpid turns =>
    refine ⟨nextpid.ge, none, by simp, fun x _ => ?_⟩
    exact ⟨fun used => ((turns x).used used).1, (turns x).pid⟩
  | @fork p np activity child init part step =>
    have kept {x : Slot} (other : x ≠ np) :
        ((t.proc x).state ≠ .unused → (s.proc x).state ≠ .unused) ∧
          ((t.proc x).pid = (s.proc x).pid ∨ (t.proc x).pid = 0 ∧ (t.proc x).state = .unused) := by
      by_cases isParent : x = p
      · rw [isParent, part.parent]
        exact ⟨id, .inl rfl⟩
      · rw [part.others x isParent other]
        exact ⟨id, .inl rfl⟩
    rcases step.pid forks with ⟨nextpid, used, same⟩ | ⟨nextpid, fresh⟩
    · refine ⟨nextpid.ge, none, by simp, fun x _ => ?_⟩
      by_cases isChild : x = np
      · rw [isChild, part.child]
        exact ⟨fun _ => used, .inl same⟩
      · exact kept isChild
    · refine ⟨by omega, some np, ?_, ?_⟩
      · rintro _ ⟨⟩
        rw [part.child]
        exact ⟨fresh, by omega⟩
      · intro x other
        exact kept (by simpa using Ne.symm (by simpa using other))
  | @exitBegin p running user notInit result =>
    refine ⟨by rw [result]; exact le_rfl, none, by simp, fun x _ => ?_⟩
    rw [result, exitBegin_proc]
    split
    · next same => simp [same, running]
    · exact ⟨id, .inl rfl⟩
  | @exitEnd c p running inside result =>
    refine ⟨by rw [result, exitEnd_nextpid], none, by simp, fun x _ => ?_⟩
    rw [result]
    refine ⟨fun used => ?_, .inl (exitEnd_kept running x).2.2⟩
    by_cases same : x = p
    · simp [same, running]
    · rcases exitEnd_live (s := s) (c := c) same with state | ⟨_, asleep⟩
      · rwa [state] at used
      · simp [asleep]

theorem reapedPid_some {pid : Int} (found : reapedPid s p = some pid) :
    ∃ z, waitScan s p = .found z ∧ pid = (s.proc z).pid := by
  unfold reapedPid at found
  split at found
  · next z scanned => exact ⟨z, scanned, (Option.some.inj found).symm⟩
  · contradiction

theorem waitBody_reaps (running : (s.proc p).state = .running) (scanned : waitScan s p = .found z) :
    ((waitBody s c p).proc z).state = .unused := by
  have other : z ≠ p := by
    rintro rfl
    exact absurd ((waitScan_found scanned).2.symm.trans running) (by simp)
  simp [waitBody, scanned, State.setProc_proc, other, Proc.reaped]

theorem waited_reaps (sound : Sound s) {pid : Int} (taken : step s a = some t)
    (event : waited s a = some (p, pid)) :
    ∃ z, (s.proc z).parent = some p ∧ (s.proc z).state = .zombie ∧ pid = (s.proc z).pid ∧
      (t.proc z).state = .unused := by
  have ran := step_eq_some.mp taken
  cases a with
  | wait c =>
    obtain ⟨q, on, mapped⟩ := Option.bind_eq_some_iff.mp event
    obtain ⟨found, reaped, pair⟩ := Option.map_eq_some_iff.mp mapped
    obtain ⟨rfl, rfl⟩ := Prod.mk.inj pair
    obtain ⟨q', on', _, part⟩ := running_next ran
    obtain rfl : q = q' := Option.some.inj (on.symm.trans on')
    obtain ⟨free, part⟩ := locked_next part
    obtain ⟨_, part⟩ := ite_disabled_next part
    obtain ⟨z, scanned, same⟩ := reapedPid_some reaped
    obtain ⟨parent, zombie⟩ := waitScan_found scanned
    cases part
    exact ⟨z, parent, zombie, same, waitBody_reaps (sound.cpus.running c q on (by simp [free])) scanned⟩
  | resume c =>
    obtain ⟨q, on, mapped⟩ := Option.bind_eq_some_iff.mp event
    split at mapped
    · rename_i waiting
      obtain ⟨found, reaped, pair⟩ := Option.map_eq_some_iff.mp mapped
      obtain ⟨rfl, rfl⟩ := Prod.mk.inj pair
      obtain ⟨z, scanned, same⟩ := reapedPid_some reaped
      obtain ⟨parent, zombie⟩ := waitScan_found scanned
      simp only [act, on] at ran
      obtain ⟨held, part⟩ := ite_disabled_next ran
      have running := sound.cpus.running c q on (by simp [held])
      have other : z ≠ q := by
        rintro rfl
        rw [State.setProc_proc_self] at zombie
        exact absurd (running.symm.trans zombie) (by simp)
      simp only [State.setProc_proc, if_neg other] at parent zombie same
      refine ⟨z, parent, zombie, same, ?_⟩
      cases part
      simp only [resume, waiting.1, waiting.2, if_true]
      exact waitBody_reaps (by simpa using running) scanned
    · contradiction
  | _ => contradiction

theorem Pids.step {past : List (Slot × Int)} (good : Pids s past) (sound : Sound s)
    (taken : step s a = some t) : Pids t (past ++ (waited s a).toList) := by
  obtain ⟨grows, fresh, isFresh, others⟩ := pid_of_change sound.forks (sound.change taken)
  have kept (x : Slot) (old : x ∉ fresh) (used : (t.proc x).state ≠ .unused) :
      (s.proc x).state ≠ .unused ∧ (t.proc x).pid = (s.proc x).pid := by
    obtain ⟨before, same | ⟨_, unused⟩⟩ := others x old
    · exact ⟨before used, same⟩
    · exact absurd unused used
  have below {x : Slot} (used : (t.proc x).state ≠ .unused) : (t.proc x).pid < t.nextpid := by
    by_cases new : x ∈ fresh
    · obtain ⟨pid, larger⟩ := isFresh x new
      omega
    · obtain ⟨before, same⟩ := kept x new used
      have := good.below x before
      omega
  have distinct {x y : Slot} (used : (t.proc x).state ≠ .unused) (before : (s.proc y).state ≠ .unused)
      (other : x ≠ y) : (t.proc x).pid ≠ (s.proc y).pid := by
    by_cases new : x ∈ fresh
    · have := good.below y before
      have := (isFresh x new).1
      omega
    · obtain ⟨usedBefore, same⟩ := kept x new used
      rw [same]
      exact mt (good.unique x y usedBefore before) other
  have gone {pid : Int} (old : pid < s.nextpid) (absent : ∀ x, (s.proc x).state ≠ .unused → (s.proc x).pid ≠ pid)
      {x : Slot} (used : (t.proc x).state ≠ .unused) : (t.proc x).pid ≠ pid := by
    by_cases new : x ∈ fresh
    · have := (isFresh x new).1
      omega
    · obtain ⟨before, same⟩ := kept x new used
      rw [same]
      exact absent x before
  have unique : ∀ x y, (t.proc x).state ≠ .unused → (t.proc y).state ≠ .unused →
      (t.proc x).pid = (t.proc y).pid → x = y := by
    intro x y usedX usedY equal
    by_contra other
    by_cases newY : y ∈ fresh
    · have newX : x ∉ fresh := by
        intro newX
        rw [Option.mem_def] at newX newY
        exact other (Option.some.inj (newX.symm.trans newY))
      obtain ⟨before, same⟩ := kept x newX usedX
      have := good.below x before
      have := (isFresh y newY).1
      omega
    · obtain ⟨before, same⟩ := kept y newY usedY
      exact distinct usedX before other (equal.trans same)
  have past_gone : ∀ r ∈ past, r.2 < t.nextpid ∧ ∀ x, (t.proc x).state ≠ .unused → (t.proc x).pid ≠ r.2 := by
    intro r member
    obtain ⟨old, absent⟩ := good.gone r member
    exact ⟨by omega, fun x used => gone old absent used⟩
  cases event : waited s a with
  | none =>
    simp only [Option.toList_none, List.append_nil]
    exact ⟨fun _ => below, unique, past_gone, good.distinct⟩
  | some result =>
    obtain ⟨p, pid⟩ := result
    obtain ⟨z, _, zombie, rfl, unused⟩ := waited_reaps sound taken event
    have used : (s.proc z).state ≠ .unused := by simp [zombie]
    refine ⟨fun _ => below, unique, ?_, ?_⟩
    · intro r member
      rcases List.mem_append.mp member with old | new
      · exact past_gone r old
      · obtain rfl : r = (p, (s.proc z).pid) := by simpa using new
        have := good.below z used
        refine ⟨by simp only; omega, fun x usedX => ?_⟩
        refine distinct usedX used ?_
        rintro rfl
        exact usedX unused
    · rw [List.map_append, List.nodup_append]
      refine ⟨good.distinct, by simp, ?_⟩
      intro old member new isNew equal
      obtain ⟨r, inPast, rfl⟩ := List.mem_map.mp member
      have isPid : new = (s.proc z).pid := by simpa using isNew
      exact (good.gone r inPast).2 z used (equal.trans isPid).symm

structure Protocol (s : State) (past : List (Slot × Int)) : Prop where
  sound : Sound s
  family : Family s
  missed : NoMissedExit s
  pids : Pids s past

theorem Protocol.step {past : List (Slot × Int)} (good : Protocol s past) (taken : step s a = some t) :
    Protocol t (past ++ (waited s a).toList) where
  sound := good.sound.step taken
  family := good.family.step good.sound.forks (good.sound.change taken)
  missed := good.missed.step good.sound good.family taken
  pids := good.pids.step good.sound taken

theorem protocol_userinit (ticks : Ticks) (kstack pgdir : Nat) :
    Protocol (userinit ticks kstack pgdir) [] := by
  have used {x : Slot} (used : ((userinit ticks kstack pgdir).proc x).state ≠ .unused) : x = 0 := by
    by_contra other
    rw [userinit_proc_other _ _ _ other] at used
    exact used rfl
  refine ⟨sound_userinit .., family_userinit .., ?_, ?_, ?_, by simp, List.nodup_nil⟩
  · intro x waits
    have first := used (x := x) (by simp [waits.1])
    rw [first, userinit_proc_init] at waits
    exact absurd waits.1 (by simp)
  · intro x alive
    rw [used alive, userinit_proc_init, userinit_eq]
    exact one_lt_two
  · intro x y usedX usedY _
    rw [used usedX, used usedY]

/-- At the end of any run every process but init has a parent that can still wait
for it, nobody sleeps in `wait` while it has a zombie child, and `wait` has returned no
pid twice and returns only children of its caller. -/
theorem exit_wait_protocol {ticks : Ticks} {kstack pgdir : Nat} {actions : List Action}
    (ran : exec step (userinit ticks kstack pgdir) actions = some s) :
    (∀ x, x ≠ s.initproc → (s.proc x).state ≠ .unused → (s.proc x).state ≠ .embryo →
      ∃ q, (s.proc x).parent = some q ∧ (s.proc q).state ≠ .unused ∧ (s.proc q).state ≠ .zombie) ∧
    (∀ x z, (s.proc x).state = .sleeping → (s.proc x).chan = some (.proc x) →
      (s.proc z).parent = some x → (s.proc z).state ≠ .zombie) ∧
    ((waitReturns (userinit ticks kstack pgdir) actions).map Prod.snd).Nodup ∧
    ∀ a t p pid, step s a = some t → waited s a = some (p, pid) →
      ∃ z, (s.proc z).pid = pid ∧ (s.proc z).state = .zombie ∧ (s.proc z).parent = some p := by
  have good : Protocol s (waitReturns (userinit ticks kstack pgdir) actions) :=
    ghost_invariant Protocol (protocol_userinit ticks kstack pgdir) along_true
      (fun _ _ _ _ good _ taken => good.step taken) ran
  refine ⟨?_, ?_, good.pids.distinct, ?_⟩
  · intro x notInit used grown
    obtain ⟨q, parent, live⟩ := good.family.parent x notInit used grown
    refine ⟨q, parent, ?_, ?_⟩ <;> rcases live with state | state | state <;> simp [state]
  · intro x z asleep chan
    exact good.missed x ⟨asleep, chan⟩ z
  · intro a t p pid taken event
    obtain ⟨z, parent, zombie, same, _⟩ := waited_reaps good.sound taken event
    exact ⟨z, same.symm, zombie, parent⟩

def forkExitWait : List Action :=
  List.flatten [firstDispatch, forkChild, [.wait 0, .scheduler 0, .scheduler 0], onePass, [.scheduler 0],
    firstDispatch, [.exitBegin 0, .exitEnd 0, .scheduler 0, .scheduler 0], onePass]

theorem exit_wait_protocol_child_collected : ∃ s t,
    exec step (userinit 0 1 2) forkExitWait = some s ∧ step s (.resume 0) = some t ∧
    waited s (.resume 0) = some (0, 2) ∧
    ∃ z, (s.proc z).pid = 2 ∧ (s.proc z).state = .zombie ∧ (s.proc z).parent = some 0 := by
  have observed : ((exec step (userinit 0 1 2) forkExitWait).map fun s =>
      ((step s (.resume 0)).isSome, waited s (.resume 0))) = some (true, some (0, 2)) := by decide +kernel
  obtain ⟨s, ran, seen⟩ := Option.map_eq_some_iff.mp observed
  obtain ⟨enabled, event⟩ := Prod.mk.inj seen
  obtain ⟨t, taken⟩ := Option.isSome_iff_exists.mp enabled
  exact ⟨s, t, ran, taken, event, (exit_wait_protocol ran).2.2.2 _ t 0 2 taken event⟩

end Xv6.Process
