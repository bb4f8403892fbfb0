import Xv6.Process.Effect

namespace Xv6.Process

open Xv6.Data

/-! # The life of a process

`OnCpu` relates the state `running` to the `proc` fields of the CPUs; `Forks` says what a
fork in progress owns.  `Change` lists what a step can do to the entries.
-/

def Proc.Live (p : Proc) : Prop :=
  p.state = .sleeping ∨ p.state = .runnable ∨ p.state = .running

def Activity.child : Activity → Option Slot
  | .forkStack np | .forkCopy np | .forkReady np => some np
  | _ => none

structure OnCpu (s : State) : Prop where
  running : ∀ c x, (s.cpu c).proc = some x → s.lock ≠ .scheduler c → (s.proc x).state = .running
  back : ∀ c x, (s.cpu c).proc = some x → s.lock = .scheduler c → (s.proc x).state ≠ .running
  unique : ∀ c d x, (s.cpu c).proc = some x → (s.cpu d).proc = some x → c = d
  owned : ∀ x, (s.proc x).state = .running → ∃ c, (s.cpu c).proc = some x
  head : ∀ c, (s.cpu c).scheduler.AtHead → (s.cpu c).proc = none ∧ s.lock = .scheduler c
  idle : ∀ c, (s.cpu c).scheduler = .idle → (s.cpu c).proc = none

structure Forks (s : State) : Prop where
  memory : ∀ x, (s.proc x).Live → (s.proc x).kstack ≠ none ∧ (s.proc x).pgdir ≠ none
  parent : ∀ x np, (s.proc x).inside.child = some np → (s.proc x).Live ∧ (s.proc np).state = .embryo
  unique : ∀ x y np, (s.proc x).inside.child = some np → (s.proc y).inside.child = some np → x = y
  kstack : ∀ x np, (s.proc x).inside = .forkCopy np ∨ (s.proc x).inside = .forkReady np →
    (s.proc np).kstack ≠ none
  pgdir : ∀ x np, (s.proc x).inside = .forkReady np → (s.proc np).pgdir ≠ none

inductive Edge : ProcState → ProcState → Prop
  | allocate : Edge .unused .embryo
  | ready : Edge .embryo .runnable
  | abandon : Edge .embryo .unused
  | dispatch : Edge .runnable .running
  | yield : Edge .running .runnable
  | sleep : Edge .running .sleeping
  | exit : Edge .running .zombie
  | wake : Edge .sleeping .runnable
  | reap : Edge .zombie .unused

/-- What an entry keeps as long as its process neither forks nor exits. -/
structure Proc.Keeps (old new : Proc) : Prop where
  kstack : new.kstack = old.kstack
  pgdir : new.pgdir = old.pgdir
  pid : new.pid = old.pid
  parent : new.parent = old.parent
  inside : new.inside = old.inside ∨
    old.inside.child = none ∧ new.inside.child = none ∧ new.inside ≠ .exit

inductive Proc.Turn (old new : Proc) : Prop
  | stays (state : new.state = old.state) (keeps : old.Keeps new)
  | moves (edge : Edge old.state new.state) (before : old.Live) (after : new.Live) (keeps : old.Keeps new)
  | reaped (zombie : old.state = .zombie) (reaped : new = old.reaped)

variable {s t : State} {a : Action} {c : CpuId} {x y p np : Slot}

/-- One part of a fork: the parent moves on to `activity` and the entry of the
child, which no other fork works on, becomes `child`. -/
structure ForkPart (s t : State) (p np : Slot) (activity : Activity) (child : Proc) : Prop where
  running : (s.proc p).state = .running
  distinct : np ≠ p
  parent : t.proc p = { s.proc p with inside := activity }
  child : t.proc np = child
  others : ∀ x, x ≠ p → x ≠ np → t.proc x = s.proc x
  free : ∀ x, x ≠ p → (s.proc x).inside.child ≠ some np

section

variable {activity : Activity} {child : Proc}

theorem ForkPart.first (good : Forks s) (running : (s.proc p).state = .running)
    (unused : (s.proc np).state = .unused) (allocated : allocproc s = some (np, t)) :
    ForkPart s (t.setProc p ({ · with inside := .forkStack np })) p np (.forkStack np)
      ((s.proc np).allocated s.nextpid) := by
  obtain ⟨_, rfl⟩ := allocproc_some allocated
  have distinct : np ≠ p := by
    rintro rfl
    exact absurd (unused.symm.trans running) (by simp)
  refine { running, distinct, parent := ?_, child := ?_, others := ?_, free := ?_ }
  · simp [State.setProc_proc, distinct.symm]
  · simp [State.setProc_proc, distinct]
  · intro x isParent isChild
    simp [State.setProc_proc, isParent, isChild]
  · intro x _ child
    exact absurd (unused.symm.trans (good.parent x np child).2) (by simp)

theorem ForkPart.later (good : Forks s) (running : (s.proc p).state = .running)
    (owned : (s.proc p).inside.child = some np) (f : Proc → Proc) (activity : Activity) :
    ForkPart s ((s.setProc np f).setProc p ({ · with inside := activity })) p np activity
      (f (s.proc np)) := by
  have distinct : np ≠ p := by
    rintro rfl
    exact absurd ((good.parent np np owned).2.symm.trans running) (by simp)
  refine { running, distinct, parent := ?_, child := ?_, others := ?_, free := ?_ }
  · simp [State.setProc_proc, distinct.symm]
  · simp [State.setProc_proc, distinct]
  · intro x isParent isChild
    simp [State.setProc_proc, isParent, isChild]
  · intro x other otherChild
    exact other (good.unique x p np otherChild owned)

theorem ForkPart.forker (part : ForkPart s t p np activity child) (inert : child.inside.child = none)
    (owns : activity.child = none ∨ activity.child = some np) (inside : (t.proc x).inside.child = some y) :
    x = p ∧ y = np ∨ x ≠ p ∧ x ≠ np ∧ y ≠ np ∧ (s.proc x).inside.child = some y := by
  by_cases isParent : x = p
  · subst isParent
    rw [part.parent] at inside
    rcases owns with none | some
    · exact absurd (inside.symm.trans none) (by simp)
    · exact .inl ⟨rfl, Option.some.inj (inside.symm.trans some)⟩
  · by_cases isChild : x = np
    · subst isChild
      rw [part.child] at inside
      exact absurd (inside.symm.trans inert) (by simp)
    · rw [part.others x isParent isChild] at inside
      refine .inr ⟨isParent, isChild, ?_, inside⟩
      rintro rfl
      exact part.free x isParent inside

end

inductive ForkStep (s t : State) (p np : Slot) : Activity → Proc → Prop
  | allocate (unused : (s.proc np).state = .unused) (nextpid : t.nextpid = s.nextpid + 1)
      (user : (s.proc p).inside = .user) :
      ForkStep s t p np (.forkStack np) ((s.proc np).allocated s.nextpid)
  | noStack (inside : (s.proc p).inside = .forkStack np) (nextpid : t.nextpid = s.nextpid) :
      ForkStep s t p np .user ((s.proc np).stacked s.ticks none)
  | stack {kstack : Nat} (inside : (s.proc p).inside = .forkStack np) (nextpid : t.nextpid = s.nextpid) :
      ForkStep s t p np (.forkCopy np) ((s.proc np).stacked s.ticks (some kstack))
  | noCopy (inside : (s.proc p).inside = .forkCopy np) (nextpid : t.nextpid = s.nextpid) :
      ForkStep s t p np .user ((s.proc np).copied p none)
  | copy {pgdir : Nat} (inside : (s.proc p).inside = .forkCopy np) (nextpid : t.nextpid = s.nextpid) :
      ForkStep s t p np (.forkReady np) ((s.proc np).copied p (some pgdir))
  | ready (inside : (s.proc p).inside = .forkReady np) (nextpid : t.nextpid = s.nextpid) :
      ForkStep s t p np .user { s.proc np with state := .runnable }

inductive Change (s : State) (a : Action) (t : State) : Prop
  | turns (init : t.initproc = s.initproc) (nextpid : t.nextpid = s.nextpid)
      (turns : ∀ x, (s.proc x).Turn (t.proc x))
  | fork {p np : Slot} {activity : Activity} {child : Proc} (init : t.initproc = s.initproc)
      (part : ForkPart s t p np activity child) (forks : ForkStep s t p np activity child)
  | exitBegin {p : Slot} (running : (s.proc p).state = .running) (user : (s.proc p).inside = .user)
      (notInit : p ≠ s.initproc) (result : t = exitBegin s p)
  | exitEnd {c : CpuId} {p : Slot} (running : (s.proc p).state = .running)
      (inside : (s.proc p).inside = .exit) (result : t = exitEnd s c p)

structure Turning (s t : State) : Prop where
  init : t.initproc = s.initproc
  nextpid : t.nextpid = s.nextpid
  turns : ∀ x, (s.proc x).Turn (t.proc x)

theorem Proc.Live.not_embryo {p : Proc} (live : p.Live) : p.state ≠ .embryo := by
  rcases live with state | state | state <;> simp [state]

theorem Proc.Keeps.refl (p : Proc) : p.Keeps p :=
  ⟨rfl, rfl, rfl, rfl, .inl rfl⟩

theorem Proc.Turn.refl (p : Proc) : p.Turn p :=
  .stays rfl (.refl p)

theorem Proc.turn_woken {proc : Proc} (asleep : proc.state = .sleeping) (ticks : Ticks) :
    proc.Turn (proc.woken ticks) :=
  .moves (by rw [asleep]; exact .wake) (.inl asleep) (.inr (.inl rfl))
    ⟨rfl, rfl, rfl, rfl, .inl rfl⟩

theorem Proc.turn_killedAt (proc : Proc) (ticks : Ticks) : proc.Turn (proc.killedAt ticks) := by
  have keeps : proc.Keeps (proc.killedAt ticks) :=
    ⟨rfl, rfl, rfl, rfl, .inl rfl⟩
  by_cases asleep : proc.state = .sleeping
  · have awake : (proc.killedAt ticks).state = .runnable := by simp [Proc.killedAt, asleep]
    exact .moves (by rw [asleep, awake]; exact .wake) (.inl asleep) (.inr (.inl awake)) keeps
  · exact .stays (by simp [Proc.killedAt, asleep]) keeps

theorem Turning.of_update {proc : Proc} (init : t.initproc = s.initproc) (nextpid : t.nextpid = s.nextpid)
    (table : t.proc = Function.update s.proc x proc) (turn : (s.proc x).Turn proc) : Turning s t :=
  ⟨init, nextpid, State.update_rel Proc.Turn.refl table turn⟩

theorem Turning.of_same (init : t.initproc = s.initproc) (nextpid : t.nextpid = s.nextpid)
    (table : t.proc = s.proc) : Turning s t :=
  ⟨init, nextpid, fun x => by rw [table]; exact .refl _⟩

section

variable {u : State} {entry : Proc}

section

variable (table : u.proc = Function.update s.proc p entry)
include table

theorem Turning.sleep {chan : Chan} (init : u.initproc = s.initproc) (nextpid : u.nextpid = s.nextpid)
    (keeps : (s.proc p).Keeps entry) (running : (s.proc p).state = .running) : Turning s (sleep u c p chan) := by
  have after : (Process.sleep u c p chan).proc =
      Function.update s.proc p { entry.asleep u.ticks chan with context := .sleep } := by
    simp [Process.sleep, sched, State.setProc, table]
  refine .of_update init nextpid after (.moves ?_ (.inr (.inr running)) (.inl rfl) ?_)
  · rw [running]
    exact .sleep
  · exact { kstack := keeps.kstack, pgdir := keeps.pgdir, pid := keeps.pid, parent := keeps.parent,
            inside := keeps.inside }

theorem reap_proc {child : Slot} (other : child ≠ p)
    (x : Slot) : ((u.setProc child (·.reaped)).setProc p ({ · with inside := .user })).proc x =
      if x = p then { entry with inside := .user }
      else if x = child then (s.proc child).reaped else s.proc x := by
  by_cases isCaller : x = p
  · simp [State.setProc, table, isCaller, other.symm]
  · by_cases isChild : x = child
    · simp [State.setProc, table, isChild, other]
    · simp [State.setProc, table, isCaller, isChild]

theorem Turning.waitBody (init : u.initproc = s.initproc) (nextpid : u.nextpid = s.nextpid)
    (keeps : (s.proc p).Keeps entry)
    (idle : (s.proc p).inside.child = none) (running : (s.proc p).state = .running)
    (still : entry.state = .running) : Turning s (waitBody u c p) := by
  have entered (inside : Activity) (other : inside.child = none ∧ inside ≠ .exit) :
      (s.proc p).Keeps { entry with inside } :=
    { kstack := keeps.kstack, pgdir := keeps.pgdir, pid := keeps.pid, parent := keeps.parent,
      inside := .inr ⟨idle, other⟩ }
  have user : (s.proc p).Turn { entry with inside := .user } :=
    .stays (still.trans running.symm) (entered .user ⟨rfl, by simp⟩)
  unfold Process.waitBody
  split
  · rename_i child scanned
    have zombie := (waitScan_found scanned).2
    have other : child ≠ p := by
      rintro rfl
      rw [table, Function.update_self, still] at zombie
      contradiction
    rw [table, Function.update_of_ne other] at zombie
    refine ⟨init, nextpid, fun x => ?_⟩
    rw [reap_proc table other]
    split
    · next isCaller => exact isCaller ▸ user
    · split
      · rename_i isChild
        subst isChild
        exact .reaped zombie rfl
      · exact .refl _
  · refine .of_update (x := p) init nextpid ?_ user
    simp [State.setProc, table]
  · have asks : (u.setProc p ({ · with inside := .wait })).proc =
        Function.update s.proc p { entry with inside := .wait } := by
      simp [State.setProc, table]
    exact .sleep asks init nextpid (entered .wait ⟨rfl, by simp⟩) running

end

end

theorem Turning.resume (running : (s.proc p).state = .running) : Turning s (resume s c p) := by
  have keeps : (s.proc p).Keeps { s.proc p with chan := none } :=
    ⟨rfl, rfl, rfl, rfl, .inl rfl⟩
  unfold Process.resume
  split
  · exact .of_same rfl rfl rfl
  · exact .of_update rfl rfl rfl (.stays rfl ⟨rfl, rfl, rfl, rfl, .inl rfl⟩)
  · split
    · next waiting => exact .waitBody rfl rfl rfl keeps (by rw [waiting]; rfl) running running
    · exact .of_update rfl rfl rfl (.stays rfl keeps)

theorem Turning.yield (running : (s.proc p).state = .running) : Turning s (yield s c p) := by
  have after : (Process.yield s c p).proc = Function.update s.proc p { s.proc p with
      runningTime := (s.proc p).runningTime + (s.ticks - (s.proc p).lastTime)
      state := .runnable
      context := .yield } := by
    simp [Process.yield, sched, State.setProc]
  refine .of_update rfl rfl after (.moves ?_ (.inr (.inr running)) (.inr (.inl rfl)) ?_)
  · rw [running]
    exact .yield
  · exact ⟨rfl, rfl, rfl, rfl, .inl rfl⟩

theorem Turning.scheduled (effect : Scheduled s c t) : Turning s t := by
  cases effect with
  | moved turned holds => exact .of_same rfl rfl rfl
  | dispatched turned away runnable =>
    refine .of_update rfl rfl rfl (.moves ?_ (.inr (.inl runnable)) (.inr (.inr rfl)) ?_)
    · rw [runnable]
      exact .dispatch
    · exact ⟨rfl, rfl, rfl, rfl, .inl rfl⟩

theorem Turning.change (turning : Turning s t) : Change s a t :=
  .turns turning.init turning.nextpid turning.turns

def Action.Plain : Action → Prop
  | .fork _ | .forkStack _ _ | .forkCopy _ _ | .forkReady _ | .exitBegin _ | .exitEnd _ => False
  | _ => True

theorem turning_of_effect (cpus : OnCpu s) (effect : Effect s a t) (plain : a.Plain) : Turning s t := by
  have unlocked {c : CpuId} {p : Slot} (on : (s.cpu c).proc = some p) (free : s.lock = .free) :
      (s.proc p).state = .running := cpus.running c p on (by simp [free])
  cases effect with
  | tick | changepolicy | nothing => exact .of_same rfl rfl rfl
  | wakeup free =>
    refine ⟨rfl, rfl, fun x => ?_⟩
    rw [wakeup1_proc]
    split
    · next sleeps => exact Proc.turn_woken (Proc.sleepsOn_state sleeps) _
    · exact .refl _
  | kill free found => exact .of_update rfl rfl rfl (Proc.turn_killedAt _ _)
  | setPriority free found | syscall on =>
    exact .of_update rfl rfl rfl (.stays rfl ⟨rfl, rfl, rfl, rfl, .inl rfl⟩)
  | @setqueue pid queue free =>
    rw [foldl_setqueueStep _ (List.nodup_finRange NPROC)]
    refine ⟨rfl, rfl, fun x => ?_⟩
    dsimp only
    split
    · exact .stays rfl ⟨rfl, rfl, rfl, rfl, .inl rfl⟩
    · exact .refl _
  | wait on free user =>
    have running := unlocked on free
    exact .waitBody (Function.update_eq_self ..).symm rfl rfl (.refl _) (by rw [user]; rfl) running running
  | sleep on free inside =>
    exact .sleep (Function.update_eq_self ..).symm rfl rfl (.refl _) (unlocked on free)
  | yield on free => exact .yield (unlocked on free)
  | @resume c p on held => exact .resume (cpus.running c p on (by simp [held]))
  | pass free idle none effect | scheduler held effect => exact .scheduled effect
  | fork | forkStack | forkCopy | forkReady | exitBegin | exitEnd => exact plain.elim

/-- What a step does to the table, in a state that satisfies both invariants. -/
theorem change_of_effect (cpus : OnCpu s) (forks : Forks s) (effect : Effect s a t) : Change s a t := by
  have turning (plain : a.Plain) : Change s a t := (turning_of_effect cpus effect plain).change
  have unlocked {c : CpuId} {p : Slot} (on : (s.cpu c).proc = some p) (free : s.lock = .free) :
      (s.proc p).state = .running := cpus.running c p on (by simp [free])
  have later {c : CpuId} {p np : Slot} (on : (s.cpu c).proc = some p)
      (elsewhere : s.lock ≠ .scheduler c) (owned : (s.proc p).inside.child = some np)
      (f : Proc → Proc) (activity : Activity) :=
    ForkPart.later forks (cpus.running c p on elsewhere) owned f activity
  cases effect with
  | fork on free user unused allocated =>
    have part := ForkPart.first forks (unlocked on free) unused allocated
    obtain ⟨_, rfl⟩ := allocproc_some allocated
    exact .fork rfl part (.allocate unused rfl user)
  | @forkStack c p np kstack on elsewhere inside =>
    have part := later on elsewhere.1 (by rw [inside]; rfl) (·.stacked s.ticks kstack)
      (if kstack = none then .user else .forkCopy np)
    cases kstack with
    | none => exact .fork rfl part (.noStack inside rfl)
    | some stack => exact .fork rfl part (.stack inside rfl)
  | @forkCopy c p np pgdir on elsewhere inside =>
    have part := later on elsewhere.1 (by rw [inside]; rfl) (·.copied p pgdir)
      (if pgdir = none then .user else .forkReady np)
    cases pgdir with
    | none => exact .fork rfl part (.noCopy inside rfl)
    | some directory => exact .fork rfl part (.copy inside rfl)
  | forkReady on free inside =>
    have part := later on (by simp [free]) (by rw [inside]; rfl) ({ · with state := .runnable }) .user
    exact .fork rfl part (.ready inside rfl)
  | @exitBegin c p on elsewhere user notInit =>
    exact .exitBegin (cpus.running c p on elsewhere.1) user notInit rfl
  | exitEnd on free inside => exact .exitEnd (unlocked on free) inside rfl
  | nothing => exact (Turning.of_same rfl rfl rfl).change
  | tick | changepolicy | wakeup | kill | setPriority | setqueue | syscall | wait | sleep | yield | resume
  | pass | scheduler => exact turning trivial

end Xv6.Process
