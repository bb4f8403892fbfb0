import Xv6.Process.ExitWait
import Xv6.Process.StateMachine
import Xv6.Process.Updates

namespace Xv6.Process

open Xv6.Data
open Function (update update_self update_of_ne)

/-! # A child does not depend on the former occupant of its slot

The fields of a slot are reset partly in `allocproc`, partly in `exit` and partly in
`wait`.  `killed` is reset only in `wait`, while `kill` also finds slots that are unused,
so a child can be born killed.
-/

variable {s t : State} {a : Action} {c : CpuId} {x p np : Slot}

/-! A process that has been given a CPU clears `chan` before it releases the lock. -/

/-- The CPU runs a process, not its scheduler or the code right after `swtch`. -/
def RunsProcess (s : State) (c : CpuId) (x : Slot) : Prop :=
  (s.cpu c).proc = some x ∧ s.lock ≠ .process c ∧ s.lock ≠ .scheduler c

structure Channels (s : State) : Prop where
  live : ∀ x, (s.proc x).chan ≠ none → (s.proc x).Live ∧ (s.proc x).context = .sleep
  running : ∀ c x, RunsProcess s c x → (s.proc x).chan = none

theorem chan_of_update {old new : Proc} (update : Proc.Update s a x old new)
    (before : old.chan = (s.proc x).chan ∨ old.chan = none ∨ old.state = .sleeping) :
    new.chan = (s.proc x).chan ∨ new.chan = none ∨ new.state = .sleeping := by
  cases update with
  | adopted => exact before
  | enters running =>
    rcases before with same | none | asleep
    · exact .inl same
    · exact .inr (.inl none)
    · exact absurd (running.symm.trans asleep) (by simp)
  | sleeps => exact .inr (.inr rfl)
  | awakes => exact .inr (.inl rfl)
  | @stacked kstack => cases kstack <;> exact .inl rfl
  | @copied parent pgdir => cases pgdir <;> exact .inl rfl
  | _ => exact .inl rfl

theorem runsProcess_before (sound : Sound s) (taken : step s a = some t) (runs : RunsProcess t c x) :
    RunsProcess s c x ∨ a = .resume c ∧ (s.cpu c).proc = some x ∧ t = resume s c x := by
  obtain ⟨on, notProcess, notScheduler⟩ := runs
  have released (cpu : t.cpu = s.cpu) (free : s.lock = .free) : RunsProcess s c x :=
    ⟨cpu ▸ on, by simp [free], by simp [free]⟩
  have scheduled {d : CpuId} (effect : Scheduled s d t) (lock : s.lock = .free ∨ s.lock = .scheduler d) :
      RunsProcess s c x := by
    have other : c ≠ d := by
      rintro rfl
      cases effect with
      | moved turned holds => simp at on
      | dispatched => exact notProcess rfl
    have cpu : (s.cpu c).proc = some x := by
      cases effect with
      | moved turned holds | dispatched => simpa [State.setCpu_cpu, other] using on
    rcases lock with free | held
    · exact ⟨cpu, by simp [free], by simp [free]⟩
    · exact ⟨cpu, by simp [held], by simpa [held] using Ne.symm other⟩
  cases sound.effect taken with
  | tick | wakeup | kill | setPriority | changepolicy | syscall | forkStack | forkCopy | forkReady
  | exitBegin | nothing => exact .inl ⟨on, notProcess, notScheduler⟩
  | setqueue free =>
    rw [foldl_setqueueStep _ (List.nodup_finRange NPROC)] at on
    exact .inl ⟨on, by simp [free], by simp [free]⟩
  | fork on' free user unused allocated =>
    obtain ⟨_, rfl⟩ := allocproc_some allocated
    exact .inl ⟨on, by simp [free], by simp [free]⟩
  | exitEnd on' free => exact .inl (released exitEnd_cpu free)
  | wait on' free => exact .inl (released waitBody_cpu free)
  | sleep on' free => exact .inl (released rfl free)
  | yield on' free => exact .inl (released rfl free)
  | @resume d p on' held =>
    rw [resume_cpu] at on
    by_cases same : c = d
    · subst same
      obtain rfl := Option.some.inj (on.symm.trans on')
      exact .inr ⟨rfl, on, rfl⟩
    · exact .inl ⟨on, by simpa [held] using Ne.symm same, by simp [held]⟩
  | pass free idle none effect => exact .inl (scheduled effect (.inl free))
  | scheduler held effect => exact .inl (scheduled effect (.inr held))

theorem live_of_update {old new : Proc} (good : Channels s) (sound : Sound s)
    (update : Proc.Update s a x old new) (before : old.chan ≠ none → old.Live ∧ old.context = .sleep) :
    new.chan ≠ none → new.Live ∧ new.context = .sleep := by
  have dead (other : ¬ (s.proc x).Live) : (s.proc x).chan = none := by
    by_contra set
    exact other (good.live x set).1
  have awake (running : (s.proc x).state = .running) (free : s.lock = .free) : (s.proc x).chan = none := by
    obtain ⟨c, on⟩ := sound.cpus.owned x running
    exact good.running c x ⟨on, by simp [free], by simp [free]⟩
  intro set
  cases update with
  | woken asleep => exact ⟨.inr (.inl rfl), (good.live x set).2⟩
  | killed is named =>
    obtain ⟨live, context⟩ := good.live x set
    refine ⟨?_, context⟩
    by_cases asleep : (s.proc x).state = .sleeping
    · exact .inr (.inl (by simp [Proc.killedAt, asleep]))
    · simpa [Proc.Live, Proc.killedAt, asleep] using live
  | prioritized | requeued | counted | stamped | exits => exact good.live x set
  | allocated unused => exact absurd (dead (by simp [Proc.Live, unused])) set
  | @stacked kstack c embryo =>
    refine absurd (dead (by simp [Proc.Live, embryo])) ?_
    cases kstack <;> exact set
  | @copied parent pgdir embryo =>
    refine absurd (dead (by simp [Proc.Live, embryo])) ?_
    cases pgdir <;> exact set
  | ready inside embryo => exact absurd (dead (by simp [Proc.Live, embryo])) set
  | adopted | enters => exact before set
  | ends running inside free | yields running free => exact absurd (awake running free) set
  | reaped zombie => exact absurd (dead (by simp [Proc.Live, zombie])) set
  | sleeps => exact ⟨.inl rfl, rfl⟩
  | dispatched runnable => exact ⟨.inr (.inr rfl), (good.live x set).2⟩
  | awakes => exact absurd rfl set

theorem resume_chan (good : Channels s) (still : ((resume s c p).proc p).state = .running) :
    ((resume s c p).proc p).chan = none := by
  have kept (other : (s.proc p).context ≠ .sleep) : (s.proc p).chan = none := by
    by_contra set
    exact other (good.live p set).2
  unfold resume at still ⊢
  split
  · next context => exact kept (by simp [context])
  · rename_i context
    rw [State.setProc_proc_self]
    exact kept (by simp [context])
  · rename_i context
    simp only [context] at still
    split
    · rename_i waiting
      rw [if_pos waiting] at still
      cases scanned : waitScan (s.setProc p ({ · with chan := none })) p with
      | found child =>
        by_cases same : p = child
        · subst same
          simp [waitBody, scanned, Proc.reaped]
        · simp [waitBody, scanned, State.setProc_proc, same]
      | noPoint => simp [waitBody, scanned]
      | sleep => simp [waitBody, scanned, sleep, sched, Proc.asleep] at still
    · simp

theorem Channels.step (good : Channels s) (sound : Sound s) (taken : step s a = some t) : Channels t where
  live x := (updates_of_step sound taken x).keeps
    (fun _ _ update => live_of_update good sound update) (good.live x)
  running c x runs := by
    have still := (sound.step taken).cpus.running c x runs.1 runs.2.2
    rcases runsProcess_before sound taken runs with before | ⟨_, _, rfl⟩
    · have none := good.running c x before
      rcases (updates_of_step sound taken x).keeps (fun _ _ update => chan_of_update update) (.inl rfl) with
        same | none | asleep
      · exact same.trans none
      · exact none
      · exact absurd (still.symm.trans asleep) (by simp)
    · exact resume_chan good still

theorem channels_userinit (ticks : Ticks) (kstack pgdir : Nat) : Channels (userinit ticks kstack pgdir) := by
  have none (x : Slot) : ((userinit ticks kstack pgdir).proc x).chan = none := by
    by_cases init : x = 0
    · rw [init, userinit_proc_init]
    · rw [userinit_proc_other _ _ _ init]
  exact ⟨fun x set => absurd (none x) set, fun _ x _ => none x⟩

/-- What is true of an entry that no process has yet. -/
structure Proc.Clean (p : Proc) : Prop where
  unused : p.state = .unused → p.killed = false ∧ p.kstack = none
  embryo : p.state = .embryo → p.killed = false ∧ p.chan = none ∧ p.priority = 3 ∧
    p.queueNumber = QUEUE_DEFAULT ∧ p.scheduledTimes = 0 ∧ p.syscallhistory = []
  stacked : p.state = .embryo → p.kstack ≠ none →
    p.readyTime = 0 ∧ p.runningTime = 0 ∧ p.sleepTime = 0 ∧ p.lastTime = p.creationTime ∧ p.inside = .user

/-- `kill` finds no slot without a process, and nothing that names a pid finds a
child whose fork has not returned. -/
def Polite (s : State) : Action → Prop
  | .kill pid => ∀ x, (s.proc x).pid = pid → (s.proc x).state ≠ .unused ∧ (s.proc x).state ≠ .embryo
  | .setPriority pid _ | .setqueue pid _ => ∀ x, (s.proc x).pid = pid → (s.proc x).state ≠ .embryo
  | _ => True

theorem Proc.Clean.of_live {p : Proc} (live : p.state ≠ .unused) (grown : p.state ≠ .embryo) : p.Clean :=
  ⟨fun unused => absurd unused live, fun embryo => absurd embryo grown, fun embryo => absurd embryo grown⟩

theorem clean_of_update {old new : Proc} (channels : Channels s) (polite : Polite s a) (start : (s.proc x).Clean)
    (update : Proc.Update s a x old new) (before : old.Clean) : new.Clean := by
  cases update with
  | killed is found =>
    subst is
    obtain ⟨used, grown⟩ := polite x (by simpa using State.findSlot_some found)
    by_cases asleep : (s.proc x).state = .sleeping
    · exact .of_live (by simp [Proc.killedAt, asleep]) (by simp [Proc.killedAt, asleep])
    · exact .of_live (by simpa [Proc.killedAt, asleep] using used) (by simpa [Proc.killedAt, asleep] using grown)
  | prioritized is named | requeued is named =>
    subst is
    have grown := polite x named
    exact ⟨start.unused, fun embryo => absurd embryo grown, fun embryo => absurd embryo grown⟩
  | allocated unused =>
    obtain ⟨killed, kstack⟩ := start.unused unused
    have chan : (s.proc x).chan = none := by
      by_contra set
      have live := (channels.live x set).1
      simp [Proc.Live, unused] at live
    refine ⟨fun other => ?_, fun _ => ⟨killed, chan, rfl, rfl, rfl, rfl⟩, fun _ set => absurd kstack set⟩
    simp [Proc.allocated] at other
  | @stacked kstack c embryo =>
    obtain ⟨killed, facts⟩ := start.embryo embryo
    cases kstack with
    | none => exact ⟨fun _ => ⟨killed, rfl⟩, fun other => by simp [Proc.stacked] at other,
        fun other => by simp [Proc.stacked] at other⟩
    | some stack =>
      refine ⟨fun other => ?_, fun _ => ⟨killed, facts⟩, fun _ _ => ⟨rfl, rfl, rfl, rfl, rfl⟩⟩
      simp [Proc.stacked, embryo] at other
  | @copied parent pgdir embryo =>
    obtain ⟨killed, facts⟩ := start.embryo embryo
    cases pgdir with
    | none => exact ⟨fun _ => ⟨killed, rfl⟩, fun other => by simp [Proc.copied] at other,
        fun other => by simp [Proc.copied] at other⟩
    | some directory =>
      refine ⟨fun other => ?_, fun _ => ⟨killed, facts⟩, start.stacked⟩
      simp [Proc.copied, embryo] at other
  | reaped zombie =>
    exact ⟨fun _ => ⟨rfl, rfl⟩, fun other => by simp [Proc.reaped] at other,
      fun other => by simp [Proc.reaped] at other⟩
  | adopted => exact ⟨before.unused, before.embryo, before.stacked⟩
  | woken | ready | ends | yields => exact .of_live (by simp [Proc.woken]) (by simp [Proc.woken])
  | dispatched | sleeps =>
    exact .of_live (by simp [Proc.dispatched, Proc.asleep]) (by simp [Proc.dispatched, Proc.asleep])
  | counted running | exits running | stamped running | awakes running | enters running =>
    exact .of_live (by simp [running]) (by simp [running])

/-! The table of open files of each process beside the process table: the process on
a CPU opens and closes descriptors, `fork` gives the child the parent's open files
and `exit` closes them all.
-/

abbrev NOFILE : Nat := 16

scoped instance : NeZero NOFILE := ⟨by decide⟩

/-- `p->ofile`: an open file is a pointer into the file table. -/
abbrev OpenFiles := Fin NOFILE → Option Nat

structure Tables where
  state : State
  ofile : Slot → OpenFiles

inductive TableAction where
  | kernel (a : Action)
  | setFd (c : CpuId) (fd : Fin NOFILE) (file : Option Nat)
deriving DecidableEq, Repr

/-- `if (curproc->ofile[i]) np->ofile[i] = filedup(curproc->ofile[i])` for each `i`. -/
def dupFiles (parent child : OpenFiles) : OpenFiles :=
  fun i => if (parent i).isSome then parent i else child i

/-- What the parts of `fork` and `exit` do to the open files. -/
def filesAfter (s : State) (ofile : Slot → OpenFiles) : Action → Slot → OpenFiles
  | .forkCopy c (some _) =>
    match (s.cpu c).proc with
    | some p =>
      match (s.proc p).inside with
      | .forkCopy np => update ofile np (dupFiles (ofile p) (ofile np))
      | _ => ofile
    | none => ofile
  | .exitBegin c =>
    match (s.cpu c).proc with
    | some p => update ofile p fun _ => none
    | none => ofile
  | _ => ofile

def tableStep (w : Tables) : TableAction → Option Tables
  | .kernel a => (step w.state a).map fun t => ⟨t, filesAfter w.state w.ofile a⟩
  | .setFd c fd file =>
    match (w.state.cpu c).proc with
    | some p =>
      if w.state.lock = .scheduler c ∨ w.state.lock = .process c ∨ (w.state.proc p).inside ≠ .user then none
      else some { w with ofile := update w.ofile p (update (w.ofile p) fd file) }
    | none => none

def tablesInit (ticks : Ticks) (kstack pgdir : Nat) : Tables :=
  ⟨userinit ticks kstack pgdir, fun _ _ => none⟩

def PoliteTables (w : Tables) : TableAction → Prop
  | .kernel a => Polite w.state a
  | .setFd _ _ _ => True

/-- Only processes that are not exiting and children about to be made runnable
have open files, and such a child has those of its parent. -/
structure Owned (s : State) (ofile : Slot → OpenFiles) : Prop where
  held : ∀ x, ofile x ≠ (fun _ => none) → (s.proc x).Live ∧ (s.proc x).inside ≠ .exit ∨
    ∃ p, (s.proc p).inside = .forkReady x
  inherited : ∀ p np, (s.proc p).inside = .forkReady np → ofile np = ofile p

structure Fresh (w : Tables) : Prop where
  sound : Sound w.state
  channels : Channels w.state
  clean : ∀ x, (w.state.proc x).Clean
  owned : Owned w.state w.ofile

theorem dupFiles_none {parent child : OpenFiles} (empty : child = fun _ => none) :
    dupFiles parent child = parent := by
  funext i
  rw [dupFiles, empty]
  cases parent i <;> rfl

section

variable {ofile ofile' : Slot → OpenFiles}

section

variable (owned : Owned s ofile)
include owned

theorem Owned.turning (turning : Turning s t) : Owned t ofile where
  held x set := by
    rcases owned.held x set with ⟨live, away⟩ | ⟨p, ready⟩
    · left
      refine ⟨(turning.turns x).live live, ?_⟩
      rcases (turning.turns x).inside with same | ⟨_, _, other⟩
      · rwa [same]
      · exact other
    · right
      rcases (turning.turns p).inside with same | ⟨none, _, _⟩
      · exact ⟨p, same.trans ready⟩
      · rw [ready] at none
        contradiction
  inherited p np ready := by
    rcases (turning.turns p).inside with same | ⟨_, none, _⟩
    · exact owned.inherited p np (same.symm.trans ready)
    · rw [ready] at none
      contradiction

theorem Owned.forking {activity : Activity} {child : Proc} (forks : Forks s)
    (part : ForkPart s t p np activity child) (dead : ¬ (s.proc np).Live) (inert : child.inside.child = none)
    (before : ∀ y, (s.proc p).inside = .forkReady y → y = np) (away : activity ≠ .exit)
    (others : ∀ y, y ≠ np → ofile' y = ofile y)
    (settled : ofile' np ≠ (fun _ => none) → child.Live ∧ child.inside ≠ .exit ∨ activity = .forkReady np)
    (inherits : ∀ y, activity = .forkReady y → y = np ∧ ofile' np = ofile p) : Owned t ofile' where
  held x set := by
    by_cases isChild : x = np
    · subst isChild
      rcases settled set with running | ready
      · left
        rwa [part.child]
      · exact .inr ⟨p, by rw [part.parent]; exact ready⟩
    · by_cases isParent : x = p
      · left
        rw [isParent, part.parent]
        exact ⟨.inr (.inr part.running), away⟩
      · rw [others x isChild] at set
        rcases owned.held x set with live | ⟨q, ready⟩
        · left
          rwa [part.others x isParent isChild]
        · have notParent : q ≠ p := by
            rintro rfl
            exact isChild (before x ready)
          have notChild : q ≠ np := by
            rintro rfl
            exact dead (forks.parent q x (by rw [ready]; rfl)).1
          exact .inr ⟨q, by rw [part.others q notParent notChild]; exact ready⟩
  inherited q y ready := by
    by_cases isParent : q = p
    · rw [isParent, part.parent] at ready
      obtain ⟨rfl, same⟩ := inherits y ready
      rw [isParent, others p part.distinct.symm]
      exact same
    · by_cases isChild : q = np
      · rw [isChild, part.child] at ready
        rw [ready] at inert
        contradiction
      · rw [part.others q isParent isChild] at ready
        have other : y ≠ np := by
          rintro rfl
          exact part.free q isParent (by rw [ready]; rfl)
        rw [others y other, others q isChild]
        exact owned.inherited q y ready

theorem Owned.exitBegin (forks : Forks s) (running : (s.proc p).state = .running)
    (user : (s.proc p).inside = .user) :
    Owned (exitBegin s p) (update ofile p fun _ => none) where
  held x set := by
    have other : x ≠ p := by
      rintro rfl
      exact set (update_self ..)
    rw [update_of_ne other] at set
    rcases owned.held x set with live | ⟨q, ready⟩
    · left
      rwa [exitBegin_proc, if_neg other]
    · have notExiting : q ≠ p := by
        rintro rfl
        exact absurd (user.symm.trans ready) (by simp)
      exact .inr ⟨q, by rw [exitBegin_proc, if_neg notExiting]; exact ready⟩
  inherited q y ready := by
    rw [exitBegin_proc] at ready
    split at ready
    · contradiction
    · rename_i other
      have notExiting : y ≠ p := by
        rintro rfl
        have embryo := (forks.parent q y (by rw [ready]; rfl)).2
        exact absurd (running.symm.trans embryo) (by simp)
      rw [update_of_ne notExiting, update_of_ne other]
      exact owned.inherited q y ready

theorem Owned.exitEnd (forks : Forks s) (running : (s.proc p).state = .running)
    (inside : (s.proc p).inside = .exit) : Owned (exitEnd s c p) ofile where
  held x set := by
    have other : x ≠ p := by
      rintro rfl
      rcases owned.held x set with ⟨_, away⟩ | ⟨q, ready⟩
      · exact away inside
      · have embryo := (forks.parent q x (by rw [ready]; rfl)).2
        exact absurd (running.symm.trans embryo) (by simp)
    rcases owned.held x set with ⟨live, away⟩ | ⟨q, ready⟩
    · left
      refine ⟨?_, by rw [(exitEnd_kept running x).2.1]; exact away⟩
      rcases exitEnd_live (s := s) (c := c) other with same | ⟨woken, _⟩
      · simpa only [Proc.Live, same] using live
      · exact .inr (.inl woken)
    · exact .inr ⟨q, by rw [(exitEnd_kept running q).2.1]; exact ready⟩
  inherited q y ready := by
    rw [(exitEnd_kept running q).2.1] at ready
    exact owned.inherited q y ready

theorem Owned.setFd {files : OpenFiles} (forks : Forks s)
    (running : (s.proc p).state = .running) (user : (s.proc p).inside = .user) :
    Owned s (update ofile p files) where
  held x set := by
    by_cases same : x = p
    · rw [same]
      exact .inl ⟨.inr (.inr running), by simp [user]⟩
    · rw [update_of_ne same] at set
      exact owned.held x set
  inherited q y ready := by
    have notParent : q ≠ p := by
      rintro rfl
      exact absurd (user.symm.trans ready) (by simp)
    have notChild : y ≠ p := by
      rintro rfl
      have embryo := (forks.parent q y (by rw [ready]; rfl)).2
      exact absurd (running.symm.trans embryo) (by simp)
    rw [update_of_ne notParent, update_of_ne notChild]
    exact owned.inherited q y ready

theorem Owned.young (dead : ¬ (s.proc np).Live)
    (other : ∀ q, (s.proc q).inside ≠ .forkReady np) : ofile np = fun _ => none := by
  by_contra set
  rcases owned.held np set with ⟨live, _⟩ | ⟨q, ready⟩
  · exact dead live
  · exact other q ready

theorem Owned.step (sound : Sound s) (clean : ∀ x, (s.proc x).Clean)
    (taken : step s a = some t) : Owned t (filesAfter s ofile a) := by
  have forks := sound.forks
  have effect := sound.effect taken
  have plain (isPlain : a.Plain) (same : filesAfter s ofile a = ofile) : Owned t (filesAfter s ofile a) := by
    rw [same]
    exact owned.turning (turning_of_effect sound.cpus effect isPlain)
  have embryo {p np : Slot} {activity : Activity} (inside : (s.proc p).inside = activity)
      (some : activity.child = .some np) : (s.proc p).inside.child = .some np ∧ (s.proc np).state = .embryo := by
    rw [← inside] at some
    exact ⟨some, (forks.parent p np some).2⟩
  -- only `p` forks into `np`, so nobody else is about to make it runnable
  have early {p np : Slot} {activity : Activity} (inside : (s.proc p).inside = activity)
      (some : activity.child = .some np) (notReady : activity ≠ .forkReady np) (q : Slot) :
      (s.proc q).inside ≠ .forkReady np := by
    intro ready
    have same := forks.unique q p np (by rw [ready]; rfl) (embryo inside some).1
    rw [same, inside] at ready
    exact notReady ready
  cases a with
  | fork c =>
    cases effect with
    | @fork c p np t on free user unused allocated =>
      have running := sound.cpus.running c p on (by simp [free])
      have dead : ¬ (s.proc np).Live := by simp [Proc.Live, unused]
      have nobody (q : Slot) : (s.proc q).inside ≠ .forkReady np := by
        intro ready
        have embryo := (embryo ready rfl).2
        exact absurd (unused.symm.trans embryo) (by simp)
      have none := owned.young dead nobody
      exact owned.forking forks (.first forks running unused allocated) dead (forks.not_forking dead)
        (by simp [user]) (by simp) (fun _ _ => rfl) (fun set => absurd none set) (by simp)
    | nothing => exact owned
  | forkStack c kstack =>
    cases effect with
    | @forkStack c p np kstack on elsewhere inside =>
      obtain ⟨child, young⟩ := embryo inside rfl
      have dead : ¬ (s.proc np).Live := fun live => live.not_embryo young
      have none := owned.young dead (early inside rfl (by simp))
      have part := ForkPart.later forks (sound.cpus.running c p on elsewhere.1) child
        (·.stacked s.ticks kstack) (if kstack = .none then .user else .forkCopy np)
      refine owned.forking forks part dead ?_ (by simp [inside]) ?_ (fun _ _ => rfl)
        (fun set => absurd none set) ?_
      · cases kstack with
        | none => exact forks.not_forking dead
        | some stack => rfl
      · split <;> simp
      · split <;> simp
    | nothing => exact owned
  | forkCopy c pgdir =>
    obtain ⟨p, on, elsewhere, ran⟩ := running_next (step_eq_some.mp taken)
    split at ran
    · rename_i np inside
      obtain ⟨child, young⟩ := embryo inside rfl
      have dead : ¬ (s.proc np).Live := fun live => live.not_embryo young
      have none := owned.young dead (early inside rfl (by simp))
      have part := ForkPart.later forks (sound.cpus.running c p on elsewhere.1) child
        (·.copied p pgdir) (if pgdir = .none then .user else .forkReady np)
      rw [Result.next.inj ran] at part
      cases pgdir with
      | none =>
        exact owned.forking forks part dead (forks.not_forking dead) (by simp [inside]) (by simp)
          (fun _ _ => rfl) (fun set => absurd none set) (by simp)
      | some directory =>
        have files : filesAfter s ofile (.forkCopy c (some directory)) =
            update ofile np (ofile p) := by
          simp [filesAfter, on, inside, dupFiles_none none]
        rw [files]
        refine owned.forking forks part dead (forks.not_forking dead) (by simp [inside]) (by simp)
          (fun y other => update_of_ne other _ _) (fun _ => .inr rfl) ?_
        intro y ready
        exact ⟨by simpa using ready.symm, update_self ..⟩
    · contradiction
  | forkReady c =>
    cases effect with
    | @forkReady c p np on free inside =>
      obtain ⟨child, young⟩ := embryo inside rfl
      have dead : ¬ (s.proc np).Live := fun live => live.not_embryo young
      have user := ((clean np).stacked young (forks.kstack p np (.inr inside))).2.2.2.2
      have running := sound.cpus.running c p on (by simp [free])
      have part := ForkPart.later forks running child ({ · with state := .runnable }) .user
      refine owned.forking forks part dead (forks.not_forking dead) ?_ (by simp) (fun _ _ => rfl) ?_ (by simp)
      · intro y ready
        simpa using ready.symm.trans inside
      · intro _
        exact .inl ⟨.inr (.inl rfl), by simp [user]⟩
    | nothing => exact owned
  | exitBegin c =>
    obtain ⟨p, on, away, user, rfl⟩ := exitBegin_taken taken
    have files : filesAfter s ofile (.exitBegin c) = update ofile p fun _ => none := by
      simp [filesAfter, on]
    rw [files]
    exact owned.exitBegin forks (sound.cpus.running c p on away) user
  | exitEnd c =>
    cases effect with
    | @exitEnd c p on free inside =>
      exact owned.exitEnd forks (sound.cpus.running c p on (by simp [free])) inside
    | nothing => exact owned
  | _ => exact plain trivial rfl

end

end

theorem Fresh.step {w v : Tables} {action : TableAction} (good : Fresh w) (polite : PoliteTables w action)
    (taken : tableStep w action = some v) : Fresh v := by
  cases action with
  | kernel a =>
    obtain ⟨t, stepped, rfl⟩ := Option.map_eq_some_iff.mp taken
    refine { sound := good.sound.step stepped, channels := good.channels.step good.sound stepped,
             clean := ?_, owned := good.owned.step good.sound good.clean stepped }
    intro x
    exact (updates_of_step good.sound stepped x).keeps
      (fun _ _ update => clean_of_update good.channels polite (good.clean x) update) (good.clean x)
  | setFd c fd file =>
    simp only [tableStep] at taken
    split at taken
    · rename_i p on
      split at taken
      · contradiction
      · rename_i allowed
        cases taken
        simp only [not_or, not_not] at allowed
        obtain ⟨elsewhere, _, user⟩ := allowed
        exact { good with
          owned := good.owned.setFd good.sound.forks (good.sound.cpus.running c p on elsewhere) user }
    · contradiction

theorem fresh_init (ticks : Ticks) (kstack pgdir : Nat) : Fresh (tablesInit ticks kstack pgdir) where
  sound := sound_userinit ticks kstack pgdir
  channels := channels_userinit ticks kstack pgdir
  clean x := by
    by_cases init : x = 0
    · exact .of_live (by simp [tablesInit, init, userinit_proc_init])
        (by simp [tablesInit, init, userinit_proc_init])
    · have unused : ((tablesInit ticks kstack pgdir).state.proc x) = {} :=
        userinit_proc_other ticks kstack pgdir init
      rw [unused]
      exact ⟨fun _ => ⟨rfl, rfl⟩, fun embryo => absurd embryo (by simp), fun embryo => absurd embryo (by simp)⟩
  owned := by
    refine ⟨fun x set => absurd rfl set, fun p np ready => ?_⟩
    rfl

/-- The fields of a new process that must not depend on the former occupant of
its slot. -/
structure Start where
  killed : Bool
  chan : Option Chan
  ofile : OpenFiles
  priority : Int
  queueNumber : Int
  scheduledTimes : Int
  runningTime : Ticks
  readyTime : Ticks
  sleepTime : Ticks
  syscallhistory : List SyscallCounter

def Tables.start (w : Tables) (x : Slot) : Start where
  killed := (w.state.proc x).killed
  chan := (w.state.proc x).chan
  ofile := w.ofile x
  priority := (w.state.proc x).priority
  queueNumber := (w.state.proc x).queueNumber
  scheduledTimes := (w.state.proc x).scheduledTimes
  runningTime := (w.state.proc x).runningTime
  readyTime := (w.state.proc x).readyTime
  sleepTime := (w.state.proc x).sleepTime
  syscallhistory := (w.state.proc x).syscallhistory

/-- The last part of a fork by `p`, which makes its child `np` runnable. -/
structure ForkReturns (w : Tables) (p np : Slot) (v : Tables) : Prop where
  inside : (w.state.proc p).inside = .forkReady np
  taken : ∃ c, (w.state.cpu c).proc = some p ∧ tableStep w (.kernel (.forkReady c)) = some v

theorem ForkReturns.shape {w v : Tables} (returns : ForkReturns w p np v) :
    v = ⟨(w.state.setProc np ({ · with state := .runnable })).setProc p ({ · with inside := .user }), w.ofile⟩ := by
  obtain ⟨c, on, taken⟩ := returns.taken
  obtain ⟨t, stepped, rfl⟩ := Option.map_eq_some_iff.mp taken
  obtain ⟨q, onQ, _, ran⟩ := running_next (step_eq_some.mp stepped)
  obtain rfl : p = q := Option.some.inj (on.symm.trans onQ)
  obtain ⟨_, ran⟩ := locked_next ran
  rw [returns.inside] at ran
  exact congrArg (Tables.mk · w.ofile) (Result.next.inj ran).symm

theorem Fresh.child {w v : Tables} (good : Fresh w) (returns : ForkReturns w p np v) : v.start np =
        { killed := false, chan := none, ofile := v.ofile p, priority := 3, queueNumber := QUEUE_DEFAULT,
          scheduledTimes := 0, runningTime := 0, readyTime := 0, sleepTime := 0, syscallhistory := [] } ∧
      (v.state.proc np).lastTime = (v.state.proc np).creationTime := by
  have forks := good.sound.forks
  obtain ⟨live, young⟩ := forks.parent p np (by rw [returns.inside]; rfl)
  have other : np ≠ p := by
    rintro rfl
    exact live.not_embryo young
  obtain ⟨killed, chan, priority, number, scheduled, history⟩ := (good.clean np).embryo young
  obtain ⟨ready, running, asleep, stamped, _⟩ :=
    (good.clean np).stacked young (forks.kstack p np (.inr returns.inside))
  have files := good.owned.inherited p np returns.inside
  rw [returns.shape]
  simp [Tables.start, State.setProc_proc, other, killed, chan, priority, number, scheduled, history, ready,
    running, asleep, stamped, files]

/-- In two runs in which no `kill` finds a slot without a process and nobody
addresses a child before its fork has returned, two children whose parents have
the same open files start out the same, and neither is killed. -/
theorem children_start_alike {ticks₁ ticks₂ : Ticks} {kstack₁ kstack₂ pgdir₁ pgdir₂ : Nat}
    {actions₁ actions₂ : List TableAction} {w₁ w₂ v₁ v₂ : Tables} {p₁ p₂ np₁ np₂ : Slot}
    (polite₁ : Along tableStep PoliteTables (tablesInit ticks₁ kstack₁ pgdir₁) actions₁)
    (polite₂ : Along tableStep PoliteTables (tablesInit ticks₂ kstack₂ pgdir₂) actions₂)
    (ran₁ : exec tableStep (tablesInit ticks₁ kstack₁ pgdir₁) actions₁ = some w₁)
    (ran₂ : exec tableStep (tablesInit ticks₂ kstack₂ pgdir₂) actions₂ = some w₂)
    (returns₁ : ForkReturns w₁ p₁ np₁ v₁) (returns₂ : ForkReturns w₂ p₂ np₂ v₂)
    (agree : v₁.ofile p₁ = v₂.ofile p₂) :
    v₁.start np₁ = v₂.start np₂ ∧ (v₁.state.proc np₁).killed = false ∧
      (v₁.state.proc np₁).lastTime = (v₁.state.proc np₁).creationTime := by
  have fresh {ticks : Ticks} {kstack pgdir : Nat} {actions : List TableAction} {w : Tables}
      (polite : Along tableStep PoliteTables (tablesInit ticks kstack pgdir) actions)
      (ran : exec tableStep (tablesInit ticks kstack pgdir) actions = some w) : Fresh w :=
    exec_invariant Fresh (fresh_init ticks kstack pgdir) polite (fun _ _ _ good polite => good.step polite) ran
  obtain ⟨first, stamped⟩ := (fresh polite₁ ran₁).child returns₁
  obtain ⟨second, _⟩ := (fresh polite₂ ran₂).child returns₂
  refine ⟨?_, congrArg Start.killed first, stamped⟩
  rw [first, second, agree]

instance : ∀ a, Decidable (Polite s a)
  | .kill _ | .setPriority _ _ | .setqueue _ _ => inferInstanceAs (Decidable (∀ _, _))
  | .tick | .wakeup _ | .changepolicy _ | .syscall _ _ _ | .fork _ | .forkStack _ _ | .forkCopy _ _
  | .forkReady _ | .exitBegin _ | .exitEnd _ | .wait _ | .sleep _ _ | .yield _ | .resume _ | .pass _
  | .scheduler _ => isTrue trivial

instance {w : Tables} : ∀ action, Decidable (PoliteTables w action)
  | .kernel a => inferInstanceAs (Decidable (Polite w.state a))
  | .setFd _ _ _ => isTrue trivial

def forkUntilReady : List TableAction :=
  firstDispatch.map .kernel ++ [.setFd 0 2 (some 5), .kernel (.fork 0), .kernel (.forkStack 0 (some 3)),
    .kernel (.forkCopy 0 (some 4))]

def forkAgainUntilReady : List TableAction :=
  forkExitWait.map .kernel ++ [.kernel (.resume 0), .setFd 0 2 (some 5), .kernel (.fork 0),
    .kernel (.forkStack 0 (some 3)), .kernel (.forkCopy 0 (some 4))]

def afterFork (actions : List TableAction) : Option (Tables × Tables) :=
  (exec tableStep (tablesInit 0 1 2) actions).bind fun w =>
    (tableStep w (.kernel (.forkReady 0))).map fun v => (w, v)

theorem forkReturns_of_run (actions : List TableAction) (killed : Bool)
    (observed : ((afterFork actions).map fun (w, v) =>
      ((w.state.cpu 0).proc, (w.state.proc 0).inside, v.ofile 0, (v.state.proc 1).killed)) =
      some (some 0, .forkReady 1, update (fun _ => none) 2 (some 5), killed)) :
    ∃ w v, afterFork actions = some (w, v) ∧ exec tableStep (tablesInit 0 1 2) actions = some w ∧
      ForkReturns w 0 1 v ∧ v.ofile 0 = update (fun _ => none) 2 (some 5) ∧
      (v.state.proc 1).killed = killed := by
  obtain ⟨⟨w, v⟩, forked, seen⟩ := Option.map_eq_some_iff.mp observed
  obtain ⟨w', ran, later⟩ := Option.bind_eq_some_iff.mp forked
  obtain ⟨v', taken, pair⟩ := Option.map_eq_some_iff.mp later
  obtain ⟨rfl, rfl⟩ := Prod.mk.inj pair
  simp only [Prod.mk.injEq] at seen
  exact ⟨w', v', forked, ran, ⟨seen.2.1, 0, seen.1, taken⟩, seen.2.2⟩

theorem children_start_alike_slot_reused : ∃ w₁ w₂ v₁ v₂,
    exec tableStep (tablesInit 0 1 2) forkUntilReady = some w₁ ∧
    exec tableStep (tablesInit 0 1 2) forkAgainUntilReady = some w₂ ∧
    ForkReturns w₁ 0 1 v₁ ∧ ForkReturns w₂ 0 1 v₂ ∧ v₁.start 1 = v₂.start 1 := by
  have polite₁ : Along tableStep PoliteTables (tablesInit 0 1 2) forkUntilReady := by decide +kernel
  have polite₂ : Along tableStep PoliteTables (tablesInit 0 1 2) forkAgainUntilReady := by decide +kernel
  obtain ⟨w₁, v₁, _, ran₁, returns₁, files₁, _⟩ :=
    forkReturns_of_run forkUntilReady false (by decide +kernel)
  obtain ⟨w₂, v₂, _, ran₂, returns₂, files₂, _⟩ :=
    forkReturns_of_run forkAgainUntilReady false (by decide +kernel)
  exact ⟨w₁, w₂, v₁, v₂, ran₁, ran₂, returns₁, returns₂,
    (children_start_alike polite₁ polite₂ ran₁ ran₂ returns₁ returns₂ (files₁.trans files₂.symm)).1⟩

def killZeroFork : List TableAction :=
  firstDispatch.map .kernel ++ [.kernel (.kill 0), .setFd 0 2 (some 5), .kernel (.fork 0),
    .kernel (.forkStack 0 (some 3)), .kernel (.forkCopy 0 (some 4))]

deriving instance DecidableEq for Proc

/-- The child is born killed if `kill(0)` found its slot before. -/
theorem child_born_killed : ∃ w₁ w₂ v₁ v₂,
    exec tableStep (tablesInit 0 1 2) forkUntilReady = some w₁ ∧
    exec tableStep (tablesInit 0 1 2) killZeroFork = some w₂ ∧
    ForkReturns w₁ 0 1 v₁ ∧ ForkReturns w₂ 0 1 v₂ ∧
    v₁.state.proc 0 = v₂.state.proc 0 ∧ v₁.ofile 0 = v₂.ofile 0 ∧
    (v₁.state.proc 1).killed = false ∧ (v₂.state.proc 1).killed = true := by
  have parents : (afterFork forkUntilReady).map (·.2.state.proc 0) =
      (afterFork killZeroFork).map (·.2.state.proc 0) := by decide +kernel
  obtain ⟨w₁, v₁, forked₁, ran₁, returns₁, files₁, killed₁⟩ :=
    forkReturns_of_run forkUntilReady false (by decide +kernel)
  obtain ⟨w₂, v₂, forked₂, ran₂, returns₂, files₂, killed₂⟩ :=
    forkReturns_of_run killZeroFork true (by decide +kernel)
  rw [forked₁, forked₂] at parents
  exact ⟨w₁, w₂, v₁, v₂, ran₁, ran₂, returns₁, returns₂, Option.some.inj parents,
    files₁.trans files₂.symm, killed₁, killed₂⟩

def Reaps (x : Slot) (s : State) (a : Action) : Prop :=
  (s.proc x).state = .zombie ∧ (step s a).any (fun t => (t.proc x).state = .unused)

instance (x : Slot) : Decidable (Reaps x s a) := inferInstanceAs (Decidable (_ ∧ _))

theorem killed_of_step (sound : Sound s) (taken : step s a = some t) (killed : (s.proc x).killed = true)
    (kept : ¬Reaps x s a) : (t.proc x).killed = true := by
  have outcome : (t.proc x).killed = true ∨ (s.proc x).state = .zombie ∧ (t.proc x).state = .unused := by
    apply (updates_of_step sound taken x).keeps
      (P := fun p => p.killed = true ∨ (s.proc x).state = .zombie ∧ p.state = .unused) _ (.inl killed)
    intro old new update
    cases update with
    | reaped zombie => exact fun _ => .inr ⟨zombie, rfl⟩
    | killed => exact fun _ => .inl rfl
    | adopted => exact id
    | @stacked kstack => cases kstack <;> exact fun _ => .inl killed
    | @copied _ pgdir => cases pgdir <;> exact fun _ => .inl killed
    | sleeps running | enters running => exact fun before => .inl (before.resolve_right (by simp [running]))
    | _ => exact fun _ => .inl killed
  exact outcome.resolve_right fun reaped => kept ⟨reaped.1, by simp [taken, reaped.2]⟩

/-- A `kill` is not lost: whatever happens, the flag stays until a `wait` reaps the process. -/
theorem killed_until_reaped {ticks : Ticks} {kstack pgdir : Nat} {actions later : List Action}
    (ran : exec step (userinit ticks kstack pgdir) actions = some s) (killed : (s.proc x).killed = true)
    (kept : Along step (fun u a => ¬Reaps x u a) s later) (more : exec step s later = some t) :
    (t.proc x).killed = true := by
  have sound : Sound s := Reachable.sound ⟨ticks, kstack, pgdir, actions, ran⟩
  refine (exec_invariant (fun u => Sound u ∧ (u.proc x).killed = true) ⟨sound, killed⟩ kept ?_ more).2
  exact fun _ _ _ good kept taken => ⟨good.1.step taken, killed_of_step good.1 taken good.2 kept⟩

theorem killed_until_reaped_dispatched : ∃ s t, exec step (userinit 0 1 2) [.kill 1] = some s ∧
    exec step s firstDispatch = some t ∧ (t.proc 0).killed = true := by
  have reached : ((exec step (userinit 0 1 2) [.kill 1]).map fun s =>
      ((s.proc 0).killed, (exec step s firstDispatch).isSome,
        decide (Along step (fun u a => ¬Reaps 0 u a) s firstDispatch))) = some (true, true, true) := by decide +kernel
  obtain ⟨s, ran, seen⟩ := Option.map_eq_some_iff.mp reached
  simp only [Prod.mk.injEq, decide_eq_true_eq] at seen
  obtain ⟨killed, enabled, kept⟩ := seen
  obtain ⟨t, more⟩ := Option.isSome_iff_exists.mp enabled
  exact ⟨s, t, ran, more, killed_until_reaped ran killed kept more⟩

end Xv6.Process
