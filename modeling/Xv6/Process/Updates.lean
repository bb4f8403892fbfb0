import Xv6.Process.Sound

namespace Xv6.Process

open Xv6.Data

/-! # What a step does to one table entry

The assignments of `proc.c` to a `struct proc`.  A step makes a few of them in a row. -/

variable {s t u : State} {a : Action} {c : CpuId} {x y p np : Slot} {entry : Proc}

def Action.Forks : Action → Prop
  | .fork _ | .forkStack _ _ | .forkCopy _ _ | .forkReady _ => True
  | _ => False

inductive Proc.Update (s : State) (a : Action) (x : Slot) : Proc → Proc → Prop
  | woken (asleep : (s.proc x).state = .sleeping) : Update s a x (s.proc x) ((s.proc x).woken s.ticks)
  | killed {pid : Int} (is : a = .kill pid) (found : s.findSlot (·.pid == pid) = some x) :
      Update s a x (s.proc x) ((s.proc x).killedAt s.ticks)
  | prioritized {pid priority : Int} (is : a = .setPriority pid priority) (named : (s.proc x).pid = pid) :
      Update s a x (s.proc x) ((s.proc x).prioritized priority)
  | requeued {pid queue : Int} (is : a = .setqueue pid queue) (named : (s.proc x).pid = pid) :
      Update s a x (s.proc x) { s.proc x with queueNumber := queue }
  | counted {num : Int} {allocated : Bool} (running : (s.proc x).state = .running) :
      Update s a x (s.proc x) { s.proc x with
        syscallhistory := updatesyscallhistory num allocated (s.proc x).syscallhistory }
  | allocated {c : CpuId} {p : Slot} (unused : (s.proc x).state = .unused) (is : a = .fork c)
      (on : (s.cpu c).proc = some p) (free : s.lock = .free) :
      Update s a x (s.proc x) ((s.proc x).allocated s.nextpid)
  | stacked {kstack : Option Nat} {c : CpuId} (embryo : (s.proc x).state = .embryo) (is : a = .forkStack c kstack) :
      Update s a x (s.proc x) ((s.proc x).stacked s.ticks kstack)
  | copied {parent : Slot} {pgdir : Option Nat} (embryo : (s.proc x).state = .embryo) (forks : a.Forks) :
      Update s a x (s.proc x) ((s.proc x).copied parent pgdir)
  | ready {parent : Slot} (inside : (s.proc parent).inside = .forkReady x)
      (embryo : (s.proc x).state = .embryo) (forks : a.Forks) :
      Update s a x (s.proc x) { s.proc x with state := .runnable }
  | exits (running : (s.proc x).state = .running) (user : (s.proc x).inside = .user) :
      Update s a x (s.proc x) { s.proc x with
        terminationTime := s.ticks, syscallhistory := [], inside := .exit }
  | adopted {p : Proc} {parent : Option Slot} : Update s a x p { p with parent }
  | ends (running : (s.proc x).state = .running) (inside : (s.proc x).inside = .exit)
      (free : s.lock = .free) :
      Update s a x (s.proc x) { s.proc x with state := .zombie, context := .sleep }
  | reaped (zombie : (s.proc x).state = .zombie) : Update s a x (s.proc x) (s.proc x).reaped
  | sleeps {p : Proc} {chan : Chan} (running : p.state = .running)
      (watched : chan = .proc x → ∀ z, (s.proc z).parent = some x → (s.proc z).state ≠ .zombie) :
      Update s a x p { p.asleep s.ticks chan with context := .sleep }
  | yields {c : CpuId} (running : (s.proc x).state = .running) (free : s.lock = .free) (is : a = .yield c)
      (on : (s.cpu c).proc = some x) :
      Update s a x (s.proc x) { s.proc x with
        runningTime := (s.proc x).runningTime + (s.ticks - (s.proc x).lastTime)
        state := .runnable
        context := .yield }
  | dispatched {counted : Bool} {c : CpuId} (runnable : (s.proc x).state = .runnable)
      (is : a = .pass c ∨ a = .scheduler c) :
      Update s a x (s.proc x) ((s.proc x).dispatched s.ticks counted)
  | stamped {c : CpuId} (running : (s.proc x).state = .running) (is : a = .resume c)
      (on : (s.cpu c).proc = some x) (yielded : (s.proc x).context = .yield) :
      Update s a x (s.proc x) { s.proc x with lastTime := s.ticks }
  | awakes (running : (s.proc x).state = .running) : Update s a x (s.proc x) { s.proc x with chan := none }
  | enters {p : Proc} {inside : Activity} (running : p.state = .running) (before : p.inside ≠ .exit)
      (after : inside ≠ .exit) (idle : a.Forks ∨ p.inside.child = none ∧ inside.child = none) :
      Update s a x p { p with inside }

abbrev Proc.Updates (s : State) (a : Action) (x : Slot) : Proc → Proc → Prop :=
  Relation.ReflTransGen (Proc.Update s a x)

theorem Proc.Updates.keeps {P : Proc → Prop} {old new : Proc} (updates : Proc.Updates s a x old new)
    (each : ∀ p q, Proc.Update s a x p q → P p → P q) (before : P old) : P new := by
  induction updates with
  | refl => exact before
  | tail _ last ih => exact each _ _ last ih

theorem Proc.Update.once {old new : Proc} (update : Proc.Update s a x old new) : Proc.Updates s a x old new :=
  .single update

theorem updates_of_update {proc : Proc} (table : t.proc = Function.update s.proc y proc)
    (entry : Proc.Updates s a y (s.proc y) proc) (x : Slot) : Proc.Updates s a x (s.proc x) (t.proc x) := by
  rw [table, Function.update_apply]
  split
  · next same => exact same ▸ entry
  · exact .refl

section

variable (table : u.proc = Function.update s.proc p entry) (ticks : u.ticks = s.ticks)
  (before : Proc.Updates s a p (s.proc p) entry) (running : entry.state = .running)

include table ticks before running

theorem updates_sleep {chan : Chan}
    (watched : chan = .proc p → ∀ z, (s.proc z).parent = some p → (s.proc z).state ≠ .zombie) (x : Slot) :
    Proc.Updates s a x (s.proc x) ((sleep u c p chan).proc x) := by
  have after : (sleep u c p chan).proc =
      Function.update s.proc p { entry.asleep s.ticks chan with context := .sleep } := by
    simp [sleep, sched, State.setProc, table, ticks]
  exact updates_of_update after (before.tail (.sleeps running watched)) x

theorem updates_waitBody (user : entry.inside ≠ .exit ∧ entry.inside.child = none)
    (caller : (s.proc p).state = .running) (x : Slot) : Proc.Updates s a x (s.proc x) ((waitBody u c p).proc x) := by
  have entered (inside : Activity) (other : inside ≠ .exit) (idle : inside.child = none) :
      Proc.Updates s a p (s.proc p) { entry with inside } :=
    before.tail (.enters running user.1 other (.inr ⟨user.2, idle⟩))
  unfold waitBody
  split
  · rename_i child scanned
    have zombie := (waitScan_found scanned).2
    have other : child ≠ p := by
      rintro rfl
      rw [table, Function.update_self] at zombie
      exact absurd (running.symm.trans zombie) (by simp)
    rw [table, Function.update_of_ne other] at zombie
    rw [reap_proc table other]
    split
    · next isCaller => exact isCaller ▸ entered .user (by simp) rfl
    · split
      · rename_i isChild
        subst isChild
        exact (Proc.Update.reaped zombie).once
      · exact .refl
  · exact updates_of_update (by simp [State.setProc, table]) (entered .user (by simp) rfl) x
  · next scanned =>
    refine updates_sleep (u := u.setProc p ({ · with inside := .wait })) (by simp [State.setProc, table]) ticks
      (entered .wait (by simp) rfl) running (fun _ z parent zombie => ?_) x
    have other : z ≠ p := by
      intro same
      rw [same, caller] at zombie
      contradiction
    have scannedChild := waitScan_sleep scanned z
    rw [table, Function.update_of_ne other] at scannedChild
    exact scannedChild parent zombie

end

theorem updates_wakeup1 (chan : Option Chan) (x : Slot) :
    Proc.Updates s a x (s.proc x) ((wakeup1 s chan).proc x) := by
  rw [wakeup1_proc]
  split
  · next sleeps => exact (Proc.Update.woken (Proc.sleepsOn_state sleeps)).once
  · exact .refl

theorem updates_resume (on : (s.cpu c).proc = some p) (running : (s.proc p).state = .running) (x : Slot) :
    Proc.Updates s (.resume c) x (s.proc x) ((resume s c p).proc x) := by
  unfold resume
  split
  · exact .refl
  · next yielded => exact updates_of_update rfl (Proc.Update.stamped running rfl on yielded).once x
  · split
    · rename_i waiting
      exact updates_waitBody (u := s.setProc p ({ · with chan := none })) rfl rfl
        (Proc.Update.awakes running).once running (by simp [waiting, Activity.child]) running x
    · exact updates_of_update rfl (Proc.Update.awakes running).once x

theorem updates_exitEnd (running : (s.proc p).state = .running) (inside : (s.proc p).inside = .exit)
    (free : s.lock = .free) (x : Slot) : Proc.Updates s a x (s.proc x) ((exitEnd s c p).proc x) := by
  by_cases same : x = p
  · subst same
    rw [exitEnd_proc_self running]
    exact (Proc.Update.ends running inside free).once.tail .adopted
  · rw [exitEnd_proc same]
    split
    · next wakes => exact (Proc.Update.woken (State.exitWakes_state wakes)).once.tail .adopted
    · exact (Proc.Update.adopted).once

theorem updates_scheduled (effect : Scheduled s c t) (is : a = .pass c ∨ a = .scheduler c) (x : Slot) :
    Proc.Updates s a x (s.proc x) (t.proc x) := by
  cases effect with
  | moved turned holds => exact .refl
  | dispatched turned away runnable =>
    exact updates_of_update rfl (Proc.Update.dispatched runnable is).once x

theorem updates_forkPart {activity : Activity} {child : Proc} (part : ForkPart s t p np activity child)
    (forks : a.Forks) (before : (s.proc p).inside ≠ .exit) (after : activity ≠ .exit)
    (born : Proc.Updates s a np (s.proc np) child) (x : Slot) :
    Proc.Updates s a x (s.proc x) (t.proc x) := by
  by_cases isParent : x = p
  · rw [isParent, part.parent]
    exact (Proc.Update.enters part.running before after (.inl forks)).once
  · by_cases isChild : x = np
    · rw [isChild, part.child]
      exact born
    · rw [part.others x isParent isChild]

theorem updates_of_step (sound : Sound s) (taken : step s a = some t) (x : Slot) :
    Proc.Updates s a x (s.proc x) (t.proc x) := by
  have unlocked {c : CpuId} {p : Slot} (on : (s.cpu c).proc = some p) (free : s.lock = .free) :
      (s.proc p).state = .running := sound.cpus.running c p on (by simp [free])
  have embryo {p np : Slot} {activity : Activity} (inside : (s.proc p).inside = activity)
      (some : activity.child = .some np) :
      (s.proc p).inside.child = .some np ∧ (s.proc np).state = .embryo := by
    rw [← inside] at some
    exact ⟨some, (sound.forks.parent p np some).2⟩
  cases sound.effect taken with
  | tick | changepolicy | nothing => exact .refl
  | wakeup free => exact updates_wakeup1 _ x
  | kill free found => exact updates_of_update rfl (Proc.Update.killed rfl found).once x
  | setPriority free found => exact updates_of_update rfl (Proc.Update.prioritized rfl found).once x
  | setqueue free =>
    rw [foldl_setqueueStep _ (List.nodup_finRange NPROC)]
    dsimp only
    split
    · next named => exact (Proc.Update.requeued rfl named.2).once
    · exact .refl
  | syscall on =>
    obtain ⟨p, on', elsewhere, _⟩ := running_next (step_eq_some.mp taken)
    obtain rfl := Option.some.inj (on.symm.trans on')
    exact updates_of_update rfl (Proc.Update.counted (sound.cpus.running _ _ on elsewhere.1)).once x
  | fork on free user unused allocated =>
    have part := ForkPart.first sound.forks (unlocked on free) unused allocated
    exact updates_forkPart part (by trivial) (by simp [user]) (by simp)
      (Proc.Update.allocated unused rfl on free).once x
  | @forkStack c p np kstack on elsewhere inside =>
    obtain ⟨child, young⟩ := embryo inside rfl
    have part := ForkPart.later sound.forks (sound.cpus.running c p on elsewhere.1) child
      (·.stacked s.ticks kstack) (if kstack = none then .user else .forkCopy np)
    exact updates_forkPart part (by trivial) (by simp [inside]) (by split <;> simp) (Proc.Update.stacked young rfl).once x
  | @forkCopy c p np pgdir on elsewhere inside =>
    obtain ⟨child, young⟩ := embryo inside rfl
    have part := ForkPart.later sound.forks (sound.cpus.running c p on elsewhere.1) child
      (·.copied p pgdir) (if pgdir = none then .user else .forkReady np)
    exact updates_forkPart part (by trivial) (by simp [inside]) (by split <;> simp)
      (Proc.Update.copied young (by trivial)).once x
  | forkReady on free inside =>
    obtain ⟨child, young⟩ := embryo inside rfl
    have part := ForkPart.later sound.forks (unlocked on free) child ({ · with state := .runnable }) .user
    exact updates_forkPart part (by trivial) (by simp [inside]) (by simp)
      (Proc.Update.ready inside young (by trivial)).once x
  | @exitBegin c p on elsewhere user notInit =>
    exact updates_of_update rfl (Proc.Update.exits (sound.cpus.running c p on elsewhere.1) user).once x
  | exitEnd on free inside => exact updates_exitEnd (unlocked on free) inside free x
  | wait on free user =>
    have running := unlocked on free
    exact updates_waitBody (Function.update_eq_self ..).symm rfl .refl running (by simp [user, Activity.child]) running x
  | sleep on free inside =>
    exact updates_sleep (Function.update_eq_self ..).symm rfl .refl (unlocked on free) (by simp) x
  | yield on free =>
    refine updates_of_update ?_ (Proc.Update.yields (unlocked on free) free rfl on).once x
    simp [yield, sched, State.setProc]
  | @resume c p on held => exact updates_resume on (sound.cpus.running c p on (by simp [held])) x
  | pass free idle none effect => exact updates_scheduled effect (.inl rfl) x
  | scheduler held effect => exact updates_scheduled effect (.inr rfl) x

theorem ticks_of_step (sound : Sound s) (taken : step s a = some t) (noTick : a ≠ .tick) : t.ticks = s.ticks := by
  cases sound.effect taken with
  | tick => exact absurd rfl noTick
  | setqueue => rw [foldl_setqueueStep _ (List.nodup_finRange NPROC)]
  | fork on free user unused allocated =>
    obtain ⟨_, rfl⟩ := allocproc_some allocated
    rfl
  | exitEnd => exact exitEnd_ticks
  | wait => exact waitBody_ticks
  | resume => exact resume_ticks
  | pass free idle none effect | scheduler held effect => cases effect <;> rfl
  | _ => rfl

end Xv6.Process
