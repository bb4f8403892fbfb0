import Xv6.Process.SystemCalls
import Xv6.Process.Updates

namespace Xv6.Process

open Xv6.Data

/-! # Exit statistics

A pid is never handed out twice; but `infos` has 64 entries while pids grow without
bound, and `sys_getinfo` accepts the pid 64 itself.
-/

variable {s t : State} {a : Action} {x : Slot} {pid : Int}

def getinfo (s : State) (pid : Int) : Int × Info :=
  (0, s.infos pid)

def sysGetinfo (s : State) (pid : Int) : Int × Option Info :=
  if pid < 0 ∨ pid > NPROC then (-1, none)
  else ((getinfo s pid).1, some (getinfo s pid).2)

def getinfoIndices (pid : Int) : List Int :=
  if pid < 0 ∨ pid > NPROC then [] else [pid]

def Proc.times (p : Proc) : Info where
  creationTime := p.creationTime
  runningTime := p.runningTime
  readyTime := p.readyTime
  sleepTime := p.sleepTime
  terminationTime := p.terminationTime

def exited (s : State) : Action → Option (Int × Info)
  | .exitBegin c => (s.cpu c).proc.map fun p => ((s.proc p).pid, ((exitBegin s p).proc p).times)
  | _ => none

def ExitInside (event : Option (Int × Info)) : Prop :=
  ∀ pid info, event = some (pid, info) → pid < NPROC

theorem waitBody_infos {c : CpuId} {p : Slot} : (waitBody s c p).infos = s.infos := by
  unfold waitBody
  split <;> rfl

theorem resume_infos {c : CpuId} {p : Slot} : (resume s c p).infos = s.infos := by
  unfold resume
  split
  · rfl
  · rfl
  · split
    · exact waitBody_infos
    · rfl

theorem exitEnd_infos {c : CpuId} {p : Slot} : (exitEnd s c p).infos = s.infos := by
  simp only [exitEnd, sched, foldl_adoptStep _ (List.nodup_finRange NPROC)]
  rfl

theorem scheduled_infos {c : CpuId} (effect : Scheduled s c t) : t.infos = s.infos := by
  cases effect with
  | moved | dispatched => rfl

/-- Only an exit writes `infos`, and every exit is recorded. -/
theorem infos_of_step (sound : Sound s) (taken : step s a = some t) :
    exited s a = none ∧ t.infos = s.infos ∨
      ∃ p, (s.proc p).state = .running ∧ (s.proc p).inside = .user ∧ t = exitBegin s p ∧
        exited s a = some ((s.proc p).pid, ((exitBegin s p).proc p).times) := by
  have exits {c : CpuId} (is : a = .exitBegin c) : ∃ p, (s.proc p).state = .running ∧
      (s.proc p).inside = .user ∧ t = exitBegin s p ∧
      exited s a = some ((s.proc p).pid, ((exitBegin s p).proc p).times) := by
    subst is
    obtain ⟨p, on, away, user, result⟩ := exitBegin_taken taken
    exact ⟨p, sound.cpus.running c p on away, user, result, by simp [exited, on]⟩
  cases sound.effect taken with
  | tick | wakeup | kill | setPriority | changepolicy | syscall | forkStack | forkCopy | forkReady | sleep
  | yield => exact .inl ⟨rfl, rfl⟩
  | setqueue =>
    rw [foldl_setqueueStep _ (List.nodup_finRange NPROC)]
    exact .inl ⟨rfl, rfl⟩
  | fork on free user unused allocated =>
    obtain ⟨_, rfl⟩ := allocproc_some allocated
    exact .inl ⟨rfl, rfl⟩
  | exitBegin => exact .inr (exits rfl)
  | exitEnd => exact .inl ⟨rfl, exitEnd_infos⟩
  | wait => exact .inl ⟨rfl, waitBody_infos⟩
  | resume => exact .inl ⟨rfl, resume_infos⟩
  | pass free idle none effect => exact .inl ⟨rfl, scheduled_infos effect⟩
  | scheduler held effect => exact .inl ⟨rfl, scheduled_infos effect⟩
  | nothing noTick full =>
    cases a with
    | exitBegin c => exact .inr (exits rfl)
    | _ => exact .inl ⟨rfl, rfl⟩

def Proc.Exiting (p : Proc) : Prop :=
  p.state ≠ .unused → p.state ≠ .embryo ∧ p.inside = .exit

theorem exiting_of_update {old new : Proc} (used : (s.proc x).state ≠ .unused) (start : (s.proc x).Exiting)
    (update : Proc.Update s a x old new) (before : old.Exiting) : new.Exiting := by
  intro usedNew
  obtain ⟨grown, inside⟩ := start used
  cases update with
  | woken asleep => exact ⟨by simp [Proc.woken], (before (by simp [asleep])).2⟩
  | killed is named =>
    by_cases asleep : (s.proc x).state = .sleeping
    · exact ⟨by simp [Proc.killedAt, asleep], inside⟩
    · exact ⟨by simpa [Proc.killedAt, asleep] using grown, inside⟩
  | prioritized | requeued | counted | stamped | awakes => exact ⟨grown, inside⟩
  | allocated unused => exact absurd unused used
  | stacked embryo | copied embryo | ready parent embryo => exact absurd embryo grown
  | exits running user => exact absurd (user.symm.trans inside) (by simp)
  | adopted => exact before usedNew
  | ends | yields | dispatched => exact ⟨by simp [Proc.dispatched], inside⟩
  | reaped => exact absurd rfl usedNew
  | sleeps running => exact ⟨by simp [Proc.asleep], (before (by simp [running])).2⟩
  | enters running elsewhere => exact absurd (before (by simp [running])).2 elsewhere

structure Recorded (s : State) (past : List (Option (Int × Info))) : Prop where
  sound : Sound s
  pids : PidTable s
  stored : ∀ pid info, some (pid, info) ∈ past → s.infos pid = info ∧ 0 ≤ pid ∧ pid < s.nextpid
  leaving : ∀ pid info, some (pid, info) ∈ past → ∀ x, (s.proc x).pid = pid → (s.proc x).Exiting

theorem Recorded.kept {past : List (Option (Int × Info))} {info : Info} (good : Recorded s past)
    (taken : step s a = some t) (member : some (pid, info) ∈ past) :
    pid < t.nextpid ∧ ∀ x, (t.proc x).pid = pid → (t.proc x).Exiting := by
  obtain ⟨grows, fresh, isFresh, others⟩ := pid_of_change good.sound.forks (good.sound.change taken)
  obtain ⟨_, _, old⟩ := good.stored pid info member
  refine ⟨by omega, fun x same used => ?_⟩
  have known : x ∉ fresh := by
    intro new
    have := (isFresh x new).1
    omega
  obtain ⟨before, equal | ⟨_, unused⟩⟩ := others x known
  · have start := good.leaving pid info member x (equal.symm.trans same)
    exact (updates_of_step good.sound taken x).keeps
      (fun _ _ update => exiting_of_update (before used) start update) start used
  · exact absurd unused used

theorem Recorded.step {past : List (Option (Int × Info))} (good : Recorded s past)
    (taken : step s a = some t) : Recorded t (past ++ [exited s a]) := by
  have sound := good.sound.step taken
  have pids := good.pids.step good.sound taken
  rcases infos_of_step good.sound taken with ⟨silent, same⟩ | ⟨p, running, user, result, event⟩
  · have old {pid : Int} {info : Info} (member : some (pid, info) ∈ past ++ [exited s a]) :
        some (pid, info) ∈ past := by
      simpa [silent] using member
    refine { sound, pids, stored := ?_, leaving := ?_ }
    · intro pid info member
      obtain ⟨stored, nonneg, _⟩ := good.stored pid info (old member)
      exact ⟨by rw [same]; exact stored, nonneg, (good.kept taken (old member)).1⟩
    · intro pid info member
      exact (good.kept taken (old member)).2
  · have used : (s.proc p).state ≠ .unused := by simp [running]
    have cases_ {pid : Int} {info : Info} (member : some (pid, info) ∈ past ++ [exited s a]) :
        some (pid, info) ∈ past ∨ pid = (s.proc p).pid ∧ info = ((exitBegin s p).proc p).times := by
      rw [event] at member
      simpa using member
    refine { sound, pids, stored := ?_, leaving := ?_ }
    · intro pid info member
      rcases cases_ member with old | ⟨rfl, rfl⟩
      · obtain ⟨stored, nonneg, _⟩ := good.stored pid info old
        -- the process that exits now is not one that is on its way out already
        have other : pid ≠ (s.proc p).pid := by
          rintro rfl
          have inside := (good.leaving _ info old p rfl used).2
          exact absurd (user.symm.trans inside) (by simp)
        refine ⟨?_, nonneg, (good.kept taken old).1⟩
        rw [result]
        exact (Function.update_of_ne other _ _).trans stored
      · have range := good.pids.range p
        rw [result]
        refine ⟨?_, range.1, range.2⟩
        simp [exitBegin, Proc.times]
    · intro pid info member
      rcases cases_ member with old | ⟨rfl, rfl⟩
      · exact (good.kept taken old).2
      · intro x same _
        rw [result, exitBegin_proc] at same ⊢
        split at same
        · rename_i isExiting
          rw [if_pos isExiting]
          exact ⟨by simp [running], rfl⟩
        · next other => exact absurd (good.pids.distinct p x used same.symm).symm other

/-- After a run, `sys_getinfo` returns for each process that has exited in it the
times it exited with, and every exit used an index below `NPROC`, if and only if every
process that exited had a pid below `NPROC`. -/
theorem exit_statistics_iff {ticks : Ticks} {kstack pgdir : Nat} {actions : List Action}
    (ran : exec step (userinit ticks kstack pgdir) actions = some s) :
    (Along step (fun s a => ExitInside (exited s a)) (userinit ticks kstack pgdir) actions ↔
      ∀ pid info, some (pid, info) ∈ emitted step exited (userinit ticks kstack pgdir) actions →
        sysGetinfo s pid = (0, some info) ∧ 0 ≤ pid ∧ pid < NPROC) ∧
    ∀ pid, (∀ i ∈ getinfoIndices pid, 0 ≤ i ∧ i < NPROC) ↔ pid ≠ NPROC := by
  have recorded : Recorded s (emitted step exited (userinit ticks kstack pgdir) actions) := by
    refine emitted_invariant Recorded ?_ along_true (fun _ _ _ _ good _ taken => good.step taken) ran
    exact ⟨sound_userinit ticks kstack pgdir, pidTable_userinit ticks kstack pgdir, by simp, by simp⟩
  refine ⟨(along_iff_emitted ran).trans ⟨?_, ?_⟩, ?_⟩
  · intro inside pid info member
    have below := inside _ member pid info rfl
    obtain ⟨stored, nonneg, _⟩ := recorded.stored pid info member
    refine ⟨?_, nonneg, below⟩
    rw [sysGetinfo, if_neg (by omega), getinfo, stored]
  · intro all event member pid info is
    subst is
    exact (all pid info member).2.2
  · intro pid
    unfold getinfoIndices
    split
    · next outside => exact iff_of_true (by simp) (by omega)
    · rename_i inside
      simp only [List.forall_mem_singleton]
      omega

instance {event : Option (Int × Info)} : Decidable (ExitInside event) :=
  decidable_of_iff (∀ entry ∈ event, entry.1 < NPROC)
    ⟨fun all pid info is => all (pid, info) is, fun all entry is => all entry.1 entry.2 is⟩

theorem exit_statistics_child_collected : ∃ s info, exec step (userinit 0 1 2) forkExitWait = some s ∧
    some (2, info) ∈ emitted step exited (userinit 0 1 2) forkExitWait ∧
    sysGetinfo s 2 = (0, some info) := by
  have inside : Along step (fun s a => ExitInside (exited s a)) (userinit 0 1 2) forkExitWait := by
    decide +kernel
  have observed : ((exec step (userinit 0 1 2) forkExitWait).map fun s => (s.proc 1).state) =
      some .zombie := by decide +kernel
  have event : some (2, ({} : Info)) ∈ emitted step exited (userinit 0 1 2) forkExitWait := by
    decide +kernel
  obtain ⟨s, ran, _⟩ := Option.map_eq_some_iff.mp observed
  exact ⟨s, {}, ran, event, ((exit_statistics_iff ran).1.mp inside 2 {} event).1⟩

/-- `sys_getinfo(64)` is accepted and reads behind the end of `infos`. -/
theorem getinfo_reads_past_end : Reachable (userinit 0 1 2) ∧
    (sysGetinfo (userinit 0 1 2) 64).1 = 0 ∧ getinfoIndices 64 = [64] ∧ ¬ (64 : Int) < NPROC :=
  ⟨reachable_userinit 0 1 2, rfl, by decide, by decide⟩

end Xv6.Process
