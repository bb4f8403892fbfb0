import Xv6.Process.ExitWait

namespace Xv6.Process

open Xv6.Data

/-! # System calls that name a process

The wrappers of `sysproc.c` bound the pid by the size of the table, and the functions
behind them compare pids without looking at the state of the slot.  Unused slots have
pid 0 or the pid of a fork that failed.
-/

variable {s t : State} {a : Action} {x y : Slot} {pid queue priority : Int} {result : Int × State}

def MAXPRIORITY : Int := 6

def sysKill (s : State) (pid : Int) : Int × State :=
  kill s pid

def sysSetpriority (s : State) (pid priority : Int) : Int × State :=
  if pid < 0 ∨ pid > NPROC then (-1, s)
  else if priority < 1 then (-1, s)
  else setPriority s pid (if priority > 6 then 5 else priority)

def sysSetqueue (s : State) (pid queue : Int) : Int × State :=
  if pid < 0 ∨ pid > NPROC then (-1, s)
  else if queue < 0 then (-1, s)
  else setqueue s pid queue

structure PidTable (s : State) : Prop where
  next : 0 < s.nextpid
  positive : ∀ x, (s.proc x).state ≠ .unused → 0 < (s.proc x).pid
  range : ∀ x, 0 ≤ (s.proc x).pid ∧ (s.proc x).pid < s.nextpid
  distinct : ∀ x y, (s.proc x).state ≠ .unused → (s.proc x).pid = (s.proc y).pid → x = y

theorem PidTable.step (good : PidTable s) (sound : Sound s) (taken : step s a = some t) : PidTable t := by
  have next := good.next
  obtain ⟨grows, fresh, isFresh, others⟩ := pid_of_change sound.forks (sound.change taken)
  have old (x : Slot) (known : x ∉ fresh) : 0 ≤ (t.proc x).pid ∧ (t.proc x).pid < s.nextpid := by
    have range := good.range x
    obtain ⟨_, same | ⟨zero, _⟩⟩ := others x known <;> omega
  have kept (x : Slot) (known : x ∉ fresh) (used : (t.proc x).state ≠ .unused) :
      (s.proc x).state ≠ .unused ∧ (t.proc x).pid = (s.proc x).pid := by
    obtain ⟨before, same | ⟨_, unused⟩⟩ := others x known
    · exact ⟨before used, same⟩
    · exact absurd unused used
  refine { next := by omega, positive := ?_, range := ?_, distinct := ?_ }
  · intro x used
    by_cases new : x ∈ fresh
    · have := (isFresh x new).1
      omega
    · obtain ⟨before, same⟩ := kept x new used
      rw [same]
      exact good.positive x before
  · intro x
    by_cases new : x ∈ fresh
    · have := isFresh x new
      omega
    · have := old x new
      omega
  · intro x y used equal
    by_cases newX : x ∈ fresh
    · have isNext := (isFresh x newX).1
      by_cases newY : y ∈ fresh
      · rw [Option.mem_def] at newX newY
        exact Option.some.inj (newX.symm.trans newY)
      · have := old y newY
        omega
    · obtain ⟨before, same⟩ := kept x newX used
      have positive := good.positive x before
      have range := good.range x
      by_cases newY : y ∈ fresh
      · have := (isFresh y newY).1
        omega
      · obtain ⟨_, sameY | ⟨zero, _⟩⟩ := others y newY
        · exact good.distinct x y before (by rw [← same, equal, sameY])
        · omega

theorem pidTable_userinit (ticks : Ticks) (kstack pgdir : Nat) : PidTable (userinit ticks kstack pgdir) := by
  have next : (userinit ticks kstack pgdir).nextpid = 2 := by rw [userinit_eq]
  have pids (x : Slot) : ((userinit ticks kstack pgdir).proc x).pid = if x = 0 then 1 else 0 := by
    by_cases init : x = 0
    · rw [init, userinit_proc_init]
      rfl
    · rw [userinit_proc_other _ _ _ init, if_neg init]
  have isInit {x : Slot} (used : ((userinit ticks kstack pgdir).proc x).state ≠ .unused) : x = 0 := by
    by_contra other
    rw [userinit_proc_other _ _ _ other] at used
    exact used rfl
  refine { next := by omega, positive := ?_, range := ?_, distinct := ?_ }
  · intro x used
    rw [pids, if_pos (isInit used)]
    decide
  · intro x
    rw [pids, next]
    split <;> decide
  · intro x y used equal
    rw [pids, pids, if_pos (isInit used)] at equal
    split at equal
    · next second => exact (isInit used).trans second.symm
    · contradiction

theorem Reachable.pidTable (reachable : Reachable s) : PidTable s := by
  obtain ⟨ticks, kstack, pgdir, actions, ran⟩ := reachable
  have good : Sound s ∧ PidTable s := by
    refine exec_invariant_all (fun s => Sound s ∧ PidTable s)
      ⟨sound_userinit ticks kstack pgdir, pidTable_userinit ticks kstack pgdir⟩ ?_ ran
    intro before action after good taken
    exact ⟨good.1.step taken, good.2.step good.1 taken⟩
  exact good.2

def Names (s : State) (pid : Int) (x : Slot) : Prop :=
  (s.proc x).state ≠ .unused ∧ (s.proc x).pid = pid

/-- A call succeeds exactly if some used slot has the pid, and changes that slot
and at most the queue `touched`. -/
structure ActsOnNamed (s : State) (pid : Int) (touched : Option Int) (result : Int × State) : Prop where
  succeeds : result.1 ≠ -1 ↔ ∃ x, Names s pid x
  slots : ∀ y, ¬ Names s pid y → result.2.proc y = s.proc y
  queues : ∀ q, touched ≠ some q → result.2.queue q = s.queue q
  rest : { result.2 with proc := s.proc, queue := s.queue } = s

def NotStale (s : State) (pid : Int) : Prop :=
  ∀ x, (s.proc x).state = .unused → (s.proc x).pid ≠ pid

/-- What every function that searches the table for a pid does. -/
structure ActsOnPid (s : State) (pid : Int) (touched : Option Int) (result : Int × State) : Prop where
  succeeds : result.1 ≠ -1 ↔ ∃ x, (s.proc x).pid = pid
  slots : ∀ y, (s.proc y).pid ≠ pid → result.2.proc y = s.proc y
  queues : ∀ q, touched ≠ some q → result.2.queue q = s.queue q
  rest : { result.2 with proc := s.proc, queue := s.queue } = s

theorem ActsOnPid.named_iff {touched : Option Int} (acts : ActsOnPid s pid touched result)
    (table : PidTable s) : ActsOnNamed s pid touched result ↔ NotStale s pid := by
  constructor
  · intro named x unused same
    obtain ⟨z, used, isPid⟩ := named.succeeds.mp (acts.succeeds.mpr ⟨x, same⟩)
    have isSlot := table.distinct z x used (isPid.trans same.symm)
    exact used (isSlot ▸ unused)
  · intro clean
    have used {x : Slot} (same : (s.proc x).pid = pid) : Names s pid x :=
      ⟨fun unused => clean x unused same, same⟩
    refine { succeeds := ?_, slots := ?_, queues := acts.queues, rest := acts.rest }
    · rw [acts.succeeds]
      exact ⟨fun ⟨x, same⟩ => ⟨x, used same⟩, fun ⟨x, named⟩ => ⟨x, named.2⟩⟩
    · intro y unnamed
      exact acts.slots y fun same => unnamed (used same)

theorem State.findSlot_pid (found : s.findSlot (·.pid == pid) = some x) : (s.proc x).pid = pid := by
  simpa using State.findSlot_some found

theorem State.findSlot_pid_none (missing : s.findSlot (·.pid == pid) = none) : ¬ ∃ x, (s.proc x).pid = pid := by
  rintro ⟨x, same⟩
  simpa [same] using State.findSlot_none missing x

theorem kill_acts : ActsOnPid s pid none (kill s pid) := by
  unfold kill
  split
  · rename_i x found
    have named := State.findSlot_pid found
    refine { succeeds := ?_, slots := ?_, queues := fun _ _ => rfl, rest := rfl }
    · exact iff_of_true (by simp) ⟨x, named⟩
    · intro y other
      have different : y ≠ x := by
        rintro rfl
        exact other named
      exact Function.update_of_ne different _ _
  · rename_i missing
    exact { succeeds := iff_of_false (by simp) (State.findSlot_pid_none missing),
            slots := fun _ _ => rfl, queues := fun _ _ => rfl, rest := rfl }

theorem setPriority_acts (valid : pid ≠ -1) :
    ActsOnPid s pid (some QUEUE_PRIORITY) (setPriority s pid priority) := by
  unfold setPriority
  split
  · rename_i x found
    have named := State.findSlot_pid found
    have slots (y : Slot) (other : (s.proc y).pid ≠ pid) :
        (s.setProc x (·.prioritized priority)).proc y = s.proc y := by
      have different : y ≠ x := by
        rintro rfl
        exact other named
      exact Function.update_of_ne different _ _
    dsimp only
    split
    · refine { succeeds := iff_of_true valid ⟨x, named⟩, slots := slots, queues := ?_, rest := rfl }
      intro q other
      exact Function.update_of_ne (fun same => other (congrArg some same.symm)) _ _
    · exact { succeeds := iff_of_true valid ⟨x, named⟩, slots := slots, queues := fun _ _ => rfl,
              rest := rfl }
  · rename_i missing
    exact { succeeds := iff_of_false (by simp) (State.findSlot_pid_none missing),
            slots := fun _ _ => rfl, queues := fun _ _ => rfl, rest := rfl }

theorem setqueue_acts (valid : pid ≠ -1) : ActsOnPid s pid (some queue) (setqueue s pid queue) := by
  unfold setqueue
  rw [foldl_setqueueStep _ (List.nodup_finRange NPROC)]
  refine { succeeds := ?_, slots := ?_, queues := ?_, rest := rfl }
  · dsimp only
    cases found : s.findSlot (·.pid == pid) with
    | none => exact iff_of_false (by simp) (State.findSlot_pid_none found)
    | some x => exact iff_of_true (by simpa using valid) ⟨x, State.findSlot_pid found⟩
  · intro y other
    exact if_neg fun named => other named.2
  · intro q other
    exact Function.update_of_ne (fun same => other (congrArg some same.symm)) _ _

/-- The wrapper lets every pid of a process through, and no unused slot has a pid
that it lets through. -/
def PidBounded (s : State) (pid : Int) : Prop :=
  (∀ x, Names s pid x → pid ≤ NPROC) ∧ (pid ≤ NPROC → NotStale s pid)

theorem ActsOnNamed.nobody {touched : Option Int} (nobody : ¬ ∃ x, Names s pid x) :
    ActsOnNamed s pid touched (-1, s) where
  succeeds := iff_of_false (by simp) nobody
  slots := fun _ _ => rfl
  queues := fun _ _ => rfl
  rest := rfl

theorem bounded_named_iff {touched : Option Int} {inner : Int × State} (table : PidTable s)
    (acts : 0 ≤ pid → ActsOnPid s pid touched inner)
    (wrapped : result = if pid < 0 ∨ pid > NPROC then (-1, s) else inner) :
    ActsOnNamed s pid touched result ↔ PidBounded s pid := by
  by_cases outside : pid < 0 ∨ pid > NPROC
  · rw [if_pos outside] at wrapped
    subst wrapped
    constructor
    · intro named
      have nobody : ¬ ∃ x, Names s pid x := fun exists_ => named.succeeds.mpr exists_ rfl
      refine ⟨fun x isNamed => absurd ⟨x, isNamed⟩ nobody, fun small x _ same => ?_⟩
      have := (table.range x).1
      omega
    · rintro ⟨bounded, _⟩
      apply ActsOnNamed.nobody
      rintro ⟨x, isNamed⟩
      have := bounded x isNamed
      have := isNamed.2
      have := (table.range x).1
      omega
  · rw [if_neg outside] at wrapped
    rw [not_or, not_lt, not_lt] at outside
    rw [wrapped, (acts outside.1).named_iff table, PidBounded]
    exact ⟨fun clean => ⟨fun _ _ => outside.2, fun _ => clean⟩, fun both => both.2 outside.2⟩

theorem setPriority_counts (found : s.findSlot (·.pid == pid) = some x) :
    ((setPriority s pid priority).2.queue QUEUE_PRIORITY).size = (s.queue QUEUE_PRIORITY).size + 1 := by
  simp only [setPriority, found]
  split
  · simp [State.countIn]
  · rename_i both
    rw [not_or, not_not, not_not] at both
    rw [both.1] at both
    exact absurd both.2 (by decide)

/-- No queue receives the process, and still every success is counted in a queue. -/
theorem setpriority_named_iff (table : PidTable s) (low : 1 ≤ priority) (high : priority ≤ 6) :
    ActsOnNamed s pid none (sysSetpriority s pid priority) ↔
      ∀ x, (s.proc x).pid = pid → (s.proc x).state = .unused ∧ NPROC < pid := by
  rw [sysSetpriority, if_neg (not_lt.mpr low), if_neg (not_lt.mpr high)]
  split
  · rename_i outside
    constructor
    · intro named x same
      have nobody : ¬ Names s pid x := fun isNamed => named.succeeds.mpr ⟨x, isNamed⟩ rfl
      have := (table.range x).1
      exact ⟨by_contra fun used => nobody ⟨used, same⟩, by omega⟩
    · intro stale
      apply ActsOnNamed.nobody
      rintro ⟨x, used, same⟩
      exact used (stale x same).1
  · rename_i inside
    cases found : s.findSlot (·.pid == pid) with
    | none =>
      have missing := State.findSlot_pid_none found
      simp only [setPriority, found]
      refine iff_of_true (ActsOnNamed.nobody ?_) fun x same => absurd ⟨x, same⟩ missing
      rintro ⟨x, isNamed⟩
      exact missing ⟨x, isNamed.2⟩
    | some y =>
      apply iff_of_false
      · intro named
        have counted : ((setPriority s pid priority).2.queue QUEUE_PRIORITY).size = _ := setPriority_counts found
        rw [named.queues QUEUE_PRIORITY (by simp)] at counted
        omega
      · intro stale
        have := (stale y (State.findSlot_pid found)).2
        omega

/-- A call on a pid succeeds exactly if a used slot has the pid, and changes only that slot
and the queue that receives the process: for `kill` if and only if no unused slot has the
pid, for `sys_setqueue` among the pids up to `NPROC`, and for `sys_setpriority` only when
it fails. -/
theorem calls_act_on_named_iff (reachable : Reachable s) (pid : Int) :
    (ActsOnNamed s pid none (sysKill s pid) ↔ NotStale s pid) ∧
    (∀ priority, 1 ≤ priority → priority ≤ 6 →
      (ActsOnNamed s pid none (sysSetpriority s pid priority) ↔
        ∀ x, (s.proc x).pid = pid → (s.proc x).state = .unused ∧ NPROC < pid)) ∧
    (∀ queue, 0 ≤ queue → queue ≤ 3 →
      (ActsOnNamed s pid (some queue) (sysSetqueue s pid queue) ↔ PidBounded s pid)) := by
  have table := reachable.pidTable
  refine ⟨kill_acts.named_iff table, fun _ => setpriority_named_iff table, ?_⟩
  · intro queue low high
    refine bounded_named_iff table (fun nonneg => setqueue_acts (by omega)) ?_
    rw [sysSetqueue, if_neg (not_lt.mpr low)]

theorem reachable_userinit (ticks : Ticks) (kstack pgdir : Nat) : Reachable (userinit ticks kstack pgdir) :=
  ⟨ticks, kstack, pgdir, [], rfl⟩

theorem calls_act_on_named_init : ActsOnNamed (userinit 0 1 2) 1 none (sysKill (userinit 0 1 2) 1) ∧
    ¬ActsOnNamed (userinit 0 1 2) 1 none (sysSetpriority (userinit 0 1 2) 1 4) ∧
    ActsOnNamed (userinit 0 1 2) 1 (some 3) (sysSetqueue (userinit 0 1 2) 1 3) := by
  have clean : NotStale (userinit 0 1 2) 1 := by
    intro x unused
    by_cases init : x = 0
    · rw [init, userinit_proc_init] at unused
      contradiction
    · rw [userinit_proc_other _ _ _ init]
      decide
  obtain ⟨killed, set, moved⟩ := calls_act_on_named_iff (reachable_userinit 0 1 2) 1
  refine ⟨killed.mpr clean, fun acts => ?_, (moved 3 (by decide) (by decide)).mpr ⟨fun _ _ => by decide, fun _ => clean⟩⟩
  exact absurd ((set 4 (by decide) (by decide)).mp acts 0 (by rw [userinit_proc_init])).2 (by decide)

/-- `kill(0)` succeeds on an unused slot, although no process has pid 0. -/
theorem kill_zero_succeeds : Reachable (userinit 0 1 2) ∧
    (sysKill (userinit 0 1 2) 0).1 = 0 ∧ (∀ x, ¬ Names (userinit 0 1 2) 0 x) ∧
    ((sysKill (userinit 0 1 2) 0).2.proc 1).killed = true ∧
    ((userinit 0 1 2).proc 1).state = .unused := by
  refine ⟨reachable_userinit 0 1 2, by decide +kernel, ?_, by decide +kernel, by decide +kernel⟩
  intro x named
  have positive := (pidTable_userinit 0 1 2).positive x named.1
  rw [named.2] at positive
  contradiction

end Xv6.Process
