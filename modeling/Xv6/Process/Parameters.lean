import Xv6.Process.SystemCalls
import Xv6.Process.Turns
import Xv6.Process.Updates

namespace Xv6.Process

open Xv6.Data

/-! # The range of scheduling parameters

`sys_setqueue` has no upper bound on the queue, which `setqueue` uses as an index into
the array of four queues.  A call that leaves the array spins on whatever word it finds
there as the lock, and does not return.
-/

variable {s t : State} {a : Action} {x : Slot} {pid queue priority : Int}

inductive Request where
  | setpriority (pid priority : Int)
  | setqueue (pid queue : Int)
  | other (a : Action)
deriving DecidableEq, Repr

def Action.setsParameter : Action → Bool
  | .setPriority _ _ | .setqueue _ _ => true
  | _ => false

/-- The queue exists, or the call does not get to use it. -/
def QueueBounded (s : State) : Request → Prop
  | .setqueue pid queue => queue ≤ 3 ∨ (pid < 0 ∨ pid > NPROC) ∨ s.findSlot (·.pid == pid) = none
  | _ => True

instance : ∀ r, Decidable (QueueBounded s r)
  | .setqueue _ _ => inferInstanceAs (Decidable (_ ∨ _ ∨ _))
  | .setpriority _ _ | .other _ => isTrue trivial

def serve (s : State) : Request → Option State
  | .setpriority pid priority => if s.lock = .free then some (sysSetpriority s pid priority).2 else none
  | .setqueue pid queue =>
    if s.lock = .free ∧ QueueBounded s (.setqueue pid queue) then some (sysSetqueue s pid queue).2 else none
  | .other a => if a.setsParameter then none else step s a

/-- The indexes into `schedulingQueues` that a step of the kernel uses. -/
def queueIndices (s : State) : Action → List Int
  | .fork _ => if s.findSlot (·.state == .unused) = none then [] else [QUEUE_DEFAULT]
  | .setPriority pid _ => if s.findSlot (·.pid == pid) = none then [] else [QUEUE_PRIORITY]
  | .setqueue pid queue => if s.findSlot (·.pid == pid) = none then [] else [queue]
  | .scheduler c =>
    match (s.cpu c).scheduler with
    | .mlq i _ => if i ≤ 4 then [newQueue s c i] else []
    | _ => []
  | _ => []

/-- A call that its wrapper rejects uses none, and the two kernel functions are
called through their wrappers only. -/
def Request.indices (s : State) : Request → List Int
  | .setpriority pid priority =>
    if (pid < 0 ∨ pid > NPROC) ∨ priority < 1 then [] else queueIndices s (.setPriority pid priority)
  | .setqueue pid queue =>
    if (pid < 0 ∨ pid > NPROC) ∨ queue < 0 then [] else queueIndices s (.setqueue pid queue)
  | .other a => if a.setsParameter then [] else queueIndices s a

def IndicesBelow (s : State) (r : Request) : Prop :=
  ∀ i ∈ r.indices s, 0 ≤ i ∧ i < 4

/-- The state in which `setqueue` takes the lock of a queue: the number is already stored. -/
def Request.midway (s : State) : Request → Option State
  | .setqueue pid queue =>
    if (pid < 0 ∨ pid > NPROC) ∨ queue < 0 then none
    else (s.findSlot (·.pid == pid)).map fun x => s.setProc x ({ · with queueNumber := queue })
  | _ => none

def InRange (s : State) : Prop :=
  ∀ x, (s.proc x).state ≠ .unused →
    (0 ≤ (s.proc x).queueNumber ∧ (s.proc x).queueNumber ≤ 3) ∧
    (1 ≤ (s.proc x).priority ∧ (s.proc x).priority ≤ MAXPRIORITY)

theorem setqueue_missing (missing : s.findSlot (·.pid == pid) = none) : (setqueue s pid queue).2 = s := by
  have absent (x : Slot) : (s.proc x).pid ≠ pid := fun same => State.findSlot_pid_none missing ⟨x, same⟩
  simp [setqueue, foldl_setqueueStep _ (List.nodup_finRange NPROC), absent]

theorem setPriority_missing (missing : s.findSlot (·.pid == pid) = none) :
    (setPriority s pid priority).2 = s := by
  simp [setPriority, missing]

theorem findSlot_of_rejected {touched : Option Int} {result : Int × State}
    (acts : ActsOnPid s pid touched result) (rejected : result.1 = -1) :
    s.findSlot (·.pid == pid) = none := by
  cases found : s.findSlot (·.pid == pid) with
  | none => rfl
  | some x => exact absurd rejected (acts.succeeds.mpr ⟨x, State.findSlot_pid found⟩)

theorem sysSetpriority_rejected (rejected : (sysSetpriority s pid priority).1 = -1) :
    (sysSetpriority s pid priority).2 = s := by
  unfold sysSetpriority at rejected ⊢
  split at rejected
  · next outside => rw [if_pos outside]
  · rename_i inside
    rw [if_neg inside]
    split at rejected
    · next low => rw [if_pos low]
    · rename_i high
      rw [if_neg high]
      exact setPriority_missing (findSlot_of_rejected (setPriority_acts (by omega)) rejected)

theorem sysSetqueue_rejected (rejected : (sysSetqueue s pid queue).1 = -1) :
    (sysSetqueue s pid queue).2 = s := by
  unfold sysSetqueue at rejected ⊢
  split at rejected
  · next outside => rw [if_pos outside]
  · rename_i inside
    rw [if_neg inside]
    split at rejected
    · next low => rw [if_pos low]
    · rename_i high
      rw [if_neg high]
      exact setqueue_missing (findSlot_of_rejected (setqueue_acts (by omega)) rejected)

theorem sysSetqueue_accepted (accepted : (sysSetqueue s pid queue).1 ≠ -1) :
    ¬((pid < 0 ∨ pid > NPROC) ∨ queue < 0) ∧ s.findSlot (·.pid == pid) ≠ none ∧
      sysSetqueue s pid queue = setqueue s pid queue := by
  unfold sysSetqueue at accepted ⊢
  split at accepted
  · exact absurd rfl accepted
  · rename_i inside
    split at accepted
    · exact absurd rfl accepted
    · rename_i low
      refine ⟨not_or.mpr ⟨inside, low⟩, fun missing => accepted ?_, by rw [if_neg inside, if_neg low]⟩
      simp [setqueue, missing]

/-- The arguments that the wrappers pass on. -/
def Passed : Action → Prop
  | .setPriority _ priority => 1 ≤ priority ∧ priority ≤ MAXPRIORITY
  | .setqueue _ queue => 0 ≤ queue ∧ queue ≤ 3
  | _ => True

theorem serve_step {r : Request} (served : serve s r = some t) :
    t = s ∨ ∃ a, step s a = some t ∧ Passed a := by
  cases r with
  | setpriority pid priority =>
    simp only [serve] at served
    split at served
    · rename_i free
      cases served
      by_cases rejected : (sysSetpriority s pid priority).1 = -1
      · exact .inl (sysSetpriority_rejected rejected)
      · right
        unfold sysSetpriority at rejected ⊢
        split at rejected
        · exact absurd rfl rejected
        · rename_i inside
          split at rejected
          · exact absurd rfl rejected
          · rename_i low
            rw [if_neg inside, if_neg low]
            refine ⟨.setPriority pid (if priority > 6 then 5 else priority), ?_, ?_⟩
            · simp [step, act, locked, free]
            · simp only [Passed, MAXPRIORITY]
              split <;> omega
    · contradiction
  | setqueue pid queue =>
    simp only [serve] at served
    split at served
    · rename_i enabled
      obtain ⟨free, bounded⟩ := enabled
      cases served
      by_cases rejected : (sysSetqueue s pid queue).1 = -1
      · exact .inl (sysSetqueue_rejected rejected)
      · right
        obtain ⟨valid, found, passed⟩ := sysSetqueue_accepted rejected
        obtain ⟨inside, low⟩ := not_or.mp valid
        refine ⟨.setqueue pid queue, ?_, not_lt.mp low, (bounded.resolve_right (not_or.mpr ⟨inside, found⟩))⟩
        rw [passed]
        simp [step, act, locked, free]
    · contradiction
  | other a =>
    simp only [serve] at served
    split at served
    · contradiction
    · rename_i plain
      refine .inr ⟨a, served, ?_⟩
      cases a <;> trivial

structure Parameters (s : State) : Prop where
  sound : Sound s
  ranges : Ranges s
  priorities : ∀ x, (s.proc x).state ≠ .unused →
    1 ≤ (s.proc x).priority ∧ (s.proc x).priority ≤ MAXPRIORITY

theorem Parameters.inRange (good : Parameters s) : InRange s :=
  fun x used => ⟨good.ranges.numbers x, good.priorities x used⟩

theorem priority_of_update {old new : Proc} (passed : Passed a) (update : Proc.Update s a x old new)
    (before : old.state ≠ .unused → 1 ≤ old.priority ∧ old.priority ≤ MAXPRIORITY) :
    new.state ≠ .unused → 1 ≤ new.priority ∧ new.priority ≤ MAXPRIORITY := by
  intro used
  cases update with
  | prioritized is named =>
    subst is
    exact passed
  | allocated unused => exact ⟨by simp [Proc.allocated], by simp [Proc.allocated, MAXPRIORITY]⟩
  | woken asleep => exact before (by simp [asleep])
  | killed is named =>
    by_cases asleep : (s.proc x).state = .sleeping
    · exact before (by simp [asleep])
    · exact before (by simpa [Proc.killedAt, asleep] using used)
  | requeued | adopted => exact before used
  | @stacked kstack c embryo =>
    cases kstack with
    | none => exact absurd rfl used
    | some stack => exact before (by simp [embryo])
  | @copied parent pgdir embryo =>
    cases pgdir with
    | none => exact absurd rfl used
    | some directory => exact before (by simp [embryo])
  | ready inside embryo => exact before (by simp [embryo])
  | reaped => exact absurd rfl used
  | dispatched runnable => exact before (by simp [runnable])
  | counted running | exits running | ends running | sleeps running | yields running | stamped running
  | awakes running | enters running => exact before (by simp [running])

theorem Parameters.step (good : Parameters s) (passed : Passed a) (taken : step s a = some t) :
    Parameters t where
  sound := good.sound.step taken
  ranges := by
    refine good.ranges.step good.sound ?_ taken
    cases a <;> trivial
  priorities x := (updates_of_step good.sound taken x).keeps
    (fun _ _ update => priority_of_update passed update) (good.priorities x)

theorem Parameters.serve {r : Request} (good : Parameters s) (served : serve s r = some t) :
    Parameters t := by
  rcases serve_step served with same | ⟨a, taken, passed⟩
  · exact same ▸ good
  · exact good.step passed taken

theorem parameters_userinit (ticks : Ticks) (kstack pgdir : Nat) :
    Parameters (userinit ticks kstack pgdir) := by
  refine ⟨sound_userinit ticks kstack pgdir, ranges_userinit ticks kstack pgdir, fun x used => ?_⟩
  by_cases init : x = 0
  · rw [init, userinit_proc_init]
    exact ⟨by simp, by simp [MAXPRIORITY]⟩
  · rw [userinit_proc_other _ _ _ init] at used
    exact absurd rfl used

theorem Parameters.indices {r : Request} (good : Parameters s) (bounded : QueueBounded s r) :
    IndicesBelow s r := by
  have kernel {a : Action} (plain : ∀ pid queue, a ≠ .setqueue pid queue) :
      ∀ i ∈ queueIndices s a, 0 ≤ i ∧ i < 4 := by
    intro i member
    cases a with
    | setqueue pid queue => exact absurd rfl (plain pid queue)
    | fork | setPriority =>
      simp only [queueIndices] at member
      split at member
      · contradiction
      · rw [List.mem_singleton.mp member]
        decide
    | scheduler c =>
      simp only [queueIndices] at member
      split at member
      · rename_i k _ _
        split at member
        · rw [List.mem_singleton.mp member]
          have := newQueue_range (c := c) (i := k) good.ranges
          omega
        · contradiction
      · contradiction
    | _ => contradiction
  intro i member
  cases r with
  | setpriority pid priority =>
    simp only [Request.indices] at member
    split at member
    · contradiction
    · exact kernel (by simp) i member
  | setqueue pid queue =>
    simp only [Request.indices] at member
    split at member
    · contradiction
    · rename_i valid
      simp only [queueIndices] at member
      split at member
      · contradiction
      · rename_i found
        obtain ⟨inside, low⟩ := not_or.mp valid
        have below := bounded.resolve_right (not_or.mpr ⟨inside, found⟩)
        rw [List.mem_singleton.mp member]
        omega
  | other a =>
    simp only [Request.indices] at member
    split at member
    · contradiction
    · rename_i plain
      refine kernel ?_ i member
      rintro pid queue rfl
      exact plain rfl

theorem Parameters.midway {r : Request} (good : Parameters s) (bounded : QueueBounded s r)
    (stands : r.midway s = some t) : InRange t := by
  cases r with
  | setqueue pid queue =>
    simp only [Request.midway] at stands
    split at stands
    · contradiction
    · rename_i valid
      obtain ⟨inside, low⟩ := not_or.mp valid
      obtain ⟨y, found, rfl⟩ := Option.map_eq_some_iff.mp stands
      have below := bounded.resolve_right (not_or.mpr ⟨inside, by simp [found]⟩)
      intro x used
      rw [State.setProc_proc] at used ⊢
      split at used
      · rename_i same
        subst same
        rw [if_pos rfl]
        exact ⟨⟨not_lt.mp low, below⟩, good.priorities x used⟩
      · rename_i other
        rw [if_neg other]
        exact good.inRange x used
  | _ => contradiction

/-- Along a run of requests, queues, priorities and indexes stay in range, also inside
`setqueue`, if and only if each call of `sys_setqueue` whose pid some slot has and the
wrapper lets through names a queue up to 3; and a rejected call changes nothing. -/
theorem parameters_in_range_iff (ticks : Ticks) (kstack pgdir : Nat) (requests : List Request) :
    (Along serve QueueBounded (userinit ticks kstack pgdir) requests ↔
      Along serve IndicesBelow (userinit ticks kstack pgdir) requests ∧
      ∀ first rest middle, requests = first ++ rest →
        exec serve (userinit ticks kstack pgdir) first = some middle → InRange middle ∧
          ∀ r ∈ rest.head?, ∀ mid, r.midway middle = some mid → InRange mid) ∧
    (∀ s pid priority, (sysSetpriority s pid priority).1 = -1 → (sysSetpriority s pid priority).2 = s) ∧
    (∀ s pid queue, (sysSetqueue s pid queue).1 = -1 → (sysSetqueue s pid queue).2 = s) := by
  have start := parameters_userinit ticks kstack pgdir
  refine ⟨⟨fun bounded => ⟨?_, ?_⟩, fun both => ?_⟩, fun _ _ _ => sysSetpriority_rejected,
    fun _ _ _ => sysSetqueue_rejected⟩
  · exact bounded.of_invariant Parameters start (fun _ _ _ good _ served => good.serve served)
      fun _ _ good bounded => good.indices bounded
  · intro first rest middle split reached
    subst split
    have good : Parameters middle :=
      exec_invariant_all Parameters start (fun _ _ _ good served => good.serve served) reached
    refine ⟨good.inRange, fun r next mid stands => good.midway ?_ stands⟩
    cases rest with
    | nil => contradiction
    | cons request others =>
      cases next
      exact (bounded.of_append reached).2.1
  · refine both.1.of_invariant (fun _ => True) trivial (fun _ _ _ _ _ _ => trivial) ?_
    intro before request _ below
    cases request with
    | setqueue pid queue =>
      by_contra outside
      obtain ⟨large, inside, found⟩ := not_or.mp outside |>.imp_right not_or.mp
      have member : queue ∈ (Request.setqueue pid queue).indices before := by
        have valid : ¬((pid < 0 ∨ pid > NPROC) ∨ queue < 0) := by omega
        simp only [Request.indices, if_neg valid, queueIndices, if_neg found, List.mem_singleton]
      have := (below queue member).2
      omega
    | _ => trivial

def tunedInit : List Request :=
  firstDispatch.map .other ++ [.setqueue 1 3, .setpriority 1 9, .setpriority 1 0]

theorem parameters_in_range_tuned : ∃ s, exec serve (userinit 0 1 2) tunedInit = some s ∧
    (s.proc 0).queueNumber = 3 ∧ (s.proc 0).priority = 5 ∧ InRange s := by
  have bounded : Along serve QueueBounded (userinit 0 1 2) tunedInit := by decide +kernel
  have observed : ((exec serve (userinit 0 1 2) tunedInit).map fun s =>
      ((s.proc 0).queueNumber, (s.proc 0).priority)) = some (3, 5) := by decide +kernel
  obtain ⟨s, ran, seen⟩ := Option.map_eq_some_iff.mp observed
  obtain ⟨number, value⟩ := Prod.mk.inj seen
  have always := ((parameters_in_range_iff 0 1 2 tunedInit).1.mp bounded).2
  exact ⟨s, ran, number, value, (always tunedInit [] s (by simp) ran).1⟩

/-- The wrapper lets queue 4 through: `setqueue` stores the number and then takes the lock
behind the array. -/
theorem setqueue_leaves_array : ∃ s mid, exec serve (userinit 0 1 2) (firstDispatch.map .other) = some s ∧
    (Request.setqueue 1 4).indices s = [4] ∧ (Request.setqueue 1 4).midway s = some mid ∧
    (mid.proc 0).state = .running ∧ (mid.proc 0).queueNumber = 4 := by
  have observed : ((exec serve (userinit 0 1 2) (firstDispatch.map .other)).bind fun s =>
      ((Request.setqueue 1 4).midway s).map fun mid =>
        ((Request.setqueue 1 4).indices s, (mid.proc 0).state, (mid.proc 0).queueNumber)) =
      some ([4], .running, 4) := by decide +kernel
  obtain ⟨s, ran, later⟩ := Option.bind_eq_some_iff.mp observed
  obtain ⟨mid, stands, seen⟩ := Option.map_eq_some_iff.mp later
  simp only [Prod.mk.injEq] at seen
  exact ⟨s, mid, ran, seen.1, stands, seen.2⟩

end Xv6.Process
