import Xv6.Process.Rings
import Xv6.Process.StateMachine

namespace Xv6.Process

open Xv6.Data

/-! # Turns of the MLQ loop

The body of the MLQ loop switches to whatever `p` points at or `findPriority` returns.
`p` survives from one iteration to the next, the pop loop keeps members of both ring
queues, and the tie-break of `findPriority` does not look at queues.
-/

variable {s t : State} {a : Action} {c : CpuId} {x p np : Slot} {ring ring' : Queue} {q : Int} {i : Nat}

def SwitchesTo (s : State) (c : CpuId) (q : Int) (x : Slot) : Prop :=
  ∃ t i p, step s (.scheduler c) = some t ∧ (t.cpu c).proc = some x ∧
    ((t.cpu c).scheduler = .mlqSelected i q p ∨ (t.cpu c).scheduler = .mlqRing i q p)

def ringEntries (ring : Queue) : List (Option Slot) :=
  (List.range ring.size).map fun k => ring.array ((ring.front + k) % NPROC)

/-- The pop loop stops at `x`: everything before it is dropped, and it is kept or
it is the last entry. -/
def StopsAt (s : State) (entries : List (Option Slot)) (x : Slot) : Prop :=
  ∃ dropped rest, entries = dropped ++ some x :: rest ∧
    (∀ entry ∈ dropped, ∃ y, entry = some y ∧ (s.proc y).leavesRings = true) ∧
    ((s.proc x).leavesRings = false ∨ rest = [])

def RingTurn (s : State) (q : Int) : Prop :=
  ∀ x, StopsAt s (ringEntries (s.queue q)) x → (s.proc x).state = .runnable → (s.proc x).queueNumber = q

def Member (s : State) (q : Int) (x : Slot) : Prop :=
  (s.proc x).state = .runnable ∧ (s.proc x).queueNumber = q

def BestMember (s : State) (q : Int) (x : Slot) : Prop :=
  Member s q x ∧ ∀ v, Member s q v →
    if q = QUEUE_PRIORITY then (s.proc x).priority ≤ (s.proc v).priority
    else (s.proc v).priority ≤ (s.proc x).priority

/-- No outsider wins the tie-break: one that has the priority of an earlier best
member has been scheduled more often than some best member, or as often and
comes later in the table.  And without members, the `p` of an earlier iteration
is not runnable. -/
def PriorityTurn (s : State) (q : Int) (p : Option Slot) : Prop :=
  (∀ y, (s.proc y).state = .runnable → (s.proc y).queueNumber ≠ q →
    ∀ w, BestMember s q w → w < y → (s.proc w).priority = (s.proc y).priority →
      ∃ x, BestMember s q x ∧ Sooner s x y) ∧
  ((∀ w, ¬ Member s q w) → ∀ x, p = some x → (s.proc x).state ≠ .runnable)

/-- The condition on the state before a scheduler step under which the step runs
nobody out of turn. -/
def InTurn (s : State) (c : CpuId) : Prop :=
  s.lock = .scheduler c →
    match (s.cpu c).scheduler with
    | .mlq i p =>
      i ≤ 4 → (s.queue (newQueue s c i)).size ≠ 0 →
        if IsRing (newQueue s c i) then RingTurn s (newQueue s c i)
        else PriorityTurn s (newQueue s c i) p
    | .mlqSelected _ q p => ∀ x, p = some x → (s.proc x).state = .runnable → (s.proc x).queueNumber = q
    | _ => True

theorem ringEntries_cons (inside : ring.front < NPROC) {size : Nat} (counted : ring.size = size + 1) :
    ringEntries ring = ring.head :: ringEntries (ring.drop NPROC) := by
  simp only [ringEntries, counted, CircularBuffer.size_drop, Nat.add_sub_cancel, List.range_succ_eq_map,
    List.map_cons, List.map_map]
  refine congrArg₂ List.cons ?_ (List.map_congr_left ?_)
  · simp [CircularBuffer.head, Nat.mod_eq_of_lt inside]
  · intro k _
    change ring.array ((ring.front + (k + 1)) % NPROC) = ring.array (((ring.front + 1) % NPROC + k) % NPROC)
    rw [Nat.mod_add_mod, Nat.add_assoc, Nat.add_comm 1 k]

theorem stopsAt_cons {entries : List (Option Slot)} {y : Slot} : StopsAt s (some y :: entries) x ↔
      x = y ∧ ((s.proc x).leavesRings = false ∨ entries = []) ∨
        (s.proc y).leavesRings = true ∧ StopsAt s entries x := by
  constructor
  · rintro ⟨dropped, rest, split, leaves, stop⟩
    cases dropped with
    | nil =>
      obtain ⟨same, rest_eq⟩ := List.cons.inj split
      exact .inl ⟨(Option.some.inj same).symm, rest_eq ▸ stop⟩
    | cons first dropped =>
      obtain ⟨same, rest_eq⟩ := List.cons.inj split
      obtain ⟨z, is, leaves_z⟩ := leaves first List.mem_cons_self
      obtain rfl := Option.some.inj (same.trans is)
      exact .inr ⟨leaves_z, dropped, rest, rest_eq,
        fun entry member => leaves entry (List.mem_cons_of_mem _ member), stop⟩
  · rintro (⟨rfl, stop⟩ | ⟨leaves_y, dropped, rest, rfl, leaves, stop⟩)
    · exact ⟨[], entries, rfl, by simp, stop⟩
    · refine ⟨some y :: dropped, rest, rfl, ?_, stop⟩
      intro entry member
      rcases List.mem_cons.mp member with rfl | old
      · exact ⟨y, rfl, leaves_y⟩
      · exact leaves entry old

theorem not_stopsAt_none {entries : List (Option Slot)} : ¬ StopsAt s (none :: entries) x := by
  rintro ⟨dropped, rest, split, leaves, _⟩
  cases dropped with
  | nil => exact absurd (List.cons.inj split).1 (by simp)
  | cons first dropped =>
    obtain ⟨z, is, _⟩ := leaves first List.mem_cons_self
    exact absurd ((List.cons.inj split).1.trans is) (by simp)

/-- The pop loop returns the entry it stops at; on an empty ring it leaves `p`
as it was. -/
theorem popLoop_stops (ring : Queue) {size : Nat} (found : Option Slot) (inside : ring.front < NPROC)
    (counted : ring.size = size) : (∃ ring', popLoop s size ring found = some (ring', some x)) ↔
      StopsAt s (ringEntries ring) x ∨ size = 0 ∧ found = some x := by
  induction size generalizing ring found with
  | zero =>
    have empty : ringEntries ring = [] := by simp [ringEntries, counted]
    have never : ¬ StopsAt s [] x := by
      rintro ⟨dropped, rest, split, _⟩
      simp at split
    simp [popLoop, empty, never]
  | succ size ih =>
    rw [ringEntries_cons inside counted]
    cases front : ring.head with
    | none => simp [popLoop, front, not_stopsAt_none]
    | some y =>
      rw [stopsAt_cons]
      simp only [popLoop, front]
      by_cases leaves : (s.proc y).leavesRings = true
      · have next := ih (ring.drop NPROC) (some y) (Nat.mod_lt _ (by decide))
          (by rw [CircularBuffer.size_drop]; omega)
        have empty : ringEntries (ring.drop NPROC) = [] ↔ size = 0 := by
          simp [ringEntries, counted]
        rw [if_pos leaves, next, empty]
        constructor
        · rintro (stops | ⟨none, same⟩)
          · exact .inl (.inr ⟨leaves, stops⟩)
          · exact .inl (.inl ⟨(Option.some.inj same).symm, .inr none⟩)
        · rintro ((⟨same, stays | none⟩ | ⟨_, stops⟩) | ⟨bad, _⟩)
          · rw [same, leaves] at stays
            contradiction
          · exact .inr ⟨none, congrArg some same.symm⟩
          · exact .inl stops
          · omega
      · rw [if_neg leaves]
        simp only [leaves, Bool.false_eq_true, false_and, or_false, Nat.add_one_ne_zero]
        constructor
        · rintro ⟨_, same⟩
          obtain ⟨_, same⟩ := Prod.mk.inj (Option.some.inj same)
          obtain rfl := Option.some.inj same
          exact ⟨rfl, .inl (by simpa using leaves)⟩
        · rintro ⟨rfl, _⟩
          exact ⟨_, rfl⟩

section

variable (isQueue : q = QUEUE_PRIORITY ∨ q = QUEUE_PRIORITY_REVERSE)
include isQueue

theorem modeMember_iff : Candidate s (if q = QUEUE_PRIORITY then 1 else 2) x ↔ Member s q x := by
  rcases isQueue with rfl | rfl
  · simp [Candidate, modeMember, Member]
  · simp [Candidate, modeMember, Member, QUEUE_PRIORITY, QUEUE_PRIORITY_REVERSE]

theorem modeRank_le_iff (v w : Proc) :
    modeRank (if q = QUEUE_PRIORITY then 1 else 2) v ≤ modeRank (if q = QUEUE_PRIORITY then 1 else 2) w ↔
      if q = QUEUE_PRIORITY then v.priority ≤ w.priority else w.priority ≤ v.priority := by
  rcases isQueue with rfl | rfl
  · simp [modeRank]
  · simp [modeRank, QUEUE_PRIORITY, QUEUE_PRIORITY_REVERSE]

theorem FirstBest.bestMember {w : Slot}
    (best : FirstBest s (if q = QUEUE_PRIORITY then 1 else 2) (List.finRange NPROC) w) :
    BestMember s q w := by
  refine ⟨(modeMember_iff isQueue).mp best.candidate, ?_⟩
  intro v member
  rw [← modeRank_le_iff isQueue]
  exact best.best v (List.mem_finRange v) ((modeMember_iff isQueue).mpr member)

theorem FirstBest.ties {w x : Slot}
    (best : FirstBest s (if q = QUEUE_PRIORITY then 1 else 2) (List.finRange NPROC) w)
    (other : BestMember s q x) : Ties s w x := by
  have candidate := (modeMember_iff isQueue).mpr other.1
  have above := best.best x (List.mem_finRange x) candidate
  have below := (modeRank_le_iff isQueue (s.proc x) (s.proc w)).mpr
    (other.2 w ((modeMember_iff isQueue).mp best.candidate))
  refine ⟨candidate.1, ?_, modeRank_injective (le_antisymm below above)⟩
  by_contra before
  have := best.first x (List.mem_finRange x) (not_le.mp before) candidate
  omega

end

theorem Sooner.antisymm {x y : Slot} (first : Sooner s x y) (second : Sooner s y x) : x = y := by
  rcases first with fewer | ⟨equal, le⟩ <;> rcases second with fewer' | ⟨equal', le'⟩
  · omega
  · omega
  · omega
  · exact le_antisymm le le'

/-- `findPriority` stays in its queue exactly when no outsider wins the
tie-break. -/
theorem findPriority_inside_iff (isQueue : q = QUEUE_PRIORITY ∨ q = QUEUE_PRIORITY_REVERSE) :
    (∀ x, findPriority s (if q = QUEUE_PRIORITY then 1 else 2) = some x → (s.proc x).queueNumber = q) ↔
      ∀ y, (s.proc y).state = .runnable → (s.proc y).queueNumber ≠ q →
        ∀ w, BestMember s q w → w < y → (s.proc w).priority = (s.proc y).priority →
          ∃ x, BestMember s q x ∧ Sooner s x y := by
  have result := findPriority_result s (if q = QUEUE_PRIORITY then 1 else 2)
  constructor
  · intro inside y runnable outside w best before same
    cases chosen : findPriority s (if q = QUEUE_PRIORITY then 1 else 2) with
    | none =>
      rw [chosen] at result
      exact absurd ((modeMember_iff isQueue).mpr best.1) (result w (List.mem_finRange w))
    | some x =>
      rw [chosen] at result
      obtain ⟨v, picked⟩ := result
      have tied := picked.best.ties isQueue best
      have ties : Ties s v y := ⟨runnable, tied.2.1.trans before.le, same.symm.trans tied.2.2⟩
      refine ⟨x, ⟨⟨picked.ties.1, inside x chosen⟩, ?_⟩, picked.soonest y (List.mem_finRange y) ties⟩
      intro u member
      have first := (picked.best.bestMember isQueue).2 u member
      rwa [← picked.ties.2.2] at first
  · intro turn x chosen
    rw [chosen] at result
    obtain ⟨w, picked⟩ := result
    by_contra outside
    have best := picked.best.bestMember isQueue
    have before : w < x := by
      refine lt_of_le_of_ne picked.ties.2.1 ?_
      rintro rfl
      exact outside best.1.2
    obtain ⟨v, member, sooner⟩ := turn x picked.ties.1 outside w best before picked.ties.2.2.symm
    have back := picked.soonest v (List.mem_finRange v) (picked.best.ties isQueue member)
    rw [Sooner.antisymm sooner back] at member
    exact outside member.1.2

theorem findPriority_none_iff (isQueue : q = QUEUE_PRIORITY ∨ q = QUEUE_PRIORITY_REVERSE) :
    findPriority s (if q = QUEUE_PRIORITY then 1 else 2) = none ↔ ∀ w, ¬ Member s q w := by
  have result := findPriority_result s (if q = QUEUE_PRIORITY then 1 else 2)
  cases chosen : findPriority s (if q = QUEUE_PRIORITY then 1 else 2) with
  | none =>
    rw [chosen] at result
    refine iff_of_true rfl fun w member => ?_
    exact result w (List.mem_finRange w) ((modeMember_iff isQueue).mpr member)
  | some x =>
    rw [chosen] at result
    obtain ⟨w, picked⟩ := result
    refine iff_of_false (by simp) fun empty => ?_
    exact empty w ((modeMember_iff isQueue).mp picked.best.candidate)

def Switched (result : Result) (c : CpuId) (q : Int) (x : Slot) : Prop :=
  ∃ t i p, result = .next t ∧ (t.cpu c).proc = some x ∧
    ((t.cpu c).scheduler = .mlqSelected i q p ∨ (t.cpu c).scheduler = .mlqRing i q p)

variable {found : Option Slot}

theorem switched_dispatch {counted : Bool} {pc : SchedPc} {r : Int} {y : Slot}
    (loaded : Loaded s) (runnable : (s.proc y).state = .runnable)
    (place : pc = .mlqSelected i r found ∨ pc = .mlqRing i r found) :
    Switched (dispatch s c y counted pc) c q x ↔ q = r ∧ y = x := by
  obtain ⟨kstack, pgdir⟩ := loaded y runnable
  simp only [dispatch, if_neg kstack, if_neg pgdir, Switched, Result.next.injEq]
  constructor
  · rintro ⟨t, j, p, rfl, on, at_⟩
    simp only [State.setProc_cpu, State.setCpu_cpu_self, Option.some.injEq] at on at_
    rcases place with rfl | rfl <;> simp at at_ <;> exact ⟨at_.2.1.symm, on⟩
  · rintro ⟨rfl, rfl⟩
    exact ⟨_, i, found, rfl, by simp, by simpa using place⟩

theorem not_switched_at {pc : SchedPc} {s : State} (none : (s.cpu c).proc = none) :
    ¬ Switched (.next (s.schedulerAt c pc)) c q x := by
  rintro ⟨t, j, p, is, on, _⟩
  cases is
  simp [State.schedulerAt, none] at on

theorem switched_mlqTail {r : Int} (loaded : Loaded s) (none : (s.cpu c).proc = none) :
    Switched (mlqTail s c i r found) c q x ↔
      q = r ∧ found = some x ∧ (s.proc x).state = .runnable := by
  cases found with
  | none => simp [mlqTail, not_switched_at none]
  | some y =>
    simp only [mlqTail, Option.some.injEq]
    split
    · rename_i runnable
      rw [switched_dispatch loaded runnable (.inr rfl)]
      constructor
      · rintro ⟨rfl, rfl⟩
        exact ⟨rfl, rfl, runnable⟩
      · rintro ⟨rfl, rfl, _⟩
        exact ⟨rfl, rfl⟩
    · rename_i idle
      refine iff_of_false (not_switched_at none) ?_
      rintro ⟨_, rfl, runnable⟩
      exact idle runnable

theorem switched_mlqBody_ring (loaded : Loaded s) (none : (s.cpu c).proc = none)
    (inside : (s.queue (newQueue s c i)).front < NPROC) (filled : (s.queue (newQueue s c i)).size ≠ 0)
    (isRing : IsRing (newQueue s c i)) : Switched (mlqBody s c i found) c q x ↔ q = newQueue s c i ∧
      StopsAt s (ringEntries (s.queue (newQueue s c i))) x ∧ (s.proc x).state = .runnable := by
  have stops := popLoop_stops (s := s) (x := x) _ found inside rfl
  have ring : newQueue s c i = QUEUE_DEFAULT ∨ newQueue s c i = QUEUE_PRIORITY_RR := isRing
  simp only [filled, false_and, or_false] at stops
  simp only [mlqBody, if_neg filled, if_pos ring]
  rw [← stops]
  cases popped : popLoop s (s.queue (newQueue s c i)).size (s.queue (newQueue s c i)) found with
  | none => simp [Switched]
  | some result =>
    obtain ⟨ring', found'⟩ := result
    rw [switched_mlqTail (s := { s with queue := Function.update s.queue (newQueue s c i) ring' }) loaded none]
    simp

theorem switched_mlqBody_priority (loaded : Loaded s) (none : (s.cpu c).proc = none)
    (filled : (s.queue (newQueue s c i)).size ≠ 0) (notRing : ¬ IsRing (newQueue s c i)) :
    Switched (mlqBody s c i found) c q x ↔ q = newQueue s c i ∧
      (findPriority s (if newQueue s c i = QUEUE_PRIORITY then 1 else 2) = some x ∨
        findPriority s (if newQueue s c i = QUEUE_PRIORITY then 1 else 2) = .none ∧
          found = some x ∧ (s.proc x).state = .runnable) := by
  have other : ¬ (newQueue s c i = QUEUE_DEFAULT ∨ newQueue s c i = QUEUE_PRIORITY_RR) := notRing
  simp only [mlqBody, if_neg filled, if_neg other]
  cases chosen : findPriority s (if newQueue s c i = QUEUE_PRIORITY then 1 else 2) with
  | none =>
    simp only [reduceCtorEq, false_or, true_and]
    exact switched_mlqTail loaded none
  | some y =>
    simp only [Option.some.injEq, reduceCtorEq, false_and, or_false]
    exact switched_dispatch loaded (findPriority_runnable chosen) (.inl rfl)

theorem switchesTo_iff (held : s.lock = .scheduler c) :
    SwitchesTo s c q x ↔ Switched (schedulerStep s c) c q x := by
  have taken (t : State) : step s (.scheduler c) = some t ↔ schedulerStep s c = .next t := by
    rw [step_eq_some, act, if_pos held]
  simp only [SwitchesTo, Switched, taken]

theorem not_switchesTo (elsewhere : s.lock ≠ .scheduler c) : ¬ SwitchesTo s c q x := by
  rintro ⟨t, i, p, taken, _⟩
  simp [step, act, elsewhere] at taken

structure Ranges (s : State) : Prop where
  fronts : ∀ q, (s.queue q).front < NPROC
  numbers : ∀ x, 0 ≤ (s.proc x).queueNumber ∧ (s.proc x).queueNumber ≤ 3
  last : ∀ c, 0 ≤ s.lastQueue c ∧ s.lastQueue c ≤ 3

theorem newQueue_range (good : Ranges s) : 0 ≤ newQueue s c i ∧ newQueue s c i ≤ 3 := by
  obtain ⟨nonneg, _⟩ := good.last c
  have base : 0 ≤ s.lastQueue c + i := by omega
  have mod : newQueue s c i = (s.lastQueue c + i) % 4 := Int.tmod_eq_emod_of_nonneg base
  omega

theorem newQueue_priority (good : Ranges s) (notRing : ¬ IsRing (newQueue s c i)) :
    newQueue s c i = QUEUE_PRIORITY ∨ newQueue s c i = QUEUE_PRIORITY_REVERSE := by
  have range := newQueue_range (c := c) (i := i) good
  simp only [IsRing, not_or, QUEUE_DEFAULT, QUEUE_PRIORITY_RR] at notRing
  simp only [QUEUE_PRIORITY, QUEUE_PRIORITY_REVERSE]
  omega

theorem number_of_step (sound : Sound s) (taken : step s a = some t) (plain : ∀ pid q, a ≠ .setqueue pid q) (x : Slot) :
    (t.proc x).queueNumber = (s.proc x).queueNumber ∨ (t.proc x).queueNumber = QUEUE_DEFAULT := by
  apply (updates_of_step sound taken x).keeps
    (P := fun p => p.queueNumber = (s.proc x).queueNumber ∨ p.queueNumber = QUEUE_DEFAULT) _ (.inl rfl)
  intro p q update before
  cases update with
  | requeued is => exact absurd is (plain _ _)
  | allocated => exact .inr rfl
  | @stacked kstack => cases kstack <;> exact before
  | @copied parent pgdir => cases pgdir <;> exact before
  | _ => exact before

/-- `sched` records the queue of the process that leaves the CPU. -/
def LastOrOwn (s t : State) : Prop :=
  ∀ d, t.lastQueue d = s.lastQueue d ∨ ∃ x, t.lastQueue d = (s.proc x).queueNumber

def RecordedQueue (s t : State) : Prop :=
  t.lastQueue = s.lastQueue ∨
    ∃ c p, (s.cpu c).proc = some p ∧ t.lastQueue = Function.update s.lastQueue c (s.proc p).queueNumber

theorem RecordedQueue.sched {p : Slot} {u : State} {saved : Saved} (on : (s.cpu c).proc = some p)
    (last : u.lastQueue = s.lastQueue) (number : (u.proc p).queueNumber = (s.proc p).queueNumber) :
    RecordedQueue s (sched u c p saved) := by
  refine .inr ⟨c, p, on, ?_⟩
  simp only [Process.sched, last, number]

theorem RecordedQueue.waitBody {p : Slot} {u : State} (on : (s.cpu c).proc = some p)
    (last : u.lastQueue = s.lastQueue) (number : (u.proc p).queueNumber = (s.proc p).queueNumber) :
    RecordedQueue s (waitBody u c p) := by
  unfold Process.waitBody
  split
  · exact .inl last
  · exact .inl last
  · exact .sched on last (by simpa [Proc.asleep] using number)

theorem RecordedQueue.resume {p : Slot} (on : (s.cpu c).proc = some p) : RecordedQueue s (resume s c p) := by
  unfold Process.resume
  split
  · exact .inl rfl
  · exact .inl rfl
  · split
    · exact .waitBody on rfl (by simp)
    · exact .inl rfl

theorem RecordedQueue.exitEnd {p : Slot} (on : (s.cpu c).proc = some p) : RecordedQueue s (exitEnd s c p) := by
  refine .sched on ?_ ?_
  · rw [foldl_adoptStep _ (List.nodup_finRange NPROC)]
    rfl
  · rw [State.setProc_proc_self, foldl_adoptStep _ (List.nodup_finRange NPROC), adopted_wakeup1]
    split <;> rfl

theorem Scheduled.lastQueue (effect : Scheduled s c t) : t.lastQueue = s.lastQueue := by
  cases effect with
  | moved | dispatched => rfl

theorem recorded_of_effect (effect : Effect s a t) : RecordedQueue s t := by
  cases effect with
  | tick | wakeup | kill | setPriority | changepolicy | syscall | forkStack | forkCopy | forkReady
  | exitBegin | nothing => exact .inl rfl
  | setqueue =>
    refine .inl ?_
    rw [foldl_setqueueStep _ (List.nodup_finRange NPROC)]
  | fork on free user unused allocated =>
    obtain ⟨_, rfl⟩ := allocproc_some allocated
    exact .inl rfl
  | exitEnd on => exact .exitEnd on
  | wait on => exact .waitBody on rfl rfl
  | sleep on => exact .sched on rfl (by simp [Proc.asleep])
  | yield on => exact .sched on rfl (by simp)
  | resume on => exact .resume on
  | pass free idle none effect => exact .inl effect.lastQueue
  | scheduler held effect => exact .inl effect.lastQueue

theorem lastQueue_of_effect (effect : Effect s a t) : LastOrOwn s t := by
  intro d
  rcases recorded_of_effect effect with same | ⟨c, p, _, recorded⟩
  · exact .inl (congrFun same d)
  · rw [recorded, Function.update_apply]
    split
    · exact .inr ⟨p, rfl⟩
    · exact .inl rfl

theorem front_of_effect (fronts : ∀ q, (s.queue q).front < NPROC) (effect : Effect s a t) (q : Int) :
    (t.queue q).front < NPROC := by
  have same (queue : t.queue = s.queue) : (t.queue q).front < NPROC := by
    rw [queue]
    exact fronts q
  have scheduled {c : CpuId} (effect : Scheduled s c t) : (t.queue q).front < NPROC := by
    have turned := effect.turned.1
    generalize t.queue = queue at turned
    cases turned with
    | same => exact fronts q
    | popped isRing run =>
      rw [Function.update_apply]
      split
      · exact popLoop_keeps (·.front < NPROC) run (fronts _) (fun _ _ _ _ _ _ => Nat.mod_lt _ (by decide))
          fun _ _ _ => Nat.mod_lt _ (by decide)
      · exact fronts q
  cases effect with
  | tick | wakeup | kill | changepolicy | syscall | forkStack | forkCopy | forkReady | exitBegin
  | sleep | yield | nothing => exact same rfl
  | exitEnd => exact same exitEnd_queue
  | wait => exact same waitBody_queue
  | resume => exact same resume_queue
  | setPriority =>
    simp only [State.countIn, Function.update_apply]
    split
    · exact fronts QUEUE_PRIORITY
    · exact fronts q
  | @setqueue pid r =>
    rw [foldl_setqueueStep _ (List.nodup_finRange NPROC)]
    simp only [Function.update_apply]
    split
    · rw [← List.foldl_map (g := CircularBuffer.push NPROC)]
      exact CircularBuffer.front_pushAll.trans_lt (fronts r)
    · exact fronts q
  | fork on free user unused allocated =>
    obtain ⟨_, rfl⟩ := allocproc_some allocated
    simp only [State.setProc_queue, State.enqueue_queue]
    split
    · exact fronts QUEUE_DEFAULT
    · exact fronts q
  | pass free idle none effect => exact scheduled effect
  | scheduler held effect => exact scheduled effect

theorem Ranges.step (good : Ranges s) (sound : Sound s) (arguments : QueueArguments s a)
    (taken : step s a = some t) : Ranges t where
  fronts := front_of_effect good.fronts (sound.effect taken)
  numbers x := by
    by_cases isSet : ∃ pid q, a = .setqueue pid q
    · obtain ⟨pid, q, rfl⟩ := isSet
      cases sound.effect taken with
      | setqueue free =>
        rw [foldl_setqueueStep _ (List.nodup_finRange NPROC)]
        dsimp only
        split
        · exact arguments
        · exact good.numbers x
      | nothing => exact good.numbers x
    · have plain : ∀ pid q, a ≠ .setqueue pid q := fun pid q is => isSet ⟨pid, q, is⟩
      rcases number_of_step sound taken plain x with same | default
      · rw [same]
        exact good.numbers x
      · rw [default]
        decide
  last d := by
    rcases lastQueue_of_effect (sound.effect taken) d with same | ⟨x, own⟩
    · rw [same]
      exact good.last d
    · rw [own]
      exact good.numbers x

theorem ranges_userinit (ticks : Ticks) (kstack pgdir : Nat) : Ranges (userinit ticks kstack pgdir) := by
  have empty : emptyQueue.front < NPROC := by decide
  have zero : (0 : Int) ≤ 0 ∧ (0 : Int) ≤ 3 := by decide
  constructor
  · intro q
    simp only [userinit_eq, State.setProc_queue, State.enqueue_queue]
    split <;> exact empty
  · intro x
    by_cases init : x = 0
    · rw [init, userinit_proc_init]
      exact zero
    · rw [userinit_proc_other _ _ _ init]
      exact zero
  · intro d
    rw [userinit_eq]
    exact zero

theorem not_switched_release {s : State} (none : (s.cpu c).proc = none) :
    ¬ Switched (.next (s.release c)) c q x := by
  rintro ⟨t, j, p, is, on, _⟩
  cases is
  simp [State.release, State.schedulerAt, none] at on

theorem not_switched_table {k : Nat} (loaded : Loaded s) (none : (s.cpu c).proc = none) :
    ¬ Switched (tableBody s c k) c q x := by
  unfold tableBody
  split
  · rename_i inTable
    split
    · rename_i runnable
      obtain ⟨kstack, pgdir⟩ := loaded _ runnable
      rintro ⟨t, j, p, is, _, place⟩
      simp only [dispatch, if_neg kstack, if_neg pgdir] at is
      cases is
      simp at place
    · exact not_switched_at none
  · exact not_switched_release none

theorem mlqBody_turn_iff (loaded : Loaded s) (ranges : Ranges s) (none : (s.cpu c).proc = none) :
    (∀ q x, Switched (mlqBody s c i found) c q x → (s.proc x).state = .runnable ∧ (s.proc x).queueNumber = q) ↔
      ((s.queue (newQueue s c i)).size ≠ 0 →
        if IsRing (newQueue s c i) then RingTurn s (newQueue s c i)
        else PriorityTurn s (newQueue s c i) found) := by
  by_cases empty : (s.queue (newQueue s c i)).size = 0
  · refine iff_of_true (fun q x switched => ?_) (fun filled => absurd empty filled)
    rw [mlqBody, if_pos empty] at switched
    exact absurd switched (not_switched_at none)
  · simp only [ne_eq, empty, not_false_eq_true, true_imp_iff]
    by_cases isRing : IsRing (newQueue s c i)
    · simp only [switched_mlqBody_ring loaded none (ranges.fronts _) empty isRing, if_pos isRing, RingTurn]
      constructor
      · intro turn x stops runnable
        exact (turn _ x ⟨rfl, stops, runnable⟩).2
      · rintro turn q x ⟨rfl, stops, runnable⟩
        exact ⟨runnable, turn x stops runnable⟩
    · have isQueue := newQueue_priority ranges isRing
      simp only [switched_mlqBody_priority loaded none empty isRing, if_neg isRing, PriorityTurn]
      rw [← findPriority_inside_iff isQueue, ← findPriority_none_iff isQueue]
      constructor
      · intro turn
        refine ⟨fun x chosen => (turn _ x ⟨rfl, .inl chosen⟩).2, ?_⟩
        intro missing x stale runnable
        have own := (turn _ x ⟨rfl, .inr ⟨missing, stale, runnable⟩⟩).2
        exact (findPriority_none_iff isQueue).mp missing x ⟨runnable, own⟩
      · rintro ⟨inside, unset⟩ q x ⟨rfl, chosen | ⟨missing, stale, runnable⟩⟩
        · exact ⟨findPriority_runnable chosen, inside x chosen⟩
        · exact absurd runnable (unset missing x stale)

/-- A scheduler step runs only members of the queue whose turn it is exactly in
the states that `InTurn` describes. -/
theorem inTurn_iff (sound : Sound s) (ranges : Ranges s) :
    (∀ q x, SwitchesTo s c q x → (s.proc x).state = .runnable ∧ (s.proc x).queueNumber = q) ↔
      InTurn s c := by
  by_cases held : s.lock = .scheduler c
  · simp only [switchesTo_iff held, InTurn, held, true_imp_iff, schedulerStep]
    have back : ((s.swtchBack c).cpu c).proc = none := by simp [State.swtchBack]
    have loaded := sound.loaded
    cases place : (s.cpu c).scheduler with
    | idle => simp [Switched]
    | priority =>
      exact iff_of_true (fun q x switched => absurd switched (not_switched_release back)) trivial
    | mlq i found =>
      have none := (sound.cpus.head c (by rw [place]; trivial)).1
      by_cases more : i ≤ 4
      · simp only [more, true_imp_iff]
        exact mlqBody_turn_iff loaded ranges none
      · simp only [more, false_imp_iff, iff_true]
        exact fun q x switched => absurd switched (not_switched_release none)
    | mlqSelected i r found =>
      simp only [switched_mlqTail (s := s.swtchBack c) loaded back]
      constructor
      · intro turn x stale runnable
        exact (turn r x ⟨rfl, stale, runnable⟩).2
      · rintro turn q x ⟨rfl, stale, runnable⟩
        exact ⟨runnable, turn x stale runnable⟩
    | mlqRing i r found | tableRun k =>
      exact iff_of_true (fun q x switched => absurd switched (not_switched_at back)) trivial
    | table k =>
      have none := (sound.cpus.head c (by rw [place]; trivial)).1
      exact iff_of_true (fun q x switched => absurd switched (not_switched_table loaded none)) trivial
  · exact iff_of_true (fun q x switches => absurd switches (not_switchesTo held)) fun is => absurd is held

/-- In every state of every run whose `setqueue` arguments are queues, a CPU's
next scheduler step switches only to runnable members of the queue whose turn it
is if and only if the state is as `InTurn` says. -/
theorem mlq_runs_in_turn_iff {ticks : Ticks} {kstack pgdir : Nat} {actions : List Action}
    (arguments : Along step QueueArguments (userinit ticks kstack pgdir) actions)
    (ran : exec step (userinit ticks kstack pgdir) actions = some s) (c : CpuId) :
    (∀ q x, SwitchesTo s c q x → (s.proc x).state = .runnable ∧ (s.proc x).queueNumber = q) ↔
      InTurn s c := by
  have good : Sound s ∧ Ranges s := by
    refine exec_invariant (fun s => Sound s ∧ Ranges s)
      ⟨sound_userinit ticks kstack pgdir, ranges_userinit ticks kstack pgdir⟩ arguments ?_ ran
    intro before action after good arguments taken
    exact ⟨good.1.step taken, good.2.step good.1 arguments taken⟩
  exact inTurn_iff good.1 good.2

theorem switchesTo_of_step
    (taken : ((step s (.scheduler c)).map fun t => t.cpu c) = some ⟨some x, .mlqRing i q found⟩) :
    SwitchesTo s c q x := by
  obtain ⟨t, taken, seen⟩ := Option.map_eq_some_iff.mp taken
  exact ⟨t, i, found, taken, by rw [seen], .inr (by rw [seen])⟩

def ringReached : List Action :=
  [.pass 0, .scheduler 0, .scheduler 0, .scheduler 0]

theorem mlq_runs_in_turn_iff_init : ∃ s, exec step (userinit 0 1 2) ringReached = some s ∧
    SwitchesTo s 0 QUEUE_DEFAULT 0 ∧
    ((∀ q x, SwitchesTo s 0 q x → (s.proc x).state = .runnable ∧ (s.proc x).queueNumber = q) ↔
      InTurn s 0) := by
  have arguments : Along step QueueArguments (userinit 0 1 2) ringReached := by decide +kernel
  have observed : ((exec step (userinit 0 1 2) ringReached).map fun s =>
      (step s (.scheduler 0)).map fun t => t.cpu 0) =
      some (some ⟨some 0, .mlqRing 4 QUEUE_DEFAULT (some 0)⟩) := by decide +kernel
  obtain ⟨s, ran, seen⟩ := Option.map_eq_some_iff.mp observed
  exact ⟨s, ran, switchesTo_of_step seen, mlq_runs_in_turn_iff arguments ran 0⟩

def movedButKept : List Action :=
  firstDispatch ++ [.setqueue 1 3, .yield 0, .scheduler 0, .scheduler 0, .pass 0]

theorem mlq_runs_out_of_turn : ∃ s, exec step (userinit 0 1 2) movedButKept = some s ∧
    SwitchesTo s 0 QUEUE_DEFAULT 0 ∧ (s.proc 0).queueNumber ≠ QUEUE_DEFAULT := by
  have observed : ((exec step (userinit 0 1 2) movedButKept).map fun s =>
      ((s.proc 0).queueNumber, (step s (.scheduler 0)).map fun t => t.cpu 0)) =
      some (QUEUE_PRIORITY_RR, some ⟨some 0, .mlqRing 1 QUEUE_DEFAULT (some 0)⟩) := by decide +kernel
  obtain ⟨s, ran, seen⟩ := Option.map_eq_some_iff.mp observed
  obtain ⟨number, switch⟩ := Prod.mk.inj seen
  exact ⟨s, ran, switchesTo_of_step switch, by rw [number]; decide⟩

end Xv6.Process
