import Xv6.Process.Turns

namespace Xv6.Process

open Xv6.Data

/-! # Each slot once in a ring

Nothing takes a slot out of a ring but the pop loop, and `allocproc` and `setqueue` push
without looking whether the slot is in the ring already.
-/

variable {s t : State} {a : Action} {c : CpuId} {x : Slot} {ring ring' : Queue} {q : Int}

def PushesNew (s : State) (a : Action) : Prop :=
  match s.pushes a with
  | some (q, slots) => IsRing q → ∀ x ∈ slots, some x ∉ (s.queue q).window NPROC
  | none => True

local instance : LawfulBEq Slot := inferInstance

instance : Decidable (PushesNew s a) := by
  unfold PushesNew
  split <;> infer_instance

def OnceInRings (s : State) : Prop :=
  ∀ q, IsRing q → (s.queue q).size ≤ NPROC ∧ ((s.queue q).window NPROC).Nodup

structure Filled (s : State) : Prop where
  aligned : ∀ q, IsRing q → (s.queue q).Aligned NPROC
  entries : ∀ q, IsRing q → ∀ entry ∈ (s.queue q).window NPROC, entry ≠ none

theorem popLoop_filled {found found' : Option Slot} (aligned : ring.Aligned NPROC)
    (run : popLoop s ring.size ring found = some (ring', found')) :
    ring'.Aligned NPROC ∧ ∀ entry ∈ ring'.window NPROC, entry ∈ ring.window NPROC := by
  refine popLoop_keeps (fun now => now.Aligned NPROC ∧ ∀ entry ∈ now.window NPROC, entry ∈ ring.window NPROC) run
    ⟨aligned, fun _ => id⟩ ?_ ?_
  · rintro now y positive - - ⟨aligned, within⟩
    exact ⟨aligned.drop positive, fun entry member => within entry (CircularBuffer.mem_of_mem_drop positive member)⟩
  · rintro now positive ⟨aligned, within⟩
    exact ⟨aligned.rotate, fun entry member => within entry (CircularBuffer.mem_of_mem_rotate aligned positive member)⟩

theorem mem_of_mem_pushAll {slots : List Slot} {entry : Option Slot} (aligned : ring.Aligned NPROC)
    (member : entry ∈ (ring.pushAll NPROC (slots.map some)).window NPROC) :
    entry ∈ slots.map some ∨ entry ∈ ring.window NPROC := by
  induction slots generalizing ring with
  | nil => exact .inr member
  | cons slot rest ih =>
    rw [List.map_cons, CircularBuffer.pushAll_cons] at member
    rcases ih aligned.push member with later | earlier
    · exact .inl (List.mem_cons_of_mem _ later)
    · rcases CircularBuffer.mem_of_mem_push aligned earlier with pushed | before
      · exact .inl (pushed ▸ List.mem_cons_self)
      · exact .inr before

theorem QueueChange.on_ring {queue : Int → Queue} (change : QueueChange s a queue) {r : Int} (isRing : IsRing r) :
    queue r = s.queue r ∨
      (∃ p p', popLoop s (s.queue r).size (s.queue r) p = some (queue r, p')) ∨
      ∃ slots, s.pushes a = some (r, slots) ∧ slots.Nodup ∧
        queue r = (s.queue r).pushAll NPROC (slots.map some) := by
  cases change with
  | turned turned quiet =>
    cases turned with
    | same => exact .inl rfl
    | @popped q p p' ring isRing' run =>
      by_cases same : r = q
      · subst same
        exact .inr (.inl ⟨p, p', by rw [Function.update_self]; exact run⟩)
      · exact .inl (Function.update_of_ne same _ _)
  | counted raised quiet counts =>
    have other : r ≠ QUEUE_PRIORITY := by
      rintro rfl
      exact absurd isRing (by decide)
    exact .inl (by rw [counts]; exact Function.update_of_ne other _ _)
  | @pushed q slots pushes distinct filled =>
    by_cases same : r = q
    · subst same
      exact .inr (.inr ⟨slots, pushes, distinct, by rw [filled, Function.update_self]⟩)
    · exact .inl (by rw [filled, Function.update_of_ne same])

theorem Filled.step (good : Filled s) (sound : Sound s) (taken : step s a = some t) : Filled t := by
  have ring (r : Int) (isRing : IsRing r) : (t.queue r).Aligned NPROC ∧
      ∀ entry ∈ (t.queue r).window NPROC, entry ≠ none := by
    have aligned := good.aligned r isRing
    have entries := good.entries r isRing
    rcases (queueChange_of_step sound taken).on_ring isRing with
      same | ⟨p, p', run⟩ | ⟨slots, _, _, pushed⟩
    · rw [same]
      exact ⟨aligned, entries⟩
    · obtain ⟨aligned', within⟩ := popLoop_filled aligned run
      exact ⟨aligned', fun entry member => entries entry (within entry member)⟩
    · rw [pushed]
      refine ⟨aligned.pushAll, fun entry member => ?_⟩
      rcases mem_of_mem_pushAll aligned member with new | old
      · obtain ⟨slot, _, rfl⟩ := List.mem_map.mp new
        simp
      · exact entries entry old
  exact ⟨fun r isRing => (ring r isRing).1, fun r isRing => (ring r isRing).2⟩

theorem length_le_of_filled {entries : List (Option Slot)} (distinct : entries.Nodup)
    (filled : ∀ entry ∈ entries, entry ≠ none) : entries.length ≤ NPROC := by
  have within : entries.toFinset ⊆ Finset.univ.erase none := by
    intro entry member
    exact Finset.mem_erase.mpr ⟨filled entry (List.mem_toFinset.mp member), Finset.mem_univ entry⟩
  calc entries.length = entries.toFinset.card := (List.toFinset_card_of_nodup distinct).symm
    _ ≤ ((Finset.univ : Finset (Option Slot)).erase none).card := Finset.card_le_card within
    _ = NPROC := by simp

theorem once_pushAll_iff {slots : List Slot} (aligned : ring.Aligned NPROC) (fits : ring.size ≤ NPROC)
    (filled : ∀ entry ∈ ring.window NPROC, entry ≠ none) (distinct : (ring.window NPROC).Nodup)
    (slotsDistinct : slots.Nodup) : (ring.pushAll NPROC (slots.map some)).size ≤ NPROC ∧
        ((ring.pushAll NPROC (slots.map some)).window NPROC).Nodup ↔
      ∀ x ∈ slots, some x ∉ ring.window NPROC := by
  have length : (ring.window NPROC).length = ring.size := by
    rw [CircularBuffer.length_window]
    omega
  have pushedDistinct : (slots.map some).Nodup := slotsDistinct.map (Option.some_injective _)
  rw [CircularBuffer.size_pushAll, List.length_map]
  constructor
  · rintro ⟨room, once⟩ x member present
    rw [CircularBuffer.window_pushAll aligned (by rwa [List.length_map])] at once
    exact (List.nodup_append.mp once).2.2 _ present _ (List.mem_map_of_mem member) rfl
  · intro fresh
    have once : (ring.window NPROC ++ slots.map some).Nodup := by
      refine List.nodup_append.mpr ⟨distinct, pushedDistinct, ?_⟩
      rintro entry present _ pushed rfl
      obtain ⟨x, member, rfl⟩ := List.mem_map.mp pushed
      exact fresh x member present
    have room : ring.size + slots.length ≤ NPROC := by
      have bound := length_le_of_filled once (by
        intro entry member
        rcases List.mem_append.mp member with old | new
        · exact filled entry old
        · obtain ⟨x, _, rfl⟩ := List.mem_map.mp new
          simp)
      rwa [List.length_append, length, List.length_map] at bound
    rw [CircularBuffer.window_pushAll aligned (by rwa [List.length_map])]
    exact ⟨room, once⟩

theorem popLoop_once {found found' : Option Slot} (aligned : ring.Aligned NPROC) (fits : ring.size ≤ NPROC)
    (distinct : (ring.window NPROC).Nodup) (run : popLoop s ring.size ring found = some (ring', found')) :
    ring'.size ≤ NPROC ∧ (ring'.window NPROC).Nodup := by
  refine (popLoop_keeps (fun now => now.Aligned NPROC ∧ now.size ≤ NPROC ∧ (now.window NPROC).Nodup) run
    ⟨aligned, fits, distinct⟩ ?_ ?_).2
  · rintro now y positive - - ⟨aligned, fits, distinct⟩
    rw [CircularBuffer.window_drop aligned positive fits] at distinct
    exact ⟨aligned.drop positive, (Nat.sub_le ..).trans fits, (List.nodup_cons.mp distinct).2⟩
  · rintro now positive ⟨aligned, fits, distinct⟩
    rw [CircularBuffer.window_drop aligned positive fits] at distinct
    refine ⟨aligned.rotate, fits, ?_⟩
    rw [CircularBuffer.window_rotate aligned positive fits]
    exact (List.perm_append_singleton _ _).nodup_iff.mpr distinct

theorem OnceInRings.step_iff (once : OnceInRings s) (filled : Filled s) (sound : Sound s)
    (taken : step s a = some t) : OnceInRings t ↔ PushesNew s a := by
  have change := queueChange_of_step sound taken
  constructor
  · intro after
    unfold PushesNew
    split
    · rename_i q slots pushes
      intro isRing
      obtain ⟨fits, distinct⟩ := once q isRing
      have pushed : slots.Nodup ∧ t.queue q = (s.queue q).pushAll NPROC (slots.map some) := by
        cases change with
        | turned turned quiet | counted raised quiet counts =>
          exact absurd (quiet.symm.trans pushes) (by simp)
        | pushed pushes' slotsDistinct queues =>
          obtain ⟨rfl, rfl⟩ := Prod.mk.inj (Option.some.inj (pushes'.symm.trans pushes))
          exact ⟨slotsDistinct, by rw [queues, Function.update_self]⟩
      have both := after q isRing
      rw [pushed.2] at both
      exact (once_pushAll_iff (filled.aligned q isRing) fits (filled.entries q isRing) distinct pushed.1).mp both
    · trivial
  · intro fresh r isRing
    obtain ⟨fits, distinct⟩ := once r isRing
    have aligned := filled.aligned r isRing
    rcases change.on_ring isRing with same | ⟨p, p', run⟩ | ⟨slots, pushes, slotsDistinct, pushed⟩
    · rw [same]
      exact ⟨fits, distinct⟩
    · exact popLoop_once aligned fits distinct run
    · rw [PushesNew, pushes] at fresh
      rw [pushed]
      exact (once_pushAll_iff aligned fits (filled.entries r isRing) distinct slotsDistinct).mpr (fresh isRing)

theorem userinit_window (ticks : Ticks) (kstack pgdir : Nat) {r : Int} (isRing : IsRing r) :
    ((userinit ticks kstack pgdir).queue r).Aligned NPROC ∧
      ((userinit ticks kstack pgdir).queue r).size ≤ NPROC ∧
      ((userinit ticks kstack pgdir).queue r).window NPROC = if r = QUEUE_DEFAULT then [some 0] else [] := by
  refine ⟨(rings_userinit ticks kstack pgdir).aligned r isRing,
    (sized_userinit ticks kstack pgdir capacity_pos).fits isRing, ?_⟩
  rw [userinit_queue]
  split <;> rfl

theorem filled_userinit (ticks : Ticks) (kstack pgdir : Nat) : Filled (userinit ticks kstack pgdir) where
  aligned r isRing := (userinit_window ticks kstack pgdir isRing).1
  entries r isRing entry member := by
    rw [(userinit_window ticks kstack pgdir isRing).2.2] at member
    split at member
    · rw [List.mem_singleton.mp member]
      simp
    · contradiction

theorem onceInRings_userinit (ticks : Ticks) (kstack pgdir : Nat) :
    OnceInRings (userinit ticks kstack pgdir) := by
  intro r isRing
  obtain ⟨_, fits, window⟩ := userinit_window ticks kstack pgdir isRing
  refine ⟨fits, ?_⟩
  rw [window]
  split <;> simp

/-- All along a run whose `setqueue` arguments are queues, both rings hold at
most 64 entries and no slot twice if and only if every call of the run pushes
only slots that are not in the ring. -/
theorem rings_hold_slots_once_iff {ticks : Ticks} {kstack pgdir : Nat} {actions : List Action}
    (arguments : Along step QueueArguments (userinit ticks kstack pgdir) actions)
    (ran : exec step (userinit ticks kstack pgdir) actions = some s) :
    Along step PushesNew (userinit ticks kstack pgdir) actions ↔
      ∀ first rest middle, actions = first ++ rest →
        exec step (userinit ticks kstack pgdir) first = some middle → OnceInRings middle := by
  refine along_iff_always (fun s => Sound s ∧ Filled s) OnceInRings
    ⟨sound_userinit ticks kstack pgdir, filled_userinit ticks kstack pgdir⟩
    (onceInRings_userinit ticks kstack pgdir) arguments ?_ ?_ ran
  · intro before action after good _ taken
    exact ⟨good.1.step taken, good.2.step good.1 taken⟩
  · intro before action after good _ once taken
    exact once.step_iff good.2 good.1 taken

def forkAndShare : List Action := firstDispatch ++ forkChild ++ [.setqueue 2 3]

theorem rings_hold_slots_once_child_moved : ∃ s, exec step (userinit 0 1 2) forkAndShare = some s ∧
    (s.queue QUEUE_DEFAULT).window NPROC = [some 0, some 1] ∧
    (s.queue QUEUE_PRIORITY_RR).window NPROC = [some 1] ∧ OnceInRings s := by
  have arguments : Along step QueueArguments (userinit 0 1 2) forkAndShare := by decide +kernel
  have fresh : Along step PushesNew (userinit 0 1 2) forkAndShare := by decide +kernel
  have observed : ((exec step (userinit 0 1 2) forkAndShare).map fun s =>
      ((s.queue QUEUE_DEFAULT).window NPROC, (s.queue QUEUE_PRIORITY_RR).window NPROC)) =
      some ([some 0, some 1], [some 1]) := by decide +kernel
  obtain ⟨s, ran, seen⟩ := Option.map_eq_some_iff.mp observed
  obtain ⟨first, second⟩ := Prod.mk.inj seen
  exact ⟨s, ran, first, second,
    (rings_hold_slots_once_iff arguments ran).mp fresh forkAndShare [] s (by simp) ran⟩

def pushedTwice : List Action := firstDispatch ++ [.setqueue 1 0]

theorem ring_holds_init_twice : ∃ s, exec step (userinit 0 1 2) pushedTwice = some s ∧
    (s.queue QUEUE_DEFAULT).window NPROC = [some 0, some 0] ∧ ¬ OnceInRings s := by
  have observed : ((exec step (userinit 0 1 2) pushedTwice).map fun s =>
      (s.queue QUEUE_DEFAULT).window NPROC) = some [some 0, some 0] := by decide +kernel
  obtain ⟨s, ran, seen⟩ := Option.map_eq_some_iff.mp observed
  refine ⟨s, ran, seen, fun once => ?_⟩
  have distinct := (once QUEUE_DEFAULT (.inl rfl)).2
  rw [seen] at distinct
  exact absurd distinct (by decide)

inductive Popping where
  | null
  | running
  | ended (ring : Queue) (p : Option Slot)

/-- The pop loop up to the given number of rounds; it looks at the `size` of the ring. -/
def popRounds (s : State) : Nat → Queue → Option Slot → Popping
  | 0, ring, p => if ring.size = 0 then .ended ring p else .running
  | rounds + 1, ring, p =>
    if ring.size = 0 then .ended ring p
    else
      match ring.head with
      | none => .null
      | some x =>
        if (s.proc x).leavesRings then popRounds s rounds (ring.drop NPROC) (some x)
        else .ended (ring.rotate NPROC) (some x)

theorem popRounds_ends {size : Nat} (aligned : ring.Aligned NPROC) (counted : ring.size = size)
    (entries : ∀ entry ∈ ring.window NPROC, entry ≠ none) (p : Option Slot) :
    ∃ after p', popLoop s size ring p = some (after, p') ∧ popRounds s size ring p = .ended after p' := by
  induction size generalizing ring p with
  | zero => exact ⟨ring, p, rfl, if_pos counted⟩
  | succ size rest =>
    have positive : 0 < ring.size := by omega
    cases front : ring.head with
    | none => exact absurd front (entries _ (CircularBuffer.head_mem_window aligned positive))
    | some x =>
      simp only [popLoop, popRounds, front, positive.ne', ↓reduceIte]
      split
      · apply rest (aligned.drop positive)
        · rw [CircularBuffer.size_drop]
          omega
        · exact fun entry member => entries entry (CircularBuffer.mem_of_mem_drop positive member)
      · exact ⟨_, _, rfl, rfl⟩

/-- After every run in which no `size` passes the largest `int`, the indexes of both rings
fit their sizes, what they count are slots of the table, and the pop loop ends after at most
as many rounds without meeting a null pointer. -/
theorem pops_well_defined {ticks : Ticks} {kstack pgdir : Nat} {actions : List Action}
    (within : Along step (Within fun _ => MAXINT) (userinit ticks kstack pgdir) actions)
    (ran : exec step (userinit ticks kstack pgdir) actions = some s) (isRing : IsRing q) :
    (s.queue q).size ≤ MAXINT ∧ (s.queue q).front < NPROC ∧ (s.queue q).rear < NPROC ∧
      (NPROC : Int) ∣ (s.queue q).rear - (s.queue q).front + 1 - (s.queue q).size ∧
      (∀ k < min (s.queue q).size NPROC,
        ∃ x : Slot, (s.queue q).array (((s.queue q).front + k) % NPROC) = some x) ∧
      ∀ p, ∃ after p', popLoop s (s.queue q).size (s.queue q) p = some (after, p') ∧
        popRounds s (s.queue q).size (s.queue q) p = .ended after p' := by
  have good : Sound s ∧ Filled s ∧ Sized (fun _ => MAXINT) s := by
    refine exec_invariant (fun s => Sound s ∧ Filled s ∧ Sized (fun _ => MAXINT) s)
      ⟨sound_userinit ticks kstack pgdir, filled_userinit ticks kstack pgdir,
        sized_userinit ticks kstack pgdir fun _ => by decide⟩ within ?_ ran
    intro before action after good within taken
    exact ⟨good.1.step taken, good.2.1.step good.1 taken, good.2.2.step good.1 within taken⟩
  have aligned := good.2.1.aligned q isRing
  have entries := good.2.1.entries q isRing
  refine ⟨good.2.2 q, aligned.front_lt, aligned.rear_lt, ?_, ?_, popRounds_ends aligned rfl entries⟩
  · have behind : ((s.queue q).rear + 1) % 64 = ((s.queue q).front + (s.queue q).size) % 64 := aligned.behind
    change (64 : Int) ∣ _
    omega
  · intro k counted
    exact Option.ne_none_iff_exists'.mp (entries _ (CircularBuffer.mem_window.mpr ⟨k, counted, rfl⟩))

theorem pops_well_defined_pushed_twice : ∃ s, exec step (userinit 0 1 2) pushedTwice = some s ∧
    (s.queue QUEUE_DEFAULT).size = 2 ∧ ∀ p, ∃ after p',
      popLoop s (s.queue QUEUE_DEFAULT).size (s.queue QUEUE_DEFAULT) p = some (after, p') ∧
        popRounds s (s.queue QUEUE_DEFAULT).size (s.queue QUEUE_DEFAULT) p = .ended after p' := by
  have observed : ((exec step (userinit 0 1 2) pushedTwice).map fun s => (s.queue QUEUE_DEFAULT).size) = some 2 := by
    decide +kernel
  obtain ⟨s, ran, seen⟩ := Option.map_eq_some_iff.mp observed
  have within : Along step (Within fun _ => MAXINT) (userinit 0 1 2) pushedTwice := by decide +kernel
  obtain ⟨_, _, _, _, _, ends⟩ := pops_well_defined within ran (.inl rfl)
  exact ⟨s, ran, seen, ends⟩

/-- `setqueue` counts every slot with the pid again in each call. -/
theorem exec_setqueue (pid : Int) (free : s.lock = .free) (n : Nat) :
    ∃ t, exec step s (List.replicate n (.setqueue pid q)) = some t ∧
      (t.queue q).size = (s.queue q).size + n * (s.named pid).length := by
  induction n generalizing s with
  | zero => exact ⟨s, rfl, by simp⟩
  | succ n ih =>
    let next := (List.finRange NPROC).foldl (setqueueStep pid q) s
    have is : next = _ := foldl_setqueueStep _ (List.nodup_finRange NPROC) s
    have taken : step s (.setqueue pid q) = some next := by simp [step, act, locked, free, setqueue, next]
    have named : next.named pid = s.named pid := by
      apply List.filter_congr
      intro x _
      rw [is]
      dsimp only
      split <;> rfl
    have size : (next.queue q).size = (s.queue q).size + (s.named pid).length := by
      simp [next, setqueue_queue, CircularBuffer.size_pushAll]
    obtain ⟨t, ran, counted⟩ := ih (s := next) (by rw [is]; exact free)
    refine ⟨t, by simp [List.replicate_succ, exec, taken, ran], ?_⟩
    rw [counted, size, named]
    ring

def manyCalls : List Action := firstDispatch ++ List.replicate 34087043 (.setqueue 0 QUEUE_PRIORITY_RR)

/-- Each call counts the 63 unused slots; then the `int` is negative, and the pop loop does not end at once. -/
theorem ring_size_overflows : ∃ s, exec step (userinit 0 1 2) manyCalls = some s ∧
    (BitVec.ofNat 32 (s.queue QUEUE_PRIORITY_RR).size).toInt < 0 ∧
      ∀ p, popRounds s 0 (s.queue QUEUE_PRIORITY_RR) p = .running := by
  have observed : ((exec step (userinit 0 1 2) firstDispatch).map fun s =>
      (s.lock, (s.queue QUEUE_PRIORITY_RR).size, (s.named 0).length)) = some (.free, 0, 63) := by decide +kernel
  obtain ⟨s, ran, seen⟩ := Option.map_eq_some_iff.mp observed
  simp only [Prod.mk.injEq] at seen
  obtain ⟨free, empty, named⟩ := seen
  obtain ⟨t, calls, size⟩ := exec_setqueue (q := QUEUE_PRIORITY_RR) 0 free 34087043
  rw [empty, named] at size
  refine ⟨t, exec_append.mpr ⟨s, ran, calls⟩, ?_, ?_⟩
  · rw [size]
    decide
  · intro p
    rw [popRounds, if_neg (by omega)]

end Xv6.Process
