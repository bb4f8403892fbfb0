import Xv6.Log.Operations

namespace Xv6.Log

open Xv6.Data Xv6.Disk
open Function (update update_self update_of_ne)

/-! # Group commit

The processes inside operations share one transaction, which commits when the last of
them leaves.
-/

variable {g : Geometry} {s t : State} {a : Action} {p : Nat}

def powerUp (disk : BlockNo → Block) : State :=
  { disk, cache := fun _ => none, lh := [], outstanding := 0, committing := false,
    ops := fun _ => .outside, control := .down }

structure Group (s : State) : Prop where
  operations : Operations s
  committing : s.committing = true → s.control ≠ .idle ∧ s.control.up = true
  emptied : s.control = .idle ∧ s.outstanding = 0 ∨ (∃ p, s.control = .finish p) → s.lh = []
  waiting : ∀ p, s.ops p = .asleep → s.committing = true ∨ 0 < s.outstanding

theorem Group.powerUp (disk : BlockNo → Block) : Group (powerUp disk) where
  operations := ⟨⟨∅, by simp [Log.powerUp], rfl⟩, fun _ => rfl, by simp [Log.powerUp, Control.up]⟩
  committing := by simp [Log.powerUp]
  emptied := fun _ => rfl
  waiting := by simp [Log.powerUp]

theorem Operations.inside_pos (operations : Operations s) (inside : s.ops p = .inside) : 0 < s.outstanding := by
  obtain ⟨set, member, card⟩ := operations.counted
  have positive := Finset.card_pos.mpr ⟨p, (member p).mpr inside⟩
  omega

theorem Group.quiet (group : Group s) (inside : s.ops p = .inside) : s.committing = false := by
  cases flag : s.committing with
  | false => rfl
  | true => exact absurd (group.operations.idle inside) (group.committing flag).1

theorem wakeup_asleep : (wakeup s).ops p ≠ .asleep := by
  by_cases asleep : s.ops p = .asleep <;> simp [wakeup, asleep]

theorem Group.refetched (group : Group s) (same : Refetched s t) : Group t where
  operations := group.operations.refetched same
  committing := by
    rw [same.committing, same.control]
    exact group.committing
  emptied := by
    rw [same.control, same.outstanding, same.lh]
    exact group.emptied
  waiting := by
    rw [same.ops, same.committing, same.outstanding]
    exact group.waiting

theorem Group.working (group : Group s) (operations : Operations t) (ops : t.ops = s.ops)
    (outstanding : t.outstanding = s.outstanding) (committing : t.committing = s.committing)
    (emptied : (∃ p, t.control = .finish p) ∨ t.control = .idle → t.lh = [])
    (busy : s.committing = true → t.control ≠ .idle ∧ t.control.up = true) : Group t where
  operations := operations
  committing := by
    rw [committing]
    exact busy
  emptied := by
    rintro (⟨idle, -⟩ | finishing)
    · exact emptied (.inr idle)
    · exact emptied (.inl finishing)
  waiting := by
    rw [ops, outstanding, committing]
    exact group.waiting

theorem Group.advance (group : Group s) (moves : Advance g s t) : Group t := by
  have operations := group.operations.advance moves
  cases moves with
  | @copy p tail b at_ listed =>
    have written := writeLogRound_written g s tail b
    exact group.working operations written.ops written.outstanding written.committing (by simp)
      (fun _ => ⟨by simp, rfl⟩)
  | copied at_ done => exact group.working operations rfl rfl rfl (by simp) (fun _ => ⟨by simp, rfl⟩)
  | head at_ =>
    have written := writeHead_written g s
    exact group.working operations written.ops written.outstanding written.committing (by simp)
      (fun _ => ⟨by simp, rfl⟩)
  | @install p tail b at_ listed =>
    have written := installRound_written g s tail b
    refine group.working operations written.ops written.outstanding written.committing (by simp) ?_
    intro flag
    have up := (group.committing flag).2
    cases p with
    | none => simp [at_, Control.up] at up
    | some p => exact ⟨by simp, rfl⟩
  | @installed p tail at_ done =>
    refine group.working operations rfl rfl rfl (by simp) ?_
    intro flag
    have up := (group.committing flag).2
    cases p with
    | none => simp [at_, Control.up] at up
    | some p => exact ⟨by simp, rfl⟩
  | @clear p at_ =>
    have written := writeHead_written g { s with lh := [] }
    refine group.working operations written.ops written.outstanding written.committing (fun _ => written.lh) ?_
    intro flag
    have up := (group.committing flag).2
    cases p with
    | none => simp [at_, Control.up] at up
    | some p => exact ⟨by simp [Control.cleared], rfl⟩
  | @finish p at_ =>
    refine ⟨operations, by simp [wakeup], fun _ => group.emptied (.inr ⟨p, at_⟩), ?_⟩
    intro q asleep
    exact absurd asleep wakeup_asleep

/-- A process goes to sleep only while it can be woken. -/
theorem Group.full (group : Group s) (up : s.control.up = true)
    (full : s.committing = true ∨ s.lh.length + (s.outstanding + 1) * MAXOPBLOCKS > LOGSIZE) :
    s.committing = true ∨ 0 < s.outstanding := by
  by_contra free
  simp only [not_or, Bool.not_eq_true, not_lt] at free
  obtain ⟨set, -, card⟩ := group.operations.counted
  have none : s.outstanding = 0 := by omega
  have empty := group.emptied (.inl ⟨group.operations.flag up free.1, none⟩)
  rcases full with flag | large
  · simp [free.1] at flag
  · have limit : LOGSIZE = 30 := rfl
    have each : MAXOPBLOCKS = 10 := rfl
    simp [none, empty, limit, each] at large

theorem Group.step (group : Group s) (taken : step g s a = some t) : Group t := by
  have operations := group.operations.step taken
  cases step_effect taken with
  | @waits p up entering full =>
    refine ⟨operations, group.committing, group.emptied, ?_⟩
    intro q asleep
    exact group.full up full
  | @begins p up entering quiet room =>
    have idle := group.operations.flag up quiet
    obtain ⟨set, -, card⟩ := group.operations.counted
    refine ⟨operations, group.committing, ?_, fun q asleep => .inr (by dsimp only; omega)⟩
    rintro (⟨-, none⟩ | ⟨q, finishing⟩)
    · dsimp only at none
      omega
    · simp [idle] at finishing
  | @commits p inside quiet last =>
    refine ⟨operations, ?_, ?_, fun _ _ => .inl rfl⟩
    · intro _
      dsimp only
      split <;> exact ⟨by simp, rfl⟩
    · dsimp only
      split
      · simp
      · next empty => exact fun _ => List.length_eq_zero_iff.mp (by omega)
  | @ends p inside quiet others =>
    have idle := group.operations.idle inside
    have positive := group.operations.inside_pos inside
    refine ⟨operations, group.committing, ?_, fun q asleep => absurd asleep wakeup_asleep⟩
    rintro (⟨-, none⟩ | ⟨q, finishing⟩)
    · simp only [wakeup] at none
      omega
    · simp [wakeup, idle] at finishing
  | @logs p b data inside room area open_ =>
    have idle := group.operations.idle inside
    refine ⟨operations, group.committing, ?_, group.waiting⟩
    rintro (⟨-, none⟩ | ⟨q, finishing⟩)
    · dsimp only at none
      omega
    · simp [idle] at finishing
  | reads alive => exact group.refetched bread_refetched
  | evicts clean => exact group.refetched (evict_refetched clean)
  | advances moves => exact group.advance moves
  | crashes alive => exact ⟨operations, by simp [crash], fun _ => rfl, by simp [crash]⟩
  | boots dead head =>
    have fetched : Refetched s (bread s g.start).2 := bread_refetched
    have quiet : s.committing = false := by
      cases flag : s.committing with
      | false => rfl
      | true =>
        have up := (group.committing flag).2
        simp [dead, Control.up] at up
    refine ⟨operations, by simp [fetched.committing, quiet], by simp, ?_⟩
    dsimp only
    rw [fetched.ops, fetched.committing, fetched.outstanding]
    exact group.waiting

theorem run_group {disk : BlockNo → Block} {actions : List Action}
    (ran : exec (step g) (powerUp disk) actions = some s) : Group s :=
  exec_invariant_all Group (.powerUp disk) (fun _ _ _ group taken => group.step taken) ran

theorem Group.no_panic (group : Group s) (a : Action) :
    act g s a ≠ .panic .logCommitting ∧ act g s a ≠ .panic .outsideOfTrans := by
  constructor
  · intro stopped
    cases act_panics stopped with
    | committing inside busy => simp [group.quiet inside] at busy
  · intro stopped
    cases act_panics stopped with
    | outside inside nobody =>
      have positive := group.operations.inside_pos inside
      omega

/-- While a commit runs no operation is in progress, the counter counts the
operations in progress, the two panics are not reached, and a process that sleeps
in `begin_op` has somebody to wake it. -/
theorem group_commit_isolates {disk : BlockNo → Block} {actions : List Action}
    (ran : exec (step g) (powerUp disk) actions = some s) :
    (s.committing = true → s.outstanding = 0 ∧ ∀ p, s.ops p ≠ .inside) ∧
      (∀ a, act g s a ≠ .panic .logCommitting ∧ act g s a ≠ .panic .outsideOfTrans) ∧
      ({p | s.ops p = .inside}.Finite ∧ ({p | s.ops p = .inside}.ncard : Int) = s.outstanding) ∧
      ∀ p, s.ops p = .asleep → s.committing = true ∨ 0 < s.outstanding := by
  have group := run_group ran
  refine ⟨?_, group.no_panic, ?_, group.waiting⟩
  · intro flag
    refine ⟨group.operations.busy (group.committing flag).1, ?_⟩
    intro p inside
    simp [group.quiet inside] at flag
  · obtain ⟨inside, member, card⟩ := group.operations.counted
    have same : {p | s.ops p = .inside} = (inside : Set Nat) := Set.ext fun p => (member p).symm
    rw [same, Set.ncard_coe_finset]
    exact ⟨inside.finite_toSet, card⟩

def fourBegin : List Action :=
  [.boot, .advance, .advance, .beginOp 0, .beginOp 1, .beginOp 2, .beginOp 3]

theorem group_commit_isolates_waiter : ∃ s, exec (step imageLog) (powerUp fun _ => .zero) fourBegin = some s ∧
    s.ops 3 = .asleep ∧ (s.committing = true ∨ 0 < s.outstanding) := by
  have reached : (exec (step imageLog) (powerUp fun _ => .zero) fourBegin).map (fun s => s.ops 3) =
      some .asleep := by decide +kernel
  obtain ⟨s, ran, asleep⟩ := Option.map_eq_some_iff.mp reached
  exact ⟨s, ran, asleep, (group_commit_isolates ran).2.2.2 3 asleep⟩

/-- The distinct blocks that each process has logged in its operation so far. -/
abbrev Record := Nat → Finset BlockNo

def Record.after (logged : Record) : Action → Record
  | .logWrite p b _ => Function.update logged p (insert b (logged p))
  | .endOp p => Function.update logged p ∅
  | .crash => fun _ => ∅
  | _ => logged

def recordedStep (g : Geometry) (s : State × Record) (a : Action) : Option (State × Record) :=
  (step g s.1 a).map fun t => (t, s.2.after a)

def Frugal (limit : Nat) (s : State × Record) : Action → Prop
  | .logWrite p b _ => (insert b (s.2 p)).card ≤ limit
  | _ => True

instance decidableFrugal (limit : Nat) (s : State × Record) : ∀ a, Decidable (Frugal limit s a)
  | .logWrite p b _ => inferInstanceAs (Decidable ((insert b (s.2 p)).card ≤ limit))
  | .beginOp _ | .endOp _ | .read _ | .evict _ | .advance | .crash | .boot => isTrue trivial

theorem recordedStep_some {before after : State × Record} (taken : recordedStep g before a = some after) :
    step g before.1 a = some after.1 ∧ after.2 = before.2.after a := by
  obtain ⟨t, moved, rfl⟩ := Option.map_eq_some_iff.mp taken
  exact ⟨moved, rfl⟩

theorem Operations.nobody (operations : Operations s) (working : s.control ≠ .idle) (p : Nat) :
    s.ops p ≠ .inside := fun inside => working (operations.idle inside)

/-- With one block fewer than its reservation to each operation, the log keeps two
blocks free. -/
structure Reserved (s : State) (logged : Record) : Prop where
  group : Group s
  ended : ∀ p, s.ops p ≠ .inside → logged p = ∅
  listed : ∀ p b, b ∈ logged p → b ∈ s.lh
  room : ∀ inside : Finset Nat, (∀ p, p ∈ inside ↔ s.ops p = .inside) → inside.Nonempty →
    s.lh.length + ∑ p ∈ inside, (MAXOPBLOCKS - 1 - (logged p).card) ≤ LOGSIZE - 2

variable {logged : Record}

theorem Reserved.of_nobody (group : Group s) (nobody : ∀ p, s.ops p ≠ .inside)
    (ended : ∀ p, logged p = ∅) : Reserved s logged where
  group := group
  ended p _ := ended p
  listed p b member := by simp [ended p] at member
  room inside member nonempty := by
    obtain ⟨p, isInside⟩ := nonempty
    exact absurd ((member p).mp isInside) (nobody p)

section

variable (reserved : Reserved s logged)
include reserved

theorem Reserved.same (group : Group t)
    (ops : ∀ p, t.ops p = .inside ↔ s.ops p = .inside) (lh : t.lh = s.lh) : Reserved t logged where
  group := group
  ended p outside := reserved.ended p (mt (ops p).mpr outside)
  listed p b member := lh ▸ reserved.listed p b member
  room inside member := lh ▸ reserved.room inside fun p => (member p).trans (ops p)

theorem Reserved.begins (up : s.control.up = true)
    (group : Group { s with outstanding := s.outstanding + 1, ops := update s.ops p .inside })
    (entering : s.ops p = .outside ∨ s.ops p = .woken) (quiet : s.committing = false)
    (room : s.lh.length + (s.outstanding + 1) * MAXOPBLOCKS ≤ LOGSIZE) :
    Reserved { s with outstanding := s.outstanding + 1, ops := update s.ops p .inside } logged := by
  have outside : s.ops p ≠ .inside := by rcases entering with is | is <;> simp [is]
  have limit : LOGSIZE = 30 := rfl
  have each : MAXOPBLOCKS = 10 := rfl
  refine ⟨group, ?_, reserved.listed, ?_⟩
  · intro q notInside
    by_cases same : q = p
    · exact same ▸ reserved.ended p outside
    · exact reserved.ended q (by simpa [same] using notInside)
  · intro inside member _
    obtain ⟨old, oldMember, card⟩ := reserved.group.operations.counted
    have fresh : p ∉ old := mt (oldMember p).mp outside
    have is : inside = insert p old := by
      ext q
      by_cases same : q = p
      · simp [same, member p]
      · simp [same, member q, oldMember q]
    have bound : ∑ q ∈ old, (MAXOPBLOCKS - 1 - (logged q).card) ≤ old.card * 9 := by
      apply Finset.sum_le_card_nsmul
      intro q _
      omega
    rw [is, Finset.sum_insert fresh, reserved.ended p outside, Finset.card_empty]
    rw [limit, each] at room ⊢
    by_cases first : s.outstanding = 0
    · have empty := reserved.group.emptied (.inl ⟨reserved.group.operations.flag up quiet, first⟩)
      have nobody : old = ∅ := Finset.card_eq_zero.mp (by omega)
      simp [empty, nobody]
    · rw [each] at bound
      dsimp only
      omega

/-- A new block takes one unit of the reservation of the operation that logs it. -/
theorem Reserved.logs {b : BlockNo} {data : Block}
    (inside : s.ops p = .inside) (frugal : (insert b (logged p)).card ≤ MAXOPBLOCKS - 1)
    (group : Group { s with
      lh := if b ∈ s.lh then s.lh else s.lh ++ [b]
      cache := update s.cache b (some ⟨data, true⟩) }) :
    Reserved { s with
      lh := if b ∈ s.lh then s.lh else s.lh ++ [b]
      cache := update s.cache b (some ⟨data, true⟩) }
      (update logged p (insert b (logged p))) := by
  have each : MAXOPBLOCKS = 10 := rfl
  refine ⟨group, ?_, ?_, ?_⟩
  · intro q outside
    have different : q ≠ p := by
      rintro rfl
      exact outside inside
    simpa [different] using reserved.ended q outside
  · intro q c member
    dsimp only
    have known : c = b ∨ c ∈ s.lh := by
      by_cases same : q = p
      · subst same
        rw [update_self] at member
        exact (Finset.mem_insert.mp member).imp id (reserved.listed q c)
      · rw [update_of_ne same] at member
        exact .inr (reserved.listed q c member)
    split
    · next listed => exact known.elim (fun is => is ▸ listed) id
    · next fresh => exact List.mem_append.mpr (known.symm.imp id (by simp))
  · intro set member _
    have old := reserved.room set member ⟨p, (member p).mpr inside⟩
    have here := (member p).mpr inside
    rw [← Finset.add_sum_erase _ _ here] at old ⊢
    have others : ∑ q ∈ set.erase p, (MAXOPBLOCKS - 1 -
        (update logged p (insert b (logged p)) q).card) =
        ∑ q ∈ set.erase p, (MAXOPBLOCKS - 1 - (logged q).card) := by
      apply Finset.sum_congr rfl
      intro q isOther
      rw [update_of_ne (Finset.ne_of_mem_erase isOther)]
    rw [others, update_self]
    have grows := Finset.card_le_card (Finset.subset_insert b (logged p))
    rw [each] at old frugal ⊢
    dsimp only
    split
    · omega
    · rename_i fresh
      have new : b ∉ logged p := fun known => fresh (reserved.listed p b known)
      rw [Finset.card_insert_of_notMem new] at frugal ⊢
      rw [List.length_append, List.length_singleton]
      omega

theorem Reserved.ends (inside : s.ops p = .inside) (lh : t.lh = s.lh) (group : Group t)
    (ops : ∀ q, t.ops q = .inside ↔ q ≠ p ∧ s.ops q = .inside) :
    Reserved t (update logged p ∅) := by
  refine ⟨group, ?_, ?_, ?_⟩
  · intro q outside
    by_cases same : q = p
    · simp [same]
    · simpa [same] using reserved.ended q fun stays => outside ((ops q).mpr ⟨same, stays⟩)
  · intro q b member
    by_cases same : q = p
    · simp [same] at member
    · rw [update_of_ne same] at member
      exact lh ▸ reserved.listed q b member
  · intro set member _
    have left : p ∉ set := fun isMember => ((ops p).mp ((member p).mp isMember)).1 rfl
    have old := reserved.room (insert p set) ?_ (Finset.insert_nonempty p set)
    · rw [Finset.sum_insert left] at old
      have others : ∑ q ∈ set, (MAXOPBLOCKS - 1 - (update logged p ∅ q).card) =
          ∑ q ∈ set, (MAXOPBLOCKS - 1 - (logged q).card) := by
        apply Finset.sum_congr rfl
        intro q isMember
        rw [update_of_ne (ne_of_mem_of_not_mem isMember left)]
      rw [others, lh]
      omega
    · intro q
      rw [Finset.mem_insert, member q, ops q]
      by_cases same : q = p
      · simp [same, inside]
      · simp [same]

end

theorem Advance.working (moves : Advance g s t) : s.control ≠ .idle := by
  cases moves with
  | copy at_ | copied at_ | head at_ | install at_ | installed at_ | clear at_ | finish at_ => simp [at_]

theorem Advance.nobody (moves : Advance g s t) (outside : ∀ p, s.ops p ≠ .inside) (p : Nat) :
    t.ops p ≠ .inside := by
  cases moves with
  | @copy q tail b at_ listed => exact (writeLogRound_written g s tail b).ops ▸ outside p
  | copied at_ done | installed at_ done => exact outside p
  | head at_ => exact (writeHead_written g s).ops ▸ outside p
  | @install q tail b at_ listed => exact (installRound_written g s tail b).ops ▸ outside p
  | clear at_ =>
    intro inside
    exact outside p (congrFun (writeHead_written g { s with lh := [] }).ops p ▸ inside)
  | finish at_ =>
    intro inside
    exact outside p ((update_inside (by decide)).mp (wakeup_inside.mp inside)).2

theorem Reserved.step (reserved : Reserved s logged)
    (frugal : Frugal (MAXOPBLOCKS - 1) (s, logged) a) (taken : step g s a = some t) :
    Reserved t (logged.after a) := by
  have group := reserved.group.step taken
  have empty (working : s.control ≠ .idle) (q : Nat) : logged q = ∅ :=
    reserved.ended q (reserved.group.operations.nobody working q)
  cases step_effect taken with
  | @waits p up entering full =>
    refine reserved.same group ?_ rfl
    intro q
    have notInside : s.ops p ≠ .inside := by rcases entering with is | is <;> simp [is]
    rw [update_inside (by decide), and_iff_right_iff_imp]
    rintro inside rfl
    exact notInside inside
  | begins up entering quiet room => exact reserved.begins up group entering quiet room
  | commits inside quiet last =>
    exact reserved.ends inside rfl group fun q => update_inside (by decide)
  | ends inside quiet others =>
    exact reserved.ends inside rfl group fun q => wakeup_inside.trans (update_inside (by decide))
  | logs inside room area open_ => exact reserved.logs inside frugal group
  | @reads b alive =>
    have same : Refetched s (bread s b).2 := bread_refetched
    exact reserved.same group (fun q => by rw [same.ops]) same.lh
  | evicts clean => exact reserved.same group (fun _ => .rfl) rfl
  | advances moves =>
    have outside := reserved.group.operations.nobody moves.working
    exact .of_nobody group (moves.nobody outside) (empty moves.working)
  | crashes alive => exact .of_nobody group (by simp [crash]) fun _ => rfl
  | boots dead head =>
    have fetched : Refetched s (bread s g.start).2 := bread_refetched
    exact .of_nobody group (group.operations.nobody (by simp)) (empty (by simp [dead]))

theorem Reserved.fits (reserved : Reserved s logged)
    (inside : s.ops p = .inside) : s.lh.length < LOGSIZE - 1 := by
  obtain ⟨set, member, -⟩ := reserved.group.operations.counted
  have room := reserved.room set member ⟨p, (member p).mpr inside⟩
  have limit : LOGSIZE = 30 := rfl
  omega

/-- Operations that log at most one block fewer than `MAXOPBLOCKS` never overflow
the log that `mkfs` makes. -/
theorem frugal_operations_fit {disk : BlockNo → Block} {actions : List Action} {final : State × Record}
    (frugal : Along (recordedStep imageLog) (Frugal (MAXOPBLOCKS - 1)) (powerUp disk, fun _ => ∅) actions)
    (ran : exec (recordedStep imageLog) (powerUp disk, fun _ => ∅) actions = some final) (a : Action) :
    act imageLog final.1 a ≠ .panic .tooBigTransaction := by
  have reserved : Reserved final.1 final.2 := by
    refine exec_invariant (fun s => Reserved s.1 s.2) ?_ frugal ?_ ran
    · exact .of_nobody (.powerUp disk) (by simp [powerUp]) fun _ => rfl
    · intro before action after reserved frugal taken
      obtain ⟨moved, record⟩ := recordedStep_some taken
      rw [record]
      exact reserved.step frugal moved
  intro stopped
  cases act_panics stopped with
  | tooBig inside full =>
    have fits := reserved.fits inside
    have limit : LOGSIZE = 30 := rfl
    have size : imageLog.size = 30 := rfl
    omega

def threeLog (count : Nat) : List Action :=
  [.boot, .advance, .advance, .beginOp 0, .beginOp 1, .beginOp 2] ++
    (List.range count).map fun i => .logWrite (i / MAXOPBLOCKS) (BitVec.ofNat 32 (100 + i)) .zero

theorem frugal_operations_fit_nine : ∃ final,
    exec (recordedStep imageLog) (powerUp fun _ => .zero, fun _ => ∅) (threeLog 9) = some final ∧
      ∀ a, act imageLog final.1 a ≠ .panic .tooBigTransaction := by
  have ran : (exec (recordedStep imageLog) (powerUp fun _ => .zero, fun _ => ∅) (threeLog 9)).isSome = true := by
    decide +kernel
  have frugal : Along (recordedStep imageLog) (Frugal (MAXOPBLOCKS - 1)) (powerUp fun _ => .zero, fun _ => ∅)
      (threeLog 9) := by
    decide +kernel
  obtain ⟨final, done⟩ := Option.isSome_iff_exists.mp ran
  exact ⟨final, done, frugal_operations_fit frugal done⟩

def Result.message : Result → Option Panic
  | .panic message => some message
  | .next _ | .disabled => none

/-- Three operations that log ten blocks each: the thirtieth does not fit. -/
theorem three_operations_overflow : ∃ final a,
    Along (recordedStep imageLog) (Frugal MAXOPBLOCKS) (powerUp fun _ => .zero, fun _ => ∅) (threeLog 29) ∧
      exec (recordedStep imageLog) (powerUp fun _ => .zero, fun _ => ∅) (threeLog 29) = some final ∧
      Frugal MAXOPBLOCKS final a ∧ act imageLog final.1 a = .panic .tooBigTransaction := by
  have frugal : Along (recordedStep imageLog) (Frugal MAXOPBLOCKS) (powerUp fun _ => .zero, fun _ => ∅)
      (threeLog 29) := by
    decide +kernel
  have reached : (exec (recordedStep imageLog) (powerUp fun _ => .zero, fun _ => ∅) (threeLog 29)).map
      (fun final => (decide (Frugal MAXOPBLOCKS final (.logWrite 2 129 .zero)),
        (act imageLog final.1 (.logWrite 2 129 .zero)).message)) = some (true, some .tooBigTransaction) := by
    decide +kernel
  obtain ⟨final, ran, seen⟩ := Option.map_eq_some_iff.mp reached
  simp only [Prod.mk.injEq, decide_eq_true_eq] at seen
  refine ⟨final, _, frugal, ran, seen.1, ?_⟩
  have message := seen.2
  unfold Result.message at message
  split at message <;> simp_all

end Xv6.Log
