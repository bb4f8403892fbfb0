import Xv6.Cache.Refinement
import Xv6.Data.LinkedRing

namespace Xv6.Cache

open Xv6.Data Xv6.Disk

/-! # The links of the buffers

The pointers behind the list `order`: what `binit` and `brelse` do to `next` and
`prev`, and the two loops of `bget` that follow them.
-/

variable {n : Nat} {g : Geometry} {s t : State n} {a : Action n} {disk : BlockNo → Block} {links : Links (Option Slot)}

/-- A node is a buffer or `bcache.head`, here `none`. -/
def binitLinks : Links (Option Slot) :=
  (List.finRange NBUF).foldl (fun links i => links.insert none (some i)) ⟨fun _ => none, fun _ => none⟩

/-- `bget` with its loops; nothing when a loop has not ended after every node. -/
def bgetLinks (links : Links (Option Slot)) (s : State n) (dev : Dev) (blockno : BlockNo) :
    Option (Option (Slot × State n)) := do
  let cached := Option.any fun i => (s.buf i).key = (dev, blockno)
  match ← Links.find links.next none cached (NBUF + 1) (links.next none) with
  | some i => some (some (i, s.setBuf i fun buf => { buf with refcnt := buf.refcnt + 1 }))
  | none =>
    let unused := Option.any fun i => (s.buf i).refcnt = 0 ∧ (s.buf i).dirty = false
    match ← Links.find links.prev none unused (NBUF + 1) (links.prev none) with
    | some i => some (some (i, s.setBuf i ({ · with dev, blockno, valid := false, dirty := false, refcnt := 1 })))
    | none => some none

/-- The links, and the buffers whose `refcnt` has dropped to 0, the latest first. -/
structure Trail where
  links : Links (Option Slot)
  dropped : List Slot

def relink (s : State n) (a : Action n) (trail : Trail) : Trail :=
  match a with
  | .unref p =>
    match s.call p with
    | .leaving i =>
      if (s.buf i).refcnt - 1 = 0 then
        ⟨(trail.links.unlink (some i)).insert none (some i), i :: trail.dropped⟩
      else trail
    | _ => trail
  | _ => trail

def trailAfter (g : Geometry) (n : Nat) (disk : BlockNo → Block) (actions : List (Action n)) : Trail :=
  ghost (step g) relink (binit n disk) ⟨binitLinks, []⟩ actions

/-- Whoever stands behind `b` was dropped before it, or never. -/
def Recent (dropped : List Slot) (b c : Slot) : Prop :=
  c ∈ dropped → b ∈ dropped ∧ dropped.idxOf b < dropped.idxOf c

structure Threaded (s : State n) (trail : Trail) : Prop where
  ring : trail.links.Ring none (s.order.map some)
  all : ∀ i, i ∈ s.order
  recent : s.order.Pairwise (Recent trail.dropped)

theorem insert_each {order : List Slot} (distinct : order.Nodup) :
    (order.foldr (fun i links => Links.insert links none (some i)) ⟨fun _ => none, fun _ => none⟩).Ring none
      (order.map some) := by
  induction order with
  | nil => exact ⟨List.isChain_pair.mpr ⟨rfl, rfl⟩, List.nodup_singleton none⟩
  | cons i order rest =>
    obtain ⟨new, distinct⟩ := List.nodup_cons.mp distinct
    exact (rest distinct).insert (by simpa using new)

theorem binit_threaded : Threaded (binit n disk) ⟨binitLinks, []⟩ where
  ring := by
    simp only [binitLinks, List.foldl_eq_foldr_reverse]
    exact insert_each (List.nodup_reverse.mpr (List.nodup_finRange NBUF))
  all i := List.mem_reverse.mpr (List.mem_finRange i)
  recent := List.pairwise_of_forall fun b c impossible => absurd impossible List.not_mem_nil

theorem loopDone_order {p : Fin n} {which : Loop} : (loopDone s p which).order = s.order := by
  cases which <;> rfl

theorem step_order (taken : step g s a = some t) (other : ∀ p, a ≠ .unref p) : t.order = s.order := by
  cases a with
  | unref p => exact absurd rfl (other p)
  | commit p =>
    obtain ⟨_, ran⟩ := of_guard (step_act taken)
    cases job : s.job p <;> simp only [commit, job] at ran <;>
      grind [breadBegin, bget, bwrite, iderw, brelseBegin, loopDone_order, Result.andThen, State.setBuf, State.setCall,
        State.setJob]
  | _ =>
    grind [step, act, breadBegin, bget, breadEnd, bwrite, iderw, brelseBegin, logWriteBegin, logWriteEnd, beginOp, endOp,
      Result.andThen, State.setBuf, State.setCall, State.setJob]

theorem Threaded.dropped {trail : Trail} {i : Slot} (threaded : Threaded s trail) (order : t.order = i :: s.order.erase i) :
    Threaded t ⟨(trail.links.unlink (some i)).insert none (some i), i :: trail.dropped⟩ := by
  have nodup : s.order.Nodup := (List.nodup_cons.mp threaded.ring.nodup).2.of_map some
  have absent : i ∉ s.order.erase i := nodup.not_mem_erase
  constructor
  · obtain ⟨first, second, _, split, erased⟩ := List.exists_erase_eq (threaded.all i)
    have ring := threaded.ring
    rw [split, List.map_append, List.map_cons] at ring
    rw [order, List.map_cons]
    rw [erased] at absent ⊢
    rw [List.map_append]
    exact ring.unlink.insert (by simpa using absent)
  · intro j
    rw [order]
    by_cases same : j = i
    · exact same ▸ List.mem_cons_self
    · exact List.mem_cons_of_mem i ((List.mem_erase_of_ne same).mpr (threaded.all j))
  · have behind : ∀ c ∈ s.order.erase i, i ≠ c := fun c member same => absent (same ▸ member)
    rw [order]
    refine List.pairwise_cons.mpr ⟨fun c member _ => ?_, ?_⟩
    · simp [List.idxOf_cons_ne _ (behind c member)]
    · refine (threaded.recent.sublist List.erase_sublist).imp_of_mem fun {b c} inB inC recent => ?_
      simpa [Recent, List.idxOf_cons_ne _ (behind b inB), List.idxOf_cons_ne _ (behind c inC),
        (behind b inB).symm, (behind c inC).symm] using recent

theorem Threaded.step {trail : Trail} (threaded : Threaded s trail) (taken : Cache.step g s a = some t) :
    Threaded t (relink s a trail) := by
  have ran := step_act taken
  have same : t.order = s.order → Threaded t trail := fun order =>
    ⟨order ▸ threaded.ring, order ▸ threaded.all, order ▸ threaded.recent⟩
  cases a with
  | unref p =>
    simp only [act, brelseEnd] at ran
    cases call : s.call p with
    | leaving i =>
      have order : t.order = if (s.buf i).refcnt - 1 = 0 then i :: s.order.erase i else s.order := by
        rw [call] at ran
        cases ran
        simp [State.setBuf, State.setCall]
      simp only [relink, call]
      split
      · rename_i last
        exact threaded.dropped (order.trans (if_pos last))
      · rename_i more
        exact same (order.trans (if_neg more))
    | ready | locking | logging =>
      rw [call] at ran
      cases ran
  | _ =>
    exact same (step_order taken (by intro p is; cases is))

theorem bgetLinks_eq {dev : Dev} {blockno : BlockNo} (ring : links.Ring none (s.order.map some)) :
    bgetLinks links s dev blockno = some (bget s dev blockno) := by
  have enough : (s.order.map some).length < NBUF + 1 := by
    have nodup := (List.nodup_cons.mp ring.nodup).2.of_map some
    simpa [Nat.lt_succ_iff] using nodup.length_le_card
  simp only [bgetLinks, bget, ring.find_next enough, ring.find_prev enough, ← List.map_reverse, List.find?_map,
    Function.comp_def, Option.any_some]
  cases s.order.find? _ with
  | some i => rfl
  | none =>
    cases s.order.reverse.find? _ with
    | some i | none => rfl

/-- After every run the links lead over each buffer once, the latest dropped first, and a miss takes the last unused one. -/
theorem lru_list {actions : List (Action n)} (ran : exec (step g) (binit n disk) actions = some s) :
    let trail := trailAfter g n disk actions
    trail.links.Ring none (s.order.map some) ∧ (∀ i, i ∈ s.order) ∧
    Function.LeftInverse trail.links.prev trail.links.next ∧ Function.RightInverse trail.links.prev trail.links.next ∧
    s.order.Pairwise (Recent trail.dropped) ∧
    ∀ dev blockno, (∀ i, (s.buf i).key ≠ (dev, blockno)) →
      bgetLinks trail.links s dev blockno =
        some ((s.order.reverse.find? fun i => (s.buf i).refcnt = 0 ∧ (s.buf i).dirty = false).map fun i =>
          (i, s.setBuf i ({ · with dev, blockno, valid := false, dirty := false, refcnt := 1 }))) := by
  intro trail
  have threaded : Threaded s trail := ghost_invariant Threaded binit_threaded along_true
    (fun _ _ _ _ threaded _ taken => threaded.step taken) ran
  have inverse : Function.LeftInverse trail.links.prev trail.links.next := by
    apply threaded.ring.leftInverse
    intro u
    cases u with
    | none => exact List.mem_cons_self
    | some i => exact List.mem_cons_of_mem none (List.mem_map_of_mem (threaded.all i))
  refine ⟨threaded.ring, threaded.all, inverse, ?_, threaded.recent, ?_⟩
  · exact inverse.rightInverse_of_surjective (Finite.surjective_of_injective inverse.injective)
  · intro dev blockno absent
    have miss : (s.order.find? fun i => (s.buf i).key = (dev, blockno)) = none :=
      List.find?_eq_none.mpr fun i _ => by simpa using absent i
    rw [bgetLinks_eq threaded.ring, bget, miss]
    cases s.order.reverse.find? _ with
    | some i | none => rfl

theorem lru_list_dropped :
    ∃ s : State 2, exec (step imageDisk) (binit 2 fun _ => .zero) (bwriteRun 50 0) = some s ∧
      (∀ i, (s.buf i).key ≠ (ROOTDEV, 60)) ∧
      s.order.Pairwise (Recent (trailAfter imageDisk 2 (fun _ => .zero) (bwriteRun 50 0)).dropped) ∧
      ∃ found, bgetLinks (trailAfter imageDisk 2 (fun _ => .zero) (bwriteRun 50 0)).links s ROOTDEV 60 = some found := by
  have runs : ((exec (step imageDisk) (binit 2 fun _ => .zero) (bwriteRun 50 0)).map fun s =>
      decide (∀ i, (s.buf i).key ≠ (ROOTDEV, 60))) = some true := by
    decide +kernel
  obtain ⟨s, ran, absent⟩ := Option.map_eq_some_iff.mp runs
  obtain ⟨_, _, _, _, recent, miss⟩ := lru_list ran
  exact ⟨s, ran, of_decide_eq_true absent, recent, _, miss ROOTDEV 60 (of_decide_eq_true absent)⟩

end Xv6.Cache
