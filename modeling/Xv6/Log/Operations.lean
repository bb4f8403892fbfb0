import Xv6.Log.Machine

namespace Xv6.Log

open Xv6.Data Xv6.Disk

/-! # Buffers and operations

`log.outstanding` counts the processes inside an operation, and there are none while a
commit or a recovery runs.
-/

variable {g : Geometry} {s t u : State} {a : Action} {b : BlockNo} {data : Block}

def Coherent (s : State) : Prop :=
  ∀ b data, s.cache b = some ⟨data, false⟩ → data = s.disk b

def Pinned (s : State) (b : BlockNo) (data : Block) : Prop := s.cache b = some ⟨data, true⟩

structure SameBlocks (s t : State) : Prop where
  disk : t.disk = s.disk
  lh : t.lh = s.lh
  coherent : Coherent s → Coherent t
  pinned : ∀ b data, Pinned t b data ↔ Pinned s b data

/-- Nothing but buffers that are not dirty was filled or recycled. -/
structure Refetched (s t : State) : Prop extends SameBlocks s t where
  outstanding : t.outstanding = s.outstanding
  committing : t.committing = s.committing
  ops : t.ops = s.ops
  control : t.control = s.control

structure Written (s : State) (b : BlockNo) (data : Block) (t : State) : Prop where
  disk : t.disk = Function.update s.disk b data
  lh : t.lh = s.lh
  outstanding : t.outstanding = s.outstanding
  committing : t.committing = s.committing
  ops : t.ops = s.ops
  coherent : Coherent s → Coherent t
  pinned : ∀ c kept, Pinned t c kept ↔ c ≠ b ∧ Pinned s c kept

theorem bread_refetched : Refetched s (bread s b).2 := by
  unfold bread
  split
  · exact ⟨⟨rfl, rfl, id, fun _ _ => .rfl⟩, rfl, rfl, rfl, rfl⟩
  · rename_i absent
    refine ⟨⟨rfl, rfl, ?_, ?_⟩, rfl, rfl, rfl, rfl⟩
    · intro coherent c data cached
      by_cases here : c = b
      · subst here
        simp only [Function.update_self, Option.some.injEq, Buf.mk.injEq] at cached
        exact cached.1.symm
      · exact coherent c data (by simpa [here] using cached)
    · intro c data
      by_cases here : c = b
      · subst here
        simp [Pinned, absent]
      · simp [Pinned, here]

theorem evict_refetched (clean : s.cache b = some ⟨data, false⟩) :
    Refetched s { s with cache := Function.update s.cache b none } := by
  refine ⟨⟨rfl, rfl, ?_, ?_⟩, rfl, rfl, rfl, rfl⟩
  · intro coherent c kept cached
    by_cases here : c = b
    · subst here
      simp at cached
    · exact coherent c kept (by simpa [here] using cached)
  · intro c kept
    by_cases here : c = b
    · subst here
      simp [Pinned, clean]
    · simp [Pinned, here]

theorem bread_pinned (pinned : Pinned s b data) : (bread s b).1 = data := by
  unfold Pinned at pinned
  simp [bread, pinned]

theorem bread_coherent (coherent : Coherent s) (unpinned : ∀ data, ¬ Pinned s b data) :
    (bread s b).1 = s.disk b := by
  unfold bread
  split
  · rename_i buf cached
    obtain ⟨data, dirty⟩ := buf
    cases dirty with
    | false => exact coherent b data cached
    | true => exact absurd cached (unpinned data)
  · rfl

theorem bwrite_written : Written s b data (bwrite s b data) := by
  refine ⟨rfl, rfl, rfl, rfl, rfl, ?_, ?_⟩
  · intro coherent c kept cached
    by_cases here : c = b
    · subst here
      simp only [bwrite, Function.update_self, Option.some.injEq, Buf.mk.injEq, and_true] at cached ⊢
      exact cached.symm
    · simp only [bwrite, Function.update_of_ne here] at cached ⊢
      exact coherent c kept cached
  · intro c kept
    by_cases here : c = b
    · subst here
      simp [Pinned, bwrite]
    · simp [Pinned, bwrite, here]

theorem Written.control (written : Written s b data t) (control : Control) :
    Written s b data { t with control } :=
  ⟨written.disk, written.lh, written.outstanding, written.committing, written.ops, written.coherent,
    written.pinned⟩

theorem Refetched.written (refetched : Refetched s t) (written : Written t b data u) :
    Written s b data u where
  disk := by rw [written.disk, refetched.disk]
  lh := written.lh.trans refetched.lh
  outstanding := written.outstanding.trans refetched.outstanding
  committing := written.committing.trans refetched.committing
  ops := written.ops.trans refetched.ops
  coherent := written.coherent ∘ refetched.coherent
  pinned c kept := (written.pinned c kept).trans (and_congr_right fun _ => refetched.pinned c kept)

theorem writeLogRound_written (g : Geometry) (s : State) (tail : Nat) (b : BlockNo) :
    Written s (g.logBlock tail) (bread (bread s (g.logBlock tail)).2 b).1 (writeLogRound g s tail b) :=
  bread_refetched.written (bread_refetched.written bwrite_written)

theorem installRound_written (g : Geometry) (s : State) (tail : Nat) (b : BlockNo) :
    Written s b (bread s (g.logBlock tail)).1 (installRound g s tail b) :=
  bread_refetched.written (bread_refetched.written bwrite_written)

theorem writeHead_written (g : Geometry) (s : State) :
    Written s g.start (headerBlock (bread s g.start).1 (bread s g.start).2.lh) (writeHead g s) :=
  bread_refetched.written bwrite_written

structure Operations (s : State) : Prop where
  counted : ∃ inside : Finset Nat, (∀ p, p ∈ inside ↔ s.ops p = .inside) ∧ (inside.card : Int) = s.outstanding
  busy : s.control ≠ .idle → s.outstanding = 0
  flag : s.control.up = true → s.committing = false → s.control = .idle

theorem Operations.idle {p : Nat} (operations : Operations s) (inside : s.ops p = .inside) :
    s.control = .idle := by
  by_contra working
  obtain ⟨set, member, card⟩ := operations.counted
  rw [operations.busy working, Int.natCast_eq_zero, Finset.card_eq_zero] at card
  have absurdMember := (member p).mpr inside
  simp [card] at absurdMember

theorem Operations.same (operations : Operations s) (ops : ∀ p, t.ops p = .inside ↔ s.ops p = .inside)
    (outstanding : t.outstanding = s.outstanding) (busy : t.control ≠ .idle → s.control ≠ .idle)
    (flag : t.control.up = true → t.committing = false → t.control = .idle) : Operations t := by
  obtain ⟨inside, member, card⟩ := operations.counted
  refine ⟨⟨inside, fun p => (member p).trans (ops p).symm, card.trans outstanding.symm⟩, ?_, flag⟩
  intro working
  rw [outstanding]
  exact operations.busy (busy working)

theorem Operations.refetched (operations : Operations s) (same : Refetched s t) : Operations t := by
  apply operations.same
  · intro p
    rw [same.ops]
  · exact same.outstanding
  · rw [same.control]
    exact id
  · rw [same.control, same.committing]
    exact operations.flag

theorem wakeup_inside {p : Nat} : (wakeup s).ops p = .inside ↔ s.ops p = .inside := by
  by_cases asleep : s.ops p = .asleep <;> simp [wakeup, asleep]

theorem update_inside {p q : Nat} {op : Op} (notOp : op ≠ .inside) :
    Function.update s.ops p op q = .inside ↔ q ≠ p ∧ s.ops q = .inside := by
  by_cases same : q = p
  · subst same
    simp [notOp]
  · simp [same]

section

variable (operations : Operations s)
include operations

theorem Operations.begins {p : Nat} (up : s.control.up = true)
    (entering : s.ops p = .outside ∨ s.ops p = .woken) (quiet : s.committing = false) :
    Operations { s with outstanding := s.outstanding + 1, ops := Function.update s.ops p .inside } := by
  have idle := operations.flag up quiet
  obtain ⟨inside, member, card⟩ := operations.counted
  have fresh : p ∉ inside := by
    intro old
    have := (member p).mp old
    rcases entering with is | is <;> simp [is] at this
  refine ⟨⟨insert p inside, ?_, ?_⟩, fun working => absurd idle working, fun _ _ => idle⟩
  · intro q
    by_cases same : q = p
    · simp [same]
    · simp [same, member q]
  · rw [Finset.card_insert_of_notMem fresh]
    push_cast
    omega

theorem Operations.leave {p : Nat} (inside : s.ops p = .inside)
    (ops : ∀ q, t.ops q = .inside ↔ q ≠ p ∧ s.ops q = .inside)
    (outstanding : t.outstanding = s.outstanding - 1) (busy : t.control ≠ .idle → t.outstanding = 0)
    (flag : t.control.up = true → t.committing = false → t.control = .idle) : Operations t := by
  obtain ⟨set, member, card⟩ := operations.counted
  have old := (member p).mpr inside
  refine ⟨⟨set.erase p, ?_, ?_⟩, busy, flag⟩
  · intro q
    rw [Finset.mem_erase, member q, ops q]
  · have positive := Finset.card_pos.mpr ⟨p, old⟩
    rw [Finset.card_erase_of_mem old, outstanding]
    omega

theorem Operations.working (working : s.control ≠ .idle) (ops : t.ops = s.ops)
    (outstanding : t.outstanding = s.outstanding) (committing : t.committing = s.committing)
    (up : t.control.up = true → s.control.up = true ∨ t.control = .idle) : Operations t := by
  apply operations.same
  · intro p
    rw [ops]
  · exact outstanding
  · exact fun _ => working
  · intro isUp quiet
    rcases up isUp with wasUp | idle
    · exact absurd (operations.flag wasUp (committing ▸ quiet)) working
    · exact idle

theorem Operations.advance (moves : Advance g s t) : Operations t := by
  cases moves with
  | @copy p tail b at_ listed =>
    have written := writeLogRound_written g s tail b
    exact operations.working (by simp [at_]) written.ops written.outstanding written.committing
      (by simp [at_, Control.up])
  | copied at_ done => exact operations.working (by simp [at_]) rfl rfl rfl (by simp [at_, Control.up])
  | head at_ =>
    have written := writeHead_written g s
    exact operations.working (by simp [at_]) written.ops written.outstanding written.committing
      (by simp [at_, Control.up])
  | @install p tail b at_ listed =>
    have written := installRound_written g s tail b
    exact operations.working (by simp [at_]) written.ops written.outstanding written.committing
      (by cases p <;> simp [at_, Control.up])
  | @installed p tail at_ done =>
    exact operations.working (by simp [at_]) rfl rfl rfl (by cases p <;> simp [at_, Control.up])
  | @clear p at_ =>
    have written := writeHead_written g { s with lh := [] }
    exact operations.working (by simp [at_]) written.ops written.outstanding written.committing
      (by cases p <;> simp [at_, Control.up, Control.cleared])
  | @finish p at_ =>
    apply operations.same
    · intro q
      have nobody : s.ops q ≠ .inside := fun inside => by simp [operations.idle inside] at at_
      rw [wakeup_inside, update_inside (by decide)]
      simp [nobody]
    · rfl
    · intro working
      exact absurd rfl working
    · intro _ _
      rfl

theorem Operations.step (taken : step g s a = some t) : Operations t := by
  cases step_effect taken with
  | @waits p up entering full =>
    apply operations.same
    · intro q
      have notInside : s.ops p ≠ .inside := by rcases entering with is | is <;> simp [is]
      rw [update_inside (by decide), and_iff_right_iff_imp]
      rintro inside rfl
      exact notInside inside
    · rfl
    · exact id
    · exact operations.flag
  | begins up entering quiet room => exact operations.begins up entering quiet
  | commits inside quiet last =>
    apply operations.leave inside
    · intro q
      exact update_inside (by decide)
    · simp [last]
    · intro _
      rfl
    · exact nofun
  | ends inside quiet others =>
    have idle := operations.idle inside
    apply operations.leave inside
    · intro q
      exact wakeup_inside.trans (update_inside (by decide))
    · rfl
    · intro working
      exact absurd idle working
    · intro _ _
      exact idle
  | logs inside room area open_ =>
    exact operations.same (fun _ => .rfl) rfl id operations.flag
  | reads alive => exact operations.refetched bread_refetched
  | evicts clean => exact operations.refetched (evict_refetched clean)
  | advances moves => exact operations.advance moves
  | crashes alive => exact ⟨⟨∅, by simp [crash], rfl⟩, fun _ => rfl, by simp [crash, Control.up]⟩
  | boots dead head =>
    have fetched : Refetched s (bread s g.start).2 := bread_refetched
    apply operations.same
    · intro p
      exact iff_of_eq (congrArg (· p = Op.inside) fetched.ops)
    · exact fetched.outstanding
    · intro _
      simp [dead]
    · simp [Control.up]

end

end Xv6.Log
