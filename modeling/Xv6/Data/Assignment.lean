import Mathlib

namespace Xv6.Data

open Function (update update_self update_of_ne)

/-! # Items assigned to places

Every place holds at most one item and every item in use has exactly one place. -/

variable {κ ρ : Type} {holder other : κ → Option ρ} {used : Set ρ} {place : κ} {item : ρ}

structure Assigned (holder : κ → Option ρ) (used : Set ρ) : Prop where
  unique : ∀ {p q : κ} {x : ρ}, holder p = some x → holder q = some x → p = q
  used_iff : ∀ x, x ∈ used ↔ ∃ p, holder p = some x

namespace Assigned

theorem mem (assigned : Assigned holder used) (held : holder place = some item) : item ∈ used :=
  (assigned.used_iff item).mpr ⟨place, held⟩

theorem ne_of_notMem (assigned : Assigned holder used) (free : item ∉ used) : holder place ≠ some item :=
  fun held => free (assigned.mem held)

variable [DecidableEq κ]

theorem attach (assigned : Assigned holder used) (free : item ∉ used) (empty : holder place = none) :
    Assigned (update holder place (some item)) (insert item used) where
  unique := by
    intro p q x first second
    by_cases atP : p = place
    · by_cases atQ : q = place
      · exact atP.trans atQ.symm
      · rw [atP, update_self, Option.some.injEq] at first
        rw [update_of_ne atQ, ← first] at second
        exact absurd second (assigned.ne_of_notMem free)
    · rw [update_of_ne atP] at first
      by_cases atQ : q = place
      · rw [atQ, update_self, Option.some.injEq] at second
        rw [← second] at first
        exact absurd first (assigned.ne_of_notMem free)
      · rw [update_of_ne atQ] at second
        exact assigned.unique first second
  used_iff := by
    intro x
    rw [Set.mem_insert_iff, assigned.used_iff x]
    constructor
    · intro inUse
      cases inUse with
      | inl same => exact ⟨place, by rw [update_self, same]⟩
      | inr held =>
        obtain ⟨p, held⟩ := held
        refine ⟨p, ?_⟩
        rw [update_of_ne]
        · exact held
        · intro same
          rw [same, empty] at held
          cases held
    · intro ⟨p, held⟩
      by_cases here : p = place
      · rw [here, update_self, Option.some.injEq] at held
        exact .inl held.symm
      · rw [update_of_ne here] at held
        exact .inr ⟨p, held⟩

end Assigned

end Xv6.Data
