import Mathlib

namespace Xv6.Data

/-! # The places of a collection

`Located holds m`: the multiset `m` counts what stands at the places. -/

variable {κ ι ρ : Type} {holds other : κ → ρ → Prop} {m n : Multiset ρ}

def Located (holds : κ → ρ → Prop) (m : Multiset ρ) : Prop :=
  ∃ labelled : Multiset (κ × ρ), labelled.map Prod.snd = m ∧
    ∀ place item, (place, item) ∈ labelled ↔ holds place item

namespace Located

theorem congr (located : Located holds m) (same : ∀ place item, other place item ↔ holds place item) :
    Located other m := by
  obtain ⟨labelled, items, places⟩ := located
  exact ⟨labelled, items, fun place item => (places place item).trans (same place item).symm⟩

theorem zero : Located (fun (_ : κ) (_ : ρ) => False) 0 := ⟨0, rfl, by simp⟩

theorem single (place : κ) (item : ρ) : Located (fun x a => x = place ∧ a = item) {item} :=
  ⟨{(place, item)}, rfl, by simp⟩

theorem list (place : Nat → κ) (items : List ρ) :
    Located (fun x a => ∃ i, x = place i ∧ items[i]? = some a) (items : Multiset ρ) := by
  refine ⟨(items.zipIdx.map fun entry => (place entry.2, entry.1) : List (κ × ρ)), ?_, ?_⟩
  · rw [Multiset.map_coe, List.map_map]
    exact congrArg _ (List.zipIdx_map_fst 0 items)
  · intro x a
    simp only [Multiset.mem_coe, List.mem_map, Prod.mk.injEq, Prod.exists, List.mem_zipIdx_iff_getElem?]
    constructor
    · rintro ⟨_, i, found, rfl, rfl⟩
      exact ⟨i, rfl, found⟩
    · rintro ⟨i, rfl, found⟩
      exact ⟨a, i, found, rfl, rfl⟩

theorem add (first : Located holds m) (second : Located other n) :
    Located (fun x a => holds x a ∨ other x a) (m + n) := by
  obtain ⟨left, items, places⟩ := first
  obtain ⟨right, others, otherPlaces⟩ := second
  refine ⟨left + right, by rw [Multiset.map_add, items, others], ?_⟩
  intro x a
  rw [Multiset.mem_add, places, otherPlaces]

theorem sum [Fintype ι] {parts : ι → κ → ρ → Prop} {own : ι → Multiset ρ}
    (each : ∀ i, Located (parts i) (own i)) : Located (fun x a => ∃ i, parts i x a) (∑ i, own i) := by
  choose labelled items places using each
  refine ⟨∑ i, labelled i, ?_, ?_⟩
  · rw [← Multiset.coe_mapAddMonoidHom, map_sum]
    simp only [Multiset.coe_mapAddMonoidHom, items]
  · intro x a
    simp [Multiset.mem_sum, places]

theorem embed (place : ι → κ) {inner : ι → ρ → Prop} (located : Located inner m) :
    Located (fun y a => ∃ x, y = place x ∧ inner x a) m := by
  obtain ⟨labelled, items, places⟩ := located
  refine ⟨labelled.map fun entry => (place entry.1, entry.2), ?_, ?_⟩
  · rw [Multiset.map_map]
    exact items
  · intro y a
    simp only [Multiset.mem_map, Prod.mk.injEq, Prod.exists, places]
    constructor
    · rintro ⟨x, _, held, rfl, rfl⟩
      exact ⟨x, rfl, held⟩
    · rintro ⟨x, rfl, held⟩
      exact ⟨x, a, held, rfl, rfl⟩

theorem mem {place : κ} {item : ρ} (located : Located holds m) (held : holds place item) : item ∈ m := by
  obtain ⟨labelled, rfl, places⟩ := located
  exact Multiset.mem_map_of_mem Prod.snd ((places place item).mpr held)

theorem place_unique {item : ρ} {first second : κ} (located : Located holds m) (nodup : m.Nodup)
    (left : holds first item) (right : holds second item) : first = second := by
  obtain ⟨labelled, rfl, places⟩ := located
  have same := Multiset.inj_on_of_nodup_map nodup _ ((places first item).mpr left) _
    ((places second item).mpr right) rfl
  exact congrArg Prod.fst same

theorem existsUnique {item : ρ} (located : Located holds m) (nodup : m.Nodup) (member : item ∈ m) :
    ∃! place, holds place item := by
  obtain ⟨place, held⟩ : ∃ place, holds place item := by
    obtain ⟨labelled, rfl, places⟩ := located
    obtain ⟨⟨place, _⟩, listed, rfl⟩ := Multiset.mem_map.mp member
    exact ⟨place, (places _ _).mp listed⟩
  exact ⟨place, held, fun other stands => located.place_unique nodup stands held⟩

end Located

end Xv6.Data
