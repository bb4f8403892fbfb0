import Mathlib

namespace Xv6.Data

/-! # Rings with free-running counters

An item's slot is its number modulo `size`; both counters wrap at `2 ^ 32`, which
`size` has to divide.  `contents` is the queue that the ring stands for.
-/

structure FreeRing (size : Nat) (α : Type) where
  data : Fin size → α
  nread : BitVec 32
  nwrite : BitVec 32

namespace FreeRing

/-- The numbers of items fit the counters, also when they wrap. -/
structure Fits (size : Nat) : Prop where
  divides : size ∣ 2 ^ 32
  small : size < 2 ^ 32

variable {size : Nat} {α : Type} {ring : FreeRing size α}

def count (ring : FreeRing size α) : Nat := (ring.nwrite - ring.nread).toNat

def drop (ring : FreeRing size α) : FreeRing size α := { ring with nread := ring.nread + 1 }

theorem nwrite_eq (ring : FreeRing size α) : ring.nwrite = ring.nread + BitVec.ofNat 32 ring.count := by
  unfold count
  bv_omega

theorem empty_iff : ring.nread = ring.nwrite ↔ ring.count = 0 := by
  unfold count
  constructor
  · intro same
    simp [same]
  · intro none
    bv_omega

theorem count_split {data : Fin size → α} {first middle last : BitVec 32}
    (within : (middle - first).toNat ≤ (last - first).toNat) : (FreeRing.mk data first last).count =
      (FreeRing.mk data first middle).count + (FreeRing.mk data middle last).count := by
  unfold count
  dsimp only
  bv_omega

theorem full_iff (fits : Fits size) : ring.nwrite = ring.nread + BitVec.ofNat 32 size ↔ ring.count = size := by
  have small := fits.small
  unfold count
  constructor
  · intro full
    bv_omega
  · intro full
    bv_omega

theorem count_drop (some : ring.count ≠ 0) : ring.drop.count + 1 = ring.count := by
  unfold count drop at *
  dsimp only
  bv_omega

def unput (ring : FreeRing size α) : FreeRing size α := { ring with nwrite := ring.nwrite - 1 }

theorem count_unput (some : ring.count ≠ 0) : ring.unput.count + 1 = ring.count := by
  unfold count unput at *
  dsimp only
  bv_omega

variable [NeZero size]

def slot (n : BitVec 32) : Fin size := Fin.ofNat size n.toNat

def put (ring : FreeRing size α) (value : α) : FreeRing size α :=
  { ring with data := Function.update ring.data (slot ring.nwrite) value, nwrite := ring.nwrite + 1 }

def front (ring : FreeRing size α) : α := ring.data (slot ring.nread)

def contents (ring : FreeRing size α) : List α :=
  (List.range ring.count).map fun i => ring.data (slot (ring.nread + BitVec.ofNat 32 i))

@[simp] theorem length_contents (ring : FreeRing size α) : ring.contents.length = ring.count := by
  simp [contents]

theorem slot_add (fits : Fits size) (n : BitVec 32) (i : Nat) :
    (slot (n + BitVec.ofNat 32 i) : Fin size).val = (n.toNat + i) % size := by
  simp only [slot, Fin.val_ofNat, BitVec.toNat_add, BitVec.toNat_ofNat]
  rw [Nat.mod_mod_of_dvd _ fits.divides, Nat.add_mod, Nat.mod_mod_of_dvd _ fits.divides, ← Nat.add_mod]

theorem slot_injective (fits : Fits size) {n : BitVec 32} {i j : Nat} (left : i < size) (right : j < size)
    (same : (slot (n + BitVec.ofNat 32 i) : Fin size) = slot (n + BitVec.ofNat 32 j)) : i = j := by
  have equal := congrArg Fin.val same
  rw [slot_add fits, slot_add fits] at equal
  have congruent : i ≡ j [MOD size] := Nat.ModEq.add_left_cancel' n.toNat equal
  exact Nat.ModEq.eq_of_lt_of_lt congruent left right

theorem count_put (fits : Fits size) (room : ring.count < size) (value : α) :
    (ring.put value).count = ring.count + 1 := by
  have small := fits.small
  unfold count put at *
  dsimp only
  bv_omega

theorem contents_put (fits : Fits size) (room : ring.count < size) (value : α) :
    (ring.put value).contents = ring.contents ++ [value] := by
  unfold contents
  rw [count_put fits room, List.range_succ, List.map_append, List.map_singleton]
  congr 1
  · apply List.map_congr_left
    intro i member
    have before := List.mem_range.mp member
    simp only [put]
    apply Function.update_of_ne
    rw [nwrite_eq ring]
    intro same
    have equal := slot_injective fits (before.trans room) room same
    omega
  · simp only [put]
    rw [← nwrite_eq, Function.update_self]

theorem contents_drop (some : ring.count ≠ 0) : ring.contents = ring.front :: ring.drop.contents := by
  unfold contents
  rw [← count_drop some, List.range_succ_eq_map, List.map_cons, List.map_map]
  congr 1
  · simp [front]
  · apply List.map_congr_left
    intro i _
    have next : ring.nread + BitVec.ofNat 32 (i + 1) = ring.nread + 1 + BitVec.ofNat 32 i := by bv_omega
    simp [drop, next]

theorem contents_unput (some : ring.count ≠ 0) : ∃ last, ring.contents = ring.unput.contents ++ [last] := by
  refine ⟨ring.data (slot (ring.nread + BitVec.ofNat 32 ring.unput.count)), ?_⟩
  unfold contents
  rw [← count_unput some, List.range_succ, List.map_append, List.map_singleton]
  rfl

/-- The items up to a counter between the two, and those from it on. -/
theorem contents_split {data : Fin size → α} {first middle last : BitVec 32}
    (within : (middle - first).toNat ≤ (last - first).toNat) :
    (FreeRing.mk data first last).contents =
      (FreeRing.mk data first middle).contents ++ (FreeRing.mk data middle last).contents := by
  have reach := nwrite_eq (FreeRing.mk data first middle)
  unfold contents
  rw [count_split within, List.range_add, List.map_append, List.map_map]
  congr 1
  apply List.map_congr_left
  intro i _
  have next : first + BitVec.ofNat 32 ((FreeRing.mk data first middle).count + i) = middle + BitVec.ofNat 32 i := by
    rw [BitVec.ofNat_add, ← BitVec.add_assoc]
    exact congrArg (· + BitVec.ofNat 32 i) reach.symm
  simp only [Function.comp_apply, next]

end FreeRing

end Xv6.Data
