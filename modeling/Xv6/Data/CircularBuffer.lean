import Mathlib

namespace Xv6.Data

/-! # Circular buffers

A front index, a rear index and a count.  Nothing checks that there is room: `push`
on a full buffer overwrites the oldest entry.  The `window` is what a reader that
trusts the count sees.
-/

structure CircularBuffer (α : Type) where
  front : Nat
  rear : Nat
  size : Nat
  array : Nat → α

namespace CircularBuffer

variable {α : Type} {cap : Nat} {ring : CircularBuffer α} {entry value : α}

def head (ring : CircularBuffer α) : α := ring.array ring.front

def put (cap : Nat) (ring : CircularBuffer α) (value : α) : CircularBuffer α :=
  { ring with
    rear := (ring.rear + 1) % cap
    array := Function.update ring.array ((ring.rear + 1) % cap) value }

def push (cap : Nat) (ring : CircularBuffer α) (value : α) : CircularBuffer α :=
  { ring.put cap value with size := ring.size + 1 }

def pushAll (cap : Nat) (ring : CircularBuffer α) (values : List α) : CircularBuffer α :=
  values.foldl (push cap) ring

def advance (cap : Nat) (ring : CircularBuffer α) : CircularBuffer α :=
  { ring with front := (ring.front + 1) % cap }

def drop (cap : Nat) (ring : CircularBuffer α) : CircularBuffer α :=
  { ring.advance cap with size := ring.size - 1 }

def rotate (cap : Nat) (ring : CircularBuffer α) : CircularBuffer α :=
  (ring.advance cap).put cap ring.head

/-- The entries from the front on, as many as are counted and at most all. -/
def window (cap : Nat) (ring : CircularBuffer α) : List α :=
  (List.range (min ring.size cap)).map fun k => ring.array ((ring.front + k) % cap)

/-- The rear stands `size` entries behind the front, up to whole turns. -/
structure Aligned (cap : Nat) (ring : CircularBuffer α) : Prop where
  front_lt : ring.front < cap
  rear_lt : ring.rear < cap
  behind : (ring.rear + 1) % cap = (ring.front + ring.size) % cap

@[simp] theorem size_push : (ring.push cap value).size = ring.size + 1 := rfl

@[simp] theorem size_drop : (ring.drop cap).size = ring.size - 1 := rfl

theorem mem_window : entry ∈ ring.window cap ↔
    ∃ k < min ring.size cap, ring.array ((ring.front + k) % cap) = entry := by
  simp [window]

theorem length_window : (ring.window cap).length = min ring.size cap := by
  simp [window]

theorem offset_injective {base i j : Nat} (i_lt : i < cap) (j_lt : j < cap)
    (same : (base + i) % cap = (base + j) % cap) : i = j := by
  have congruent : i ≡ j [MOD cap] := Nat.ModEq.add_left_cancel' base same
  rw [Nat.ModEq, Nat.mod_eq_of_lt i_lt, Nat.mod_eq_of_lt j_lt] at congruent
  exact congruent

theorem Aligned.push (aligned : ring.Aligned cap) : (ring.push cap value).Aligned cap where
  front_lt := aligned.front_lt
  rear_lt := Nat.mod_lt _ (Nat.zero_lt_of_lt aligned.front_lt)
  behind := by
    change ((ring.rear + 1) % cap + 1) % cap = (ring.front + (ring.size + 1)) % cap
    rw [aligned.behind, Nat.mod_add_mod, Nat.add_assoc]

theorem Aligned.drop (aligned : ring.Aligned cap) (counted : 0 < ring.size) :
    (ring.drop cap).Aligned cap where
  front_lt := Nat.mod_lt _ (Nat.zero_lt_of_lt aligned.front_lt)
  rear_lt := aligned.rear_lt
  behind := by
    change (ring.rear + 1) % cap = ((ring.front + 1) % cap + (ring.size - 1)) % cap
    rw [aligned.behind, Nat.mod_add_mod]
    congr 1
    omega

theorem Aligned.rotate (aligned : ring.Aligned cap) : (ring.rotate cap).Aligned cap where
  front_lt := Nat.mod_lt _ (Nat.zero_lt_of_lt aligned.front_lt)
  rear_lt := Nat.mod_lt _ (Nat.zero_lt_of_lt aligned.front_lt)
  behind := by
    change ((ring.rear + 1) % cap + 1) % cap = ((ring.front + 1) % cap + ring.size) % cap
    rw [aligned.behind, Nat.mod_add_mod, Nat.mod_add_mod]
    congr 1
    omega

/-- With room left, pushing appends one entry to the window and keeps the rest. -/
theorem window_push (aligned : ring.Aligned cap) (room : ring.size < cap) :
    (ring.push cap value).window cap = ring.window cap ++ [value] := by
  have small : min (ring.size + 1) cap = ring.size + 1 := by omega
  have full : min ring.size cap = ring.size := by omega
  simp only [window, size_push, small, full, List.range_succ, List.map_append, List.map_cons,
    List.map_nil]
  congr 1
  · apply List.map_congr_left
    intro k member
    have k_lt : k < ring.size := List.mem_range.mp member
    -- the written cell is `size` entries behind the front, so it is not cell `k`
    have other : (ring.front + k) % cap ≠ (ring.rear + 1) % cap := by
      rw [aligned.behind]
      intro same
      have := offset_injective (by omega) (by omega) same
      omega
    exact Function.update_of_ne other _ _
  · have written : (ring.front + ring.size) % cap = (ring.rear + 1) % cap := aligned.behind.symm
    simp [push, put, written]

@[simp] theorem pushAll_cons {values : List α} :
    ring.pushAll cap (value :: values) = (ring.push cap value).pushAll cap values := rfl

theorem size_pushAll {values : List α} : (ring.pushAll cap values).size = ring.size + values.length := by
  induction values generalizing ring with
  | nil => rfl
  | cons value rest ih =>
    rw [pushAll_cons, ih, size_push, List.length_cons]
    omega

theorem front_pushAll {values : List α} : (ring.pushAll cap values).front = ring.front := by
  induction values generalizing ring with
  | nil => rfl
  | cons value rest ih => exact ih

theorem Aligned.pushAll {values : List α} (aligned : ring.Aligned cap) :
    (ring.pushAll cap values).Aligned cap := by
  induction values generalizing ring with
  | nil => exact aligned
  | cons value rest ih => exact ih aligned.push

theorem window_pushAll {values : List α} (aligned : ring.Aligned cap)
    (room : ring.size + values.length ≤ cap) :
    (ring.pushAll cap values).window cap = ring.window cap ++ values := by
  induction values generalizing ring with
  | nil => exact (List.append_nil _).symm
  | cons value rest ih =>
    rw [List.length_cons] at room
    rw [pushAll_cons, ih aligned.push (by simp only [size_push]; omega), window_push aligned (by omega),
      List.append_assoc, List.singleton_append]

theorem window_drop (aligned : ring.Aligned cap) (counted : 0 < ring.size)
    (fits : ring.size ≤ cap) : ring.window cap = ring.head :: (ring.drop cap).window cap := by
  obtain ⟨rest, size_eq⟩ : ∃ rest, ring.size = rest + 1 := ⟨ring.size - 1, by omega⟩
  have here : min (rest + 1) cap = rest + 1 := by omega
  have there : min rest cap = rest := by omega
  simp only [window, size_drop, size_eq, Nat.add_sub_cancel, here, there, List.range_succ_eq_map,
    List.map_cons, List.map_map]
  refine congrArg₂ List.cons ?_ (List.map_congr_left ?_)
  · simp [head, Nat.mod_eq_of_lt aligned.front_lt]
  · intro k _
    change ring.array ((ring.front + (k + 1)) % cap) = ring.array (((ring.front + 1) % cap + k) % cap)
    rw [Nat.mod_add_mod, Nat.add_assoc, Nat.add_comm 1 k]

theorem rotate_eq (counted : 0 < ring.size) :
    ring.rotate cap = (ring.drop cap).push cap ring.head := by
  have size_eq : ring.size - 1 + 1 = ring.size := by omega
  simp [rotate, push, drop, put, advance, size_eq]

theorem window_rotate (aligned : ring.Aligned cap) (counted : 0 < ring.size)
    (fits : ring.size ≤ cap) :
    (ring.rotate cap).window cap = (ring.drop cap).window cap ++ [ring.head] := by
  rw [rotate_eq counted]
  exact window_push (aligned.drop counted) (by simp only [size_drop]; omega)

/-! Membership needs no room: overwriting loses entries but invents none. -/

theorem mem_of_mem_push (aligned : ring.Aligned cap)
    (member : entry ∈ (ring.push cap value).window cap) :
    entry = value ∨ entry ∈ ring.window cap := by
  obtain ⟨k, k_lt, read⟩ := mem_window.mp member
  by_cases written : (ring.front + k) % cap = (ring.rear + 1) % cap
  · left
    rw [← read]
    simp [push, put, written]
  · right
    have kept : ring.array ((ring.front + k) % cap) = entry := by
      rw [← read]
      exact (Function.update_of_ne written _ _).symm
    refine mem_window.mpr ⟨k, ?_, kept⟩
    -- offset `size` is the written cell, so `k` is an old offset
    by_contra outside
    simp only [size_push] at k_lt
    have k_eq : k = ring.size := by omega
    exact written (by rw [k_eq, aligned.behind])

theorem mem_of_mem_drop (counted : 0 < ring.size)
    (member : entry ∈ (ring.drop cap).window cap) : entry ∈ ring.window cap := by
  obtain ⟨k, k_lt, read⟩ := mem_window.mp member
  simp only [size_drop] at k_lt
  have read' : ring.array ((ring.front + (k + 1)) % cap) = entry := by
    rw [← read]
    change _ = ring.array (((ring.front + 1) % cap + k) % cap)
    rw [Nat.mod_add_mod, Nat.add_assoc, Nat.add_comm 1 k]
  by_cases last : k + 1 < cap
  · exact mem_window.mpr ⟨k + 1, by omega, read'⟩
  · have wraps : k + 1 = cap := by omega
    refine mem_window.mpr ⟨0, by omega, ?_⟩
    rw [← read', wraps, Nat.add_mod_right, Nat.add_zero]

theorem head_mem_window (aligned : ring.Aligned cap) (counted : 0 < ring.size) :
    ring.head ∈ ring.window cap := by
  have positive : 0 < cap := Nat.zero_lt_of_lt aligned.front_lt
  refine mem_window.mpr ⟨0, by omega, ?_⟩
  rw [Nat.add_zero, Nat.mod_eq_of_lt aligned.front_lt]
  rfl

theorem mem_of_mem_rotate (aligned : ring.Aligned cap) (counted : 0 < ring.size)
    (member : entry ∈ (ring.rotate cap).window cap) : entry ∈ ring.window cap := by
  rw [rotate_eq counted] at member
  rcases mem_of_mem_push (aligned.drop counted) member with rfl | dropped
  · exact head_mem_window aligned counted
  · exact mem_of_mem_drop counted dropped

end CircularBuffer

end Xv6.Data
