import Xv6.Data.Words

namespace Xv6.Memmove

open Xv6.Data

/-! # The two functions `memmove`

The kernel's, from `string.c`, and the one of the user programs, from `ulib.c`, over
the bytes of an address space of 32 bits.
-/

/-- The loop `while (n-- > 0) *d++ = *s++`. -/
def copyForward : Nat → Nat → Nat → Memory → Memory
  | _, _, 0, memory => memory
  | d, s, n + 1, memory => copyForward (d + 1) (s + 1) n (Function.update memory d (memory s))

/-- The loop `while (n-- > 0) *--d = *--s`. -/
def copyBackward : Nat → Nat → Nat → Memory → Memory
  | _, _, 0, memory => memory
  | d, s, n + 1, memory =>
    copyBackward (d - 1) (s - 1) n (Function.update memory (d - 1) (memory (s - 1)))

/-- `memmove` of `string.c`; the sum `s + n` is a pointer of 32 bits. -/
def Kernel.memmove (dst src n : Nat) (memory : Memory) : Memory :=
  if src < dst ∧ (src + n) % 2 ^ 32 > dst then copyBackward (dst + n) (src + n) n memory
  else copyForward dst src n memory

/-- `memmove` of `ulib.c`, whose `n` is an `int`. -/
def User.memmove (dst src : Nat) (n : Int) (memory : Memory) : Memory :=
  copyForward dst src n.toNat memory

/-- What both are for: the bytes at `dst` are what those at `src` were, all others stay. -/
def moved (dst src n : Nat) (memory : Memory) : Memory := fun address =>
  if dst ≤ address ∧ address < dst + n then memory (src + (address - dst)) else memory address

variable {n : Nat} {memory : Memory}

theorem copyForward_below {d s address : Nat} (below : address < d) :
    copyForward d s n memory address = memory address := by
  induction n generalizing d s memory with
  | zero => rfl
  | succ n rest =>
    rw [copyForward, rest (by omega), Function.update_of_ne (by omega)]

/-- A byte that was written before it is read arrives a second time. -/
theorem copyForward_repeats {d s i : Nat} (above : s < d) (inside : i < n) :
    copyForward d s n memory (d + i) = copyForward d s n memory (s + i) := by
  induction n generalizing d s i memory with
  | zero => omega
  | succ n rest =>
    cases i with
    | zero =>
      simp only [copyForward, Nat.add_zero]
      rw [copyForward_below (by omega), copyForward_below (by omega), Function.update_self,
        Function.update_of_ne (by omega)]
    | succ i =>
      have later : copyForward d s (n + 1) memory (d + 1 + i) =
          copyForward d s (n + 1) memory (s + 1 + i) := rest (by omega) (by omega)
      rwa [Nat.add_right_comm d, Nat.add_right_comm s] at later

/-- Wherever a source reaches into a target above it, the two hold the same bytes. -/
def Repeats (dst src n : Nat) (memory : Memory) : Prop :=
  ∀ i, src < dst → dst + i < src + n → memory (dst + i) = memory (src + i)

theorem copyForward_moves {d s : Nat} (repeated : Repeats d s n memory) :
    copyForward d s n memory = moved d s n memory := by
  induction n generalizing d s memory with
  | zero =>
    funext address
    exact (if_neg (by omega)).symm
  | succ n rest =>
    have first := repeated 0
    have next : Repeats (d + 1) (s + 1) n (Function.update memory d (memory s)) := by
      intro i above inside
      have same := repeated (i + 1)
      grind [Function.update_apply]
    rw [copyForward, rest next]
    funext address
    simp only [moved, Function.update_apply]
    grind

theorem repeats_of_moves {d s : Nat}
    (moves : copyForward d s n memory = moved d s n memory) : Repeats d s n memory := by
  intro i above inside
  -- The byte at `d + i` is read as number `d - s + i` of the source.
  have again : copyForward d s n memory (d + (d - s + i)) = copyForward d s n memory (s + (d - s + i)) :=
    copyForward_repeats above (by omega)
  rw [moves] at again
  simp only [moved] at again
  grind

theorem copyBackward_moves {d s : Nat} (above : s < d) :
    copyBackward (d + n) (s + n) n memory = moved d s n memory := by
  induction n generalizing memory with
  | zero =>
    funext address
    exact (if_neg (by omega)).symm
  | succ n rest =>
    rw [copyBackward, ← Nat.add_assoc, ← Nat.add_assoc, Nat.add_sub_cancel, Nat.add_sub_cancel, rest]
    funext address
    simp only [moved, Function.update_apply]
    grind

/-- The kernel looks at the order of the two ranges, so its copy is always right. -/
theorem Kernel.memmove_moves {dst src : Nat} (room : dst + n ≤ 2 ^ 32) :
    Kernel.memmove dst src n memory = moved dst src n memory := by
  rw [Kernel.memmove]
  split
  · next between => exact copyBackward_moves between.1
  · next apart =>
    apply copyForward_moves
    intro i above inside
    have small : (src + n) % 2 ^ 32 = src + n := Nat.mod_eq_of_lt (by omega)
    omega

/-- The user's copy overwrites a source that reaches into a target above it: the two
functions agree just where the bytes there repeat anyway. -/
theorem memmoves_agree_iff (dst src n : Nat) (memory : Memory) (target : dst + n ≤ 2 ^ 32) (size : n < 2 ^ 31) :
    (Kernel.memmove dst src n memory = moved dst src n memory ∧
      User.memmove dst src (BitVec.ofNat 32 n).toInt memory = moved dst src n memory) ↔ Repeats dst src n memory := by
  have int : (BitVec.ofNat 32 n).toInt = n := by
    rw [BitVec.toInt_ofNat']
    exact Int.bmod_eq_of_le (by omega) (by omega)
  rw [int]
  constructor
  · rintro ⟨_, user⟩
    exact repeats_of_moves user
  · intro repeated
    exact ⟨Kernel.memmove_moves target, copyForward_moves repeated⟩

theorem memmoves_agree_downwards :
    Kernel.memmove 0 1 2 (BitVec.ofNat 8) = moved 0 1 2 (BitVec.ofNat 8) ∧
      User.memmove 0 1 2 (BitVec.ofNat 8) = moved 0 1 2 (BitVec.ofNat 8) := by
  apply (memmoves_agree_iff 0 1 2 (BitVec.ofNat 8) (by decide) (by decide)).mpr
  intro i above
  omega

/-- Moved up by one place, the first of two bytes arrives twice. -/
theorem memmoves_differ_upwards :
    Kernel.memmove 1 0 2 (BitVec.ofNat 8) 2 = 1 ∧ User.memmove 1 0 2 (BitVec.ofNat 8) 2 = 0 ∧
      moved 1 0 2 (BitVec.ofNat 8) 2 = 1 := by
  decide

end Xv6.Memmove
