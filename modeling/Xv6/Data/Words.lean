import Mathlib

namespace Xv6.Data

/-! # Bytes and words

A byte array of `n` words is read and written one little-endian word at a time.
-/

abbrev Byte := BitVec 8

/-- Memory that is addressed byte by byte. -/
abbrev Memory := Nat → Byte

variable {n : Nat}

def getWord (bytes : Fin (n * 4) → Byte) (i : Fin n) : BitVec 32 :=
  bytes (finProdFinEquiv (i, 3)) ++ bytes (finProdFinEquiv (i, 2)) ++
    bytes (finProdFinEquiv (i, 1)) ++ bytes (finProdFinEquiv (i, 0))

def setWord (bytes : Fin (n * 4) → Byte) (i : Fin n) (value : BitVec 32) : Fin (n * 4) → Byte :=
  fun j =>
    if (finProdFinEquiv.symm j).1 = i then value.extractLsb' (8 * (finProdFinEquiv.symm j).2) 8
    else bytes j

theorem extract_bytes (value : BitVec 32) :
    value.extractLsb' 24 8 ++ value.extractLsb' 16 8 ++ value.extractLsb' 8 8 ++ value.extractLsb' 0 8 =
      value := by
  apply BitVec.eq_of_getLsbD_eq
  intro k inside
  simp only [BitVec.getLsbD_append, BitVec.getLsbD_extractLsb']
  grind

@[simp] theorem getWord_setWord_self (bytes : Fin (n * 4) → Byte) (i : Fin n) (value : BitVec 32) :
    getWord (setWord bytes i value) i = value := by
  simp only [getWord, setWord, Equiv.symm_apply_apply, if_true]
  exact extract_bytes value

theorem getWord_setWord_of_ne (bytes : Fin (n * 4) → Byte) {i j : Fin n} (value : BitVec 32)
    (different : j ≠ i) : getWord (setWord bytes i value) j = getWord bytes j := by
  simp [getWord, setWord, different]

end Xv6.Data
