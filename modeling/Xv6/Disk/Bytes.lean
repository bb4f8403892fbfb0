import Xv6.Disk.Block

namespace Xv6.Disk

/-! # Bits and byte ranges of a block -/

/-- The bits of a block: `BSIZE * 8`. -/
abbrev BPB : Nat := 4096

variable {block : Block} {i j : Fin BPB} {k off : Nat} {bytes : List (BitVec 8)}

def byteOf (i : Fin BPB) : Fin BSIZE := ⟨i / 8, Nat.div_lt_of_lt_mul i.isLt⟩

def Block.bit (block : Block) (i : Fin BPB) : Bool := (block (byteOf i)).getLsbD (i % 8)

/-- `data[bi / 8] |= 1 << (bi % 8)` -/
def Block.setBit (block : Block) (i : Fin BPB) : Block := fun k =>
  if k = byteOf i then block k ||| 1#8 <<< (i.val % 8) else block k

/-- `data[bi / 8] &= ~(1 << (bi % 8))` -/
def Block.clearBit (block : Block) (i : Fin BPB) : Block := fun k =>
  if k = byteOf i then block k &&& ~~~(1#8 <<< (i.val % 8)) else block k

theorem getLsbD_mask {m n : Nat} (small : m < 8) : (1#8 <<< n).getLsbD m = decide (m = n) := by
  rw [BitVec.getLsbD_shiftLeft, BitVec.getLsbD_one]
  grind

theorem bit_eq (same : byteOf i = byteOf j) (low : i.val % 8 = j.val % 8) : i = j := by
  have high : i.val / 8 = j.val / 8 := congrArg Fin.val same
  apply Fin.ext
  rw [← Nat.div_add_mod i.val 8, ← Nat.div_add_mod j.val 8, high, low]

theorem Block.bit_setBit : (block.setBit i).bit j = (decide (j = i) || block.bit j) := by
  unfold Block.bit Block.setBit
  by_cases same : byteOf j = byteOf i
  · rw [if_pos same, BitVec.getLsbD_or, getLsbD_mask (Nat.mod_lt _ (by decide)), Bool.or_comm]
    have there : decide (j.val % 8 = i.val % 8) = decide (j = i) := by
      rw [decide_eq_decide]
      exact ⟨fun low => bit_eq same low, fun equal => by rw [equal]⟩
    rw [there]
  · rw [if_neg same]
    have different : j ≠ i := fun equal => same (by rw [equal])
    simp [different]

/-- `memmove(data + off, bytes, length)` -/
def Block.copy (block : Block) (off : Nat) (bytes : List (BitVec 8)) : Block := fun k =>
  if off ≤ k.val then bytes[k.val - off]?.getD (block k) else block k

def Block.byte (block : Block) (k : Nat) : BitVec 8 := if inside : k < BSIZE then block ⟨k, inside⟩ else 0

/-- `memmove(bytes, data + off, n)` -/
def Block.slice (block : Block) (off n : Nat) : List (BitVec 8) :=
  (List.range n).map fun k => block.byte (off + k)

theorem Block.byte_copy_inside (inside : k < BSIZE) (lower : off ≤ k) (upper : k - off < bytes.length) :
    (block.copy off bytes).byte k = bytes[k - off] := by
  rw [Block.byte, dif_pos inside, Block.copy, if_pos lower, List.getElem?_eq_getElem upper]
  rfl

theorem Block.byte_copy_outside (outside : k < off ∨ off + bytes.length ≤ k) :
    (block.copy off bytes).byte k = block.byte k := by
  unfold Block.byte Block.copy
  split
  · dsimp only
    split
    · rename_i lower
      rw [List.getElem?_eq_none (by omega)]
      rfl
    · rfl
  · rfl

theorem Block.word_zero (k : Fin NINDIRECT) : Block.zero.word k = 0 := by
  change (0#8 ++ 0#8 ++ 0#8 ++ 0#8 : BitVec 32) = 0
  decide

end Xv6.Disk
