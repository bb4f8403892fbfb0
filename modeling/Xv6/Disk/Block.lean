import Xv6.Data.Words

namespace Xv6.Disk

open Xv6.Data

/-! # Disk blocks

Arrays of `BSIZE` bytes, also read and written as arrays of 32-bit words. -/

abbrev BSIZE : Nat := 512

abbrev NINDIRECT : Nat := 128

scoped instance : NeZero NINDIRECT := ⟨by decide⟩

abbrev BlockNo := BitVec 32

def Block := Fin BSIZE → BitVec 8

def Block.zero : Block := fun _ => 0

def Block.word (block : Block) (i : Fin NINDIRECT) : BitVec 32 := getWord (n := NINDIRECT) block i

def Block.setWord (block : Block) (i : Fin NINDIRECT) (value : BitVec 32) : Block :=
  Data.setWord (n := NINDIRECT) block i value

@[simp] theorem Block.word_setWord_self (block : Block) (i : Fin NINDIRECT) (value : BitVec 32) :
    (block.setWord i value).word i = value :=
  getWord_setWord_self ..

theorem Block.word_setWord_of_ne (block : Block) {i j : Fin NINDIRECT} (value : BitVec 32)
    (different : j ≠ i) : (block.setWord i value).word j = block.word j :=
  getWord_setWord_of_ne _ _ different

end Xv6.Disk
