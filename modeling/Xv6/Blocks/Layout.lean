import Xv6.Blocks.Machine

namespace Xv6.Blocks

open Xv6.Data Xv6.Disk
open Xv6.Fs (Inum NDIRECT MAXFILE Stop)

/-! # The regions of the disk

The inodes, the free map and the data blocks do not overlap. -/

variable {block : Block} {slot other : Fin IPB} {ip : Dinode}

theorem word_foldl (words : Fin 16 → BitVec 32) {js : List (Fin 16)} (distinct : js.Nodup) (j : Fin 16) :
    (js.foldl (fun b j => b.setWord (dinodeWord slot j) (words j)) block).word (dinodeWord other j) =
      if other = slot ∧ j ∈ js then words j else block.word (dinodeWord other j) := by
  induction js generalizing block with
  | nil => simp
  | cons head rest ih =>
    obtain ⟨fresh, tail⟩ := List.nodup_cons.mp distinct
    rw [List.foldl_cons, ih tail]
    by_cases same : dinodeWord other j = dinodeWord slot head
    · have pair := finProdFinEquiv.injective same
      simp only [Prod.mk.injEq] at pair
      obtain ⟨rfl, rfl⟩ := pair
      simp [fresh]
    · rw [Block.word_setWord_of_ne _ _ same]
      have apart : ¬(other = slot ∧ j = head) := fun ⟨sameSlot, sameWord⟩ => same (by rw [sameSlot, sameWord])
      grind

theorem word_setDinode (j : Fin 16) : (setDinode block slot ip).word (dinodeWord other j) =
    if other = slot then ip.words j else block.word (dinodeWord other j) := by
  simp [setDinode, word_foldl ip.words (List.nodup_finRange 16) j]

theorem low_append (high low : BitVec 16) : (high ++ low).setWidth 16 = low := by
  apply BitVec.eq_of_getLsbD_eq
  intro k inside
  simp only [BitVec.getLsbD_setWidth, BitVec.getLsbD_append, inside, decide_true, Bool.true_and, ↓reduceIte]

theorem high_append (high low : BitVec 16) : (high ++ low).extractLsb' 16 16 = high := by
  apply BitVec.eq_of_getLsbD_eq
  intro k inside
  simp only [BitVec.getLsbD_extractLsb', BitVec.getLsbD_append]
  grind

theorem getDinode_setDinode : getDinode (setDinode block slot ip) other =
    if other = slot then ip else getDinode block other := by
  by_cases same : other = slot
  · simp only [getDinode, word_setDinode, same, ↓reduceIte]
    have addrs (k : Fin (NDIRECT + 1)) : ip.words ⟨k + 3, Nat.add_lt_add_right k.isLt 3⟩ = ip.addrs k := by
      have past (m : Fin 16) (small : m.val < 3) : (⟨k + 3, Nat.add_lt_add_right k.isLt 3⟩ : Fin 16) ≠ m := by
        intro same
        have value : k.val + 3 = m.val := congrArg Fin.val same
        omega
      rw [Dinode.words, if_neg (past 0 (by decide)), if_neg (past 1 (by decide)), if_neg (past 2 (by decide))]
      rfl
    simp only [addrs]
    simp [Dinode.words, low_append, high_append]
  · simp only [getDinode, word_setDinode, same, ↓reduceIte]

/-- The data blocks start behind the boot block, the superblock, the log, the
inodes and the free map. -/
def Superblock.metadata (sb : Superblock) : Nat := sb.size - sb.nblocks

structure Layout (sb : Superblock) : Prop where
  inodes : ∀ i < sb.ninodes, IBLOCK sb i < sb.bmapstart
  bitmap : ∀ b < sb.size, BBLOCK sb b < sb.metadata
  positive : 0 < sb.size
  small : sb.size ≤ FSSIZE

variable {sb : Superblock} {d e : Device} {b c n : Nat} {i j : Inum}

def Device.bit (sb : Superblock) (d : Device) (b : Nat) : Bool := (d.block (BBLOCK sb b)).bit (bitOf b)

def Device.dinode (sb : Superblock) (d : Device) (i : Inum) : Dinode :=
  getDinode (d.block (IBLOCK sb i)) (slotOf i)

def OffMap (sb : Superblock) (b : Nat) : Prop := b < sb.bmapstart ∨ sb.metadata ≤ b

theorem Layout.offMap_ne (layout : Layout sb) (inside : b < sb.size) (off : OffMap sb c) : BBLOCK sb b ≠ c := by
  have lower : sb.bmapstart ≤ BBLOCK sb b := Nat.le_add_left _ _
  have upper := layout.bitmap b inside
  cases off with
  | inl before => exact Nat.ne_of_gt (before.trans_le lower)
  | inr behind => exact Nat.ne_of_lt (upper.trans_le behind)

theorem Layout.inode_lt (layout : Layout sb) (inside : i < sb.ninodes) (data : sb.metadata ≤ b) (below : b < sb.size) :
    IBLOCK sb i < b := by
  have map : sb.bmapstart ≤ BBLOCK sb b := Nat.le_add_left _ _
  exact (layout.inodes i inside).trans_le (map.trans ((layout.bitmap b below).le.trans data))

theorem Layout.inode_small (layout : Layout sb) (inside : i < sb.ninodes) : IBLOCK sb i < FSSIZE := by
  have map : sb.bmapstart ≤ BBLOCK sb 0 := Nat.le_add_left _ _
  have below := (layout.bitmap 0 layout.positive).trans_le (Nat.sub_le sb.size sb.nblocks)
  exact (layout.inodes i inside).trans_le (map.trans (below.le.trans layout.small))

theorem eq_of_bit (sameBlock : BBLOCK sb b = BBLOCK sb c) (sameBit : bitOf b = bitOf c) : b = c := by
  have high : b / BPB = c / BPB := Nat.add_right_cancel sameBlock
  have low : b % BPB = c % BPB := congrArg Fin.val sameBit
  rw [← Nat.div_add_mod b BPB, ← Nat.div_add_mod c BPB, high, low]

theorem eq_of_slot (sameBlock : IBLOCK sb i = IBLOCK sb j) (sameSlot : slotOf i = slotOf j) : i = j := by
  have high : i / IPB = j / IPB := Nat.add_right_cancel sameBlock
  have low : i % IPB = j % IPB := congrArg Fin.val sameSlot
  rw [← Nat.div_add_mod i IPB, ← Nat.div_add_mod j IPB, high, low]

theorem Device.bit_update {value : Bool} {changed : Block}
    (bits : ∀ k, changed.bit k = if k = bitOf b then value else (d.block (BBLOCK sb b)).bit k) (c : Nat) :
    (d.write (BBLOCK sb b) changed).bit sb c = if c = b then value else d.bit sb c := by
  unfold Device.bit Device.write
  by_cases sameBlock : BBLOCK sb c = BBLOCK sb b
  · dsimp only
    rw [sameBlock, Function.update_self, bits]
    have there : bitOf c = bitOf b ↔ c = b := ⟨eq_of_bit sameBlock, fun same => by rw [same]⟩
    simp only [there]
  · dsimp only
    rw [Function.update_of_ne sameBlock, if_neg]
    intro same
    exact sameBlock (by rw [same])

theorem Device.dinode_update :
    (d.write (IBLOCK sb i) (setDinode (d.block (IBLOCK sb i)) (slotOf i) ip)).dinode sb j =
      if j = i then ip else d.dinode sb j := by
  unfold Device.dinode Device.write
  by_cases sameBlock : IBLOCK sb j = IBLOCK sb i
  · dsimp only
    rw [sameBlock, Function.update_self, getDinode_setDinode]
    have there : slotOf j = slotOf i ↔ j = i := ⟨eq_of_slot sameBlock, fun same => by rw [same]⟩
    simp only [there]
  · dsimp only
    rw [Function.update_of_ne sameBlock, if_neg]
    intro same
    exact sameBlock (by rw [same])

variable {α : Type} {fine : Stop → Prop} {last : α → Device → Prop} {data : Block}

theorem bread_bind {next : Block → Io α} (inside : b < FSSIZE) (rest : Meets fine (next (d.block b)) d last) :
    Meets fine (bread b >>= next) d last := by
  have ran : (bread b).run d = .ok (d.block b, d) := by
    simp only [bread, if_pos inside]
    rfl
  apply (Meets.returns ran ⟨rfl, rfl⟩ : Meets fine (bread b) d fun bp e => bp = d.block b ∧ e = d).bind
  intro bp e ⟨isBlock, same⟩
  subst isBlock same
  exact rest

theorem logWrite_bind {next : Unit → Io α} (rest : Meets fine (next ()) (d.write b data) last) :
    Meets fine (logWrite b data >>= next) d last := Meets.modify_bind rest

@[simp] theorem Device.write_self : (d.write b data).block b = data := Function.update_self ..

theorem Device.write_of_ne (different : c ≠ b) : (d.write b data).block c = d.block c :=
  Function.update_of_ne different ..

theorem bzero_bind {next : Unit → Io α} (inside : b < FSSIZE)
    (rest : Meets fine (next ()) (d.write b Block.zero) last) : Meets fine (bzero b >>= next) d last := by
  unfold bzero
  rw [bind_assoc]
  exact bread_bind inside (logWrite_bind rest)

/-- From `d` to `e` only blocks of the free map and those that are `new` have been logged. -/
def Logs (sb : Superblock) (d : Device) (new : Nat → Prop) (e : Device) : Prop :=
  ∀ b ∈ e.logged, b ∈ d.logged ∨ new b ∨ ∃ c < sb.size, b = BBLOCK sb c

namespace Logs

variable {f : Device} {new wider : Nat → Prop}

theorem refl : Logs sb d new d := fun _ member => .inl member

theorem write (isNew : new b) : Logs sb d new (d.write b data) := by
  intro c member
  cases member with
  | head => exact .inr (.inl isNew)
  | tail _ member => exact .inl member

theorem mono (logs : Logs sb d new e) (more : ∀ b, new b → wider b) : Logs sb d wider e := by
  intro b member
  exact (logs b member).imp id (.imp (more b) id)

theorem trans (first : Logs sb d new e) (second : Logs sb e new f) : Logs sb d new f := by
  intro b member
  cases second b member with
  | inl old => exact first b old
  | inr logged => exact .inr logged

end Logs

structure Allocated (sb : Superblock) (d : Device) (n : Nat) (e : Device) : Prop where
  lower : sb.metadata ≤ n
  upper : n < sb.size
  free : d.bit sb n = false
  bits : ∀ c < sb.size, e.bit sb c = if c = n then true else d.bit sb c
  zero : e.block n = Block.zero
  frame : ∀ c, OffMap sb c → c ≠ n → e.block c = d.block c
  logged : Logs sb d (· = n) e

theorem logs_map {new : Nat → Prop} (inside : n < sb.size) : Logs sb d new (d.write (BBLOCK sb n) data) := by
  intro c member
  cases member with
  | head => exact .inr (.inr ⟨n, inside, rfl⟩)
  | tail _ member => exact .inl member

theorem Layout.allocated (layout : Layout sb) (reserved : ∀ c < sb.metadata, d.bit sb c = true) (inside : n < sb.size)
    (free : d.bit sb n = false) :
    Allocated sb d n ((d.write (BBLOCK sb n) ((d.block (BBLOCK sb n)).setBit (bitOf n))).write n Block.zero) := by
  have lower : sb.metadata ≤ n := by
    cases Nat.lt_or_ge n sb.metadata with
    | inl below => rw [reserved n below] at free; cases free
    | inr above => exact above
  refine ⟨lower, inside, free, ?_, Device.write_self, ?_, ?_⟩
  · intro c below
    have apart := layout.offMap_ne below (.inr lower)
    rw [Device.bit, Device.write_of_ne apart]
    apply Device.bit_update
    intro k
    rw [Block.bit_setBit]
    by_cases same : k = bitOf n <;> simp [same]
  · intro c off different
    rw [Device.write_of_ne different, Device.write_of_ne (layout.offMap_ne inside off).symm]
  · exact (logs_map inside).trans (.write rfl)

theorem BBLOCK_add (aligned : b % BPB = 0) (bi : Fin BPB) : BBLOCK sb (b + bi) = BBLOCK sb b ∧ bitOf (b + bi) = bi := by
  obtain ⟨k, rfl⟩ := Nat.dvd_of_mod_eq_zero aligned
  have positive : 0 < BPB := by decide
  refine ⟨?_, Fin.ext ?_⟩
  · rw [BBLOCK, BBLOCK, Nat.mul_add_div positive, Nat.div_eq_of_lt bi.isLt, Nat.add_zero,
      Nat.mul_div_cancel_left _ positive]
  · exact (Nat.mul_add_mod ..).trans (Nat.mod_eq_of_lt bi.isLt)

theorem freeBit_some {bp : Block} {bi : Fin BPB} (found : freeBit sb bp b = some bi) :
    b + bi < sb.size ∧ bp.bit bi = false := by
  unfold freeBit at found
  simpa using List.find?_some found

theorem freeBit_none {bp : Block} (missing : freeBit sb bp b = none) (bi : Fin BPB) (below : b + bi < sb.size) :
    bp.bit bi = true := by
  unfold freeBit at missing
  simpa [below] using List.find?_eq_none.mp missing bi (List.mem_finRange bi)

theorem ballocLoop_meets (layout : Layout sb) (reserved : ∀ c < sb.metadata, d.bit sb c = true) {fuel : Nat}
    (aligned : b % BPB = 0) (enough : sb.size ≤ b + fuel * BPB) (before : ∀ c < b, c < sb.size → d.bit sb c = true) :
    Meets (fun reason => reason = .panic .balloc ∧ ∀ c < sb.size, d.bit sb c = true) (ballocLoop sb fuel b) d
      fun addr e => ∃ n, addr = BitVec.ofNat 32 n ∧ Allocated sb d n e := by
  induction fuel generalizing b with
  | zero =>
    apply Meets.throw
    refine ⟨rfl, fun c inside => before c ?_ inside⟩
    rw [Nat.zero_mul, Nat.add_zero] at enough
    exact inside.trans_le enough
  | succ fuel ih =>
    rw [ballocLoop]
    split
    · rename_i inside
      apply bread_bind (((layout.bitmap b inside).trans_le (Nat.sub_le _ _)).trans_le layout.small)
      split
      · rename_i bi found
        obtain ⟨below, clear⟩ : b + bi < sb.size ∧ _ := freeBit_some found
        obtain ⟨sameBlock, sameBit⟩ : BBLOCK sb (b + bi) = BBLOCK sb b ∧ bitOf (b + bi) = bi :=
          BBLOCK_add aligned bi
        have free : d.bit sb (b + bi) = false := by
          rw [Device.bit, sameBlock, sameBit]
          exact clear
        apply logWrite_bind
        apply bzero_bind (below.trans_le layout.small)
        apply Meets.pure
        refine ⟨b + bi, rfl, ?_⟩
        have allocated := layout.allocated reserved below free
        rw [sameBlock, sameBit] at allocated
        exact allocated
      · rename_i missing
        apply ih
        · rw [Nat.add_mod_right]
          exact aligned
        · rw [Nat.succ_mul] at enough
          omega
        · intro c bound below
          cases Nat.lt_or_ge c b with
          | inl earlier => exact before c earlier below
          | inr here =>
            have small : c - b < BPB := by omega
            obtain ⟨sameBlock, sameBit⟩ : BBLOCK sb (b + (c - b)) = BBLOCK sb b ∧
              bitOf (b + (c - b)) = ⟨c - b, small⟩ := BBLOCK_add aligned ⟨c - b, small⟩
            rw [Nat.add_sub_cancel' here] at sameBlock sameBit
            rw [Device.bit, sameBlock, sameBit]
            exact freeBit_none missing ⟨c - b, small⟩ ((Nat.add_sub_cancel' here).trans_lt below)
    · rename_i outside
      apply Meets.throw
      exact ⟨rfl, fun c inside => before c (by omega) inside⟩

theorem balloc_meets (layout : Layout sb) (reserved : ∀ c < sb.metadata, d.bit sb c = true) :
    Meets (fun reason => reason = .panic .balloc ∧ ∀ c < sb.size, d.bit sb c = true) (balloc sb) d
      fun addr e => ∃ n, addr = BitVec.ofNat 32 n ∧ Allocated sb d n e := by
  apply ballocLoop_meets layout reserved rfl
  · have below := Nat.lt_mul_div_succ sb.size (show 0 < BPB by decide)
    rw [Nat.zero_add, Nat.mul_comm]
    exact below.le
  · intro c negative
    exact absurd negative (Nat.not_lt_zero c)

end Xv6.Blocks
