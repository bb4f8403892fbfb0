import Xv6.Blocks.Mapping
import Xv6.Fs.Dirents

namespace Xv6.Blocks

open Xv6.Data Xv6.Disk
open Function (update update_self update_of_ne update_eq_self update_idem)
open Xv6.Fs (Inum NDIRECT MAXFILE Stop overwrite)

/-! # Files as arrays of bytes

`readi` and `writei` work block by block on what is one array. -/

variable {sb : Superblock} {inode : Inum → Dinode} {d e : Device} {count off n : Nat} {i j : Inum} {ip : Dinode}
  {src : List Byte} {fine : Stop → Prop}

def fileByte (blocks : Fin MAXFILE → Option Block) (k : Nat) : Byte :=
  if inside : k / BSIZE < MAXFILE then ((blocks ⟨k / BSIZE, inside⟩).getD Block.zero).byte (k % BSIZE) else 0

def contents (ip : Dinode) (d : Device) : List Byte := (List.range ip.size.toNat).map (fileByte (fileBlocks ip d))

def ceilBlocks (size : Nat) : Nat := (size + (BSIZE - 1)) / BSIZE

theorem lt_ceilBlocks {k size : Nat} (below : k < size) : k / BSIZE < ceilBlocks size := by
  simp only [ceilBlocks, BSIZE]
  omega

theorem le_ceilBlocks (size : Nat) : size ≤ ceilBlocks size * BSIZE := by
  simp only [ceilBlocks, BSIZE]
  omega

theorem ceilBlocks_le {size : Nat} (fits : size ≤ count * BSIZE) : ceilBlocks size ≤ count := by
  simp only [ceilBlocks, BSIZE] at fits ⊢
  omega

theorem fileByte_round {blocks : Fin MAXFILE → Option Block} {block : Block} {bn : Fin MAXFILE} {k : Nat}
    (here : off / BSIZE = bn) (there : blocks bn = some block) (within : k < BSIZE - off % BSIZE) :
    fileByte blocks (off + k) = block.byte (off % BSIZE + k) := by
  have high : (off + k) / BSIZE = bn := by
    rw [← here]
    simp only [BSIZE] at within ⊢
    omega
  have low : (off + k) % BSIZE = off % BSIZE + k := by
    simp only [BSIZE] at within ⊢
    omega
  have inside : (off + k) / BSIZE < MAXFILE := high.trans_lt bn.isLt
  have same : (⟨(off + k) / BSIZE, inside⟩ : Fin MAXFILE) = bn := Fin.ext high
  rw [fileByte, dif_pos inside, same, there, low]
  rfl

theorem readiLoop_meets {fuel : Nat} (owned : Owned sb inode d) (inside : i < sb.ninodes)
    (filled : Filled (inode i) d count) (enough : n ≤ fuel) (fits : off + n ≤ count * BSIZE) :
    Meets fine (readiLoop sb fuel (inode i) off n) d fun r e =>
      r = ((List.range n).map fun k => fileByte (fileBlocks (inode i) d) (off + k), inode i) ∧ e = d := by
  induction fuel generalizing off n with
  | zero =>
    rw [Nat.le_zero.mp enough]
    exact .pure ⟨rfl, rfl⟩
  | succ fuel ih =>
    rw [readiLoop]
    by_cases done : n = 0
    · rw [if_pos done, done]
      exact .pure ⟨rfl, rfl⟩
    · rw [if_neg done]
      have present : off / BSIZE < count := by
        simp only [BSIZE] at fits ⊢
        omega
      have below : off / BSIZE < MAXFILE := present.trans_le filled.bound
      have stored := (filled.data ⟨off / BSIZE, below⟩).mpr present
      apply (bmap_found owned inside filled ⟨off / BSIZE, below⟩ present).bind
      intro r e ⟨isFound, same⟩
      subst isFound same
      dsimp only
      apply bread_bind (owned.small inside stored)
      have positive : 0 < min n (BSIZE - off % BSIZE) := by
        have room := Nat.mod_lt off (show 0 < BSIZE by decide)
        omega
      generalize count' : min n (BSIZE - off % BSIZE) = m at positive ⊢
      have tail : Meets fine (readiLoop sb fuel (inode i) (off + m) (n - m)) e _ := ih (by omega) (by omega)
      apply tail.bind
      intro r e ⟨isRest, same⟩
      subst isRest same
      apply Meets.pure
      refine ⟨?_, rfl⟩
      have split : n = m + (n - m) := by omega
      nth_rewrite 3 [split]
      rw [List.range_add, List.map_append, List.map_map]
      have there : fileBlocks (inode i) e ⟨off / BSIZE, below⟩ =
          some (e.block (slotAddr (inode i) e (dataSlot ⟨off / BSIZE, below⟩)).toNat) := if_neg stored
      have first : (e.block (slotAddr (inode i) e (dataSlot ⟨off / BSIZE, below⟩)).toNat).slice (off % BSIZE) m =
          (List.range m).map fun k => fileByte (fileBlocks (inode i) e) (off + k) := by
        apply List.map_congr_left
        intro k member
        have within := List.mem_range.mp member
        exact (fileByte_round rfl there (by omega)).symm
      rw [first]
      simp only [Function.comp_def, Nat.add_assoc]

section

variable {bn : Fin MAXFILE} (owned : Owned sb inode d) (inside : i < sb.ninodes)
  (stored : slotAddr (inode i) d (dataSlot bn) ≠ 0) (data : Block)
include owned inside

variable (bn) in
/-- A block of data is not the indirect block of any inode. -/
theorem slotAddr_write (within : j < sb.ninodes) (s : Slot) :
    slotAddr (inode j) (d.write (slotAddr (inode i) d (dataSlot bn)).toNat data) s = slotAddr (inode j) d s := by
  apply slotAddr_same
  intro indirect
  apply Device.write_of_ne
  intro same
  have both := owned.unique (s := .addr INDIRECT) within inside indirect (BitVec.eq_of_toNat_eq same)
  exact dataSlot_ne bn both.2.symm

include stored

theorem Owned.write_data : Owned sb inode (d.write (slotAddr (inode i) d (dataSlot bn)).toNat data) :=
  owned.write (.inr (owned.data inside stored).1) fun _ within s => slotAddr_write bn owned inside data within s

theorem fileBlocks_write (within : j < sb.ninodes) (k : Fin MAXFILE) :
    fileBlocks (inode j) (d.write (slotAddr (inode i) d (dataSlot bn)).toNat data) k =
      if j = i ∧ k = bn then some data else fileBlocks (inode j) d k := by
  have slot := slotAddr_write bn owned inside data within (dataSlot k)
  by_cases here : j = i ∧ k = bn
  · obtain ⟨rfl, rfl⟩ := here
    rw [fileBlocks, slot, if_neg stored, if_pos ⟨rfl, rfl⟩, Device.write_self]
  · rw [if_neg here]
    apply fileBlocks_same slot
    intro storedK
    apply Device.write_of_ne
    intro same
    have both := owned.unique within inside storedK (BitVec.eq_of_toNat_eq same)
    exact here ⟨both.1, dataSlot_injective both.2⟩

theorem dinode_write (within : j < sb.ninodes) :
    (d.write (slotAddr (inode i) d (dataSlot bn)).toNat data).dinode sb j = d.dinode sb j := by
  have used := owned.data inside stored
  rw [Device.dinode, Device.write_of_ne (Nat.ne_of_lt (owned.layout.inode_lt within used.1 used.2.1))]
  rfl

end

structure Written (sb : Superblock) (inode : Inum → Dinode) (d : Device) (i : Inum) (count off : Nat) (src : List Byte)
    (ip : Dinode) (e : Device) : Prop
    extends Extended sb inode d i count (max count (ceilBlocks (off + src.length))) ip e where
  new : ∀ k (below : k < src.length), fileByte (fileBlocks ip e) (off + k) = src[k]
  old : ∀ k, k < off ∨ off + src.length ≤ k → k < count * BSIZE →
    fileByte (fileBlocks ip e) k = fileByte (fileBlocks (inode i) d) k
  logged : Logs sb d (fun b => (ip.addrs INDIRECT ≠ 0 ∧ b = (ip.addrs INDIRECT).toNat) ∨
    ∃ bn : Fin MAXFILE, off / BSIZE ≤ bn.val ∧ bn.val * BSIZE < off + src.length ∧
      slotAddr ip e (dataSlot bn) ≠ 0 ∧ b = (slotAddr ip e (dataSlot bn)).toNat) e

theorem ceilBlocks_mono {size more : Nat} (less : size ≤ more) : ceilBlocks size ≤ ceilBlocks more :=
  Nat.div_le_div_right (Nat.add_le_add_right less _)

theorem Written.nil (owned : Owned sb inode d) (filled : Filled (inode i) d count) (fits : off ≤ count * BSIZE) :
    Written sb inode d i count off [] (inode i) d := by
  have same : max count (ceilBlocks (off + ([] : List Byte).length)) = count := Nat.max_eq_left (ceilBlocks_le fits)
  refine ⟨?_, fun k below => absurd below (Nat.not_lt_zero k), fun _ _ _ => rfl, .refl⟩
  rw [same]
  exact .refl owned filled

theorem Mapped.written {bn : Fin MAXFILE} {addr : BlockNo} (mapped : Mapped sb inode d i count bn addr ip e)
    (inside : i < sb.ninodes) (here : off / BSIZE = bn) (nonempty : src ≠ []) (round : src.length ≤ BSIZE - off % BSIZE) :
    Written sb inode d i count off src ip (e.write addr.toNat ((e.block addr.toNat).copy (off % BSIZE) src)) := by
  have positive := List.length_pos_iff.mpr nonempty
  have room := Nat.mod_lt off (show 0 < BSIZE by decide)
  have parts := Nat.div_add_mod off BSIZE
  have more : max count (ceilBlocks (off + src.length)) = max count (bn + 1) := by
    rw [← here]
    simp only [ceilBlocks, BSIZE] at positive room round parts ⊢
    omega
  have self : update inode i ip i = ip := update_self ..
  have stored : slotAddr ip e (dataSlot bn) ≠ 0 := (mapped.filled.data bn).mpr (by omega)
  have storedHere : slotAddr (update inode i ip i) e (dataSlot bn) ≠ 0 := by
    rw [self]
    exact stored
  have isAddr : addr = slotAddr (update inode i ip i) e (dataSlot bn) := by
    rw [self]
    exact mapped.found
  have there : fileBlocks ip e bn = some (e.block addr.toNat) := by
    rw [mapped.found]
    exact if_neg stored
  generalize copied : (e.block addr.toNat).copy (off % BSIZE) src = data
  have slots (s : Slot) : slotAddr ip (e.write addr.toNat data) s = slotAddr ip e s := by
    have same := slotAddr_write bn mapped.owned inside data inside s
    rw [← isAddr, self] at same
    exact same
  have blocks (k : Fin MAXFILE) :
      fileBlocks ip (e.write addr.toNat data) k = if k = bn then some data else fileBlocks ip e k := by
    have same := fileBlocks_write mapped.owned inside storedHere data inside k
    rw [← isAddr, self] at same
    simpa only [true_and] using same
  refine ⟨?_, ?_, ?_, ?_⟩
  · constructor
    · have owned := mapped.owned.write_data inside storedHere data
      rw [← isAddr] at owned
      exact owned
    · rw [more]
      refine ⟨?_, mapped.filled.indirect, mapped.filled.bound⟩
      intro k
      rw [slots]
      exact mapped.filled.data k
    · exact mapped.fields
    · intro s before
      rw [slots]
      exact mapped.kept s before
    · intro j within different s
      have same := slotAddr_write bn mapped.owned inside data within s
      rw [← isAddr, update_of_ne different] at same
      exact same.trans (mapped.slots j within different s)
    · intro j within different
      funext k
      have same := fileBlocks_write mapped.owned inside storedHere data within k
      rw [← isAddr, update_of_ne different, if_neg fun both => different both.1] at same
      rw [same, mapped.others j within different]
    · intro j within
      have same := dinode_write mapped.owned inside storedHere data within
      rw [← isAddr] at same
      rw [same, mapped.dinode j within]
    · have used := mapped.owned.data inside storedHere
      rw [← isAddr] at used
      rw [more, freeBlocks_write mapped.owned.layout (.inr used.1)]
      exact mapped.free
  · intro k below
    have new : fileBlocks ip (e.write addr.toNat data) bn = some data := by rw [blocks, if_pos rfl]
    rw [fileByte_round here new (by omega), ← copied]
    rw [Block.byte_copy_inside (by omega) (by omega) (by omega)]
    simp only [Nat.add_sub_cancel_left]
  · intro k outside below
    by_cases inFile : k / BSIZE < MAXFILE
    · rw [fileByte, fileByte, dif_pos inFile, dif_pos inFile, blocks]
      by_cases same : (⟨k / BSIZE, inFile⟩ : Fin MAXFILE) = bn
      · have high : k / BSIZE = off / BSIZE := by rw [here, ← same]
        have present : bn.val < count := by
          rw [← here, ← high]
          exact Nat.div_lt_of_lt_mul (by rw [Nat.mul_comm]; exact below)
        have kParts := Nat.div_add_mod k BSIZE
        rw [if_pos same, same, ← mapped.blocks bn (.inr present), there, ← copied]
        exact Block.byte_copy_outside (by
          rw [high] at kParts
          omega)
      · rw [if_neg same, mapped.blocks _ (.inl same)]
    · rw [fileByte, fileByte, dif_neg inFile, dif_neg inFile]
  · have own : ∃ k : Fin MAXFILE, off / BSIZE ≤ k.val ∧ k.val * BSIZE < off + src.length ∧
        slotAddr ip (e.write addr.toNat data) (dataSlot k) ≠ 0 ∧
          addr.toNat = (slotAddr ip (e.write addr.toNat data) (dataSlot k)).toNat := by
      refine ⟨bn, here.le, ?_, ?_, ?_⟩
      · rw [← here, Nat.mul_comm]
        omega
      · rw [slots]
        exact stored
      · rw [slots, ← mapped.found]
    apply (mapped.logged.mono ?_).trans (.write (.inr own))
    intro b new
    cases new with
    | inl isAddr =>
      rw [isAddr]
      exact .inr own
    | inr isIndirect => exact .inl isIndirect

theorem Written.append {rest : List Byte} {last : Dinode} {f : Device}
    (first : Written sb inode d i count off src ip e)
    (second : Written sb (update inode i ip) e i (max count (ceilBlocks (off + src.length)))
      (off + src.length) rest last f) : Written sb inode d i count off (src ++ rest) last f := by
  have self : update inode i ip i = ip := update_self ..
  have length : off + (src ++ rest).length = off + src.length + rest.length := by
    rw [List.length_append, Nat.add_assoc]
  have grown := ceilBlocks_mono (Nat.le_add_right (off + src.length) rest.length)
  have more : max (max count (ceilBlocks (off + src.length))) (ceilBlocks (off + src.length + rest.length)) =
      max count (ceilBlocks (off + (src ++ rest).length)) := by
    rw [length]
    omega
  have keep (s : Slot) (stored : slotAddr ip e s ≠ 0) : slotAddr last f s = slotAddr ip e s := by
    have same := second.kept s
    rw [self] at same
    exact same stored
  have reach := le_ceilBlocks (off + src.length)
  have wide : ceilBlocks (off + src.length) * BSIZE ≤ max count (ceilBlocks (off + src.length)) * BSIZE :=
    Nat.mul_le_mul_right _ (Nat.le_max_right ..)
  refine ⟨?_, ?_, ?_, ?_⟩
  · constructor
    · have owned := second.owned
      rw [update_idem] at owned
      exact owned
    · have filled := second.filled
      rw [more] at filled
      exact filled
    · have fields := second.fields
      rw [self] at fields
      rw [fields, first.fields]
    · intro s before
      have stored : slotAddr ip e s ≠ 0 := by
        rw [first.kept s before]
        exact before
      rw [keep s stored, first.kept s before]
    · intro j within different s
      have same := second.slots j within different s
      rw [update_of_ne different] at same
      rw [same, first.slots j within different s]
    · intro j within different
      have same := second.others j within different
      rw [update_of_ne different] at same
      rw [same, first.others j within different]
    · intro j within
      rw [second.dinode j within, first.dinode j within]
    · have free := second.free
      rw [more] at free
      rw [free, first.free]
  · intro k below
    by_cases early : k < src.length
    · have same := second.old (off + k) (.inl (by omega)) (by omega)
      rw [self] at same
      rw [same, first.new k early, List.getElem_append_left early]
    · rw [List.length_append] at below
      have same := second.new (k - src.length) (by omega)
      rw [List.getElem_append_right (by omega)]
      rw [← same]
      congr 1
      omega
  · intro k outside below
    rw [length] at outside
    have wider : count * BSIZE ≤ max count (ceilBlocks (off + src.length)) * BSIZE :=
      Nat.mul_le_mul_right _ (Nat.le_max_left ..)
    have same := second.old k (by omega) (below.trans_le wider)
    rw [self] at same
    rw [same, first.old k (by omega) below]
  · rw [length]
    apply (first.logged.mono ?_).trans (second.logged.mono ?_)
    · intro b new
      cases new with
      | inl isIndirect =>
        have same : last.addrs INDIRECT = ip.addrs INDIRECT := keep (.addr INDIRECT) isIndirect.1
        rw [← same] at isIndirect
        exact .inl isIndirect
      | inr isData =>
        obtain ⟨bn, lower, upper, stored, isAddr⟩ := isData
        have same := keep _ stored
        rw [← same] at stored isAddr
        exact .inr ⟨bn, lower, by omega, stored, isAddr⟩
    · intro b new
      cases new with
      | inl isIndirect => exact .inl isIndirect
      | inr isData =>
        obtain ⟨bn, lower, upper, stored, isAddr⟩ := isData
        have start : off / BSIZE ≤ (off + src.length) / BSIZE := Nat.div_le_div_right (Nat.le_add_right ..)
        exact .inr ⟨bn, start.trans lower, upper, stored, isAddr⟩

theorem OutOfBlocks.later {count' final : Nat} {reason : Stop} (out : OutOfBlocks sb e count' final reason)
    (free : (freeBlocks sb e).card + blocksOf count' = (freeBlocks sb d).card + blocksOf count) :
    OutOfBlocks sb d count final reason := by
  refine ⟨out.1, ?_⟩
  rw [← free]
  exact out.2

theorem OutOfBlocks.mono {more final : Nat} {reason : Stop} (out : OutOfBlocks sb d count more reason)
    (less : more ≤ final) : OutOfBlocks sb d count final reason :=
  ⟨out.1, out.2.trans_le (blocksOf_mono less)⟩

theorem writeiLoop_meets {fuel : Nat} (owned : Owned sb inode d) (inside : i < sb.ninodes)
    (filled : Filled (inode i) d count) (enough : src.length ≤ fuel) (fits : off ≤ count * BSIZE)
    (small : off + src.length ≤ MAXFILE * BSIZE) :
    Meets (OutOfBlocks sb d count (max count (ceilBlocks (off + src.length)))) (writeiLoop sb fuel (inode i) src off) d
      fun ip e => Written sb inode d i count off src ip e := by
  induction fuel generalizing inode d count src off with
  | zero =>
    rw [List.eq_nil_of_length_eq_zero (Nat.le_zero.mp enough)]
    exact .pure (Written.nil owned filled fits)
  | succ fuel ih =>
    rw [writeiLoop]
    by_cases done : src = []
    · rw [if_pos done, done]
      exact .pure (Written.nil owned filled fits)
    · rw [if_neg done]
      have positive := List.length_pos_iff.mpr done
      have below : off / BSIZE < MAXFILE := Nat.div_lt_of_lt_mul (by rw [Nat.mul_comm]; omega)
      have next : off / BSIZE ≤ count := Nat.div_le_of_le_mul (by rw [Nat.mul_comm]; exact fits)
      have reached : max count (off / BSIZE + 1) ≤ max count (ceilBlocks (off + src.length)) := by
        have round : off / BSIZE + 1 ≤ ceilBlocks (off + src.length) := lt_ceilBlocks (by omega)
        omega
      apply ((bmap_meets owned inside filled ⟨off / BSIZE, below⟩ next).allow fun _ out => out.mono reached).bind
      intro r e mapped
      obtain ⟨addr, ip⟩ := r
      dsimp only at mapped ⊢
      have stored := (mapped.filled.data ⟨off / BSIZE, below⟩).mpr
        (Nat.lt_of_lt_of_le (Nat.lt_succ_self _) (Nat.le_max_right ..))
      have self : update inode i ip i = ip := update_self ..
      have known : addr.toNat < FSSIZE := by
        have bound := mapped.owned.small inside (s := dataSlot ⟨off / BSIZE, below⟩) (by rw [self]; exact stored)
        rw [self, ← mapped.found] at bound
        exact bound
      apply bread_bind known
      apply logWrite_bind
      have room := Nat.mod_lt off (show 0 < BSIZE by decide)
      generalize size : min src.length (BSIZE - off % BSIZE) = m
      have taken : (src.take m).length = m := by
        rw [List.length_take]
        omega
      have first : Written sb inode d i count off (src.take m) ip _ :=
        mapped.written inside rfl (List.ne_nil_of_length_pos (by omega)) (by omega)
      generalize e.write addr.toNat ((e.block addr.toNat).copy (off % BSIZE) (src.take m)) = f at first ⊢
      have filledHere : Filled (update inode i ip i) f (max count (ceilBlocks (off + (src.take m).length))) := by
        rw [self]
        exact first.filled
      have total : off + (src.take m).length + (src.drop m).length = off + src.length := by
        rw [List.length_drop, taken]
        omega
      have start : off + (src.take m).length ≤ max count (ceilBlocks (off + (src.take m).length)) * BSIZE :=
        (le_ceilBlocks _).trans (Nat.mul_le_mul_right _ (Nat.le_max_right ..))
      have rest : Meets _ (writeiLoop sb fuel (update inode i ip i) (src.drop m) (off + (src.take m).length)) f _ :=
        ih first.owned filledHere (by rw [List.length_drop]; omega) start (by omega)
      have program : writeiLoop sb fuel ip (src.drop m) (off + m) =
          writeiLoop sb fuel (update inode i ip i) (src.drop m) (off + (src.take m).length) := by
        rw [self, taken]
      rw [program]
      refine (rest.allow ?_).weaken ?_
      · intro reason out
        rw [total] at out
        have part : ceilBlocks (off + (src.take m).length) ≤ ceilBlocks (off + src.length) :=
          ceilBlocks_mono (by omega)
        exact (out.later first.free).mono (by omega)
      · intro last g second
        have whole := first.append second
        rw [List.take_append_drop] at whole
        exact whole

end Xv6.Blocks
