import Xv6.Blocks.Contents

namespace Xv6.Blocks

open Xv6.Data Xv6.Disk
open Function (update update_self update_of_ne update_eq_self)
open Xv6.Fs (Inum NDIRECT MAXFILE Stop overwrite)

/-! # `readi` and `writei` on an inode of the disk -/

variable {sb : Superblock} {inode : Inum → Dinode} {d e : Device} {count off n : Nat} {i j : Inum} {ip : Dinode}
  {src : List Byte} {fine : Stop → Prop}

section

variable (owned : Owned sb inode d) (inside : i < sb.ninodes) (data : Block)
include owned inside

/-- The blocks of the inodes hold no block numbers of indirect blocks and no data. -/
theorem block_iupdate {c : Nat} (used : c ∈ inUse sb d) : (d.write (IBLOCK sb i) data).block c = d.block c :=
  Device.write_of_ne (Nat.ne_of_gt (owned.layout.inode_lt inside used.1 used.2.1))

theorem slotAddr_iupdate (within : j < sb.ninodes) (s : Slot) :
    slotAddr (inode j) (d.write (IBLOCK sb i) data) s = slotAddr (inode j) d s :=
  slotAddr_same (fun stored => block_iupdate owned inside data (owned.indirect within stored)) s

theorem fileBlocks_iupdate (within : j < sb.ninodes) :
    fileBlocks (inode j) (d.write (IBLOCK sb i) data) = fileBlocks (inode j) d := by
  funext bn
  exact fileBlocks_same (slotAddr_iupdate owned inside data within _) fun stored =>
    block_iupdate owned inside data (owned.data within stored)

theorem Owned.iupdate : Owned sb inode (d.write (IBLOCK sb i) data) :=
  owned.write (.inl (owned.layout.inodes i inside)) fun _ within s => slotAddr_iupdate owned inside data within s

end

theorem slotAddr_congr {other : Dinode} (addrs : other.addrs = ip.addrs) (s : Slot) :
    slotAddr other d s = slotAddr ip d s := by
  cases s with
  | addr k | entry k => simp only [slotAddr, addrs]

theorem Owned.congr {other : Inum → Dinode} (owned : Owned sb inode d)
    (same : ∀ j < sb.ninodes, (other j).addrs = (inode j).addrs) : Owned sb other d := by
  refine ⟨owned.layout, owned.reserved, ?_⟩
  rw [holder_congr fun j within => slotAddr_congr (same j within)]
  exact owned.assigned

/-- The inodes and the free map agree, and no file has a hole. -/
structure SoundFor (sb : Superblock) (inode : Inum → Dinode) (d : Device) : Prop where
  owned : Owned sb inode d
  filled : ∀ i < sb.ninodes, Filled (inode i) d (ceilBlocks (inode i).size.toNat)
  free : ∀ i < sb.ninodes, (inode i).type = 0 → (inode i).size = 0

abbrev Sound (sb : Superblock) (d : Device) : Prop := SoundFor sb (d.dinode sb) d

theorem fileBlocks_congr {other : Dinode} (addrs : other.addrs = ip.addrs) : fileBlocks other d = fileBlocks ip d := by
  funext bn
  rw [fileBlocks, fileBlocks, slotAddr_congr addrs]

theorem contents_congr {other : Dinode} (size : other.size = ip.size) (blocks : fileBlocks other e = fileBlocks ip d) :
    contents other e = contents ip d := by
  rw [contents, contents, size, blocks]

theorem Filled.congr {other : Dinode} (filled : Filled ip d count)
    (same : ∀ s, slotAddr other e s = slotAddr ip d s) : Filled other e count := by
  refine ⟨?_, ?_, filled.bound⟩
  · intro bn
    rw [same]
    exact filled.data bn
  · have indirect : other.addrs INDIRECT = ip.addrs INDIRECT := same (.addr INDIRECT)
    rw [indirect]
    exact filled.indirect

theorem SoundFor.congr {other : Inum → Dinode} (sound : SoundFor sb inode d)
    (free : ∀ j < sb.ninodes, (other j).type = 0 → (other j).size = 0)
    (size : ∀ j < sb.ninodes, (other j).size = (inode j).size)
    (addrs : ∀ j < sb.ninodes, (other j).addrs = (inode j).addrs) : SoundFor sb other d := by
  refine ⟨sound.owned.congr addrs, ?_, free⟩
  intro j within
  rw [size j within]
  exact (sound.filled j within).congr (slotAddr_congr (addrs j within))

theorem SoundFor.replace (sound : Sound sb d) (free : ip.type = 0 → ip.size = 0)
    (size : ip.size = (d.dinode sb i).size) (addrs : ip.addrs = (d.dinode sb i).addrs) :
    SoundFor sb (update (d.dinode sb) i ip) d := by
  apply sound.congr
  · intro j within
    by_cases own : j = i
    · rw [own, update_self]
      exact free
    · rw [update_of_ne own]
      exact sound.free j within
  · intro j _
    by_cases own : j = i
    · rw [own, update_self, size]
    · rw [update_of_ne own]
  · intro j _
    by_cases own : j = i
    · rw [own, update_self, addrs]
    · rw [update_of_ne own]

theorem readi_meets (sound : SoundFor sb inode d) (inside : i < sb.ninodes) (notDev : (inode i).type ≠ T_DEV)
    (nWord : n < 2 ^ 32) : Meets fine (readi sb (inode i) off n) d fun r e =>
      e = d ∧ r.2 = inode i ∧
        r.1 = if (inode i).size.toNat < off ∨ 2 ^ 32 ≤ off + n then none
          else some (((contents (inode i) d).drop off).take n) := by
  have wraps : (inode i).size.toNat < off ∨ (off + n) % 2 ^ 32 < off ↔
      (inode i).size.toNat < off ∨ 2 ^ 32 ≤ off + n := by
    have word := (inode i).size.isLt
    omega
  rw [readi, if_neg notDev]
  simp only [wraps]
  by_cases refused : (inode i).size.toNat < off ∨ 2 ^ 32 ≤ off + n
  · rw [if_pos refused, if_pos refused]
    exact .pure ⟨rfl, rfl, rfl⟩
  · rw [if_neg refused, if_neg refused]
    generalize cut : (if (inode i).size.toNat < off + n then (inode i).size.toNat - off else n) = m
    have reach := le_ceilBlocks (inode i).size.toNat
    have bounded : off + m ≤ (inode i).size.toNat := by
      split at cut <;> omega
    have whole : m = min n ((inode i).size.toNat - off) := by
      split at cut <;> omega
    apply (readiLoop_meets sound.owned inside (sound.filled i inside) le_rfl (by omega)).bind
    intro r e ⟨isRead, same⟩
    subst isRead same
    apply Meets.pure
    refine ⟨rfl, rfl, congrArg some ?_⟩
    rw [contents, ← List.map_drop, ← List.map_take]
    apply List.ext_getElem
    · simp only [List.length_map, List.length_range, List.length_take, List.length_drop]
      exact whole
    · intro k first second
      simp

theorem length_contents : (contents ip d).length = ip.size.toNat := by
  rw [contents, List.length_map, List.length_range]

theorem getElem?_contents (k : Nat) :
    (contents ip d)[k]? = if k < ip.size.toNat then some (fileByte (fileBlocks ip d) k) else none := by
  rw [contents, List.getElem?_map]
  split
  · next below => rw [List.getElem?_range below, Option.map_some]
  · next above => rw [List.getElem?_eq_none (by simpa using above), Option.map_none]

theorem Written.contents {last : Dinode} {f : Device} (written : Written sb inode d i count off src ip e)
    (size : (inode i).size.toNat ≤ count * BSIZE) (start : off ≤ (inode i).size.toNat)
    (blocks : fileBlocks last f = fileBlocks ip e)
    (grown : last.size.toNat = max (inode i).size.toNat (off + src.length)) :
    contents last f = overwrite (contents (inode i) d) off src := by
  apply List.ext_getElem?
  intro k
  rw [Fs.getElem?_overwrite (by rw [length_contents]; exact start), getElem?_contents, getElem?_contents, blocks, grown]
  by_cases early : k < off
  · have inFile : k < (inode i).size.toNat := by omega
    rw [if_pos early, if_pos (by omega), if_pos inFile, written.old k (.inl early) (by omega)]
  · rw [if_neg early]
    by_cases inSrc : k < off + src.length
    · have same : off + (k - off) = k := by omega
      have new := written.new (k - off) (by omega)
      rw [same] at new
      rw [if_pos inSrc, if_pos (by omega), new, List.getElem?_eq_getElem]
    · rw [if_neg inSrc]
      by_cases inFile : k < (inode i).size.toNat
      · rw [if_pos inFile, if_pos (by omega), written.old k (.inr (by omega)) (by omega)]
      · rw [if_neg inFile, if_neg (by omega)]

theorem Written.unchanged (written : Written sb inode d i count off src ip e) (filled : Filled (inode i) d count)
    (fits : off + src.length ≤ count * BSIZE) : ip = inode i := by
  have same : max count (ceilBlocks (off + src.length)) = count := Nat.max_eq_left (ceilBlocks_le fits)
  have after := written.filled
  rw [same] at after
  have addrs : ip.addrs = (inode i).addrs := by
    funext k
    by_cases none : (inode i).addrs k = 0
    · rw [none]
      by_contra stored
      by_cases last : k = INDIRECT
      · subst last
        exact filled.indirect.mpr (after.indirect.mp stored) none
      · have direct : k.val < NDIRECT := by
          have below := k.isLt
          have other : k.val ≠ NDIRECT := fun equal => last (Fin.ext equal)
          omega
        have inFile : k.val < MAXFILE := by
          simp only [MAXFILE]
          omega
        have slot : dataSlot ⟨k, inFile⟩ = .addr k := dif_pos direct
        have first := filled.data ⟨k, inFile⟩
        have second := after.data ⟨k, inFile⟩
        rw [slot] at first second
        exact first.mpr (second.mp stored) none
    · exact written.kept (.addr k) none
  have fields := written.fields
  rw [addrs] at fields
  exact fields

/-- What `writei` leaves when it writes `src` to a file at `off`, with the inode as the
caller has it then.  The inode is stored on the disk if the file has grown. -/
structure Overwritten (sb : Superblock) (inode : Inum → Dinode) (d : Device) (i : Inum) (off : Nat) (src : List Byte)
    (ip : Dinode) (e : Device) : Prop where
  sound : SoundFor sb (Function.update inode i ip) e
  contents : contents ip e = overwrite (contents (inode i) d) off src
  size : ip.size.toNat = max (inode i).size.toNat (off + src.length)
  fields : ip = { inode i with size := ip.size, addrs := ip.addrs }
  same : off + src.length ≤ (inode i).size.toNat → ip = inode i
  stored : e.dinode sb i = if (inode i).size.toNat < off + src.length then ip else d.dinode sb i
  dinode : ∀ j < sb.ninodes, j ≠ i → e.dinode sb j = d.dinode sb j
  others : ∀ j < sb.ninodes, j ≠ i → Blocks.contents (inode j) e = Blocks.contents (inode j) d
  free : (freeBlocks sb e).card + blocksOf (ceilBlocks ip.size.toNat) =
    (freeBlocks sb d).card + blocksOf (ceilBlocks (inode i).size.toNat)
  logged : Logs sb d (fun b => b = IBLOCK sb i ∨ b = (ip.addrs INDIRECT).toNat ∨
    ∃ bn : Fin MAXFILE, off / BSIZE ≤ bn.val ∧ bn.val * BSIZE < off + src.length ∧
      b = (slotAddr ip e (dataSlot bn)).toNat) e

theorem Written.overwritten_inside (sound : SoundFor sb inode d) (inside : i < sb.ninodes)
    (written : Written sb inode d i (ceilBlocks (inode i).size.toNat) off src ip e)
    (start : off ≤ (inode i).size.toNat) (fits : off + src.length ≤ (inode i).size.toNat) :
    Overwritten sb inode d i off src ip e := by
  have reach := le_ceilBlocks (inode i).size.toNat
  have same : ip = inode i := written.unchanged (sound.filled i inside) (fits.trans reach)
  subst same
  have noMore : max (ceilBlocks (inode i).size.toNat) (ceilBlocks (off + src.length)) =
      ceilBlocks (inode i).size.toNat := Nat.max_eq_left (ceilBlocks_mono fits)
  have owned := written.owned
  have filled := written.filled
  have free := written.free
  rw [update_eq_self] at owned
  rw [noMore] at filled free
  constructor
  · rw [update_eq_self]
    refine ⟨owned, ?_, sound.free⟩
    intro j within
    by_cases own : j = i
    · rw [own]
      exact filled
    · exact (sound.filled j within).congr (written.slots j within own)
  · exact written.contents reach start rfl (by omega)
  · omega
  · rfl
  · exact fun _ => rfl
  · rw [if_neg (by omega), written.dinode i inside]
  · exact fun j within _ => written.dinode j within
  · exact fun j within different => contents_congr rfl (written.others j within different)
  · exact free
  · apply written.logged.mono
    intro b new
    cases new with
    | inl isIndirect => exact .inr (.inl isIndirect.2)
    | inr isData =>
      obtain ⟨bn, lower, upper, _, isAddr⟩ := isData
      exact .inr (.inr ⟨bn, lower, upper, isAddr⟩)

/-- A write behind the end of the file, with the new size stored on the disk. -/
theorem Written.overwritten_grown {last : Dinode} {f : Device} (sound : SoundFor sb inode d) (inside : i < sb.ninodes)
    (written : Written sb inode d i (ceilBlocks (inode i).size.toNat) off src ip e)
    (start : off ≤ (inode i).size.toNat) (grows : (inode i).size.toNat < off + src.length)
    (small : off + src.length ≤ MAXFILE * BSIZE) (allocated : (inode i).type ≠ 0)
    (isLast : last = { ip with size := BitVec.ofNat 32 (off + src.length) })
    (isAfter : f = e.write (IBLOCK sb i) (setDinode (e.block (IBLOCK sb i)) (slotOf i) last)) :
    Overwritten sb inode d i off src last f := by
  have reach := le_ceilBlocks (inode i).size.toNat
  have size : last.size.toNat = off + src.length := by
    rw [isLast]
    change (BitVec.ofNat 32 (off + src.length)).toNat = off + src.length
    rw [BitVec.toNat_ofNat]
    simp only [MAXFILE, NDIRECT, NINDIRECT, BSIZE] at small
    omega
  have addrs : last.addrs = ip.addrs := by rw [isLast]
  have self : update inode i ip i = ip := update_self ..
  -- the block of the inode is written, and what the other blocks hold is not changed
  have slotsOf (j : Inum) (within : j < sb.ninodes) (s : Slot) :
      slotAddr (update inode i ip j) f s = slotAddr (update inode i ip j) e s := by
    rw [isAfter]
    exact slotAddr_iupdate written.owned inside _ within s
  have blocksOf' (j : Inum) (within : j < sb.ninodes) :
      fileBlocks (update inode i ip j) f = fileBlocks (update inode i ip j) e := by
    rw [isAfter]
    exact fileBlocks_iupdate written.owned inside _ within
  have slots (s : Slot) : slotAddr last f s = slotAddr ip e s := by
    have same := slotsOf i inside s
    rw [self] at same
    rw [slotAddr_congr addrs, same]
  have blocks : fileBlocks last f = fileBlocks ip e := by
    have same := blocksOf' i inside
    rw [self] at same
    rw [fileBlocks_congr addrs, same]
  have grown : max (ceilBlocks (inode i).size.toNat) (ceilBlocks (off + src.length)) = ceilBlocks last.size.toNat := by
    rw [size]
    exact Nat.max_eq_right (ceilBlocks_mono grows.le)
  constructor
  · constructor
    · have owned := written.owned.iupdate inside (setDinode (e.block (IBLOCK sb i)) (slotOf i) last)
      rw [← isAfter] at owned
      apply owned.congr
      intro j within
      by_cases own : j = i
      · rw [own, update_self, self, addrs]
      · rw [update_of_ne own, update_of_ne own]
    · intro j within
      by_cases own : j = i
      · rw [own, update_self, ← grown]
        exact written.filled.congr slots
      · rw [update_of_ne own]
        apply (sound.filled j within).congr
        intro s
        have same := slotsOf j within s
        rw [update_of_ne own] at same
        rw [same, written.slots j within own]
    · intro j within
      by_cases own : j = i
      · rw [own, update_self, isLast]
        intro isFree
        change ip.type = 0 at isFree
        rw [written.fields] at isFree
        exact absurd isFree allocated
      · rw [update_of_ne own]
        exact sound.free j within
  · apply written.contents reach start blocks
    rw [size]
    omega
  · rw [size]
    omega
  · rw [isLast, written.fields]
  · intro fits
    omega
  · rw [if_pos grows, isAfter, Device.dinode_update, if_pos rfl]
  · intro j within different
    rw [isAfter, Device.dinode_update, if_neg different, written.dinode j within]
  · intro j within different
    apply contents_congr rfl
    have same := blocksOf' j within
    rw [update_of_ne different] at same
    rw [same, written.others j within different]
  · have free := written.free
    rw [grown] at free
    rw [isAfter, freeBlocks_write written.owned.layout (.inl (written.owned.layout.inodes i inside))]
    exact free
  · rw [isAfter]
    apply (written.logged.mono ?_).trans (.write (.inl rfl))
    rw [← isAfter]
    intro b new
    cases new with
    | inl isIndirect =>
      rw [← addrs] at isIndirect
      exact .inr (.inl isIndirect.2)
    | inr isData =>
      obtain ⟨bn, lower, upper, _, isAddr⟩ := isData
      exact .inr (.inr ⟨bn, lower, upper, by rw [slots]; exact isAddr⟩)

def Refused (ip : Dinode) (off n : Nat) : Prop :=
  ip.size.toNat < off ∨ 2 ^ 32 ≤ off + n ∨ MAXFILE * BSIZE < off + n

instance : Decidable (Refused ip off n) := by
  unfold Refused
  infer_instance

theorem writei_refused (notDev : ip.type ≠ T_DEV) (refused : Refused ip off src.length) :
    Meets fine (writei sb i ip off src) d fun r e => e = d ∧ r = (none, ip) := by
  rw [writei, if_neg notDev]
  split
  · exact .pure ⟨rfl, rfl⟩
  · rename_i first
    rw [if_pos]
    · exact .pure ⟨rfl, rfl⟩
    · have small : MAXFILE * BSIZE < 2 ^ 32 := by decide
      unfold Refused at refused
      omega

theorem writei_meets (notDev : (inode i).type ≠ T_DEV) (sound : SoundFor sb inode d) (inside : i < sb.ninodes)
    (accepted : ¬Refused (inode i) off src.length) (allocated : (inode i).type ≠ 0) :
    Meets (OutOfBlocks sb d (ceilBlocks (inode i).size.toNat)
        (ceilBlocks (max (inode i).size.toNat (off + src.length)))) (writei sb i (inode i) off src) d
      fun r e => r.1 = some src.length ∧ Overwritten sb inode d i off src r.2 e := by
  obtain ⟨start, word, small⟩ : off ≤ (inode i).size.toNat ∧ off + src.length < 2 ^ 32 ∧
      off + src.length ≤ MAXFILE * BSIZE := by
    simp only [Refused, not_or] at accepted
    omega
  have reach := le_ceilBlocks (inode i).size.toNat
  have most : max (ceilBlocks (inode i).size.toNat) (ceilBlocks (off + src.length)) ≤
      ceilBlocks (max (inode i).size.toNat (off + src.length)) :=
    Nat.max_le.mpr ⟨ceilBlocks_mono (Nat.le_max_left ..), ceilBlocks_mono (Nat.le_max_right ..)⟩
  rw [writei, if_neg notDev, if_neg (by omega), if_neg (by omega)]
  apply ((writeiLoop_meets sound.owned inside (sound.filled i inside) le_rfl (by omega) small).allow
    fun _ out => out.mono most).bind
  intro ip e written
  have sameSize : ip.size = (inode i).size := by rw [written.fields]
  split
  · rename_i grows
    rw [sameSize] at grows
    unfold iupdate
    rw [bind_assoc]
    apply bread_bind (sound.owned.layout.inode_small inside)
    apply logWrite_bind
    exact .pure ⟨rfl, written.overwritten_grown sound inside start grows.2 small allocated rfl rfl⟩
  · rename_i same
    rw [sameSize] at same
    have fits : off + src.length ≤ (inode i).size.toNat := by
      by_cases none : 0 < src.length
      · by_contra larger
        exact same ⟨none, by omega⟩
      · omega
    exact .pure ⟨rfl, written.overwritten_inside sound inside start fits⟩

/-- `writei` refuses what does not fit and then changes nothing; otherwise it replaces the
bytes from `off` on, in this file only.  It can fail only for want of free blocks.
`readi` returns the bytes that there are, and changes nothing. -/
theorem readi_writei_array (off : Nat) (src : List Byte) (sound : Sound sb d) (inside : i < sb.ninodes)
    (typed : (d.dinode sb i).type = T_FILE ∨ (d.dinode sb i).type = T_DIR) (nWord : n < 2 ^ 32) :
    (Refused (d.dinode sb i) off src.length →
      (writei sb i (d.dinode sb i) off src).run d = .ok ((none, d.dinode sb i), d)) ∧
    (¬Refused (d.dinode sb i) off src.length →
      Meets (OutOfBlocks sb d (ceilBlocks (d.dinode sb i).size.toNat)
          (ceilBlocks (max (d.dinode sb i).size.toNat (off + src.length)))) (writei sb i (d.dinode sb i) off src) d
        fun r e => r = (some src.length, e.dinode sb i) ∧
          contents (e.dinode sb i) e = overwrite (contents (d.dinode sb i) d) off src ∧
          (e.dinode sb i).size.toNat = max (d.dinode sb i).size.toNat (off + src.length) ∧
          (∀ j < sb.ninodes, j ≠ i → e.dinode sb j = d.dinode sb j ∧
            contents (e.dinode sb j) e = contents (d.dinode sb j) d) ∧
          Sound sb e) ∧
    (readi sb (d.dinode sb i) off n).run d =
      .ok ((if (d.dinode sb i).size.toNat < off ∨ 2 ^ 32 ≤ off + n then none
        else some (((contents (d.dinode sb i) d).drop off).take n), d.dinode sb i), d) := by
  have notDev : (d.dinode sb i).type ≠ T_DEV := by
    cases typed with
    | inl isFile => rw [isFile]; decide
    | inr isDir => rw [isDir]; decide
  have allocated : (d.dinode sb i).type ≠ 0 := by
    cases typed with
    | inl isFile => rw [isFile]; decide
    | inr isDir => rw [isDir]; decide
  refine ⟨?_, ?_, ?_⟩
  · intro refused
    obtain ⟨r, e, ran, same, isNone⟩ := (writei_refused notDev refused).exists_run
    rw [ran, same, isNone]
  · intro accepted
    apply (writei_meets notDev sound inside accepted allocated).weaken
    intro r e ⟨returned, overwritten⟩
    have stored : e.dinode sb i = r.2 := by
      rw [overwritten.stored]
      split
      · rfl
      · next fits => exact (overwritten.same (Nat.le_of_not_lt fits)).symm
    have after (j : Inum) (within : j < sb.ninodes) : e.dinode sb j = Function.update (d.dinode sb) i r.2 j := by
      by_cases own : j = i
      · rw [own, Function.update_self, stored]
      · rw [Function.update_of_ne own, overwritten.dinode j within own]
    refine ⟨Prod.ext returned stored.symm, ?_, ?_, ?_, ?_⟩
    · rw [stored]
      exact overwritten.contents
    · rw [stored]
      exact overwritten.size
    · intro j within different
      have same := overwritten.dinode j within different
      refine ⟨same, ?_⟩
      rw [same]
      exact overwritten.others j within different
    · apply overwritten.sound.congr
      · intro j within
        rw [after j within]
        exact overwritten.sound.free j within
      · exact fun j within => by rw [after j within]
      · exact fun j within => by rw [after j within]
  · obtain ⟨r, e, ran, same, isDinode, bytes⟩ := (readi_meets sound inside notDev nWord).exists_run
    rw [ran, same, ← bytes, ← isDinode]

theorem sound_of_empty (layout : Layout sb) (reserved : ∀ c < sb.metadata, d.bit sb c = true)
    (clear : ∀ c < sb.size, sb.metadata ≤ c → d.bit sb c = false)
    (empty : ∀ i < sb.ninodes, (d.dinode sb i).addrs = (fun _ => 0) ∧ (d.dinode sb i).size = 0) : Sound sb d := by
  have none (i : Inum) (inside : i < sb.ninodes) (s : Slot) : slotAddr (d.dinode sb i) d s = 0 := by
    cases s with
    | addr k => exact congrFun (empty i inside).1 k
    | entry k => exact if_pos (congrFun (empty i inside).1 INDIRECT)
  have nowhere (p : Place) : holder sb (d.dinode sb) d p = Option.none := by
    by_cases inside : p.1 < sb.ninodes
    · exact holder_none (none p.1 inside p.2)
    · exact if_neg fun stored => inside stored.1
  refine ⟨⟨layout, reserved, ?_, ?_⟩, ?_, fun i inside _ => (empty i inside).2⟩
  · intro p q x held
    rw [nowhere p] at held
    cases held
  · intro b
    constructor
    · intro ⟨lower, upper, used⟩
      rw [clear b upper lower] at used
      cases used
    · intro ⟨p, held⟩
      rw [nowhere p] at held
      cases held
  · intro i inside
    rw [(empty i inside).2]
    refine ⟨?_, ?_, Nat.zero_le _⟩
    · intro bn
      exact ⟨fun stored => absurd (none i inside _) stored, fun below => absurd below (Nat.not_lt_zero _)⟩
    · exact ⟨fun stored => absurd (none i inside (.addr INDIRECT)) stored, fun below => absurd below (by decide)⟩

def smallSuperblock : Superblock := ⟨12, 7, 8, 1, 2, 3, 4⟩

def smallDevice (type : BitVec 16 := T_FILE) : Device where
  block := fun b =>
    if b = 4 then fun k => if k = 0 then 31 else 0
    else if b = 3 then setDinode Block.zero 1 { type, nlink := 1 }
    else Block.zero

theorem small_layout : Layout smallSuperblock := by
  refine ⟨?_, ?_, by decide, by decide⟩
  · intro i inside
    change i / 8 + 3 < 4
    change i < 8 at inside
    omega
  · intro b inside
    change b / 4096 + 4 < 5
    change b < 12 at inside
    omega

theorem small_dinode {type : BitVec 16} {i : Inum} (inside : i < smallSuperblock.ninodes) :
    (smallDevice type).dinode smallSuperblock i = if i = 1 then { type, nlink := 1 } else {} := by
  change i < 8 at inside
  have here : IBLOCK smallSuperblock i = 3 := by
    rw [IBLOCK, Nat.div_eq_of_lt inside]
    rfl
  have block : (smallDevice type).block 3 = setDinode Block.zero 1 { type, nlink := 1 } := rfl
  have unused (slot : Fin IPB) : getDinode Block.zero slot = {} := by
    simp only [getDinode, Block.word_zero]
    rfl
  have slot : slotOf i = 1 ↔ i = 1 := by
    rw [Fin.ext_iff]
    change i % 8 = 1 ↔ i = 1
    rw [Nat.mod_eq_of_lt inside]
  rw [Device.dinode, here, block, getDinode_setDinode, unused]
  simp only [slot]

theorem small_sound {type : BitVec 16} (known : type = T_DIR ∨ type = T_FILE) :
    Sound smallSuperblock (smallDevice type) := by
  apply sound_of_empty small_layout
  · obtain rfl | rfl := known <;> decide +kernel
  · obtain rfl | rfl := known <;> decide +kernel
  · intro i inside
    rw [small_dinode inside]
    split <;> exact ⟨rfl, rfl⟩

theorem readi_writei_array_small :
    ∃ e, (writei smallSuperblock 1 (smallDevice.dinode smallSuperblock 1) 0 [7, 8]).run smallDevice =
        .ok ((some 2, e.dinode smallSuperblock 1), e) ∧
      contents (e.dinode smallSuperblock 1) e = [7, 8] := by
  have file : smallDevice.dinode smallSuperblock 1 = { type := T_FILE, nlink := 1 } :=
    small_dinode (i := 1) (by decide)
  have accepted : ¬Refused (smallDevice.dinode smallSuperblock 1) 0 [7, 8].length := by
    rw [file]
    simp [Refused, MAXFILE, NDIRECT, NINDIRECT, BSIZE]
  have room : (freeBlocks smallSuperblock smallDevice).card = 7 := by decide +kernel
  have isFile : (smallDevice.dinode smallSuperblock 1).type = T_FILE := by rw [file]
  have zero : 0 < 2 ^ 32 := by decide
  have array := readi_writei_array 0 [7, 8] (small_sound (.inr rfl))
    (show 1 < smallSuperblock.ninodes by decide) (.inl isFile) zero
  obtain ⟨r, e, ran, returned, bytes, _⟩ := ((array.2.1 accepted).allow fun reason out => by
    have short := out.2
    rw [room, file] at short
    exact absurd short (by decide)).exists_run
  refine ⟨e, by rw [ran, returned]; rfl, ?_⟩
  rw [bytes, file]
  rfl

end Xv6.Blocks
