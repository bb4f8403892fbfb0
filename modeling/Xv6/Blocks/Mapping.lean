import Xv6.Blocks.Ownership

namespace Xv6.Blocks

open Xv6.Data Xv6.Disk
open Function (update update_self update_of_ne update_eq_self)
open Xv6.Fs (Inum NDIRECT MAXFILE Stop)

/-! # The blocks that `bmap` finds

An inode has its first blocks, without a hole. -/

variable {sb : Superblock} {inode : Inum → Dinode} {d e : Device} {n count : Nat} {i j : Inum} {ip : Dinode}

structure Filled (ip : Dinode) (d : Device) (count : Nat) : Prop where
  data : ∀ bn, slotAddr ip d (dataSlot bn) ≠ 0 ↔ bn.val < count
  indirect : ip.addrs INDIRECT ≠ 0 ↔ NDIRECT < count
  bound : count ≤ MAXFILE

def blocksOf (count : Nat) : Nat := if count ≤ NDIRECT then count else count + 1

theorem blocksOf_mono {count other : Nat} (less : count ≤ other) : blocksOf count ≤ blocksOf other := by
  unfold blocksOf
  split
  · split
    · exact less
    · omega
  · split <;> omega

/-- A file of `count` blocks has become one of `more`, and nothing else has changed. -/
structure Extended (sb : Superblock) (inode : Inum → Dinode) (d : Device) (i : Inum) (count more : Nat) (ip : Dinode)
    (e : Device) : Prop where
  owned : Owned sb (update inode i ip) e
  filled : Filled ip e more
  fields : ip = { inode i with addrs := ip.addrs }
  kept : ∀ s, slotAddr (inode i) d s ≠ 0 → slotAddr ip e s = slotAddr (inode i) d s
  slots : ∀ j < sb.ninodes, j ≠ i → ∀ s, slotAddr (inode j) e s = slotAddr (inode j) d s
  others : ∀ j < sb.ninodes, j ≠ i → fileBlocks (inode j) e = fileBlocks (inode j) d
  dinode : ∀ j < sb.ninodes, e.dinode sb j = d.dinode sb j
  free : (freeBlocks sb e).card + blocksOf more = (freeBlocks sb d).card + blocksOf count

theorem Extended.refl (owned : Owned sb inode d) (filled : Filled (inode i) d count) :
    Extended sb inode d i count count (inode i) d :=
  ⟨by rwa [update_eq_self], filled, rfl, fun _ _ => rfl, fun _ _ _ _ => rfl, fun _ _ _ => rfl, fun _ _ => rfl, rfl⟩

structure Mapped (sb : Superblock) (inode : Inum → Dinode) (d : Device) (i : Inum) (count : Nat) (bn : Fin MAXFILE)
    (addr : BlockNo) (ip : Dinode) (e : Device) : Prop extends Extended sb inode d i count (max count (bn + 1)) ip e where
  found : addr = slotAddr ip e (dataSlot bn)
  blocks : ∀ k, k ≠ bn ∨ bn.val < count → fileBlocks ip e k = fileBlocks (inode i) d k
  logged : Logs sb d (fun b => b = addr.toNat ∨ ip.addrs INDIRECT ≠ 0 ∧ b = (ip.addrs INDIRECT).toNat) e

theorem mapped_present {bn : Fin MAXFILE} (owned : Owned sb inode d) (filled : Filled (inode i) d count)
    (present : bn.val < count) :
    Mapped sb inode d i count bn (slotAddr (inode i) d (dataSlot bn)) (inode i) d := by
  have same : max count (bn + 1) = count := by omega
  refine ⟨?_, rfl, fun _ _ => rfl, .refl⟩
  rw [same]
  exact .refl owned filled

/-- The state in which `bmap` stores a new block: with an indirect block if one is
needed. -/
structure Ready (sb : Superblock) (inode : Inum → Dinode) (d : Device) (i : Inum) (count : Nat)
    (mid : Inum → Dinode) (f : Device) : Prop where
  owned : Owned sb mid f
  other : ∀ j, j ≠ i → mid j = inode j
  slots : ∀ j < sb.ninodes, ∀ s, (j, s) ≠ (i, .addr INDIRECT) → slotAddr (mid j) f s = slotAddr (inode j) d s
  indirect : (mid i).addrs INDIRECT ≠ 0 ↔ NDIRECT < count + 1
  indirectKept : (inode i).addrs INDIRECT ≠ 0 → (mid i).addrs INDIRECT = (inode i).addrs INDIRECT
  blocks : ∀ j < sb.ninodes, fileBlocks (mid j) f = fileBlocks (inode j) d
  dinode : ∀ j < sb.ninodes, f.dinode sb j = d.dinode sb j
  free : (freeBlocks sb f).card + blocksOf (count + 1) = (freeBlocks sb d).card + blocksOf count + 1
  logged : Logs sb d (fun b => (mid i).addrs INDIRECT ≠ 0 ∧ b = ((mid i).addrs INDIRECT).toNat) f

theorem blocksOf_succ (other : count ≠ NDIRECT) : blocksOf (count + 1) = blocksOf count + 1 := by
  unfold blocksOf
  split
  · rw [if_pos (by omega)]
  · rw [if_neg (by omega)]

theorem ready_same (owned : Owned sb inode d) (filled : Filled (inode i) d count) (other : count ≠ NDIRECT) :
    Ready sb inode d i count inode d := by
  refine ⟨owned, fun _ _ => rfl, fun _ _ _ _ => rfl, ?_, fun _ => rfl, fun _ _ => rfl, fun _ _ => rfl, ?_, .refl⟩
  · rw [filled.indirect]
    omega
  · rw [blocksOf_succ other]
    omega

theorem ready_indirect (owned : Owned sb inode d) (inside : i < sb.ninodes) (missing : (inode i).addrs INDIRECT = 0)
    (stored : Stored sb inode d i (.addr INDIRECT) n (update inode i ip) e) :
    Ready sb inode d i NDIRECT (update inode i ip) e := by
  have addr : ip.addrs INDIRECT = BitVec.ofNat 32 n := by
    have here := stored.slots i inside (.addr INDIRECT)
    rw [if_pos rfl, update_self] at here
    exact here
  refine ⟨stored.owned, ?_, ?_, ?_, fun present => absurd missing present, ?_, stored.dinode, ?_, ?_⟩
  · exact fun j different => update_of_ne different ..
  · intro j within s other
    rw [stored.slots j within, if_neg other]
  · rw [update_self, addr]
    exact ⟨fun _ => Nat.lt_succ_self _, fun _ => stored.ne_zero⟩
  · intro j within
    funext bn
    rw [stored.fileBlocks owned inside within, if_neg fun here => dataSlot_ne bn (Prod.mk.inj here).2]
  · have two : blocksOf (NDIRECT + 1) = blocksOf NDIRECT + 2 := rfl
    have one := stored.free
    omega
  · apply stored.logged.mono
    intro b new
    rw [update_self, addr, stored.word]
    cases new with
    | inl isN => exact ⟨stored.ne_zero, isN⟩
    | inr isEntry =>
      obtain ⟨k, same⟩ := isEntry.1
      cases same

theorem Ready.mapped {mid : Inum → Dinode} {f : Device} {bn : Fin MAXFILE} (ready : Ready sb inode d i count mid f)
    (inside : i < sb.ninodes) (filled : Filled (inode i) d count) (next : bn.val = count)
    (stored : Stored sb mid f i (dataSlot bn) n (update inode i ip) e)
    (fields : ip = { inode i with addrs := ip.addrs }) :
    Mapped sb inode d i count bn (BitVec.ofNat 32 n) ip e := by
  have more : max count (bn + 1) = count + 1 := by omega
  have slots (s : Slot) (different : s ≠ .addr INDIRECT) :
      slotAddr ip e s = if s = dataSlot bn then BitVec.ofNat 32 n else slotAddr (inode i) d s := by
    have here := stored.slots i inside s
    rw [update_self, ready.slots i inside s fun same => different (Prod.mk.inj same).2] at here
    simpa only [Prod.mk.injEq, true_and] using here
  have indirect : ip.addrs INDIRECT = (mid i).addrs INDIRECT := by
    have here := stored.slots i inside (.addr INDIRECT)
    rw [update_self, if_neg fun same => dataSlot_ne bn (Prod.mk.inj same).2.symm] at here
    exact here
  refine ⟨?_, ?_, ?_, ?_⟩
  · constructor
    · exact stored.owned
    · rw [more]
      refine ⟨?_, ?_, ?_⟩
      · intro k
        rw [slots _ (dataSlot_ne k)]
        by_cases same : k = bn
        · subst same
          rw [if_pos rfl]
          exact ⟨fun _ => by omega, fun _ => stored.ne_zero⟩
        · rw [if_neg fun equal => same (dataSlot_injective equal), filled.data k]
          have different : k.val ≠ bn.val := fun equal => same (Fin.ext equal)
          omega
      · rw [indirect]
        exact ready.indirect
      · have below := bn.isLt
        omega
    · exact fields
    · intro s before
      by_cases last : s = .addr INDIRECT
      · subst last
        have already := ready.indirectKept before
        exact indirect.trans already
      · rw [slots s last, if_neg]
        intro new
        rw [new] at before
        have present := (filled.data bn).mp before
        omega
    · intro j within different s
      have here := stored.slots j within s
      rw [update_of_ne different, if_neg fun same => different (Prod.mk.inj same).1,
        ready.slots j within s fun same => different (Prod.mk.inj same).1] at here
      exact here
    · intro j within different
      funext k
      have here := stored.fileBlocks ready.owned inside within k
      rw [update_of_ne different, if_neg fun same => different (Prod.mk.inj same).1, ready.blocks j within] at here
      exact here
    · intro j within
      rw [stored.dinode j within, ready.dinode j within]
    · rw [more]
      have one := stored.free
      have before := ready.free
      omega
  · rw [slots _ (dataSlot_ne bn), if_pos rfl]
  · intro k other
    have different : k ≠ bn := by
      cases other with
      | inl different => exact different
      | inr present => omega
    have here := stored.fileBlocks ready.owned inside inside k
    rw [update_self, if_neg fun same => different (dataSlot_injective (Prod.mk.inj same).2),
      ready.blocks i inside] at here
    exact here
  · rw [stored.word, indirect]
    apply (ready.logged.mono fun _ => .inr).trans
    apply stored.logged.mono
    intro b new
    cases new with
    | inl isN => exact .inl isN
    | inr isEntry =>
      obtain ⟨⟨k, isSlot⟩, isIndirect⟩ := isEntry
      rw [update_self, indirect] at isIndirect
      refine .inr ⟨?_, isIndirect⟩
      rw [ready.indirect]
      have behind : ¬bn.val < NDIRECT := by
        intro direct
        rw [dataSlot, dif_pos direct] at isSlot
        cases isSlot
      omega

def NoBlock (sb : Superblock) (d : Device) (reason : Stop) : Prop :=
  reason = .panic .balloc ∧ (freeBlocks sb d).card = 0

def OutOfBlocks (sb : Superblock) (d : Device) (count more : Nat) (reason : Stop) : Prop :=
  reason = .panic .balloc ∧ (freeBlocks sb d).card + blocksOf count < blocksOf more

theorem Owned.balloc_meets (owned : Owned sb inode d) :
    Meets (NoBlock sb d) (balloc sb) d fun addr e => ∃ n, addr = BitVec.ofNat 32 n ∧ Allocated sb d n e := by
  apply (Blocks.balloc_meets owned.layout owned.reserved).allow
  intro reason full
  exact ⟨full.1, freeBlocks_full full.2⟩

section

variable (owned : Owned sb inode d) (inside : i < sb.ninodes)
include owned inside

theorem inodeAddr_new {k : Fin (NDIRECT + 1)} (empty : (inode i).addrs k = 0) :
    Meets (NoBlock sb d) (inodeAddr sb (inode i) k) d fun r e =>
      ∃ n, r.1 = BitVec.ofNat 32 n ∧ r.2 = { inode i with addrs := r.2.addrs } ∧
        Stored sb inode d i (.addr k) n (update inode i r.2) e := by
  rw [inodeAddr, if_pos empty]
  apply owned.balloc_meets.bind
  intro addr e ⟨n, isAddr, allocated⟩
  subst isAddr
  exact .pure ⟨n, rfl, rfl, stored_addr owned inside allocated empty⟩

section

variable {k : Fin NINDIRECT} (indirect : (inode i).addrs INDIRECT ≠ 0)
include indirect

theorem indirectAddr_found (stored : slotAddr (inode i) d (.entry k) ≠ 0) {fine : Stop → Prop} :
    Meets fine (indirectAddr sb ((inode i).addrs INDIRECT) k) d fun addr e =>
      addr = slotAddr (inode i) d (.entry k) ∧ e = d := by
  have word : slotAddr (inode i) d (.entry k) = (d.block ((inode i).addrs INDIRECT).toNat).word k := if_neg indirect
  apply bread_bind ((owned.indirect inside indirect).2.1.trans_le owned.layout.small)
  rw [← word, if_neg stored]
  exact .pure ⟨rfl, rfl⟩

theorem indirectAddr_new (empty : slotAddr (inode i) d (.entry k) = 0) :
    Meets (NoBlock sb d) (indirectAddr sb ((inode i).addrs INDIRECT) k) d fun addr e =>
      ∃ n, addr = BitVec.ofNat 32 n ∧ Stored sb inode d i (.entry k) n inode e := by
  have small : ((inode i).addrs INDIRECT).toNat < FSSIZE :=
    (owned.indirect inside indirect).2.1.trans_le owned.layout.small
  have word : slotAddr (inode i) d (.entry k) = (d.block ((inode i).addrs INDIRECT).toNat).word k := if_neg indirect
  apply bread_bind small
  rw [← word, if_pos empty]
  apply owned.balloc_meets.bind
  intro addr e ⟨n, isAddr, allocated⟩
  subst isAddr
  apply bread_bind small
  apply logWrite_bind
  exact .pure ⟨n, rfl, stored_entry owned inside allocated indirect empty⟩

end

theorem bmap_found (filled : Filled (inode i) d count) (bn : Fin MAXFILE) (present : bn.val < count)
    {fine : Stop → Prop} :
    Meets fine (bmap sb (inode i) bn) d fun r e => r = (slotAddr (inode i) d (dataSlot bn), inode i) ∧ e = d := by
  have stored := (filled.data bn).mpr present
  unfold bmap
  by_cases direct : bn.val < NDIRECT
  · have slot : dataSlot bn = .addr ⟨bn, Nat.lt_succ_of_lt direct⟩ := dif_pos direct
    rw [slot] at stored ⊢
    change (inode i).addrs _ ≠ 0 at stored
    rw [dif_pos direct, inodeAddr, if_neg stored]
    exact .pure ⟨rfl, rfl⟩
  · have below := bn.isLt
    have entry : bn.val - NDIRECT < NINDIRECT := by
      simp only [MAXFILE] at below
      omega
    have slot : dataSlot bn = .entry ⟨bn - NDIRECT, entry⟩ := dif_neg direct
    have indirect := filled.indirect.mpr (by omega)
    rw [slot] at stored ⊢
    rw [dif_neg direct, dif_pos entry, inodeAddr, if_neg indirect, pure_bind]
    apply (indirectAddr_found owned inside indirect stored).bind
    intro addr e ⟨isAddr, same⟩
    subst isAddr same
    exact .pure ⟨rfl, rfl⟩

theorem bmap_new (filled : Filled (inode i) d count) (bn : Fin MAXFILE) (next : bn.val = count) :
    Meets (OutOfBlocks sb d count (count + 1)) (bmap sb (inode i) bn) d fun r e =>
      Mapped sb inode d i count bn r.1 r.2 e := by
  have empty : slotAddr (inode i) d (dataSlot bn) = 0 := by
    by_contra stored
    have present := (filled.data bn).mp stored
    omega
  have exhausted (reason : Stop) (none : NoBlock sb d reason) : OutOfBlocks sb d count (count + 1) reason := by
    refine ⟨none.1, ?_⟩
    rw [none.2]
    unfold blocksOf
    split
    · split <;> omega
    · rw [if_neg (by omega)]
      omega
  unfold bmap
  by_cases direct : bn.val < NDIRECT
  · have slot : dataSlot bn = .addr ⟨bn, Nat.lt_succ_of_lt direct⟩ := dif_pos direct
    rw [slot] at empty
    rw [dif_pos direct]
    apply ((inodeAddr_new owned inside empty).allow exhausted).weaken
    intro r e ⟨n, isAddr, fields, stored⟩
    rw [← slot] at stored
    rw [isAddr]
    exact (ready_same owned filled (by omega)).mapped inside filled next stored fields
  · have below := bn.isLt
    have entry : bn.val - NDIRECT < NINDIRECT := by
      simp only [MAXFILE] at below
      omega
    have slot : dataSlot bn = .entry ⟨bn - NDIRECT, entry⟩ := dif_neg direct
    rw [dif_neg direct, dif_pos entry]
    by_cases first : count = NDIRECT
    · -- two blocks are needed
      have missing : (inode i).addrs INDIRECT = 0 := by
        by_contra stored
        have more := filled.indirect.mp stored
        omega
      apply ((inodeAddr_new owned inside missing).allow exhausted).bind
      intro r e ⟨n, isAddr, fields, stored⟩
      obtain ⟨addr, ip⟩ := r
      have ready := ready_indirect owned inside missing stored
      have indirect := ready.indirect.mpr (Nat.lt_succ_self _)
      have isIndirect : addr = (update inode i ip i).addrs INDIRECT := by
        have here := stored.slots i inside (.addr INDIRECT)
        rw [if_pos rfl] at here
        exact isAddr.trans here.symm
      rw [slot, ← ready.slots i inside _ (by simp)] at empty
      have exhaustedLater (reason : Stop) (none : NoBlock sb e reason) :
          OutOfBlocks sb d count (count + 1) reason := by
        have one := stored.free
        have noneLeft := none.2
        refine ⟨none.1, ?_⟩
        rw [first]
        change _ + 12 < 14
        omega
      dsimp only
      rw [isIndirect]
      apply ((indirectAddr_new ready.owned inside indirect empty).allow exhaustedLater).bind
      intro entryAddr f ⟨m, isEntry, storedEntry⟩
      subst isEntry
      apply Meets.pure
      rw [← slot] at storedEntry
      subst first
      exact ready.mapped inside filled next storedEntry fields
    · have indirect := filled.indirect.mpr (by omega)
      rw [inodeAddr, if_neg indirect, pure_bind]
      rw [slot] at empty
      apply ((indirectAddr_new owned inside indirect empty).allow exhausted).bind
      intro addr e ⟨n, isAddr, stored⟩
      subst isAddr
      apply Meets.pure
      have storedHere : Stored sb inode d i (dataSlot bn) n (update inode i (inode i)) e := by
        rw [update_eq_self, slot]
        exact stored
      exact (ready_same owned filled first).mapped inside filled next storedHere rfl

/-- `bmap` finds a block of the file or makes the next one. -/
theorem bmap_meets (filled : Filled (inode i) d count) (bn : Fin MAXFILE) (next : bn.val ≤ count) :
    Meets (OutOfBlocks sb d count (max count (bn + 1))) (bmap sb (inode i) bn) d fun r e =>
      Mapped sb inode d i count bn r.1 r.2 e := by
  by_cases present : bn.val < count
  · apply (bmap_found owned inside filled bn present).weaken
    intro r e ⟨isFound, same⟩
    subst isFound same
    exact mapped_present owned filled present
  · have more : max count (bn + 1) = count + 1 := by omega
    rw [more]
    exact bmap_new owned inside filled bn (by omega)

end

end Xv6.Blocks
