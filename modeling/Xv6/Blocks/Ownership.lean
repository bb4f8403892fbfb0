import Xv6.Blocks.Layout
import Xv6.Data.Assignment

namespace Xv6.Blocks

open Xv6.Data Xv6.Disk
open Function (update update_self update_of_ne)
open Xv6.Fs (Inum NDIRECT MAXFILE Stop)

/-! # Who owns the blocks

Every data block that the free map shows in use is stored in exactly one place: in
`addrs` of an inode or in its indirect block.
-/

/-- The places of an inode that a block number is stored in. -/
inductive Slot where
  | addr (k : Fin (NDIRECT + 1))
  | entry (k : Fin NINDIRECT)
deriving DecidableEq

abbrev Place := Inum × Slot

def slotAddr (ip : Dinode) (d : Device) : Slot → BlockNo
  | .addr k => ip.addrs k
  | .entry k => if ip.addrs INDIRECT = 0 then 0 else (d.block (ip.addrs INDIRECT).toNat).word k

variable {sb : Superblock} {inode : Inum → Dinode} {d e : Device} {n : Nat} {i j : Inum} {ip : Dinode} {s : Slot}

def holder (sb : Superblock) (inode : Inum → Dinode) (d : Device) (p : Place) : Option Nat :=
  if p.1 < sb.ninodes ∧ slotAddr (inode p.1) d p.2 ≠ 0 then some (slotAddr (inode p.1) d p.2).toNat else none

def inUse (sb : Superblock) (d : Device) : Set Nat := {b | sb.metadata ≤ b ∧ b < sb.size ∧ d.bit sb b = true}

structure Owned (sb : Superblock) (inode : Inum → Dinode) (d : Device) : Prop where
  layout : Layout sb
  reserved : ∀ c < sb.metadata, d.bit sb c = true
  assigned : Assigned (holder sb inode d) (inUse sb d)

theorem holder_some (inside : i < sb.ninodes) (stored : slotAddr (inode i) d s ≠ 0) :
    holder sb inode d (i, s) = some (slotAddr (inode i) d s).toNat := if_pos ⟨inside, stored⟩

theorem holder_none (empty : slotAddr (inode i) d s = 0) : holder sb inode d (i, s) = none :=
  if_neg fun stored => stored.2 empty

namespace Owned

variable (owned : Owned sb inode d)
include owned

theorem data (inside : i < sb.ninodes) (stored : slotAddr (inode i) d s ≠ 0) :
    (slotAddr (inode i) d s).toNat ∈ inUse sb d := owned.assigned.mem (holder_some inside stored)

theorem indirect (inside : i < sb.ninodes) (stored : (inode i).addrs INDIRECT ≠ 0) :
    ((inode i).addrs INDIRECT).toNat ∈ inUse sb d :=
  owned.assigned.mem (holder_some (s := .addr INDIRECT) inside stored)

theorem small (inside : i < sb.ninodes) (stored : slotAddr (inode i) d s ≠ 0) :
    (slotAddr (inode i) d s).toNat < FSSIZE := (owned.data inside stored).2.1.trans_le owned.layout.small

theorem unique {t : Slot} (insideI : i < sb.ninodes) (insideJ : j < sb.ninodes) (stored : slotAddr (inode i) d s ≠ 0)
    (same : slotAddr (inode i) d s = slotAddr (inode j) d t) : i = j ∧ s = t := by
  have storedJ : slotAddr (inode j) d t ≠ 0 := same ▸ stored
  have first := holder_some insideI stored
  have second := holder_some insideJ storedJ
  rw [same] at first
  exact Prod.mk.inj (owned.assigned.unique first second)

end Owned

theorem slotAddr_same (same : ip.addrs INDIRECT ≠ 0 → e.block (ip.addrs INDIRECT).toNat = d.block (ip.addrs INDIRECT).toNat)
    (s : Slot) : slotAddr ip e s = slotAddr ip d s := by
  cases s with
  | addr k => rfl
  | entry k =>
    simp only [slotAddr]
    by_cases none : ip.addrs INDIRECT = 0
    · rw [if_pos none, if_pos none]
    · rw [if_neg none, if_neg none, same none]

theorem holder_congr {other : Inum → Dinode}
    (same : ∀ i < sb.ninodes, ∀ s, slotAddr (other i) e s = slotAddr (inode i) d s) :
    holder sb other e = holder sb inode d := by
  funext p
  unfold holder
  by_cases inside : p.1 < sb.ninodes
  · rw [same p.1 inside]
  · rw [if_neg fun stored => inside stored.1, if_neg fun stored => inside stored.1]

namespace Allocated

variable (allocated : Allocated sb d n e)
include allocated

theorem word (layout : Layout sb) : (BitVec.ofNat 32 n).toNat = n := by
  have small : n < 1000 := allocated.upper.trans_le layout.small
  rw [BitVec.toNat_ofNat]
  omega

theorem ne_zero (layout : Layout sb) : BitVec.ofNat 32 n ≠ 0 := by
  intro zero
  have value := allocated.word layout
  have positive : 0 < sb.metadata := (Nat.zero_le _).trans_lt (layout.bitmap n allocated.upper)
  have lower := allocated.lower
  rw [zero] at value
  change 0 = n at value
  omega

theorem inUse_eq : inUse sb e = insert n (inUse sb d) := by
  ext c
  simp only [inUse, Set.mem_ofPred_eq, Set.mem_insert_iff]
  constructor
  · intro ⟨lower, upper, used⟩
    rw [allocated.bits c upper] at used
    by_cases same : c = n
    · exact .inl same
    · rw [if_neg same] at used
      exact .inr ⟨lower, upper, used⟩
  · intro member
    cases member with
    | inl same =>
      subst c
      exact ⟨allocated.lower, allocated.upper, by rw [allocated.bits n allocated.upper, if_pos rfl]⟩
    | inr before =>
      refine ⟨before.1, before.2.1, ?_⟩
      rw [allocated.bits c before.2.1]
      split
      · rfl
      · exact before.2.2

theorem notMem : n ∉ inUse sb d := by
  intro member
  have used := member.2.2
  rw [allocated.free] at used
  cases used

theorem reserved (before : ∀ c < sb.metadata, d.bit sb c = true) : ∀ c < sb.metadata, e.bit sb c = true := by
  intro c below
  rw [allocated.bits c (below.trans_le (Nat.sub_le _ _)), before c below]
  split
  · rfl
  · rfl

theorem block_of_inUse {c : Nat} (used : c ∈ inUse sb d) : e.block c = d.block c := by
  apply allocated.frame c (.inr used.1)
  intro same
  exact allocated.notMem (same ▸ used)

theorem slotAddr_eq (owned : Owned sb inode d) (inside : i < sb.ninodes) (s : Slot) :
    slotAddr (inode i) e s = slotAddr (inode i) d s :=
  slotAddr_same (fun stored => allocated.block_of_inUse (owned.indirect inside stored)) s

end Allocated

theorem Device.bit_write {c b : Nat} {data : Block} (layout : Layout sb) (off : OffMap sb b) (inside : c < sb.size) :
    (d.write b data).bit sb c = d.bit sb c := by
  rw [Device.bit, Device.write_of_ne (layout.offMap_ne inside off)]
  rfl

theorem inUse_write {b : Nat} {data : Block} (layout : Layout sb) (off : OffMap sb b) :
    inUse sb (d.write b data) = inUse sb d := by
  ext c
  simp only [inUse, Set.mem_ofPred_eq]
  constructor
  · intro ⟨lower, upper, bit⟩
    rw [Device.bit_write layout off upper] at bit
    exact ⟨lower, upper, bit⟩
  · intro ⟨lower, upper, bit⟩
    refine ⟨lower, upper, ?_⟩
    rw [Device.bit_write layout off upper]
    exact bit

theorem Owned.write {b : Nat} {data : Block} (owned : Owned sb inode d) (off : OffMap sb b)
    (same : ∀ j < sb.ninodes, ∀ s, slotAddr (inode j) (d.write b data) s = slotAddr (inode j) d s) :
    Owned sb inode (d.write b data) := by
  refine ⟨owned.layout, ?_, ?_⟩
  · intro c below
    rw [Device.bit_write owned.layout off (below.trans_le (Nat.sub_le _ _))]
    exact owned.reserved c below
  · rw [inUse_write owned.layout off, holder_congr same]
    exact owned.assigned

section

variable (owned : Owned sb inode d) (inside : i < sb.ninodes) (allocated : Allocated sb d n e)
include owned inside allocated

theorem slotAddr_setAddr {k : Fin (NDIRECT + 1)} (empty : (inode i).addrs k = 0) (other : s ≠ .addr k) :
    slotAddr ((inode i).setAddr k (BitVec.ofNat 32 n)) e s = slotAddr (inode i) d s := by
  cases s with
  | addr m =>
    have different : m ≠ k := fun same => other (by rw [same])
    exact update_of_ne different ..
  | entry m =>
    by_cases last : INDIRECT = k
    · subst last
      -- the new indirect block is empty
      have old : slotAddr (inode i) d (.entry m) = 0 := if_pos empty
      rw [old, slotAddr, Dinode.setAddr]
      simp only [update_self]
      rw [if_neg (allocated.ne_zero owned.layout), allocated.word owned.layout, allocated.zero, Block.word_zero]
    · have same : ((inode i).setAddr k (BitVec.ofNat 32 n)).addrs INDIRECT = (inode i).addrs INDIRECT :=
        update_of_ne last ..
      rw [← allocated.slotAddr_eq owned inside (.entry m), slotAddr, slotAddr, same]

theorem holder_setAddr {k : Fin (NDIRECT + 1)} (empty : (inode i).addrs k = 0) :
    holder sb (update inode i ((inode i).setAddr k (BitVec.ofNat 32 n))) e =
      update (holder sb inode d) (i, .addr k) (some n) := by
  funext p
  obtain ⟨j, s⟩ := p
  by_cases here : (j, s) = (i, .addr k)
  · obtain ⟨rfl, rfl⟩ := Prod.mk.inj here
    have stored : slotAddr (update inode j ((inode j).setAddr k (BitVec.ofNat 32 n)) j) e (.addr k) =
        BitVec.ofNat 32 n := by
      rw [update_self]
      exact update_self ..
    rw [update_self, holder_some inside (by rw [stored]; exact allocated.ne_zero owned.layout), stored,
      allocated.word owned.layout]
  · rw [update_of_ne here]
    unfold holder
    by_cases within : j < sb.ninodes
    · have same : slotAddr (update inode i ((inode i).setAddr k (BitVec.ofNat 32 n)) j) e s =
          slotAddr (inode j) d s := by
        by_cases own : j = i
        · subst own
          rw [update_self]
          exact slotAddr_setAddr owned inside allocated empty fun atK => here (by rw [atK])
        · rw [update_of_ne own]
          exact allocated.slotAddr_eq owned within s
      simp only [same]
    · rw [if_neg fun stored => within stored.1, if_neg fun stored => within stored.1]

theorem Owned.attach_addr {k : Fin (NDIRECT + 1)} (empty : (inode i).addrs k = 0) :
    Owned sb (update inode i ((inode i).setAddr k (BitVec.ofNat 32 n))) e := by
  refine ⟨owned.layout, allocated.reserved owned.reserved, ?_⟩
  rw [holder_setAddr owned inside allocated empty, allocated.inUse_eq]
  exact owned.assigned.attach allocated.notMem (holder_none empty)

variable (indirect : (inode i).addrs INDIRECT ≠ 0)
include indirect

theorem slotAddr_setWord {k : Fin NINDIRECT} (within : j < sb.ninodes) :
    slotAddr (inode j) (e.write ((inode i).addrs INDIRECT).toNat
        ((e.block ((inode i).addrs INDIRECT).toNat).setWord k (BitVec.ofNat 32 n))) s =
      if (j, s) = (i, .entry k) then BitVec.ofNat 32 n else slotAddr (inode j) d s := by
  cases s with
  | addr m => rw [if_neg (by simp)]; rfl
  | entry m =>
    rw [← allocated.slotAddr_eq owned within (.entry m)]
    simp only [slotAddr, Prod.mk.injEq, Slot.entry.injEq]
    by_cases none : (inode j).addrs INDIRECT = 0
    · have other : ¬(j = i ∧ m = k) := fun here => indirect (here.1 ▸ none)
      rw [if_pos none, if_neg other, if_pos none]
    · rw [if_neg none, if_neg none]
      by_cases own : j = i
      · subst own
        rw [Device.write_self]
        by_cases atK : m = k
        · rw [atK, Block.word_setWord_self, if_pos ⟨rfl, rfl⟩]
        · rw [Block.word_setWord_of_ne _ _ atK, if_neg fun here => atK here.2]
      · have apart : ((inode j).addrs INDIRECT).toNat ≠ ((inode i).addrs INDIRECT).toNat := by
          intro same
          have both := owned.unique (s := .addr INDIRECT) (t := .addr INDIRECT) within inside none
            (BitVec.eq_of_toNat_eq same)
          exact own both.1
        rw [Device.write_of_ne apart, if_neg fun here => own here.1]

theorem Owned.attach_entry {k : Fin NINDIRECT} (empty : slotAddr (inode i) d (.entry k) = 0) :
    Owned sb inode (e.write ((inode i).addrs INDIRECT).toNat
      ((e.block ((inode i).addrs INDIRECT).toNat).setWord k (BitVec.ofNat 32 n))) := by
  have data := owned.indirect inside indirect
  have off : OffMap sb ((inode i).addrs INDIRECT).toNat := .inr data.1
  refine ⟨owned.layout, ?_, ?_⟩
  · intro c below
    rw [Device.bit_write owned.layout off (below.trans_le (Nat.sub_le _ _))]
    exact allocated.reserved owned.reserved c below
  · have held : holder sb inode (e.write ((inode i).addrs INDIRECT).toNat
        ((e.block ((inode i).addrs INDIRECT).toNat).setWord k (BitVec.ofNat 32 n))) =
        update (holder sb inode d) (i, .entry k) (some n) := by
      funext p
      obtain ⟨j, s⟩ := p
      by_cases within : j < sb.ninodes
      · rw [holder, slotAddr_setWord owned inside allocated indirect within]
        by_cases here : (j, s) = (i, .entry k)
        · rw [if_pos here, here, update_self, if_pos ⟨inside, allocated.ne_zero owned.layout⟩,
            allocated.word owned.layout]
        · rw [if_neg here, update_of_ne here]
          rfl
      · have notHere : (j, s) ≠ (i, .entry k) := by
          intro here
          exact within ((Prod.mk.inj here).1 ▸ inside)
        rw [update_of_ne notHere, holder, holder, if_neg fun stored => within stored.1,
          if_neg fun stored => within stored.1]
    rw [inUse_write owned.layout off, allocated.inUse_eq, held]
    exact owned.assigned.attach allocated.notMem (holder_none empty)

end

def freeBlocks (sb : Superblock) (d : Device) : Finset Nat := (Finset.range sb.size).filter fun b => d.bit sb b = false

theorem Allocated.freeBlocks_card (allocated : Allocated sb d n e) :
    (freeBlocks sb e).card + 1 = (freeBlocks sb d).card := by
  have member : n ∈ freeBlocks sb d :=
    Finset.mem_filter.mpr ⟨Finset.mem_range.mpr allocated.upper, allocated.free⟩
  have erased : freeBlocks sb e = (freeBlocks sb d).erase n := by
    ext c
    simp only [freeBlocks, Finset.mem_filter, Finset.mem_range, Finset.mem_erase]
    constructor
    · intro ⟨below, free⟩
      rw [allocated.bits c below] at free
      by_cases same : c = n
      · rw [if_pos same] at free
        cases free
      · rw [if_neg same] at free
        exact ⟨same, below, free⟩
    · intro ⟨different, below, free⟩
      refine ⟨below, ?_⟩
      rw [allocated.bits c below, if_neg different]
      exact free
  rw [erased, Finset.card_erase_add_one member]

theorem freeBlocks_write {b : Nat} {data : Block} (layout : Layout sb) (off : OffMap sb b) :
    freeBlocks sb (d.write b data) = freeBlocks sb d := by
  apply Finset.filter_congr
  intro c below
  rw [Device.bit_write layout off (Finset.mem_range.mp below)]

theorem freeBlocks_full (full : ∀ c < sb.size, d.bit sb c = true) : (freeBlocks sb d).card = 0 := by
  rw [Finset.card_eq_zero, freeBlocks, Finset.filter_eq_empty_iff]
  intro c below free
  rw [full c (Finset.mem_range.mp below)] at free
  cases free

def dataSlot (bn : Fin MAXFILE) : Slot :=
  if direct : bn.val < NDIRECT then .addr ⟨bn, Nat.lt_succ_of_lt direct⟩
  else .entry ⟨bn - NDIRECT, Nat.sub_lt_left_of_lt_add (Nat.le_of_not_lt direct) bn.isLt⟩

theorem dataSlot_injective {bn other : Fin MAXFILE} (same : dataSlot bn = dataSlot other) : bn = other := by
  unfold dataSlot at same
  apply Fin.ext
  split at same
  · split at same
    · exact Fin.mk.inj (Slot.addr.inj same)
    · cases same
  · split at same
    · cases same
    · have value := Fin.mk.inj (Slot.entry.inj same)
      omega

theorem dataSlot_ne (bn : Fin MAXFILE) : dataSlot bn ≠ .addr INDIRECT := by
  unfold dataSlot
  split
  · rename_i direct
    intro same
    have value : bn.val = NDIRECT := congrArg Fin.val (Slot.addr.inj same)
    omega
  · exact nofun

def fileBlocks (ip : Dinode) (d : Device) (bn : Fin MAXFILE) : Option Block :=
  if slotAddr ip d (dataSlot bn) = 0 then none else some (d.block (slotAddr ip d (dataSlot bn)).toNat)

theorem fileBlocks_same {bn : Fin MAXFILE} (slot : slotAddr ip e (dataSlot bn) = slotAddr ip d (dataSlot bn))
    (block : slotAddr ip d (dataSlot bn) ≠ 0 →
      e.block (slotAddr ip d (dataSlot bn)).toNat = d.block (slotAddr ip d (dataSlot bn)).toNat) :
    fileBlocks ip e bn = fileBlocks ip d bn := by
  unfold fileBlocks
  rw [slot]
  by_cases none : slotAddr ip d (dataSlot bn) = 0
  · rw [if_pos none, if_pos none]
  · rw [if_neg none, if_neg none, block none]

/-- The block `n` has been allocated and stored in a place of inode `i`. -/
structure Stored (sb : Superblock) (inode : Inum → Dinode) (d : Device) (i : Inum) (s : Slot) (n : Nat)
    (after : Inum → Dinode) (e : Device) : Prop where
  owned : Owned sb after e
  ne_zero : BitVec.ofNat 32 n ≠ 0
  word : (BitVec.ofNat 32 n).toNat = n
  slots : ∀ j < sb.ninodes, ∀ t, slotAddr (after j) e t =
    if (j, t) = (i, s) then BitVec.ofNat 32 n else slotAddr (inode j) d t
  zero : e.block n = Block.zero
  frame : ∀ c ∈ inUse sb d, c ≠ ((inode i).addrs INDIRECT).toNat → e.block c = d.block c
  dinode : ∀ j < sb.ninodes, e.dinode sb j = d.dinode sb j
  free : (freeBlocks sb e).card + 1 = (freeBlocks sb d).card
  logged : Logs sb d (fun b => b = n ∨ (∃ k, s = .entry k) ∧ b = ((after i).addrs INDIRECT).toNat) e

theorem Allocated.dinode (allocated : Allocated sb d n e) (layout : Layout sb) (inside : j < sb.ninodes) :
    e.dinode sb j = d.dinode sb j := by
  have before := layout.inode_lt inside allocated.lower allocated.upper
  rw [Device.dinode, allocated.frame _ (.inl (layout.inodes j inside)) (Nat.ne_of_lt before)]
  rfl

section

variable (owned : Owned sb inode d) (inside : i < sb.ninodes) (allocated : Allocated sb d n e)
include owned inside allocated

theorem stored_addr {k : Fin (NDIRECT + 1)} (empty : (inode i).addrs k = 0) :
    Stored sb inode d i (.addr k) n (update inode i ((inode i).setAddr k (BitVec.ofNat 32 n))) e where
  owned := owned.attach_addr inside allocated empty
  ne_zero := allocated.ne_zero owned.layout
  word := allocated.word owned.layout
  slots := by
    intro j within t
    by_cases own : j = i
    · subst own
      rw [update_self]
      by_cases here : t = .addr k
      · subst here
        rw [if_pos rfl]
        exact update_self ..
      · rw [slotAddr_setAddr owned inside allocated empty here, if_neg fun both => here (Prod.mk.inj both).2]
    · rw [update_of_ne own, allocated.slotAddr_eq owned within, if_neg fun both => own (Prod.mk.inj both).1]
  zero := allocated.zero
  frame := fun c used _ => allocated.block_of_inUse used
  dinode := fun j within => allocated.dinode owned.layout within
  free := allocated.freeBlocks_card
  logged := allocated.logged.mono fun _ isNew => .inl isNew

theorem stored_entry {k : Fin NINDIRECT} (indirect : (inode i).addrs INDIRECT ≠ 0)
    (empty : slotAddr (inode i) d (.entry k) = 0) :
    Stored sb inode d i (.entry k) n inode (e.write ((inode i).addrs INDIRECT).toNat
      ((e.block ((inode i).addrs INDIRECT).toNat).setWord k (BitVec.ofNat 32 n))) where
  owned := owned.attach_entry inside allocated indirect empty
  ne_zero := allocated.ne_zero owned.layout
  word := allocated.word owned.layout
  slots := fun j within t => slotAddr_setWord owned inside allocated indirect within
  zero := by
    have apart : n ≠ ((inode i).addrs INDIRECT).toNat := by
      intro same
      exact allocated.notMem (same ▸ owned.indirect inside indirect)
    rw [Device.write_of_ne apart]
    exact allocated.zero
  frame := by
    intro c used other
    rw [Device.write_of_ne other]
    exact allocated.block_of_inUse used
  dinode := by
    intro j within
    have data := owned.indirect inside indirect
    have before := owned.layout.inode_lt within data.1 data.2.1
    rw [Device.dinode, Device.write_of_ne (Nat.ne_of_lt before)]
    exact allocated.dinode owned.layout within
  free := by
    rw [freeBlocks_write owned.layout (.inr (owned.indirect inside indirect).1)]
    exact allocated.freeBlocks_card
  logged := (allocated.logged.mono fun _ isNew => .inl isNew).trans (.write (.inr ⟨⟨k, rfl⟩, rfl⟩))

end

theorem Stored.fileBlocks {after : Inum → Dinode} (stored : Stored sb inode d i s n after e) (owned : Owned sb inode d)
    (inside : i < sb.ninodes) (within : j < sb.ninodes) (bn : Fin MAXFILE) :
    fileBlocks (after j) e bn = if (j, dataSlot bn) = (i, s) then some Block.zero else fileBlocks (inode j) d bn := by
  unfold Blocks.fileBlocks
  rw [stored.slots j within]
  by_cases here : (j, dataSlot bn) = (i, s)
  · rw [if_pos here, if_pos here, if_neg stored.ne_zero, stored.word, stored.zero]
  · rw [if_neg here, if_neg here]
    by_cases none : slotAddr (inode j) d (dataSlot bn) = 0
    · rw [if_pos none, if_pos none]
    · rw [if_neg none, if_neg none]
      -- a block of data is not the indirect block of the inode
      have other : (slotAddr (inode j) d (dataSlot bn)).toNat ≠ ((inode i).addrs INDIRECT).toNat := by
        intro same
        have both := owned.unique (t := .addr INDIRECT) within inside none (BitVec.eq_of_toNat_eq same)
        exact dataSlot_ne bn both.2
      rw [stored.frame _ (owned.data within none) other]

end Xv6.Blocks
