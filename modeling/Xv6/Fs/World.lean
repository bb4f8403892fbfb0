import Xv6.Fs.Walk

namespace Xv6.Fs

open Xv6.Data Xv6.Disk
open Function (update update_self update_of_ne update_eq_self update_idem update_comm)

/-! # What a call does to the files

Between calls nothing is locked, and the only references to inodes are those of open
files and current directories.  `World` is all there is to know then.
-/

structure World where
  inode : Inum → Inode
  base : Inum → Nat

namespace World

variable (w : World)

abbrev exemptView (exempt : Finset Inum) (ops : Nat) : View := ⟨w.inode, w.base, 0, ∅, exempt, ops⟩

abbrev view (ops : Nat) : View := w.exemptView ∅ ops

abbrev set (i : Inum) (new : Inode) : World := { w with inode := Function.update w.inode i new }

abbrev setBase (i : Inum) (count : Nat) : World := { w with base := Function.update w.base i count }

def sweep (i : Inum) : World :=
  if (w.inode i).type ≠ .free ∧ (w.inode i).nlink = 0 ∧ w.base i = 0 then
    w.set i { w.inode i with type := .free, data := [] }
  else w

abbrev hold (i : Inum) : World := w.setBase i (w.base i + 1)

abbrev drop (i : Inum) : World := (w.setBase i (w.base i - 1)).sweep i

section

variable (dp : Inum) (name : List Byte) (ip : Inum)

abbrev created (type : FileType) (major minor : BitVec 16) : World :=
  let parent := w.inode dp
  let data := if type = .dir then newDir ip dp else []
  let nlink := if type = .dir then parent.nlink + 1 else parent.nlink
  (w.set ip { type, major, minor, nlink := 1, data }).set dp
    { parent with nlink, data := addEntry parent.data name ip }

abbrev linked : World :=
  (w.set ip { w.inode ip with nlink := (w.inode ip).nlink + 1 }).set dp
    { w.inode dp with data := addEntry (w.inode dp).data name ip }

abbrev unlinked (k : Nat) : World :=
  let parent := w.inode dp
  let nlink := if (w.inode ip).type = .dir then parent.nlink + (-1) else parent.nlink
  (w.set dp { parent with nlink, data := clearEntry parent.data k }).set ip
    { w.inode ip with nlink := (w.inode ip).nlink + (-1) }

end

end World

structure Addable (sb : Superblock) (w : World) (dp : Inum) (name : List Byte) (ip : Inum) (t : World) : Prop where
  isDir : (w.inode dp).type = .dir
  absent : lookup (w.inode dp).data name = none
  small : (addEntry (w.inode dp).data name ip).length ≤ MAXFILE * BSIZE
  blocks : usedBlocks sb t.inode ≤ sb.nblocks

inductive Change (sb : Superblock) (w : World) : World → Prop where
  | create (dp : Inum) (name : List Byte) (ip : Inum) (type : FileType) (major minor : BitVec 16)
      (typed : type ≠ .free) (unused : (w.inode ip).type = .free) (positive : 1 ≤ ip) (below : ip < sb.ninodes)
      (addable : Addable sb w dp name ip (w.created dp name ip type major minor)) :
      Change sb w ((w.created dp name ip type major minor).sweep dp)
  | link (dp : Inum) (name : List Byte) (ip : Inum) (allocated : (w.inode ip).type ≠ .free)
      (notDir : (w.inode ip).type ≠ .dir) (addable : Addable sb w dp name ip (w.linked dp name ip)) :
      Change sb w ((w.linked dp name ip).sweep ip)
  | unlink (dp : Inum) (name : List Byte) (k : Nat) (ip : Inum) (isDir : (w.inode dp).type = .dir)
      (notDot : namecmp name dot ≠ 0) (notDotdot : namecmp name dotdot ≠ 0)
      (found : lookup (w.inode dp).data name = some k) (target : ip = (direntAt (w.inode dp).data k).inum.toNat)
      (different : ip ≠ dp) (allocated : (w.inode ip).type ≠ .free) (positive : ¬(w.inode ip).nlink.toInt < 1)
      (empty : (w.inode ip).type = .dir → Empty (w.inode ip).data) :
      Change sb w (((w.unlinked dp ip k).sweep dp).sweep ip)

inductive Quiet (sb : Superblock) : World → World → Prop where
  | write {w : World} (i : Inum) (data : List Byte) (isFile : (w.inode i).type = .file)
      (blocks : usedBlocks sb (w.set i { w.inode i with data }).inode ≤ sb.nblocks) :
      Quiet sb w (w.set i { w.inode i with data })
  | hold {w : World} (i : Inum) (allocated : (w.inode i).type ≠ .free) : Quiet sb w (w.hold i)
  | drop {w : World} (i : Inum) (inUse : 0 < w.base i) : Quiet sb w (w.drop i)

inductive Effect (sb : Superblock) (w : World) : World → Prop where
  | quiet {t : World} (moves : Relation.ReflTransGen (Quiet sb) w t) : Effect sb w t
  | change {t : World} (changed : Change sb w t) : Effect sb w t
  | changeHold {t : World} (changed : Change sb w t) (i : Inum) (allocated : (t.inode i).type ≠ .free) :
      Effect sb w (t.hold i)

variable {faults : Faults} {sb : Superblock} {v : View} {w : World} {i dp ip : Inum} {name path : List Byte} {ops : Nat}

theorem sweep_base : (w.sweep i).base = w.base := by
  unfold World.sweep
  split
  · rfl
  · rfl

theorem sweep_of_ne {j : Inum} (different : j ≠ i) : (w.sweep i).inode j = w.inode j := by
  unfold World.sweep
  split
  · exact update_of_ne different _ _
  · rfl

theorem sweep_of_used (used : (w.inode i).nlink = 0 → 0 < w.base i) : w.sweep i = w := by
  apply if_neg
  intro freed
  have inUse := used freed.2.1
  omega

theorem View.put_of_last (one : v.held.count i = 1) : v.put i = { v with
      inode := ((World.mk v.inode v.base).sweep i).inode, held := v.held.erase i, exempt := v.exempt.erase i } := by
  simp only [View.put, World.sweep, one, and_true, ↓reduceIte]
  split
  · rfl
  · rfl

theorem leads_iunlockput (member : i ∈ v.locks) (one : v.held.count i = 1) :
    Leads faults sb v (iunlockput i) fun _ u =>
      u = { v with
        inode := ((World.mk v.inode v.base).sweep i).inode, held := v.held.erase i, locks := v.locks.erase i
        exempt := v.exempt.erase i } := by
  have isHeld : i ∈ v.held := by
    rw [← Multiset.count_pos]
    omega
  apply Script.Leads.seq (leads_iunlock member)
  refine (leads_iput ?_ ?_).weaken ?_
  · exact isHeld
  · exact fun isLocked => absurd isLocked (Finset.notMem_erase i _)
  · intro _ u reached
    rw [reached.2, View.put_of_last]
    exact one

theorem leads_expect {ok : Bool} {message : Panic} (fine : Fine faults (.panic message)) :
    Leads faults sb v (expect ok message) fun _ u => ok = true ∧ u = v := by
  cases ok with
  | true => exact .pure ⟨rfl, rfl⟩
  | false => exact .stop fine

theorem readable_nil : Readable [] := ⟨Nat.dvd_zero _, Nat.zero_le _⟩

theorem readable_dot : Readable (addEntry [] dot ip) := by
  obtain ⟨aligned, count⟩ : Aligned (addEntry [] dot ip) ∧ slots (addEntry [] dot ip) = _ :=
    aligned_addEntry (Nat.dvd_zero _)
  refine ⟨aligned, ?_⟩
  rw [aligned.length, count]
  decide

theorem leads_createDots (memberDp : dp ∈ v.locks) (memberIp : ip ∈ v.locks) (different : ip ≠ dp)
    (isDir : (v.inode ip).type = .dir) (blank : (v.inode ip).data = []) (sound : v.Sound) :
    Leads faults sb v (createDots dp ip) fun _ u =>
      u = { v with
        inode := update (update v.inode dp { v.inode dp with nlink := (v.inode dp).nlink + 1 }) ip
          { v.inode ip with data := newDir ip dp }
        exempt := insert dp v.exempt } := by
  have heldDp := (sound.locked dp memberDp).1
  have exempt : ∀ j ∈ insert dp v.exempt, j ∈ v.held := by
    intro j isExempt
    cases Finset.mem_insert.mp isExempt with
    | inl same => exact same ▸ heldDp
    | inr before => exact sound.exempt j before
  apply Script.Leads.bind (leads_changeNlink memberDp)
  intro _ u reached
  have sameIp : u.inode ip = v.inode ip := by
    rw [reached]
    exact update_of_ne different _ _
  have memberU : ip ∈ u.locks := by
    rw [reached]
    exact memberIp
  have exemptU : ∀ j ∈ u.exempt, j ∈ u.held := by
    rw [reached]
    exact exempt
  apply Script.Leads.bind
    (leads_dirlink_absent memberU (by rw [sameIp, isDir]) (by rw [sameIp, blank]; exact readable_nil) exemptU
      (by rw [sameIp, blank, lookup_nil]))
  intro first t added
  rw [sameIp, blank] at added
  obtain ⟨rfl, equalT, _, _⟩ := added
  apply Script.Leads.bind (leads_expect (by simp [Fine]))
  intro _ t' passed
  obtain ⟨_, rfl⟩ := passed
  have selfIp : t'.inode ip = { v.inode ip with data := addEntry [] dot ip } := by
    rw [equalT]
    exact update_self _ _ _
  have memberT : ip ∈ t'.locks := by
    rw [equalT]
    exact memberU
  have exemptT : ∀ j ∈ t'.exempt, j ∈ t'.held := by
    rw [equalT]
    exact exemptU
  apply Script.Leads.bind
    (leads_dirlink_absent memberT (by rw [selfIp, isDir]) (by rw [selfIp]; exact readable_dot) exemptT
      (by rw [selfIp, lookup_dotdot]))
  intro second x added
  rw [selfIp] at added
  obtain ⟨rfl, equalX, _, _⟩ := added
  apply (leads_expect (by simp [Fine])).weaken
  intro _ y passed
  rw [passed.2, equalX, equalT, reached]
  simp only [View.setInode, update_idem, newDir]

theorem leads_createEntry {type : FileType} {major minor : BitVec 16} (typed : type ≠ .free)
    (isDir : (w.inode dp).type = .dir) (readable : Readable (w.inode dp).data)
    (absent : lookup (w.inode dp).data name = none) :
    Leads faults sb (((w.view ops).hold dp).lock dp) (createEntry dp name type major minor) fun n u =>
      (w.inode n).type = .free ∧ 1 ≤ n ∧ n < sb.ninodes ∧
        Addable sb w dp name n (w.created dp name n type major minor) ∧
        u = ((((w.created dp name n type major minor).sweep dp).view ops).hold n).lock n := by
  apply Script.Leads.bind (leads_createInode typed ?_)
  · intro n u made
    obtain ⟨positive, below, unused, equalU⟩ := made
    have different : n ≠ dp := by
      intro same
      rw [same] at unused
      exact absurd (isDir.symm.trans unused) (by decide)
    -- the inode `n` has its entries, and the directory counts its `..`
    have dots : Leads faults sb u (if type = .dir then createDots dp n else pure ()) fun _ t =>
        t.inode = update
          (update w.inode dp
            { w.inode dp with nlink := if type = .dir then (w.inode dp).nlink + 1 else (w.inode dp).nlink }) n
          { type, major, minor, nlink := 1, data := if type = .dir then newDir n dp else [] } ∧
        t.base = w.base ∧ t.held = n ::ₘ dp ::ₘ 0 ∧ t.locks = {n, dp} ∧ t.exempt.erase dp = ∅ ∧
        (∀ j ∈ t.exempt, j ∈ t.held) ∧ t.ops = ops := by
      have selfN : u.inode n = { type, major, minor, nlink := 1 } := by
        rw [equalU]
        exact update_self _ _ _
      have selfDp : u.inode dp = w.inode dp := by
        rw [equalU]
        exact update_of_ne different.symm _ _
      by_cases makesDir : type = .dir
      · subst makesDir
        simp only [↓reduceIte]
        apply leads_of_sound
        intro sound
        refine (leads_createDots ?_ ?_ different ?_ ?_ sound).weaken ?_
        · rw [equalU]
          exact Finset.mem_insert_of_mem (Finset.mem_insert_self dp _)
        · rw [equalU]
          exact Finset.mem_insert_self n _
        · rw [selfN]
        · rw [selfN]
        · intro _ t reached
          rw [reached, selfN, selfDp, equalU]
          refine ⟨?_, rfl, rfl, rfl, ?_, ?_, rfl⟩
          · rw [update_comm different, update_idem]
          · simp
          · simp
      · simp only [makesDir, ↓reduceIte]
        apply Script.Leads.pure
        rw [equalU]
        refine ⟨?_, rfl, rfl, rfl, rfl, ?_, rfl⟩
        · rw [update_eq_self]
        · simp
    apply Script.Leads.bind dots
    intro _ t reached
    obtain ⟨inode, base, held, locks, exempt, exemptHeld, sameOps⟩ := reached
    have selfDp : t.inode dp =
        { w.inode dp with nlink := if type = .dir then (w.inode dp).nlink + 1 else (w.inode dp).nlink } := by
      rw [inode, update_of_ne different.symm, update_self]
    have memberDp : dp ∈ t.locks := by
      rw [locks]
      exact Finset.mem_insert_of_mem (Finset.mem_singleton_self dp)
    apply Script.Leads.bind
      (leads_dirlink_absent memberDp (by rw [selfDp, isDir]) (by rw [selfDp]; exact readable) exemptHeld
        (by rw [selfDp, absent]))
    intro added x reached
    rw [selfDp] at reached
    obtain ⟨rfl, equalX, small, blocks⟩ := reached
    apply Script.Leads.bind (leads_expect (by simp [Fine]))
    intro _ y passed
    obtain ⟨_, rfl⟩ := passed
    have world : World.mk y.inode y.base = w.created dp name n type major minor := by
      rw [equalX]
      simp only []
      rw [inode, base, update_comm different, update_idem, update_comm different.symm]
    have heldY : y.held = n ::ₘ dp ::ₘ 0 := by
      rw [equalX]
      exact held
    have locksY : y.locks = {n, dp} := by
      rw [equalX]
      exact locks
    have exemptY : y.exempt.erase dp = ∅ := by
      rw [equalX]
      exact exempt
    have opsY : y.ops = ops := by
      rw [equalX]
      exact sameOps
    apply Script.Leads.bind (leads_iunlockput (by rw [locksY]; simp) (by rw [heldY]; simp [different.symm]))
    intro _ z reached
    apply Script.Leads.pure
    have blocksY : usedBlocks sb (w.created dp name n type major minor).inode ≤ sb.nblocks := by
      rw [← world]
      exact blocks
    refine ⟨unused, positive, below, ⟨isDir, absent, small, blocksY⟩, ?_⟩
    have eraseLocks : ({n, dp} : Finset Inum).erase dp = insert n ∅ := by
      ext j
      simp only [Finset.mem_erase, Finset.mem_insert, Finset.mem_singleton, Finset.notMem_empty, or_false]
      constructor
      · rintro ⟨notDp, isN | isDp⟩
        · exact isN
        · exact absurd isDp notDp
      · rintro rfl
        exact ⟨different, .inl rfl⟩
    have eraseHeld : (n ::ₘ dp ::ₘ 0).erase dp = n ::ₘ 0 := by
      rw [Multiset.erase_cons_tail _ different, Multiset.erase_cons_head]
    rw [reached, world, heldY, locksY, exemptY, opsY, eraseLocks, eraseHeld]
    simp only [View.lock, sweep_base]
    rw [equalX, base]
  · intro j member
    rw [Multiset.mem_singleton.mp member]
    change (w.inode dp).type ≠ .free
    rw [isDir]
    decide

end Xv6.Fs
