import Xv6.Blocks.Consistency

namespace Xv6.Blocks

open Xv6.Data Xv6.Disk
open Xv6.Fs (Inum NDIRECT MAXFILE Stop Query FileId Tables overwrite writeMax filewriteChunk filewriteLoop
  filewrite)

/-! # Writing in chunks

The pieces that `filewrite` gives to `writei` do together what one `writei` does. -/

variable {sb : Superblock} {d e f : Device} {s t : Inodes} {i : Inum} {ip : Dinode} {off : Nat} {src rest : List Byte}

/-- A regular file that is open and that nobody has locked. -/
structure Idle (sb : Superblock) (s : Inodes) (i : Inum) : Prop where
  consistent : Consistent sb s
  inside : i < sb.ninodes
  isFile : (s.device.dinode sb i).type = T_FILE
  referred : 0 < (s.entry i).ref
  unlocked : (s.entry i).locked = false

structure Wrote (sb : Superblock) (d : Device) (i : Inum) (off : Nat) (src : List Byte) (e : Device) : Prop where
  contents : contents (e.dinode sb i) e = overwrite (contents (d.dinode sb i) d) off src
  size : (e.dinode sb i).size.toNat = max (d.dinode sb i).size.toNat (off + src.length)
  free : (freeBlocks sb e).card + blocksOf (ceilBlocks (e.dinode sb i).size.toNat) =
    (freeBlocks sb d).card + blocksOf (ceilBlocks (d.dinode sb i).size.toNat)

def Room (sb : Superblock) (d : Device) (i : Inum) (size : Nat) : Prop :=
  blocksOf (ceilBlocks size) ≤ (freeBlocks sb d).card + blocksOf (ceilBlocks (d.dinode sb i).size.toNat)

theorem Wrote.room {size : Nat} (wrote : Wrote sb d i off src e) : Room sb e i size ↔ Room sb d i size := by
  rw [Room, Room, wrote.free]

theorem wrote_nil (start : off ≤ (d.dinode sb i).size.toNat) : Wrote sb d i off [] d := by
  refine ⟨Fs.overwrite_nil.symm, ?_, rfl⟩
  rw [List.length_nil, Nat.add_zero, Nat.max_eq_left start]

theorem Wrote.append (first : Wrote sb d i off src e) (second : Wrote sb e i (off + src.length) rest f)
    (start : off ≤ (d.dinode sb i).size.toNat) : Wrote sb d i off (src ++ rest) f := by
  refine ⟨?_, ?_, second.free.trans first.free⟩
  · rw [second.contents, first.contents, Fs.overwrite_append (by rw [length_contents]; exact start)]
  · rw [second.size, first.size, List.length_append]
    omega

theorem Overwritten.wrote (overwritten : Overwritten sb (d.dinode sb) d i off src ip e)
    (stored : e.dinode sb i = ip) : Wrote sb d i off src e := by
  subst stored
  exact ⟨overwritten.contents, overwritten.size, overwritten.free⟩

namespace Idle

variable (idle : Idle sb s i)
include idle

theorem live : (s.device.dinode sb i).type ≠ 0 := by
  rw [idle.isFile]
  decide

theorem ilock : s.ilock sb i = .ok ((), s.setEntry i
    { s.entry i with valid := true, locked := true, ip := s.device.dinode sb i }) := by
  unfold Inodes.ilock
  dsimp only
  rw [if_neg (Nat.not_lt.mpr idle.referred), if_neg (by rw [idle.unlocked]; decide)]
  split
  · rename_i isValid
    have copy := idle.consistent.cached i ⟨idle.referred, isValid⟩
    rw [← copy.clean (idle.consistent.clean i idle.referred idle.unlocked), ← isValid]
  · rw [if_neg (Nat.not_le.mpr idle.inside)]
    obtain ⟨bp, e, ran, isBlock, same⟩ := (idle.consistent.bread idle.inside).exists_run
    have read : s.io (bread (IBLOCK sb i)) = .ok (s.device.block (IBLOCK sb i), s) := by
      rw [Inodes.io, ran, isBlock, same]
      rfl
    rw [read]
    exact if_neg idle.live

theorem writei_meets (start : off ≤ (s.device.dinode sb i).size.toNat) (small : off + src.length ≤ MAXFILE * BSIZE) :
    Meets (OutOfBlocks sb s.device (ceilBlocks (s.device.dinode sb i).size.toNat)
        (ceilBlocks (max (s.device.dinode sb i).size.toNat (off + src.length))))
      (Blocks.writei sb i (s.device.dinode sb i) off src) s.device fun r e =>
        r.1 = some src.length ∧ r.2 = e.dinode sb i ∧ r.2.type = T_FILE ∧ Wrote sb s.device i off src e := by
  have shadow : Shadows sb s.device i (s.device.dinode sb i) false := shadows_self idle.inside idle.live false
  have notDev : (s.device.dinode sb i).type ≠ T_DEV := by
    rw [idle.isFile]
    decide
  have accepted : ¬Refused (s.device.dinode sb i) off src.length := by
    simp only [Refused, MAXFILE, NDIRECT, NINDIRECT, BSIZE] at small ⊢
    omega
  apply (shadow.writei idle.consistent.sound notDev accepted).weaken
  rintro r e ⟨returned, overwritten⟩
  have stored := (shadow.overwritten overwritten).2.clean (ite_self _)
  rw [Function.update_eq_self] at overwritten
  refine ⟨returned, stored, ?_, overwritten.wrote stored.symm⟩
  rw [overwritten.fields]
  exact idle.isFile

theorem writei (locked : CachedInode) (isCopy : locked.ip = s.device.dinode sb i) (isClean : locked.dirty = false)
    (start : off ≤ (s.device.dinode sb i).size.toNat) (small : off + src.length ≤ MAXFILE * BSIZE)
    (room : Room sb s.device i (max (s.device.dinode sb i).size.toNat (off + src.length)))
    (holding : 0 < locked.ref ∧ locked.locked ∧ locked.valid) :
    ∃ e, (s.setEntry i locked).writei sb i off src = .ok (some src.length, { s with device := e }.setEntry i
        { locked with ip := e.dinode sb i }) ∧ Wrote sb s.device i off src e ∧ (e.dinode sb i).type = T_FILE := by
  have entry : (s.setEntry i locked).entry i = locked := Function.update_self ..
  obtain ⟨⟨_, dip⟩, e, ran, rfl, rfl, isFile, wrote⟩ := ((idle.writei_meets start small).allow
    fun reason out => absurd out.2 (Nat.not_lt.mpr room)).exists_run
  have writes : (s.setEntry i locked).io (Blocks.writei sb i (s.device.dinode sb i) off src) =
      .ok ((some src.length, e.dinode sb i), { s.setEntry i locked with device := e }) := by
    rw [Inodes.io]
    change ((Blocks.writei sb i (s.device.dinode sb i) off src).run s.device >>= _) = _
    rw [ran]
    rfl
  refine ⟨e, ?_, wrote, isFile⟩
  rw [Inodes.writei, Inodes.whenLocked, entry, if_pos holding]
  dsimp only
  rw [isCopy, writes]
  change Except.ok (_, Inodes.setEntry { s.setEntry i locked with device := e } i _) = _
  rw [isClean, ite_self]
  simp only [Inodes.setEntry, Function.update_idem]

theorem filewriteChunk (start : off ≤ (s.device.dinode sb i).size.toNat) (small : off + src.length ≤ MAXFILE * BSIZE)
    (room : Room sb s.device i (max (s.device.dinode sb i).size.toNat (off + src.length))) :
    ∃ t, (Fs.filewriteChunk i off src).run (Inodes.handle sb) s = .ok (some src.length, t) ∧
      Idle sb t i ∧ Wrote sb s.device i off src t.device := by
  have begun : Inodes.handle sb s .beginOp = .ok ((), { s with ops := s.ops + 1 }) := rfl
  have idleBegun : Idle sb { s with ops := s.ops + 1 } i :=
    ⟨idle.consistent.same rfl rfl, idle.inside, idle.isFile, idle.referred, idle.unlocked⟩
  have isClean := idle.consistent.clean i idle.referred idle.unlocked
  have locks := idleBegun.ilock
  obtain ⟨e, writes, wrote, isFile⟩ := idleBegun.writei
    { s.entry i with valid := true, locked := true, ip := s.device.dinode sb i } rfl isClean start small room
      ⟨idle.referred, rfl, rfl⟩
  have consistentWritten := (idleBegun.consistent.ilock.of_ok locks).consistent.writei.of_ok writes
  generalize isWritten : Inodes.setEntry { s with device := e, ops := s.ops + 1 } i
    { s.entry i with valid := true, locked := true, ip := e.dinode sb i } = u at writes consistentWritten
  have entry : u.entry i = { s.entry i with valid := true, locked := true, ip := e.dinode sb i } := by
    rw [← isWritten]
    exact Function.update_self ..
  have unlocks : u.iunlock i = .ok ((), u.setEntry i { u.entry i with locked := false }) := by
    unfold Inodes.iunlock
    dsimp only
    rw [entry, if_neg, if_neg]
    · rw [isClean]
      decide
    · intro wrong
      cases wrong with
      | inl unlocked => cases unlocked
      | inr none => exact Nat.not_lt.mpr idle.referred none
  have ops : u.ops = s.ops + 1 := by rw [← isWritten]; rfl
  have device : u.device = e := by rw [← isWritten]; rfl
  have ends : Inodes.handle sb (u.setEntry i { u.entry i with locked := false }) .endOp =
      .ok ((), { u.setEntry i { u.entry i with locked := false } with ops := u.ops - 1 }) :=
    if_neg (by change ¬u.ops < 1; omega)
  refine ⟨{ u.setEntry i { u.entry i with locked := false } with ops := u.ops - 1 }, ?_,
    ⟨(consistentWritten.iunlock.of_ok unlocks).consistent.same rfl rfl, idle.inside, ?_, ?_, ?_⟩, ?_⟩
  · have ranBegin : Fs.beginOp.run (Inodes.handle sb) s = .ok ((), _) := (Script.run_query Query.beginOp).trans begun
    have ranLock : (Fs.ilock i).run (Inodes.handle sb) _ = .ok ((), _) := (Script.run_query (Query.ilock i)).trans locks
    have ranWrite : (Fs.writei i off src).run (Inodes.handle sb) _ = .ok (some src.length, _) :=
      (Script.run_query (Query.writei i off src)).trans writes
    have ranUnlock : (Fs.iunlock i).run (Inodes.handle sb) _ = .ok ((), _) :=
      (Script.run_query (Query.iunlock i)).trans unlocks
    have ranEnd : Fs.endOp.run (Inodes.handle sb) _ = .ok ((), _) := (Script.run_query Query.endOp).trans ends
    rw [Fs.filewriteChunk, Script.run_bind_of_ok ranBegin, Script.run_bind_of_ok ranLock, Script.run_bind_of_ok ranWrite,
      Script.run_bind_of_ok ranUnlock, Script.run_bind_of_ok ranEnd]
    rfl
  · change (u.device.dinode sb i).type = T_FILE
    rw [device]
    exact isFile
  · change 0 < (Function.update u.entry i _ i).ref
    rw [Function.update_self, entry]
    exact idle.referred
  · change (Function.update u.entry i _ i).locked = false
    rw [Function.update_self]
  · change Wrote sb s.device i off src u.device
    rw [device]
    exact wrote

theorem filewriteLoop {fuel : Nat} (enough : src.length ≤ fuel) (start : off ≤ (s.device.dinode sb i).size.toNat)
    (small : off + src.length ≤ MAXFILE * BSIZE)
    (room : Room sb s.device i (max (s.device.dinode sb i).size.toNat (off + src.length))) :
    ∃ t, (Fs.filewriteLoop i fuel src off).run (Inodes.handle sb) s = .ok ((true, off + src.length), t) ∧
      Wrote sb s.device i off src t.device := by
  induction fuel generalizing s src off with
  | zero =>
    have none : src = [] := List.eq_nil_of_length_eq_zero (Nat.le_zero.mp enough)
    subst none
    exact ⟨s, rfl, wrote_nil start⟩
  | succ fuel ih =>
    rw [Fs.filewriteLoop]
    by_cases done : src = []
    · subst done
      exact ⟨s, rfl, wrote_nil start⟩
    · rw [if_neg done]
      have positive : 0 < writeMax := by decide
      have some : 0 < src.length := List.length_pos_iff.mpr done
      have first : (src.take writeMax).length = min writeMax src.length := List.length_take
      have later : (src.drop writeMax).length = src.length - writeMax := List.length_drop
      have whole : off + (src.take writeMax).length + (src.drop writeMax).length = off + src.length := by omega
      have roomFirst : Room sb s.device i (max (s.device.dinode sb i).size.toNat (off + (src.take writeMax).length)) :=
        (blocksOf_mono (ceilBlocks_mono (by omega))).trans room
      obtain ⟨t, ran, idleAfter, wrote⟩ := idle.filewriteChunk start (by omega) roomFirst
      have size := wrote.size
      have roomLater : Room sb t.device i (max (t.device.dinode sb i).size.toNat
          (off + (src.take writeMax).length + (src.drop writeMax).length)) := by
        rw [wrote.room, size, whole]
        exact (blocksOf_mono (ceilBlocks_mono (by omega))).trans room
      obtain ⟨u, ranLater, wroteLater⟩ := ih idleAfter (by omega) (by omega) (by omega) roomLater
      refine ⟨u, ?_, ?_⟩
      · have word : (off + (src.take writeMax).length) % 2 ^ 32 = off + (src.take writeMax).length := by
          simp only [MAXFILE, NDIRECT, NINDIRECT, BSIZE] at small
          omega
        rw [Script.run_bind_of_ok ran]
        dsimp only
        rw [if_neg (by simp), word, ranLater, whole]
      · have both := wrote.append wroteLater start
        rw [List.take_append_drop] at both
        exact both

end Idle

/-- `filewrite` returns all it was given, moves the offset behind it, and leaves the
file as one `writei` of all bytes does, if that one finds blocks. -/
theorem filewrite_as_writei (tables : Tables) (g : FileId) {r : Option Nat} (consistent : Consistent sb s)
    (writable : (tables.file g).writable = true) (isInode : (tables.file g).type = .inode)
    (inside : (tables.file g).ip < sb.ninodes)
    (isFile : (s.device.dinode sb (tables.file g).ip).type = T_FILE)
    (referred : 0 < (s.entry (tables.file g).ip).ref) (unlocked : (s.entry (tables.file g).ip).locked = false)
    (start : (tables.file g).off ≤ (s.device.dinode sb (tables.file g).ip).size.toNat)
    (small : (tables.file g).off + src.length ≤ MAXFILE * BSIZE)
    (single : (writei sb (tables.file g).ip (s.device.dinode sb (tables.file g).ip) (tables.file g).off src).run
      s.device = .ok ((r, ip), e)) :
    r = some src.length ∧
      ∃ t, (filewrite tables g src).run (Inodes.handle sb) s =
          .ok (((src.length : Int), tables.setFile g
            { tables.file g with off := (tables.file g).off + src.length }), t) ∧
        contents (t.device.dinode sb (tables.file g).ip) t.device = contents ip e ∧
        (t.device.dinode sb (tables.file g).ip).size = ip.size := by
  have idle : Idle sb s (tables.file g).ip := ⟨consistent, inside, isFile, referred, unlocked⟩
  obtain ⟨returned, isStored, _, wrote⟩ := (idle.writei_meets start small).of_run single
  dsimp only at returned isStored
  subst isStored
  have room : Room sb s.device (tables.file g).ip
      (max (s.device.dinode sb (tables.file g).ip).size.toNat ((tables.file g).off + src.length)) := by
    rw [Room, ← wrote.size, ← wrote.free]
    exact Nat.le_add_left _ _
  obtain ⟨t, ran, chunks⟩ := idle.filewriteLoop le_rfl start small room
  refine ⟨returned, t, ?_, ?_, ?_⟩
  · rw [filewrite]
    dsimp only
    rw [if_neg (by rw [writable]; decide), isInode]
    dsimp only
    rw [Script.run_bind_of_ok ran]
    rfl
  · rw [chunks.contents, wrote.contents]
  · exact BitVec.eq_of_toNat_eq (chunks.size.trans wrote.size.symm)

def smallInodes : Inodes where
  device := smallDevice
  entry := fun i => if i = 1 then { ref := 1 } else {}
  used := 1

theorem small_consistent {type : BitVec 16} (known : type = T_DIR ∨ type = T_FILE) :
    Consistent smallSuperblock { smallInodes with device := smallDevice type } := by
  have entry (i : Inum) : (smallInodes.entry i).valid = false ∧ (smallInodes.entry i).dirty = false := by
    unfold smallInodes
    dsimp only
    split <;> exact ⟨rfl, rfl⟩
  refine ⟨small_sound known, ?_, fun i _ _ => (entry i).2⟩
  intro i isCached
  rw [Inodes.cached, (entry i).1] at isCached
  cases isCached.2

theorem filewrite_as_writei_small :
    let tables : Tables := ⟨fun _ => { ref := 1, type := .inode, writable := true, ip := 1 }, fun _ => none⟩
    ∃ t, (filewrite tables 0 (List.replicate 1600 7)).run (Inodes.handle smallSuperblock) smallInodes =
        .ok (((1600 : Int), tables.setFile 0 { tables.file 0 with off := 1600 }), t) ∧
      (t.device.dinode smallSuperblock 1).size.toNat = 1600 := by
  intro tables
  have file : smallInodes.device.dinode smallSuperblock 1 = { type := T_FILE, nlink := 1 } :=
    small_dinode (i := 1) (by decide)
  have isFile : (smallInodes.device.dinode smallSuperblock 1).type = T_FILE := by rw [file]
  have start : 0 ≤ (smallInodes.device.dinode smallSuperblock 1).size.toNat := Nat.zero_le _
  have small : 0 + (List.replicate 1600 (7 : Byte)).length ≤ MAXFILE * BSIZE := by
    rw [List.length_replicate]
    decide
  have free : (freeBlocks smallSuperblock smallInodes.device).card = 7 := by decide +kernel
  have idle : Idle smallSuperblock smallInodes 1 := ⟨small_consistent (.inr rfl), by decide, isFile, by decide, rfl⟩
  obtain ⟨⟨r, ip⟩, e, ran, -, isStored, -, wrote⟩ := ((idle.writei_meets start small).allow fun reason out => by
    have short := out.2
    rw [free, file, List.length_replicate] at short
    exact absurd short (by decide)).exists_run
  obtain ⟨-, t, written, -, size⟩ := filewrite_as_writei tables 0 idle.consistent rfl rfl (show 1 < 8 by decide) isFile
    (show 0 < 1 by decide) rfl start small ran
  rw [List.length_replicate] at written
  refine ⟨t, written, ?_⟩
  change (t.device.dinode smallSuperblock 1).size = ip.size at size
  change ip = _ at isStored
  rw [size, isStored, wrote.size, file, List.length_replicate]
  rfl

end Xv6.Blocks
