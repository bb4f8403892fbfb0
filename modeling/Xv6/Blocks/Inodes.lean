import Xv6.Blocks.Files
import Xv6.Fs.Store

namespace Xv6.Blocks

open Xv6.Data Xv6.Disk
open Function (update update_self update_of_ne)
open Xv6.Fs (Inum NDIRECT MAXFILE Stop Query Fields FileType NINODE)

/-! # The inode layer on blocks

An entry of the inode cache has a copy of the inode on the disk; `dirty` records that
a field has been assigned since the copy was stored.
-/

structure CachedInode where
  ref : Nat := 0
  valid : Bool := false
  locked : Bool := false
  dirty : Bool := false
  ip : Dinode := {}

/-- `used` counts the entries with a reference, `ops` the calls that are between
`begin_op` and `end_op`. -/
structure Inodes where
  device : Device
  entry : Inum → CachedInode
  used : Nat
  ops : Nat := 0

def typeCode : FileType → BitVec 16
  | .free => 0
  | .dir => T_DIR
  | .file => T_FILE
  | .dev => T_DEV

/-- The callers compare a type with the three of `stat.h` only. -/
def fileType (type : BitVec 16) : FileType :=
  if type = T_DIR then .dir else if type = T_FILE then .file else if type = T_DEV then .dev else .free

def Dinode.fields (ip : Dinode) : Fields := ⟨fileType ip.type, ip.major, ip.minor, ip.nlink, ip.size.toNat⟩

def iallocLoop (sb : Superblock) (type : BitVec 16) : Nat → Inum → Io Inum
  | 0, _ => throw (.panic .ialloc)
  | fuel + 1, inum =>
    if inum < sb.ninodes then do
      let bp ← bread (IBLOCK sb inum)
      if (getDinode bp (slotOf inum)).type = 0 then do
        logWrite (IBLOCK sb inum) (setDinode bp (slotOf inum) { type })
        pure inum
      else iallocLoop sb type fuel (inum + 1)
    else throw (.panic .ialloc)

def ifree (sb : Superblock) (inum : Inum) (ip : Dinode) : Io Dinode := do
  let ip ← itrunc sb inum ip
  let ip := { ip with type := 0 }
  iupdate sb inum ip
  pure ip

namespace Inodes

def setEntry (s : Inodes) (i : Inum) (entry : CachedInode) : Inodes :=
  { s with entry := Function.update s.entry i entry }

def io {α : Type} (s : Inodes) (program : Io α) : Except Stop (α × Inodes) := do
  let (value, device) ← program.run s.device
  pure (value, { s with device })

def iget (s : Inodes) (inum : Inum) : Except Stop (Unit × Inodes) :=
  let e := s.entry inum
  if 0 < e.ref then .ok ((), s.setEntry inum { e with ref := e.ref + 1 })
  else if NINODE ≤ s.used then .error (.panic .iget)
  else .ok ((), { s.setEntry inum { ref := 1 } with used := s.used + 1 })

def idup (s : Inodes) (ip : Inum) : Except Stop (Unit × Inodes) :=
  let e := s.entry ip
  if e.ref < 1 then .error .misuse else .ok ((), s.setEntry ip { e with ref := e.ref + 1 })

/-- No free inode is referred to. -/
def ialloc (sb : Superblock) (s : Inodes) (type : FileType) : Except Stop (Inum × Inodes) := do
  let (inum, t) ← s.io (iallocLoop sb (typeCode type) sb.ninodes 1)
  if 0 < (t.entry inum).ref then .error .misuse
  else do
    let (_, u) ← t.iget inum
    pure (inum, u)

/-- Numbers from `ninodes` on have no inode; what the source reads for them is not
modelled. -/
def ilock (sb : Superblock) (s : Inodes) (ip : Inum) : Except Stop (Unit × Inodes) :=
  let e := s.entry ip
  if e.ref < 1 then .error (.panic .ilock)
  else if e.locked then .error .deadlock
  else if e.valid then .ok ((), s.setEntry ip { e with locked := true })
  else if sb.ninodes ≤ ip then .error .misuse
  else do
    let (bp, t) ← s.io (bread (IBLOCK sb ip))
    let dip := getDinode bp (slotOf ip)
    if dip.type = 0 then .error (.panic .ilockNoType)
    else pure ((), t.setEntry ip { e with valid := true, locked := true, ip := dip })

def iunlock (s : Inodes) (ip : Inum) : Except Stop (Unit × Inodes) :=
  let e := s.entry ip
  if e.locked = false ∨ e.ref < 1 then .error (.panic .iunlock)
  else if e.dirty then .error .misuse
  else .ok ((), s.setEntry ip { e with locked := false })

def iput (sb : Superblock) (s : Inodes) (ip : Inum) : Except Stop (Unit × Inodes) :=
  let e := s.entry ip
  if e.locked then .error .deadlock
  else if e.ref < 1 then .error .misuse
  else do
    let used := if e.ref = 1 then s.used - 1 else s.used
    if e.valid ∧ e.ip.nlink = 0 ∧ e.ref = 1 then do
      let (dip, t) ← s.io (ifree sb ip e.ip)
      pure ((), { t.setEntry ip { e with ref := e.ref - 1, valid := false, ip := dip } with used })
    else pure ((), { s.setEntry ip { e with ref := e.ref - 1 } with used })

def whenLocked {α : Type} (s : Inodes) (ip : Inum) (body : Except Stop α) : Except Stop α :=
  if 0 < (s.entry ip).ref ∧ (s.entry ip).locked ∧ (s.entry ip).valid then body else .error .misuse

def assign (s : Inodes) (ip : Inum) (major minor nlink : BitVec 16) : Except Stop (Unit × Inodes) :=
  s.whenLocked ip <|
    let e := s.entry ip
    .ok ((), s.setEntry ip { e with dirty := true, ip := { e.ip with major, minor, nlink } })

def iupdate (sb : Superblock) (s : Inodes) (ip : Inum) : Except Stop (Unit × Inodes) :=
  s.whenLocked ip do
    let e := s.entry ip
    let (_, t) ← s.io (Blocks.iupdate sb ip e.ip)
    pure ((), t.setEntry ip { e with dirty := false })

/-- The length is a word; the test for overflow refuses other ones. -/
def readi (sb : Superblock) (s : Inodes) (ip : Inum) (off n : Nat) : Except Stop (Option (List Byte) × Inodes) :=
  s.whenLocked ip <|
    let e := s.entry ip
    if e.ip.type ≠ T_DEV ∧ 2 ^ 32 ≤ n then .ok (none, s)
    else do
      let ((bytes, dip), t) ← s.io (Blocks.readi sb e.ip off n)
      pure (bytes, t.setEntry ip { e with ip := dip })

def writei (sb : Superblock) (s : Inodes) (ip : Inum) (off : Nat) (src : List Byte) :
    Except Stop (Option Nat × Inodes) :=
  s.whenLocked ip do
    let e := s.entry ip
    let ((n, dip), t) ← s.io (Blocks.writei sb ip e.ip off src)
    pure (n, t.setEntry ip { e with ip := dip, dirty := if dip.size = e.ip.size then e.dirty else false })

def beginOp (s : Inodes) : Except Stop (Unit × Inodes) := .ok ((), { s with ops := s.ops + 1 })

def endOp (s : Inodes) : Except Stop (Unit × Inodes) :=
  if s.ops < 1 then .error .misuse else .ok ((), { s with ops := s.ops - 1 })

def handle (sb : Superblock) : Handler Inodes Query Query.Answer Stop
  | s, .iget inum => s.iget inum
  | s, .idup ip => s.idup ip
  | s, .ialloc type => s.ialloc sb type
  | s, .ilock ip => s.ilock sb ip
  | s, .iunlock ip => s.iunlock ip
  | s, .iput ip => s.iput sb ip
  | s, .fields ip => s.whenLocked ip (.ok ((s.entry ip).ip.fields, s))
  | s, .assign ip major minor nlink => s.assign ip major minor nlink
  | s, .iupdate ip => s.iupdate sb ip
  | s, .readi ip off n => s.readi sb ip off n
  | s, .writei ip off src => s.writei sb ip off src
  | s, .beginOp => s.beginOp
  | s, .endOp => s.endOp

end Inodes

variable {sb : Superblock} {d e : Device} {s t : Inodes} {i j : Inum} {ip : Dinode} {fine : Stop → Prop}

/-- The copy of an inode that is on the disk; only a dirty one has fields that differ. -/
structure Shadows (sb : Superblock) (d : Device) (i : Inum) (ip : Dinode) (dirty : Bool) : Prop where
  inside : i < sb.ninodes
  type : ip.type = (d.dinode sb i).type
  size : ip.size = (d.dinode sb i).size
  addrs : ip.addrs = (d.dinode sb i).addrs
  live : ip.type ≠ 0
  clean : dirty = false → ip = d.dinode sb i

def Inodes.cached (s : Inodes) (i : Inum) : Prop := 0 < (s.entry i).ref ∧ (s.entry i).valid = true

/-- The disk is sound, the cache has copies of what is on it, and they are stored before
the lock is released. -/
structure Consistent (sb : Superblock) (s : Inodes) : Prop where
  sound : Sound sb s.device
  cached : ∀ i, s.cached i → Shadows sb s.device i (s.entry i).ip (s.entry i).dirty
  clean : ∀ i, 0 < (s.entry i).ref → (s.entry i).locked = false → (s.entry i).dirty = false

theorem shadows_self (inside : i < sb.ninodes) (live : (d.dinode sb i).type ≠ 0) (dirty : Bool) :
    Shadows sb d i (d.dinode sb i) dirty := ⟨inside, rfl, rfl, rfl, live, fun _ => rfl⟩

theorem Shadows.congr {dirty : Bool} (shadows : Shadows sb d i ip dirty) (same : e.dinode sb i = d.dinode sb i) :
    Shadows sb e i ip dirty := by
  refine ⟨shadows.inside, ?_, ?_, ?_, shadows.live, ?_⟩
  · rw [same, shadows.type]
  · rw [same, shadows.size]
  · rw [same, shadows.addrs]
  · rw [same]
    exact shadows.clean

theorem Shadows.soundFor {dirty : Bool} (shadows : Shadows sb d i ip dirty) (sound : Sound sb d) :
    SoundFor sb (update (d.dinode sb) i ip) d :=
  sound.replace (fun isFree => absurd isFree shadows.live) shadows.size shadows.addrs

section

variable {dirty : Bool} {off n : Nat} {src : List Byte} (shadows : Shadows sb d i ip dirty) (sound : Sound sb d)
include shadows sound

theorem Shadows.readi (notDev : ip.type ≠ T_DEV) (nWord : n < 2 ^ 32) :
    Meets fine (readi sb ip off n) d fun r e => e = d ∧ r.2 = ip ∧
      r.1 = if ip.size.toNat < off ∨ 2 ^ 32 ≤ off + n then none else some (((contents ip d).drop off).take n) := by
  have self : update (d.dinode sb) i ip i = ip := update_self ..
  have read : Meets fine (Blocks.readi sb (update (d.dinode sb) i ip i) off n) d _ :=
    readi_meets (shadows.soundFor sound) shadows.inside (self.symm ▸ notDev) nWord
  rw [self] at read
  exact read

theorem Shadows.writei (notDev : ip.type ≠ T_DEV) (accepted : ¬Refused ip off src.length) :
    Meets (OutOfBlocks sb d (ceilBlocks ip.size.toNat) (ceilBlocks (max ip.size.toNat (off + src.length))))
      (writei sb i ip off src) d fun r e => r.1 = some src.length ∧
        Overwritten sb (update (d.dinode sb) i ip) d i off src r.2 e := by
  have self : update (d.dinode sb) i ip i = ip := update_self ..
  have wrote : Meets _ (Blocks.writei sb i (update (d.dinode sb) i ip i) off src) d _ :=
    writei_meets (self.symm ▸ notDev) (shadows.soundFor sound) shadows.inside (self.symm ▸ accepted)
      (self.symm ▸ shadows.live)
  rw [self] at wrote
  exact wrote

omit sound in
/-- The copy after a write is stored, or it has not changed. -/
theorem Shadows.overwritten {after : Dinode}
    (overwritten : Overwritten sb (update (d.dinode sb) i ip) d i off src after e) :
    Sound sb e ∧ Shadows sb e i after (if after.size = ip.size then dirty else false) := by
  have self : update (d.dinode sb) i ip i = ip := update_self ..
  have stored := overwritten.stored
  have size := overwritten.size
  have live : after.type ≠ 0 := by
    rw [overwritten.fields, self]
    exact shadows.live
  rw [self] at stored size
  have shadow : Shadows sb e i after (if after.size = ip.size then dirty else false) := by
    split at stored
    · rename_i grown
      have changed : after.size ≠ ip.size := by
        intro same
        rw [same] at size
        omega
      rw [if_neg changed]
      exact ⟨shadows.inside, congrArg _ stored.symm, congrArg _ stored.symm, congrArg _ stored.symm, live,
        fun _ => stored.symm⟩
    · rename_i inside
      have same := overwritten.same (by rw [self]; omega)
      rw [self] at same
      subst same
      rw [if_pos rfl]
      exact shadows.congr stored
  have others (j : Inum) (within : j < sb.ninodes) (other : j ≠ i) :
      e.dinode sb j = update (update (d.dinode sb) i ip) i after j := by
    rw [update_of_ne other, update_of_ne other, overwritten.dinode j within other]
  refine ⟨overwritten.sound.congr ?_ ?_ ?_, shadow⟩
  · intro j within
    by_cases own : j = i
    · subst own
      exact fun isFree => absurd (shadow.type.trans isFree) live
    · rw [others j within own]
      exact overwritten.sound.free j within
  · intro j within
    by_cases own : j = i
    · rw [own, update_self, shadow.size]
    · rw [others j within own]
  · intro j within
    by_cases own : j = i
    · rw [own, update_self, shadow.addrs]
    · rw [others j within own]

end

theorem io_ends {α : Type} {program : Io α} {post : α → Device → Prop} (meets : Meets fine program s.device post) :
    Ends fine (fun r => ∃ e, r.2 = { s with device := e } ∧ post r.1 e) (s.io program) := by
  unfold Inodes.io
  cases ran : program.run s.device with
  | ok r => exact .ok ⟨r.2, rfl, meets.of_run ran⟩
  | error reason => exact .error (meets.of_error ran)

end Xv6.Blocks
