import Xv6.Fs.Calls

namespace Xv6.Fs

open Xv6.Data Xv6.Disk

/-! # Inodes as files

The inode layer with the contents of each inode as one list of bytes.  The disk copy
of an inode and the copy in the cache are one value, since every function that
changes the cached copy calls `iupdate` before it releases the lock; `dirty` tells
when they differ.
-/

abbrev NINODE : Nat := 50

def CONSOLE : BitVec 16 := 1

structure Superblock where
  ninodes : Nat
  nblocks : Nat
deriving DecidableEq, Repr

structure Inode where
  type : FileType := .free
  major : BitVec 16 := 0
  minor : BitVec 16 := 0
  nlink : BitVec 16 := 0
  data : List Byte := []
deriving DecidableEq, Repr

structure Entry where
  ref : Nat := 0
  valid : Bool := false
  locked : Bool := false
  dirty : Bool := false
deriving DecidableEq, Repr

/-- `used` counts the entries of the inode cache with a reference, `ops` the calls that
are between `begin_op` and `end_op`.  `input` is what `consoleread` will return. -/
structure Store where
  inode : Inum → Inode
  entry : Inum → Entry
  used : Nat
  ops : Nat := 0
  input : List (Option (List Byte)) := []

def Inode.fields (inode : Inode) : Fields :=
  ⟨inode.type, inode.major, inode.minor, inode.nlink, inode.data.length⟩

def blocksFor (size : Nat) : Nat :=
  let blocks := (size + (BSIZE - 1)) / BSIZE
  if blocks ≤ NDIRECT then blocks else blocks + 1

def usedBlocks (sb : Superblock) (inode : Inum → Inode) : Nat :=
  ((List.range sb.ninodes).map fun i => blocksFor (inode i).data.length).sum

def Store.setInode (s : Store) (i : Inum) (inode : Inode) : Store :=
  { s with inode := Function.update s.inode i inode }

def Store.setEntry (s : Store) (i : Inum) (entry : Entry) : Store :=
  { s with entry := Function.update s.entry i entry }

def overwrite (data : List Byte) (off : Nat) (src : List Byte) : List Byte :=
  data.take off ++ src ++ data.drop (off + src.length)

namespace Store

def iget (s : Store) (inum : Inum) : Except Stop (Unit × Store) :=
  let e := s.entry inum
  if 0 < e.ref then .ok ((), s.setEntry inum { e with ref := e.ref + 1 })
  else if NINODE ≤ s.used then .error (.panic .iget)
  else .ok ((), { s.setEntry inum { ref := 1 } with used := s.used + 1 })

def idup (s : Store) (ip : Inum) : Except Stop (Unit × Store) :=
  let e := s.entry ip
  if e.ref < 1 then .error .misuse else .ok ((), s.setEntry ip { e with ref := e.ref + 1 })

/-- The first free inode; inode 0 is not used. -/
def freeInode (sb : Superblock) (s : Store) : Option Inum :=
  (List.range sb.ninodes).find? fun i => 1 ≤ i ∧ (s.inode i).type = .free

def ialloc (sb : Superblock) (s : Store) (type : FileType) : Except Stop (Inum × Store) :=
  match s.freeInode sb with
  | none => .error (.panic .ialloc)
  | some i =>
    if 0 < (s.entry i).ref then .error .misuse
    else (s.setInode i { type }).iget i >>= fun (_, t) => .ok (i, t)

def ilock (s : Store) (ip : Inum) : Except Stop (Unit × Store) :=
  let e := s.entry ip
  if e.ref < 1 then .error (.panic .ilock)
  else if e.locked then .error .deadlock
  else if e.valid = false ∧ (s.inode ip).type = .free then .error (.panic .ilockNoType)
  else .ok ((), s.setEntry ip { e with valid := true, locked := true })

def iunlock (s : Store) (ip : Inum) : Except Stop (Unit × Store) :=
  let e := s.entry ip
  if e.locked = false ∨ e.ref < 1 then .error (.panic .iunlock)
  else if e.dirty then .error .misuse
  else .ok ((), s.setEntry ip { e with locked := false })

def iput (s : Store) (ip : Inum) : Except Stop (Unit × Store) :=
  let e := s.entry ip
  if e.locked then .error .deadlock
  else if e.ref < 1 then .error .misuse
  else
    let dropped := { s with used := if e.ref = 1 then s.used - 1 else s.used }
    if e.valid ∧ (s.inode ip).nlink = 0 ∧ e.ref = 1 then
      .ok ((), (dropped.setInode ip { s.inode ip with type := .free, data := [] }).setEntry ip
        { e with ref := e.ref - 1, valid := false })
    else .ok ((), dropped.setEntry ip { e with ref := e.ref - 1 })

def locked {α : Type} (s : Store) (ip : Inum) (body : Except Stop α) : Except Stop α :=
  if (s.entry ip).locked ∧ (s.entry ip).valid then body else .error .misuse

def assign (s : Store) (ip : Inum) (major minor nlink : BitVec 16) : Except Stop (Unit × Store) :=
  s.locked ip (.ok ((), (s.setInode ip { s.inode ip with major, minor, nlink }).setEntry ip
    { s.entry ip with dirty := true }))

def iupdate (s : Store) (ip : Inum) : Except Stop (Unit × Store) :=
  s.locked ip (.ok ((), s.setEntry ip { s.entry ip with dirty := false }))

def readi (s : Store) (ip : Inum) (off n : Nat) : Except Stop (Option (List Byte) × Store) :=
  s.locked ip <|
    let i := s.inode ip
    if i.type = .dev then
      if i.major = CONSOLE then .ok ((s.input.headD none).map (List.take n), { s with input := s.input.tail })
      else .ok (none, s)
    else if i.data.length < off ∨ 2 ^ 32 ≤ off + n then .ok (none, s)
    else .ok (some ((i.data.drop off).take n), s)

def writei (sb : Superblock) (s : Store) (ip : Inum) (off : Nat) (src : List Byte) :
    Except Stop (Option Nat × Store) :=
  s.locked ip <|
    let i := s.inode ip
    if i.type = .dev then .ok (if i.major = CONSOLE then some src.length else none, s)
    else if i.data.length < off ∨ 2 ^ 32 ≤ off + src.length then .ok (none, s)
    else if MAXFILE * BSIZE < off + src.length then .ok (none, s)
    else
      let t := s.setInode ip { i with data := overwrite i.data off src }
      if sb.nblocks < usedBlocks sb t.inode then .error (.panic .balloc)
      else if i.data.length < off + src.length then
        .ok (some src.length, t.setEntry ip { s.entry ip with dirty := false })
      else .ok (some src.length, t)

def beginOp (s : Store) : Except Stop (Unit × Store) := .ok ((), { s with ops := s.ops + 1 })

def endOp (s : Store) : Except Stop (Unit × Store) :=
  if s.ops < 1 then .error .misuse else .ok ((), { s with ops := s.ops - 1 })

def handle (sb : Superblock) : Handler Store Query Query.Answer Stop
  | s, .iget inum => s.iget inum
  | s, .idup ip => s.idup ip
  | s, .ialloc type => s.ialloc sb type
  | s, .ilock ip => s.ilock ip
  | s, .iunlock ip => s.iunlock ip
  | s, .iput ip => s.iput ip
  | s, .fields ip => s.locked ip (.ok ((s.inode ip).fields, s))
  | s, .assign ip major minor nlink => s.assign ip major minor nlink
  | s, .iupdate ip => s.iupdate ip
  | s, .readi ip off n => s.readi ip off n
  | s, .writei ip off src => s.writei sb ip off src
  | s, .beginOp => s.beginOp
  | s, .endOp => s.endOp

end Store

structure State where
  store : Store
  tables : Tables

def call (sb : Superblock) (s : State) (p : Slot) (c : Call) : Option (Except Stop (Int × State)) :=
  (s.tables.proc p).map fun proc => do
    let ((r, tables), store) ← (serve s.tables p proc c).run (Store.handle sb) s.store
    pure (r, ⟨store, tables⟩)

def step (sb : Superblock) (s : State) (a : Slot × Call) : Option State :=
  match call sb s a.1 a.2 with
  | some (.ok (_, t)) => some t
  | _ => none

/-- `FSSIZE` without the boot block, the superblock, the log, the inodes and the
bitmap. -/
def imageSuperblock : Superblock := ⟨200, 1000 - (2 + 30 + 26 + 1)⟩

/-- A name without its leading underscore, as `mkfs` stores it. -/
def imageName (name : List Byte) : List Byte :=
  strncpy (if name.headD 0 = 95 then name.tail else name) DIRSIZ

def rootDirents (files : List (List Byte × List Byte)) : List Dirent :=
  ⟨1, strncpy dot DIRSIZ⟩ :: ⟨1, strncpy dotdot DIRSIZ⟩ ::
    files.zipIdx.map fun (file, k) => ⟨BitVec.ofNat 16 (k + 2), imageName file.1⟩

/-- `mkfs` rounds the size of the root directory up, to a block more if it is a
whole number of blocks. -/
def rootData (files : List (List Byte × List Byte)) : List Byte :=
  let bytes := (rootDirents files).flatMap Dirent.bytes
  bytes ++ List.replicate ((bytes.length / BSIZE + 1) * BSIZE - bytes.length) 0

def mkfs (files : List (List Byte × List Byte)) (i : Inum) : Inode :=
  if i = ROOTINO then { type := .dir, nlink := 1, data := rootData files }
  else if i = 0 then {}
  else
    match files[i - 2]? with
    | some file => { type := .file, nlink := 1, data := file.2 }
    | none => {}

def userinit (files : List (List Byte × List Byte)) (input : List (Option (List Byte)) := []) : State where
  store :=
    { inode := mkfs files
      entry := Function.update (fun _ => {}) ROOTINO { ref := 1 }
      used := 1
      input }
  tables :=
    { file := fun _ => {}
      proc := Function.update (fun _ => none) initproc (some ⟨ROOTINO, fun _ => none⟩) }

end Xv6.Fs
