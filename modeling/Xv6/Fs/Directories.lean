import Xv6.Data.Script
import Xv6.Disk.Block

namespace Xv6.Fs

open Xv6.Data Xv6.Disk

/-! # Directories and paths

The part of `fs.c` above the inodes, over the operations of the inode layer that `Query`
lists.  An inode number stands for the pointer that `iget` returns, since the inode
cache never has two entries for one inode.
-/

abbrev Inum := Nat

abbrev ROOTINO : Inum := 1
abbrev DIRSIZ : Nat := 14
abbrev NDIRECT : Nat := 12
abbrev MAXFILE : Nat := NDIRECT + NINDIRECT

abbrev DIRENTSIZE : Nat := 2 + DIRSIZ

/-- `0`, `T_DIR`, `T_FILE` and `T_DEV`. -/
inductive FileType where
  | free | dir | file | dev
deriving DecidableEq, Repr

structure Fields where
  type : FileType
  major : BitVec 16
  minor : BitVec 16
  nlink : BitVec 16
  size : Nat
deriving DecidableEq, Repr

inductive Panic where
  | ialloc | iget | ilock | ilockNoType | iunlock | balloc | freeingFreeBlock | bmap
  | dirlookupNotDir | dirlookupRead | dirlinkRead | dirlink | isdirempty
  | unlinkNlink | unlinkWritei | createDots | createDirlink
  | filedup | fileclose | fileread | shortFilewrite | filewrite | initExiting
deriving DecidableEq, Repr

/-- Why a call does not return.  `deadlock` is a process that waits for a sleep lock
it holds itself; `misuse` is a use of an inode that breaks the rules of its layer,
which has no meaning at the level of file contents; `fuel` is a loop that has been given
too few rounds. -/
inductive Stop where
  | panic (message : Panic)
  | deadlock
  | misuse
  | fuel
deriving DecidableEq, Repr

inductive Query where
  | iget (inum : Inum)
  | idup (ip : Inum)
  | ialloc (type : FileType)
  | ilock (ip : Inum)
  | iunlock (ip : Inum)
  | iput (ip : Inum)
  | fields (ip : Inum)
  | assign (ip : Inum) (major minor nlink : BitVec 16)
  | iupdate (ip : Inum)
  | readi (ip : Inum) (off n : Nat)
  | writei (ip : Inum) (off : Nat) (src : List Byte)
  | beginOp
  | endOp

/-- `readi` and `writei` return `none` for `-1`. -/
def Query.Answer : Query → Type
  | .iget _ | .idup _ | .ilock _ | .iunlock _ | .iput _ | .assign _ _ _ _ | .iupdate _ | .beginOp | .endOp => Unit
  | .ialloc _ => Inum
  | .fields _ => Fields
  | .readi _ _ _ => Option (List Byte)
  | .writei _ _ _ => Option Nat

abbrev Code := Script Query Query.Answer Stop

def panic {α : Type} (message : Panic) : Code α := .stop (.panic message)

def iget (inum : Inum) : Code Unit := .query (Query.iget inum)
def idup (ip : Inum) : Code Unit := .query (Query.idup ip)
def ialloc (type : FileType) : Code Inum := .query (Query.ialloc type)
def ilock (ip : Inum) : Code Unit := .query (Query.ilock ip)
def iunlock (ip : Inum) : Code Unit := .query (Query.iunlock ip)
def iput (ip : Inum) : Code Unit := .query (Query.iput ip)
def fields (ip : Inum) : Code Fields := .query (Query.fields ip)
def assign (ip : Inum) (major minor nlink : BitVec 16) : Code Unit := .query (Query.assign ip major minor nlink)
def iupdate (ip : Inum) : Code Unit := .query (Query.iupdate ip)
def readi (ip : Inum) (off n : Nat) : Code (Option (List Byte)) := .query (Query.readi ip off n)
def writei (ip : Inum) (off : Nat) (src : List Byte) : Code (Option Nat) := .query (Query.writei ip off src)
def beginOp : Code Unit := .query Query.beginOp
def endOp : Code Unit := .query Query.endOp

def iunlockput (ip : Inum) : Code Unit := do
  iunlock ip
  iput ip

/-- `ip->nlink += change; iupdate(ip)`. -/
def changeNlink (ip : Inum) (change : BitVec 16) : Code Unit := do
  let f ← fields ip
  assign ip f.major f.minor (f.nlink + change)
  iupdate ip

/-- `strncmp` of `string.c`; a string ends with its list. -/
def strncmp : List Byte → List Byte → Nat → Int
  | _, _, 0 => 0
  | p, q, n + 1 =>
    if p.headD 0 ≠ 0 ∧ p.headD 0 = q.headD 0 then strncmp p.tail q.tail n
    else (p.headD 0).toNat - (q.headD 0).toNat

/-- The bytes that `strncpy` of `string.c` stores. -/
def strncpy : List Byte → Nat → List Byte
  | _, 0 => []
  | t, n + 1 => if t.headD 0 ≠ 0 then t.headD 0 :: strncpy t.tail n else List.replicate (n + 1) 0

def namecmp (s t : List Byte) : Int := strncmp s t DIRSIZ

structure Dirent where
  inum : BitVec 16
  name : List Byte
deriving DecidableEq, Repr

def Dirent.bytes (de : Dirent) : List Byte := de.inum.setWidth 8 :: (de.inum >>> 8).setWidth 8 :: de.name

def Dirent.ofBytes (bytes : List Byte) : Dirent :=
  ⟨bytes.getD 1 0 ++ bytes.getD 0 0, bytes.drop 2⟩

def offsets (start size : Nat) : List Nat :=
  (List.range ((size - start + (DIRENTSIZE - 1)) / DIRENTSIZE)).map fun k => start + DIRENTSIZE * k

def readDirent (dp off : Nat) (message : Panic) : Code Dirent := do
  match ← readi dp off DIRENTSIZE with
  | some bytes => if bytes.length = DIRENTSIZE then pure (.ofBytes bytes) else panic message
  | none => panic message

def dirlookupLoop (dp : Inum) (name : List Byte) : List Nat → Code (Option (Inum × Nat))
  | [] => pure none
  | off :: rest => do
    let de ← readDirent dp off .dirlookupRead
    if de.inum = 0 then dirlookupLoop dp name rest
    else if namecmp name de.name = 0 then do
      iget de.inum.toNat
      pure (some (de.inum.toNat, off))
    else dirlookupLoop dp name rest

/-- The inode of an entry and its offset, which the source stores in `*poff`. -/
def dirlookup (dp : Inum) (name : List Byte) : Code (Option (Inum × Nat)) := do
  let f ← fields dp
  if f.type ≠ .dir then panic .dirlookupNotDir
  else dirlookupLoop dp name (offsets 0 f.size)

/-- The loop of `dirlink` for an empty entry; `last` is `off` after the loop. -/
def emptyDirent (dp : Inum) (last : Nat) : List Nat → Code Nat
  | [] => pure last
  | off :: rest => do
    let de ← readDirent dp off .dirlinkRead
    if de.inum = 0 then pure off else emptyDirent dp last rest

/-- Whether the entry could be added; the source returns `0` or `-1`. -/
def dirlink (dp : Inum) (name : List Byte) (inum : Inum) : Code Bool := do
  match ← dirlookup dp name with
  | some (ip, _) =>
    iput ip
    pure false
  | none =>
    let f ← fields dp
    let list := offsets 0 f.size
    let off ← emptyDirent dp (DIRENTSIZE * list.length) list
    let de : Dirent := ⟨BitVec.ofNat 16 inum, strncpy name DIRSIZ⟩
    if (← writei dp off de.bytes) = some DIRENTSIZE then pure true else panic .dirlink

def isdiremptyLoop (dp : Inum) : List Nat → Code Bool
  | [] => pure true
  | off :: rest => do
    let de ← readDirent dp off .isdirempty
    if de.inum ≠ 0 then pure false else isdiremptyLoop dp rest

def isdirempty (dp : Inum) : Code Bool := do
  let f ← fields dp
  isdiremptyLoop dp (offsets (2 * DIRENTSIZE) f.size)

def slash : Byte := 47
def dot : List Byte := [46]
def dotdot : List Byte := [46, 46]

/-- The next element of a path and what follows it. -/
def skipelem (path : List Byte) : Option (List Byte × List Byte) :=
  match path.dropWhile (· = slash) with
  | [] => none
  | s => some ((s.takeWhile (· ≠ slash)).take DIRSIZ, (s.dropWhile (· ≠ slash)).dropWhile (· = slash))

def elementsFrom : Nat → List Byte → List (List Byte)
  | 0, _ => []
  | fuel + 1, path =>
    match skipelem path with
    | none => []
    | some (name, rest) => name :: elementsFrom fuel rest

/-- The names that the calls of `skipelem` by `namex` yield for a string. -/
def elements (path : List Byte) : List (List Byte) :=
  elementsFrom path.length (path.takeWhile (· ≠ 0))

def namexLoop (nameiparent : Bool) : Inum → List (List Byte) → Code (Option (Inum × List Byte))
  | ip, [] =>
    if nameiparent then do
      iput ip
      pure none
    else pure (some (ip, []))
  | ip, name :: rest => do
    ilock ip
    let f ← fields ip
    if f.type ≠ .dir then do
      iunlockput ip
      pure none
    else if nameiparent ∧ rest = [] then do
      iunlock ip
      pure (some (ip, name))
    else
      match ← dirlookup ip name with
      | none =>
        iunlockput ip
        pure none
      | some (next, _) =>
        iunlockput ip
        namexLoop nameiparent next rest

/-- The inode of a path, or its parent and the last name. -/
def namex (cwd : Inum) (path : List Byte) (nameiparent : Bool) : Code (Option (Inum × List Byte)) := do
  if path.headD 0 = slash then do
    iget ROOTINO
    namexLoop nameiparent ROOTINO (elements path)
  else do
    idup cwd
    namexLoop nameiparent cwd (elements path)

def namei (cwd : Inum) (path : List Byte) : Code (Option Inum) := do
  match ← namex cwd path false with
  | some (ip, _) => pure (some ip)
  | none => pure none

def nameiparent (cwd : Inum) (path : List Byte) : Code (Option (Inum × List Byte)) :=
  namex cwd path true

end Xv6.Fs
