import Xv6.Fs.Directories
import Xv6.Log.Machine

namespace Xv6.Fs

open Xv6.Data Xv6.Disk

/-! # The file system calls

`file.c`, `sysfile.c` and what `exec`, `fork` and `exit` do with files.  The arguments
are what `argstr` and `argint` have fetched, or nothing if they fail.
-/

abbrev NPROC : Nat := 64
abbrev NOFILE : Nat := 16
abbrev NFILE : Nat := 100

abbrev Slot := Fin NPROC
abbrev FileId := Fin NFILE
abbrev Fd := Fin NOFILE

/-- `FD_NONE` and `FD_INODE`. -/
inductive FdType where
  | none | inode
deriving DecidableEq, Repr

structure File where
  ref : Nat := 0
  type : FdType := .none
  readable : Bool := false
  writable : Bool := false
  ip : Inum := 0
  off : Nat := 0
deriving DecidableEq, Repr

structure Proc where
  cwd : Inum
  ofile : Fd → Option FileId

structure Tables where
  file : FileId → File
  proc : Slot → Option Proc

def Tables.setFile (tables : Tables) (f : FileId) (file : File) : Tables :=
  { tables with file := Function.update tables.file f file }

def Tables.setProc (tables : Tables) (p : Slot) (proc : Option Proc) : Tables :=
  { tables with proc := Function.update tables.proc p proc }

def Proc.setFd (proc : Proc) (fd : Fd) (f : Option FileId) : Proc :=
  { proc with ofile := Function.update proc.ofile fd f }

/-! ## Files -/

def filealloc (tables : Tables) : Option FileId :=
  (List.finRange NFILE).find? fun f => (tables.file f).ref = 0

def fdalloc (proc : Proc) : Option Fd :=
  (List.finRange NOFILE).find? fun fd => proc.ofile fd = none

def filedup (tables : Tables) (f : FileId) : Code Tables :=
  if (tables.file f).ref < 1 then panic .filedup
  else pure (tables.setFile f { tables.file f with ref := (tables.file f).ref + 1 })

def fileclose (tables : Tables) (f : FileId) : Code Tables := do
  let file := tables.file f
  if file.ref < 1 then panic .fileclose
  else if 1 < file.ref then pure (tables.setFile f { file with ref := file.ref - 1 })
  else do
    let closed := tables.setFile f { file with ref := 0, type := .none }
    match file.type with
    | .none => pure closed
    | .inode =>
      beginOp
      iput file.ip
      endOp
      pure closed

/-- A file that has only been allocated is as before when it is closed. -/
theorem fileclose_unused {tables : Tables} {f : FileId} (unused : (tables.file f).ref = 0)
    (closed : (tables.file f).type = .none) :
    fileclose (tables.setFile f { tables.file f with ref := 1 }) f = pure tables := by
  have same : { tables.file f with ref := 0, type := .none } = tables.file f := by rw [← unused, ← closed]
  simp [fileclose, Tables.setFile, closed, same]

def fileread (tables : Tables) (f : FileId) (n : Nat) : Code (Int × Tables) := do
  let file := tables.file f
  if file.readable = false then pure (-1, tables)
  else
    match file.type with
    | .none => panic .fileread
    | .inode => do
      ilock file.ip
      let r ← readi file.ip file.off n
      iunlock file.ip
      match r with
      | none => pure (-1, tables)
      | some bytes =>
        pure (bytes.length, tables.setFile f { file with off := (file.off + bytes.length) % 2 ^ 32 })

def writeMax : Nat := ((Log.MAXOPBLOCKS - 1 - 1 - 2) / 2) * 512

def filewriteChunk (ip : Inum) (off : Nat) (src : List Byte) : Code (Option Nat) := do
  beginOp
  ilock ip
  let r ← writei ip off src
  iunlock ip
  endOp
  pure r

/-- The loop of `filewrite`, with the bytes that are left and the new `f->off`. -/
def filewriteLoop (ip : Inum) : Nat → List Byte → Nat → Code (Bool × Nat)
  | 0, src, off => if src = [] then pure (true, off) else .stop .fuel
  | fuel + 1, src, off =>
    if src = [] then pure (true, off)
    else do
      match ← filewriteChunk ip off (src.take writeMax) with
      | none => pure (false, off)
      | some n =>
        if n ≠ (src.take writeMax).length then panic .shortFilewrite
        else filewriteLoop ip fuel (src.drop writeMax) ((off + n) % 2 ^ 32)

def filewrite (tables : Tables) (f : FileId) (src : List Byte) : Code (Int × Tables) := do
  let file := tables.file f
  if file.writable = false then pure (-1, tables)
  else
    match file.type with
    | .none => panic .filewrite
    | .inode => do
      let (all, off) ← filewriteLoop file.ip src.length src file.off
      let written := tables.setFile f { file with off }
      pure (if all then src.length else -1, written)

/-! ## Calls on names -/

def createInode (type : FileType) (major minor : BitVec 16) : Code Inum := do
  let ip ← ialloc type
  ilock ip
  assign ip major minor 1
  iupdate ip
  pure ip

def expect (ok : Bool) (message : Panic) : Code Unit := if ok then pure () else panic message

def createDots (dp ip : Inum) : Code Unit := do
  changeNlink dp 1
  expect (← dirlink ip dot ip) .createDots
  expect (← dirlink ip dotdot dp) .createDots

def createEntry (dp : Inum) (name : List Byte) (type : FileType) (major minor : BitVec 16) : Code Inum := do
  let ip ← createInode type major minor
  (if type = .dir then createDots dp ip else pure ())
  expect (← dirlink dp name ip) .createDirlink
  iunlockput dp
  pure ip

def create (cwd : Inum) (path : List Byte) (type : FileType) (major minor : BitVec 16) :
    Code (Option Inum) := do
  match ← nameiparent cwd path with
  | none => pure none
  | some (dp, name) =>
    ilock dp
    match ← dirlookup dp name with
    | some (ip, _) =>
      iunlockput dp
      ilock ip
      let f ← fields ip
      if type = .file ∧ f.type = .file then pure (some ip)
      else do
        iunlockput ip
        pure none
    | none =>
      let ip ← createEntry dp name type major minor
      pure (some ip)

def O_WRONLY : BitVec 32 := 0x001
def O_RDWR : BitVec 32 := 0x002
def O_CREATE : BitVec 32 := 0x200

def openInode (cwd : Inum) (path : List Byte) (omode : BitVec 32) : Code (Option Inum) := do
  if omode &&& O_CREATE ≠ 0 then create cwd path .file 0 0
  else
    match ← namei cwd path with
    | none => pure none
    | some ip =>
      ilock ip
      let f ← fields ip
      if f.type = .dir ∧ omode ≠ 0 then do
        iunlockput ip
        pure none
      else pure (some ip)

def openFile (tables : Tables) (p : Slot) (proc : Proc) (ip : Inum) (omode : BitVec 32) :
    Code (Int × Tables) := do
  match filealloc tables with
  | none =>
    iunlockput ip
    endOp
    pure (-1, tables)
  | some f =>
    let taken := tables.setFile f { tables.file f with ref := 1 }
    match fdalloc proc with
    | none =>
      let closed ← fileclose taken f
      iunlockput ip
      endOp
      pure (-1, closed)
    | some fd =>
      iunlock ip
      endOp
      let opened : File :=
        { ref := 1, type := .inode, ip, off := 0
          readable := omode &&& O_WRONLY = 0
          writable := omode &&& O_WRONLY ≠ 0 ∨ omode &&& O_RDWR ≠ 0 }
      pure (fd.val, (taken.setFile f opened).setProc p (proc.setFd fd f))

def sysOpen (tables : Tables) (p : Slot) (proc : Proc) (args : Option (List Byte × BitVec 32)) :
    Code (Int × Tables) :=
  match args with
  | none => pure (-1, tables)
  | some (path, omode) => do
    beginOp
    match ← openInode proc.cwd path omode with
    | none =>
      endOp
      pure (-1, tables)
    | some ip => openFile tables p proc ip omode

def finishCreate (tables : Tables) : Option Inum → Code (Int × Tables)
  | none => do
    endOp
    pure (-1, tables)
  | some ip => do
    iunlockput ip
    endOp
    pure (0, tables)

def sysMkdir (tables : Tables) (proc : Proc) (path : Option (List Byte)) : Code (Int × Tables) := do
  beginOp
  match path with
  | none => finishCreate tables none
  | some path => do
    let ip ← create proc.cwd path .dir 0 0
    finishCreate tables ip

def sysMknod (tables : Tables) (proc : Proc) (args : Option (List Byte × BitVec 32 × BitVec 32)) :
    Code (Int × Tables) := do
  beginOp
  match args with
  | none => finishCreate tables none
  | some (path, major, minor) => do
    let ip ← create proc.cwd path .dev (major.setWidth 16) (minor.setWidth 16)
    finishCreate tables ip

def linkBad (tables : Tables) (ip : Inum) : Code (Int × Tables) := do
  ilock ip
  changeNlink ip (-1)
  iunlockput ip
  endOp
  pure (-1, tables)

def linkTo (tables : Tables) (proc : Proc) (ip : Inum) (new : List Byte) : Code (Int × Tables) := do
  match ← nameiparent proc.cwd new with
  | none => linkBad tables ip
  | some (dp, name) =>
    ilock dp
    if ← dirlink dp name ip then do
      iunlockput dp
      iput ip
      endOp
      pure (0, tables)
    else do
      iunlockput dp
      linkBad tables ip

def sysLink (tables : Tables) (proc : Proc) (args : Option (List Byte × List Byte)) : Code (Int × Tables) :=
  match args with
  | none => pure (-1, tables)
  | some (old, new) => do
    beginOp
    match ← namei proc.cwd old with
    | none =>
      endOp
      pure (-1, tables)
    | some ip =>
      ilock ip
      let f ← fields ip
      if f.type = .dir then do
        iunlockput ip
        endOp
        pure (-1, tables)
      else do
        changeNlink ip 1
        iunlock ip
        linkTo tables proc ip new

/-- The entry of a file is removed, and with that of a directory its `..`. -/
def unlinkDirent (dp off : Nat) (type : FileType) : Code Unit := do
  expect ((← writei dp off (List.replicate DIRENTSIZE 0)) = some DIRENTSIZE) .unlinkWritei
  if type = .dir then changeNlink dp (-1) else pure ()

def unlinkBad (tables : Tables) (dp : Inum) : Code (Int × Tables) := do
  iunlockput dp
  endOp
  pure (-1, tables)

def unlinkInode (tables : Tables) (dp ip : Inum) (off : Nat) : Code (Int × Tables) := do
  ilock ip
  let f ← fields ip
  if f.nlink.toInt < 1 then panic .unlinkNlink
  else do
    -- `isdirempty` is called for directories only
    let empty ← (if f.type = .dir then isdirempty ip else pure true)
    if empty then do
      unlinkDirent dp off f.type
      iunlockput dp
      changeNlink ip (-1)
      iunlockput ip
      endOp
      pure (0, tables)
    else do
      iunlockput ip
      unlinkBad tables dp

def sysUnlink (tables : Tables) (proc : Proc) (path : Option (List Byte)) : Code (Int × Tables) :=
  match path with
  | none => pure (-1, tables)
  | some path => do
    beginOp
    match ← nameiparent proc.cwd path with
    | none =>
      endOp
      pure (-1, tables)
    | some (dp, name) =>
      ilock dp
      if namecmp name dot = 0 ∨ namecmp name dotdot = 0 then unlinkBad tables dp
      else
        match ← dirlookup dp name with
        | none => unlinkBad tables dp
        | some (ip, off) => unlinkInode tables dp ip off

def sysChdir (tables : Tables) (p : Slot) (proc : Proc) (path : Option (List Byte)) : Code (Int × Tables) := do
  beginOp
  match path with
  | none =>
    endOp
    pure (-1, tables)
  | some path =>
    match ← namei proc.cwd path with
    | none =>
      endOp
      pure (-1, tables)
    | some ip =>
      ilock ip
      let f ← fields ip
      if f.type ≠ .dir then do
        iunlockput ip
        endOp
        pure (-1, tables)
      else do
        iunlock ip
        iput proc.cwd
        endOp
        pure (0, tables.setProc p (some { proc with cwd := ip }))

/-! ## Calls on descriptors -/

def sysDup (tables : Tables) (p : Slot) (proc : Proc) (fd : Fd) : Code (Int × Tables) := do
  match proc.ofile fd with
  | none => pure (-1, tables)
  | some f =>
    match fdalloc proc with
    | none => pure (-1, tables)
    | some new =>
      let after ← filedup tables f
      pure (new.val, after.setProc p (proc.setFd new f))

def sysRead (tables : Tables) (proc : Proc) (fd : Fd) (n : Nat) : Code (Int × Tables) :=
  match proc.ofile fd with
  | none => pure (-1, tables)
  | some f => fileread tables f n

def sysWrite (tables : Tables) (proc : Proc) (fd : Fd) (src : List Byte) : Code (Int × Tables) :=
  match proc.ofile fd with
  | none => pure (-1, tables)
  | some f => filewrite tables f src

def sysClose (tables : Tables) (p : Slot) (proc : Proc) (fd : Fd) : Code (Int × Tables) := do
  match proc.ofile fd with
  | none => pure (-1, tables)
  | some f =>
    let after ← fileclose (tables.setProc p (proc.setFd fd none)) f
    pure (0, after)

/-! ## `exec`

What `exec` reads of the file; `granted` tells which requests for memory succeed. -/

def word (bytes : List Byte) (off : Nat) : Nat :=
  (bytes.getD (off + 3) 0 ++ bytes.getD (off + 2) 0 ++ bytes.getD (off + 1) 0 ++ bytes.getD off 0).toNat

def readAll (ip : Inum) (off n : Nat) : Code (Option (List Byte)) := do
  match ← readi ip off n with
  | none => pure none
  | some bytes => pure (if bytes.length = n then some bytes else none)

def loaduvm (ip : Inum) (offset sz : Nat) : Nat → Nat → Code Bool
  | 0, i => if i < sz then .stop .fuel else pure true
  | fuel + 1, i =>
    if i < sz then do
      match ← readAll ip ((offset + i) % 2 ^ 32) (min (sz - i) 4096) with
      | none => pure false
      | some _ => loaduvm ip offset sz fuel (i + 4096)
    else pure true

def execLoad (ip : Inum) : Nat → Nat → List Bool → Code Bool
  | 0, _, _ => pure true
  | left + 1, off, granted => do
    match ← readAll ip off 32 with
    | none => pure false
    | some ph =>
      let filesz := word ph 16
      let memsz := word ph 20
      let vaddr := word ph 8
      if word ph 0 ≠ 1 then execLoad ip left ((off + 32) % 2 ^ 32) granted
      else if memsz < filesz ∨ (vaddr + memsz) % 2 ^ 32 < vaddr ∨ granted.headD false = false ∨ vaddr % 4096 ≠ 0 then
        pure false
      else do
        if ← loaduvm ip (word ph 4) filesz (filesz / 4096 + 1) 0 then
          execLoad ip left ((off + 32) % 2 ^ 32) granted.tail
        else pure false

def execFile (ip : Inum) (granted : List Bool) : Code Bool := do
  match ← readAll ip 0 52 with
  | none => pure false
  | some elf =>
    if word elf 0 ≠ 0x464C457F ∨ granted.headD false = false then pure false
    else execLoad ip (word elf 44 % 2 ^ 16) (word elf 28) granted.tail

def exec (tables : Tables) (proc : Proc) (args : Option (List Byte × List Bool)) : Code (Int × Tables) :=
  match args with
  | none => pure (-1, tables)
  | some (path, granted) => do
    beginOp
    match ← namei proc.cwd path with
    | none =>
      endOp
      pure (-1, tables)
    | some ip =>
      ilock ip
      let loaded ← execFile ip granted
      iunlockput ip
      endOp
      pure (if loaded then 0 else -1, tables)

/-! ## Processes -/

def dupFiles (tables : Tables) (proc : Proc) : List Fd → Code Tables
  | [] => pure tables
  | fd :: rest =>
    match proc.ofile fd with
    | none => dupFiles tables proc rest
    | some f => do
      let after ← filedup tables f
      dupFiles after proc rest

/-- Without a slot or memory for the child, `fork` fails before it touches files. -/
def fork (tables : Tables) (child : Option Slot) (proc : Proc) : Code (Int × Tables) :=
  match child with
  | none => pure (-1, tables)
  | some child =>
    if (tables.proc child).isSome then pure (-1, tables)
    else do
      let after ← dupFiles tables proc (List.finRange NOFILE)
      idup proc.cwd
      pure (1, after.setProc child proc)

def closeFiles (tables : Tables) (proc : Proc) : List Fd → Code Tables
  | [] => pure tables
  | fd :: rest =>
    match proc.ofile fd with
    | none => closeFiles tables proc rest
    | some f => do
      let after ← fileclose tables f
      closeFiles after proc rest

/-- The first process must not exit. -/
def initproc : Slot := 0

def exit (tables : Tables) (p : Slot) (proc : Proc) : Code (Int × Tables) := do
  if p = initproc then panic .initExiting
  else do
    let after ← closeFiles tables proc (List.finRange NOFILE)
    beginOp
    iput proc.cwd
    endOp
    pure (0, after.setProc p none)

/-! ## One call -/

inductive Call where
  | open (args : Option (List Byte × BitVec 32))
  | mkdir (path : Option (List Byte))
  | mknod (args : Option (List Byte × BitVec 32 × BitVec 32))
  | link (args : Option (List Byte × List Byte))
  | unlink (path : Option (List Byte))
  | chdir (path : Option (List Byte))
  | exec (args : Option (List Byte × List Bool))
  | dup (fd : Fd)
  | read (fd : Fd) (n : Nat)
  | write (fd : Fd) (src : List Byte)
  | close (fd : Fd)
  | fork (child : Option Slot)
  | exit

def serve (tables : Tables) (p : Slot) (proc : Proc) : Call → Code (Int × Tables)
  | .open args => sysOpen tables p proc args
  | .mkdir path => sysMkdir tables proc path
  | .mknod args => sysMknod tables proc args
  | .link args => sysLink tables proc args
  | .unlink path => sysUnlink tables proc path
  | .chdir path => sysChdir tables p proc path
  | .exec args => exec tables proc args
  | .dup fd => sysDup tables p proc fd
  | .read fd n => sysRead tables proc fd n
  | .write fd src => sysWrite tables proc fd src
  | .close fd => sysClose tables p proc fd
  | .fork child => fork tables child proc
  | .exit => exit tables p proc

end Xv6.Fs
