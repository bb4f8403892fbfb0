import Xv6.Data.Words
import Xv6.Memory.Exec

namespace Xv6.Image

open Xv6.Data Xv6.Memory

/-! # User memory and what is in it

The functions of `vm.c`, `proc.c` and `exec.c` that read and write user pages.  A page
is written through the kernel's own mapping of physical memory, so a store names the
page and the offset in it.  Code that only allocates and frees is taken over from
`Memory` by `lift`.
-/

/-- Physical memory.  `nullReads` counts how often `uva2ka` has read a page-table
entry through the null pointer. -/
structure Ram where
  mem : Mem
  byte : Page → Nat → Byte
  nullReads : Nat := 0

abbrev Code := Program Ram Panic

/-- `kfree` fills a page with ones.  The link in its first word is `freelist`. -/
def Ram.allocate (r : Ram) (mem : Mem) : Ram :=
  { r with mem, byte := fun page => if page ∈ mem.freelist then fun _ => 1 else r.byte page }

def lift {α : Type} (program : Vm α) : Code α := fun r =>
  match program.run r.mem with
  | .ok (value, mem) => .ok (value, r.allocate mem)
  | .error reason => .error reason

def Ram.write (r : Ram) (page : Page) (off : Nat) (bytes : List Byte) : Ram :=
  { r with byte := Function.update r.byte page fun o =>
      if off ≤ o then bytes[o - off]?.getD (r.byte page o) else r.byte page o }

def memmove (page : Page) (off : Nat) (bytes : List Byte) : Code Unit := modify fun r => r.write page off bytes

def memset (page : Page) (c : Byte) : Code Unit := memmove page 0 (List.replicate PGSIZE c)

def Ram.read (r : Ram) (pgdir : PageDir) (va : Nat) : Option Byte :=
  (pgdir.pte va).map fun pte => r.byte pte.pa (va % PGSIZE)

def littleEndian (bytes : List Byte) : Nat := bytes.foldr (fun byte rest => byte.toNat + 256 * rest) 0

def allocuvmLoop (oldsz newsz : Nat) : Nat → PageDir → Nat → Code (PageDir × Nat)
  | 0, pgdir, a => if a < newsz then throw .outOfFuel else pure (pgdir, newsz)
  | fuel + 1, pgdir, a =>
    if a < newsz then do
      match ← lift kalloc with
      | none =>
        let (pgdir, _) ← lift (deallocuvm pgdir newsz oldsz)
        pure (pgdir, 0)
      | some mem =>
        memset mem 0
        let (pgdir, mapped) ← lift (mappages pgdir a PGSIZE mem (PTE_W + PTE_U))
        if mapped = false then
          let (pgdir, _) ← lift (deallocuvm pgdir newsz oldsz)
          lift (kfree mem)
          pure (pgdir, 0)
        else allocuvmLoop oldsz newsz fuel pgdir (a + PGSIZE)
    else pure (pgdir, newsz)

def allocuvm (pgdir : PageDir) (oldsz newsz : Nat) : Code (PageDir × Nat) :=
  if newsz ≥ KERNBASE then pure (pgdir, 0)
  else if newsz < oldsz then pure (pgdir, oldsz)
  else allocuvmLoop oldsz newsz pagesOfSpace pgdir (PGROUNDUP oldsz)

/-- What `readi` copies from a file with these contents; nothing is its -1. -/
def readi (file : List Byte) (off n : Nat) : Option (List Byte) :=
  if file.length < off ∨ 2 ^ 32 ≤ off + n then none else some ((file.drop off).take n)

def loaduvmLoop (pgdir : PageDir) (addr : Nat) (file : List Byte) (offset sz : Nat) : Nat → Nat → Code Bool
  | 0, i => if i < sz then throw .outOfFuel else pure true
  | fuel + 1, i =>
    if i < sz then
      match pgdir.table (PDX ((addr + i) % 2 ^ 32)) with
      | none => throw .loaduvmAddress
      | some table =>
        -- Whether the entry is present is not looked at.
        let pa := (table.pte (PTX ((addr + i) % 2 ^ 32))).elim 0 Pte.pa
        let n := min (sz - i) PGSIZE
        match readi file ((offset + i) % 2 ^ 32) n with
        | none => pure false
        | some bytes => do
          memmove pa 0 bytes
          if bytes.length ≠ n then pure false
          else loaduvmLoop pgdir addr file offset sz fuel (i + PGSIZE)
    else pure true

def loaduvm (pgdir : PageDir) (addr : Nat) (file : List Byte) (offset sz : Nat) : Code Bool :=
  if addr % PGSIZE ≠ 0 then throw .loaduvmAligned
  else loaduvmLoop pgdir addr file offset sz pagesOfSpace 0

/-- The page behind a user address of `pgdir`.  The result of `walkpgdir` is not
tested: without a page table the entry is read at address 0 of the address space
in use, `current`.  What such an entry leads to outside the mapped physical
memory is not modelled. -/
def uva2ka (current pgdir : PageDir) (uva : Nat) : Code (Option Page) :=
  match pgdir.table (PDX uva) with
  | some table =>
    match table.pte (PTX uva) with
    | some pte => pure (if pte.flags &&& PTE_U = 0 then none else some pte.pa)
    | none => pure none
  | none => do
    modify fun r => { r with nullReads := r.nullReads + 1 }
    match current.pte 0 with
    | none => throw .nullPte
    | some first =>
      let r ← get
      let pte := littleEndian ((List.range 4).map (r.byte first.pa))
      if pte &&& PTE_P = 0 then pure none
      else if pte &&& PTE_U = 0 then pure none
      else if pte ≥ PHYSTOP then throw .nullPte
      else pure (some (PGROUNDDOWN pte))

def copyoutLoop (current pgdir : PageDir) : Nat → Nat → List Byte → Code Bool
  | 0, _, buf => if 0 < buf.length then throw .outOfFuel else pure true
  | fuel + 1, va, buf =>
    if 0 < buf.length then do
      let va0 := PGROUNDDOWN va
      match ← uva2ka current pgdir va0 with
      | none => pure false
      | some pa0 =>
        let n := min (PGSIZE - (va - va0)) buf.length
        memmove pa0 (va - va0) (buf.take n)
        copyoutLoop current pgdir fuel ((va0 + PGSIZE) % 2 ^ 32) (buf.drop n)
    else pure true

/-- A round copies at least one byte, and all but the first copy a page. -/
def copyout (current pgdir : PageDir) (va : Nat) (p : List Byte) : Code Bool :=
  copyoutLoop current pgdir (p.length / PGSIZE + 2) va p

/-- What `exec` and `growproc` change of a process. -/
structure Process where
  pgdir : PageDir
  sz : Nat
  name : List Byte
  eip : Nat
  esp : Nat

/-- The caller, physical memory, the calls of `begin_op` and `end_op`, and the
inode of the executable. -/
structure Kernel where
  ram : Ram
  curproc : Process
  begun : Nat := 0
  ended : Nat := 0
  ref : Int := 0
  locked : Bool := false

abbrev Call := Program Kernel Panic

def onRam {α : Type} (code : Code α) : Call α := fun k =>
  match code.run k.ram with
  | .ok (value, ram) => .ok (value, { k with ram })
  | .error reason => .error reason

def setProc (update : Process → Process) : Call Unit := modify fun k => { k with curproc := update k.curproc }

def beginOp : Call Unit := modify fun k => { k with begun := k.begun + 1 }

def endOp : Call Unit := modify fun k => { k with ended := k.ended + 1 }

def iget : Call Unit := modify fun k => { k with ref := k.ref + 1 }

def ilock : Call Unit := modify fun k => { k with locked := true }

def iunlockput : Call Unit := modify fun k => { k with locked := false, ref := k.ref - 1 }

/-- The page directory is changed in place, also by a call that fails. -/
def growproc (n : Int) : Call Int := do
  let curproc := (← get).curproc
  let newsz := ((curproc.sz + n) % 2 ^ 32).toNat
  if n > 0 then
    let (pgdir, sz) ← onRam (allocuvm curproc.pgdir curproc.sz newsz)
    setProc fun proc => { proc with pgdir }
    if sz = 0 then pure (-1)
    else
      setProc fun proc => { proc with sz }
      pure 0
  else if n < 0 then
    let (pgdir, sz) ← onRam (lift (deallocuvm curproc.pgdir curproc.sz newsz))
    setProc fun proc => { proc with pgdir }
    if sz = 0 then pure (-1)
    else
      setProc fun proc => { proc with sz }
      pure 0
  else pure 0

def sysSbrk (n : Int) : Call Int := do
  let addr := (← get).curproc.sz
  if (← growproc n) < 0 then pure (-1) else pure addr

def fieldAt (file : List Byte) (off n : Nat) : Nat := littleEndian ((file.drop off).take n)

def elfFile (file : List Byte) : ElfFile where
  size := file.length
  magic := fieldAt file 0 4
  phoff := fieldAt file 28 4
  phnum := fieldAt file 44 2
  ph off := {
    type := fieldAt file off 4
    off := fieldAt file (off + 4) 4
    vaddr := fieldAt file (off + 8) 4
    filesz := fieldAt file (off + 16) 4
    memsz := fieldAt file (off + 20) 4 }

def entry (file : List Byte) : Nat := fieldAt file 24 4

/-- The loop over the program headers.  Returns the size so far, or nothing. -/
def execLoad (file : List Byte) : Nat → Nat → PageDir → Nat → Code (PageDir × Option Nat)
  | 0, _, pgdir, sz => pure (pgdir, some sz)
  | left + 1, off, pgdir, sz =>
    let ph := (elfFile file).ph off
    if (elfFile file).readsAll off 32 = false then pure (pgdir, none)
    else if ph.type ≠ ELF_PROG_LOAD then execLoad file left ((off + 32) % 2 ^ 32) pgdir sz
    else if ph.memsz < ph.filesz then pure (pgdir, none)
    else if (ph.vaddr + ph.memsz) % 2 ^ 32 < ph.vaddr then pure (pgdir, none)
    else do
      let (pgdir, sz) ← allocuvm pgdir sz ((ph.vaddr + ph.memsz) % 2 ^ 32)
      if sz = 0 then pure (pgdir, none)
      else if ph.vaddr % PGSIZE ≠ 0 then pure (pgdir, none)
      else
        let loaded ← loaduvm pgdir ph.vaddr file ph.off ph.filesz
        if loaded then execLoad file left ((off + 32) % 2 ^ 32) pgdir sz
        else pure (pgdir, none)

def wordBytes (word : Nat) : List Byte := (List.range 4).map fun i => BitVec.ofNat 8 (word / 256 ^ i)

/-- `ustack`, when `sp` is the address of the last string. -/
def ustack (pointers : List Nat) (sp : Nat) : List Nat :=
  let argc := pointers.length
  [0xFFFFFFFF, argc, (sp + 2 ^ 32 - (argc + 1) * 4) % 2 ^ 32] ++ pointers ++ [0]

/-- Push the argument strings, then `ustack`.  Returns the stack pointer. -/
def pushArguments (current pgdir : PageDir) : List (List Byte) → List Nat → Nat → Code (Option Nat)
  | [], pointers, sp => do
    let esp := (sp + 2 ^ 32 - (3 + pointers.length + 1) * 4) % 2 ^ 32
    let copied ← copyout current pgdir esp ((ustack pointers sp).flatMap wordBytes)
    if copied then pure (some esp) else pure none
  | arg :: rest, pointers, sp =>
    if pointers.length ≥ MAXARG then pure none
    else do
      let sp := (sp + 2 ^ 32 - (arg.length + 1)) % 2 ^ 32 / 4 * 4
      let copied ← copyout current pgdir sp (arg ++ [0])
      if copied then pushArguments current pgdir rest (pointers ++ [sp]) sp
      else pure none

/-- The name kept for debugging: what follows the last slash, cut to 15 bytes by
`safestrcpy`. -/
def lastName (path : List Byte) : List Byte :=
  ((path.reverse.takeWhile fun c => c ≠ BitVec.ofNat 8 '/'.toNat).reverse).take 15

def bad (pgdir : Option PageDir) (ip : Bool) : Call Int := do
  match pgdir with
  | some pgdir => onRam (lift (freevm pgdir))
  | none => pure ()
  if ip then
    iunlockput
    endOp
    pure (-1)
  else pure (-1)

/-- From the end of the load loop: `iunlockput` and `end_op` have been called. -/
def execStack (path file : List Byte) (argv : List (List Byte)) (pgdir : PageDir) (sz : Nat) : Call Int := do
  let (pgdir, sz) ← onRam (allocuvm pgdir (PGROUNDUP sz) ((PGROUNDUP sz + 2 * PGSIZE) % 2 ^ 32))
  if sz = 0 then bad (some pgdir) false
  else
    let pgdir ← onRam (lift (clearpteu pgdir (sz - 2 * PGSIZE)))
    let oldpgdir := (← get).curproc.pgdir
    match ← onRam (pushArguments oldpgdir pgdir argv [] sz) with
    | none => bad (some pgdir) false
    | some esp =>
      setProc fun _ => { pgdir, sz, name := lastName path, eip := entry file, esp }
      onRam (lift (freevm oldpgdir))
      pure 0

def exec (map : List KMap) (path : List Byte) (file : Option (List Byte)) (argv : List (List Byte)) : Call Int := do
  beginOp
  match file with
  | none =>
    endOp
    pure (-1)
  | some file =>
    iget
    ilock
    if (elfFile file).readsAll 0 52 = false then bad none true
    else if (elfFile file).magic ≠ ELF_MAGIC then bad none true
    else
      match ← onRam (lift (setupkvm map)) with
      | none => bad none true
      | some pgdir =>
        match ← onRam (execLoad file (elfFile file).phnum (elfFile file).phoff pgdir 0) with
        | (pgdir, none) => bad (some pgdir) true
        | (pgdir, some sz) =>
          iunlockput
          endOp
          execStack path file argv pgdir sz

end Xv6.Image
