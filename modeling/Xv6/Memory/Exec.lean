import Xv6.Memory.Vm

namespace Xv6.Memory

open Xv6.Data

/-! # `exec`

The part of `exec` that builds the new address space.  Of the executable, what `exec`
reads is given; of the arguments, their lengths.
-/

abbrev MAXARG : Nat := 32
def ELF_MAGIC : Nat := 0x464C457F
def ELF_PROG_LOAD : Nat := 1

structure ProgHeader where
  type : Nat
  off : Nat
  vaddr : Nat
  filesz : Nat
  memsz : Nat
deriving DecidableEq, Repr

/-- An executable of `size` bytes, with the program header found at each offset. -/
structure ElfFile where
  size : Nat
  magic : Nat
  phoff : Nat
  phnum : Nat
  ph : Nat → ProgHeader

/-- `readi` returns all of the `n` bytes asked for. -/
def ElfFile.readsAll (file : ElfFile) (off n : Nat) : Bool :=
  off ≤ file.size && off + n < 2 ^ 32 && off + n ≤ file.size

def loaduvmLoop (pgdir : PageDir) (addr : Nat) (file : ElfFile) (offset sz : Nat) : Nat → Nat → Vm Bool
  | 0, i => if i < sz then throw .outOfFuel else pure true
  | fuel + 1, i =>
    if i < sz then
      match pgdir.table (PDX ((addr + i) % 2 ^ 32)) with
      | none => throw .loaduvmAddress
      | some _ =>
        if file.readsAll ((offset + i) % 2 ^ 32) (min (sz - i) PGSIZE) then
          loaduvmLoop pgdir addr file offset sz fuel (i + PGSIZE)
        else pure false
    else pure true

def loaduvm (pgdir : PageDir) (addr : Nat) (file : ElfFile) (offset sz : Nat) : Vm Bool :=
  if addr % PGSIZE ≠ 0 then throw .loaduvmAligned
  else loaduvmLoop pgdir addr file offset sz pagesOfSpace 0

def execLoad (file : ElfFile) : Nat → Nat → PageDir → Nat → Vm (PageDir × Option Nat)
  | 0, _, pgdir, sz => pure (pgdir, some sz)
  | left + 1, off, pgdir, sz =>
    let ph := file.ph off
    if file.readsAll off 32 = false then pure (pgdir, none)
    else if ph.type ≠ ELF_PROG_LOAD then execLoad file left ((off + 32) % 2 ^ 32) pgdir sz
    else if ph.memsz < ph.filesz then pure (pgdir, none)
    else if (ph.vaddr + ph.memsz) % 2 ^ 32 < ph.vaddr then pure (pgdir, none)
    else do
      let (pgdir, sz) ← allocuvm pgdir sz ((ph.vaddr + ph.memsz) % 2 ^ 32)
      if sz = 0 then pure (pgdir, none)
      else if ph.vaddr % PGSIZE ≠ 0 then pure (pgdir, none)
      else
        let loaded ← loaduvm pgdir ph.vaddr file ph.off ph.filesz
        if loaded then execLoad file left ((off + 32) % 2 ^ 32) pgdir sz
        else pure (pgdir, none)

/-- `exec` up to the stack.  Returns the new page directory and size; without them,
everything allocated has been freed. -/
def execImage (map : List KMap) (file : Option ElfFile) : Vm (Option (PageDir × Nat)) :=
  match file with
  | none => pure none
  | some file =>
    if file.readsAll 0 52 = false then pure none
    else if file.magic ≠ ELF_MAGIC then pure none
    else do
      match ← setupkvm map with
      | none => pure none
      | some pgdir =>
        match ← execLoad file file.phnum file.phoff pgdir 0 with
        | (pgdir, none) =>
          freevm pgdir
          pure none
        | (pgdir, some sz) =>
          let (pgdir, sz) ← allocuvm pgdir (PGROUNDUP sz) ((PGROUNDUP sz + 2 * PGSIZE) % 2 ^ 32)
          if sz = 0 then
            freevm pgdir
            pure none
          else
            let pgdir ← clearpteu pgdir (sz - 2 * PGSIZE)
            pure (some (pgdir, sz))

/-- Whether copies are done, and which of them were for an address without a page table:
`strays` has their offsets in a page and their lengths.  There `uva2ka` reads the entry
through the null pointer, at address 0 of the caller; it is taken to be a user entry. -/
structure Copied where
  strays : List (Nat × Nat) := []
  done : Bool
deriving DecidableEq, Repr

/-- The loop of `copyout`, with the number of pages left. -/
def copyoutLoop (pgdir : PageDir) : Nat → Nat → Nat → Copied
  | 0, _, _ => { done := true }
  | left + 1, va, len =>
    let n := min (PGSIZE - va % PGSIZE) len
    let rest := copyoutLoop pgdir left ((PGROUNDDOWN va + PGSIZE) % 2 ^ 32) (len - n)
    match pgdir.table (PDX va) with
    | none => { rest with strays := (va % PGSIZE, n) :: rest.strays }
    | some table =>
      match table.pte (PTX va) with
      | some pte => if pte.flags &&& PTE_U = 0 then { done := false } else rest
      | none => { done := false }

def copyout (pgdir : PageDir) (va len : Nat) : Copied :=
  copyoutLoop pgdir ((va % PGSIZE + len + (PGSIZE - 1)) / PGSIZE) va len

def pushArguments (pgdir : PageDir) : List Nat → Nat → Nat → Copied
  | [], argc, sp =>
    copyout pgdir ((sp + 2 ^ 32 - (3 + argc + 1) * 4) % 2 ^ 32) ((3 + argc + 1) * 4)
  | strlen :: rest, argc, sp =>
    if argc ≥ MAXARG then { done := false }
    else
      let sp := (sp + 2 ^ 32 - (strlen + 1)) % 2 ^ 32 / 4 * 4
      let string := copyout pgdir sp (strlen + 1)
      if string.done then
        let others := pushArguments pgdir rest (argc + 1) sp
        { others with strays := string.strays ++ others.strays }
      else string

end Xv6.Memory
