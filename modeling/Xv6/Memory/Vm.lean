import Xv6.Data.Resource

namespace Xv6.Memory

open Xv6.Data

/-! # Physical pages and page tables

`kalloc.c` and the functions of `vm.c` that allocate and free.  A page is named by its
physical address.  A page directory is the tree of its page tables and entries; a
function that changes one returns the changed tree.  `kalloc` fails when the free list
is empty, and also whenever the caller's schedule of denials says so.
-/

abbrev Page := Nat

abbrev PGSIZE : Nat := 4096
abbrev KERNBASE : Nat := 0x80000000
abbrev PHYSTOP : Nat := 0xE000000
abbrev NPDENTRIES : Nat := 1024
abbrev NPTENTRIES : Nat := 1024

scoped instance : NeZero NPDENTRIES := ⟨by decide⟩

def PTE_P : Nat := 1
def PTE_W : Nat := 2
def PTE_U : Nat := 4

theorem page_sizes : PGSIZE = 4096 ∧ KERNBASE = 2147483648 := ⟨rfl, rfl⟩

def PDX (va : Nat) : Fin NPDENTRIES := Fin.ofNat NPDENTRIES (va / (PGSIZE * NPTENTRIES))

def PTX (va : Nat) : Fin NPTENTRIES := Fin.ofNat NPTENTRIES (va / PGSIZE)

def PGADDR (d t o : Nat) : Nat := (d * (PGSIZE * NPTENTRIES) + t * PGSIZE + o) % 2 ^ 32

def PGROUNDUP (sz : Nat) : Nat := (sz + PGSIZE - 1) % 2 ^ 32 / PGSIZE * PGSIZE

def PGROUNDDOWN (a : Nat) : Nat := a / PGSIZE * PGSIZE

/-- The panics of the memory code, and what it does not check for: a page table
that is not there (`uva2ka`) and memory that `kalloc` did not give out (while
booting).  `outOfFuel` is a loop that has not ended when its fuel is spent. -/
inductive Panic where
  | kfree | remap | copyuvmPte | copyuvmPresent | loaduvmAligned | loaduvmAddress | clearpteu | userinit
  | nullPte | nullPage | outOfFuel
deriving DecidableEq, Repr

/-- `kmem`, the physical address of `end`, and which of the next calls of
`kalloc` fail. -/
structure Mem where
  freelist : List Page
  kernelEnd : Nat
  denied : List Bool := []

abbrev Vm := Program Mem Panic

def kalloc : Vm (Option Page) := fun m =>
  match m.denied.headD false, m.freelist with
  | false, page :: rest => .ok (some page, { m with freelist := rest, denied := m.denied.tail })
  | _, _ => .ok (none, { m with denied := m.denied.tail })

def kfree (page : Page) : Vm Unit := fun m =>
  if page % PGSIZE ≠ 0 ∨ page < m.kernelEnd ∨ page ≥ PHYSTOP then .error .kfree
  else .ok ((), { m with freelist := page :: m.freelist })

/-- A page-table entry with `PTE_P`. -/
structure Pte where
  pa : Page
  flags : Nat
deriving DecidableEq, Repr

structure PageTable where
  page : Page
  pte : Fin NPTENTRIES → Option Pte

structure PageDir where
  page : Page
  table : Fin NPDENTRIES → Option PageTable

def PageDir.pte (pgdir : PageDir) (va : Nat) : Option Pte :=
  (pgdir.table (PDX va)).bind fun table => table.pte (PTX va)

def PageDir.setPte (pgdir : PageDir) (va : Nat) (pte : Option Pte) : PageDir :=
  match pgdir.table (PDX va) with
  | some table =>
    { pgdir with
      table := Function.update pgdir.table (PDX va)
        (some { table with pte := Function.update table.pte (PTX va) pte }) }
  | none => pgdir

/-- Returns whether there is a page table for `va`.  Callers that do not allocate
look it up in `table` themselves. -/
def walkpgdir (pgdir : PageDir) (va : Nat) (alloc : Bool) : Vm (PageDir × Bool) :=
  match pgdir.table (PDX va) with
  | some _ => pure (pgdir, true)
  | none =>
    if alloc then do
      match ← kalloc with
      | some pgtab =>
        pure ({ pgdir with
          table := Function.update pgdir.table (PDX va) (some ⟨pgtab, fun _ => none⟩) }, true)
      | none => pure (pgdir, false)
    else pure (pgdir, false)

/-- The loop of `mappages`, with the number of pages after this one. -/
def mappagesLoop (perm : Nat) : Nat → PageDir → Nat → Nat → Vm (PageDir × Bool)
  | left, pgdir, a, pa => do
    let (pgdir, found) ← walkpgdir pgdir a true
    if found = false then
      pure (pgdir, false)
    else if (pgdir.pte a).isSome then
      throw .remap
    else
      let pgdir := pgdir.setPte a (some ⟨pa, perm⟩)
      match left with
      | 0 => pure (pgdir, true)
      | left + 1 => mappagesLoop perm left pgdir ((a + PGSIZE) % 2 ^ 32) ((pa + PGSIZE) % 2 ^ 32)

def mapCount (va size : Nat) : Nat :=
  let a := PGROUNDDOWN va
  let last := PGROUNDDOWN ((va + size + 2 ^ 32 - 1) % 2 ^ 32)
  (last + 2 ^ 32 - a) % 2 ^ 32 / PGSIZE

def mappages (pgdir : PageDir) (va size pa perm : Nat) : Vm (PageDir × Bool) :=
  mappagesLoop perm (mapCount va size) pgdir (PGROUNDDOWN va) pa

/-- The loop of `deallocuvm`.  A round moves `a` up by a page or more, so the
number of pages of the address space is enough fuel. -/
def deallocuvmLoop (oldsz : Nat) : Nat → PageDir → Nat → Vm PageDir
  | 0, pgdir, a => if a < oldsz then throw .outOfFuel else pure pgdir
  | fuel + 1, pgdir, a =>
    if a < oldsz then
      match pgdir.table (PDX a) with
      | none => deallocuvmLoop oldsz fuel pgdir (PGADDR (PDX a + 1) 0 0)
      | some table =>
        match table.pte (PTX a) with
        | some pte =>
          if pte.pa = 0 then throw .kfree
          else do
            kfree pte.pa
            deallocuvmLoop oldsz fuel (pgdir.setPte a none) ((a + PGSIZE) % 2 ^ 32)
        | none => deallocuvmLoop oldsz fuel pgdir ((a + PGSIZE) % 2 ^ 32)
    else pure pgdir

def pagesOfSpace : Nat := NPDENTRIES * NPTENTRIES

def deallocuvm (pgdir : PageDir) (oldsz newsz : Nat) : Vm (PageDir × Nat) :=
  if newsz ≥ oldsz then pure (pgdir, oldsz)
  else do
    let pgdir ← deallocuvmLoop oldsz pagesOfSpace pgdir (PGROUNDUP newsz)
    pure (pgdir, newsz)

def freevm (pgdir : PageDir) : Vm Unit := do
  let (pgdir, _) ← deallocuvm pgdir KERNBASE 0
  forM (List.finRange NPDENTRIES) fun i =>
    match pgdir.table i with
    | some table => kfree table.page
    | none => pure ()
  kfree pgdir.page

structure KMap where
  virt : Nat
  physStart : Nat
  physEnd : Nat
  perm : Nat
deriving DecidableEq, Repr

abbrev EXTMEM : Nat := 0x100000
abbrev KERNLINK : Nat := KERNBASE + EXTMEM
abbrev DEVSPACE : Nat := 0xFE000000

/-- `kmap`, given the address of the linker symbol `data`. -/
def kmap (data : Nat) : List KMap :=
  [⟨KERNBASE, 0, EXTMEM, PTE_W⟩,
   ⟨KERNLINK, EXTMEM, data - KERNBASE, 0⟩,
   ⟨data, data - KERNBASE, PHYSTOP, PTE_W⟩,
   ⟨DEVSPACE, DEVSPACE, 0, PTE_W⟩]

def KMap.size (k : KMap) : Nat := (k.physEnd + 2 ^ 32 - k.physStart) % 2 ^ 32

def setupkvmLoop : List KMap → PageDir → Vm (Option PageDir)
  | [], pgdir => pure (some pgdir)
  | k :: rest, pgdir => do
    let (pgdir, mapped) ← mappages pgdir k.virt k.size k.physStart k.perm
    if mapped = false then
      freevm pgdir
      pure none
    else setupkvmLoop rest pgdir

def setupkvm (map : List KMap) : Vm (Option PageDir) := do
  match ← kalloc with
  | some page => setupkvmLoop map ⟨page, fun _ => none⟩
  | none => pure none

def allocuvmLoop (oldsz newsz : Nat) : Nat → PageDir → Nat → Vm (PageDir × Nat)
  | 0, pgdir, a => if a < newsz then throw .outOfFuel else pure (pgdir, newsz)
  | fuel + 1, pgdir, a =>
    if a < newsz then do
      match ← kalloc with
      | none =>
        let (pgdir, _) ← deallocuvm pgdir newsz oldsz
        pure (pgdir, 0)
      | some mem =>
        let (pgdir, mapped) ← mappages pgdir a PGSIZE mem (PTE_W + PTE_U)
        if mapped = false then
          let (pgdir, _) ← deallocuvm pgdir newsz oldsz
          kfree mem
          pure (pgdir, 0)
        else allocuvmLoop oldsz newsz fuel pgdir (a + PGSIZE)
    else pure (pgdir, newsz)

/-- Returns the new size, or 0. -/
def allocuvm (pgdir : PageDir) (oldsz newsz : Nat) : Vm (PageDir × Nat) :=
  if newsz ≥ KERNBASE then pure (pgdir, 0)
  else if newsz < oldsz then pure (pgdir, oldsz)
  else allocuvmLoop oldsz newsz pagesOfSpace pgdir (PGROUNDUP oldsz)

def clearpteu (pgdir : PageDir) (uva : Nat) : Vm PageDir :=
  match pgdir.table (PDX uva) with
  | some _ =>
    pure (pgdir.setPte uva ((pgdir.pte uva).map fun pte => { pte with flags := pte.flags &&& (0xFFF - PTE_U) }))
  | none => throw .clearpteu

def copyuvmLoop (pgdir : PageDir) (sz : Nat) : Nat → PageDir → Nat → Vm (Option PageDir)
  | 0, d, i => if i < sz then throw .outOfFuel else pure (some d)
  | fuel + 1, d, i =>
    if i < sz then
      match pgdir.table (PDX i) with
      | none => throw .copyuvmPte
      | some table =>
        match table.pte (PTX i) with
        | none => throw .copyuvmPresent
        | some pte => do
          match ← kalloc with
          | none =>
            freevm d
            pure none
          | some mem =>
            let (d, mapped) ← mappages d i PGSIZE mem pte.flags
            if mapped = false then
              kfree mem
              freevm d
              pure none
            else copyuvmLoop pgdir sz fuel d (i + PGSIZE)
    else pure (some d)

def copyuvm (map : List KMap) (pgdir : PageDir) (sz : Nat) : Vm (Option PageDir) := do
  match ← setupkvm map with
  | some d => copyuvmLoop pgdir sz pagesOfSpace d 0
  | none => pure none

end Xv6.Memory
