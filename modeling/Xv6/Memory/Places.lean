import Xv6.Data.Located
import Xv6.Memory.Arguments

namespace Xv6.Memory

open Xv6.Data

/-! # Where a page is

A page that the allocator was given is on the free list or in the hands of one owner. -/

variable {s t : State} {p : Slot} {map : List KMap} {page : Page}

inductive SpacePlace where
  | directory
  | table (i : Fin NPDENTRIES)
  | user (i : Fin NPDENTRIES) (j : Fin NPTENTRIES)
deriving DecidableEq

inductive ProcPlace where
  | kstack
  | space (place : SpacePlace)
  | history (i : Nat)
deriving DecidableEq

inductive Place where
  | free (i : Nat)
  | proc (p : Slot) (place : ProcPlace)
  | pipe (i : Nat)
  | kernelSpace (place : SpacePlace)
  | cpuStack (i : Nat)
deriving DecidableEq

def PageDir.pageAt (pgdir : PageDir) : SpacePlace → Option Page
  | .directory => some pgdir.page
  | .table i => (pgdir.table i).map PageTable.page
  | .user i j => if UserIndex i then (pgdir.table i).bind fun table => (table.pte j).map Pte.pa else none

def Proc.pageAt (proc : Proc) : ProcPlace → Option Page
  | .kstack => proc.kstack
  | .space place => if proc.state = .unused then none else proc.pgdir.bind (PageDir.pageAt · place)
  | .history i => (proc.syscallhistory[i]?).map Counter.page

def State.pageAt (s : State) : Place → Option Page
  | .free i => s.mem.freelist[i]?
  | .proc p place => (s.proc p).pageAt place
  | .pipe i => (s.pipes[i]?).map Pipe.page
  | .kernelSpace place => s.kpgdir.pageAt place
  | .cpuStack i => s.cpuStacks[i]?

theorem ptePages_located (i : Fin NPDENTRIES) (j : Fin NPTENTRIES) (pte : Option Pte) :
    Located (fun x page => x = SpacePlace.user i j ∧ pte.map Pte.pa = some page) (ptePages pte) := by
  cases pte with
  | none => exact Located.zero.congr (by simp)
  | some pte => exact (Located.single (SpacePlace.user i j) pte.pa).congr (by simp [eq_comm])

theorem tablePages_located (i : Fin NPDENTRIES) (table : Option PageTable) :
    Located (fun x page => (x = SpacePlace.table i ∧ table.map PageTable.page = some page) ∨
      ∃ j, x = .user i j ∧ UserIndex i ∧ (table.bind fun table => (table.pte j).map Pte.pa) = some page)
      (tablePages i table) := by
  cases table with
  | none =>
    rw [tablePages_none]
    exact Located.zero.congr (by simp)
  | some table =>
    rw [tablePages_some]
    split
    · rename_i user
      have entries := Located.sum fun j => ptePages_located i j (table.pte j)
      refine ((Located.single (SpacePlace.table i) table.page).add entries).congr ?_
      simp [user, eq_comm]
    · rename_i kernel
      refine ((Located.single (SpacePlace.table i) table.page).add .zero).congr ?_
      simp [kernel, eq_comm]

theorem PageDir.located (pgdir : PageDir) :
    Located (fun place page => pgdir.pageAt place = some page) pgdir.pages := by
  rw [pgdir.pages_eq]
  have tables := Located.sum fun i => tablePages_located i (pgdir.table i)
  refine ((Located.single SpacePlace.directory pgdir.page).add tables).congr ?_
  intro place page
  cases place with
  | directory => simp [PageDir.pageAt, eq_comm]
  | table i | user i j => simp [PageDir.pageAt]

theorem Proc.located (proc : Proc) : Located (fun place page => proc.pageAt place = some page) proc.pages := by
  have stack : Located (fun x page => x = ProcPlace.kstack ∧ proc.kstack = some page)
      (proc.kstack.elim 0 ({·})) := by
    cases proc.kstack with
    | none => exact Located.zero.congr (by simp)
    | some page => exact (Located.single ProcPlace.kstack page).congr (by simp [eq_comm])
  have space : Located (fun x page => ∃ place, x = ProcPlace.space place ∧
      proc.pageAt (.space place) = some page)
      (if proc.state = .unused then 0 else proc.pgdir.elim 0 PageDir.pages) := by
    unfold Proc.pageAt
    split
    · exact Located.zero.congr (by simp)
    · cases proc.pgdir with
      | none => exact Located.zero.congr (by simp)
      | some pgdir => exact pgdir.located.embed ProcPlace.space
  have history := Located.list ProcPlace.history (proc.syscallhistory.map Counter.page)
  refine ((stack.add space).add history).congr ?_
  intro place page
  cases place with
  | kstack | history i => simp [Proc.pageAt]
  | space place => simp

theorem State.located (s : State) : Located (fun place page => s.pageAt place = some page) s.pages := by
  have procs := Located.sum fun p => (s.proc p).located.embed (Place.proc p)
  have free := Located.list Place.free s.mem.freelist
  have kernel := (s.kpgdir.located.embed Place.kernelSpace).add (Located.list Place.cpuStack s.cpuStacks)
  have pipes := Located.list Place.pipe (s.pipes.map Pipe.page)
  refine (((free.add kernel).add procs).add pipes).congr ?_
  intro place page
  cases place with
  | free i | proc p place | pipe i | kernelSpace place | cpuStack i => simp [State.pageAt]

theorem startothers_conserves (ncpu : Nat) :
    Conserves freePages 0 (startothers ncpu) fun cpuStacks kept => kept = (cpuStacks : Multiset Page) := by
  induction ncpu with
  | zero => exact .pure rfl
  | succ ncpu ih =>
    refine kalloc_conserves.bind ?_
    rintro stack _ rfl
    cases stack with
    | none => exact .throw
    | some stack =>
      have framed := ih.frame {stack}
      rw [zero_add] at framed
      refine framed.bind ?_
      rintro rest _ ⟨_, rfl, rfl⟩
      refine .pure ?_
      rw [← Multiset.cons_coe, ← Multiset.singleton_add, add_comm]

theorem userinit_conserves (kernel : KernelMap map) :
    Conserves freePages 0 (userinit map) fun result kept => kept = {result.1} + result.2.pages := by
  refine kalloc_conserves.bind ?_
  rintro kstack _ rfl
  cases kstack with
  | none => exact .throw
  | some kstack =>
    have framed := (setupkvm_conserves kernel).frame {kstack}
    rw [zero_add] at framed
    refine framed.bind ?_
    rintro pgdir _ ⟨_, rfl, rfl⟩
    cases pgdir with
    | none => exact .throw
    | some pgdir =>
      refine (kalloc_frame _).bind ?_
      rintro mem _ rfl
      cases mem with
      | none => exact .throw
      | some mem =>
        have mapped : Conserves freePages ({mem} + pgdir.pages) (mappages pgdir 0 PGSIZE mem (PTE_W + PTE_U))
            fun result kept => kept = (if result.2 then 0 else {mem}) + result.1.pages :=
          mappages_page rfl (by decide)
        simp only [Option.elim_some, ← add_assoc]
        refine (mapped.frame {kstack}).bind ?_
        rintro ⟨new, done⟩ _ ⟨_, rfl, rfl⟩
        cases done with
        | false => exact .throw
        | true =>
          refine .pure ?_
          simp [add_comm]

theorem Conserves.ends {α : Type} {program : Vm α} {held : Multiset Page} {post : α → Multiset Page → Prop}
    (conserves : Conserves freePages held program post) (m : Mem) :
    Ends (fun _ => True) (fun (value, final) => ∃ kept, post value kept ∧ kept + freePages final = held + freePages m)
      (program.run m) := by
  cases done : program.run m with
  | error reason => exact trivial
  | ok result => exact conserves m result.1 result.2 done

theorem Files.initial : Files (fun _ => {}) [] where
  ref := by simp
  closed := by simp
  pages := List.nodup_nil
  ends := by simp
  single := fun _ _ _ _ isEnd => absurd isEnd (not_endOf_none rfl)
  live := fun _ _ _ isEnd => absurd isEnd (not_endOf_none rfl)
  held := by simp

theorem pages_first (proc : Proc) :
    ∑ p, (Function.update (fun _ => ({} : Proc)) (0 : Slot) proc p).pages = proc.pages := by
  have moved := sum_update (fun _ => Proc.pages) (fun _ => ({} : Proc)) (0 : Slot) proc
  have empty : ({} : Proc).pages = 0 := by simp [Proc.pages]
  simpa only [empty, Finset.sum_const_zero, add_zero, zero_add] using moved

theorem boot_ends {ncpu kernelEnd : Nat} {low high : List Page} (kernel : KernelMap map) :
    Ends (fun _ => True)
      (fun s => (∀ p, (s.proc p).Ok) ∧ Files s.file s.pipes ∧ Counted s ∧ s.pages = ↑(low ++ high))
      (boot map ncpu kernelEnd low high) := by
  apply (Conserves.ends (setupkvm_conserves kernel) _).bind
  rintro ⟨kpgdir, m1⟩ ⟨_, rfl, first⟩
  cases kpgdir with
  | none => exact trivial
  | some kpgdir =>
    apply (Conserves.ends (startothers_conserves _) _).bind
    rintro ⟨cpuStacks, m2⟩ ⟨_, rfl, second⟩
    apply (Conserves.ends (userinit_conserves kernel) _).bind
    rintro ⟨⟨kstack, pgdir⟩, m3⟩ ⟨_, rfl, third⟩
    refine ⟨?_, Files.initial, ?_, ?_⟩
    · have empty : ({} : Proc).Ok := ⟨fun _ => ⟨rfl, rfl⟩, fun used => absurd rfl used, fun _ => rfl⟩
      intro p
      by_cases isInit : p = 0
      · subst isInit
        refine ⟨?_, ?_, ?_⟩
        · simp
        · simp [PGSIZE, KERNBASE]
        · simp
      · simpa [isInit] using empty
    · have none (p : Slot) : (Function.update (fun _ => ({} : Proc)) 0
          { state := .live, pid := 1, kstack := some kstack, pgdir := some pgdir, sz := PGSIZE } p).ofile =
            fun _ => none := by
        by_cases isInit : p = 0 <;> simp [isInit]
      refine ⟨?_, fun p _ fd => congrFun (none p) fd⟩
      funext f
      simp [State.refs, State.descriptors, Proc.descriptors, none]
    · simp only [zero_add] at first second third
      have refilled : freePages { m2 with freelist := high ++ m2.freelist } = ↑high + freePages m2 :=
        (Multiset.coe_add _ _).symm
      have own : freePages m3 + ({kstack} + pgdir.pages) = ↑high + freePages m2 := by
        rw [← refilled, ← third, add_comm]
      simp only [State.pages, pages_first]
      simp only [Proc.pages, reduceCtorEq, ↓reduceIte, Option.elim_some, List.map_nil, Multiset.coe_nil, add_zero]
      calc freePages m3 + (kpgdir.pages + ↑cpuStacks) + ({kstack} + pgdir.pages)
          = freePages m3 + ({kstack} + pgdir.pages) + (kpgdir.pages + ↑cpuStacks) := add_right_comm ..
        _ = ↑high + (kpgdir.pages + (↑cpuStacks + freePages m2)) := by rw [own]; abel
        _ = ↑high + (low : Multiset Page) := by rw [second]; exact congrArg _ first
        _ = ↑(low ++ high) := by rw [add_comm, Multiset.coe_add]

theorem boot_good {ncpu kernelEnd : Nat} {low high : List Page} (kernel : KernelMap map)
    (distinct : (low ++ high).Nodup) (booted : boot map ncpu kernelEnd low high = .ok s) :
    Good s ∧ s.pages = ↑(low ++ high) := by
  obtain ⟨procs, files, counted, pages⟩ := (boot_ends kernel).of_ok booted
  refine ⟨⟨procs, files, ?_, counted⟩, pages⟩
  rw [pages]
  exact Multiset.coe_nodup.mpr distinct

section

variable {ncpu kernelEnd : Nat} {low high : List Page} {s₀ : State} {actions : List Action}

theorem run_good (kernel : KernelMap map) (distinct : (low ++ high).Nodup)
    (booted : boot map ncpu kernelEnd low high = .ok s₀) (ran : Data.exec (step map) s₀ actions = some s) :
    Good s ∧ s.pages = ↑(low ++ high) := by
  refine exec_invariant_all (fun s => Good s ∧ s.pages = ↑(low ++ high)) (boot_good kernel distinct booted) ?_ ran
  rintro before action after ⟨good, pages⟩ taken
  have kept := step_kept kernel good taken
  exact ⟨good.of_kept kept, kept.pages.trans pages⟩

theorem Proc.Ok.pageAt_unused {proc : Proc} (ok : proc.Ok) (unused : proc.state = .unused) (place : ProcPlace) :
    proc.pageAt place = none := by
  obtain ⟨stack, history⟩ := ok.unused unused
  cases place with
  | kstack => exact stack
  | space place => simp [Proc.pageAt, unused]
  | history i => simp [Proc.pageAt, history]

end

def tenPages : List Page := (List.range 10).map fun i => (i + 1) * PGSIZE

def forkExit : List Request := [{ action := ⟨0, .fork, []⟩ }, { action := ⟨1, .exit, []⟩ }]

def parentWaits : Request := { action := ⟨0, .wait, []⟩ }

theorem forkExit_runs : ((boot [] 1 PGSIZE tenPages []).toOption.bind fun s => Data.exec (advance []) s forkExit).map
    (fun s => ((s.proc 1).state, (advance [] s parentWaits).map fun t => (t.proc 1).state)) =
      some (.zombie, some .unused) := by
  decide +kernel

/-- The first page of the devices.  It is above the last gap of the kernel's map. -/
def deviceMap : List KMap := [⟨DEVSPACE, DEVSPACE, DEVSPACE + PGSIZE, PTE_W⟩]

/-- An address space of 8705 pages, a little more than 34 MB. -/
def largeSpace : PageDir where
  page := 0x1200 * PGSIZE
  table := fun i =>
    if i.val < 9 then
      some ⟨(0x1100 + i) * PGSIZE, fun j =>
        if i * NPTENTRIES + j < 8705 then some ⟨(0x2000 + i * NPTENTRIES + j) * PGSIZE, PTE_W + PTE_U⟩ else none⟩
    else if i = PDX DEVSPACE then
      some ⟨0x1201 * PGSIZE, fun j => if j.val = 0 then some ⟨DEVSPACE, PTE_W⟩ else none⟩
    else none

/-- Its process, alone, with twenty other pages free. -/
def largeProcess : State where
  mem := { freelist := (List.range 20).map fun i => (0x1010 + i) * PGSIZE, kernelEnd := 0x200 * PGSIZE }
  proc := Function.update (fun _ => {}) 0
    { state := .live, pid := 1, kstack := some (0x1202 * PGSIZE), pgdir := some largeSpace, sz := 8705 * PGSIZE }
  file := fun _ => {}
  pipes := []
  initproc := 0
  nextpid := 2
  kpgdir := ⟨0x1203 * PGSIZE, fun _ => none⟩
  cpuStacks := []

/-- An ELF header without program headers. -/
def headerOnly : ElfFile := ⟨52, ELF_MAGIC, 52, 0, fun _ => ⟨0, 0, 0, 0, 0⟩⟩

/-- The string is copied to the page before the devices, from `off` on, where there is
no page table; then it meets the devices. -/
def longArgument (off word fill : Nat) : Request :=
  ⟨⟨0, .exec (some headerOnly) [2 * PGSIZE + 2 ^ 32 - DEVSPACE + PGSIZE - off - 1], []⟩, word, fill⟩

end Xv6.Memory
