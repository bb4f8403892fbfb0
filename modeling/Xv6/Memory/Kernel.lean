import Xv6.Data.Trace
import Xv6.Memory.Exec

namespace Xv6.Memory

open Xv6.Data

/-! # The kernel's use of pages

Processes, open files, pipes and system-call histories, as far as they own pages.  A
system call is one step.  A process that is neither unused nor a zombie is live.
-/

abbrev NPROC : Nat := 64
abbrev NOFILE : Nat := 16
abbrev NFILE : Nat := 100

scoped instance : NeZero NPROC := ⟨by decide⟩
scoped instance : NeZero NOFILE := ⟨by decide⟩

abbrev Slot := Fin NPROC
abbrev FileId := Fin NFILE

inductive Status where
  | unused | live | zombie
deriving DecidableEq, Repr

structure Counter where
  num : Int
  count : Int
  page : Page
deriving DecidableEq, Repr

structure Proc where
  state : Status := .unused
  pid : Int := 0
  parent : Option Slot := none
  kstack : Option Page := none
  pgdir : Option PageDir := none
  sz : Nat := 0
  syscallhistory : List Counter := []
  ofile : Fin NOFILE → Option FileId := fun _ => none

inductive FileType where
  | none | pipe | inode
deriving DecidableEq, Repr

structure File where
  ref : Int := 0
  type : FileType := .none
  writable : Bool := false
  pipe : Page := 0
deriving DecidableEq, Repr

structure Pipe where
  page : Page
  readopen : Bool
  writeopen : Bool
deriving DecidableEq, Repr

structure State where
  mem : Mem
  proc : Slot → Proc
  file : FileId → File
  pipes : List Pipe
  initproc : Slot
  nextpid : Int
  kpgdir : PageDir
  cpuStacks : List Page

def State.setProc (s : State) (p : Slot) (proc : Proc) : State :=
  { s with proc := Function.update s.proc p proc }

def State.setFile (s : State) (f : FileId) (file : File) : State :=
  { s with file := Function.update s.file f file }

/-- Why a system call does not return: a panic, or an access through a pointer
that is no longer good (a process without pages, a pipe that has been freed).
`stray` is a write to memory whose use is not modelled. -/
inductive Fault where
  | panic (reason : Panic)
  | filedup | fileclose | initExiting
  | nullProc | freedPipe | stray
deriving DecidableEq, Repr

def State.run (s : State) (program : Vm α) : Except Fault (α × State) :=
  match program.run s.mem with
  | .ok (value, mem) => .ok (value, { s with mem })
  | .error reason => .error (.panic reason)

/-! ## Files and pipes -/

def filealloc (s : State) : Option (FileId × State) :=
  match (List.finRange NFILE).find? fun f => (s.file f).ref = 0 with
  | some f => some (f, s.setFile f { s.file f with ref := 1 })
  | none => none

def filedup (s : State) (f : FileId) : Except Fault State :=
  if (s.file f).ref < 1 then .error .filedup
  else .ok (s.setFile f { s.file f with ref := (s.file f).ref + 1 })

def Pipe.close (pipe : Pipe) (writable : Bool) : Pipe :=
  if writable then { pipe with writeopen := false } else { pipe with readopen := false }

def pipeclose (s : State) (p : Page) (writable : Bool) : Except Fault State :=
  match s.pipes.find? fun pipe => pipe.page = p with
  | none => .error .freedPipe
  | some pipe =>
    if (pipe.close writable).readopen = false ∧ (pipe.close writable).writeopen = false then do
      let ((), s) ← s.run (kfree p)
      .ok { s with pipes := s.pipes.filter fun pipe => pipe.page ≠ p }
    else
      .ok { s with
        pipes := s.pipes.map fun pipe => if pipe.page = p then pipe.close writable else pipe }

def fileclose (s : State) (f : FileId) : Except Fault State :=
  let ff := s.file f
  if ff.ref < 1 then .error .fileclose
  else if ff.ref - 1 > 0 then .ok (s.setFile f { ff with ref := ff.ref - 1 })
  else
    let s := s.setFile f { ff with ref := 0, type := .none }
    match ff.type with
    | .pipe => pipeclose s ff.pipe ff.writable
    | _ => .ok s

def fdalloc (proc : Proc) (f : FileId) : Option Proc :=
  match (List.finRange NOFILE).find? fun fd => proc.ofile fd = none with
  | some fd => some { proc with ofile := Function.update proc.ofile fd (some f) }
  | none => none

def pipealloc (s : State) : Except Fault (Option (FileId × FileId) × State) :=
  match filealloc s with
  | none => .ok (none, s)
  | some (f0, s) =>
    match filealloc s with
    | none => do
      let s ← fileclose s f0
      .ok (none, s)
    | some (f1, s) => do
      let (p, s) ← s.run kalloc
      match p with
      | none =>
        let s ← fileclose s f0
        let s ← fileclose s f1
        .ok (none, s)
      | some p =>
        let s := { s with pipes := ⟨p, true, true⟩ :: s.pipes }
        let s := s.setFile f0 { s.file f0 with type := .pipe, writable := false, pipe := p }
        let s := s.setFile f1 { s.file f1 with type := .pipe, writable := true, pipe := p }
        .ok (some (f0, f1), s)

def sysPipe (s : State) (p : Slot) : Except Fault State := do
  match ← pipealloc s with
  | (none, s) => .ok s
  | (some (rf, wf), s) =>
    match fdalloc (s.proc p) rf with
    | none =>
      let s ← fileclose s rf
      fileclose s wf
    | some proc =>
      match fdalloc proc wf with
      | none =>
        let s ← fileclose s rf
        fileclose s wf
      | some proc => .ok (s.setProc p proc)

def sysOpen (s : State) (p : Slot) (writable : Bool) : Except Fault State :=
  match filealloc s with
  | none => .ok s
  | some (f, s) =>
    match fdalloc (s.proc p) f with
    | none => fileclose s f
    | some proc => .ok ((s.setProc p proc).setFile f { s.file f with type := .inode, writable })

def sysDup (s : State) (p : Slot) (fd : Fin NOFILE) : Except Fault State :=
  match (s.proc p).ofile fd with
  | none => .ok s
  | some f =>
    match fdalloc (s.proc p) f with
    | none => .ok s
    | some proc => filedup (s.setProc p proc) f

def closeFd (s : State) (p : Slot) (fd : Fin NOFILE) : Except Fault State :=
  match (s.proc p).ofile fd with
  | none => .ok s
  | some f =>
    fileclose (s.setProc p { s.proc p with ofile := Function.update (s.proc p).ofile fd none }) f

/-! ## System-call histories -/

def newcounter (num : Int) : Vm (Option Counter) := do
  match ← kalloc with
  | some page => pure (some ⟨num, 1, page⟩)
  | none => pure none

def updatesyscallhistory (num : Int) : List Counter → Vm (List Counter)
  | [] => do
    match ← newcounter num with
    | some counter => pure [counter]
    | none => pure []
  | counter :: rest =>
    if counter.num = num then pure ({ counter with count := counter.count + 1 } :: rest)
    else do
      let rest ← updatesyscallhistory num rest
      pure (counter :: rest)

def freehistory (history : List Counter) : Vm Unit := forM history fun counter => kfree counter.page

/-! ## Processes -/

def State.findSlot (s : State) (test : Proc → Bool) : Option Slot :=
  (List.finRange NPROC).find? fun p => test (s.proc p)

def allocproc (s : State) : Except Fault (Option Slot × State) :=
  match s.findSlot fun proc => proc.state = .unused with
  | none => .ok (none, s)
  | some p => do
    let (kstack, s) ← { s with nextpid := s.nextpid + 1 }.run kalloc
    let proc := { s.proc p with pid := s.nextpid - 1, syscallhistory := [], kstack }
    match kstack with
    | none => .ok (none, s.setProc p { proc with state := .unused })
    | some _ => .ok (some p, s.setProc p { proc with state := .live })

def dupFiles (ofile : Fin NOFILE → Option FileId) : List (Fin NOFILE) → State → Except Fault State
  | [], s => .ok s
  | fd :: rest, s =>
    match ofile fd with
    | some f => do
      let s ← filedup s f
      dupFiles ofile rest s
    | none => dupFiles ofile rest s

def fork (map : List KMap) (s : State) (p : Slot) : Except Fault (Option Slot × State) := do
  match ← allocproc s with
  | (none, s) => .ok (none, s)
  | (some np, s) =>
    match (s.proc p).pgdir, (s.proc np).kstack with
    | some pgdir, some kstack =>
      let (child, s) ← s.run (copyuvm map pgdir (s.proc p).sz)
      match child with
      | none =>
        let ((), s) ← s.run (kfree kstack)
        .ok (none, s.setProc np { s.proc np with pgdir := none, kstack := none, state := .unused })
      | some child =>
        let s := s.setProc np { s.proc np with
          pgdir := some child
          sz := (s.proc p).sz
          parent := some p
          ofile := fun fd => ((s.proc p).ofile fd).or ((s.proc np).ofile fd) }
        let s ← dupFiles (s.proc p).ofile (List.finRange NOFILE) s
        .ok (some np, s)
    | _, _ => .error .nullProc

def growproc (s : State) (p : Slot) (n : Int) : Except Fault State :=
  match (s.proc p).pgdir with
  | none => .error .nullProc
  | some pgdir =>
    let sz := (s.proc p).sz
    let newsz := ((sz + n) % 2 ^ 32).toNat
    if n > 0 then do
      let ((pgdir, newsz), s) ← s.run (allocuvm pgdir sz newsz)
      if newsz = 0 then .ok (s.setProc p { s.proc p with pgdir := some pgdir })
      else .ok (s.setProc p { s.proc p with pgdir := some pgdir, sz := newsz })
    else if n < 0 then do
      let ((pgdir, newsz), s) ← s.run (deallocuvm pgdir sz newsz)
      if newsz = 0 then .ok (s.setProc p { s.proc p with pgdir := some pgdir })
      else .ok (s.setProc p { s.proc p with pgdir := some pgdir, sz := newsz })
    else .ok s

/-- What the copies of `copyout` to addresses without a page table do, and whether
`copyout` goes on. -/
abbrev Stray := Slot → State → List (Nat × Nat) → Except Fault (Bool × State)

def sysExec (stray : Stray) (map : List KMap) (s : State) (p : Slot) (file : Option ElfFile) (argv : List Nat) :
    Except Fault State := do
  match ← s.run (execImage map file) with
  | (none, s) => .ok s
  | (some (pgdir, sz), s) =>
    let copied := pushArguments pgdir argv 0 sz
    let (goesOn, s) ← if copied.strays = [] then .ok (true, s) else stray p s copied.strays
    if goesOn && copied.done then
      match (s.proc p).pgdir with
      | none => .error .nullProc
      | some oldpgdir =>
        let s := s.setProc p { s.proc p with pgdir := some pgdir, sz }
        let ((), s) ← s.run (freevm oldpgdir)
        .ok s
    else do
      let ((), s) ← s.run (freevm pgdir)
      .ok s

def kill (s : State) (pid : Int) : Except Fault State :=
  match s.findSlot fun proc => proc.pid = pid with
  | none => .ok s
  | some p => do
    let ((), s) ← s.run (freehistory (s.proc p).syscallhistory)
    .ok (s.setProc p { s.proc p with syscallhistory := [] })

def closeFiles (p : Slot) : List (Fin NOFILE) → State → Except Fault State
  | [], s => .ok s
  | fd :: rest, s => do
    let s ← closeFd s p fd
    closeFiles p rest s

def exit (s : State) (p : Slot) : Except Fault State :=
  if p = s.initproc then .error .initExiting
  else do
    let s ← closeFiles p (List.finRange NOFILE) s
    let ((), s) ← s.run (freehistory (s.proc p).syscallhistory)
    let s := s.setProc p { s.proc p with syscallhistory := [] }
    let s := { s with
      proc := fun q =>
        if (s.proc q).parent = some p then { s.proc q with parent := some s.initproc } else s.proc q }
    .ok (s.setProc p { s.proc p with state := .zombie })

/-- One scan of the table by `wait`; without a zombie child nothing changes. -/
def wait (s : State) (p : Slot) : Except Fault State :=
  match s.findSlot fun proc => proc.parent = some p ∧ proc.state = .zombie with
  | none => .ok s
  | some child =>
    match (s.proc child).kstack, (s.proc child).pgdir with
    | some kstack, some pgdir => do
      let ((), s) ← s.run (kfree kstack)
      let ((), s) ← s.run (freevm pgdir)
      .ok (s.setProc child
        { s.proc child with kstack := none, pid := 0, parent := none, state := .unused })
    | _, _ => .error .nullProc

def count (s : State) (p : Slot) (num : Int) : Except Fault State := do
  let (history, s) ← s.run (updatesyscallhistory num (s.proc p).syscallhistory)
  .ok (s.setProc p { s.proc p with syscallhistory := history })

/-! ## The machine -/

/-- A system call of the process in slot `p`, with the calls of `kalloc` that
fail in it.  `count` is the call of `updatesyscallhistory` by `syscall`. -/
inductive Call where
  | fork
  | exec (file : Option ElfFile) (argv : List Nat)
  | sbrk (n : Int)
  | pipe
  | opens (writable : Bool)
  | dup (fd : Fin NOFILE)
  | close (fd : Fin NOFILE)
  | kill (pid : Int)
  | exit
  | wait
  | count (num : Int)

structure Action where
  p : Slot
  call : Call
  denied : List Bool := []

def call (stray : Stray) (map : List KMap) (s : State) (p : Slot) : Call → Except Fault State
  | .fork => do
    let (_, s) ← fork map s p
    .ok s
  | .exec file argv => sysExec stray map s p file argv
  | .sbrk n => growproc s p n
  | .pipe => sysPipe s p
  | .opens writable => sysOpen s p writable
  | .dup fd => sysDup s p fd
  | .close fd => closeFd s p fd
  | .kill pid => kill s pid
  | .exit => exit s p
  | .wait => wait s p
  | .count num => count s p num

def act (stray : Stray) (map : List KMap) (s : State) (a : Action) : Except Fault State :=
  call stray map { s with mem := { s.mem with denied := a.denied } } a.p a.call

def noStray : Stray := fun _ _ _ => .error (.panic .nullPte)

/-- Without an `exec` that copies through the null pointer. -/
def step (map : List KMap) (s : State) (a : Action) : Option State :=
  if (s.proc a.p).state = .live then (act noStray map s a).toOption else none

/-! ## Copies through the null pointer -/

/-- An argument string can be made of this word: no byte of it is 0. -/
def InString (fill : Nat) : Bool := (List.range 4).all fun i => fill / 256 ^ i % 256 ≠ 0

def PageTable.overwrite (off fill : Nat) (table : PageTable) : PageTable :=
  { table with
    pte := fun j =>
      if off ≤ 4 * j then if fill &&& PTE_P = 0 then none else some ⟨PGROUNDDOWN fill, fill % PGSIZE - PTE_P⟩
      else table.pte j }

/-- The flags come behind the lock, the data and the two counters. -/
def Pipe.overwrite (off : Nat) (pipe : Pipe) : Pipe :=
  { pipe with readopen := pipe.readopen || off < 576, writeopen := pipe.writeopen || off < 580 }

/-- A copy of a string over a page, from `off` to its end.  Followed are copies to a page
table of the caller and to a pipe, behind its lock of 52 bytes. -/
def overwrite (p : Slot) (page : Page) (fill : Nat) (s : State) : Nat × Nat → Except Fault State
  | (off, n) =>
    if off + n ≠ PGSIZE then .error .stray
    else if s.pipes.any (·.page = page) ∧ 52 ≤ off then
      .ok { s with pipes := s.pipes.map fun pipe => if pipe.page = page then pipe.overwrite off else pipe }
    else
      match (s.proc p).pgdir with
      | none => .error .stray
      | some pgdir =>
        match (List.finRange NPDENTRIES).find? fun i =>
            i.val < NPDENTRIES / 2 && (pgdir.table i).any (·.page = page) with
        | none => .error .stray
        | some i =>
          let table := Function.update pgdir.table i ((pgdir.table i).map (PageTable.overwrite off fill))
          .ok (s.setProc p { s.proc p with pgdir := some { pgdir with table } })

/-- `uva2ka` and the copies, when the caller has `word` at address 0 and the arguments are
made of `fill`. -/
def throughNull (word fill : Nat) : Stray := fun p s strays =>
  if word &&& PTE_P = 0 ∨ word &&& PTE_U = 0 then .ok (false, s)
  else if InString fill then do
    let s ← strays.foldlM (overwrite p (PGROUNDDOWN word) fill) s
    .ok (true, s)
  else .error .stray

/-- A system call, and what the process has in its memory for `throughNull`. -/
structure Request where
  action : Action
  word : Nat := 0
  fill : Nat := 0

def advance (map : List KMap) (s : State) (r : Request) : Option State :=
  if (s.proc r.action.p).state = .live then (act (throughNull r.word r.fill) map s r.action).toOption else none

/-! ## Booting -/

def startothers : Nat → Vm (List Page)
  | 0 => pure []
  | ncpu + 1 => do
    match ← kalloc with
    | some stack =>
      let cpuStacks ← startothers ncpu
      pure (stack :: cpuStacks)
    | none => throw .nullPage

def userinit (map : List KMap) : Vm (Page × PageDir) := do
  match ← kalloc with
  | none => throw .nullPage
  | some kstack =>
    match ← setupkvm map with
    | none => throw .userinit
    | some pgdir =>
      match ← kalloc with
      | none => throw .nullPage
      | some mem =>
        let (pgdir, mapped) ← mappages pgdir 0 PGSIZE mem (PTE_W + PTE_U)
        if mapped = false then throw .nullPage else pure (kstack, pgdir)

/-- `main`: `kinit1` frees the pages of `low`, `kinit2` those of `high`. -/
def boot (map : List KMap) (ncpu : Nat) (kernelEnd : Nat) (low high : List Page) : Except Panic State := do
  let (kpgdir, mem) ← (setupkvm map).run { freelist := low, kernelEnd }
  match kpgdir with
  | none => .error .nullPage
  | some kpgdir =>
    let (cpuStacks, mem) ← (startothers (ncpu - 1)).run mem
    let ((kstack, pgdir), mem) ← (userinit map).run { mem with freelist := high ++ mem.freelist }
    .ok {
      mem, kpgdir, cpuStacks
      proc := Function.update (fun _ => {}) 0
        { state := .live, pid := 1, kstack := some kstack, pgdir := some pgdir, sz := PGSIZE }
      file := fun _ => {}
      pipes := []
      initproc := 0
      nextpid := 2 }

end Xv6.Memory
