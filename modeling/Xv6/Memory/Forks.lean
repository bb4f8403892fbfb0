import Xv6.Data.CircularBuffer
import Xv6.Memory.Places

namespace Xv6.Memory

open Xv6.Data

/-! # Fork and the scheduling queues

The kernel of `Kernel.lean` with the queues, the current directories and the reference
counts of the inode cache.  A failed `fork` gives back its pages and its slot; the
queue entry that `allocproc` made for the slot stays.
-/

abbrev NINODE : Nat := 50

local instance fourQueues : NeZero 4 := ⟨by decide⟩

abbrev QUEUE_DEFAULT : Fin 4 := 0

structure System where
  kernel : State
  schedulingQueues : Fin 4 → CircularBuffer (Option Slot)
  cwd : Slot → Option (Fin NINODE)
  iref : Fin NINODE → Int

namespace System

/-- The queues after the locked part of `allocproc`: the slot is entered before
its kernel stack is allocated. -/
def published (s : System) : Fin 4 → CircularBuffer (Option Slot) :=
  match s.kernel.findSlot fun proc => proc.state = .unused with
  | none => s.schedulingQueues
  | some np => Function.update s.schedulingQueues QUEUE_DEFAULT
      ((s.schedulingQueues QUEUE_DEFAULT).push NPROC (some np))

def copyCwd (s : System) (p np : Slot) : Except Fault System :=
  match s.cwd p with
  | none => .error .nullProc
  | some ip => .ok { s with
      cwd := Function.update s.cwd np (some ip)
      iref := Function.update s.iref ip (s.iref ip + 1) }

/-- The queue entry is made by `allocproc`, the directory copied last. -/
def fork (map : List KMap) (s : System) (p : Slot) : Except Fault (Option Int × System) := do
  let (np, kernel) ← Memory.fork map s.kernel p
  let s := { s with kernel, schedulingQueues := s.published }
  match np with
  | none => .ok (none, s)
  | some np =>
    let s ← s.copyCwd p np
    .ok (some (s.kernel.proc np).pid, s)

def deny (s : System) (denied : List Bool) : System :=
  { s with kernel := { s.kernel with mem := { s.kernel.mem with denied } } }

end System

variable {map : List KMap} {p np : Slot}

/-- The entries in use, the open files and the free pages are the same. -/
structure Undisturbed (s t : State) : Prop where
  entries : ∀ q, (s.proc q).state ≠ .unused → t.proc q = s.proc q
  unused : ∀ q, (s.proc q).state = .unused → (t.proc q).state = .unused
  file : t.file = s.file
  pipes : t.pipes = s.pipes
  free : freePages t.mem = freePages s.mem

theorem Undisturbed.refl (s : State) : Undisturbed s s where
  entries := fun _ _ => rfl
  unused := fun _ unused => unused
  file := rfl
  pipes := rfl
  free := rfl

/-- The state `t` differs from `s` in the unused slot `np`, and has the pages of
`held` less on its free list. -/
structure Drawn (s t : State) (np : Slot) (held : Multiset Page) : Prop where
  slot : (s.proc np).state = .unused
  others : ∀ q, q ≠ np → t.proc q = s.proc q
  file : t.file = s.file
  pipes : t.pipes = s.pipes
  free : held + freePages t.mem = freePages s.mem

section

variable {s t u : State} {held kept : Multiset Page}

theorem Drawn.run {α : Type} {program : Vm α} {post : α → Multiset Page → Prop} (drawn : Drawn s t np held)
    (conserves : Conserves freePages held program post) :
    Ends (fun _ => True) (fun (value, u) => ∃ kept, post value kept ∧ u.proc = t.proc ∧ Drawn s u np kept)
      (t.run program) := by
  unfold State.run
  cases done : program.run t.mem with
  | error reason => exact trivial
  | ok result =>
    obtain ⟨value, mem⟩ := result
    obtain ⟨kept, keeps, same⟩ := conserves t.mem value mem done
    exact ⟨kept, keeps, rfl, drawn.slot, drawn.others, drawn.file, drawn.pipes, same.trans drawn.free⟩

theorem Drawn.setProc (drawn : Drawn s t np held) (proc : Proc) : Drawn s (t.setProc np proc) np held where
  slot := drawn.slot
  others := by
    intro q different
    simpa [State.setProc, different] using drawn.others q different
  file := drawn.file
  pipes := drawn.pipes
  free := drawn.free

theorem Drawn.undisturbed (drawn : Drawn s t np 0) (unused : (t.proc np).state = .unused) : Undisturbed s t where
  entries := by
    intro q used
    apply drawn.others q
    intro same
    exact used (same ▸ drawn.slot)
  unused := by
    intro q free
    by_cases same : q = np
    · exact same ▸ unused
    · rw [drawn.others q same]
      exact free
  file := drawn.file
  pipes := drawn.pipes
  free := by simpa using drawn.free

theorem allocproc_ends (s : State) : Ends (fun _ => True) (fun (np, t) =>
    match np with
    | none => Undisturbed s t
    | some np => ∀ kstack, (t.proc np).kstack = some kstack → Drawn s t np {kstack}) (allocproc s) := by
  unfold allocproc
  cases found : s.findSlot fun proc => proc.state = .unused with
  | none => exact Undisturbed.refl s
  | some np =>
    have slot : (s.proc np).state = .unused := by simpa using s.findSlot_spec found
    have start : Drawn s { s with nextpid := s.nextpid + 1 } np 0 :=
      ⟨slot, fun _ _ => rfl, rfl, rfl, zero_add _⟩
    apply (start.run kalloc_conserves).bind
    intro ⟨kstack, t⟩ ⟨kept, isKept, _, drawn⟩
    subst isKept
    cases kstack with
    | none =>
      apply (drawn.setProc _).undisturbed
      simp [State.setProc]
    | some kstack =>
      intro other is
      have same : kstack = other := by simpa [State.setProc] using is
      subst same
      exact drawn.setProc _

theorem fork_ends (kernel : KernelMap map) (below : (s.proc p).sz ≤ KERNBASE) (used : (s.proc p).state ≠ .unused) :
    Ends (fun _ => True) (fun (np, t) => np = none → Undisturbed s t) (fork map s p) := by
  apply (allocproc_ends s).bind
  intro ⟨np, t⟩ holds
  cases np with
  | none => exact fun _ => holds
  | some np =>
    cases space : (t.proc p).pgdir with
    | none =>
      simp only [space]
      exact trivial
    | some pgdir =>
      cases stack : (t.proc np).kstack with
      | none =>
        simp only [space, stack]
        exact trivial
      | some kstack =>
        have drawn := holds kstack stack
        have parent : t.proc p = s.proc p := by
          apply drawn.others
          intro same
          exact used (same ▸ drawn.slot)
        have small : (t.proc p).sz ≤ KERNBASE := parent ▸ below
        have copies : Conserves freePages (0 + {kstack}) (copyuvm map pgdir (t.proc p).sz) _ :=
          (copyuvm_conserves kernel small).frame {kstack}
        rw [zero_add] at copies
        simp only [space, stack]
        apply (drawn.run copies).bind
        intro ⟨child, k⟩ ⟨kept, isKept, procs, copied⟩
        cases child with
        | some child =>
          -- From here on `fork` succeeds, if it returns at all.
          apply Ends.trivial.bind
          exact nofun
        | none =>
          obtain ⟨own, isOwn, isKept⟩ := isKept
          subst isOwn isKept
          rw [Option.elim_none, zero_add] at copied
          apply (copied.run (kfree_conserves kstack)).bind
          intro ⟨_, k'⟩ ⟨kept, isKept, procs', freed⟩ _
          subst isKept
          apply (freed.setProc _).undisturbed
          simp [State.setProc]

theorem fork_out_of_pages (found : s.findSlot (fun proc => proc.state = .unused) = some np)
    (empty : s.mem.freelist = []) : ∃ t, fork map s p = .ok (none, t) ∧ (t.proc np).state = .unused := by
  have fails : kalloc.run s.mem = .ok (none, { s.mem with denied := s.mem.denied.tail }) := by
    simp [kalloc, StateT.run, empty]
  simp only [fork, allocproc, found, State.run, fails, bind, Except.bind]
  exact ⟨_, rfl, by simp [State.setProc]⟩

end

namespace System

variable {s t : System}

/-- A `fork` that has failed, but for the queues. -/
structure Undone (s t : System) : Prop extends Undisturbed s.kernel t.kernel where
  cwd : t.cwd = s.cwd
  iref : t.iref = s.iref

theorem fork_undone (kernel : KernelMap map) (below : (s.kernel.proc p).sz ≤ KERNBASE)
    (used : (s.kernel.proc p).state ≠ .unused) :
    Ends (fun _ => True) (fun (pid, t) => pid = none → Undone s t ∧ t.schedulingQueues = s.published)
      (s.fork map p) := by
  apply (Memory.fork_ends kernel below used).bind
  intro ⟨np, k⟩ holds
  cases np with
  | none => exact fun _ => ⟨⟨holds rfl, rfl, rfl⟩, rfl⟩
  | some np =>
    apply Ends.trivial.bind
    exact nofun

theorem published_eq : s.published = s.schedulingQueues ↔ ∀ q, (s.kernel.proc q).state ≠ .unused := by
  unfold published
  cases found : s.kernel.findSlot fun proc => proc.state = .unused with
  | none =>
    refine ⟨fun _ q => ?_, fun _ => rfl⟩
    simpa using List.find?_eq_none.mp found q (List.mem_finRange q)
  | some np =>
    have slot : (s.kernel.proc np).state = .unused := by simpa using s.kernel.findSlot_spec found
    constructor
    · intro same
      have size := congrArg (fun queues => (queues QUEUE_DEFAULT).size) same
      simp at size
    · intro full
      exact absurd slot (full np)

theorem fork_out_of_pages (found : s.kernel.findSlot (fun proc => proc.state = .unused) = some np)
    (empty : s.kernel.mem.freelist = []) :
    ∃ t, s.fork map p = .ok (none, t) ∧ (t.kernel.proc np).state = .unused ∧ t.schedulingQueues = s.published := by
  obtain ⟨kernel, gives, unused⟩ : ∃ k, Memory.fork map s.kernel p = .ok (none, k) ∧ _ :=
    Memory.fork_out_of_pages found empty
  refine ⟨{ s with kernel, schedulingQueues := s.published }, ?_, unused, rfl⟩
  simp only [fork, gives, bind, Except.bind]

def fivePages : List Page := (List.range 5).map fun i => (i + 1) * PGSIZE

theorem boot_runs_out : (boot [] 1 PGSIZE fivePages []).toOption.map (fun s =>
    (s.mem.freelist, (s.proc 0).state, s.findSlot fun proc => proc.state = .unused)) =
      some ([], .live, some 1) := by
  decide +kernel

theorem booted_fivePages : ∃ s₀, boot [] 1 PGSIZE fivePages [] = .ok s₀ ∧ s₀.mem.freelist = [] ∧
    (s₀.proc 0).state = .live ∧ s₀.findSlot (fun proc => proc.state = .unused) = some 1 := by
  obtain ⟨s₀, found, is⟩ := Option.map_eq_some_iff.mp boot_runs_out
  simp only [Prod.mk.injEq] at is
  exact ⟨s₀, ok_of_toOption found, is⟩

/-- A process that forks in vain leaves the table, the files, the inodes and the
free pages as they were; and the queues too exactly when there was no slot. -/
theorem failed_fork_undone {ncpu kernelEnd : Nat} {low high : List Page} {s₀ : State} {actions : List Action}
    {denied : List Bool} (kernel : KernelMap map) (distinct : (low ++ high).Nodup)
    (booted : boot map ncpu kernelEnd low high = .ok s₀)
    (ran : Data.exec (step map) s₀ actions = some s.kernel) (live : (s.kernel.proc p).state = .live)
    (failed : (s.deny denied).fork map p = .ok (none, t)) :
    Undone s t ∧ (t.schedulingQueues = s.schedulingQueues ↔ ∀ q, (s.kernel.proc q).state ≠ .unused) := by
  have good := (run_good kernel distinct booted ran).1
  have used : (s.kernel.proc p).state ≠ .unused := by simp [live]
  obtain ⟨-, -, below⟩ := (good.procs p).used used
  obtain ⟨undone, queues⟩ := (fork_undone (s := s.deny denied) kernel below used).of_ok failed rfl
  refine ⟨⟨⟨undone.entries, undone.unused, undone.file, undone.pipes, undone.free⟩, undone.cwd, undone.iref⟩, ?_⟩
  rw [queues]
  exact published_eq

theorem failed_fork_undone_fivePages : ∃ s t : System, s.fork [] 0 = .ok (none, t) ∧ Undone s t ∧
    (t.schedulingQueues = s.schedulingQueues ↔ ∀ q, (s.kernel.proc q).state ≠ .unused) := by
  obtain ⟨s₀, booted, empty, live, slot⟩ := booted_fivePages
  let s : System := {
    kernel := s₀
    schedulingQueues := fun _ => ⟨0, NPROC - 1, 0, fun _ => none⟩
    cwd := fun _ => some 0
    iref := fun _ => 1 }
  obtain ⟨t, failed, -, -⟩ : ∃ t, s.fork [] 0 = .ok (none, t) ∧ (t.kernel.proc 1).state = .unused ∧
    t.schedulingQueues = s.published := fork_out_of_pages slot empty
  have distinct : (fivePages ++ []).Nodup := by decide
  have ran : Data.exec (step []) s₀ [] = some s.kernel := rfl
  have same : s.deny s.kernel.mem.denied = s := rfl
  exact ⟨s, t, failed, failed_fork_undone (by simp [KernelMap]) distinct booted ran live (same ▸ failed)⟩

/-- The last page is drawn when init forks: the slot it was offered is unused
again, and its entry in the queue stays. -/
theorem failed_fork_leaves_entry : ∃ s₀ np, boot [] 1 PGSIZE fivePages [] = .ok s₀ ∧
    ∀ s : System, s.kernel = s₀ → ∃ t, s.fork [] 0 = .ok (none, t) ∧ (t.kernel.proc np).state = .unused ∧
      t.schedulingQueues QUEUE_DEFAULT = (s.schedulingQueues QUEUE_DEFAULT).push NPROC (some np) ∧
      t.schedulingQueues ≠ s.schedulingQueues := by
  obtain ⟨s₀, booted, empty, -, slot⟩ := booted_fivePages
  refine ⟨s₀, 1, booted, ?_⟩
  intro s isKernel
  subst isKernel
  obtain ⟨t, failed, unused, queues⟩ := s.fork_out_of_pages slot empty
  refine ⟨t, failed, unused, ?_, ?_⟩
  · simp [queues, published, slot]
  · rw [queues]
    intro same
    exact published_eq.mp same 1 (by simpa using s.kernel.findSlot_spec slot)

end System

end Xv6.Memory
