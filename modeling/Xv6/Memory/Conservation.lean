import Xv6.Memory.Files

namespace Xv6.Memory

open Xv6.Data
open Function (update_self update_of_ne)

/-! # No page is lost and none is owned twice

Free and owned pages together are always the pages the allocator was given, and files
are counted as the descriptors say. -/

variable {s t : State} {p : Slot} {map : List KMap}

structure Proc.Ok (proc : Proc) : Prop where
  unused : proc.state = .unused → proc.kstack = none ∧ proc.syscallhistory = []
  used : proc.state ≠ .unused → proc.kstack.isSome ∧ proc.pgdir.isSome ∧ proc.sz ≤ KERNBASE
  zombie : proc.state = .zombie → proc.syscallhistory = []

structure Good (s : State) : Prop where
  procs : ∀ p, (s.proc p).Ok
  files : Files s.file s.pipes
  nodup : s.pages.Nodup
  counted : Counted s

structure Keeps (s t : State) : Prop where
  procs : ∀ p, (t.proc p).Ok
  files : Files t.file t.pipes
  pages : t.pages = s.pages

structure Kept (s t : State) : Prop extends Keeps s t where
  counted : Counted t

theorem Good.kept (good : Good s) : Kept s s := ⟨⟨good.procs, good.files, rfl⟩, good.counted⟩

theorem Good.of_kept (good : Good s) (kept : Kept s t) : Good t := by
  refine ⟨kept.procs, kept.files, ?_, kept.counted⟩
  rw [kept.pages]
  exact good.nodup

theorem Kept.trans {u : State} (first : Kept s t) (second : Kept t u) : Kept s u :=
  ⟨⟨second.procs, second.files, second.pages.trans first.pages⟩, second.counted⟩

theorem Keeps.fileStep {u : State} {change : FileId → Int} (keeps : Keeps s t) (step : FileStep t u change) :
    Keeps s u :=
  ⟨step.proc ▸ keeps.procs, step.files, step.pages.trans keeps.pages⟩

theorem Kept.fileStep {u : State} (kept : Kept s t) (step : FileStep t u 0) : Kept s u :=
  ⟨kept.toKeeps.fileStep step, kept.counted.tables (step.refs.trans (add_zero _)) step.proc⟩

theorem Good.tables (good : Good s) (same : SameTables s t) (pages : t.pages = s.pages) : Kept s t :=
  ⟨⟨same.proc ▸ good.procs, same.files good.files, pages⟩, good.counted.tables same.refs same.proc⟩

variable {proc : Proc} {held : Multiset Page}

theorem Proc.Ok.ofile (ok : proc.Ok) (ofile : Fin NOFILE → Option FileId) :
    ({ proc with ofile } : Proc).Ok := ⟨ok.unused, ok.used, ok.zombie⟩

theorem Proc.Ok.pages_unused (ok : proc.Ok) (unused : proc.state = .unused) : proc.pages = 0 := by
  obtain ⟨stack, history⟩ := ok.unused unused
  simp [Proc.pages, unused, stack, history]

theorem procs_setProc (procs : ∀ q, (s.proc q).Ok) (ok : proc.Ok) :
    ∀ q, ((s.setProc p proc).proc q).Ok := by
  intro q
  by_cases same : q = p
  · subst same
    simpa [State.setProc] using ok
  · simpa [State.setProc, same] using procs q

/-- A process that took the pages `kept` from the free list, for which it has
still to give back the pages `rest`. -/
theorem State.pages_setProc_owing {kept rest : Multiset Page}
    (moved : kept + t.pages = held + s.pages) (own : proc.pages + rest = (t.proc p).pages + kept) :
    (t.setProc p proc).pages + rest = held + s.pages := by
  have changed := t.pages_setProc p proc
  apply add_right_cancel (b := (t.proc p).pages)
  calc (t.setProc p proc).pages + rest + (t.proc p).pages
      = t.pages + proc.pages + rest := by rw [add_right_comm, changed]
    _ = t.pages + ((t.proc p).pages + kept) := by rw [add_assoc, own]
    _ = held + s.pages + (t.proc p).pages := by rw [← moved]; abel

theorem State.pages_setProc_moved {kept : Multiset Page}
    (moved : kept + t.pages = held + s.pages) (own : proc.pages + held = (t.proc p).pages + kept) :
    (t.setProc p proc).pages = s.pages := by
  have settled := State.pages_setProc_owing moved own
  rw [add_comm] at settled
  exact add_left_cancel settled

theorem Keeps.setProc (keeps : Keeps s t) (ok : proc.Ok) (same : proc.pages = (t.proc p).pages) :
    Keeps s (t.setProc p proc) :=
  ⟨procs_setProc keeps.procs ok, keeps.files, (State.pages_setProc_same same).trans keeps.pages⟩

section

variable {u : State} (ofile : Fin NOFILE → Option FileId) {change : FileId → Int}

/-- The slots of a process change, and the references of the files with them. -/
theorem Good.assign (good : Good s) (live : (s.proc p).state = .live)
    (step : FileStep (s.setProc p { s.proc p with ofile }) u change)
    (own : ({ s.proc p with ofile } : Proc).descriptors = (s.proc p).descriptors + change) : Kept s u :=
  ⟨(good.kept.toKeeps.setProc ((good.procs p).ofile ofile) rfl).fileStep step,
    good.counted.change step.refs step.proc live own⟩

theorem FileStep.setProc (step : FileStep s t change) :
    FileStep (s.setProc p { s.proc p with ofile }) (t.setProc p { t.proc p with ofile }) change := by
  have same (v : State) : (v.setProc p { v.proc p with ofile }).pages = v.pages := State.pages_setProc_same rfl
  refine ⟨step.files, ?_, by simp only [State.setProc, step.proc], step.refs⟩
  rw [same, same, step.pages]

end

theorem sysPipe_returns (good : Good s) (live : (s.proc p).state = .live) : Returns (Kept s) (sysPipe s p) := by
  apply (pipealloc_returns good.files good.nodup).bind
  rintro ⟨files, t⟩ ⟨step, differ⟩
  cases files with
  | none => exact good.kept.fileStep step
  | some pair =>
    have closes : Returns (Kept s) (fileclose t pair.1 >>= fun t => fileclose t pair.2) :=
      (FileStep.close_two good.files (differ _ _ rfl) step).weaken fun u closed => good.kept.fileStep closed
    dsimp only
    cases first : fdalloc (t.proc p) pair.1 with
    | none => exact closes
    | some proc =>
      dsimp only
      cases second : fdalloc proc pair.2 with
      | none => exact closes
      | some new =>
        obtain ⟨isFirst, one⟩ := fdalloc_spec first
        obtain ⟨isSecond, two⟩ := fdalloc_spec second
        rw [isFirst] at isSecond
        rw [isSecond]
        apply good.assign _ live (step.setProc _)
        rw [one, add_assoc, step.proc] at two
        exact two

theorem sysOpen_returns {writable : Bool} (good : Good s) (live : (s.proc p).state = .live) :
    Returns (Kept s) (sysOpen s p writable) := by
  unfold sysOpen
  cases found : filealloc s with
  | none => exact good.kept
  | some pair =>
    obtain ⟨f, t⟩ := pair
    obtain ⟨free, is, step⟩ := filealloc_spec good.files found
    dsimp only
    cases descriptor : fdalloc (t.proc p) f with
    | none => exact (step.close_one good.files).weaken fun u closed => good.kept.fileStep closed
    | some proc =>
      have typed : FileStep s (t.setFile f { t.file f with type := .inode, writable }) (Pi.single f 1) := by
        refine ⟨step.files.update ?_ ?_ ?_, step.pages, step.proc, ?_⟩
        · intro q w
          apply iff_of_false (not_endOf_inode rfl)
          apply not_endOf_none
          rw [is]
          simpa [State.setFile] using good.files.closed f free
        · simp [is, State.setFile]
        · simp [is, State.setFile]
        · rw [State.refs_setFile_same (by rfl), step.refs]
      obtain ⟨same, own⟩ := fdalloc_spec descriptor
      dsimp only
      rw [same]
      apply good.assign _ live (typed.setProc _)
      rw [step.proc] at own
      exact own

theorem sysDup_returns {fd : Fin NOFILE} (good : Good s) (live : (s.proc p).state = .live) :
    Returns (Kept s) (sysDup s p fd) := by
  unfold sysDup
  cases held : (s.proc p).ofile fd with
  | none => exact good.kept
  | some f =>
    dsimp only
    cases descriptor : fdalloc (s.proc p) f with
    | none => exact good.kept
    | some proc =>
      obtain ⟨same, own⟩ := fdalloc_spec descriptor
      dsimp only
      rw [same]
      have isOpen : 1 ≤ s.refs f := good.counted.open_of_descriptor held
      exact (filedup_returns (s := s.setProc p _) good.files isOpen).weaken fun u step => good.assign _ live step own

structure Closes (s : State) (p : Slot) (fds : List (Fin NOFILE)) (t : State) : Prop extends Kept s t where
  state : ∀ q, (t.proc q).state = (s.proc q).state
  none : ∀ fd, fd ∈ fds ∨ (s.proc p).ofile fd = none → (t.proc p).ofile fd = none

theorem closeFd_returns {fd : Fin NOFILE} (good : Good s) (live : (s.proc p).state = .live) :
    Returns (Closes s p [fd]) (closeFd s p fd) := by
  unfold closeFd
  cases held : (s.proc p).ofile fd with
  | none =>
    refine ⟨good.kept, fun _ => rfl, ?_⟩
    rintro other (is | null)
    · rw [List.mem_singleton.mp is]
      exact held
    · exact null
  | some f =>
    have isOpen : 1 ≤ s.refs f := good.counted.open_of_descriptor held
    apply (fileclose_returns (s := s.setProc p _) good.files isOpen).weaken
    intro t step
    refine ⟨good.assign _ live step ?_, ?_, ?_⟩
    · funext g
      have moved := (s.proc p).descriptors_update fd none g
      rw [held] at moved
      simp only [Option.some.injEq, reduceCtorEq, if_false, add_zero] at moved
      rw [Pi.add_apply, ← moved, Pi.single_apply]
      simp only [eq_comm]
      split <;> omega
    · intro q
      rw [step.proc]
      by_cases same : q = p <;> simp [same, State.setProc]
    · intro other which
      rw [step.proc]
      simp only [State.setProc, update_self]
      by_cases same : other = fd
      · simp [same]
      · rw [update_of_ne same]
        exact which.resolve_left (by simpa using same)

theorem closeFiles_returns {fds : List (Fin NOFILE)} (good : Good s) (live : (s.proc p).state = .live) :
    Returns (Closes s p fds) (closeFiles p fds s) := by
  induction fds generalizing s with
  | nil => exact ⟨good.kept, fun _ => rfl, by simp⟩
  | cons fd rest ih =>
    apply (closeFd_returns good live).bind
    intro t first
    apply (ih (good.of_kept first.toKept) ((first.state p).trans live)).weaken
    intro u later
    refine ⟨first.toKept.trans later.toKept, fun q => (later.state q).trans (first.state q), ?_⟩
    intro other which
    apply later.none
    rcases which with member | null
    · rcases List.mem_cons.mp member with rfl | member
      · exact .inr (first.none other (.inl List.mem_cons_self))
      · exact .inl member
    · exact .inr (first.none other (.inr null))

theorem dupFiles_returns {ofile : Fin NOFILE → Option FileId} {fds : List (Fin NOFILE)}
    (good : Files s.file s.pipes) (isOpen : ∀ fd f, ofile fd = some f → 1 ≤ s.refs f) :
    Returns (FileStep s · fun f => (fds.map fun fd => if ofile fd = some f then (1 : Int) else 0).sum)
      (dupFiles ofile fds s) := by
  induction fds generalizing s with
  | nil => exact .refl good
  | cons fd rest ih =>
    unfold dupFiles
    cases held : ofile fd with
    | none =>
      simp only [List.map_cons, held, reduceCtorEq, if_false, List.sum_cons, zero_add]
      exact ih good isOpen
    | some f =>
      apply (filedup_returns good (isOpen fd f held)).bind
      intro t step
      have still (other : Fin NOFILE) (g : FileId) (is : ofile other = some g) : 1 ≤ t.refs g := by
        have before := isOpen other g is
        rw [step.refs, Pi.add_apply, Pi.single_apply]
        split <;> omega
      apply (ih step.files still).weaken
      intro u later
      have both := step.trans later
      refine ⟨both.files, both.pages, both.proc, both.refs.trans ?_⟩
      congr 1
      funext g
      simp only [Pi.add_apply, Pi.single_apply, List.map_cons, List.sum_cons, held, Option.some.injEq, eq_comm]

theorem State.findSlot_spec {test : Proc → Bool} (found : s.findSlot test = some p) : test (s.proc p) = true :=
  List.find?_some (p := fun p => test (s.proc p)) found

/-- The pages of a directory that a reaped process has left in its slot. -/
def Proc.stale (proc : Proc) : Multiset Page := proc.pgdir.elim 0 PageDir.pages

/-- A slot that `allocproc` has taken.  The directory of its last process is
still there, so that `fork` must replace it before it counts as owned. -/
structure Allocated (s : State) (np : Slot) (t : State) : Prop where
  free : (s.proc np).state = .unused
  state : (t.proc np).state = .live
  kstack : (t.proc np).kstack.isSome
  history : (t.proc np).syscallhistory = []
  ofile : (t.proc np).ofile = (s.proc np).ofile
  others : ∀ q ≠ np, t.proc q = s.proc q
  file : t.file = s.file
  pipes : t.pipes = s.pipes
  pages : t.pages = s.pages + (t.proc np).stale

theorem Allocated.pages_slot {np : Slot} (allocated : Allocated s np t) {kstack : Page}
    (stack : (t.proc np).kstack = some kstack) : (t.proc np).pages = {kstack} + (t.proc np).stale := by
  simp [Proc.pages, Proc.stale, allocated.state, allocated.history, stack]

theorem allocproc_returns (good : Good s) : Returns (fun result =>
    match result.1 with
    | none => Kept s result.2
    | some np => Allocated s np result.2) (allocproc s) := by
  unfold allocproc
  cases found : s.findSlot fun proc => proc.state = .unused with
  | none => exact good.kept
  | some np =>
    have free : (s.proc np).state = .unused := by simpa using s.findSlot_spec found
    have empty := (good.procs np).pages_unused free
    apply (State.run_returns kalloc_conserves { s with nextpid := s.nextpid + 1 }).bind
    rintro ⟨kstack, t⟩ ⟨_, rfl, tables, moved⟩
    have procs : t.proc = s.proc := tables.proc
    have files : Files t.file t.pipes := tables.files good.files
    rw [← procs] at empty
    cases kstack with
    | none =>
      refine ⟨⟨procs_setProc (procs ▸ good.procs) ⟨?_, ?_, ?_⟩, files, ?_⟩,
        good.counted.setProc tables.refs (fun q _ => congrFun procs q) (by rw [procs]) (by simp [free])⟩
      · intro _
        exact ⟨rfl, rfl⟩
      · intro used
        exact absurd rfl used
      · intro _
        rfl
      · apply State.pages_setProc_moved moved
        rw [empty]
        simp [Proc.pages]
    | some kstack =>
      have changed := t.pages_setProc np { t.proc np with
        pid := t.nextpid - 1, syscallhistory := [], kstack := some kstack, state := .live }
      refine ⟨free, ?_, ?_, ?_, ?_, ?_, tables.file, tables.pipes, ?_⟩
      · simp [State.setProc]
      · simp [State.setProc]
      · simp [State.setProc]
      · simp [State.setProc, procs]
      · intro q different
        simp [State.setProc, different, procs]
      · rw [empty, add_zero] at changed
        simp only [Option.elim_some, zero_add] at moved
        calc _ = t.pages + ({kstack} + (t.proc np).stale) := by
                rw [changed]
                simp [Proc.pages, Proc.stale]
          _ = {kstack} + t.pages + (t.proc np).stale := by abel
          _ = s.pages + (t.proc np).stale := by rw [moved]; rfl
          _ = _ := by simp [State.setProc, Proc.stale]

theorem Allocated.settle {np : Slot} {u : State} {kept : Multiset Page} (good : Good s)
    (allocated : Allocated s np t) (tables : SameTables t u) (moved : kept + u.pages = held + t.pages)
    (ok : proc.Ok) (own : proc.pages + (u.proc np).stale + held = (u.proc np).pages + kept) :
    Keeps s (u.setProc np proc) := by
  refine ⟨?_, ?_, ?_⟩
  · intro q
    by_cases same : q = np
    · subst same
      simpa [State.setProc] using ok
    · simpa [State.setProc, same, tables.proc, allocated.others q same] using good.procs q
  · have files := good.files
    rw [← allocated.file, ← allocated.pipes] at files
    exact tables.files files
  · have owed : kept + u.pages = (u.proc np).stale + held + s.pages := by
      rw [moved, allocated.pages, tables.proc]
      abel
    apply State.pages_setProc_moved owed
    rw [← add_assoc]
    exact own

/-- A new process gets the descriptors of its parent. -/
theorem Good.inherit {u : State} {np : Slot} (good : Good s) (keeps : Keeps s (u.setProc np proc))
    (none : ∀ fd, (s.proc np).ofile fd = none) (refs : u.refs = s.refs) (others : ∀ q ≠ np, u.proc q = s.proc q)
    (live : proc.state = .live) (ofile : proc.ofile = (s.proc p).ofile) :
    Returns (Kept s) (dupFiles (s.proc p).ofile (List.finRange NOFILE) (u.setProc np proc)) := by
  have isOpen (fd : Fin NOFILE) (f : FileId) (held : (s.proc p).ofile fd = some f) : 1 ≤ (u.setProc np proc).refs f := by
    change 1 ≤ u.refs f
    rw [refs]
    exact good.counted.open_of_descriptor held
  apply (dupFiles_returns keeps.files isOpen).weaken
  intro v step
  have changed : v.refs = s.refs + proc.descriptors := by
    rw [step.refs, ← refs]
    congr 1
    funext f
    rw [Proc.descriptors, ofile, Fin.sum_univ_def]
  have procs : v.proc = Function.update s.proc np proc := by
    rw [step.proc]
    funext q
    by_cases same : q = np
    · simp [State.setProc, same]
    · simp [State.setProc, same, others q same]
  have before : (s.proc np).descriptors = 0 := by
    funext f
    simp [Proc.descriptors, none]
  exact ⟨keeps.fileStep step, good.counted.change changed procs live (by rw [before, zero_add])⟩

theorem fork_returns (kernel : KernelMap map) (good : Good s) (live : (s.proc p).state = .live) :
    Returns (fun result => Kept s result.2) (fork map s p) := by
  apply (allocproc_returns good).bind
  rintro ⟨slot, t⟩ allocated
  cases slot with
  | none => exact allocated
  | some np =>
    change Allocated s np t at allocated
    have different : p ≠ np := by
      rintro rfl
      have free := allocated.free
      simp [live] at free
    have parent : t.proc p = s.proc p := allocated.others p different
    obtain ⟨-, space, small⟩ := (good.procs p).used (by simp [live])
    rw [← parent] at space small
    obtain ⟨pgdir, isSpace⟩ := Option.isSome_iff_exists.mp space
    obtain ⟨kstack, isStack⟩ := Option.isSome_iff_exists.mp allocated.kstack
    simp only [isSpace, isStack]
    apply (State.run_returns (copyuvm_conserves kernel small) t).bind
    rintro ⟨child, u⟩ ⟨_, rfl, tables, moved⟩
    have slot : (u.proc np).pages = {kstack} + (u.proc np).stale := by
      rw [tables.proc]
      exact allocated.pages_slot isStack
    have history : (u.proc np).syscallhistory = [] := by rw [tables.proc, allocated.history]
    have none := good.counted.closed np (by simp [allocated.free])
    have ofile : (u.proc np).ofile = (s.proc np).ofile := by rw [tables.proc, allocated.ofile]
    have others (q : Slot) (other : q ≠ np) : u.proc q = s.proc q := by rw [tables.proc, allocated.others q other]
    have refs : u.refs = s.refs := by
      unfold State.refs
      rw [tables.file, allocated.file]
    cases child with
    | none =>
      apply (State.run_returns (kfree_conserves kstack) u).bind
      rintro ⟨_, v⟩ ⟨_, rfl, later, freed⟩
      have given : 0 + v.pages = {kstack} + t.pages := by
        rw [freed]
        exact congrArg _ (by simpa using moved)
      refine ⟨allocated.settle good (tables.trans later) given ⟨?_, ?_, ?_⟩ ?_,
        good.counted.setProc (later.refs.trans refs) ?_ ?_ ?_⟩
      · intro _
        exact ⟨rfl, by rw [later.proc, history]⟩
      · intro used
        exact absurd rfl used
      · rintro ⟨⟩
      · rw [later.proc, slot]
        simp [Proc.pages, history, add_comm]
      · rw [later.proc]
        exact others
      · rw [later.proc, ofile]
      · simp [allocated.free]
    | some child =>
      have given : (fun fd => ((u.proc p).ofile fd).or ((u.proc np).ofile fd)) = (s.proc p).ofile := by
        funext fd
        rw [others p different, ofile, none, Option.or_none]
      have kept (child : Proc) : ((u.setProc np child).proc p).ofile = (s.proc p).ofile := by
        simp [State.setProc, different, others p different]
      dsimp only
      rw [kept]
      refine (good.inherit (allocated.settle good tables moved ⟨?_, ?_, ?_⟩ ?_) none refs others ?_ given).bind
        fun v kept => kept
      · intro unused
        simp [tables.proc, allocated.state] at unused
      · intro _
        exact ⟨by simp [tables.proc, isStack], rfl, by simpa [tables.proc] using small⟩
      · intro _
        exact history
      · have isStack : (u.proc np).kstack = some kstack := by rw [tables.proc, isStack]
        have state : (u.proc np).state = .live := by rw [tables.proc, allocated.state]
        rw [slot]
        simp only [Proc.pages, isStack, state, history, reduceCtorEq, if_false, Option.elim_some, List.map_nil,
          Multiset.coe_nil, add_zero]
        abel
      · rw [tables.proc]
        exact allocated.state

theorem Good.exchange {kept : Multiset Page} (good : Good s) (tables : SameTables s t)
    (moved : kept + t.pages = held + s.pages) (ok : proc.Ok) (ofile : proc.ofile = (s.proc p).ofile)
    (stopped : proc.state ≠ .live → (s.proc p).state ≠ .live)
    (own : proc.pages + held = (s.proc p).pages + kept) : Kept s (t.setProc p proc) := by
  refine ⟨⟨procs_setProc (tables.proc ▸ good.procs) ok, tables.files good.files, ?_⟩,
    good.counted.setProc tables.refs (fun q _ => congrFun tables.proc q) ofile stopped⟩
  apply State.pages_setProc_moved moved
  rw [tables.proc]
  exact own

theorem Good.resize {pgdir new : PageDir} {sz : Nat} (good : Good s) (tables : SameTables s t)
    (live : (s.proc p).state = .live) (space : (s.proc p).pgdir = some pgdir)
    (moved : new.pages + t.pages = pgdir.pages + s.pages) (small : sz ≤ KERNBASE) :
    Kept s (t.setProc p { t.proc p with pgdir := some new, sz }) := by
  obtain ⟨stack, -, -⟩ := (good.procs p).used (by simp [live])
  have procs : t.proc = s.proc := tables.proc
  refine good.exchange tables moved ⟨?_, ?_, ?_⟩ (by rw [procs]) (by rw [procs]; exact id) ?_
  · intro unused
    simp [procs, live] at unused
  · intro _
    exact ⟨by rw [procs]; exact stack, rfl, small⟩
  · intro zombie
    simp [procs, live] at zombie
  · simp only [Proc.pages, procs, live, space, reduceCtorEq, if_false, Option.elim_some]
    abel

theorem growproc_returns {n : Int} (good : Good s) (live : (s.proc p).state = .live) :
    Returns (Kept s) (growproc s p n) := by
  obtain ⟨-, space, small⟩ := (good.procs p).used (by simp [live])
  obtain ⟨pgdir, isSpace⟩ := Option.isSome_iff_exists.mp space
  have resized {new : PageDir} {newsz : Nat} {t : State} (tables : SameTables s t) (below : newsz ≤ KERNBASE)
      (moved : new.pages + t.pages = pgdir.pages + s.pages) :
      Returns (Kept s) (if newsz = 0 then .ok (t.setProc p { t.proc p with pgdir := some new })
        else .ok (t.setProc p { t.proc p with pgdir := some new, sz := newsz })) := by
    split
    · exact good.resize tables live isSpace moved (tables.proc ▸ small)
    · exact good.resize tables live isSpace moved below
  unfold growproc
  simp only [isSpace]
  split
  · apply (State.run_returns (allocuvm_conserves.returns (allocuvm_size small)) s).bind
    rintro ⟨⟨new, newsz⟩, t⟩ ⟨_, ⟨rfl, below⟩, tables, moved⟩
    exact resized tables below moved
  · split
    · apply (State.run_returns ((deallocuvm_conserves small).returns deallocuvm_size) s).bind
      rintro ⟨⟨new, newsz⟩, t⟩ ⟨_, ⟨rfl, below⟩, tables, moved⟩
      exact resized tables (below.trans small) moved
    · exact good.kept

/-- The end of an `exec` whose arguments have been copied. -/
theorem Good.commit {new : PageDir} {sz : Nat} (good : Good s) (live : (s.proc p).state = .live)
    (tables : SameTables s t) (moved : new.pages + t.pages = 0 + s.pages) (below : sz ≤ KERNBASE) :
    Returns (Kept s) (match (t.proc p).pgdir with
      | none => .error .nullProc
      | some oldpgdir => do
        let ((), u) ← (t.setProc p { t.proc p with pgdir := some new, sz }).run (freevm oldpgdir)
        .ok u) := by
  obtain ⟨stack, space, -⟩ := (good.procs p).used (by simp [live])
  obtain ⟨old, isSpace⟩ := Option.isSome_iff_exists.mp space
  have procs : t.proc = s.proc := tables.proc
  have ok : ({ t.proc p with pgdir := some new, sz } : Proc).Ok := by
    refine ⟨?_, ?_, ?_⟩
    · intro unused
      simp [procs, live] at unused
    · intro _
      exact ⟨by rw [procs]; exact stack, rfl, below⟩
    · intro zombie
      simp [procs, live] at zombie
  have owing : (t.setProc p { t.proc p with pgdir := some new, sz }).pages + old.pages = 0 + s.pages := by
    apply State.pages_setProc_owing moved
    simp only [Proc.pages, procs, live, isSpace, reduceCtorEq, if_false, Option.elim_some]
    abel
  have allProcs := procs_setProc (p := p) (procs ▸ good.procs) ok
  have counted : Counted (t.setProc p { t.proc p with pgdir := some new, sz }) :=
    good.counted.setProc tables.refs (fun q _ => congrFun procs q) (by rw [procs]) (by rw [procs]; exact id)
  simp only [procs, isSpace] at owing allProcs counted ⊢
  apply (State.run_returns (freevm_conserves old) _).bind
  rintro ⟨_, u⟩ ⟨_, rfl, later, freed⟩
  refine ⟨⟨later.proc ▸ allProcs, later.files (tables.files good.files), ?_⟩, counted.tables later.refs later.proc⟩
  rw [zero_add, add_comm] at freed
  exact freed.trans (owing.trans (zero_add _))

theorem sysExec_returns {file : Option ElfFile} {argv : List Nat} (kernel : KernelMap map) (good : Good s)
    (live : (s.proc p).state = .live) : Returns (Kept s) (sysExec noStray map s p file argv) := by
  apply (State.run_returns ((execImage_conserves kernel).returns execImage_stack) s).bind
  rintro ⟨image, t⟩ ⟨_, ⟨rfl, stack⟩, tables, moved⟩
  cases image with
  | none => exact good.tables tables (by simpa using moved)
  | some image =>
    obtain ⟨new, sz⟩ := image
    dsimp only
    split
    · simp only [bind, Except.bind, Bool.true_and]
      split
      · exact good.commit live tables moved (stack _ rfl).upper
      · apply (State.run_returns (freevm_conserves new) t).bind
        rintro ⟨_, u⟩ ⟨_, rfl, later, freed⟩
        rw [zero_add] at freed
        exact good.tables (tables.trans later) (freed.trans (moved.trans (zero_add _)))
    · exact trivial

theorem freehistory_conserves (history : List Counter) :
    Conserves freePages (history.map Counter.page : Multiset Page) (freehistory history)
      fun _ kept => kept = 0 := by
  have each : (history.map fun counter => ({counter.page} : Multiset Page)).sum = history.map Counter.page := by
    induction history with
    | nil => rfl
    | cons counter rest ih =>
      rw [List.map_cons, List.sum_cons, ih, List.map_cons, ← Multiset.cons_coe, ← Multiset.singleton_add]
  rw [← each]
  exact .forM fun counter _ => kfree_conserves counter.page

theorem Proc.Ok.clearHistory (ok : proc.Ok) : ({ proc with syscallhistory := [] } : Proc).Ok :=
  ⟨fun unused => ⟨(ok.unused unused).1, rfl⟩, ok.used, fun _ => rfl⟩

theorem Good.freehistory (good : Good s) : Returns (fun result => SameTables s result.2 ∧
    Kept s (result.2.setProc p { result.2.proc p with syscallhistory := [] }))
    (s.run (freehistory (s.proc p).syscallhistory)) := by
  apply (State.run_returns (freehistory_conserves _) s).weaken
  rintro ⟨_, t⟩ ⟨_, rfl, tables, moved⟩
  refine ⟨tables, good.exchange tables moved (tables.proc ▸ (good.procs p).clearHistory) ?_ ?_ ?_⟩
  · rw [tables.proc]
  · rw [tables.proc]
    exact id
  · simp [Proc.pages, tables.proc]

theorem kill_returns {pid : Int} (good : Good s) : Returns (Kept s) (kill s pid) := by
  unfold kill
  cases s.findSlot fun proc => proc.pid = pid with
  | none => exact good.kept
  | some p =>
    apply good.freehistory.bind
    rintro ⟨_, t⟩ ⟨-, kept⟩
    exact kept

theorem Kept.reparent {parent : Option Slot} (kept : Kept s t) (test : Slot → Prop) [DecidablePred test] :
    Kept s { t with proc := fun q => if test q then { t.proc q with parent } else t.proc q } := by
  refine ⟨⟨?_, kept.files, Eq.trans ?_ kept.pages⟩, kept.counted.same rfl ?_ ?_⟩
  · intro q
    by_cases child : test q
    · simpa [child] using (⟨(kept.procs q).unused, (kept.procs q).used, (kept.procs q).zombie⟩ :
        ({ t.proc q with parent } : Proc).Ok)
    · simpa [child] using kept.procs q
  · have same (q : Slot) : (if test q then { t.proc q with parent } else t.proc q).pages = (t.proc q).pages := by
      split <;> rfl
    simp only [State.pages, same]
  · intro q
    dsimp only
    split <;> rfl
  · intro q stopped
    dsimp only at stopped
    split at stopped <;> exact .inl stopped

theorem Kept.toZombie (kept : Kept s t) (live : (t.proc p).state = .live)
    (history : (t.proc p).syscallhistory = []) (none : ∀ fd, (t.proc p).ofile fd = none) :
    Kept s (t.setProc p { t.proc p with state := .zombie }) := by
  refine ⟨kept.toKeeps.setProc ⟨?_, ?_, ?_⟩ ?_, kept.counted.same rfl ?_ ?_⟩
  · rintro ⟨⟩
  · intro _
    exact (kept.procs p).used (by simp [live])
  · intro _
    exact history
  · simp [Proc.pages, live]
  · intro q
    by_cases same : q = p <;> simp [State.setProc, same]
  · intro q stopped
    by_cases same : q = p
    · exact .inr (same ▸ none)
    · exact .inl (by simpa [State.setProc, same] using stopped)

theorem exit_returns (good : Good s) (live : (s.proc p).state = .live) : Returns (Kept s) (exit s p) := by
  unfold exit
  split
  · exact trivial
  · apply (closeFiles_returns good live).bind
    intro t closed
    apply (good.of_kept closed.toKept).freehistory.bind
    rintro ⟨_, u⟩ ⟨tables, freed⟩
    have state : (u.proc p).state = .live := by rw [tables.proc, closed.state p, live]
    have none (fd : Fin NOFILE) : (u.proc p).ofile fd = none := by
      rw [tables.proc]
      exact closed.none fd (.inl (List.mem_finRange fd))
    apply ((closed.toKept.trans freed).reparent fun q => _).toZombie
    all_goals
      simp only [State.setProc, update_self]
      split
    · exact state
    · exact state
    · rfl
    · rfl
    · exact none
    · exact none

theorem wait_returns (good : Good s) :
    Returns (fun t => Kept s t ∧ ∀ q, t.proc q = s.proc q ∨ (t.proc q).state = .unused) (wait s p) := by
  unfold wait
  cases found : s.findSlot fun proc => proc.parent = some p ∧ proc.state = .zombie with
  | none => exact ⟨good.kept, fun _ => .inl rfl⟩
  | some child =>
    have matched := s.findSlot_spec found
    simp only [decide_eq_true_eq] at matched
    obtain ⟨stack, space, -⟩ := (good.procs child).used (by simp [matched.2])
    obtain ⟨kstack, isStack⟩ := Option.isSome_iff_exists.mp stack
    obtain ⟨pgdir, isSpace⟩ := Option.isSome_iff_exists.mp space
    have history := (good.procs child).zombie matched.2
    simp only [isStack, isSpace]
    apply (State.run_returns (kfree_conserves kstack) s).bind
    rintro ⟨_, t⟩ ⟨_, rfl, tables, first⟩
    apply (State.run_returns (freevm_conserves pgdir) t).bind
    rintro ⟨_, u⟩ ⟨_, rfl, later, second⟩
    have procs : u.proc = s.proc := later.proc.trans tables.proc
    have given : 0 + u.pages = pgdir.pages + {kstack} + s.pages := by
      rw [second, add_assoc, ← first, zero_add]
    refine ⟨good.exchange (tables.trans later) given ⟨?_, ?_, ?_⟩ (by rw [procs]) (by simp [matched.2]) ?_, ?_⟩
    · intro _
      exact ⟨rfl, by rw [procs, history]⟩
    · intro used
      exact absurd rfl used
    · rintro ⟨⟩
    · simp [Proc.pages, procs, isStack, isSpace, history, matched.2, add_comm]
    · intro q
      by_cases same : q = child
      · subst same
        simp [State.setProc]
      · simp [State.setProc, same, procs]

theorem newcounter_conserves {num : Int} : Conserves freePages 0 (newcounter num) fun counter kept =>
    kept = counter.elim 0 fun counter => {counter.page} := by
  refine kalloc_conserves.bind ?_
  rintro page _ rfl
  cases page with
  | none | some page => exact .pure rfl

theorem updatesyscallhistory_conserves {num : Int} (history : List Counter) :
    Conserves freePages (history.map Counter.page : Multiset Page) (updatesyscallhistory num history)
      fun result kept => kept = (result.map Counter.page : Multiset Page) := by
  induction history with
  | nil =>
    refine newcounter_conserves.bind ?_
    rintro counter _ rfl
    cases counter with
    | none | some counter => exact .pure rfl
  | cons counter rest ih =>
    unfold updatesyscallhistory
    split
    · exact .pure rfl
    · have framed := ih.frame {counter.page}
      rw [List.map_cons, ← Multiset.cons_coe, ← Multiset.singleton_add, add_comm]
      refine framed.bind ?_
      rintro result _ ⟨_, rfl, rfl⟩
      refine .pure ?_
      rw [List.map_cons, ← Multiset.cons_coe, ← Multiset.singleton_add, add_comm]

theorem count_returns {num : Int} (good : Good s) (live : (s.proc p).state = .live) :
    Returns (Kept s) (count s p num) := by
  apply (State.run_returns (updatesyscallhistory_conserves _) s).bind
  rintro ⟨history, t⟩ ⟨_, rfl, tables, moved⟩
  refine good.exchange tables moved ⟨?_, ?_, ?_⟩ (by rw [tables.proc]) (by rw [tables.proc]; exact id) ?_
  · intro unused
    simp [tables.proc, live] at unused
  · rw [tables.proc]
    exact (good.procs p).used
  · intro zombie
    simp [tables.proc, live] at zombie
  · simp only [Proc.pages, tables.proc]
    abel

theorem call_returns {c : Call} (kernel : KernelMap map) (good : Good s) (live : (s.proc p).state = .live) :
    Returns (Kept s) (call noStray map s p c) := by
  cases c with
  | fork => exact (fork_returns kernel good live).bind fun _ kept => kept
  | exec file argv => exact sysExec_returns kernel good live
  | sbrk n => exact growproc_returns good live
  | pipe => exact sysPipe_returns good live
  | opens writable => exact sysOpen_returns good live
  | dup fd => exact sysDup_returns good live
  | close fd => exact (closeFd_returns good live).weaken fun t closes => closes.toKept
  | kill pid => exact kill_returns good
  | exit => exact exit_returns good live
  | wait => exact (wait_returns good).weaken fun t waited => waited.1
  | count num => exact count_returns good live

theorem Good.denying (good : Good s) (denied : List Bool) : Good { s with mem := { s.mem with denied } } :=
  ⟨good.procs, good.files, good.nodup, ⟨good.counted.refs, good.counted.closed⟩⟩

theorem act_returns {a : Action} (kernel : KernelMap map) (good : Good s) (live : (s.proc a.p).state = .live) :
    Returns (Kept s) (act noStray map s a) := by
  apply (call_returns kernel (good.denying a.denied) live).weaken
  intro t kept
  exact ⟨⟨kept.procs, kept.files, kept.pages⟩, kept.counted⟩

theorem step_act {a : Action} (taken : step map s a = some t) :
    (s.proc a.p).state = .live ∧ act noStray map s a = .ok t := by
  unfold step at taken
  split at taken
  · next live => exact ⟨live, ok_of_toOption taken⟩
  · cases taken

theorem step_kept {a : Action} (kernel : KernelMap map) (good : Good s) (taken : step map s a = some t) :
    Kept s t := by
  obtain ⟨live, done⟩ := step_act taken
  exact (act_returns kernel good live).of_ok done

theorem step_wait {denied : List Bool} (good : Good s) (taken : step map s ⟨p, .wait, denied⟩ = some t)
    (q : Slot) : t.proc q = s.proc q ∨ (t.proc q).state = .unused := by
  obtain ⟨-, done⟩ := step_act taken
  exact ((wait_returns (good.denying denied)).of_ok done).2 q

end Xv6.Memory
