import Xv6.Data.Outcome
import Xv6.Memory.Kernel
import Xv6.Memory.Spaces

namespace Xv6.Memory

open Xv6.Data
open Function (update update_self update_of_ne)

/-! # Pipes and open files

An end of a pipe is open exactly while one file refers to it, and a pipe exists
exactly while it has an open end.
-/

variable {s t : State} {f g : FileId} {p : Page} {w : Bool} {file : FileId → File} {pipes : List Pipe}

def Proc.pages (proc : Proc) : Multiset Page :=
  proc.kstack.elim 0 ({·}) + (if proc.state = .unused then 0 else proc.pgdir.elim 0 PageDir.pages) +
    (proc.syscallhistory.map Counter.page : Multiset Page)

/-- Every page on the free list, and every page that is owned, as often as it is. -/
def State.pages (s : State) : Multiset Page :=
  freePages s.mem + (s.kpgdir.pages + s.cpuStacks) + (∑ p, (s.proc p).pages) +
    (s.pipes.map Pipe.page : Multiset Page)

theorem State.pages_setProc (slot : Slot) (proc : Proc) :
    (s.setProc slot proc).pages + (s.proc slot).pages = s.pages + proc.pages := by
  have moved := sum_update (fun _ => Proc.pages) s.proc slot proc
  simp only [State.pages, State.setProc]
  rw [add_right_comm, add_assoc (_ + _) (Finset.sum _ _), moved]
  abel

theorem State.pages_setProc_same {slot : Slot} {proc : Proc} (same : proc.pages = (s.proc slot).pages) :
    (s.setProc slot proc).pages = s.pages := by
  have moved := s.pages_setProc slot proc
  rw [same] at moved
  exact add_right_cancel moved

/-- The faults that are not excluded: memory runs out where it must not, or `init` exits. -/
def Fault.Possible : Fault → Prop
  | .panic _ | .initExiting => True
  | _ => False

abbrev Returns {α : Type} (post : α → Prop) (result : Except Fault α) : Prop := Ends Fault.Possible post result

def State.refs (s : State) (f : FileId) : Int := (s.file f).ref

theorem State.refs_setFile (s : State) (f : FileId) (file : File) :
    (s.setFile f file).refs = s.refs + Pi.single f (file.ref - s.refs f) := by
  funext g
  simp only [State.refs, State.setFile, Pi.add_apply]
  by_cases same : g = f
  · subst same
    simp
  · simp [same]

theorem State.refs_setFile_same {file : File} (same : file.ref = s.refs f) : (s.setFile f file).refs = s.refs := by
  rw [State.refs_setFile, same, sub_self, Pi.single_zero, add_zero]

structure SameTables (s t : State) : Prop where
  proc : t.proc = s.proc
  file : t.file = s.file
  pipes : t.pipes = s.pipes
  initproc : t.initproc = s.initproc

theorem SameTables.trans {u : State} (first : SameTables s t) (second : SameTables t u) : SameTables s u :=
  ⟨second.proc.trans first.proc, second.file.trans first.file, second.pipes.trans first.pipes,
    second.initproc.trans first.initproc⟩

theorem SameTables.refs (tables : SameTables s t) : t.refs = s.refs := by
  unfold State.refs
  rw [tables.file]

theorem State.run_returns {α : Type} {program : Vm α} {held : Multiset Page}
    {post : α → Multiset Page → Prop} (conserves : Conserves freePages held program post) (s : State) :
    Returns (fun (value, t) => ∃ kept, post value kept ∧ SameTables s t ∧ kept + t.pages = held + s.pages)
      (s.run program) := by
  unfold State.run
  split
  · rename_i value mem done
    obtain ⟨kept, keeps, same⟩ := conserves s.mem value mem done
    refine ⟨kept, keeps, ⟨rfl, rfl, rfl, rfl⟩, ?_⟩
    simp only [State.pages, ← add_assoc, same]
  · exact trivial

structure File.EndOf (file : File) (p : Page) (w : Bool) : Prop where
  type : file.type = .pipe
  pipe : file.pipe = p
  writable : file.writable = w

def Pipe.isOpen (pipe : Pipe) (w : Bool) : Bool := if w then pipe.writeopen else pipe.readopen

structure Files (file : FileId → File) (pipes : List Pipe) : Prop where
  ref : ∀ f, 0 ≤ (file f).ref
  closed : ∀ f, (file f).ref = 0 → (file f).type = .none
  pages : (pipes.map Pipe.page).Nodup
  ends : ∀ pipe ∈ pipes, ∀ w, pipe.isOpen w = true ↔ ∃ f, (file f).EndOf pipe.page w
  single : ∀ f g p w, (file f).EndOf p w → (file g).EndOf p w → f = g
  live : ∀ f p w, (file f).EndOf p w → ∃ pipe ∈ pipes, pipe.page = p
  held : ∀ pipe ∈ pipes, ∃ w, pipe.isOpen w = true

theorem SameTables.files (tables : SameTables s t) (good : Files s.file s.pipes) : Files t.file t.pipes := by
  rw [tables.file, tables.pipes]
  exact good

theorem Files.update (good : Files file pipes) {new : File} (same : ∀ p w, new.EndOf p w ↔ (file f).EndOf p w)
    (ref : 0 ≤ new.ref) (closed : new.ref = 0 → new.type = .none) :
    Files (Function.update file f new) pipes := by
  have ends (g : FileId) (p : Page) (w : Bool) :
      (Function.update file f new g).EndOf p w ↔ (file g).EndOf p w := by
    by_cases here : g = f
    · subst here
      simpa using same p w
    · simp [here]
  refine { ref := ?_, closed := ?_, pages := good.pages, ends := ?_, single := ?_, live := ?_,
           held := good.held }
  · intro g
    by_cases here : g = f
    · subst here
      simpa using ref
    · simpa [here] using good.ref g
  · intro g zero
    by_cases here : g = f
    · subst here
      rw [update_self] at zero ⊢
      exact closed zero
    · rw [update_of_ne here] at zero ⊢
      exact good.closed g zero
  · intro pipe member w
    simp only [ends]
    exact good.ends pipe member w
  · intro g h p w first second
    exact good.single g h p w ((ends g p w).mp first) ((ends h p w).mp second)
  · intro g p w isEnd
    exact good.live g p w ((ends g p w).mp isEnd)

theorem not_endOf_none {new : File} (none : new.type = .none) : ¬ new.EndOf p w := by
  intro isEnd
  have := isEnd.type
  simp [none] at this

theorem not_endOf_inode {new : File} (inode : new.type = .inode) : ¬ new.EndOf p w := by
  intro isEnd
  have := isEnd.type
  simp [inode] at this

theorem Files.clear (good : Files file pipes) (other : ∀ p w, ¬ (file f).EndOf p w) :
    Files (Function.update file f { file f with ref := 0, type := .none }) pipes :=
  good.update (fun p w => iff_of_false (not_endOf_none rfl) (other p w)) le_rfl fun _ => rfl

@[simp] theorem Pipe.close_page (pipe : Pipe) (w : Bool) : (pipe.close w).page = pipe.page := by
  cases w <;> rfl

theorem Pipe.isOpen_close (pipe : Pipe) (w v : Bool) :
    (pipe.close w).isOpen v = true ↔ v ≠ w ∧ pipe.isOpen v = true := by
  cases w <;> cases v <;> simp [Pipe.close, Pipe.isOpen]

theorem Files.page_injective (good : Files file pipes) {first second : Pipe} (left : first ∈ pipes)
    (right : second ∈ pipes) (same : first.page = second.page) : first = second :=
  List.inj_on_of_nodup_map good.pages left right same

theorem endOf_cleared {q : Page} {v : Bool} :
    (update file f { file f with ref := 0, type := .none } g).EndOf q v ↔
      g ≠ f ∧ (file g).EndOf q v := by
  by_cases here : g = f
  · subst here
    rw [update_self]
    exact iff_of_false (not_endOf_none rfl) (by simp)
  · simp [here]

section

variable (good : Files file pipes)
include good

/-- After the last close of an end, the files that remain are the ends that
remain. -/
theorem Files.ends_cleared (isEnd : (file f).EndOf p w) {pipe : Pipe}
    (member : pipe ∈ pipes) (v : Bool) :
    (∃ g, (Function.update file f { file f with ref := 0, type := .none } g).EndOf pipe.page v) ↔
      pipe.isOpen v = true ∧ ¬ (pipe.page = p ∧ v = w) := by
  simp only [endOf_cleared, good.ends pipe member v]
  constructor
  · rintro ⟨g, different, other⟩
    refine ⟨⟨g, other⟩, ?_⟩
    rintro ⟨rfl, rfl⟩
    exact different (good.single g f _ _ other isEnd)
  · rintro ⟨⟨g, other⟩, not_same⟩
    refine ⟨g, ?_, other⟩
    rintro rfl
    exact not_same ⟨other.pipe.symm.trans isEnd.pipe, other.writable.symm.trans isEnd.writable⟩

/-- A file is closed, and the pipes in `left` are left. -/
theorem Files.cleared {left : List Pipe} (pages : (left.map Pipe.page).Nodup)
    (ends : ∀ pipe ∈ left, ∀ v, pipe.isOpen v = true ↔
      ∃ g, (Function.update file f { file f with ref := 0, type := .none } g).EndOf pipe.page v)
    (live : ∀ g q v, g ≠ f → (file g).EndOf q v → ∃ pipe ∈ left, pipe.page = q)
    (held : ∀ pipe ∈ left, ∃ w, pipe.isOpen w = true) :
    Files (Function.update file f { file f with ref := 0, type := .none }) left := by
  refine ⟨?_, ?_, pages, ends, ?_, ?_, held⟩
  · intro g
    by_cases here : g = f
    · simp [here]
    · simpa [here] using good.ref g
  · intro g zero
    by_cases here : g = f
    · simp [here]
    · simp only [update_of_ne here] at zero ⊢
      exact good.closed g zero
  · intro g h q v first second
    exact good.single g h q v (endOf_cleared.mp first).2 (endOf_cleared.mp second).2
  · intro g q v isOther
    obtain ⟨different, other⟩ := endOf_cleared.mp isOther
    exact live g q v different other

theorem Files.closeEnd (isEnd : (file f).EndOf p w)
    (other : ∀ pipe ∈ pipes, pipe.page = p → ∃ v, (pipe.close w).isOpen v = true) :
    Files (Function.update file f { file f with ref := 0, type := .none })
      (pipes.map fun pipe => if pipe.page = p then pipe.close w else pipe) := by
  have page (pipe : Pipe) : (if pipe.page = p then pipe.close w else pipe).page = pipe.page := by
    split <;> simp
  apply good.cleared
  · simpa [Function.comp_def, page] using good.pages
  · intro changed member v
    obtain ⟨pipe, old, rfl⟩ := List.mem_map.mp member
    rw [page, good.ends_cleared isEnd old]
    split
    · next same => simp [Pipe.isOpen_close, same, and_comm]
    · next different => simp [different]
  · intro g q v _ isEnd
    obtain ⟨pipe, old, rfl⟩ := good.live g q v isEnd
    exact ⟨_, List.mem_map_of_mem old, page pipe⟩
  · intro changed member
    obtain ⟨pipe, old, rfl⟩ := List.mem_map.mp member
    split
    · next same => exact other pipe old same
    · exact good.held pipe old

theorem Files.closePipe (isEnd : (file f).EndOf p w)
    (both : ∀ pipe ∈ pipes, pipe.page = p → ∀ v, (pipe.close w).isOpen v = false) :
    Files (Function.update file f { file f with ref := 0, type := .none })
      (pipes.filter fun pipe => pipe.page ≠ p) := by
  have member {pipe : Pipe} : pipe ∈ (pipes.filter fun pipe => pipe.page ≠ p) ↔ pipe ∈ pipes ∧ pipe.page ≠ p := by
    simp
  apply good.cleared
  · exact good.pages.sublist (List.filter_sublist.map _)
  · intro pipe kept v
    obtain ⟨old, different⟩ := member.mp kept
    rw [good.ends_cleared isEnd old]
    simp [different]
  · intro g q v different other
    obtain ⟨pipe, old, rfl⟩ := good.live g q v other
    refine ⟨pipe, member.mpr ⟨old, ?_⟩, rfl⟩
    intro same
    have closed := both pipe old same v
    have isOpen := (good.ends pipe old v).mpr ⟨g, other⟩
    have notSame : v ≠ w := by
      rintro rfl
      exact different (good.single g f _ _ other (same ▸ isEnd))
    rw [(Pipe.isOpen_close pipe w v).mpr ⟨notSame, isOpen⟩] at closed
    cases closed
  · intro pipe kept
    exact good.held pipe (member.mp kept).1

theorem Files.openPipe (distinct : f ≠ g) (fresh : p ∉ pipes.map Pipe.page)
    (first : (file f).type = .none) (second : (file g).type = .none) {read write : File}
    (reads : read.EndOf p false) (writes : write.EndOf p true) (readRef : 0 < read.ref)
    (writeRef : 0 < write.ref) :
    Files (Function.update (Function.update file f read) g write) (⟨p, true, true⟩ :: pipes) := by
  have old {h : FileId} {q : Page} {v : Bool} (isEnd : (file h).EndOf q v) : q ≠ p ∧ h ≠ f ∧ h ≠ g := by
    obtain ⟨pipe, member, rfl⟩ := good.live h q v isEnd
    refine ⟨?_, ?_, ?_⟩
    · intro same
      exact fresh (same ▸ List.mem_map_of_mem member)
    · rintro rfl
      exact not_endOf_none first isEnd
    · rintro rfl
      exact not_endOf_none second isEnd
  have ends (h : FileId) (q : Page) (v : Bool) :
      (Function.update (Function.update file f read) g write h).EndOf q v ↔
        (q = p ∧ h = if v then g else f) ∨ (file h).EndOf q v := by
    constructor
    · intro isEnd
      by_cases isWrite : h = g
      · subst isWrite
        rw [update_self] at isEnd
        left
        simp [← isEnd.pipe, ← isEnd.writable, writes.pipe, writes.writable]
      · rw [update_of_ne isWrite] at isEnd
        by_cases isRead : h = f
        · subst isRead
          rw [update_self] at isEnd
          left
          simp [← isEnd.pipe, ← isEnd.writable, reads.pipe, reads.writable]
        · rw [update_of_ne isRead] at isEnd
          exact .inr isEnd
    · rintro (⟨rfl, rfl⟩ | isEnd)
      · cases v
        · simpa [distinct] using reads
        · simpa using writes
      · obtain ⟨_, notRead, notWrite⟩ := old isEnd
        simpa [notRead, notWrite] using isEnd
  constructor
  · intro h
    by_cases isWrite : h = g
    · simp [isWrite, writeRef.le]
    · by_cases isRead : h = f
      · simp [isRead, distinct, readRef.le]
      · simpa [isWrite, isRead] using good.ref h
  · intro h zero
    by_cases isWrite : h = g
    · simp [isWrite, writeRef.ne'] at zero
    · by_cases isRead : h = f
      · simp [isRead, distinct, readRef.ne'] at zero
      · simp only [update_of_ne isWrite, update_of_ne isRead] at zero ⊢
        exact good.closed h zero
  · exact List.nodup_cons.mpr ⟨fresh, good.pages⟩
  · intro pipe member v
    simp only [ends]
    rcases List.mem_cons.mp member with rfl | member
    · refine iff_of_true ?_ ⟨_, .inl ⟨rfl, rfl⟩⟩
      cases v <;> rfl
    · rw [good.ends pipe member v]
      constructor
      · rintro ⟨h, isEnd⟩
        exact ⟨h, .inr isEnd⟩
      · rintro ⟨h, ⟨same, -⟩ | isEnd⟩
        · exact absurd (same ▸ List.mem_map_of_mem member) fresh
        · exact ⟨h, isEnd⟩
  · intro h k q v left right
    rcases (ends h q v).mp left with ⟨same, rfl⟩ | left
    · rcases (ends k q v).mp right with ⟨-, rfl⟩ | right
      · rfl
      · exact absurd same (old right).1
    · rcases (ends k q v).mp right with ⟨same, -⟩ | right
      · exact absurd same (old left).1
      · exact good.single h k q v left right
  · intro h q v isEnd
    rcases (ends h q v).mp isEnd with ⟨rfl, -⟩ | isEnd
    · exact ⟨_, List.mem_cons_self, rfl⟩
    · obtain ⟨pipe, member, same⟩ := good.live h q v isEnd
      exact ⟨pipe, List.mem_cons_of_mem _ member, same⟩
  · intro pipe member
    rcases List.mem_cons.mp member with rfl | member
    · exact ⟨true, rfl⟩
    · exact good.held pipe member

end

/-- What an operation on files does to the kernel: the numbers of references change by
`change`. -/
structure FileStep (s t : State) (change : FileId → Int) : Prop where
  files : Files t.file t.pipes
  pages : t.pages = s.pages
  proc : t.proc = s.proc
  refs : t.refs = s.refs + change

theorem FileStep.trans {u : State} {first second : FileId → Int} (one : FileStep s t first)
    (other : FileStep t u second) : FileStep s u (first + second) :=
  ⟨other.files, other.pages.trans one.pages, other.proc.trans one.proc, by rw [other.refs, one.refs, add_assoc]⟩

theorem FileStep.refl (good : Files s.file s.pipes) : FileStep s s 0 := ⟨good, rfl, rfl, (add_zero _).symm⟩

theorem filealloc_spec (good : Files s.file s.pipes) (found : filealloc s = some (f, t)) :
    s.refs f = 0 ∧ t = s.setFile f { s.file f with ref := 1 } ∧ FileStep s t (Pi.single f 1) := by
  unfold filealloc at found
  split at found
  · rename_i which free
    have zero := List.find?_some free
    simp only [Option.some.injEq, Prod.mk.injEq, decide_eq_true_eq] at found zero
    obtain ⟨rfl, rfl⟩ := found
    have changed := s.refs_setFile which { s.file which with ref := 1 }
    rw [show s.refs which = 0 from zero, sub_zero] at changed
    refine ⟨zero, rfl, good.update ?_ (by simp) (by simp), rfl, rfl, changed⟩
    intro p w
    exact iff_of_false (not_endOf_none (good.closed _ zero)) (not_endOf_none (good.closed _ zero))
  · cases found

/-- A file gets another number of references and stays open. -/
theorem Files.setRef (good : Files s.file s.pipes) (f : FileId) (ref : Int) (positive : 0 < ref) :
    FileStep s (s.setFile f { s.file f with ref }) (Pi.single f (ref - s.refs f)) := by
  refine ⟨good.update ?_ positive.le fun zero => absurd zero positive.ne', rfl, rfl, s.refs_setFile f _⟩
  intro p w
  exact ⟨fun e => ⟨e.type, e.pipe, e.writable⟩, fun e => ⟨e.type, e.pipe, e.writable⟩⟩

theorem filedup_returns (good : Files s.file s.pipes) (held : 1 ≤ s.refs f) :
    Returns (FileStep s · (Pi.single f 1)) (filedup s f) := by
  have isOpen : ¬ (s.file f).ref < 1 := Int.not_lt.mpr held
  have step := good.setRef f (s.refs f + 1) (by omega)
  rw [add_sub_cancel_left] at step
  simp only [filedup, isOpen, if_false]
  exact step

theorem State.pages_removePipe (nodup : (s.pipes.map Pipe.page).Nodup) (member : p ∈ s.pipes.map Pipe.page) :
    { s with pipes := s.pipes.filter fun pipe => pipe.page ≠ p }.pages + {p} = s.pages := by
  have kept : (s.pipes.filter fun pipe => pipe.page ≠ p).map Pipe.page = (s.pipes.map Pipe.page).erase p := by
    rw [nodup.erase_eq_filter, List.filter_map]
    congr 1
    apply List.filter_congr
    intro pipe _
    by_cases here : pipe.page = p <;> simp [here]
  have perm : (↑(s.pipes.map Pipe.page) : Multiset Page) = ↑((s.pipes.map Pipe.page).erase p) + {p} := by
    rw [Multiset.add_comm, Multiset.singleton_add]
    exact Multiset.coe_eq_coe.mpr (List.perm_cons_erase member)
  simp only [State.pages, kept, perm, add_assoc]

section

variable (good : Files s.file s.pipes)
include good

theorem pipeclose_returns (isEnd : (s.file f).EndOf p w)
    {change : FileId → Int}
    (cleared : (s.setFile f { s.file f with ref := 0, type := .none }).refs = s.refs + change) :
    Returns (FileStep s · change) (pipeclose (s.setFile f { s.file f with ref := 0, type := .none }) p w) := by
  obtain ⟨member, is, here⟩ := good.live f p w isEnd
  have only (pipe : Pipe) (other : pipe ∈ s.pipes) (same : pipe.page = p) : pipe = member :=
    good.page_injective other is (same.trans here.symm)
  have found : (s.pipes.find? fun pipe => pipe.page = p) = some member := by
    cases search : s.pipes.find? fun pipe => pipe.page = p with
    | none => exact absurd here (by simpa using List.find?_eq_none.mp search member is)
    | some pipe =>
      have matched := List.find?_some search
      rw [only pipe (List.mem_of_find?_eq_some search) (by simpa using matched)]
  unfold pipeclose
  simp only [State.setFile, found]
  split
  · rename_i both
    have closed : ∀ v, (member.close w).isOpen v = false := by
      intro v
      cases v
      · exact both.1
      · exact both.2
    refine (State.run_returns (kfree_conserves p) _).bind ?_
    rintro ⟨_, t⟩ ⟨_, rfl, tables, same⟩
    have pipes : t.pipes = s.pipes := tables.pipes
    refine ⟨?_, ?_, tables.proc, tables.refs.trans cleared⟩
    · simp only [tables.file, pipes]
      apply good.closePipe isEnd
      intro pipe other samePage
      rw [only pipe other samePage]
      exact closed
    · have removed := State.pages_removePipe (s := t) (p := p) (pipes ▸ good.pages)
        (pipes ▸ here ▸ List.mem_map_of_mem (f := Pipe.page) is)
      rw [zero_add] at same
      apply add_right_cancel (b := {p})
      exact removed.trans (same.trans (add_comm _ _))
  · rename_i one
    have other : ∃ v, (member.close w).isOpen v = true := by
      by_contra none
      simp only [not_exists, Bool.not_eq_true] at none
      exact one ⟨none false, none true⟩
    refine ⟨?_, ?_, rfl, cleared⟩
    · apply good.closeEnd isEnd
      intro pipe isMember samePage
      rw [only pipe isMember samePage]
      exact other
    · have page (pipe : Pipe) : (if pipe.page = p then pipe.close w else pipe).page = pipe.page := by
        split <;> simp
      simp [State.pages, Function.comp_def, page]

theorem fileclose_returns (held : 1 ≤ s.refs f) :
    Returns (FileStep s · (Pi.single f (-1))) (fileclose s f) := by
  have isOpen : ¬ (s.file f).ref < 1 := Int.not_lt.mpr held
  unfold fileclose
  dsimp only
  rw [if_neg isOpen]
  split
  · have step := good.setRef f (s.refs f - 1) (by assumption)
    rw [sub_sub_cancel_left] at step
    exact step
  · rename_i last
    have one : s.refs f = 1 := by
      unfold State.refs at held ⊢
      omega
    have cleared := s.refs_setFile f { s.file f with ref := 0, type := .none }
    rw [one, zero_sub] at cleared
    split
    · rename_i isPipe
      exact pipeclose_returns good ⟨isPipe, rfl, rfl⟩ cleared
    · rename_i notPipe
      exact ⟨good.clear fun p w isEnd => notPipe isEnd.type, rfl, rfl, cleared⟩

/-- The end of an attempt to open one file. -/
theorem FileStep.close_one (opened : FileStep s t (Pi.single f 1)) :
    Returns (FileStep s · 0) (fileclose t f) := by
  have before : 0 ≤ s.refs f := good.ref f
  apply (fileclose_returns opened.files (by rw [opened.refs]; simpa using before)).weaken
  intro u closed
  have both := opened.trans closed
  rw [← Pi.single_add, add_neg_cancel, Pi.single_zero] at both
  exact both

/-- The end of an attempt to open two files. -/
theorem FileStep.close_two (distinct : f ≠ g)
    (opened : FileStep s t (Pi.single f 1 + Pi.single g 1)) :
    Returns (FileStep s · 0) (fileclose t f >>= fun t => fileclose t g) := by
  have first : 0 ≤ s.refs f := good.ref f
  have second : 0 ≤ s.refs g := good.ref g
  apply (fileclose_returns opened.files (by rw [opened.refs]; simpa [distinct] using first)).bind
  intro u closed
  have step := opened.trans closed
  apply (fileclose_returns step.files (by rw [step.refs]; simpa [distinct.symm] using second)).weaken
  intro v last
  have both := step.trans last
  have cancel : Pi.single f 1 + Pi.single g 1 + Pi.single f (-1) + Pi.single g (-1) = (0 : FileId → Int) := by
    simp only [Pi.single_neg]
    abel
  rw [cancel] at both
  exact both

end

theorem State.pages_addPipe : { s with pipes := ⟨p, true, true⟩ :: s.pipes }.pages = {p} + s.pages := by
  simp only [State.pages, List.map_cons, ← Multiset.cons_coe, ← Multiset.singleton_add]
  abel

def added : Option (FileId × FileId) → FileId → Int
  | none => 0
  | some (f0, f1) => Pi.single f0 1 + Pi.single f1 1

theorem pipealloc_returns (good : Files s.file s.pipes) (nodup : s.pages.Nodup) :
    Returns (fun result => FileStep s result.2 (added result.1) ∧ ∀ f0 f1, result.1 = some (f0, f1) → f0 ≠ f1)
      (pipealloc s) := by
  unfold pipealloc
  cases first : filealloc s with
  | none => exact ⟨.refl good, by rintro _ _ ⟨⟩⟩
  | some pair =>
    obtain ⟨f0, s1⟩ := pair
    obtain ⟨free0, is1, step1⟩ := filealloc_spec good first
    dsimp only
    cases second : filealloc s1 with
    | none =>
      apply (step1.close_one good).bind
      intro t closed
      exact ⟨closed, by rintro _ _ ⟨⟩⟩
    | some pair =>
      obtain ⟨f1, s2⟩ := pair
      obtain ⟨free1, is2, step2⟩ := filealloc_spec step1.files second
      have step := step1.trans step2
      have distinct : f0 ≠ f1 := by
        rintro rfl
        simp [is1, State.refs, State.setFile] at free1
      apply (State.run_returns kalloc_conserves s2).bind
      rintro ⟨page, t⟩ ⟨_, rfl, tables, same⟩
      have files := tables.files step.files
      have procs : t.proc = s.proc := tables.proc.trans step.proc
      have refs := tables.refs.trans step.refs
      rw [zero_add, step.pages] at same
      cases page with
      | none =>
        have opened : FileStep s t _ := ⟨files, by simpa using same, procs, refs⟩
        dsimp only
        rw [← bind_assoc]
        apply (opened.close_two good distinct).bind
        intro u closed
        exact ⟨closed, by rintro _ _ ⟨⟩⟩
      | some p =>
        rw [Option.elim_some] at same
        have fresh : p ∉ t.pipes.map Pipe.page := by
          rw [← same, Multiset.singleton_add, Multiset.nodup_cons] at nodup
          intro member
          exact nodup.1 (Multiset.mem_add.mpr (.inr (Multiset.mem_coe.mpr member)))
        refine ⟨⟨?_, State.pages_addPipe.trans same, procs, ?_⟩, by rintro _ _ ⟨⟩; exact distinct⟩
        · have file0 : t.file f0 = { s.file f0 with ref := 1 } := by
            simp [tables.file, is2, is1, State.setFile, distinct]
          have file1 : t.file f1 = { s1.file f1 with ref := 1 } := by
            simp [tables.file, is2, State.setFile]
          apply files.openPipe distinct fresh
          · rw [file0]
            exact good.closed f0 free0
          · rw [file1]
            exact step1.files.closed f1 free1
          · exact ⟨rfl, rfl, rfl⟩
          · exact ⟨rfl, rfl, rfl⟩
          · simp [file0]
          · simp [State.setFile, distinct.symm, file1]
        · refine (State.refs_setFile_same ?_).trans ((State.refs_setFile_same ?_).trans refs)
          · rfl
          · rfl

/-! ## Descriptors -/

def Proc.descriptors (proc : Proc) (f : FileId) : Int := ∑ fd, if proc.ofile fd = some f then 1 else 0

def State.descriptors (s : State) (f : FileId) : Int := ∑ p, (s.proc p).descriptors f

/-- The `ref` of an open file is the number of descriptors for it. -/
structure Counted (s : State) : Prop where
  refs : s.refs = s.descriptors
  closed : ∀ p, (s.proc p).state ≠ .live → ∀ fd, (s.proc p).ofile fd = none

theorem Proc.descriptors_nonneg (proc : Proc) (f : FileId) : 0 ≤ proc.descriptors f := by
  apply Finset.sum_nonneg
  intro fd _
  split <;> simp

theorem Proc.descriptors_update (proc : Proc) (fd : Fin NOFILE) (value : Option FileId) (f : FileId) :
    ({ proc with ofile := update proc.ofile fd value } : Proc).descriptors f +
        (if proc.ofile fd = some f then 1 else 0) =
      proc.descriptors f + if value = some f then 1 else 0 :=
  sum_update (fun _ held => if held = some f then (1 : Int) else 0) proc.ofile fd value

theorem State.descriptors_setProc (slot : Slot) (proc : Proc) (f : FileId) :
    (s.setProc slot proc).descriptors f + (s.proc slot).descriptors f = s.descriptors f + proc.descriptors f :=
  sum_update (fun _ proc => proc.descriptors f) s.proc slot proc

theorem fdalloc_spec {proc new : Proc} (found : fdalloc proc f = some new) :
    new = { proc with ofile := new.ofile } ∧ new.descriptors = proc.descriptors + Pi.single f 1 := by
  unfold fdalloc at found
  split at found
  · rename_i fd free
    cases found
    have null := List.find?_some free
    rw [decide_eq_true_eq] at null
    refine ⟨rfl, ?_⟩
    funext g
    have moved := proc.descriptors_update fd (some f) g
    rw [null] at moved
    simp only [reduceCtorEq, if_false, add_zero, Option.some.injEq] at moved
    rw [moved, Pi.add_apply, Pi.single_apply]
    simp only [eq_comm]
  · cases found

namespace Counted

variable {slot : Slot} {proc : Proc} (counted : Counted s)
include counted

theorem open_of_descriptor {fd : Fin NOFILE} (held : (s.proc slot).ofile fd = some f) : 1 ≤ s.refs f := by
  rw [counted.refs]
  have own : (if (s.proc slot).ofile fd = some f then (1 : Int) else 0) ≤ (s.proc slot).descriptors f :=
    Finset.single_le_sum (f := fun fd => if (s.proc slot).ofile fd = some f then (1 : Int) else 0)
      (fun fd _ => by split <;> simp) (Finset.mem_univ fd)
  have all : (s.proc slot).descriptors f ≤ s.descriptors f :=
    Finset.single_le_sum (f := fun p => (s.proc p).descriptors f)
      (fun p _ => (s.proc p).descriptors_nonneg f) (Finset.mem_univ slot)
  rw [if_pos held] at own
  exact own.trans all

/-- A process gets or loses descriptors, and the files as many references. -/
theorem change {change : FileId → Int} (refs : t.refs = s.refs + change)
    (procs : t.proc = update s.proc slot proc) (live : proc.state = .live)
    (own : proc.descriptors = (s.proc slot).descriptors + change) : Counted t := by
  constructor
  · funext f
    have moved := s.descriptors_setProc slot proc f
    have same : t.descriptors f = (s.setProc slot proc).descriptors f := by
      unfold State.descriptors
      rw [procs]
      rfl
    rw [refs, counted.refs, same, Pi.add_apply]
    rw [own, Pi.add_apply] at moved
    omega
  · intro q stopped
    rw [procs] at stopped ⊢
    by_cases same : q = slot
    · subst same
      rw [update_self] at stopped
      exact absurd live stopped
    · rw [update_of_ne same] at stopped ⊢
      exact counted.closed q stopped

theorem same (refs : t.refs = s.refs) (ofile : ∀ q, (t.proc q).ofile = (s.proc q).ofile)
    (stopped : ∀ q, (t.proc q).state ≠ .live → (s.proc q).state ≠ .live ∨ ∀ fd, (s.proc q).ofile fd = none) :
    Counted t := by
  constructor
  · have descriptors : t.descriptors = s.descriptors := by
      funext f
      simp only [State.descriptors, Proc.descriptors, ofile]
    rw [refs, counted.refs, descriptors]
  · intro q notLive
    rw [ofile q]
    rcases stopped q notLive with before | none
    · exact counted.closed q before
    · exact none

theorem tables (refs : t.refs = s.refs) (procs : t.proc = s.proc) : Counted t :=
  counted.same refs (fun q => by rw [procs]) fun q stopped => .inl (procs ▸ stopped)

theorem setProc (refs : t.refs = s.refs) (others : ∀ q ≠ slot, t.proc q = s.proc q)
    (ofile : proc.ofile = (s.proc slot).ofile) (stopped : proc.state ≠ .live → (s.proc slot).state ≠ .live) :
    Counted (t.setProc slot proc) := by
  refine counted.same refs ?_ ?_
  · intro q
    by_cases same : q = slot
    · subst same
      simpa [State.setProc] using ofile
    · simp [State.setProc, same, others q same]
  · intro q ends
    by_cases same : q = slot
    · subst same
      exact .inl (stopped (by simpa [State.setProc] using ends))
    · exact .inl (by simpa [State.setProc, same, others q same] using ends)

end Counted

end Xv6.Memory
