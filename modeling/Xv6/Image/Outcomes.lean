import Xv6.Image.Supplied
import Xv6.Image.Sbrk

namespace Xv6.Image

open Xv6.Data Xv6.Memory

/-! # What `exec` leaves

A string that ends up where the new address space has no page table is copied to a page
that the caller chooses; strings shorter than the space of the devices never do.
-/

variable {data : Nat} {r : Ram} {path file : List Byte} {argv : List (List Byte)} {k final : Kernel}

/-- The panics that `exec` may end in. -/
def Panics (reason : Panic) : Prop := reason = .kfree ∨ reason = .nullPte

section

variable (distinct : (k.curproc.pgdir.pages + freePages k.ram.mem).Nodup)
include distinct

theorem holds_of_distinct : Holds Panics k.curproc.pgdir.pages k.ram := ⟨distinct, fun _ _ => .inl (.inl rfl)⟩

theorem exec_whole (linked : Linked data) (unlocked : k.locked = false)
    (short : ∀ arg ∈ argv, arg.length + 1 < 2 ^ 32) :
    Meets Panics (exec (kmap data) path (some file) argv) k (ExecEnds file argv k) :=
  exec_meets linked (fun _ => .inr rfl) (holds_of_distinct distinct) unlocked short

end

/-- What `exec` does with a file: no panic while it loads, no user page in the
kernel half, and the segments in place when it returns 0. -/
structure SafeExec (data : Nat) (path file : List Byte) (argv : List (List Byte)) (k : Kernel) : Prop where
  panics : ∀ reason, (exec (kmap data) path (some file) argv).run k = .error reason →
    reason ∉ [.remap, .loaduvmAligned, .loaduvmAddress, .clearpteu]
  loading : ∀ pgdir r, (lift (setupkvm (kmap data))).run k.ram = .ok (some pgdir, r) →
    ∀ loaded size r', (execLoad file (elfFile file).phnum (elfFile file).phoff pgdir 0).run r = .ok ((loaded, size), r') →
      Closed loaded ∧ ∀ sz, size = some sz → ∀ grown size' s,
        (allocuvm loaded (PGROUNDUP sz) ((PGROUNDUP sz + 2 * PGSIZE) % 2 ^ 32)).run r' = .ok ((grown, size'), s) →
          Closed grown
  image : ∀ final, (exec (kmap data) path (some file) argv).run k = .ok (0, final) →
    Closed final.curproc.pgdir ∧
    (∀ ph ∈ loadHeaders file (elfFile file).phnum (elfFile file).phoff,
      ph.filesz ≤ ph.memsz ∧ ph.vaddr + ph.memsz ≤ final.curproc.sz) ∧
    ∀ before ph after, loadHeaders file (elfFile file).phnum (elfFile file).phoff = before ++ ph :: after →
      ∀ i < ph.filesz, (∀ later ∈ after, ¬ Covers later (ph.vaddr + i)) →
        ph.off + i < file.length ∧ final.ram.read final.curproc.pgdir (ph.vaddr + i) = file[ph.off + i]?

theorem Committed.segment {image : Process} {before after : List ProgHeader} {ph : ProgHeader} {i : Nat}
    (committed : Committed file argv r image)
    (headers : loadHeaders file (elfFile file).phnum (elfFile file).phoff = before ++ ph :: after)
    (inside : i < ph.filesz) (last : ∀ later ∈ after, ¬ Covers later (ph.vaddr + i)) :
    ph.off + i < file.length ∧ r.read image.pgdir (ph.vaddr + i) = file[ph.off + i]? := by
  have fit := committed.fits ph (by simp [headers])
  have holds := fit.holds
  have below := fit.below
  have inFile := fit.inFile
  have covers : Covers ph (ph.vaddr + i) := ⟨Nat.le_add_right .., Nat.add_lt_add_left inside _⟩
  obtain ⟨addrs, pushed, others⟩ := committed.pushed
  have size : PGSIZE = 4096 := rfl
  have outside : Outside (stackItems addrs argv image.sz image.esp) (ph.vaddr + i) := by
    intro item member within
    have lower := (pushed.descending.within item member).1
    omega
  refine ⟨by omega, ?_⟩
  rw [others _ (by omega) outside, headers, List.append_cons, imageByte_uncovered last, imageByte_concat,
    if_pos covers, Nat.add_sub_cancel_left]

/-- Whatever the file has in it, `exec` does not panic while it loads, gives the process no
page of the kernel half, and puts every segment where its header says. -/
theorem exec_safe (linked : Linked data) (distinct : (k.curproc.pgdir.pages + freePages k.ram.mem).Nodup)
    (unlocked : k.locked = false) (short : ∀ arg ∈ argv, arg.length + 1 < 2 ^ 32) :
    SafeExec data path file argv k := by
  have holds := holds_of_distinct distinct
  refine ⟨?_, ?_, ?_⟩
  · intro reason failed
    cases (exec_whole distinct linked unlocked short).of_error failed with
    | inl is | inr is => simp [is]
  · intro pgdir r made loaded size r' ran
    obtain ⟨building, only⟩ := (setupkvm_builds True linked holds).of_run made
    obtain ⟨kept, more⟩ := (execLoad_meets (loaded_kernelOnly only) (building.alone holds)).of_run ran
    have built := building.kept kept
    refine ⟨built.closed, ?_⟩
    intro sz is grown size' s allocated
    obtain ⟨kept', _⟩ := ((more sz is).allocStack (built.alone holds)).of_run allocated
    exact (built.kept kept').closed
  · intro final ran
    obtain ⟨_, ends⟩ := (exec_whole distinct linked unlocked short).of_run ran
    cases ends with
    | inl failure => cases failure.1
    | inr success =>
      obtain ⟨_, committed⟩ := success
      refine ⟨committed.closed, ?_, fun before ph after headers i inside last =>
        committed.segment headers inside last⟩
      intro ph member
      have fit := committed.fits ph member
      exact ⟨fit.holds, fit.below.trans (Nat.sub_le ..)⟩

theorem exec_safe_segmentFile :
    loadHeaders segmentFile (elfFile segmentFile).phnum (elfFile segmentFile).phoff =
      [⟨ELF_PROG_LOAD, 84, 0, 4, PGSIZE⟩] ∧ SafeExec dataStart [] segmentFile [[0x41]] caller :=
  ⟨by decide +kernel, exec_safe linked_dataStart holds_caller.distinct rfl (by simp)⟩

/-- The stack of a new program: `main` reads the arguments, every item is at a
multiple of 4 inside the stack page, no two overlap, and the rest of the memory
is what the loop over the headers has left. -/
structure Encodes (file : List Byte) (argv : List (List Byte)) (r : Ram) (image : Process) : Prop where
  main : mainArguments r image.pgdir image.esp = some argv
  aligned : image.esp % 4 = 0
  items : ∃ addrs, addrs.length = argv.length ∧ (∀ addr ∈ addrs, addr % 4 = 0) ∧
    (∀ item ∈ stackItems addrs argv image.sz image.esp,
      image.sz - PGSIZE ≤ item.1 ∧ item.1 + item.2.length ≤ image.sz) ∧
    (stackItems addrs argv image.sz image.esp).Pairwise (fun earlier later => later.1 + later.2.length ≤ earlier.1) ∧
    ∀ va < image.sz, Outside (stackItems addrs argv image.sz image.esp) va →
      r.read image.pgdir va = imageByte file (loadHeaders file (elfFile file).phnum (elfFile file).phoff) va

/-- After a successful `exec`, `main` finds its arguments, and the memory around them is
that of the segments. -/
theorem exec_encodes_argv (linked : Linked data) (distinct : (k.curproc.pgdir.pages + freePages k.ram.mem).Nodup)
    (unlocked : k.locked = false) (strings : ∀ arg ∈ argv, (0 : Byte) ∉ arg ∧ arg.length + 1 < 2 ^ 32)
    (ran : (exec (kmap data) path (some file) argv).run k = .ok (0, final)) :
    Encodes file argv final.ram final.curproc := by
  have short : ∀ arg ∈ argv, arg.length + 1 < 2 ^ 32 := fun arg member => (strings arg member).2
  obtain ⟨_, ends⟩ := (exec_whole distinct linked unlocked short).of_run ran
  cases ends with
  | inl failure => cases failure.1
  | inr success =>
    obtain ⟨_, committed⟩ := success
    obtain ⟨addrs, pushed, others⟩ := committed.pushed
    have within := pushed.descending.within
    refine ⟨pushed.mainArguments committed.user fun arg member => (strings arg member).1, ?_, addrs, pushed.count, ?_,
      ?_, pushed.descending.pairwise, others⟩
    · exact (within _ (List.mem_append_right _ (List.mem_singleton_self _))).2.2
    · intro addr member
      obtain ⟨i, inside, is⟩ := List.mem_iff_getElem.mp member
      obtain ⟨_, _, multiple, _⟩ := pushed.string (List.mem_iff_getElem.mpr
        ⟨i, by rw [List.length_zip, ← pushed.count, Nat.min_self]; exact inside, List.getElem_zip⟩)
      rw [← is]
      exact multiple
    · intro item member
      exact ⟨(within item member).1, (within item member).2.1⟩

theorem exec_encodes_argv_caller :
    ∃ final, (exec (kmap dataStart) [] (some plainFile) [[0x41], [0x42, 0x43]]).run caller = .ok (0, final) ∧
      Encodes plainFile [[0x41], [0x42, 0x43]] final.ram final.curproc := by
  obtain ⟨final, ran⟩ : ∃ final,
      (exec (kmap dataStart) [] (some plainFile) [[0x41], [0x42, 0x43]]).run caller = .ok (0, final) :=
    exec_returns linked_dataStart plain_plainFile supplied_caller holds_caller (by decide) (by decide)
  exact ⟨final, ran, exec_encodes_argv linked_dataStart holds_caller.distinct rfl (by decide) ran⟩

structure Untouched (k final : Kernel) : Prop where
  proc : final.curproc = k.curproc
  memory : ∀ va < KERNBASE, final.ram.read k.curproc.pgdir va = k.ram.read k.curproc.pgdir va
  free : freePages final.ram.mem = freePages k.ram.mem

theorem Untouched.of_restored (distinct : (k.curproc.pgdir.pages + freePages k.ram.mem).Nodup)
    (restored : Restored True k.ram final.ram) (proc : final.curproc = k.curproc) : Untouched k final where
  proc := proc
  memory := by
    intro va user
    cases mapped : k.curproc.pgdir.pte va with
    | none => simp [Ram.read, mapped]
    | some pte =>
      have used : pte.pa ∉ freePages k.ram.mem := Multiset.disjoint_left.mp (Multiset.nodup_add.mp distinct).2.2
        (PageDir.mem_pages (userIndex_of_lt user) mapped)
      simp [Ram.read, mapped, restored.outside trivial pte.pa used]
  free := restored.pages

/-- A string that is longer than the stack makes `exec` fail. -/
theorem exec_too_long (linked : Linked data) (holds : Holds (fun _ => False) k.curproc.pgdir.pages k.ram)
    (unlocked : k.locked = false) (fits : Short argv) {arg : List Byte} (member : arg ∈ argv)
    (long : PGSIZE ≤ arg.length) :
    ∃ final, (exec (kmap data) path (some file) argv).run k = .ok (-1, final) := by
  have dev : DEVSPACE = 4261412864 := rfl
  have short : ∀ arg ∈ argv, arg.length + 1 < 2 ^ 32 := by
    intro arg member
    have few := fits arg member
    omega
  have meets : Meets (fun _ => False) (exec (kmap data) path (some file) argv) k _ :=
    exec_meets linked (fun notShort => absurd fits notShort) holds unlocked short
  obtain ⟨value, final, ran, _, ends⟩ := meets.exists_run
  cases ends with
  | inl failure => exact ⟨final, failure.1 ▸ ran⟩
  | inr success =>
    obtain ⟨addrs, pushed, _⟩ := success.2.pushed
    obtain ⟨i, inside, is⟩ := List.mem_iff_getElem.mp member
    have inZip : i < (addrs.zip argv).length := by
      rw [List.length_zip, pushed.count, Nat.min_self]
      exact inside
    obtain ⟨lower, upper, _⟩ := pushed.string (List.getElem_zip (h := inZip) ▸ List.getElem_mem inZip)
    rw [is] at upper
    omega

structure GrownCaller (n : Nat) (k : Kernel) : Prop where
  size : k.curproc.sz = caller.curproc.sz + n
  unlocked : k.locked = false
  holds : Holds (fun _ => False) k.curproc.pgdir.pages k.ram
  supplied : Supplied k.ram.mem
  mapped : k.curproc.pgdir.pte 0 = some ⟨4 * PGSIZE, PTE_W + PTE_U⟩
  first : ∀ o < 4, k.ram.byte (4 * PGSIZE) o = caller.ram.byte (4 * PGSIZE) o

theorem GrownCaller.word {n : Nat} (grown : GrownCaller n k) :
    littleEndian ((List.range 4).map (k.ram.byte (4 * PGSIZE))) = 4 * PGSIZE + 7 := by
  have start : littleEndian ((List.range 4).map (caller.ram.byte (4 * PGSIZE))) = 4 * PGSIZE + 7 := by decide
  rw [← start, List.map_congr_left fun o member => grown.first o (List.mem_range.mp member)]

theorem mapped_caller : caller.curproc.pgdir.pte 0 = some ⟨4 * PGSIZE, PTE_W + PTE_U⟩ := by
  change onePage.pte 0 = _
  rw [pte_onePage (by decide), if_pos rfl]

theorem GrownCaller.of_kept {n : Nat}
    (kept : Kept PGSIZE 0 caller.ram caller.curproc.pgdir 0 k.ram k.curproc.pgdir)
    (size : k.curproc.sz = caller.curproc.sz + n) (unlocked : k.locked = false)
    (roomy : Roomy (NPDENTRIES + 3) k.curproc.pgdir k.ram.mem) : GrownCaller n k where
  size := size
  unlocked := unlocked
  holds := by
    have moved := holds_caller.whole.kept kept
    rwa [zero_add] at moved
  supplied := ⟨roomy.denied, (Nat.le_add_left ..).trans roomy.enough⟩
  mapped := by
    rw [kept.pte 0 (by decide) (.inl (by decide))]
    exact mapped_caller
  first := by
    intro o small
    have inside : o < PGSIZE := small.trans (by decide)
    have bounded : o < 2 ^ 32 := small.trans (by decide)
    have here : caller.curproc.pgdir.pte o = some ⟨4 * PGSIZE, PTE_W + PTE_U⟩ := by
      rw [← mapped_caller]
      apply pte_of_page
      rw [Nat.div_eq_of_lt inside]
      rfl
    have same := kept.read o inside
    simp only [Ram.read, kept.pte o bounded (.inl inside), here, Option.map_some, Option.some.injEq] at same
    rwa [Nat.mod_eq_of_lt inside] at same

theorem grown_caller : ∃ k, (sysSbrk 35651584).run caller = .ok (4096, k) ∧ GrownCaller 35651584 k := by
  have empty : Unmapped caller.curproc.pgdir (PGROUNDUP caller.curproc.sz) := by
    have top : KERNBASE = 2147483648 := rfl
    have start : PGROUNDUP caller.curproc.sz = 4096 := by decide
    intro va lower upper
    change onePage.pte va = none
    rw [pte_onePage (by omega), if_neg]
    have size : PGSIZE = 4096 := rfl
    rw [start] at lower
    rw [size]
    omega
  have roomy : Roomy (NPDENTRIES + 3 + 8704) caller.curproc.pgdir caller.ram.mem := by
    have few := caller.curproc.pgdir.missing_le
    have free : caller.ram.mem.freelist.length = 20000 := by
      change ((List.range' 5 20000).map (· * PGSIZE)).length = _
      rw [List.length_map, List.length_range']
    refine ⟨rfl, ?_⟩
    rw [free]
    exact (Nat.add_le_add_right few _).trans (by decide)
  have keeps : Meets (fun _ => False) (allocuvm caller.curproc.pgdir caller.curproc.sz 35655680) caller.ram _ :=
    allocuvm_meets holds_caller (by decide) (by decide) empty
  have allocates := keeps.both
    (allocuvm_succeeds (NPDENTRIES + 3) 8704 roomy (by decide) (by decide) (by decide))
  have grows : Meets (fun _ => False) (growproc 35651584) caller fun ret after =>
      ret = 0 ∧ GrownCaller 35651584 after := by
    have wrapped : (((caller.curproc.sz : Int) + 35651584) % 2 ^ 32).toNat = 35655680 := by decide
    apply Meets.get_bind
    rw [if_pos (by decide), wrapped]
    apply (onRam_meets allocates).bind
    intro (pgdir, size) after ⟨⟨allocated, is, roomy⟩, same⟩
    dsimp only at is roomy
    subst is
    rw [same]
    apply Meets.modify_bind
    dsimp only
    rw [if_neg (by decide)]
    apply Meets.modify_bind
    refine .pure ⟨rfl, ?_⟩
    cases allocated with
    | inl success => exact .of_kept success.2.1 rfl rfl roomy
    | inr failure => cases failure.1
  obtain ⟨ret, k, ran, grown, ⟨rfl, facts⟩, is⟩ := (sysSbrk_meets grows).exists_run
  rw [if_neg (by decide)] at is
  subst is
  exact ⟨k, ran, facts⟩

end Xv6.Image
