import Xv6.Image.Stack
import Xv6.Memory.KernelHalf

namespace Xv6.Image

open Xv6.Data Xv6.Memory

/-! # `exec`

A new address space is built beside that of the caller, and freed on every failure. -/

variable {fine : Panic → Prop} {fit : Prop} {data : Nat} {r r' r0 s : Ram} {current pgdir next : PageDir} {page : Page}
  {va sz fuel : Nat} {bytes path file : List Byte} {argv : List (List Byte)} {pointers : List Nat}
  {caller : Multiset Page} {headers : List ProgHeader} {k k' : Kernel}

/-- Only pages that user code of `pgdir` can access are written. -/
def WritesOnly (pgdir : PageDir) (r r' : Ram) : Prop :=
  ∀ page, (∀ va < 2 ^ 32, userPage pgdir va ≠ some page) → r'.byte page = r.byte page

theorem WritesOnly.trans (first : WritesOnly pgdir r r') (second : WritesOnly pgdir r' s) : WritesOnly pgdir r s :=
  fun page foreign => (second page foreign).trans (first page foreign)

theorem uva2ka_mem (stray : fine .nullPte) :
    Meets fine (uva2ka current pgdir va) r fun _ r' => r'.mem = r.mem := by
  cases found : pgdir.table (PDX va) with
  | some table =>
    rw [uva2ka_found (by simp [found])]
    exact .pure rfl
  | none =>
    unfold uva2ka
    rw [found]
    apply Meets.modify_bind
    cases current.pte 0 with
    | none => exact .throw stray
    | some first =>
      apply Meets.get_bind
      dsimp only
      split
      · exact .pure rfl
      · split
        · exact .pure rfl
        · split
          · exact .throw stray
          · exact .pure rfl

theorem copyoutLoop_mem (stray : fine .nullPte) (enough : Enough fuel va bytes) :
    Meets fine (copyoutLoop current pgdir fuel va bytes) r fun _ r' => r'.mem = r.mem := by
  induction fuel generalizing va bytes r with
  | zero =>
    rw [enough.nil, copyoutLoop_nil]
    exact .pure rfl
  | succ fuel ih =>
    by_cases empty : bytes = []
    · rw [empty, copyoutLoop_nil]
      exact .pure rfl
    · rw [copyoutLoop_cons empty]
      apply (uva2ka_mem stray).bind
      intro page middle same
      cases page with
      | none => exact .pure same
      | some page =>
        apply Meets.modify_bind
        exact (ih enough.next).weaken fun _ _ rest => rest.trans same

theorem pushArguments_mem (stray : fine .nullPte) (sp : Nat) :
    Meets fine (pushArguments current pgdir argv pointers sp) r fun _ r' => r'.mem = r.mem := by
  induction argv generalizing pointers sp r with
  | nil =>
    apply (copyoutLoop_mem stray enough_copyout).bind
    intro copied middle same
    cases copied with
    | false | true => exact .pure same
  | cons arg rest ih =>
    unfold pushArguments
    split
    · exact .pure rfl
    · apply (copyoutLoop_mem stray enough_copyout).bind
      intro copied middle same
      cases copied with
      | false => exact .pure same
      | true => exact (ih _).weaken fun _ _ rest => rest.trans same

/-- A copy below the end of the stack or to the devices finds page tables as far as
it gets. -/
theorem StackPage.copyout_writes (stack : StackPage pgdir sz page)
    (place : va + bytes.length ≤ sz ∨ DEVSPACE ≤ va ∧ va < 2 ^ 32) :
    Meets fine (copyout current pgdir va bytes) r fun _ r' => r'.mem = r.mem ∧ WritesOnly pgdir r r' := by
  obtain ⟨size, top⟩ := page_sizes
  have dev : DEVSPACE = 4261412864 := rfl
  have high := stack.upper
  have small : va < 2 ^ 32 := by omega
  have guarded : Guarded pgdir va bytes.length := by
    intro d inside before
    cases place with
    | inl below =>
      rw [Nat.mod_eq_of_lt (by omega)]
      exact stack.tables _ (by omega)
    | inr device =>
      have here := stack.devices va device.1 device.2
      cases d with
      | zero =>
        rw [Nat.add_zero, Nat.mod_eq_of_lt small]
        exact here.2
      | succ d =>
        have first := before 0 (Nat.succ_pos d)
        rw [Nat.add_zero, Nat.mod_eq_of_lt small, isSome_location, here.1] at first
        cases first
  obtain ⟨result, final, ran, copied⟩ := guarded.copyout small
  refine .returns ran ⟨copied.mem, ?_⟩
  intro page foreign
  funext off
  apply copied.others
  intro i _ found
  obtain ⟨_, user, is⟩ := Option.map_eq_some_iff.mp found
  cases is
  exact foreign _ (Nat.mod_lt _ (by decide)) user

/-- Shorter than the space of the devices. -/
def Short (argv : List (List Byte)) : Prop := ∀ arg ∈ argv, arg.length < 2 ^ 32 - DEVSPACE

theorem StackPage.pushArguments_writes {sp : Nat} (stack : StackPage pgdir sz page) (lower : sz - PGSIZE ≤ sp)
    (upper : sp ≤ sz) (few : pointers.length ≤ MAXARG) (short : Short argv) :
    Meets fine (pushArguments current pgdir argv pointers sp) r fun _ r' =>
      r'.mem = r.mem ∧ WritesOnly pgdir r r' := by
  obtain ⟨size, top⟩ := page_sizes
  have dev : DEVSPACE = 4261412864 := rfl
  have max : MAXARG = 32 := rfl
  have low := stack.lower
  have high := stack.upper
  rw [size] at low lower
  induction argv generalizing pointers sp r with
  | nil =>
    have length := length_vector pointers sp
    refine (stack.copyout_writes ?_).bind ?_
    · left
      omega
    · intro copied middle written
      cases copied with
      | false | true => exact .pure written
  | cons arg rest ih =>
    obtain ⟨fits, others⟩ := List.forall_mem_cons.mp short
    have length : (arg ++ [0]).length = arg.length + 1 := by simp
    unfold pushArguments
    split
    · exact .pure ⟨rfl, fun _ _ => rfl⟩
    · rename_i room
      rw [← length]
      refine (stack.copyout_writes ?_).with_run.bind ?_
      · omega
      · rintro copied middle ⟨written, ran⟩
        cases copied with
        | false => exact .pure written
        | true =>
          obtain ⟨addr, is, above, below, _⟩ := copyout_top stack (by rw [size]; exact lower) upper (by simp)
            (by omega) ran
          rw [is]
          have fewer : (pointers ++ [addr]).length ≤ MAXARG := by
            rw [List.length_append, List.length_singleton]
            omega
          apply (ih (by omega) (by omega) fewer others).weaken
          intro _ final more
          exact ⟨more.1.trans written.1, written.2.trans more.2⟩

structure Linked (data : Nat) : Prop where
  aligned : data % PGSIZE = 0
  above : KERNLINK < data
  below : data < KERNBASE + PHYSTOP

def Closed (pgdir : PageDir) : Prop :=
  ∀ va < 2 ^ 32, KERNBASE ≤ va → ∀ pte, pgdir.pte va = some pte → pte.flags &&& PTE_U = 0

/-- From the state `r0`, an address space has been made of free pages.  If `fit`, nothing
else has been written. -/
structure Building (fit : Prop) (r0 r : Ram) (pgdir : PageDir) : Prop where
  pages : pgdir.pages + freePages r.mem = freePages r0.mem
  kernelEnd : r.mem.kernelEnd = r0.mem.kernelEnd
  outside : fit → ∀ page ∉ freePages r0.mem, r.byte page = r0.byte page
  closed : Closed pgdir
  devices : ∀ va, DEVSPACE ≤ va → va < 2 ^ 32 → (pgdir.table (PDX va)).isSome

section

variable (building : Building fit r0 r pgdir)
include building

theorem Building.kept (kept : Kept 0 0 r pgdir 0 r' next) : Building fit r0 r' next where
  pages := by
    have same := kept.pages
    rw [zero_add, zero_add] at same
    rw [same, building.pages]
  kernelEnd := kept.kernelEnd.trans building.kernelEnd
  outside := by
    intro fits page foreign
    rw [kept.outside page, building.outside fits page foreign]
    rwa [zero_add, building.pages]
  closed := by
    intro va small above pte mapped
    rw [kept.pte va small (.inr above)] at mapped
    exact building.closed va small above pte mapped
  devices := fun va lower upper => kept.tables _ (building.devices va lower upper)

theorem Building.written {fits : Prop} (mem : r'.mem = r.mem) (written : fits → fit ∧ WritesOnly pgdir r r') :
    Building fits r0 r' pgdir where
  pages := by rw [mem, building.pages]
  kernelEnd := by rw [mem, building.kernelEnd]
  outside := by
    intro fits page foreign
    rw [(written fits).2 page, building.outside (written fits).1 page foreign]
    -- A page of the new address space was free.
    intro va small user
    obtain ⟨pte, mapped, is⟩ := pte_of_userPage user
    apply foreign
    rw [← building.pages, Multiset.mem_add, ← is]
    by_cases above : KERNBASE ≤ va
    · have kernel := building.closed va small above pte mapped
      simp [userPage, mapped, kernel] at user
    · exact .inl (PageDir.mem_pages (userIndex_of_lt (by omega)) mapped)
  closed := building.closed
  devices := building.devices

theorem Building.holds (holds : Holds fine caller r0) : Holds fine (caller + pgdir.pages) r where
  distinct := by
    rw [add_assoc, building.pages]
    exact holds.distinct
  frees := by
    intro page member
    rw [add_assoc, building.pages] at member
    rw [building.kernelEnd]
    exact holds.frees page member

theorem Building.alone (holds : Holds fine caller r0) : Holds fine pgdir.pages r where
  distinct := by
    have distinct := (building.holds holds).distinct
    rw [add_assoc] at distinct
    exact (Multiset.nodup_add.mp distinct).2.1
  frees := by
    intro page member
    apply (building.holds holds).frees
    rw [add_assoc]
    exact Multiset.mem_add.mpr (.inr member)

end

/-- The address space has been freed again, or there has been none. -/
structure Restored (fit : Prop) (r0 r : Ram) : Prop where
  pages : freePages r.mem = freePages r0.mem
  kernelEnd : r.mem.kernelEnd = r0.mem.kernelEnd
  outside : fit → ∀ page ∉ freePages r0.mem, r.byte page = r0.byte page

theorem setupkvm_builds (fit : Prop) (linked : Linked data) (holds : Holds fine caller r) :
    Meets fine (lift (setupkvm (kmap data))) r fun result r' =>
      result.elim (Restored fit r r') fun pgdir => Building fit r r' pgdir ∧ KernelOnly pgdir := by
  have rows := rows_kmap linked.aligned linked.above linked.below
  have kernel := kernelMap_kmap linked.aligned linked.above linked.below
  have free : AllFree fine r.mem 0 := by
    intro page member
    rw [zero_add] at member
    exact holds.frees page (Multiset.mem_add.mpr (.inr member))
  apply (lift_meets ((setupkvm_meets rows free).conserving (setupkvm_conserves kernel))).weaken
  intro result r' ⟨⟨⟨made, kernelEnd⟩, _, is, pages⟩, final⟩
  subst is
  rw [zero_add] at pages
  have outside : ∀ page ∉ freePages r.mem, r'.byte page = r.byte page := by
    intro page foreign
    rw [final]
    apply Ram.byte_allocate
    intro free
    exact foreign (pages ▸ Multiset.mem_add.mpr (.inr free))
  cases result with
  | none =>
    rw [Option.elim_none, zero_add] at pages
    exact ⟨pages, kernelEnd, fun _ => outside⟩
  | some pgdir =>
    obtain ⟨only, rows⟩ := made pgdir rfl
    refine ⟨⟨pages, kernelEnd, fun _ => outside, fun va small _ => only.closed va small, ?_⟩, only⟩
    intro va lower upper
    exact rows ⟨DEVSPACE, DEVSPACE, 0, PTE_W⟩ (by simp [kmap]) va lower upper

theorem freevm_restores (building : Building fit r0 r pgdir) (holds : Holds fine caller r0) :
    Meets fine (lift (freevm pgdir)) r fun _ r' => Restored fit r0 r' ∧
      ∀ page ∉ freePages r0.mem, r'.byte page = r.byte page := by
  have free : AllFree fine r.mem pgdir.pages := (building.alone holds).frees
  apply (lift_meets ((freevm_meets free).conserving (freevm_conserves pgdir))).weaken
  intro _ r' ⟨⟨kernelEnd, _, is, pages⟩, final⟩
  subst is
  rw [zero_add, building.pages] at pages
  have others : ∀ page ∉ freePages r0.mem, r'.byte page = r.byte page := by
    intro page foreign
    rw [final]
    apply Ram.byte_allocate
    rwa [pages]
  refine ⟨⟨pages, kernelEnd.trans building.kernelEnd, ?_⟩, others⟩
  intro fits page foreign
  rw [others page foreign, building.outside fits page foreign]

def guardEntry (pte : Option Pte) : Option Pte := pte.map fun pte => { pte with flags := pte.flags &&& (0xFFF - PTE_U) }

theorem clearpteu_meets (found : (pgdir.table (PDX va)).isSome) (small : va < 2 ^ 32) {m : Mem} :
    Meets fine (clearpteu pgdir va) m fun next final => final = m ∧ Stored pgdir va (guardEntry (pgdir.pte va)) next := by
  unfold clearpteu
  split
  · exact .pure ⟨rfl, PageDir.stored_setPte _ found small⟩
  · next missing => simp [missing] at found

theorem userPage_guard (mapped : pgdir.pte va = guardEntry (some ⟨page, PTE_W + PTE_U⟩)) : userPage pgdir va = none := by
  have closed : (PTE_W + PTE_U) &&& (0xFFF - PTE_U) &&& PTE_U = 0 := by decide
  simp [userPage, mapped, guardEntry, closed]

theorem Closed.userPage (closed : Closed pgdir) (small : va < 2 ^ 32) (above : KERNBASE ≤ va) :
    userPage pgdir va = none := by
  cases mapped : pgdir.pte va with
  | none => simp [Image.userPage, mapped]
  | some pte => simp [Image.userPage, mapped, closed va small above pte mapped]

theorem Loaded.stackPage (loaded : Loaded file headers r pgdir sz) (building : Building fit r0 r' next)
    (distinct : next.pages.Nodup) (aligned : sz % PGSIZE = 0) (large : 2 * PGSIZE ≤ sz)
    (stored : Stored pgdir (sz - 2 * PGSIZE) (guardEntry (pgdir.pte (sz - 2 * PGSIZE))) next) :
    ∃ page, StackPage next sz page := by
  obtain ⟨size, top⟩ := page_sizes
  have below := loaded.below
  have rounded := le_PGROUNDUP below.le
  obtain ⟨guard, guarded⟩ := loaded.mapped (sz - 2 * PGSIZE) (by omega)
  obtain ⟨page, mapped⟩ := loaded.mapped (sz - PGSIZE) (by omega)
  refine ⟨page, aligned, large, below.le, ?_, ?_, ?_, ?_, separate_of_nodup distinct⟩
  · intro va lower upper
    rw [size] at aligned large lower
    apply userPage_of_pte
    rw [stored.pte va (by omega), if_neg (by rw [size]; omega), ← mapped]
    apply pte_of_page
    rw [size]
    omega
  · have here := stored.pte (sz - 2 * PGSIZE) (by omega)
    rw [if_pos rfl, guarded] at here
    exact userPage_guard here
  · intro va inside
    obtain ⟨_, present⟩ := loaded.mapped va (by omega)
    exact stored.kept _ (table_of_pte present)
  · intro va lower upper
    have dev : KERNBASE ≤ DEVSPACE := by decide
    exact ⟨building.closed.userPage upper (dev.trans lower), building.devices va lower upper⟩

theorem Loaded.clearpteu_meets (loaded : Loaded file headers r pgdir sz) (building : Building fit r0 r pgdir)
    (holds : Holds fine caller r0) (aligned : sz % PGSIZE = 0) (large : 2 * PGSIZE ≤ sz) :
    Meets fine (lift (clearpteu pgdir (sz - 2 * PGSIZE))) r fun next r' => Kept 0 0 r pgdir 0 r' next ∧
      (∃ page, StackPage next sz page) ∧ ∀ va < sz, r'.read next va = imageByte file headers va := by
  obtain ⟨size, top⟩ := page_sizes
  have below := loaded.below
  have rounded := le_PGROUNDUP below.le
  obtain ⟨guard, guarded⟩ := loaded.mapped (sz - 2 * PGSIZE) (by omega)
  have table := table_of_pte guarded
  have alone := building.alone holds
  have user : UserIndex (PDX (sz - 2 * PGSIZE)) := userIndex_of_lt (by omega)
  apply (lift_meets ((Image.clearpteu_meets table (by omega)).conserving clearpteu_conserves)).weaken
  intro next r' ⟨⟨⟨mem, stored⟩, _, is, pages⟩, final⟩
  subst is
  have kept : Kept 0 0 r pgdir 0 r' next := by
    rw [final]
    apply Kept.of_allocate alone.whole (Nat.zero_le _) (by rwa [zero_add, zero_add]) (by rw [mem])
    · intro va small place
      rw [stored.pte va small, if_neg]
      rw [size]
      omega
    · intro i kernel
      apply stored.others
      rintro rfl
      exact kernel user
    · exact stored.kept
  have made := building.kept kept
  refine ⟨kept, loaded.stackPage made (Multiset.nodup_add.mp (made.alone holds).distinct).1 aligned large stored, ?_⟩
  intro va inside
  obtain ⟨page, mapped⟩ := loaded.mapped va (by omega)
  have used : page ∉ freePages r'.mem := by
    rw [mem]
    exact alone.notMem (PageDir.mem_pages (userIndex_of_lt (by omega)) mapped)
  have same : r'.byte page = r.byte page := by
    rw [final]
    exact Ram.byte_allocate used
  rw [← loaded.contents va (by omega), Ram.read, Ram.read, stored.pte va (by omega)]
  split
  · rename_i here
    rw [pte_of_page here.symm, mapped]
    simp [guardEntry, same]
  · simp [mapped, same]

def released (k : Kernel) (ram : Ram) : Kernel :=
  { k with ram, locked := false, ref := k.ref - 1, ended := k.ended + 1 }

theorem bad_meets (building : Building fit r0 k.ram pgdir) (holds : Holds fine caller r0) {ip : Bool} :
    Meets fine (bad (some pgdir) ip) k fun value final => value = -1 ∧ Restored fit r0 final.ram ∧
      final = (if ip then released k final.ram else { k with ram := final.ram }) ∧
      ∀ page ∉ freePages r0.mem, final.ram.byte page = k.ram.byte page := by
  apply (onRam_meets (freevm_restores building holds)).bind
  intro _ k1 ⟨⟨restored, others⟩, is⟩
  cases ip with
  | false => exact .pure ⟨rfl, restored, is, others⟩
  | true =>
    rw [is]
    apply Meets.modify_bind
    apply Meets.modify_bind
    exact .pure ⟨rfl, restored, rfl, others⟩

/-- The last steps of a successful `exec`: the caller's address space is freed. -/
theorem freevm_caller (building : Building fit r0 r pgdir) (holds : Holds fine current.pages r0) :
    Meets fine (lift (freevm current)) r fun _ r' => ∀ va < KERNBASE, r'.read pgdir va = r.read pgdir va := by
  have both := building.holds holds
  have free : AllFree fine r.mem current.pages := by
    intro page member
    apply both.frees
    rw [add_right_comm]
    exact Multiset.mem_add.mpr (.inl member)
  apply (lift_meets ((freevm_meets free).conserving (freevm_conserves current))).weaken
  intro _ r' ⟨⟨kernelEnd, _, is, pages⟩, final⟩
  subst is
  have moved : 0 + pgdir.pages + freePages r'.mem = current.pages + pgdir.pages + freePages r.mem := by
    rw [zero_add] at pages
    rw [zero_add, pages]
    abel
  have kept : Kept KERNBASE current.pages r pgdir 0 r' pgdir := by
    rw [final]
    exact Kept.of_allocate both le_rfl moved kernelEnd (fun _ _ _ => rfl) (fun _ _ => rfl) fun _ => id
  exact kept.read

structure Committed (file : List Byte) (argv : List (List Byte)) (r : Ram) (image : Process) : Prop where
  user : image.sz ≤ KERNBASE
  closed : Closed image.pgdir
  fits : ∀ ph ∈ loadHeaders file (elfFile file).phnum (elfFile file).phoff, Fits file (image.sz - 2 * PGSIZE) ph
  pushed : ∃ addrs, Pushed r image.pgdir image.sz argv addrs image.esp ∧
    ∀ va < image.sz, Outside (stackItems addrs argv image.sz image.esp) va →
      r.read image.pgdir va = imageByte file (loadHeaders file (elfFile file).phnum (elfFile file).phoff) va

theorem Loaded.rounded (loaded : Loaded file headers r pgdir sz) (below : PGROUNDUP sz < KERNBASE) :
    Loaded file headers r pgdir (PGROUNDUP sz) := by
  have again : PGROUNDUP (PGROUNDUP sz) = PGROUNDUP sz := by
    obtain ⟨size, top⟩ := page_sizes
    have multiple := aligned_PGROUNDUP sz
    rw [size] at multiple
    rw [PGROUNDUP, size]
    omega
  refine ⟨below, ?_, ?_, ?_, ?_⟩
  · rw [again]
    exact loaded.mapped
  · rw [again]
    exact loaded.empty
  · intro ph member
    have fit := loaded.fits ph member
    exact { fit with below := fit.below.trans (le_PGROUNDUP loaded.below.le).1 }
  · rw [again]
    exact loaded.contents

theorem Loaded.allocStack (loaded : Loaded file headers r pgdir sz) (holds : Holds fine pgdir.pages r) :
    Meets fine (allocuvm pgdir (PGROUNDUP sz) ((PGROUNDUP sz + 2 * PGSIZE) % 2 ^ 32)) r fun result r' =>
      Kept 0 0 r pgdir 0 r' result.1 ∧ (result.2 ≠ 0 → result.2 = PGROUNDUP sz + 2 * PGSIZE ∧
        Loaded file headers r' result.1 result.2) := by
  obtain ⟨size, top⟩ := page_sizes
  have limit := PGROUNDUP_le loaded.below.le
  have plain : (PGROUNDUP sz + 2 * PGSIZE) % 2 ^ 32 = PGROUNDUP sz + 2 * PGSIZE := Nat.mod_eq_of_lt (by omega)
  have grows : PGROUNDUP sz ≤ PGROUNDUP sz + 2 * PGSIZE := Nat.le_add_right ..
  rw [plain]
  generalize PGROUNDUP sz + 2 * PGSIZE = newsz at grows ⊢
  cases Nat.lt_or_ge (PGROUNDUP sz) KERNBASE with
  | inl below =>
    apply ((loaded.rounded below).allocuvm_meets holds).weaken
    intro result r' ⟨kept, larger⟩
    refine ⟨kept, ?_⟩
    intro nonzero
    obtain ⟨is, more⟩ := larger nonzero
    exact ⟨is.trans (max_eq_right grows), more⟩
  | inr high =>
    rw [allocuvm_past (high.trans grows)]
    exact .pure ⟨.refl, fun nonzero => absurd rfl nonzero⟩

def StackEnds (file : List Byte) (argv : List (List Byte)) (r0 : Ram) (k : Kernel) (value : Int) (final : Kernel) :
    Prop :=
  (value = -1 ∧ Restored (Short argv) r0 final.ram ∧ final = { k with ram := final.ram }) ∨
  (value = 0 ∧ Committed file argv final.ram final.curproc ∧
    final = { k with ram := final.ram, curproc := final.curproc })

theorem commit_meets {image : Process} (building : Building fit r0 k.ram image.pgdir)
    (holds : Holds fine current.pages r0) :
    Meets fine (do setProc fun _ => image; onRam (lift (freevm current)); pure 0 : Call Int) k fun value final =>
      value = 0 ∧ final = { k with ram := final.ram, curproc := image } ∧
        ∀ va < KERNBASE, final.ram.read image.pgdir va = k.ram.read image.pgdir va := by
  apply Meets.modify_bind
  have freed := freevm_caller building holds
  obtain ⟨after, isAfter⟩ : ∃ after : Kernel, after = { k with curproc := image } := ⟨_, rfl⟩
  have ram : after.ram = k.ram := by rw [isAfter]
  rw [← ram] at freed
  change Meets fine _ { k with curproc := image } _
  rw [← isAfter]
  apply (onRam_meets freed).bind
  intro _ final ⟨same, isFinal⟩
  rw [ram] at same
  exact .pure ⟨rfl, by rw [isFinal, isAfter], same⟩

theorem execStack_meets (stray : ¬ Short argv → fine .nullPte) (loaded : Loaded file
      (loadHeaders file (elfFile file).phnum (elfFile file).phoff) k.ram pgdir sz)
    (building : Building (Short argv) r0 k.ram pgdir) (holds : Holds fine k.curproc.pgdir.pages r0)
    (short : ∀ arg ∈ argv, arg.length + 1 < 2 ^ 32) :
    Meets fine (execStack path file argv pgdir sz) k (StackEnds file argv r0 k) := by
  have refused {k1 : Kernel} {next : PageDir} (made : Building (Short argv) r0 k1.ram next)
      (is1 : k1 = { k with ram := k1.ram }) :
      Meets fine (bad (some next) false) k1 (StackEnds file argv r0 k) := by
    apply (bad_meets made holds).weaken
    intro value final ⟨failed, restored, is, _⟩
    refine .inl ⟨failed, restored, ?_⟩
    rw [is, is1]
    rfl
  unfold execStack
  apply (onRam_meets (loaded.allocStack (building.alone holds))).bind
  intro (grown, size) k1 ⟨⟨kept, larger⟩, is1⟩
  have building1 := building.kept kept
  dsimp only at building1 larger ⊢
  split
  · exact refused building1 is1
  · rename_i nonzero
    obtain ⟨is, loaded1⟩ := larger nonzero
    have aligned : size % PGSIZE = 0 := by
      rw [is, Nat.add_mul_mod_self_right]
      exact aligned_PGROUNDUP sz
    have large : 2 * PGSIZE ≤ size := is ▸ Nat.le_add_left ..
    have fits : ∀ ph ∈ loadHeaders file (elfFile file).phnum (elfFile file).phoff,
        Fits file (size - 2 * PGSIZE) ph := by
      intro ph member
      have fit := loaded.fits ph member
      rw [is, Nat.add_sub_cancel]
      exact { fit with below := fit.below.trans (le_PGROUNDUP loaded.below.le).1 }
    apply (onRam_meets (loaded1.clearpteu_meets building1 holds aligned large)).bind
    intro next k2 ⟨⟨guarded, ⟨page, stack⟩, contents⟩, is2⟩
    have building2 := building1.kept guarded
    have same2 : k2 = { k with ram := k2.ram } := by rw [is2, is1]
    have caller : k2.curproc.pgdir = k.curproc.pgdir := by rw [same2]
    apply Meets.get_bind
    have pushes : Meets fine (pushArguments k2.curproc.pgdir next argv [] size) k2.ram fun _ r' =>
        r'.mem = k2.ram.mem ∧ (Short argv → WritesOnly next k2.ram r') := by
      by_cases fits : Short argv
      · exact (stack.pushArguments_writes (Nat.sub_le ..) le_rfl (Nat.zero_le _) fits).weaken
          fun _ _ done => ⟨done.1, fun _ => done.2⟩
      · exact (pushArguments_mem (stray fits) size).weaken fun _ _ same => ⟨same, fun fit => absurd fit fits⟩
    apply (onRam_meets pushes.with_run).bind
    intro esp k3 ⟨⟨⟨mem, written⟩, ran⟩, is3⟩
    have building3 := building2.written mem fun fits => ⟨fits, written fits⟩
    have same3 : k3 = { k with ram := k3.ram } := by rw [is3, same2]
    cases esp with
    | none => exact refused building3 same3
    | some esp =>
      apply (commit_meets building3 (caller ▸ holds)).weaken
      intro value final ⟨done, isFinal, same⟩
      refine .inr ⟨done, ?_, ?_⟩
      · rw [isFinal]
        have user := loaded1.below.le
        refine ⟨user, building3.closed, fits, ?_⟩
        obtain ⟨addrs, pushed, others⟩ := pushArguments_pushed stack short ran
        refine ⟨addrs, pushed.of_read fun va inside => same va (inside.trans_le user), ?_⟩
        intro va inside outside
        rw [same va (inside.trans_le user), others va (inside.trans_le user) outside, contents va inside]
      · rw [isFinal, same3]

structure Balanced (k final : Kernel) : Prop where
  begun : final.begun = k.begun + 1
  ended : final.ended = k.ended + 1
  ref : final.ref = k.ref
  locked : final.locked = k.locked

def opened (k : Kernel) : Kernel := { k with begun := k.begun + 1, ref := k.ref + 1, locked := true }

theorem balanced_released (unlocked : k.locked = false) (ram : Ram) (curproc : Process) :
    Balanced k { released (opened k) ram with curproc } :=
  ⟨rfl, rfl, Int.add_sub_cancel .., unlocked.symm⟩

def ExecEnds (file : List Byte) (argv : List (List Byte)) (k : Kernel) (value : Int) (final : Kernel) : Prop :=
  Balanced k final ∧
    ((value = -1 ∧ Restored (Short argv) k.ram final.ram ∧ final.curproc = k.curproc) ∨
      (value = 0 ∧ Committed file argv final.ram final.curproc))

theorem ExecEnds.failed {ram : Ram} (unlocked : k.locked = false) (restored : Restored (Short argv) k.ram ram) :
    ExecEnds file argv k (-1) (released (opened k) ram) :=
  ⟨balanced_released unlocked ram k.curproc, .inl ⟨rfl, restored, rfl⟩⟩

theorem ExecEnds.of_stack {value : Int} {final : Kernel} {ram : Ram} (unlocked : k.locked = false)
    (ends : StackEnds file argv k.ram (released (opened k) ram) value final) : ExecEnds file argv k value final := by
  cases ends with
  | inl failure =>
    obtain ⟨failed, restored, is⟩ := failure
    rw [is, failed]
    exact .failed unlocked restored
  | inr success =>
    obtain ⟨done, committed, is⟩ := success
    refine ⟨?_, .inr ⟨done, committed⟩⟩
    rw [is]
    exact balanced_released unlocked final.ram final.curproc

theorem loaded_kernelOnly (only : KernelOnly pgdir) : Loaded file [] r pgdir 0 where
  below := by decide
  mapped := fun va inside => absurd inside (Nat.not_lt_zero va)
  empty := fun va _ user => only.user va user
  fits := fun _ member => by cases member
  contents := fun va inside => absurd inside (Nat.not_lt_zero va)

theorem exec_meets (linked : Linked data) (stray : ¬ Short argv → fine .nullPte)
    (holds : Holds fine k.curproc.pgdir.pages k.ram)
    (unlocked : k.locked = false) (short : ∀ arg ∈ argv, arg.length + 1 < 2 ^ 32) :
    Meets fine (exec (kmap data) path (some file) argv) k (ExecEnds file argv k) := by
  have refused {ram : Ram} (restored : Restored (Short argv) k.ram ram) :
      Meets fine (bad none true) { opened k with ram } (ExecEnds file argv k) :=
    .returns rfl (.failed unlocked restored)
  have nothing : Restored (Short argv) k.ram k.ram := ⟨rfl, rfl, fun _ _ _ => rfl⟩
  unfold exec
  apply Meets.modify_bind
  apply Meets.modify_bind
  apply Meets.modify_bind
  change Meets fine _ (opened k) _
  split
  · exact refused nothing
  · split
    · exact refused nothing
    · have setup : Meets fine (lift (setupkvm (kmap data))) (opened k).ram _ :=
        setupkvm_builds (Short argv) linked holds
      apply (onRam_meets setup).bind
      intro made k1 ⟨built, is1⟩
      cases made with
      | none =>
        rw [is1]
        exact refused built
      | some pgdir =>
        obtain ⟨building, only⟩ := built
        apply (onRam_meets (execLoad_meets (loaded_kernelOnly only) (building.alone holds))).bind
        intro (loadedDir, size) k2 ⟨⟨kept, loaded⟩, is2⟩
        have building2 := building.kept kept
        have same2 : k2 = { opened k with ram := k2.ram } := by rw [is2, is1]
        cases size with
        | none =>
          apply (bad_meets building2 holds).weaken
          intro value final ⟨failed, restored, is, _⟩
          rw [failed, is, same2]
          exact .failed unlocked restored
        | some size =>
          rw [same2]
          apply Meets.modify_bind
          apply Meets.modify_bind
          have rest : Meets fine (execStack path file argv loadedDir size) (released (opened k) k2.ram) _ :=
            execStack_meets stray (loaded size rfl) building2 holds short
          apply rest.weaken
          intro value final ends
          exact .of_stack unlocked ends

end Xv6.Image
