import Xv6.Memory.Mappings

namespace Xv6.Memory

open Xv6.Data

/-! # Where the functions of `vm.c` leave pages

Every function that returns has moved pages only between the free list, the page
directory it works on and its result.
-/

variable {pgdir : PageDir} {map : List KMap} {va a : Nat}

def PageDir.tables (pgdir : PageDir) : Multiset Page :=
  ((List.finRange NPDENTRIES).map fun i =>
    ((pgdir.table i).map fun table => ({table.page} : Multiset Page)).getD 0).sum + {pgdir.page}

def PageDir.userPages (pgdir : PageDir) : Multiset Page :=
  ∑ i : Fin NPDENTRIES, if UserIndex i then ∑ j : Fin NPTENTRIES, ptePages (pgdir.pte (i * 4194304 + j * 4096)) else 0

theorem PageDir.pages_split (pgdir : PageDir) : pgdir.pages = pgdir.tables + pgdir.userPages := by
  have own (i : Fin NPDENTRIES) : tablePages i (pgdir.table i) =
      ((pgdir.table i).map fun table => ({table.page} : Multiset Page)).getD 0 +
        if UserIndex i then ∑ j : Fin NPTENTRIES, ptePages (pgdir.pte (i * 4194304 + j * 4096)) else 0 := by
    have entry (j : Fin NPTENTRIES) : pgdir.pte (i * 4194304 + j * 4096) = (pgdir.table i).bind (·.pte j) := by
      rw [PageDir.pte, (pdx_ptx_index i j).1, (pdx_ptx_index i j).2]
    cases found : pgdir.table i with
    | none => simp [entry, found, ptePages]
    | some table => simp [entry, found, tablePages_some]
  simp only [PageDir.pages_eq, own, Finset.sum_add_distrib, PageDir.tables, PageDir.userPages]
  rw [Fin.sum_univ_def]
  abel

theorem PageDir.userPages_congr {other : PageDir} (same : ∀ va < KERNBASE, pgdir.pte va = other.pte va) :
    pgdir.userPages = other.userPages := by
  apply Finset.sum_congr rfl
  intro i _
  split
  · rename_i user
    apply Finset.sum_congr rfl
    intro j _
    have inner : j.val < 1024 := j.isLt
    change i.val < 512 at user
    rw [same _ (by change _ < 2147483648; omega)]
  · rfl

theorem PageDir.userPages_unmapped (unmapped : ∀ va < KERNBASE, pgdir.pte va = none) : pgdir.userPages = 0 := by
  have same : pgdir.userPages = PageDir.userPages ⟨0, fun _ => none⟩ := PageDir.userPages_congr unmapped
  rw [same]
  simp [PageDir.userPages, PageDir.pte, ptePages]

theorem freevm_conserves (pgdir : PageDir) :
    Conserves freePages pgdir.pages (freevm pgdir) fun _ kept => kept = 0 := by
  have clears : ∀ m result final, (deallocuvm pgdir KERNBASE 0).run m = .ok (result, final) →
      ∀ va < KERNBASE, result.1.pte va = none := by
    intro m result final ran va inside
    have allowed : Meets (fun _ => True) (deallocuvm pgdir KERNBASE 0) m _ :=
      deallocuvm_meets le_rfl (by decide) fun _ _ _ _ _ => .inl trivial
    have limit : KERNBASE = 2147483648 := rfl
    have page := Nat.div_mul_le_self va PGSIZE
    rw [(allowed.of_run ran).1.pte va (by omega), if_pos ⟨Nat.zero_le va, by omega⟩]
  refine ((deallocuvm_conserves le_rfl).returns clears).bind ?_
  rintro ⟨cleared, _⟩ _ ⟨rfl, unmapped⟩
  rw [cleared.pages_split, PageDir.userPages_unmapped unmapped, add_zero]
  refine (Conserves.frame _ (.forM ?_)).bind ?_
  · intro i _
    cases cleared.table i with
    | none => exact .pure rfl
    | some table => exact kfree_conserves table.page
  · rintro _ _ ⟨_, rfl, rfl⟩
    rw [zero_add]
    exact kfree_conserves cleared.page

/-- A row of the kernel's mappings that maps no user address. -/
structure KMap.InKernel (k : KMap) : Prop where
  small : k.virt < 2 ^ 32
  kernel : ∀ i ≤ mapCount k.virt k.size, ¬ UserIndex (PDX ((PGROUNDDOWN k.virt + i * PGSIZE) % 2 ^ 32))

def KernelMap (map : List KMap) : Prop := ∀ k ∈ map, k.InKernel

theorem KMap.inKernel_of_bounds {k : KMap} (aligned : k.virt % PGSIZE = 0) (above : KERNBASE ≤ k.virt)
    (filled : 0 < k.size) (inside : k.virt + k.size ≤ 2 ^ 32) : k.InKernel := by
  obtain ⟨size, limit⟩ := page_sizes
  rw [size] at aligned
  refine ⟨by omega, fun i few user => ?_⟩
  have count : mapCount k.virt k.size = (k.size - 1) / 4096 := by
    simp only [mapCount, PGROUNDDOWN, size]
    omega
  rw [count] at few
  have first : PGROUNDDOWN k.virt = k.virt := by
    simp only [PGROUNDDOWN, size]
    omega
  rw [first, size, Nat.mod_eq_of_lt (by omega)] at user
  change (k.virt + i * 4096) / 4194304 % 1024 < 512 at user
  omega

/-- The mappings of the source, wherever the linker puts `data` in the kernel. -/
theorem kernelMap_kmap {data : Nat} (aligned : data % PGSIZE = 0) (above : KERNLINK < data)
    (below : data < KERNBASE + PHYSTOP) : KernelMap (kmap data) := by
  have limit : KERNBASE = 2147483648 := rfl
  have stop : PHYSTOP = 234881024 := rfl
  have link : KERNLINK = 2148532224 := rfl
  have ext : EXTMEM = 1048576 := rfl
  have dev : DEVSPACE = 4261412864 := rfl
  intro k member
  simp only [kmap, List.mem_cons, List.not_mem_nil, or_false] at member
  rcases member with rfl | rfl | rfl | rfl
  all_goals
    apply KMap.inKernel_of_bounds
    · first
      | exact aligned
      | exact (by decide : KERNBASE % PGSIZE = 0)
      | exact (by decide : KERNLINK % PGSIZE = 0)
    all_goals
      simp only [KMap.size]
      omega

theorem setupkvmLoop_conserves (pgdir : PageDir) (kernel : KernelMap map) :
    Conserves freePages pgdir.pages (setupkvmLoop map pgdir) fun result kept =>
      kept = result.elim 0 PageDir.pages := by
  induction map generalizing pgdir with
  | nil => exact .pure rfl
  | cons k rest ih =>
    obtain ⟨row, others⟩ := List.forall_mem_cons.mp kernel
    have first : PGROUNDDOWN k.virt < 2 ^ 32 := (Nat.div_mul_le_self _ _).trans_lt row.small
    refine (mapKernel_conserves first row.kernel).bind ?_
    rintro ⟨next, mapped⟩ _ rfl
    cases mapped with
    | true => exact ih next others
    | false =>
      refine (freevm_conserves next).bind ?_
      rintro _ _ rfl
      exact .pure rfl

theorem setupkvm_conserves (kernel : KernelMap map) :
    Conserves freePages 0 (setupkvm map) fun result kept => kept = result.elim 0 PageDir.pages := by
  refine kalloc_conserves.bind ?_
  rintro page _ rfl
  cases page with
  | none => exact .pure rfl
  | some page =>
    have fresh : PageDir.pages ⟨page, fun _ => none⟩ = {page} := by simp [PageDir.pages_eq]
    have built := setupkvmLoop_conserves ⟨page, fun _ => none⟩ kernel
    rw [fresh] at built
    exact built

theorem mappages_page {pa perm : Nat} (aligned : va % PGSIZE = 0) (below : va < KERNBASE) :
    Conserves freePages ({pa} + pgdir.pages) (mappages pgdir va PGSIZE pa perm) fun result kept =>
      kept = (if result.2 then 0 else {pa}) + result.1.pages := by
  rw [mappages_one aligned below]
  exact mapUser_conserves (userIndex_of_lt below)

theorem kalloc_frame (held : Multiset Page) : Conserves freePages held kalloc fun page kept =>
    kept = page.elim 0 ({·}) + held := by
  have framed := kalloc_conserves.frame held
  rw [zero_add] at framed
  refine framed.weaken ?_
  rintro page _ ⟨_, rfl, rfl⟩
  rfl

variable {oldsz newsz fuel sz : Nat} {held : Multiset Page}

theorem allocuvmLoop_conserves (below : newsz < KERNBASE) (aligned : a % PGSIZE = 0) :
    Conserves freePages pgdir.pages (allocuvmLoop oldsz newsz fuel pgdir a) fun result kept =>
      kept = result.1.pages := by
  induction fuel generalizing pgdir a with
  | zero =>
    unfold allocuvmLoop
    split
    · exact .throw
    · exact .pure rfl
  | succ fuel ih =>
    unfold allocuvmLoop
    split
    · rename_i inside
      refine (kalloc_frame pgdir.pages).bind ?_
      rintro mem _ rfl
      cases mem with
      | none =>
        rw [Option.elim_none, zero_add]
        refine (deallocuvm_conserves below.le).bind ?_
        rintro _ _ rfl
        exact .pure rfl
      | some mem =>
        refine (mappages_page aligned (inside.trans below)).bind ?_
        rintro ⟨next, mapped⟩ _ rfl
        cases mapped with
        | true =>
          rw [if_pos rfl, zero_add]
          exact ih (aligned_add aligned)
        | false =>
          rw [if_neg Bool.false_ne_true, add_comm]
          refine ((deallocuvm_conserves below.le).frame _).bind ?_
          rintro ⟨last, _⟩ _ ⟨_, rfl, rfl⟩
          rw [add_comm]
          refine ((kfree_conserves mem).frame _).bind ?_
          rintro _ _ ⟨_, rfl, rfl⟩
          exact .pure (zero_add _)
    · exact .pure rfl

theorem allocuvm_conserves :
    Conserves freePages pgdir.pages (allocuvm pgdir oldsz newsz) fun result kept =>
      kept = result.1.pages := by
  unfold allocuvm
  split
  · exact .pure rfl
  · rename_i below
    split
    · exact .pure rfl
    · exact allocuvmLoop_conserves (not_le.mp below) (aligned_PGROUNDUP oldsz)

section

variable {start : PageDir} {m : Mem} {oldsz newsz fuel : Nat} (below : newsz < KERNBASE)
  (above : oldsz ≤ PGROUNDUP oldsz) (unmapped : ∀ va, PGROUNDUP oldsz ≤ va → va < KERNBASE → start.pte va = none)
include below above unmapped

theorem deallocuvm_restores (later : PGROUNDUP oldsz ≤ a) (inside : a < newsz)
    (old : ∀ va < PGROUNDUP oldsz, pgdir.pte va = start.pte va)
    (empty : ∀ va, a ≤ va → va < KERNBASE → pgdir.pte va = none) :
    Meets (fun _ => True) (deallocuvm pgdir newsz oldsz) m fun result _ =>
      ∀ va < KERNBASE, result.1.pte va = start.pte va := by
  have limit : KERNBASE = 2147483648 := rfl
  apply (deallocuvm_meets below.le (by omega) fun _ _ _ _ _ => .inl trivial).weaken
  intro result final ⟨cleared, _, _⟩ va user
  have page := Nat.div_mul_le_self va PGSIZE
  rw [cleared.pte va (by omega)]
  split
  · next both => rw [unmapped va both.1 user]
  · rename_i outside
    by_cases lower : va < PGROUNDUP oldsz
    · exact old va lower
    · rw [empty va (by omega) user, unmapped va (by omega) user]

theorem allocuvmLoop_restores (aligned : a % PGSIZE = 0) (later : PGROUNDUP oldsz ≤ a)
    (nothing : newsz = 0 → ∀ va < KERNBASE, pgdir.pte va = start.pte va)
    (old : ∀ va < PGROUNDUP oldsz, pgdir.pte va = start.pte va)
    (empty : ∀ va, a ≤ va → va < KERNBASE → pgdir.pte va = none) :
    Meets (fun _ => True) (allocuvmLoop oldsz newsz fuel pgdir a) m fun result _ =>
      result.2 = 0 → ∀ va < KERNBASE, result.1.pte va = start.pte va := by
  obtain ⟨size, limit⟩ := page_sizes
  induction fuel generalizing pgdir a m with
  | zero =>
    unfold allocuvmLoop
    split
    · exact .throw trivial
    · exact .pure nothing
  | succ fuel ih =>
    unfold allocuvmLoop
    split
    · rename_i inside
      apply kalloc_meets.bind
      intro mem middle _
      cases mem with
      | none =>
        apply (deallocuvm_restores below above unmapped later inside old empty).bind
        exact fun _ _ same => .pure fun _ => same
      | some mem =>
        apply (mappages_meets aligned (inside.trans below) (empty a le_rfl (inside.trans below))).bind
        intro (next, mapped) middle ⟨is, _⟩
        cases mapped with
        | false =>
          have walked : Walked pgdir a next := by simpa [PageMapped] using is
          rw [← walked.pte] at old empty
          apply (deallocuvm_restores below above unmapped later inside old empty).bind
          intro _ _ same
          exact (kfree_meets (.inl trivial)).bind fun _ _ _ => .pure fun _ => same
        | true =>
          have stored : Stored pgdir a (some ⟨mem, PTE_W + PTE_U⟩) next := by
            simp only [PageMapped, ↓reduceIte] at is
            exact is.1
          have apart (va : Nat) (user : va < KERNBASE) (outside : va < a ∨ a + PGSIZE ≤ va) :
              next.pte va = pgdir.pte va := by
            rw [stored.pte va (by omega), if_neg]
            rw [size] at aligned outside ⊢
            omega
          apply ih (aligned_add aligned) (by omega) (fun zero => absurd zero (by omega))
          · intro va lower
            rw [apart va (by omega) (by omega)]
            exact old va lower
          · intro va lower user
            rw [apart va user (by omega)]
            exact empty va (by omega) user
    · exact .pure nothing

end

theorem allocuvm_restores {m final : Mem} {result : PageDir}
    (unmapped : ∀ va, PGROUNDUP oldsz ≤ va → va < KERNBASE → pgdir.pte va = none)
    (ran : (allocuvm pgdir oldsz newsz).run m = .ok ((result, 0), final)) :
    (∀ va < KERNBASE, result.pte va = pgdir.pte va) ∧
      result.tables + freePages final = pgdir.tables + freePages m := by
  have same : ∀ va < KERNBASE, result.pte va = pgdir.pte va := by
    have restored : Meets (fun _ => True) (allocuvm pgdir oldsz newsz) m fun result _ =>
        result.2 = 0 → ∀ va < KERNBASE, result.1.pte va = pgdir.pte va := by
      unfold allocuvm
      split
      · exact .pure fun _ _ _ => rfl
      · rename_i below
        split
        · next shrinks => exact .pure fun zero => absurd zero (by omega)
        · rename_i grows
          exact allocuvmLoop_restores (not_le.mp below) (le_PGROUNDUP (by omega)).1 unmapped
            (aligned_PGROUNDUP oldsz) le_rfl (fun _ _ _ => rfl) (fun _ _ => rfl) unmapped
    exact restored.of_run ran rfl
  refine ⟨same, ?_⟩
  obtain ⟨_, rfl, conserved⟩ := allocuvm_conserves m _ final ran
  rw [PageDir.pages_split, PageDir.pages_split, PageDir.userPages_congr same, add_right_comm,
    add_right_comm pgdir.tables] at conserved
  exact add_right_cancel conserved

/-- `deallocuvm` is the loop over all pages, frees and clears what is mapped in its range, and undoes what an
`allocuvm` that fails has done. -/
theorem deallocuvm_clears_range {m : Mem} {oldsz newsz : Nat} (below : oldsz ≤ KERNBASE) (shrinks : newsz < oldsz)
    (allocated : ∀ va < KERNBASE, ∀ pte, pgdir.pte va = some pte → Freeable m.kernelEnd pte.pa) :
    (deallocuvm pgdir oldsz newsz = do
      let pgdir ← clearPages (pagesFrom (PGROUNDUP newsz) oldsz) pgdir
      pure (pgdir, newsz)) ∧
    (∃ result, (deallocuvm pgdir oldsz newsz).run m = .ok ((result, newsz),
        { m with freelist := (pgdir.mapped (pagesFrom (PGROUNDUP newsz) oldsz)).reverse ++ m.freelist }) ∧
      ∀ va < 2 ^ 32, result.pte va =
        if PGROUNDUP newsz ≤ va ∧ PGROUNDDOWN va < oldsz then none else pgdir.pte va) ∧
    ∀ other result oldsz newsz m final, (∀ va, PGROUNDUP oldsz ≤ va → va < KERNBASE → PageDir.pte other va = none) →
      (allocuvm other oldsz newsz).run m = .ok ((result, 0), final) →
      (∀ va < KERNBASE, result.pte va = other.pte va) ∧
        result.tables + freePages final = other.tables + freePages m := by
  refine ⟨deallocuvm_eq below shrinks, ?_, fun _ _ _ _ _ _ => allocuvm_restores⟩
  have meets : Meets (fun _ => False) (deallocuvm pgdir oldsz newsz) m _ :=
    deallocuvm_meets below shrinks fun va user pte mapped _ => .inr (allocated va user pte mapped)
  obtain ⟨⟨result, _⟩, _, ran, cleared, rfl, rfl⟩ := meets.exists_run
  exact ⟨result, ran, cleared.pte⟩

def twoPages : PageDir where
  page := 0x200000
  table := fun i => if i = 0 then
      some ⟨0x201000, fun j => if j.val < 2 then some ⟨0x202000 + PGSIZE * j, PTE_W + PTE_U⟩ else none⟩
    else none

theorem deallocuvm_clears_range_two :
    ∃ result, (deallocuvm twoPages 8000 1).run ⟨[], 0x100000, []⟩ = .ok ((result, 1), ⟨[0x203000], 0x100000, []⟩) ∧
      result.pte 0 = some ⟨0x202000, PTE_W + PTE_U⟩ ∧ result.pte 4096 = none := by
  have allocated : ∀ va < KERNBASE, ∀ pte, twoPages.pte va = some pte → Freeable 0x100000 pte.pa := by
    intro va _ pte mapped
    simp only [PageDir.pte, twoPages] at mapped
    split at mapped
    · simp only [Option.bind_some] at mapped
      split at mapped
      · rename_i few
        cases mapped
        have place (j : Nat) (few : j < 2) : (2105344 + 4096 * j) % 4096 = 0 ∧ 1048576 ≤ 2105344 + 4096 * j ∧
            2105344 + 4096 * j < 234881024 ∧ 2105344 + 4096 * j ≠ 0 := by omega
        obtain ⟨aligned, lower, upper, positive⟩ := place _ few
        exact ⟨aligned, lower, upper, positive⟩
      · cases mapped
    · cases mapped
  have user : 8000 ≤ KERNBASE := by decide
  have shrinks : 1 < 8000 := by decide
  obtain ⟨_, ⟨result, ran, entries⟩, _⟩ :=
    @deallocuvm_clears_range twoPages ⟨[], 0x100000, []⟩ 8000 1 user shrinks allocated
  exact ⟨result, ran, entries 0 (by decide), entries 4096 (by decide)⟩

theorem copyuvmLoop_conserves {parent : PageDir} {i : Nat} (below : sz ≤ KERNBASE)
    (aligned : i % PGSIZE = 0) :
    Conserves freePages pgdir.pages (copyuvmLoop parent sz fuel pgdir i) fun result kept =>
      kept = result.elim 0 PageDir.pages := by
  induction fuel generalizing pgdir i with
  | zero =>
    unfold copyuvmLoop
    split
    · exact .throw
    · exact .pure rfl
  | succ fuel ih =>
    unfold copyuvmLoop
    split
    · rename_i inside
      split
      · exact .throw
      · split
        · exact .throw
        · rename_i pte present
          refine (kalloc_frame pgdir.pages).bind ?_
          rintro mem _ rfl
          cases mem with
          | none =>
            rw [Option.elim_none, zero_add]
            refine (freevm_conserves pgdir).bind ?_
            rintro _ _ rfl
            exact .pure rfl
          | some mem =>
            refine (mappages_page aligned (inside.trans_le below)).bind ?_
            rintro ⟨next, mapped⟩ _ rfl
            cases mapped with
            | true =>
              rw [if_pos rfl, zero_add]
              exact ih (aligned_add aligned)
            | false =>
              rw [if_neg Bool.false_ne_true]
              refine ((kfree_conserves mem).frame _).bind ?_
              rintro _ _ ⟨_, rfl, rfl⟩
              rw [zero_add]
              refine (freevm_conserves next).bind ?_
              rintro _ _ rfl
              exact .pure rfl
    · exact .pure rfl

theorem copyuvm_conserves (kernel : KernelMap map) (below : sz ≤ KERNBASE) :
    Conserves freePages 0 (copyuvm map pgdir sz) fun result kept => kept = result.elim 0 PageDir.pages := by
  refine (setupkvm_conserves kernel).bind ?_
  rintro d _ rfl
  cases d with
  | none => exact .pure rfl
  | some d => exact copyuvmLoop_conserves below rfl

theorem loaduvmLoop_reads {file : ElfFile} {addr offset i : Nat} :
    ∀ m value final, (loaduvmLoop pgdir addr file offset sz fuel i).run m = .ok (value, final) → final = m := by
  induction fuel generalizing i with
  | zero =>
    intro m value final ran
    unfold loaduvmLoop at ran
    split at ran <;> cases ran
    rfl
  | succ fuel ih =>
    intro m value final ran
    unfold loaduvmLoop at ran
    split at ran
    · split at ran
      · cases ran
      · split at ran
        · exact ih m value final ran
        · cases ran
          rfl
    · cases ran
      rfl

theorem loaduvm_conserves {file : ElfFile} {addr offset : Nat} :
    Conserves freePages held (loaduvm pgdir addr file offset sz) fun _ kept => kept = held := by
  unfold loaduvm
  split
  · exact .throw
  · exact .reads loaduvmLoop_reads

theorem clearpteu_conserves : Conserves freePages pgdir.pages (clearpteu pgdir va) fun result kept =>
    kept = result.pages := by
  unfold clearpteu
  split
  · rename_i table found
    refine .pure ?_
    by_cases user : UserIndex (PDX va)
    · have stored := pgdir.pages_setPte user (by simp [found])
        ((pgdir.pte va).map fun pte => { pte with flags := pte.flags &&& (0xFFF - PTE_U) })
      have same : ptePages ((pgdir.pte va).map fun pte => { pte with flags := pte.flags &&& (0xFFF - PTE_U) }) =
          ptePages (pgdir.pte va) := by
        cases pgdir.pte va <;> rfl
      rw [same] at stored
      exact (add_right_cancel stored).symm
    · exact (pgdir.pages_setPte_kernel user _).symm
  · exact .throw

theorem execLoad_conserves {file : ElfFile} {left off : Nat} :
    Conserves freePages pgdir.pages (execLoad file left off pgdir sz) fun result kept =>
      kept = result.1.pages := by
  induction left generalizing off pgdir sz with
  | zero => exact .pure rfl
  | succ left ih =>
    unfold execLoad
    dsimp only
    split
    · exact .pure rfl
    · split
      · exact ih
      · split
        · exact .pure rfl
        · split
          · exact .pure rfl
          · refine allocuvm_conserves.bind ?_
            rintro ⟨next, size⟩ _ rfl
            dsimp only
            split
            · exact .pure rfl
            · split
              · exact .pure rfl
              · refine loaduvm_conserves.bind ?_
                rintro loaded _ rfl
                cases loaded with
                | true => exact ih
                | false => exact .pure rfl

theorem execImage_conserves {file : Option ElfFile} (kernel : KernelMap map) :
    Conserves freePages 0 (execImage map file) fun result kept =>
      kept = result.elim 0 fun image => image.1.pages := by
  have failed (pgdir : PageDir) : Conserves freePages pgdir.pages (do freevm pgdir; pure none)
      fun (result : Option (PageDir × Nat)) kept => kept = result.elim 0 fun image => image.1.pages := by
    refine (freevm_conserves pgdir).bind ?_
    rintro _ _ rfl
    exact .pure rfl
  unfold execImage
  split
  · exact .pure rfl
  · rename_i file
    split
    · exact .pure rfl
    · split
      · exact .pure rfl
      · refine (setupkvm_conserves kernel).bind ?_
        rintro fresh _ rfl
        cases fresh with
        | none => exact .pure rfl
        | some pgdir =>
          refine execLoad_conserves.bind ?_
          rintro ⟨loaded, sz⟩ _ rfl
          cases sz with
          | none => exact failed loaded
          | some sz =>
            refine allocuvm_conserves.bind ?_
            rintro ⟨stacked, size⟩ _ rfl
            dsimp only
            split
            · exact failed stacked
            · refine clearpteu_conserves.bind ?_
              rintro guarded _ rfl
              exact .pure rfl

/-- An `allocuvm` that succeeds has found or made a page table for every page. -/
theorem allocuvmLoop_tables {m : Mem} (below : newsz < KERNBASE) (aligned : a % PGSIZE = 0) :
    Meets (fun _ => True) (allocuvmLoop oldsz newsz fuel pgdir a) m fun result _ => result.2 ≠ 0 → result.2 = newsz ∧
      (∀ i, (pgdir.table i).isSome → (result.1.table i).isSome) ∧
      ∀ b, a ≤ b → b < newsz → b % PGSIZE = 0 → (result.1.table (PDX b)).isSome := by
  have size : PGSIZE = 4096 := rfl
  have finished {d : PageDir} {m : Mem} {a : Nat} (past : ¬a < newsz) : Meets (fun _ => True)
      (pure (d, newsz) : Vm _) m fun result _ => result.2 ≠ 0 → result.2 = newsz ∧
        (∀ i, (d.table i).isSome → (result.1.table i).isSome) ∧
        ∀ b, a ≤ b → b < newsz → b % PGSIZE = 0 → (result.1.table (PDX b)).isSome :=
    .pure fun _ => ⟨rfl, fun _ => id, fun b lower upper => absurd (lower.trans_lt upper) past⟩
  induction fuel generalizing pgdir a m with
  | zero =>
    unfold allocuvmLoop
    split
    · exact .throw trivial
    · next past => exact finished past
  | succ fuel ih =>
    unfold allocuvmLoop
    split
    · rename_i inside
      apply kalloc_meets.bind
      intro mem middle _
      cases mem with
      | none => exact Meets.unknown.bind fun _ _ _ => .pure fun nonzero => absurd rfl nonzero
      | some mem =>
        apply (mappages_tables aligned (inside.trans below)).bind
        intro (next, mapped) later ⟨kept, here⟩
        cases mapped with
        | false =>
          apply Meets.unknown.bind
          intro _ _ _
          exact Meets.unknown.bind fun _ _ _ => .pure fun nonzero => absurd rfl nonzero
        | true =>
          apply (ih (aligned_add aligned)).weaken
          intro result _ more nonzero
          obtain ⟨is, tables, rest⟩ := more nonzero
          refine ⟨is, fun i present => tables i (kept i present), ?_⟩
          intro b lower upper multiple
          by_cases first : b = a
          · rw [first]
            exact tables _ (here rfl)
          · rw [size] at aligned multiple rest
            exact rest b (by omega) upper multiple
    · next past => exact finished past

theorem allocuvm_tables {m : Mem} (below : oldsz ≤ KERNBASE) :
    Meets (fun _ => True) (allocuvm pgdir oldsz newsz) m fun result _ => result.2 ≤ KERNBASE ∧
      (oldsz ≤ newsz → result.2 ≠ 0 → result.2 = newsz ∧
        ∀ b, PGROUNDUP oldsz ≤ b → b < newsz → b % PGSIZE = 0 → (result.1.table (PDX b)).isSome) := by
  unfold allocuvm
  split
  · exact .pure ⟨Nat.zero_le _, fun _ nonzero => absurd rfl nonzero⟩
  · rename_i small
    split
    · next shrinks => exact .pure ⟨below, fun grows => absurd shrinks (Nat.not_lt.mpr grows)⟩
    · apply (allocuvmLoop_tables (not_le.mp small) (aligned_PGROUNDUP oldsz)).weaken
      intro result _ known
      refine ⟨?_, fun _ nonzero => ⟨(known nonzero).1, (known nonzero).2.2⟩⟩
      by_cases zero : result.2 = 0
      · rw [zero]
        exact Nat.zero_le _
      · rw [(known zero).1]
        exact (not_le.mp small).le

theorem allocuvm_size (below : oldsz ≤ KERNBASE) :
    ∀ m result final, (allocuvm pgdir oldsz newsz).run m = .ok (result, final) → result.2 ≤ KERNBASE :=
  fun _ _ _ ran => ((allocuvm_tables below).of_run ran).1

theorem deallocuvm_size :
    ∀ m result final, (deallocuvm pgdir oldsz newsz).run m = .ok (result, final) → result.2 ≤ oldsz := by
  intro m result final ran
  unfold deallocuvm at ran
  split at ran
  · cases ran
    exact le_rfl
  · rename_i smaller
    obtain ⟨_, _, _, last⟩ := run_bind_ok ran
    cases last
    exact (not_le.mp smaller).le

theorem execLoad_size {file : ElfFile} {left off : Nat} (below : sz ≤ KERNBASE) :
    ∀ m result final, (execLoad file left off pgdir sz).run m = .ok (result, final) →
      ∀ size, result.2 = some size → size ≤ KERNBASE := by
  induction left generalizing off pgdir sz with
  | zero =>
    intro m result final ran size is
    cases ran
    exact Option.some.inj is ▸ below
  | succ left ih =>
    intro m result final ran
    unfold execLoad at ran
    dsimp only at ran
    split at ran
    · cases ran
      simp
    · split at ran
      · exact ih below m result final ran
      · split at ran
        · cases ran
          simp
        · split at ran
          · cases ran
            simp
          · obtain ⟨⟨next, size⟩, middle, allocated, rest⟩ := run_bind_ok ran
            have small := allocuvm_size below m _ _ allocated
            dsimp only at rest small
            split at rest
            · cases rest
              simp
            · split at rest
              · cases rest
                simp
              · obtain ⟨loaded, later, _, last⟩ := run_bind_ok rest
                cases loaded with
                | true => exact ih small later result final last
                | false =>
                  cases last
                  simp

/-- The two pages on top of a new address space, the guard page below the stack. -/
structure StackTables (pgdir : PageDir) (sz : Nat) : Prop where
  aligned : sz % PGSIZE = 0
  lower : 2 * PGSIZE ≤ sz
  upper : sz ≤ KERNBASE
  top : (pgdir.table (PDX (sz - PGSIZE))).isSome
  guard : ∃ table, pgdir.table (PDX (sz - 2 * PGSIZE)) = some table ∧
    ∀ pte, table.pte (PTX (sz - 2 * PGSIZE)) = some pte → pte.flags &&& PTE_U = 0

theorem clearpteu_stack {m final : Mem} {guarded : PageDir} (aligned : sz % PGSIZE = 0) (lower : 2 * PGSIZE ≤ sz)
    (upper : sz ≤ KERNBASE) (top : (pgdir.table (PDX (sz - PGSIZE))).isSome)
    (ran : (clearpteu pgdir (sz - 2 * PGSIZE)).run m = .ok (guarded, final)) : StackTables guarded sz := by
  unfold clearpteu at ran
  split at ran
  · rename_i table found
    cases ran
    refine ⟨aligned, lower, upper, pgdir.isSome_table_setPte.trans top, ?_⟩
    simp only [PageDir.setPte, found, Function.update_self, Option.some.injEq, exists_eq_left']
    intro pte is
    obtain ⟨old, _, rfl⟩ := Option.map_eq_some_iff.mp is
    have cleared : (0xFFF - PTE_U) &&& PTE_U = 0 := by decide
    rw [Nat.land_assoc, cleared, Nat.and_zero]
  · cases ran

theorem execImage_stack {file : Option ElfFile} :
    ∀ m result final, (execImage map file).run m = .ok (result, final) →
      ∀ image, result = some image → StackTables image.1 image.2 := by
  intro m result final ran
  have failed {pgdir : PageDir} {m : Mem}
      (ran : (do freevm pgdir; pure none : Vm (Option (PageDir × Nat))).run m = .ok (result, final)) :
      ∀ image, result = some image → StackTables image.1 image.2 := by
    obtain ⟨_, _, _, last⟩ := run_bind_ok ran
    cases last
    simp
  unfold execImage at ran
  split at ran
  · cases ran
    simp
  · rename_i file
    split at ran
    · cases ran
      simp
    · split at ran
      · cases ran
        simp
      · obtain ⟨fresh, m1, _, rest⟩ := run_bind_ok ran
        cases fresh with
        | none =>
          cases rest
          simp
        | some pgdir =>
          obtain ⟨⟨loaded, sz⟩, m2, load, rest⟩ := run_bind_ok rest
          cases sz with
          | none => exact failed rest
          | some sz =>
            have small := execLoad_size (Nat.zero_le _) m1 _ _ load sz rfl
            obtain ⟨⟨stacked, size⟩, m3, allocated, rest⟩ := run_bind_ok rest
            obtain ⟨page, limit⟩ := page_sizes
            have multiple := aligned_PGROUNDUP sz
            have rounded : PGROUNDUP sz ≤ KERNBASE := by
              simp only [PGROUNDUP, page]
              omega
            have again : PGROUNDUP (PGROUNDUP sz) = PGROUNDUP sz := by
              rw [page] at multiple
              rw [PGROUNDUP, page]
              omega
            have known := (allocuvm_tables rounded).of_run allocated
            rw [Nat.mod_eq_of_lt (by omega), again] at known
            dsimp only at rest known
            split at rest
            · exact failed rest
            · rename_i nonzero
              obtain ⟨guarded, m4, cleared, last⟩ := run_bind_ok rest
              cases last
              obtain ⟨upper, more⟩ := known
              obtain ⟨is, tables⟩ := more (Nat.le_add_right ..) nonzero
              rintro _ ⟨⟩
              rw [page] at multiple is tables
              refine clearpteu_stack ?_ ?_ upper (tables _ ?_ ?_ ?_) cleared
              all_goals
                rw [page]
                omega

end Xv6.Memory
