import Xv6.Memory.Spaces

namespace Xv6.Memory

open Xv6.Data

/-! # The kernel half of an address space

`setupkvm` maps nothing below `KERNBASE`, and above it only pages that user code cannot
access.
-/

variable {fine : Panic → Prop} {m : Mem} {pgdir next : PageDir} {a va pa perm left start : Nat} {map : List KMap}

/-- The directory after the loop of `mappages` over `left + 1` pages, or after it
has run out of memory. -/
structure RowMapped (pgdir : PageDir) (a left perm : Nat) (next : PageDir) : Prop where
  outside : ∀ va < 2 ^ 32, va < a ∨ a + (left + 1) * PGSIZE ≤ va → next.pte va = pgdir.pte va
  inside : ∀ va < 2 ^ 32, ∀ pte, next.pte va = some pte → pgdir.pte va = some pte ∨ pte.flags = perm
  others : ∀ i, (∀ k ≤ left, PDX (a + k * PGSIZE) ≠ i) → next.table i = pgdir.table i
  kept : ∀ i, (pgdir.table i).isSome → (next.table i).isSome

theorem RowMapped.of_walked (walked : Walked pgdir a next) : RowMapped pgdir a left perm next where
  outside := fun va _ _ => by rw [walked.pte]
  inside := fun va _ pte mapped => .inl (by rwa [walked.pte] at mapped)
  others := by
    intro i apart
    exact walked.others i fun same => apart 0 (Nat.zero_le _) (by simpa using same.symm)
  kept := walked.kept

theorem RowMapped.of_stored {last : PageDir} (stored : Stored pgdir a (some ⟨pa, perm⟩) next)
    (aligned : a % PGSIZE = 0) (rest : left = 0 ∧ last = next ∨
      ∃ fewer, left = fewer + 1 ∧ RowMapped next (a + PGSIZE) fewer perm last) :
    RowMapped pgdir a left perm last := by
  have size : PGSIZE = 4096 := rfl
  have first : RowMapped pgdir a 0 perm next := {
    outside := by
      intro va small place
      rw [stored.pte va small, if_neg]
      rw [size] at aligned place ⊢
      omega
    inside := by
      intro va small pte mapped
      rw [stored.pte va small] at mapped
      split at mapped
      · cases mapped
        exact .inr rfl
      · exact .inl mapped
    others := by
      intro i apart
      exact stored.others i fun same => apart 0 (Nat.zero_le _) (by simpa using same.symm)
    kept := stored.kept }
  cases rest with
  | inl done =>
    obtain ⟨rfl, rfl⟩ := done
    exact first
  | inr more =>
    obtain ⟨fewer, rfl, row⟩ := more
    exact {
      outside := by
        intro va small place
        rw [size] at place
        rw [row.outside va small, first.outside va small]
        · rw [Nat.zero_add, Nat.one_mul, size]
          omega
        · rw [size]
          omega
      inside := by
        intro va small pte mapped
        cases row.inside va small pte mapped with
        | inl old => exact first.inside va small pte old
        | inr new => exact .inr new
      others := by
        intro i apart
        rw [row.others i, first.others i]
        · intro k few
          exact apart k (by omega)
        · intro k few
          have place : a + PGSIZE + k * PGSIZE = a + (k + 1) * PGSIZE := by ring
          rw [place]
          exact apart (k + 1) (by omega)
      kept := fun i found => row.kept i (first.kept i found) }

theorem mappagesLoop_meets (aligned : a % PGSIZE = 0) (within : a + (left + 1) * PGSIZE ≤ 2 ^ 32)
    (empty : ∀ va, a ≤ va → va < 2 ^ 32 → pgdir.pte va = none) :
    Meets fine (mappagesLoop perm left pgdir a pa) m fun result final =>
      RowMapped pgdir a left perm result.1 ∧
        (result.2 = true → ∀ k ≤ left, (result.1.table (PDX (a + k * PGSIZE))).isSome) ∧
        final.kernelEnd = m.kernelEnd := by
  have size : PGSIZE = 4096 := rfl
  have small : a < 2 ^ 32 := by
    rw [size] at within
    omega
  induction left generalizing pgdir a pa m with
  | zero =>
    refine mappagesRound_meets (empty a le_rfl small) ?_ ?_ small
    · intro next final walked same
      exact ⟨.of_walked walked, by simp, same⟩
    · intro next middle stored table same
      refine .pure ⟨.of_stored stored aligned (.inl ⟨rfl, rfl⟩), ?_, same⟩
      intro _ k first
      rwa [Nat.le_zero.mp first, Nat.zero_mul, Nat.add_zero]
  | succ left ih =>
    refine mappagesRound_meets (empty a le_rfl small) ?_ ?_ small
    · intro next final walked same
      exact ⟨.of_walked walked, by simp, same⟩
    · intro next middle stored table same
      have nextPage : (a + PGSIZE) % 2 ^ 32 = a + PGSIZE := by
        apply Nat.mod_eq_of_lt
        rw [size] at within ⊢
        omega
      dsimp only
      rw [nextPage]
      refine (ih (aligned_add aligned) ?_ ?_ ?_).weaken ?_
      · rw [size] at within ⊢
        omega
      · intro va lower upper
        rw [stored.pte va upper, if_neg]
        · exact empty va (by omega) upper
        · rw [size] at aligned lower ⊢
          omega
      · rw [size] at within ⊢
        omega
      · intro result final ⟨row, found, later⟩
        refine ⟨.of_stored stored aligned (.inr ⟨left, rfl, row⟩), ?_, later.trans same⟩
        intro done k few
        cases k with
        | zero =>
          rw [Nat.zero_mul, Nat.add_zero]
          exact row.kept _ table
        | succ k =>
          have place : a + (k + 1) * PGSIZE = a + PGSIZE + k * PGSIZE := by ring
          rw [place]
          exact found done k (by omega)

theorem PageDir.page_mem_pages (pgdir : PageDir) : pgdir.page ∈ pgdir.pages := by
  simp [PageDir.pages_eq]

theorem PageDir.table_mem_pages {i : Fin NPDENTRIES} {table : PageTable} (found : pgdir.table i = some table) :
    table.page ∈ pgdir.pages := by
  rw [PageDir.pages_eq, Multiset.mem_add]
  refine .inr ?_
  rw [Multiset.mem_sum]
  refine ⟨i, Finset.mem_univ i, ?_⟩
  rw [found, tablePages_some]
  simp

def AllFree (fine : Panic → Prop) (m : Mem) (held : Multiset Page) : Prop :=
  ∀ page ∈ held + freePages m, Frees fine m.kernelEnd page

theorem AllFree.moved {held kept : Multiset Page} {final : Mem} (free : AllFree fine m held)
    (pages : kept + freePages final = held + freePages m) (same : final.kernelEnd = m.kernelEnd) :
    AllFree fine final kept := by
  intro page member
  rw [same]
  exact free page (pages ▸ member)

theorem freevm_meets (free : AllFree fine m pgdir.pages) :
    Meets fine (freevm pgdir) m fun _ final => final.kernelEnd = m.kernelEnd := by
  have frees : ∀ va < KERNBASE, ∀ pte, pgdir.pte va = some pte → PGROUNDUP 0 ≤ va →
      Frees fine m.kernelEnd pte.pa := by
    intro va small pte mapped _
    apply free
    simp [PageDir.mem_pages (userIndex_of_lt small) mapped]
  apply ((deallocuvm_meets le_rfl (by decide) frees).conserving (deallocuvm_conserves le_rfl)).bind
  intro (cleared, _) middle ⟨⟨_, _, freed⟩, _, is, pages⟩
  subst is
  have same : middle.kernelEnd = m.kernelEnd := by rw [freed]
  have left := free.moved pages same
  refine (Meets.forM (fun now => now.kernelEnd = m.kernelEnd) same ?_).bind ?_
  · intro i _ now unchanged
    cases found : cleared.table i with
    | none => exact .pure unchanged
    | some table =>
      have owned := left table.page (by simp [PageDir.table_mem_pages found])
      rw [same, ← unchanged] at owned
      exact (kfree_meets owned).weaken fun _ final kept => kept ▸ unchanged
  · intro _ final unchanged
    have owned := left cleared.page (by simp [PageDir.page_mem_pages])
    rw [same, ← unchanged] at owned
    exact (kfree_meets owned).weaken fun _ last kept => kept ▸ unchanged

/-- A row of whole pages from `start` on, which user code cannot access. -/
structure KMap.Row (start : Nat) (k : KMap) : Prop where
  lower : start ≤ k.virt
  aligned : k.virt % PGSIZE = 0
  filled : 0 < k.size
  whole : k.size % PGSIZE = 0
  upper : k.virt + k.size ≤ 2 ^ 32
  kernel : k.perm &&& PTE_U = 0

theorem KMap.Row.pages {k : KMap} (row : k.Row start) :
    ∃ left, k.size = (left + 1) * PGSIZE ∧ mapCount k.virt k.size = left ∧ PGROUNDDOWN k.virt = k.virt := by
  have size : PGSIZE = 4096 := rfl
  have filled := row.filled
  have whole := row.whole
  have aligned := row.aligned
  have upper := row.upper
  rw [size] at whole aligned
  refine ⟨k.size / 4096 - 1, ?_, ?_, ?_⟩
  · rw [size]
    omega
  · simp only [mapCount, PGROUNDDOWN, size]
    omega
  · simp only [PGROUNDDOWN, size]
    omega

def Rows : Nat → List KMap → Prop
  | _, [] => True
  | start, k :: rest => k.Row start ∧ Rows (k.virt + k.size) rest

theorem Rows.cons {virt physStart physEnd size : Nat} (is : (physEnd + 2 ^ 32 - physStart) % 2 ^ 32 = size)
    (lower : start ≤ virt) (aligned : virt % PGSIZE = 0) (filled : 0 < size) (whole : size % PGSIZE = 0)
    (upper : virt + size ≤ 2 ^ 32) (kernel : perm &&& PTE_U = 0) (rest : Rows (virt + size) map) :
    Rows start (⟨virt, physStart, physEnd, perm⟩ :: map) := by
  subst is
  exact ⟨⟨lower, aligned, filled, whole, upper, kernel⟩, rest⟩

theorem rows_kmap {data : Nat} (aligned : data % PGSIZE = 0) (above : KERNLINK < data)
    (below : data < KERNBASE + PHYSTOP) : Rows KERNBASE (kmap data) := by
  have limit : KERNBASE = 2147483648 := rfl
  have stop : PHYSTOP = 234881024 := rfl
  have link : KERNLINK = 2148532224 := rfl
  have ext : EXTMEM = 1048576 := rfl
  have dev : DEVSPACE = 4261412864 := rfl
  have page : PGSIZE = 4096 := rfl
  have text : (data - KERNBASE + 2 ^ 32 - EXTMEM) % 2 ^ 32 = data - KERNLINK := by omega
  have others : (PHYSTOP + 2 ^ 32 - (data - KERNBASE)) % 2 ^ 32 = KERNBASE + PHYSTOP - data := by omega
  have first : (EXTMEM + 2 ^ 32 - 0) % 2 ^ 32 = EXTMEM := by decide
  have last : (0 + 2 ^ 32 - DEVSPACE) % 2 ^ 32 = 2 ^ 32 - DEVSPACE := by decide
  rw [page] at aligned
  apply Rows.cons first le_rfl (by decide) (by decide) (by decide) (by decide) (by decide)
  apply Rows.cons text (by decide) (by decide) _ _ _ (by decide)
  · apply Rows.cons others _ _ _ _ _ (by decide)
    · exact Rows.cons last (by omega) (by decide) (by decide) (by decide) (by decide) (by decide) True.intro
    · omega
    · exact aligned
    · omega
    · rw [page]
      omega
    · omega
  · omega
  · exact Nat.sub_mod_eq_zero_of_mod_eq aligned
  · omega

/-- No user page is mapped, and what is mapped cannot be accessed by user code. -/
structure KernelOnly (pgdir : PageDir) : Prop where
  user : ∀ va < KERNBASE, pgdir.pte va = none
  closed : ∀ va < 2 ^ 32, ∀ pte, pgdir.pte va = some pte → pte.flags &&& PTE_U = 0

theorem KernelOnly.of_row (only : KernelOnly pgdir) (row : RowMapped pgdir a left perm next)
    (above : KERNBASE ≤ a) (kernel : perm &&& PTE_U = 0) : KernelOnly next where
  user := by
    have top : KERNBASE = 2147483648 := rfl
    intro va small
    rw [row.outside va (by omega) (.inl (by omega))]
    exact only.user va small
  closed := by
    intro va small pte mapped
    cases row.inside va small pte mapped with
    | inl old => exact only.closed va small pte old
    | inr new => rw [new, kernel]

theorem setupkvmLoop_meets (rows : Rows start map) (above : KERNBASE ≤ start) (free : AllFree fine m pgdir.pages)
    (only : KernelOnly pgdir) (empty : ∀ va, start ≤ va → va < 2 ^ 32 → pgdir.pte va = none) :
    Meets fine (setupkvmLoop map pgdir) m fun result final =>
      (∀ d, result = some d → KernelOnly d ∧ (∀ i, (pgdir.table i).isSome → (d.table i).isSome) ∧
        ∀ k ∈ map, ∀ va, k.virt ≤ va → va < k.virt + k.size → (d.table (PDX va)).isSome) ∧
        final.kernelEnd = m.kernelEnd := by
  induction map generalizing pgdir start m with
  | nil =>
    refine .pure ⟨?_, rfl⟩
    intro d is
    cases is
    exact ⟨only, fun _ => id, by simp⟩
  | cons k rest ih =>
    obtain ⟨row, others⟩ := rows
    obtain ⟨left, count, pages, first⟩ := row.pages
    have aligned := row.aligned
    have upper := row.upper
    have lower := row.lower
    have inKernel := KMap.inKernel_of_bounds aligned (above.trans lower) row.filled upper
    have conserves : Conserves freePages pgdir.pages (mappagesLoop k.perm left pgdir k.virt k.physStart)
        fun result kept => kept = result.1.pages := by
      have kernel := inKernel.kernel
      rw [pages, first] at kernel
      exact mapKernel_conserves inKernel.small kernel
    have bare : ∀ va, k.virt ≤ va → va < 2 ^ 32 → pgdir.pte va = none :=
      fun va low high => empty va (lower.trans low) high
    rw [setupkvmLoop, mappages, pages, first]
    refine ((mappagesLoop_meets aligned (by rwa [← count]) bare).conserving conserves).bind ?_
    rintro ⟨next, mapped⟩ middle ⟨⟨mappedRow, found, same⟩, _, is, moved⟩
    dsimp only at mappedRow found is ⊢
    subst is
    have left' := free.moved moved same
    cases mapped with
    | false =>
      rw [if_pos rfl]
      apply (freevm_meets left').bind
      intro _ final kept
      exact .pure ⟨by simp, kept.trans same⟩
    | true =>
      rw [if_neg (by decide)]
      have bareNext : ∀ va, k.virt + k.size ≤ va → va < 2 ^ 32 → next.pte va = none := by
        intro va low high
        rw [mappedRow.outside va high (.inr (by rwa [← count]))]
        exact bare va (by omega) high
      apply (ih others (by omega) left' (only.of_row mappedRow (above.trans lower) row.kernel) bareNext).weaken
      rintro result final ⟨done, kept⟩
      refine ⟨?_, kept.trans same⟩
      intro d is
      obtain ⟨onlyNow, tables, rows⟩ := done d is
      refine ⟨onlyNow, fun i present => tables i (mappedRow.kept i present), ?_⟩
      intro row' member va low high
      cases List.mem_cons.mp member with
      | inl here =>
        have size : PGSIZE = 4096 := rfl
        rw [here, count, size] at high
        rw [here] at low
        rw [size] at aligned
        have page : PDX va = PDX (k.virt + (va - k.virt) / 4096 * 4096) := (same_page (by omega)).1
        rw [page]
        exact tables _ (found rfl _ (by omega))
      | inr later => exact rows row' later va low high

theorem setupkvm_meets (rows : Rows KERNBASE map) (free : AllFree fine m 0) :
    Meets fine (setupkvm map) m fun result final =>
      (∀ d, result = some d → KernelOnly d ∧
        ∀ k ∈ map, ∀ va, k.virt ≤ va → va < k.virt + k.size → (d.table (PDX va)).isSome) ∧
        final.kernelEnd = m.kernelEnd := by
  apply (kalloc_meets.conserving kalloc_conserves).bind
  intro page middle ⟨same, _, is, moved⟩
  subst is
  cases page with
  | none => exact .pure ⟨by simp, same⟩
  | some page =>
    have fresh : PageDir.pages ⟨page, fun _ => none⟩ = {page} := by simp [PageDir.pages_eq]
    have left := free.moved moved same
    rw [Option.elim_some, ← fresh] at left
    have only : KernelOnly ⟨page, fun _ => none⟩ := ⟨fun _ _ => rfl, fun _ _ _ mapped => by cases mapped⟩
    apply (setupkvmLoop_meets rows le_rfl left only fun _ _ _ => rfl).weaken
    intro result final ⟨done, kept⟩
    exact ⟨fun d is => ⟨(done d is).1, (done d is).2.2⟩, kept.trans same⟩

end Xv6.Memory
