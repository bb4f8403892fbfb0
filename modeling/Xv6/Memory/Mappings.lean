import Xv6.Data.Contract
import Xv6.Memory.Pages

namespace Xv6.Memory

open Xv6.Data

/-! # What the page-table functions map

`fine` says which panics are allowed.  A page may be freed where the panic of `kfree`
is allowed or the page is one of the allocator.
-/

variable {fine : Panic → Prop} {m : Mem} {pgdir next last : PageDir} {a va pa perm oldsz newsz fuel : Nat}
  {i : Fin NPDENTRIES}

theorem same_page (same : va / 4096 = a / 4096) : PDX va = PDX a ∧ PTX va = PTX a := by
  have outer : va / 4194304 = a / 4194304 := by omega
  constructor
  · exact congrArg (Fin.ofNat NPDENTRIES) outer
  · exact congrArg (Fin.ofNat NPTENTRIES) same

theorem same_entry_iff (small : va < 2 ^ 32) (base : a < 2 ^ 32) :
    PDX va = PDX a ∧ PTX va = PTX a ↔ va / PGSIZE = a / PGSIZE := by
  have outer (n : Nat) : (PDX n).val = n / 4194304 % 1024 := rfl
  have inner (n : Nat) : (PTX n).val = n / 4096 % 1024 := rfl
  have size : PGSIZE = 4096 := rfl
  rw [Fin.ext_iff, Fin.ext_iff, outer, outer, inner, inner, size]
  omega

theorem PageDir.pte_page (pgdir : PageDir) (small : va < 2 ^ 32) : pgdir.pte (va / PGSIZE * PGSIZE) = pgdir.pte va := by
  have size : PGSIZE = 4096 := rfl
  have page : va / PGSIZE * PGSIZE / PGSIZE = va / PGSIZE := by
    rw [size]
    omega
  obtain ⟨outer, inner⟩ := (same_entry_iff ((Nat.div_mul_le_self ..).trans_lt small) small).mpr page
  rw [PageDir.pte, PageDir.pte, outer, inner]

theorem PageDir.pte_setPte {pte : Option Pte} (found : (pgdir.table (PDX a)).isSome) (base : a < 2 ^ 32)
    (small : va < 2 ^ 32) :
    (pgdir.setPte a pte).pte va = if va / PGSIZE = a / PGSIZE then pte else pgdir.pte va := by
  by_cases same : va / PGSIZE = a / PGSIZE
  · rw [if_pos same]
    exact pte_setPte_of_page ((same_entry_iff small base).mpr same) found
  · rw [if_neg same]
    have different := mt (same_entry_iff small base).mp same
    obtain ⟨table, is⟩ := Option.isSome_iff_exists.mp found
    by_cases outer : PDX va = PDX a
    · have inner : PTX va ≠ PTX a := fun equal => different ⟨outer, equal⟩
      simp [PageDir.setPte, PageDir.pte, is, outer, inner]
    · simp [PageDir.setPte, PageDir.pte, is, outer]

theorem PageDir.table_setPte_of_ne {pte : Option Pte} (other : i ≠ PDX a) :
    (pgdir.setPte a pte).table i = pgdir.table i := by
  unfold PageDir.setPte
  split
  · exact Function.update_of_ne other ..
  · rfl

theorem PageDir.isSome_table_setPte (pgdir : PageDir) {pte : Option Pte} :
    ((pgdir.setPte a pte).table i).isSome = (pgdir.table i).isSome := by
  by_cases same : i = PDX a
  · subst same
    unfold PageDir.setPte
    split
    · next table is => simp [is]
    · rfl
  · rw [PageDir.table_setPte_of_ne same]

theorem PageDir.mem_pages {pte : Pte} (user : UserIndex (PDX va)) (mapped : pgdir.pte va = some pte) :
    pte.pa ∈ pgdir.pages := by
  cases found : pgdir.table (PDX va) with
  | none => simp [PageDir.pte, found] at mapped
  | some table =>
    have stored := pgdir.pages_setPte user (by simp [found]) none
    rw [mapped] at stored
    have whole : pgdir.pages = (pgdir.setPte va none).pages + {pte.pa} := by
      simpa [ptePages] using stored.symm
    rw [whole]
    simp

/-- The directory after `walkpgdir` for `a`: there may be an empty table more. -/
structure Walked (pgdir : PageDir) (a : Nat) (next : PageDir) : Prop where
  pte : next.pte = pgdir.pte
  others : ∀ i, i ≠ PDX a → next.table i = pgdir.table i
  kept : ∀ i, (pgdir.table i).isSome → (next.table i).isSome

structure Stored (pgdir : PageDir) (a : Nat) (pte : Option Pte) (next : PageDir) : Prop where
  pte : ∀ va < 2 ^ 32, next.pte va = if va / PGSIZE = a / PGSIZE then pte else pgdir.pte va
  others : ∀ i, i ≠ PDX a → next.table i = pgdir.table i
  kept : ∀ i, (pgdir.table i).isSome → (next.table i).isSome

theorem PageDir.stored_setPte (pte : Option Pte) (found : (pgdir.table (PDX a)).isSome) (base : a < 2 ^ 32) :
    Stored pgdir a pte (pgdir.setPte a pte) where
  pte := fun _ small => PageDir.pte_setPte found base small
  others := fun _ other => PageDir.table_setPte_of_ne other
  kept := fun _ => pgdir.isSome_table_setPte.trans

theorem Walked.store {pte : Option Pte} (walked : Walked pgdir a next) (stored : Stored next a pte last) :
    Stored pgdir a pte last where
  pte := by
    intro va small
    rw [stored.pte va small, walked.pte]
  others := fun i other => (stored.others i other).trans (walked.others i other)
  kept := fun i found => stored.kept i (walked.kept i found)

theorem kalloc_meets : Meets fine kalloc m fun _ final => final.kernelEnd = m.kernelEnd := by
  unfold Meets
  simp only [kalloc, StateT.run]
  split <;> exact rfl

structure Freeable (kernelEnd : Nat) (page : Page) : Prop where
  aligned : page % PGSIZE = 0
  lower : kernelEnd ≤ page
  upper : page < PHYSTOP
  positive : page ≠ 0

abbrev Frees (fine : Panic → Prop) (kernelEnd : Nat) (page : Page) : Prop :=
  fine .kfree ∨ Freeable kernelEnd page

theorem kfree_meets {page : Page} (frees : Frees fine m.kernelEnd page) :
    Meets fine (kfree page) m fun _ final => final = { m with freelist := page :: m.freelist } := by
  unfold Meets
  simp only [kfree, StateT.run]
  split
  · rename_i refused
    cases frees with
    | inl allowed => exact allowed
    | inr freeable =>
      obtain misaligned | low | high := refused
      · exact absurd freeable.aligned misaligned
      · exact absurd low (Nat.not_lt.mpr freeable.lower)
      · exact absurd freeable.upper (Nat.not_lt.mpr high)
  · exact rfl

theorem walkpgdir_meets : Meets fine (walkpgdir pgdir a true) m fun result final =>
    Walked pgdir a result.1 ∧ (result.2 = true → (result.1.table (PDX a)).isSome) ∧
      final.kernelEnd = m.kernelEnd := by
  unfold walkpgdir
  split
  · next table found => exact .pure ⟨⟨rfl, fun _ _ => rfl, fun _ => id⟩, fun _ => by simp [found], rfl⟩
  · rename_i missing
    rw [if_pos rfl]
    apply kalloc_meets.bind
    intro page middle same
    cases page with
    | none => exact .pure ⟨⟨rfl, fun _ _ => rfl, fun _ => id⟩, by simp, same⟩
    | some page =>
      refine .pure ⟨⟨?_, ?_, ?_⟩, by simp, same⟩
      · funext va
        by_cases outer : PDX va = PDX a
        · simp [PageDir.pte, outer, missing]
        · simp [PageDir.pte, outer]
      · intro i other
        simp [other]
      · intro i found
        by_cases same : i = PDX a
        · simp [same]
        · simp only [ne_eq, same, not_false_eq_true, Function.update_of_ne]
          exact found

def PageMapped (pgdir : PageDir) (a : Nat) (pte : Pte) (result : PageDir × Bool) : Prop :=
  if result.2 then Stored pgdir a (some pte) result.1 ∧ (result.1.table (PDX a)).isSome
  else Walked pgdir a result.1

/-- One round of `mappages`: either there is no table, or the rest of the loop
goes on with the entry stored. -/
theorem mappagesRound_meets {left : Nat} {post : PageDir × Bool → Mem → Prop} (empty : pgdir.pte a = none)
    (failed : ∀ (next : PageDir) (final : Mem), Walked pgdir a next → final.kernelEnd = m.kernelEnd →
      post (next, false) final)
    (rest : ∀ (next : PageDir) (middle : Mem), Stored pgdir a (some ⟨pa, perm⟩) next →
      (next.table (PDX a)).isSome → middle.kernelEnd = m.kernelEnd → Meets fine
        (match left with
          | 0 => pure (next, true)
          | left + 1 => mappagesLoop perm left next ((a + PGSIZE) % 2 ^ 32) ((pa + PGSIZE) % 2 ^ 32))
        middle post) (base : a < 2 ^ 32) :
    Meets fine (mappagesLoop perm left pgdir a pa) m post := by
  unfold mappagesLoop
  apply walkpgdir_meets.bind
  rintro ⟨walked, found⟩ middle ⟨is, table, same⟩
  dsimp only at is table ⊢
  cases found with
  | false =>
    rw [if_pos rfl]
    exact .pure (failed walked middle is same)
  | true =>
    rw [if_neg (by decide), if_neg (by simp [is.pte, empty])]
    have stored := walked.stored_setPte (some ⟨pa, perm⟩) (table rfl) base
    exact rest _ middle (is.store stored) (stored.kept _ (table rfl)) same

theorem mappages_one (aligned : a % PGSIZE = 0) (below : a < KERNBASE) :
    mappages pgdir a PGSIZE pa perm = mappagesLoop perm 0 pgdir a pa := by
  obtain ⟨size, limit⟩ := page_sizes
  rw [size] at aligned
  have one : mapCount a PGSIZE = 0 := by
    simp only [mapCount, PGROUNDDOWN, size]
    omega
  have first : PGROUNDDOWN a = a := by
    simp only [PGROUNDDOWN, size]
    omega
  rw [mappages, one, first]

theorem mappages_meets (aligned : a % PGSIZE = 0) (below : a < KERNBASE) (empty : pgdir.pte a = none) :
    Meets fine (mappages pgdir a PGSIZE pa perm) m fun result final =>
      PageMapped pgdir a ⟨pa, perm⟩ result ∧ final.kernelEnd = m.kernelEnd := by
  have limit : KERNBASE = 2147483648 := rfl
  rw [mappages_one aligned below]
  refine mappagesRound_meets empty ?_ ?_ (by omega)
  · intro next final walked same
    exact ⟨by simpa [PageMapped] using walked, same⟩
  · intro next middle stored table same
    exact .pure ⟨by simpa [PageMapped] using ⟨stored, table⟩, same⟩

theorem mappages_tables (aligned : a % PGSIZE = 0) (below : a < KERNBASE) :
    Meets (fun _ => True) (mappages pgdir a PGSIZE pa perm) m fun result _ =>
      (∀ i, (pgdir.table i).isSome → (result.1.table i).isSome) ∧
        (result.2 = true → (result.1.table (PDX a)).isSome) := by
  rw [mappages_one aligned below]
  unfold mappagesLoop
  apply walkpgdir_meets.bind
  rintro ⟨next, found⟩ middle ⟨walked, table, _⟩
  dsimp only at walked table ⊢
  split
  · exact .pure ⟨walked.kept, fun mapped => Bool.noConfusion mapped⟩
  · rename_i here
    split
    · exact .throw True.intro
    · refine .pure ⟨fun i present => next.isSome_table_setPte.trans (walked.kept i present), fun _ => ?_⟩
      exact next.isSome_table_setPte.trans (table (by simpa using here))

/-- The directory after the pages from `a` up to `oldsz` have been freed. -/
structure Cleared (pgdir : PageDir) (a oldsz : Nat) (next : PageDir) : Prop where
  pte : ∀ va < 2 ^ 32, next.pte va = if a ≤ va ∧ va / PGSIZE * PGSIZE < oldsz then none else pgdir.pte va
  kernel : ∀ i, ¬ UserIndex i → next.table i = pgdir.table i
  tables : ∀ i, (next.table i).isSome = (pgdir.table i).isSome

def PageDir.mapped (pgdir : PageDir) (pages : List Nat) : List Page :=
  pages.filterMap fun b => (pgdir.pte b).map Pte.pa

theorem clearPages_meets {pages : List Nat} (below : ∀ b ∈ pages, b < KERNBASE ∧ b % PGSIZE = 0) (once : pages.Nodup)
    (frees : ∀ b ∈ pages, ∀ pte, pgdir.pte b = some pte → Frees fine m.kernelEnd pte.pa) :
    Meets fine (clearPages pages pgdir) m fun result final =>
      (∀ va < 2 ^ 32, result.pte va = if va / PGSIZE * PGSIZE ∈ pages then none else pgdir.pte va) ∧
      (∀ i, ¬ UserIndex i → result.table i = pgdir.table i) ∧
      (∀ i, (result.table i).isSome = (pgdir.table i).isSome) ∧
      final = { m with freelist := (pgdir.mapped pages).reverse ++ m.freelist } := by
  obtain ⟨size, limit⟩ := page_sizes
  induction pages generalizing pgdir m with
  | nil => exact .pure ⟨fun _ _ => by simp, fun _ _ => rfl, fun _ => rfl, rfl⟩
  | cons b rest ih =>
    obtain ⟨⟨small, aligned⟩, others⟩ := List.forall_mem_cons.mp below
    obtain ⟨first, freesRest⟩ := List.forall_mem_cons.mp frees
    obtain ⟨new, onceRest⟩ := List.nodup_cons.mp once
    have step {next : PageDir} (entry : next.pte b = none)
        (kept : ∀ va < 2 ^ 32, va / PGSIZE * PGSIZE ≠ b → next.pte va = pgdir.pte va) (va : Nat) (word : va < 2 ^ 32) :
        (if va / PGSIZE * PGSIZE ∈ rest then none else next.pte va) =
          if va / PGSIZE * PGSIZE ∈ b :: rest then none else pgdir.pte va := by
      by_cases here : va / PGSIZE * PGSIZE = b
      · rw [if_pos (List.mem_cons.mpr (.inl here)), ← next.pte_page word, here, entry, ite_self]
      · simp only [List.mem_cons, here, false_or, kept va word here]
    unfold clearPages
    split
    · rename_i absent
      apply (ih others onceRest freesRest).weaken
      rintro result final ⟨pte, kernel, tables, same⟩
      refine ⟨?_, kernel, tables, ?_⟩
      · intro va word
        rw [pte va word, step absent (fun _ _ _ => rfl) va word]
      · simp [same, PageDir.mapped, absent]
    · rename_i pte mapped
      have found : (pgdir.table (PDX b)).isSome := by
        by_contra missing
        simp [PageDir.pte, Option.not_isSome_iff_eq_none.mp missing] at mapped
      have stored := pgdir.stored_setPte none found (a := b) (by omega)
      have apart : ∀ va < 2 ^ 32, va / PGSIZE * PGSIZE ≠ b → (pgdir.setPte b none).pte va = pgdir.pte va := by
        intro va word other
        rw [stored.pte va word, if_neg]
        rw [size] at aligned other ⊢
        omega
      have same : ∀ c ∈ rest, (pgdir.setPte b none).pte c = pgdir.pte c := by
        intro c member
        have page := others c member
        apply apart c (by omega)
        rw [size] at page ⊢
        rintro is
        exact new (by rwa [← is, Nat.div_mul_cancel (Nat.dvd_of_mod_eq_zero page.2)])
      split
      · rename_i zero
        cases first pte mapped with
        | inl allowed => exact .throw allowed
        | inr freeable => exact absurd zero freeable.positive
      · apply (kfree_meets (first pte mapped)).bind
        intro _ middle freed
        subst middle
        refine (ih others onceRest ?_).weaken ?_
        · intro c member pte mapped
          rw [same c member] at mapped
          exact freesRest c member pte mapped
        · rintro result final ⟨entries, kernel, tables, is⟩
          refine ⟨?_, ?_, ?_, ?_⟩
          · intro va word
            rw [entries va word]
            exact step (by rw [stored.pte b (by omega), if_pos rfl]) apart va word
          · intro i outside
            rw [kernel i outside]
            apply stored.others
            intro equal
            exact outside (equal ▸ userIndex_of_lt small)
          · exact fun i => (tables i).trans pgdir.isSome_table_setPte
          · have left : (pgdir.setPte b none).mapped rest = pgdir.mapped rest := by
              apply List.filterMap_congr
              intro c member
              rw [same c member]
            rw [is, left]
            simp [PageDir.mapped, mapped]

theorem deallocuvm_meets (below : oldsz ≤ KERNBASE) (shrinks : newsz < oldsz)
    (frees : ∀ va < KERNBASE, ∀ pte, pgdir.pte va = some pte → PGROUNDUP newsz ≤ va →
      Frees fine m.kernelEnd pte.pa) :
    Meets fine (deallocuvm pgdir oldsz newsz) m fun result final =>
      Cleared pgdir (PGROUNDUP newsz) oldsz result.1 ∧ result.2 = newsz ∧ final =
        { m with freelist := (pgdir.mapped (pagesFrom (PGROUNDUP newsz) oldsz)).reverse ++ m.freelist } := by
  have size : PGSIZE = 4096 := rfl
  have aligned := aligned_PGROUNDUP newsz
  have member (b : Nat) : b ∈ pagesFrom (PGROUNDUP newsz) oldsz ↔ _ := mem_pagesFrom aligned
  rw [deallocuvm_eq below shrinks]
  have once : (pagesFrom (PGROUNDUP newsz) oldsz).Nodup := List.nodup_range' _
  refine (clearPages_meets ?_ once ?_).bind ?_
  · intro b inside
    obtain ⟨_, upper, multiple⟩ := (member b).mp inside
    exact ⟨upper.trans_le below, multiple⟩
  · intro b inside pte mapped
    obtain ⟨lower, upper, _⟩ := (member b).mp inside
    exact frees b (upper.trans_le below) pte mapped lower
  · intro result final ⟨entries, kernel, tables, same⟩
    refine .pure ⟨⟨?_, kernel, tables⟩, rfl, same⟩
    intro va small
    rw [entries va small]
    apply if_congr ?_ rfl rfl
    rw [member]
    rw [size] at aligned ⊢
    omega

end Xv6.Memory
