import Xv6.Memory.Exec

namespace Xv6.Memory

open Xv6.Data

/-! # The pages of a page directory

What a directory owns, and how walking, mapping and unmapping move pages between
it and the free list.
-/

variable {pgdir : PageDir} {table : PageTable} {map : List KMap} {page : Page} {va a : Nat}

def freePages (m : Mem) : Multiset Page := m.freelist

def ptePages (pte : Option Pte) : Multiset Page :=
  match pte with
  | some pte => {pte.pa}
  | none => 0

/-- Entries below `KERNBASE` own the page they map; the kernel's do not. -/
def UserIndex (i : Fin NPDENTRIES) : Prop := i.val < NPDENTRIES / 2

instance (i : Fin NPDENTRIES) : Decidable (UserIndex i) := inferInstanceAs (Decidable (_ < _))

def tablePages (i : Fin NPDENTRIES) (table : Option PageTable) : Multiset Page :=
  match table with
  | some table => {table.page} + if UserIndex i then ∑ j, ptePages (table.pte j) else 0
  | none => 0

def PageDir.pages (pgdir : PageDir) : Multiset Page := {pgdir.page} + ∑ i, tablePages i (pgdir.table i)

theorem PageDir.pages_eq (pgdir : PageDir) :
    pgdir.pages = {pgdir.page} + ∑ i, tablePages i (pgdir.table i) := rfl

@[simp] theorem tablePages_none (i : Fin NPDENTRIES) : tablePages i none = 0 := rfl

variable {i : Fin NPDENTRIES}

theorem tablePages_empty (empty : UserIndex i → ∀ j, table.pte j = none) :
    tablePages i (some table) = {table.page} := by
  by_cases user : UserIndex i
  · simp [tablePages, user, empty user, ptePages]
  · simp [tablePages, user]

theorem PageDir.pages_update (new : Option PageTable) :
    ({ pgdir with table := Function.update pgdir.table i new } : PageDir).pages + tablePages i (pgdir.table i) =
      pgdir.pages + tablePages i new := by
  have moved := sum_update tablePages pgdir.table i new
  simp only [PageDir.pages, add_assoc]
  rw [moved]

theorem tablePages_update (table : PageTable) {j : Fin NPTENTRIES} (user : UserIndex i) (pte : Option Pte) :
    tablePages i (some { table with pte := Function.update table.pte j pte }) + ptePages (table.pte j) =
      tablePages i (some table) + ptePages pte := by
  have moved := sum_update (fun _ => ptePages) table.pte j pte
  simp only [tablePages, if_pos user, add_assoc]
  rw [moved]

theorem tablePages_kernel (kernel : ¬ UserIndex i) : tablePages i (some table) = {table.page} :=
  tablePages_empty fun user => absurd user kernel

theorem tablePages_some (i : Fin NPDENTRIES) :
    tablePages i (some table) = {table.page} + if UserIndex i then ∑ j, ptePages (table.pte j) else 0 := rfl

-- The sums over all entries must not be unfolded when terms are compared.
attribute [irreducible] PageDir.pages tablePages

theorem PageDir.pages_setPte (user : UserIndex (PDX va)) (found : (pgdir.table (PDX va)).isSome)
    (pte : Option Pte) : (pgdir.setPte va pte).pages + ptePages (pgdir.pte va) = pgdir.pages + ptePages pte := by
  obtain ⟨table, is⟩ := Option.isSome_iff_exists.mp found
  have outer := pgdir.pages_update (i := PDX va)
    (some { table with pte := Function.update table.pte (PTX va) pte })
  have inner := tablePages_update table (j := PTX va) user pte
  simp only [PageDir.setPte, PageDir.pte, is, Option.bind_some] at outer ⊢
  apply add_right_cancel (b := tablePages (PDX va) (some table))
  rw [add_right_comm, outer, add_assoc, inner]
  abel

theorem PageDir.pages_setPte_kernel (kernel : ¬ UserIndex (PDX va)) (pte : Option Pte) :
    (pgdir.setPte va pte).pages = pgdir.pages := by
  unfold PageDir.setPte
  split
  · rename_i table is
    have outer := pgdir.pages_update (i := PDX va)
      (some { table with pte := Function.update table.pte (PTX va) pte })
    rw [is, tablePages_kernel kernel, tablePages_kernel kernel] at outer
    exact add_right_cancel outer
  · rfl

theorem kalloc_conserves : Conserves freePages 0 kalloc fun page kept => kept = page.elim 0 ({·}) := by
  intro m page final ran
  simp only [kalloc, StateT.run] at ran
  split at ran
  · rename_i denied free
    cases ran
    exact ⟨_, rfl, by simp [freePages, free, Multiset.singleton_add]⟩
  · cases ran
    exact ⟨_, rfl, rfl⟩

theorem kfree_conserves (page : Page) : Conserves freePages {page} (kfree page) fun _ kept => kept = 0 := by
  intro m _ final ran
  simp only [kfree, StateT.run] at ran
  split at ran
  · cases ran
  · cases ran
    exact ⟨0, rfl, by simp [freePages, Multiset.singleton_add]⟩

theorem userIndex_of_lt (below : va < KERNBASE) : UserIndex (PDX va) := by
  have limit : KERNBASE = 2147483648 := rfl
  change va / 4194304 % 1024 < 512
  omega

theorem pdx_val (below : va < KERNBASE) : (PDX va).val = va / 4194304 := by
  have limit : KERNBASE = 2147483648 := rfl
  change va / 4194304 % 1024 = va / 4194304
  omega

theorem pgaddr_next (below : a < KERNBASE) : PGADDR (PDX a + 1) 0 0 = (a / 4194304 + 1) * 4194304 := by
  have limit : KERNBASE = 2147483648 := rfl
  rw [PGADDR, pdx_val below]
  norm_num
  omega

theorem aligned_add (aligned : a % PGSIZE = 0) : (a + PGSIZE) % PGSIZE = 0 := by
  rw [Nat.add_mod_right]
  exact aligned

theorem aligned_PGROUNDUP (sz : Nat) : PGROUNDUP sz % PGSIZE = 0 := Nat.mul_mod_left ..

theorem le_PGROUNDUP {sz : Nat} (user : sz ≤ KERNBASE) : sz ≤ PGROUNDUP sz ∧ PGROUNDUP sz < sz + PGSIZE := by
  obtain ⟨size, top⟩ := page_sizes
  rw [PGROUNDUP, size]
  omega

theorem pdx_ptx_index (i : Fin NPDENTRIES) (j : Fin NPTENTRIES) :
    PDX (i.val * 4194304 + j.val * 4096) = i ∧ PTX (i.val * 4194304 + j.val * 4096) = j := by
  have outer : i.val < 1024 := i.isLt
  have inner : j.val < 1024 := j.isLt
  constructor
  · apply Fin.ext
    change (i.val * 4194304 + j.val * 4096) / 4194304 % 1024 = i.val
    omega
  · apply Fin.ext
    change (i.val * 4194304 + j.val * 4096) / 4096 % 1024 = j.val
    omega

theorem pte_setPte_of_page {pte : Option Pte} (same : PDX va = PDX a ∧ PTX va = PTX a)
    (found : (pgdir.table (PDX a)).isSome) : (pgdir.setPte a pte).pte va = pte := by
  obtain ⟨table, is⟩ := Option.isSome_iff_exists.mp found
  simp [PageDir.setPte, PageDir.pte, is, same.1, same.2]

theorem walkpgdir_conserves (pgdir : PageDir) (va : Nat) :
    Conserves freePages pgdir.pages (walkpgdir pgdir va true) fun result kept =>
      kept = result.1.pages ∧ (result.2 = true → (result.1.table (PDX va)).isSome) := by
  unfold walkpgdir
  split
  · next found => exact .pure ⟨rfl, fun _ => by simp [found]⟩
  · rename_i missing
    rw [if_pos rfl]
    have framed := kalloc_conserves.frame pgdir.pages
    rw [zero_add] at framed
    refine framed.bind ?_
    rintro pgtab kept ⟨own, rfl, rfl⟩
    cases pgtab with
    | none => exact .pure ⟨by simp, by simp⟩
    | some pgtab =>
      have grown := pgdir.pages_update (i := PDX va) (some ⟨pgtab, fun _ => none⟩)
      rw [missing, tablePages_empty (fun _ _ => rfl), tablePages_none, add_zero] at grown
      refine .pure ⟨?_, fun _ => by simp⟩
      rw [grown, add_comm]
      rfl

theorem mapUser_conserves {pa perm : Nat} (user : UserIndex (PDX a)) :
    Conserves freePages ({pa} + pgdir.pages) (mappagesLoop perm 0 pgdir a pa) fun result kept =>
      kept = (if result.2 then 0 else {pa}) + result.1.pages := by
  unfold mappagesLoop
  have framed := (walkpgdir_conserves pgdir a).frame {pa}
  rw [add_comm] at framed
  refine framed.bind ?_
  rintro ⟨next, found⟩ _ ⟨_, ⟨rfl, table⟩, rfl⟩
  cases found with
  | false =>
    dsimp only
    rw [if_pos rfl]
    exact .pure (add_comm ..)
  | true =>
    dsimp only at table ⊢
    rw [if_neg (by decide)]
    split
    · exact .throw
    · rename_i empty
      have stored := next.pages_setPte user (table rfl) (some ⟨pa, perm⟩)
      rw [Option.not_isSome_iff_eq_none.mp empty] at stored
      refine .pure ?_
      simpa [ptePages] using stored.symm

theorem mapKernel_round {pa perm left : Nat} (kernel : ¬ UserIndex (PDX a))
    (rest : ∀ pgdir : PageDir, Conserves freePages pgdir.pages
      (match left with
        | 0 => pure (pgdir, true)
        | left + 1 => mappagesLoop perm left pgdir ((a + PGSIZE) % 2 ^ 32) ((pa + PGSIZE) % 2 ^ 32))
      fun result kept => kept = result.1.pages) :
    Conserves freePages pgdir.pages (mappagesLoop perm left pgdir a pa) fun result kept =>
      kept = result.1.pages := by
  unfold mappagesLoop
  refine (walkpgdir_conserves pgdir a).bind ?_
  rintro ⟨next, found⟩ _ ⟨rfl, _⟩
  cases found with
  | false =>
    dsimp only
    rw [if_pos rfl]
    exact .pure rfl
  | true =>
    dsimp only
    rw [if_neg (by decide)]
    split
    · exact .throw
    · rw [← next.pages_setPte_kernel kernel (some ⟨pa, perm⟩)]
      exact rest _

theorem mapKernel_conserves {pa perm left : Nat} (small : a < 2 ^ 32)
    (kernel : ∀ k ≤ left, ¬ UserIndex (PDX ((a + k * PGSIZE) % 2 ^ 32))) :
    Conserves freePages pgdir.pages (mappagesLoop perm left pgdir a pa) fun result kept =>
      kept = result.1.pages := by
  induction left generalizing pgdir a pa with
  | zero =>
    have here := kernel 0 le_rfl
    rw [Nat.zero_mul, Nat.add_zero, Nat.mod_eq_of_lt small] at here
    exact mapKernel_round here fun _ => .pure rfl
  | succ left ih =>
    have here := kernel 0 (Nat.zero_le _)
    rw [Nat.zero_mul, Nat.add_zero, Nat.mod_eq_of_lt small] at here
    refine mapKernel_round here fun _ => ih (Nat.mod_lt _ (by decide)) ?_
    intro k inside
    have next := kernel (k + 1) (by omega)
    rw [Nat.mod_add_mod, Nat.add_assoc, Nat.add_comm PGSIZE, ← Nat.succ_mul]
    exact next

def clearPages : List Nat → PageDir → Vm PageDir
  | [], pgdir => pure pgdir
  | a :: rest, pgdir =>
    match pgdir.pte a with
    | none => clearPages rest pgdir
    | some pte =>
      if pte.pa = 0 then throw .kfree
      else do
        kfree pte.pa
        clearPages rest (pgdir.setPte a none)

def pagesFrom (a stop : Nat) : List Nat := List.range' a ((stop - a + (PGSIZE - 1)) / PGSIZE) PGSIZE

theorem mem_pagesFrom {b stop : Nat} (aligned : a % PGSIZE = 0) :
    b ∈ pagesFrom a stop ↔ a ≤ b ∧ b < stop ∧ b % PGSIZE = 0 := by
  have size : PGSIZE = 4096 := rfl
  rw [size] at aligned
  rw [pagesFrom, List.mem_range', size]
  constructor
  · intro ⟨i, few, is⟩
    omega
  · intro ⟨lower, upper, multiple⟩
    exact ⟨(b - a) / 4096, by omega, by omega⟩

theorem pagesFrom_of_le {stop : Nat} (done : stop ≤ a) : pagesFrom a stop = [] := by
  rw [pagesFrom, Nat.sub_eq_zero_of_le done]
  rfl

theorem pagesFrom_cons {stop : Nat} (inside : a < stop) : pagesFrom a stop = a :: pagesFrom (a + PGSIZE) stop := by
  have size : PGSIZE = 4096 := rfl
  have count : (stop - a + (PGSIZE - 1)) / PGSIZE = (stop - (a + PGSIZE) + (PGSIZE - 1)) / PGSIZE + 1 := by
    rw [size]
    omega
  rw [pagesFrom, count, List.range'_succ, pagesFrom]

theorem clearPages_skip {stop : Nat} (k : Nat) (absent : ∀ va, a ≤ va → va < a + k * PGSIZE → pgdir.pte va = none) :
    clearPages (pagesFrom a stop) pgdir = clearPages (pagesFrom (a + k * PGSIZE) stop) pgdir := by
  induction k generalizing a with
  | zero => rw [Nat.zero_mul, Nat.add_zero]
  | succ k ih =>
    have next : a + (k + 1) * PGSIZE = a + PGSIZE + k * PGSIZE := by ring
    by_cases inside : a < stop
    · rw [pagesFrom_cons inside, clearPages, absent a le_rfl (Nat.lt_add_of_pos_right (Nat.mul_pos k.succ_pos (by decide))),
        next]
      exact ih fun va lower upper => absent va (by omega) (by omega)
    · rw [pagesFrom_of_le (by omega), pagesFrom_of_le (by omega)]

/-- The loop of `deallocuvm` skips the page tables that are not there; it does the same as a loop over all
pages. -/
theorem deallocuvmLoop_eq {oldsz fuel : Nat} (below : oldsz ≤ KERNBASE) (aligned : a % PGSIZE = 0)
    (enough : oldsz ≤ a + fuel * PGSIZE) :
    deallocuvmLoop oldsz fuel pgdir a = clearPages (pagesFrom a oldsz) pgdir := by
  obtain ⟨size, limit⟩ := page_sizes
  induction fuel generalizing pgdir a with
  | zero =>
    rw [deallocuvmLoop, if_neg (by omega), pagesFrom_of_le (by omega)]
    rfl
  | succ fuel ih =>
    unfold deallocuvmLoop
    split
    · rename_i inside
      have enoughNext : oldsz ≤ a + PGSIZE + fuel * PGSIZE := by rw [size] at enough ⊢; omega
      have rest (d : PageDir) : deallocuvmLoop oldsz fuel d (a + PGSIZE) = _ := ih (aligned_add aligned) enoughNext
      rw [Nat.mod_eq_of_lt (by omega : a + PGSIZE < 2 ^ 32)]
      cases found : pgdir.table (PDX a) with
      | none =>
        -- up to the next table no page is mapped
        have first : a + (1024 - a / 4096 % 1024) * PGSIZE = (a / 4194304 + 1) * 4194304 := by
          rw [size] at aligned ⊢
          omega
        simp only
        rw [pgaddr_next (inside.trans_le below), clearPages_skip (1024 - a / 4096 % 1024) ?_, first]
        · exact ih (by rw [size]; omega) (by rw [size] at enoughNext aligned ⊢; omega)
        · intro va lower upper
          rw [first] at upper
          have outer : PDX va = PDX a := by
            apply Fin.ext
            rw [pdx_val (by omega), pdx_val (by omega)]
            omega
          simp [PageDir.pte, outer, found]
      | some table =>
        have entry : pgdir.pte a = table.pte (PTX a) := by simp [PageDir.pte, found]
        rw [pagesFrom_cons inside, clearPages, entry]
        simp only [rest]
        cases table.pte (PTX a) with
        | none | some pte => rfl
    · rw [pagesFrom_of_le (by omega)]
      rfl

theorem deallocuvm_eq {oldsz newsz : Nat} (below : oldsz ≤ KERNBASE) (shrinks : newsz < oldsz) :
    deallocuvm pgdir oldsz newsz = (do
      let pgdir ← clearPages (pagesFrom (PGROUNDUP newsz) oldsz) pgdir
      pure (pgdir, newsz)) := by
  have space : KERNBASE ≤ pagesOfSpace * PGSIZE := by decide
  rw [deallocuvm, if_neg (by omega), deallocuvmLoop_eq below (aligned_PGROUNDUP newsz)]
  exact (below.trans space).trans (Nat.le_add_left ..)

theorem clearPages_conserves {pages : List Nat} (below : ∀ b ∈ pages, b < KERNBASE) :
    Conserves freePages pgdir.pages (clearPages pages pgdir) fun result kept => kept = result.pages := by
  induction pages generalizing pgdir with
  | nil => exact .pure rfl
  | cons b rest ih =>
    obtain ⟨first, others⟩ := List.forall_mem_cons.mp below
    unfold clearPages
    split
    · exact ih others
    · rename_i pte mapped
      have found : (pgdir.table (PDX b)).isSome := by
        by_contra missing
        simp [PageDir.pte, Option.not_isSome_iff_eq_none.mp missing] at mapped
      have cleared := pgdir.pages_setPte (userIndex_of_lt first) found none
      rw [mapped] at cleared
      have owned : pgdir.pages = {pte.pa} + (pgdir.setPte b none).pages := by
        simpa [ptePages, add_comm] using cleared.symm
      split
      · exact .throw
      · rw [owned]
        refine ((kfree_conserves pte.pa).frame _).bind ?_
        rintro _ _ ⟨_, rfl, rfl⟩
        rw [zero_add]
        exact ih others

theorem deallocuvm_conserves {oldsz newsz : Nat} (below : oldsz ≤ KERNBASE) :
    Conserves freePages pgdir.pages (deallocuvm pgdir oldsz newsz) fun result kept =>
      kept = result.1.pages := by
  by_cases shrinks : newsz < oldsz
  · rw [deallocuvm_eq below shrinks]
    refine (clearPages_conserves ?_).bind ?_
    · intro b member
      exact ((mem_pagesFrom (aligned_PGROUNDUP newsz)).mp member).2.1.trans_le below
    · rintro _ _ rfl
      exact .pure rfl
  · rw [deallocuvm, if_pos (by omega)]
    exact .pure rfl

end Xv6.Memory
