import Xv6.Memory.KernelHalf

namespace Xv6.Memory

open Xv6.Data

/-! # With enough free pages

With a free page for every missing table no mapping fails. -/

variable {fine : Panic → Prop} {m : Mem} {pgdir : PageDir} {map : List KMap} {a pa perm left spare start : Nat}
  {i : Fin NPDENTRIES}

def PageDir.missing (pgdir : PageDir) : Nat := (Finset.univ.filter fun i => (pgdir.table i).isSome = false).card

/-- A free page for every missing table, and `spare` more. -/
structure Roomy (spare : Nat) (pgdir : PageDir) (m : Mem) : Prop where
  denied : m.denied = []
  enough : pgdir.missing + spare ≤ m.freelist.length

theorem Roomy.less {fewer : Nat} (roomy : Roomy spare pgdir m) (less : fewer ≤ spare) : Roomy fewer pgdir m :=
  ⟨roomy.denied, (Nat.add_le_add_left less _).trans roomy.enough⟩

theorem kalloc_succeeds (spare : Nat) (denied : m.denied = []) (enough : spare < m.freelist.length) :
    Meets fine kalloc m fun page final => page.isSome ∧ final.denied = [] ∧ spare ≤ final.freelist.length := by
  cases free : m.freelist with
  | nil => simp [free] at enough
  | cons page rest =>
    rw [free, List.length_cons] at enough
    have ran : kalloc.run m = .ok (some page, { m with freelist := rest }) := by
      simp [kalloc, StateT.run, denied, free]
    exact .returns ran ⟨rfl, denied, Nat.le_of_lt_succ enough⟩

theorem PageDir.missing_setPte (pgdir : PageDir) {pte : Option Pte} :
    (pgdir.setPte a pte).missing = pgdir.missing := by
  simp only [PageDir.missing, PageDir.isSome_table_setPte]

theorem PageDir.missing_update (absent : pgdir.table i = none) (table : PageTable) :
    PageDir.missing { pgdir with table := Function.update pgdir.table i (some table) } + 1 = pgdir.missing := by
  have here : i ∈ Finset.univ.filter fun j => (pgdir.table j).isSome = false := by
    rw [Finset.mem_filter, absent]
    exact ⟨Finset.mem_univ i, rfl⟩
  have fewer : (Finset.univ.filter fun j => (Function.update pgdir.table i (some table) j).isSome = false) =
      (Finset.univ.filter fun j => (pgdir.table j).isSome = false).erase i := by
    ext j
    rw [Finset.mem_erase, Finset.mem_filter, Finset.mem_filter]
    by_cases same : j = i <;> simp [same]
  rw [PageDir.missing, PageDir.missing, ← Finset.card_erase_add_one here, fewer]

theorem PageDir.missing_le (pgdir : PageDir) : pgdir.missing ≤ NPDENTRIES := by
  have counted := Finset.card_filter_le Finset.univ fun i => (pgdir.table i).isSome = false
  rwa [Finset.card_univ, Fintype.card_fin] at counted

-- Otherwise comparing two numbers of tables goes through all the indices.
attribute [irreducible] PageDir.missing

theorem walkpgdir_succeeds (roomy : Roomy spare pgdir m) :
    Meets fine (walkpgdir pgdir a true) m fun result final => result.2 = true ∧ Roomy spare result.1 final := by
  unfold walkpgdir
  split
  · exact .pure ⟨rfl, roomy⟩
  · rename_i absent
    have fewer := PageDir.missing_update absent ⟨0, fun _ => none⟩
    have enough := roomy.enough
    rw [if_pos rfl]
    apply (kalloc_succeeds (m.freelist.length - 1) roomy.denied (by omega)).bind
    intro page middle ⟨given, denied, left⟩
    obtain ⟨page, rfl⟩ := Option.isSome_iff_exists.mp given
    have again := PageDir.missing_update absent ⟨page, fun _ => none⟩
    exact .pure ⟨rfl, denied, by dsimp only; omega⟩

theorem mappagesLoop_succeeds (roomy : Roomy spare pgdir m) :
    Meets (fun _ => True) (mappagesLoop perm left pgdir a pa) m fun result final =>
      result.2 = true ∧ Roomy spare result.1 final := by
  have stored {next : PageDir} {m : Mem} (roomy : Roomy spare next m) (a : Nat) (pte : Option Pte) :
      Roomy spare (next.setPte a pte) m := ⟨roomy.denied, next.missing_setPte ▸ roomy.enough⟩
  induction left generalizing pgdir a pa m with
  | zero =>
    unfold mappagesLoop
    apply (walkpgdir_succeeds roomy).bind
    rintro ⟨next, found⟩ middle ⟨is, roomy⟩
    dsimp only at is roomy ⊢
    rw [is, if_neg (by decide)]
    split
    · exact .throw True.intro
    · exact .pure ⟨rfl, stored roomy a _⟩
  | succ left ih =>
    unfold mappagesLoop
    apply (walkpgdir_succeeds roomy).bind
    rintro ⟨next, found⟩ middle ⟨is, roomy⟩
    dsimp only at is roomy ⊢
    rw [is, if_neg (by decide)]
    split
    · exact .throw True.intro
    · exact ih (stored roomy a _)

theorem mappagesLoop_tables (within : a + (left + 1) * PGSIZE ≤ 2 ^ 32) :
    Meets (fun _ => True) (mappagesLoop perm left pgdir a pa) m fun result _ =>
      ∀ i, (∀ va, a ≤ va → va < a + (left + 1) * PGSIZE → PDX va ≠ i) → result.1.table i = pgdir.table i := by
  have size : PGSIZE = 4096 := rfl
  rw [size] at within ⊢
  induction left generalizing pgdir a pa m with
  | zero =>
    unfold mappagesLoop
    apply walkpgdir_meets.bind
    rintro ⟨next, found⟩ middle ⟨walked, _, _⟩
    dsimp only at walked ⊢
    split
    · exact .pure fun i apart => walked.others i (Ne.symm (apart a le_rfl (by omega)))
    · split
      · exact .throw True.intro
      · refine .pure ?_
        intro i apart
        have other := Ne.symm (apart a le_rfl (by omega))
        exact (PageDir.table_setPte_of_ne other).trans (walked.others i other)
  | succ left ih =>
    unfold mappagesLoop
    apply walkpgdir_meets.bind
    rintro ⟨next, found⟩ middle ⟨walked, _, _⟩
    dsimp only at walked ⊢
    split
    · exact .pure fun i apart => walked.others i (Ne.symm (apart a le_rfl (by omega)))
    · split
      · exact .throw True.intro
      · rw [size, Nat.mod_eq_of_lt (by omega)]
        apply (ih (by omega)).weaken
        intro result final rest i apart
        have other := Ne.symm (apart a le_rfl (by omega))
        rw [rest i fun va lower upper => apart va (by omega) (by omega)]
        exact (PageDir.table_setPte_of_ne other).trans (walked.others i other)

theorem setupkvmLoop_succeeds (roomy : Roomy spare pgdir m) (rows : Rows start map) :
    Meets (fun _ => True) (setupkvmLoop map pgdir) m fun result final => ∃ d, result = some d ∧ Roomy spare d final ∧
      ∀ i, (∀ k ∈ map, ∀ va, k.virt ≤ va → va < k.virt + k.size → PDX va ≠ i) → d.table i = pgdir.table i := by
  induction map generalizing pgdir start m with
  | nil => exact .pure ⟨pgdir, rfl, roomy, fun _ _ => rfl⟩
  | cons k rest ih =>
    obtain ⟨row, others⟩ := rows
    obtain ⟨left, count, pages, first⟩ := row.pages
    rw [setupkvmLoop, mappages, pages, first]
    apply ((mappagesLoop_succeeds roomy).both (mappagesLoop_tables (count ▸ row.upper))).bind
    rintro ⟨next, mapped⟩ middle ⟨⟨is, roomy⟩, tables⟩
    dsimp only at is roomy tables ⊢
    rw [is, if_neg (by decide)]
    apply (ih roomy others).weaken
    rintro result final ⟨d, made, left, same⟩
    refine ⟨d, made, left, ?_⟩
    intro i apart
    obtain ⟨here, later⟩ := List.forall_mem_cons.mp apart
    rw [same i later, tables i (count ▸ here)]

theorem setupkvm_succeeds (denied : m.denied = []) (enough : NPDENTRIES + 1 + spare ≤ m.freelist.length)
    (rows : Rows start map) :
    Meets (fun _ => True) (setupkvm map) m fun result final => ∃ d, result = some d ∧ Roomy spare d final ∧
      ∀ i, (∀ k ∈ map, ∀ va, k.virt ≤ va → va < k.virt + k.size → PDX va ≠ i) → d.table i = none := by
  apply (kalloc_succeeds (NPDENTRIES + spare) denied (by omega)).bind
  intro page middle ⟨given, denied, left⟩
  obtain ⟨page, rfl⟩ := Option.isSome_iff_exists.mp given
  have all := PageDir.missing_le ⟨page, fun _ => none⟩
  exact setupkvmLoop_succeeds ⟨denied, by omega⟩ rows

end Xv6.Memory
