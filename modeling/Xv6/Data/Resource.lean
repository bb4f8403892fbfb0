import Mathlib

namespace Xv6.Data

/-! # Programs that conserve a resource

A program works on a state that holds a pool of resources.  Whenever it returns, what
it was handed and the pool together are what its result keeps and the new pool.
-/

abbrev Program (σ ε α : Type) := StateT σ (Except ε) α

variable {σ ε ρ α β ι : Type}

/-- Resources of a family of owners, after one of them has changed. -/
theorem sum_update [Fintype ι] [DecidableEq ι] {M : Type} [AddCommMonoid M] (owned : ι → α → M)
    (owners : ι → α) (i : ι) (value : α) :
    (∑ j, owned j (Function.update owners i value j)) + owned i (owners i) =
      (∑ j, owned j (owners j)) + owned i value := by
  rw [← Finset.add_sum_erase _ _ (Finset.mem_univ i), ← Finset.add_sum_erase _ (fun j => owned j (owners j))
    (Finset.mem_univ i), Function.update_self]
  have others : ∑ j ∈ Finset.univ.erase i, owned j (Function.update owners i value j) =
      ∑ j ∈ Finset.univ.erase i, owned j (owners j) := by
    apply Finset.sum_congr rfl
    intro j member
    rw [Function.update_of_ne (Finset.ne_of_mem_erase member)]
  rw [others]
  abel

theorem run_bind_ok {program : Program σ ε α} {next : α → Program σ ε β} {state final : σ} {result : β}
    (ran : (program >>= next).run state = .ok (result, final)) :
    ∃ value middle, program.run state = .ok (value, middle) ∧ (next value).run middle = .ok (result, final) := by
  rw [StateT.run_bind] at ran
  cases first : program.run state with
  | error reason =>
    rw [first] at ran
    cases ran
  | ok pair =>
    rw [first] at ran
    exact ⟨pair.1, pair.2, rfl, ran⟩

variable {pool : σ → Multiset ρ} {held : Multiset ρ} {program : Program σ ε α}
  {post : α → Multiset ρ → Prop}

def Conserves (pool : σ → Multiset ρ) (held : Multiset ρ) (program : Program σ ε α)
    (post : α → Multiset ρ → Prop) : Prop :=
  ∀ state value final, program.run state = .ok (value, final) →
    ∃ kept, post value kept ∧ kept + pool final = held + pool state

namespace Conserves

theorem pure {value : α} (keeps : post value held) : Conserves (ε := ε) pool held (Pure.pure value) post := by
  intro state result final ran
  cases ran
  exact ⟨held, keeps, rfl⟩

theorem throw {reason : ε} : Conserves pool held (MonadExcept.throw reason : Program σ ε α) post := by
  exact nofun

theorem bind {next : α → Program σ ε β} {middle : α → Multiset ρ → Prop} {last : β → Multiset ρ → Prop}
    (first : Conserves pool held program middle)
    (second : ∀ value kept, middle value kept → Conserves pool kept (next value) last) :
    Conserves pool held (program >>= next) last := by
  intro state result final ran
  obtain ⟨value, between, firstRan, nextRan⟩ := run_bind_ok ran
  obtain ⟨kept, keeps, same⟩ := first state value between firstRan
  obtain ⟨left, keepsLast, sameLast⟩ := second value kept keeps between result final nextRan
  exact ⟨left, keepsLast, sameLast.trans same⟩

/-- What a program is not given it cannot touch. -/
theorem frame (extra : Multiset ρ) (conserves : Conserves pool held program post) :
    Conserves pool (held + extra) program fun value kept => ∃ own, post value own ∧ kept = own + extra := by
  intro state value final ran
  obtain ⟨own, keeps, same⟩ := conserves state value final ran
  refine ⟨own + extra, ⟨own, keeps, rfl⟩, ?_⟩
  rw [add_right_comm, same, add_right_comm]

theorem weaken {other : α → Multiset ρ → Prop} (conserves : Conserves pool held program post)
    (weaker : ∀ value kept, post value kept → other value kept) : Conserves pool held program other := by
  intro state value final ran
  obtain ⟨kept, keeps, same⟩ := conserves state value final ran
  exact ⟨kept, weaker value kept keeps, same⟩

/-- A fact about the result that does not depend on resources. -/
theorem returns {Fact : α → Prop} (conserves : Conserves pool held program post)
    (fact : ∀ state value final, program.run state = .ok (value, final) → Fact value) :
    Conserves pool held program fun value kept => post value kept ∧ Fact value := by
  intro state value final ran
  obtain ⟨kept, keeps, same⟩ := conserves state value final ran
  exact ⟨kept, ⟨keeps, fact state value final ran⟩, same⟩

theorem reads (only : ∀ state value final, program.run state = .ok (value, final) → final = state) :
    Conserves pool held program fun _ kept => kept = held := by
  intro state value final ran
  rw [only state value final ran]
  exact ⟨held, rfl, rfl⟩

/-- A loop over a list that hands over the resources of one element a round. -/
theorem forM {body : ι → Program σ ε PUnit} {items : List ι} {own : ι → Multiset ρ}
    (round : ∀ item ∈ items, Conserves pool (own item) (body item) fun _ kept => kept = 0) :
    Conserves pool (items.map own).sum (ForM.forM items body) fun _ kept => kept = 0 := by
  induction items with
  | nil =>
    rw [List.forM_nil]
    exact .pure rfl
  | cons item rest ih =>
    obtain ⟨first, others⟩ := List.forall_mem_cons.mp round
    rw [List.forM_cons, List.map_cons, List.sum_cons]
    refine (first.frame _).bind ?_
    rintro _ _ ⟨_, rfl, rfl⟩
    rw [zero_add]
    exact ih others

end Conserves

end Xv6.Data
