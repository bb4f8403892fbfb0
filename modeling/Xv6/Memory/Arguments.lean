import Xv6.Memory.Conservation

namespace Xv6.Memory

open Xv6.Data

/-! # Arguments that fit the stack

A string shorter than a page ends in the stack page or meets the guard page below it,
and both have page tables: nothing is copied through the null pointer. -/

variable {s t : State} {p : Slot} {map : List KMap} {pgdir : PageDir} {sz va len : Nat}

/-- The lengths of the strings a call passes to `exec`. -/
def Call.strings : Call → List Nat
  | .exec _ argv => argv
  | _ => []

def Request.Fits (r : Request) : Prop := ∀ strlen ∈ r.action.call.strings, strlen < PGSIZE

instance (r : Request) : Decidable r.Fits := inferInstanceAs (Decidable (∀ strlen ∈ r.action.call.strings, _))

/-- A copy that lies in the two pages: none of it is stray, and it is done only if it
lies in the upper one. -/
structure Copied.OnStack (sz va : Nat) (copied : Copied) : Prop where
  strays : copied.strays = []
  done : copied.done = true → sz ≤ va + PGSIZE

theorem StackTables.copyoutLoop_onStack (stack : StackTables pgdir sz) {left : Nat} (filled : 0 < left)
    (lower : sz ≤ va + 2 * PGSIZE) (upper : PGROUNDDOWN va + left * PGSIZE ≤ sz) :
    (copyoutLoop pgdir left va len).OnStack sz va := by
  obtain ⟨aligned, low, -, top, table, isTable, guarded⟩ := stack
  have size : PGSIZE = 4096 := rfl
  simp only [PGROUNDDOWN, size] at *
  obtain ⟨left, rfl⟩ := Nat.exists_eq_succ_of_ne_zero filled.ne'
  unfold copyoutLoop
  by_cases guard : va + 4096 < sz
  · obtain ⟨outer, inner⟩ : PDX va = PDX (sz - 2 * 4096) ∧ PTX va = PTX (sz - 2 * 4096) := same_page (by omega)
    rw [outer, isTable, inner]
    dsimp only
    cases entry : table.pte (PTX (sz - 2 * 4096)) with
    | none => exact ⟨rfl, fun done => Bool.noConfusion done⟩
    | some pte =>
      simp only [guarded pte entry, if_true]
      exact ⟨rfl, fun done => Bool.noConfusion done⟩
  · obtain ⟨outer, inner⟩ : PDX va = PDX (sz - 4096) ∧ PTX va = PTX (sz - 4096) := same_page (by omega)
    obtain ⟨table, isTable⟩ := Option.isSome_iff_exists.mp top
    have last : left = 0 := by omega
    rw [outer, isTable, last]
    refine ⟨?_, fun _ => not_lt.mp guard⟩
    dsimp only
    split
    · split <;> rfl
    · rfl

theorem StackTables.copyout_onStack (stack : StackTables pgdir sz) (filled : 0 < len)
    (lower : sz ≤ va + 2 * PGSIZE) (upper : va + len ≤ sz) : (copyout pgdir va len).OnStack sz va := by
  have aligned := stack.aligned
  have size : PGSIZE = 4096 := rfl
  apply stack.copyoutLoop_onStack _ lower
  all_goals
    simp only [PGROUNDDOWN, size] at *
    omega

theorem sub_wrap {a b : Nat} (ordered : b ≤ a) (small : a < 2 ^ 32) : (a + 2 ^ 32 - b) % 2 ^ 32 = a - b := by
  rw [Nat.sub_add_comm ordered, Nat.add_mod_right, Nat.mod_eq_of_lt (by omega)]

theorem StackTables.pushArguments_strays (stack : StackTables pgdir sz) {argv : List Nat} {argc sp : Nat}
    (few : argc ≤ MAXARG) (lower : sz ≤ sp + PGSIZE) (upper : sp ≤ sz) (fits : ∀ strlen ∈ argv, strlen < PGSIZE) :
    (pushArguments pgdir argv argc sp).strays = [] := by
  obtain ⟨size, limit⟩ := page_sizes
  have aligned := stack.aligned
  have low := stack.lower
  have high := stack.upper
  rw [size] at aligned low lower
  induction argv generalizing argc sp with
  | nil =>
    have words : (3 + argc + 1) * 4 ≤ 144 := by
      simp only [MAXARG] at few
      omega
    unfold pushArguments
    rw [sub_wrap (by omega) (by omega)]
    exact (stack.copyout_onStack (by omega) (by omega) (by omega)).strays
  | cons strlen rest ih =>
    obtain ⟨short, fits⟩ := List.forall_mem_cons.mp fits
    unfold pushArguments
    rw [sub_wrap (by omega) (by omega)]
    split
    · rfl
    · rename_i few
      generalize place : (sp - (strlen + 1)) / 4 * 4 = sp'
      have string : (copyout pgdir sp' (strlen + 1)).OnStack sz sp' :=
        stack.copyout_onStack (by omega) (by omega) (by omega)
      cases copied : (copyout pgdir sp' (strlen + 1)).done with
      | false => simpa only [copied, Bool.false_eq_true, if_false] using string.strays
      | true =>
        have above := string.done copied
        rw [size] at above
        simpa only [copied, if_true, string.strays, List.nil_append] using
          ih (show argc + 1 ≤ MAXARG by omega) (by omega) (by omega) fits

/-- Whatever the copies through the null pointer would do. -/
theorem sysExec_fits (stray other : Stray) {file : Option ElfFile} {argv : List Nat}
    (fits : ∀ strlen ∈ argv, strlen < PGSIZE) :
    sysExec stray map s p file argv = sysExec other map s p file argv := by
  unfold sysExec State.run
  cases ran : (execImage map file).run s.mem with
  | error reason => rfl
  | ok pair =>
    obtain ⟨image, mem⟩ := pair
    cases image with
    | none => rfl
    | some image =>
      have stack := execImage_stack s.mem _ _ ran image rfl
      have none := stack.pushArguments_strays (Nat.zero_le _) (Nat.le_add_right ..) le_rfl fits
      simp only [bind, Except.bind, none, if_true]

theorem Request.Fits.act_eq {r : Request} (fits : r.Fits) (stray other : Stray) :
    act stray map s r.action = act other map s r.action := by
  obtain ⟨⟨p, c, denied⟩, word, fill⟩ := r
  cases c with
  | exec file argv => exact sysExec_fits stray other fits
  | _ => rfl

theorem advance_fits {r : Request} (fits : r.Fits) : advance map s r = step map s r.action := by
  unfold advance step
  rw [fits.act_eq _ noStray]

theorem run_fits {requests : List Request} (fits : ∀ r ∈ requests, r.Fits)
    (ran : Data.exec (advance map) s requests = some t) :
    Data.exec (step map) s (requests.map Request.action) = some t := by
  induction requests generalizing s with
  | nil => exact ran
  | cons r rest ih =>
    obtain ⟨here, later⟩ := List.forall_mem_cons.mp fits
    obtain ⟨next, taken, remaining⟩ := exec_cons ran
    rw [advance_fits here] at taken
    simp only [List.map_cons, Data.exec, taken, Option.bind_some]
    exact ih later remaining

end Xv6.Memory
