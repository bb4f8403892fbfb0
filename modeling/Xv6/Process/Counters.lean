import Xv6.Process.History

namespace Xv6.Counting

open Xv6.Data
open Xv6.Process (SyscallCounter)

/-! # What the system-call counters count

The list of counters as a function of the calls made. -/

variable {p q : Caller} {c : Call} {calls past : List Call} {counters : List SyscallCounter} {pages : List Page}
  {h : History} {link : Option Page} {pid num k : Int} {allocated : Bool} {node : Page → Node}

def count (counters : List SyscallCounter) (c : Call) : List SyscallCounter :=
  if c.Valid then Process.updatesyscallhistory c.num c.page.isSome counters else counters

def historyOf (calls : List Call) : List SyscallCounter := calls.foldl count []

def made (k : Int) (calls : List Call) : Nat := calls.countP (·.num = k)

theorem made_concat : made k (past ++ [c]) = made k past + if c.num = k then 1 else 0 := by
  simp [made, List.countP_append, List.countP_singleton]

def Call.get (k : Int) (page : Option Page) : Call := ⟨SYS_getsyscallcounter, some k, page⟩

theorem historyOf_concat : historyOf (past ++ [c]) = count (historyOf past) c := by
  simp [historyOf]

theorem counted_update : counted k (Process.updatesyscallhistory num allocated counters) =
    counted k counters + if num = k ∧ (allocated = true ∨ num ∈ counters.map SyscallCounter.num) then 1 else 0 := by
  induction counters with
  | nil => cases allocated <;> simp [Process.updatesyscallhistory, counted]
  | cons counter rest ih =>
    rw [Process.updatesyscallhistory]
    by_cases here : counter.num = num
    · by_cases same : num = k <;> simp [counted, here, same]
    · rw [if_neg here, counted, counted, ih]
      by_cases same : num = k
      · have other : counter.num ≠ k := by rwa [← same]
        simp [other, Ne.symm here]
      · simp [same]

theorem nums_update (num : Int) (allocated : Bool) (counters : List SyscallCounter) :
    (Process.updatesyscallhistory num allocated counters).map SyscallCounter.num = counters.map SyscallCounter.num ∨
      num ∉ counters.map SyscallCounter.num ∧
        (Process.updatesyscallhistory num allocated counters).map SyscallCounter.num =
          counters.map SyscallCounter.num ++ [num] := by
  induction counters with
  | nil => cases allocated <;> simp [Process.updatesyscallhistory]
  | cons counter rest ih =>
    rw [Process.updatesyscallhistory]
    by_cases here : counter.num = num
    · exact .inl (by simp [here])
    · rw [if_neg here]
      rcases ih with same | ⟨absent, longer⟩
      · exact .inl (by rw [List.map_cons, same, List.map_cons])
      · refine .inr ⟨?_, by rw [List.map_cons, longer, List.map_cons, List.cons_append]⟩
        rw [List.map_cons, List.mem_cons, not_or]
        exact ⟨Ne.symm here, absent⟩

theorem update_eq_nil_iff :
    Process.updatesyscallhistory num allocated counters = [] ↔ counters = [] ∧ allocated = false := by
  cases counters with
  | nil => cases allocated <;> simp [Process.updatesyscallhistory]
  | cons counter rest =>
    rw [Process.updatesyscallhistory]
    split <;> simp

theorem count_nodup (distinct : (counters.map SyscallCounter.num).Nodup) :
    ((count counters c).map SyscallCounter.num).Nodup := by
  unfold count
  split
  · rcases nums_update c.num c.page.isSome counters with same | ⟨absent, longer⟩
    · rwa [same]
    · rw [longer, ← List.concat_eq_append]
      exact distinct.concat absent
  · exact distinct

theorem historyOf_nodup (calls : List Call) : ((historyOf calls).map SyscallCounter.num).Nodup := by
  induction calls using List.reverseRecOn with
  | nil => exact List.nodup_nil
  | append_singleton past c ih =>
    rw [historyOf_concat]
    exact count_nodup ih

theorem counted_historyOf_le (k : Int) (calls : List Call) :
    counted k (historyOf calls) ≤ (made k calls : Nat) := by
  induction calls using List.reverseRecOn with
  | nil => exact Int.le_refl 0
  | append_singleton past c ih =>
    rw [historyOf_concat, count, made_concat]
    split
    · rw [counted_update]
      by_cases same : c.num = k
      · simp only [same, true_and, if_true]
        split <;> push_cast <;> omega
      · simpa [same] using ih
    · push_cast
      split <;> omega

theorem counted_historyOf_nonneg (k : Int) (calls : List Call) : 0 ≤ counted k (historyOf calls) := by
  induction calls using List.reverseRecOn with
  | nil => exact Int.le_refl 0
  | append_singleton past c ih =>
    rw [historyOf_concat, count]
    split
    · rw [counted_update]
      split <;> omega
    · exact ih

theorem historyOf_eq_nil_iff : historyOf calls = [] ↔ ∀ c ∈ calls, c.Valid → c.page = none := by
  induction calls using List.reverseRecOn with
  | nil => simp [historyOf]
  | append_singleton past c ih =>
    rw [historyOf_concat, count, List.forall_mem_append, ← ih]
    by_cases valid : c.Valid
    · simp [valid, update_eq_nil_iff]
    · simp [valid]

def Tracks (p : Caller) (past : List Call) : Prop :=
  ∃ pages, Links p.history.node p.history.head pages (if p.ended then [] else historyOf past)

theorem Links.pages_eq (links : Links h.node h.head pages counters) : h.pages = pages :=
  links.chain.follow links.length_le

theorem Links.map_num (links : Links node link pages counters) :
    pages.map (fun page => (node page).num) = counters.map SyscallCounter.num := by
  induction pages generalizing link counters with
  | nil =>
    cases counters with
    | nil => rfl
    | cons counter counters => exact links.elim
  | cons page pages ih =>
    cases counters with
    | nil => exact links.elim
    | cons counter counters =>
      obtain ⟨_, number, _, rest⟩ := links
      rw [List.map_cons, List.map_cons, number, ih rest]

theorem Links.nums_eq (links : Links h.node h.head pages counters) : h.nums = counters.map SyscallCounter.num := by
  rw [History.nums, links.pages_eq, links.map_num]

def Call.Reads (c : Call) : Prop := c.num = SYS_getsyscallcounter ∧ c.arg ≠ none

theorem Call.eq_get (isGet : c.num = SYS_getsyscallcounter) (arg : c.arg = some k) : ∃ page, c = .get k page := by
  cases c with
  | mk num given page =>
    cases isGet
    cases arg
    exact ⟨page, rfl⟩

theorem syscall_getsyscallcounter (updated : updatesyscallhistory p.history c.num c.page = .ok h)
    (isGet : c.num = SYS_getsyscallcounter) (arg : c.arg = some k) :
    syscall p c = (getsyscallcounter h k).map fun value => (some value, { p with history := h }) := by
  have valid : c.Valid := by
    rw [Call.Valid, isGet]
    decide
  rw [syscall, if_pos valid, updated]
  simp only [bind, Except.bind, isGet, if_true, arg]
  cases getsyscallcounter h k <;> rfl

theorem syscall_plain (valid : c.Valid) (updated : updatesyscallhistory p.history c.num c.page = .ok h)
    (other : ¬ c.Reads) (stays : ¬ c.Ends p.pid) :
    ∃ reply, syscall p c = .ok (reply, { p with history := h }) := by
  rw [syscall, if_pos valid, updated]
  simp only [bind, Except.bind]
  split
  · rename_i isGet
    have unread : c.arg = none := by
      by_contra given
      exact other ⟨isGet, given⟩
    rw [unread]
    exact ⟨some (-1), rfl⟩
  · exact ⟨none, rfl⟩

theorem syscall_ends (updated : updatesyscallhistory p.history c.num c.page = .ok h)
    (links : Links h.node h.head pages counters) (ends : c.Ends p.pid) :
    syscall p c = .ok (none, { p with history := { h with head := none }, ended := true }) := by
  have number : c.num = SYS_exit ∨ c.num = SYS_kill := ends.imp_right And.left
  have valid : c.Valid := by
    rw [Call.Valid]
    rcases number with is | is <;> rw [is] <;> decide
  have other : c.num ≠ SYS_getsyscallcounter := by
    rcases number with is | is <;> rw [is] <;> decide
  have freed := free_links links (Nat.lt_succ_of_le links.length_le)
  rw [syscall, if_pos valid, updated]
  simp only [bind, Except.bind, if_neg other, if_pos ends, freed]
  rfl

theorem Tracks.updated (tracks : Tracks p past) (usable : Usable p c) (valid : c.Valid) :
    ∃ pages h, updatesyscallhistory p.history c.num c.page = .ok h ∧
      Links h.node h.head pages (historyOf (past ++ [c])) := by
  obtain ⟨pages, links⟩ := tracks
  rw [usable.1, if_neg Bool.false_ne_true] at links
  have fresh : ∀ new ∈ c.page, new ∉ pages := by
    rw [← links.pages_eq]
    exact usable.2
  obtain ⟨after, h, updated, now⟩ := updatesyscallhistory_links links fresh
  refine ⟨after, h, updated, ?_⟩
  rw [historyOf_concat, count, if_pos valid]
  exact now

theorem Tracks.step (tracks : Tracks p past) (taken : step p c = some q) : Tracks q (past ++ [c]) := by
  unfold Counting.step at taken
  split at taken
  · rename_i usable
    obtain ⟨⟨reply, final⟩, called, rfl⟩ := Option.map_eq_some_iff.mp taken
    have ran := ok_of_toOption called
    by_cases valid : c.Valid
    · obtain ⟨pages, h, updated, links⟩ := tracks.updated usable valid
      by_cases ends : c.Ends p.pid
      · rw [syscall_ends updated links ends] at ran
        cases ran
        exact ⟨[], rfl⟩
      · have stays : Tracks { p with history := h } (past ++ [c]) := by
          refine ⟨pages, ?_⟩
          rw [show ({ p with history := h } : Caller).ended = false from usable.1]
          exact links
        by_cases reads : c.Reads
        · obtain ⟨k, arg⟩ := Option.ne_none_iff_exists'.mp reads.2
          rw [syscall_getsyscallcounter updated reads.1 arg] at ran
          cases got : getsyscallcounter h k with
          | error fault => simp [got, Except.map] at ran
          | ok value =>
            simp only [got, Except.map, Except.ok.injEq, Prod.mk.injEq] at ran
            rw [← ran.2]
            exact stays
        · obtain ⟨_, done⟩ := syscall_plain valid updated reads ends
          rw [done] at ran
          cases ran
          exact stays
    · rw [syscall, if_neg valid] at ran
      cases ran
      obtain ⟨pages, links⟩ := tracks
      refine ⟨pages, ?_⟩
      rwa [historyOf_concat, count, if_neg valid]
  · contradiction

theorem run_invariant {ok : Caller → Call → Prop} (Inv : Caller → List Call → Prop) (start : Inv p [])
    (along : Along Counting.step ok p calls)
    (kept : ∀ before past c after, Inv before past → ok before c → Counting.step before c = some after →
      Inv after (past ++ [c]))
    (ran : exec Counting.step p calls = some q) : Inv q calls := by
  have holds := emitted_invariant Inv start along kept ran
  have same : (emitted Counting.step (fun _ c => c) p calls).flatMap (fun c => [c]) =
      calls.flatMap fun c => [c] := emitted_flatMap (fun _ _ => rfl) ran
  rw [List.flatMap_singleton', List.flatMap_singleton'] at same
  rwa [same] at holds

theorem tracks_created : Tracks (created pid node) [] := ⟨[], rfl⟩

theorem tracks_run (ran : exec Counting.step (created pid node) calls = some p) : Tracks p calls :=
  run_invariant Tracks tracks_created along_true (fun _ _ _ _ tracks _ taken => tracks.step taken) ran

def History.WellFormed (h : History) : Prop :=
  ∃ pages, LinkedQueue.Chain (fun page => (h.node page).next) h.head pages ∧
    (pages.map fun page => (h.node page).num).Nodup

theorem Tracks.wellFormed (tracks : Tracks p past) : p.history.WellFormed := by
  obtain ⟨pages, links⟩ := tracks
  refine ⟨pages, links.chain, ?_⟩
  rw [links.map_num]
  split
  · exact List.nodup_nil
  · exact historyOf_nodup past

theorem Tracks.getsyscallcounter {page : Option Page} (tracks : Tracks p past)
    (usable : Usable p (.get k page)) : if historyOf (past ++ [.get k page]) = [] then
      syscall p (.get k page) = .error .nullNode
    else ∃ q, syscall p (.get k page) = .ok (some (BitVec.ofInt 32
      (counted k (historyOf (past ++ [.get k page])))).toInt, q) := by
  have valid : (Call.get k page).Valid := show (0 : Int) < 24 ∧ (24 : Int) < 30 by decide
  obtain ⟨pages, h, updated, links⟩ := tracks.updated usable valid
  rw [syscall_getsyscallcounter updated rfl rfl, getsyscallcounter_links links]
  split
  · rfl
  · exact ⟨_, rfl⟩

theorem toInt_ofInt_eq {n : Int} (positive : 0 ≤ n) (small : n < 2 ^ 31) : (BitVec.ofInt 32 n).toInt = n := by
  rw [BitVec.toInt_ofInt, Int.bmod_def]
  split <;> omega

theorem toInt_ofInt_le {n : Int} (positive : 0 ≤ n) : (BitVec.ofInt 32 n).toInt ≤ n := by
  rw [BitVec.toInt_ofInt, Int.bmod_def]
  split <;> omega

/-- The call is a valid one, and its number has a node or gets a page for one. -/
def Counts (p : Caller) (c : Call) : Prop := c.Valid ∧ (c.page = none → c.num ∈ p.history.nums)

theorem counted_exact (tracks : Tracks p past) (running : p.ended = false) (counts : Counts p c)
    (exact_ : ∀ k, counted k (historyOf past) = (made k past : Nat)) (k : Int) :
    counted k (historyOf (past ++ [c])) = (made k (past ++ [c]) : Nat) := by
  obtain ⟨pages, links⟩ := tracks
  rw [running, if_neg Bool.false_ne_true] at links
  have covered : c.page.isSome = true ∨ c.num ∈ (historyOf past).map SyscallCounter.num := by
    rw [← links.nums_eq]
    cases page : c.page with
    | none => exact .inr (counts.2 page)
    | some new => exact .inl rfl
  rw [historyOf_concat, count, if_pos counts.1, counted_update, exact_ k, made_concat]
  by_cases same : c.num = k
  · rw [if_pos ⟨same, covered⟩]
    simp [same]
  · simp [same]

theorem usable_of_step (taken : step p c = some q) : Usable p c := by
  unfold step at taken
  split at taken
  · next usable => exact usable
  · contradiction

def Exact (p : Caller) (past : List Call) : Prop :=
  Tracks p past ∧ ∀ k, counted k (historyOf past) = (made k past : Nat)

theorem exact_run (counting : Along step Counts (created pid node) calls)
    (ran : exec step (created pid node) calls = some p) : Exact p calls := by
  apply run_invariant Exact ⟨tracks_created, fun _ => rfl⟩ counting _ ran
  intro before past c after ⟨tracks, counted⟩ counts taken
  exact ⟨tracks.step taken, counted_exact tracks (usable_of_step taken).1 counts counted⟩

/-- After any sequence of valid calls whose new nodes got their pages, no two nodes
have one number, and `getsyscallcounter` returns the number of calls made, itself
included, as an `int`. -/
theorem getsyscallcounter_exact {page : Option Page}
    (counting : Along step Counts (created pid node) (calls ++ [.get k page]))
    (ran : exec step (created pid node) calls = some p) (usable : Usable p (.get k page)) :
    p.history.WellFormed ∧ ∃ value q, syscall p (.get k page) = .ok (some value, q) ∧
      value = Int.bmod (made k (calls ++ [.get k page]) : Nat) (2 ^ 32) ∧
      (made k (calls ++ [.get k page]) < 2 ^ 31 → value = (made k (calls ++ [.get k page]) : Nat)) := by
  obtain ⟨before, last, _⟩ := counting.of_append ran
  obtain ⟨tracks, counted⟩ := exact_run before ran
  have now := counted_exact tracks usable.1 last counted
  have filled : historyOf (calls ++ [.get k page]) ≠ [] := by
    intro empty
    have own := now SYS_getsyscallcounter
    rw [empty] at own
    simp [Counting.counted, made_concat, Call.get] at own
    omega
  have reply := tracks.getsyscallcounter usable
  rw [if_neg filled] at reply
  obtain ⟨q, replied⟩ := reply
  refine ⟨tracks.wellFormed, _, q, replied, ?_, ?_⟩
  · rw [now k, BitVec.toInt_ofInt]
  · intro small
    rw [now k, toInt_ofInt_eq (Int.natCast_nonneg _)]
    exact_mod_cast small

def blank : Page → Node := fun _ => ⟨0, 0, none⟩

abbrev SYS_getpid : Int := 11

def twoCalls : List Call := [⟨SYS_getpid, none, some 0⟩, ⟨SYS_getpid, none, none⟩]

instance (p : Caller) (c : Call) : Decidable (Counts p c) := inferInstanceAs (Decidable (_ ∧ _))

theorem getsyscallcounter_exact_two_calls : ∃ p, exec step (created 3 blank) twoCalls = some p ∧
    p.history.WellFormed ∧ ∃ value q, syscall p (.get SYS_getpid (some 1)) = .ok (some value, q) ∧
      value = Int.bmod (made SYS_getpid (twoCalls ++ [.get SYS_getpid (some 1)]) : Nat) (2 ^ 32) ∧ value = 2 := by
  have counting : Along step Counts (created 3 blank) (twoCalls ++ [.get SYS_getpid (some 1)]) := by decide +kernel
  have observed : ((exec step (created 3 blank) twoCalls).map fun p =>
      decide (Usable p (.get SYS_getpid (some 1)))) = some true := by decide +kernel
  obtain ⟨p, ran, usable⟩ := Option.map_eq_some_iff.mp observed
  obtain ⟨formed, value, q, replied, reduced, same⟩ :=
    getsyscallcounter_exact counting ran (of_decide_eq_true usable)
  exact ⟨p, ran, formed, value, q, replied, reduced, same (by decide)⟩

def onlyGets (count : BitVec 32) : Caller where
  pid := 3
  history := ⟨some 0, Function.update blank 0 ⟨SYS_getsyscallcounter, count, none⟩⟩

section

variable (count : BitVec 32)
include count

theorem updatesyscallhistory_onlyGets :
    updatesyscallhistory (onlyGets count).history SYS_getsyscallcounter none = .ok (onlyGets (count + 1)).history := by
  have walked : walk (onlyGets count).history.node SYS_getsyscallcounter PAGES (some 0) = .ok 0 := rfl
  have recorded : record (onlyGets count).history SYS_getsyscallcounter none 0 = (onlyGets (count + 1)).history := by
    simp [record, onlyGets, History.setNode]
  rw [← recorded, updatesyscallhistory]
  change (walk (onlyGets count).history.node SYS_getsyscallcounter PAGES (some 0) >>= _) = _
  rw [walked]
  rfl

theorem syscall_onlyGets : syscall (onlyGets count) (.get SYS_getsyscallcounter none) =
    .ok (some (count + 1).toInt, onlyGets (count + 1)) := by
  rw [syscall_getsyscallcounter (updatesyscallhistory_onlyGets count) rfl rfl]
  rfl

theorem step_onlyGets :
    step (onlyGets count) (.get SYS_getsyscallcounter none) = some (onlyGets (count + 1)) := by
  have usable : Usable (onlyGets count) (.get SYS_getsyscallcounter none) := ⟨rfl, by simp [Call.get]⟩
  rw [step, if_pos usable, syscall_onlyGets]
  rfl

theorem exec_onlyGets (n : Nat) :
    exec step (onlyGets count) (List.replicate n (.get SYS_getsyscallcounter none)) =
      some (onlyGets (count + BitVec.ofNat 32 n)) := by
  induction n generalizing count with
  | zero => simp [exec]
  | succ n ih =>
    rw [List.replicate_succ, exec, step_onlyGets, Option.bind_some, ih, BitVec.ofNat_add,
      BitVec.add_assoc, BitVec.add_comm 1]
    rfl

theorem along_onlyGets (n : Nat) :
    Along step Counts (onlyGets count) (List.replicate n (.get SYS_getsyscallcounter none)) := by
  induction n generalizing count with
  | zero => trivial
  | succ n ih =>
    rw [List.replicate_succ]
    refine ⟨⟨?_, ?_⟩, ?_⟩
    · exact show (0 : Int) < 24 ∧ (24 : Int) < 30 by decide
    · intro _
      exact show (24 : Int) ∈ [24] by decide
    · intro next taken
      rw [step_onlyGets] at taken
      cases taken
      exact ih _

end

def manyGets (n : Nat) : List Call :=
  .get SYS_getsyscallcounter (some 0) :: List.replicate n (.get SYS_getsyscallcounter none)

theorem getsyscallcounter_overflows : ∃ calls p q,
    Along step Counts (created 3 blank) (calls ++ [.get SYS_getsyscallcounter none]) ∧
      exec step (created 3 blank) calls = some p ∧
      syscall p (.get SYS_getsyscallcounter none) = .ok (some (-2147483648), q) ∧
      made SYS_getsyscallcounter (calls ++ [.get SYS_getsyscallcounter none]) = 2147483648 := by
  have first : step (created 3 blank) (.get SYS_getsyscallcounter (some 0)) = some (onlyGets 1) := rfl
  have whole (n : Nat) : manyGets n ++ [.get SYS_getsyscallcounter none] = manyGets (n + 1) := by
    simp [manyGets, List.replicate_succ']
  have along (n : Nat) : Along step Counts (created 3 blank) (manyGets n) := by
    refine ⟨by decide +kernel, ?_⟩
    intro next taken
    rw [first] at taken
    cases taken
    exact along_onlyGets 1 n
  have ran (n : Nat) : exec step (created 3 blank) (manyGets n) = some (onlyGets (1 + BitVec.ofNat 32 n)) := by
    rw [manyGets, exec, first, Option.bind_some, exec_onlyGets]
  have number (n : Nat) : made SYS_getsyscallcounter (manyGets n) = n + 1 := by
    simp [made, manyGets, Call.get, List.countP_replicate]
  refine ⟨manyGets 2147483646, _, _, ?_, ran _, syscall_onlyGets _, ?_⟩
  · rw [whole]
    exact along _
  · rw [whole, number]

theorem Tracks.returns (tracks : Tracks p past) (usable : Usable p c) (other : ¬ c.Reads) :
    ∃ result, syscall p c = .ok result := by
  by_cases valid : c.Valid
  · obtain ⟨pages, h, updated, links⟩ := tracks.updated usable valid
    by_cases ends : c.Ends p.pid
    · exact ⟨_, syscall_ends updated links ends⟩
    · obtain ⟨_, done⟩ := syscall_plain valid updated other ends
      exact ⟨_, done⟩
  · exact ⟨_, if_neg valid⟩

/-- In any state that any calls lead to, with any pattern of failures, the history is a
list of distinct numbers that counts no call twice, and the next call follows a null
node exactly if it reads a counter while every `kalloc` for a node, its own included,
has failed. -/
theorem counting_safe_iff (ran : exec step (created pid node) calls = some p) (usable : Usable p c) :
    p.history.WellFormed ∧
      (∀ k value q, c.num = SYS_getsyscallcounter → c.arg = some k → syscall p c = .ok (some value, q) →
        value ≤ (made k (calls ++ [c]) : Nat)) ∧
      ((∃ result, syscall p c = .ok result) ↔
        ¬(c.Reads ∧ ∀ d ∈ calls ++ [c], d.Valid → d.page = none)) := by
  have tracks := tracks_run ran
  refine ⟨tracks.wellFormed, ?_, ?_⟩
  · intro k value q isGet arg replied
    obtain ⟨page, rfl⟩ := Call.eq_get isGet arg
    have reply := tracks.getsyscallcounter usable
    split at reply
    · rw [reply] at replied
      contradiction
    · obtain ⟨_, done⟩ := reply
      rw [done] at replied
      cases replied
      exact (toInt_ofInt_le (counted_historyOf_nonneg k _)).trans (counted_historyOf_le k _)
  · rw [← historyOf_eq_nil_iff]
    by_cases reads : c.Reads
    · obtain ⟨k, arg⟩ := Option.ne_none_iff_exists'.mp reads.2
      obtain ⟨page, rfl⟩ := Call.eq_get reads.1 arg
      have reply := tracks.getsyscallcounter usable
      split at reply
      · next empty => simp [reply, reads, empty]
      · rename_i filled
        obtain ⟨_, done⟩ := reply
        simp [done, filled]
    · refine iff_of_true ?_ fun both => reads both.1
      exact tracks.returns usable reads

def failedCall : List Call := [⟨SYS_getpid, none, none⟩]

theorem counting_safe_after_failure : ∃ p, exec step (created 3 blank) failedCall = some p ∧
    ((∃ result, syscall p (.get SYS_getpid (some 0)) = .ok result) ↔
      ¬((Call.get SYS_getpid (some 0)).Reads ∧
        ∀ d ∈ failedCall ++ [.get SYS_getpid (some 0)], d.Valid → d.page = none)) := by
  have observed : ((exec step (created 3 blank) failedCall).map fun p =>
      decide (Usable p (.get SYS_getpid (some 0)))) = some true := by decide +kernel
  obtain ⟨p, ran, usable⟩ := Option.map_eq_some_iff.mp observed
  exact ⟨p, ran, (counting_safe_iff ran (of_decide_eq_true usable)).2.2⟩

/-- The first call of a process reads a counter while there is no page left. -/
theorem getsyscallcounter_follows_null : Usable (created 3 blank) (.get SYS_getpid none) ∧
    syscall (created 3 blank) (.get SYS_getpid none) = .error .nullNode :=
  ⟨by decide +kernel, rfl⟩

end Xv6.Counting
