import Xv6.Data.LinkedQueue
import Xv6.Process.Calls

namespace Xv6.Counting

open Xv6.Data
open Xv6.Process (SyscallCounter)

/-! # The system-call history as the kernel stores it

`p->syscallhistory` points to a list of `syscallcounter` nodes, each on a page of
its own, and the functions that use it walk its links.
-/

/-- The pages below `PHYSTOP`. -/
abbrev PAGES : Nat := 57344

abbrev Page := Fin PAGES

structure Node where
  num : Int
  count : BitVec 32
  next : Option Page

/-- `p->syscallhistory` and the contents of the pages. -/
structure History where
  head : Option Page
  node : Page → Node

/-- What the loops can run into: a null node, or a walk longer than there are pages. -/
inductive Fault where
  | nullNode
  | endless
deriving DecidableEq, Repr

def History.setNode (h : History) (page : Page) (node : Node) : History :=
  { h with node := Function.update h.node page node }

/-- `while (temp->next != 0 && temp->num != num) temp = temp->next;` -/
def walk (node : Page → Node) (num : Int) : Nat → Option Page → Except Fault Page
  | _, none => .error .nullNode
  | 0, some _ => .error .endless
  | fuel + 1, some temp =>
    if (node temp).next ≠ none ∧ (node temp).num ≠ num then walk node num fuel (node temp).next
    else .ok temp

def newcounter (h : History) (num : Int) (page : Option Page) : Option Page × History :=
  match page with
  | none => (none, h)
  | some counter => (some counter, h.setNode counter ⟨num, 1, none⟩)

/-- `updatesyscallhistory` after its walk: count the call in the node reached or
append a new one to it. -/
def record (h : History) (num : Int) (page : Option Page) (temp : Page) : History :=
  if (h.node temp).num = num then h.setNode temp { h.node temp with count := (h.node temp).count + 1 }
  else
    let (counter, h) := newcounter h num page
    h.setNode temp { h.node temp with next := counter }

def updatesyscallhistory (h : History) (num : Int) (page : Option Page) : Except Fault History :=
  if h.head = none then
    let (counter, h) := newcounter h num page
    .ok { h with head := counter }
  else do
    let temp ← walk h.node num PAGES h.head
    return record h num page temp

def getsyscallcounter (h : History) (num : Int) : Except Fault Int := do
  let temp ← walk h.node num PAGES h.head
  if (h.node temp).num = num then return (h.node temp).count.toInt
  return 0

def History.free (h : History) : Nat → Except Fault History
  | 0 => .error .endless
  | fuel + 1 =>
    match h.head with
    | none => .ok h
    | some temp => History.free { h with head := (h.node temp).next } fuel

abbrev SYS_exit : Int := 2
abbrev SYS_kill : Int := 6
abbrev SYS_getsyscallcounter : Int := 24

/-- `NELEM(syscalls)`; every entry above zero is set. -/
abbrev NSYSCALL : Int := 30

/-- A system call of the process: its number, its first argument as `argint` reads
it (`none` when it cannot), and the page that `kalloc` has for a new node. -/
structure Call where
  num : Int
  arg : Option Int
  page : Option Page
deriving DecidableEq, Repr

/-- The process that makes the calls; `ended` once it has no calls left to make. -/
structure Caller where
  pid : Int
  history : History
  ended : Bool := false

def Call.Valid (c : Call) : Prop := 0 < c.num ∧ c.num < NSYSCALL

instance (c : Call) : Decidable c.Valid := inferInstanceAs (Decidable (_ ∧ _))

/-- The calls that free the history: `exit` does not return, and `trap` lets a process
that has killed itself exit. -/
def Call.Ends (pid : Int) (c : Call) : Prop := c.num = SYS_exit ∨ c.num = SYS_kill ∧ c.arg = some pid

instance (pid : Int) (c : Call) : Decidable (c.Ends pid) := inferInstanceAs (Decidable (_ ∨ _))

/-- `syscall`.  The reply is left out for the calls that do not concern the history. -/
def syscall (p : Caller) (c : Call) : Except Fault (Option Int × Caller) :=
  if c.Valid then do
    let history ← updatesyscallhistory p.history c.num c.page
    if c.num = SYS_getsyscallcounter then
      match c.arg with
      | none => return (some (-1), { p with history })
      | some num =>
        let count ← getsyscallcounter history num
        return (some count, { p with history })
    else if c.Ends p.pid then
      let history ← history.free (PAGES + 1)
      return (none, { p with history, ended := true })
    else return (none, { p with history })
  else .ok (some (-1), p)

def History.pages (h : History) : List Page :=
  LinkedQueue.follow (fun page => (h.node page).next) PAGES h.head

def History.nums (h : History) : List Int := h.pages.map fun page => (h.node page).num

/-- The process still makes calls, and `kalloc` does not return a page in use. -/
def Usable (p : Caller) (c : Call) : Prop :=
  p.ended = false ∧ ∀ page ∈ c.page, page ∉ p.history.pages

instance (p : Caller) (c : Call) : Decidable (Usable p c) :=
  match page : c.page with
  | none => decidable_of_iff (p.ended = false) (by simp [Usable, page])
  | some new => decidable_of_iff (p.ended = false ∧ new ∉ p.history.pages) (by simp [Usable, page])

def step (p : Caller) (c : Call) : Option Caller :=
  if Usable p c then (syscall p c).toOption.map (·.2) else none

def created (pid : Int) (node : Page → Node) : Caller where
  pid
  history := ⟨none, node⟩

/-- The links lead through the pages, and the nodes there are the counters, as far
as a 32-bit count shows. -/
def Links (node : Page → Node) : Option Page → List Page → List SyscallCounter → Prop
  | link, [], [] => link = none
  | link, page :: pages, counter :: counters =>
    link = some page ∧ (node page).num = counter.num ∧ (node page).count = BitVec.ofInt 32 counter.count ∧
      Links node (node page).next pages counters
  | _, _, _ => False

variable {h : History} {node other : Page → Node} {link page : Option Page} {pages : List Page}
  {counters : List SyscallCounter} {num : Int} {fuel : Nat}

theorem Links.chain (links : Links node link pages counters) :
    LinkedQueue.Chain (fun page => (node page).next) link pages := by
  induction pages generalizing link counters with
  | nil =>
    cases counters with
    | nil => exact links
    | cons counter counters => exact links.elim
  | cons page pages ih =>
    cases counters with
    | nil => exact links.elim
    | cons counter counters => exact ⟨links.1, ih links.2.2.2⟩

theorem Links.congr (links : Links node link pages counters) (same : ∀ page ∈ pages, other page = node page) :
    Links other link pages counters := by
  induction pages generalizing link counters with
  | nil =>
    cases counters with
    | nil => exact links
    | cons counter counters => exact links.elim
  | cons page pages ih =>
    cases counters with
    | nil => exact links.elim
    | cons counter counters =>
      obtain ⟨here, others⟩ := List.forall_mem_cons.mp same
      obtain ⟨leads, number, count, rest⟩ := links
      refine ⟨leads, ?_, ?_, ?_⟩
      · rw [here, number]
      · rw [here, count]
      · rw [here]
        exact ih rest others

variable {first temp : Page}

theorem record_found (found : (h.node temp).num = num) :
    record h num page temp = h.setNode temp { h.node temp with count := (h.node temp).count + 1 } :=
  if_pos found

theorem record_missing (missing : (h.node temp).num ≠ num) (other : ∀ new ∈ page, temp ≠ new) :
    (record h num page temp).node = Function.update (match page with
        | none => h.node
        | some new => Function.update h.node new ⟨num, 1, none⟩) temp { h.node temp with next := page } := by
  cases page with
  | none => simp [record, missing, newcounter, History.setNode]
  | some new => simp [record, missing, newcounter, History.setNode, Function.update_of_ne (other new rfl)]

theorem record_away {away : Page} (elsewhere : away ≠ temp) (notNew : some away ≠ page) :
    (record h num page temp).node away = h.node away := by
  by_cases found : (h.node temp).num = num
  · rw [record_found found]
    exact Function.update_of_ne elsewhere ..
  · cases page with
    | none => simp [record, found, newcounter, History.setNode, elsewhere]
    | some new =>
      have different : away ≠ new := fun same => notNew (by rw [same])
      simp [record, found, newcounter, History.setNode, elsewhere, different]

theorem record_links_found (links : Links h.node (some first) (first :: pages) counters)
    (found : (h.node first).num = num) :
    Links (record h num page first).node (some first) (first :: pages)
      (Process.updatesyscallhistory num page.isSome counters) := by
  have once := (List.nodup_cons.mp links.chain.nodup).1
  cases counters with
  | nil => exact links.elim
  | cons counter counters =>
    obtain ⟨_, number, count, rest⟩ := links
    rw [record_found found, Process.updatesyscallhistory, if_pos (number.symm.trans found)]
    have here : (h.setNode first { h.node first with count := (h.node first).count + 1 }).node first =
        { h.node first with count := (h.node first).count + 1 } := Function.update_self ..
    refine ⟨rfl, ?_, ?_, ?_⟩
    · rw [here, number]
    · rw [here, count, BitVec.ofInt_add]
      rfl
    · rw [here]
      apply rest.congr
      intro later member
      exact Function.update_of_ne (fun same : later = first => once (same ▸ member)) ..

/-- From any node on, the walk and what follows it do to the nodes what
`updatesyscallhistory` does to the list. -/
theorem record_links (num : Int) (links : Links h.node (some first) (first :: pages) counters)
    (fresh : ∀ new ∈ page, new ∉ first :: pages) (enough : pages.length < fuel) :
    ∃ temp after, walk h.node num fuel (some first) = .ok temp ∧ temp ∈ first :: pages ∧
      Links (record h num page temp).node (some first) after
        (Process.updatesyscallhistory num page.isSome counters) := by
  induction pages generalizing first counters fuel with
  | nil =>
    obtain ⟨fuel, rfl⟩ := Nat.exists_eq_add_one_of_ne_zero (Nat.ne_of_gt enough)
    by_cases found : (h.node first).num = num
    · exact ⟨first, [first], by simp [walk, found], by simp, record_links_found links found⟩
    · cases counters with
      | nil => exact links.elim
      | cons counter counters =>
        obtain ⟨_, number, count, rest⟩ := links
        cases counters with
        | cons counter' counters => exact rest.elim
        | nil =>
          have last : (h.node first).next = none := rest
          have apart : ∀ new ∈ page, first ≠ new := by
            intro new isNew same
            exact fresh new isNew (by simp [same])
          refine ⟨first, first :: page.toList, by simp [walk, last], by simp, ?_⟩
          rw [record_missing found apart, Process.updatesyscallhistory, if_neg (number ▸ found)]
          refine ⟨rfl, by simpa using number, by simpa using count, ?_⟩
          rw [Function.update_self]
          cases page with
          | none => exact rfl
          | some new =>
            have different := Ne.symm (apart new rfl)
            simp [Links, Process.updatesyscallhistory, different]
  | cons second pages ih =>
    obtain ⟨fuel, rfl⟩ := Nat.exists_eq_add_one_of_ne_zero (Nat.ne_of_gt (Nat.zero_lt_of_lt enough))
    by_cases found : (h.node first).num = num
    · exact ⟨first, first :: second :: pages, by simp [walk, found], by simp, record_links_found links found⟩
    · have once := (List.nodup_cons.mp links.chain.nodup).1
      cases counters with
      | nil => exact links.elim
      | cons counter counters =>
        obtain ⟨_, number, count, rest⟩ := links
        have onward : (h.node first).next = some second := rest.chain.1
        rw [onward] at rest
        have later : ∀ new ∈ page, new ∉ second :: pages := by
          intro new isNew member
          exact fresh new isNew (List.mem_cons_of_mem first member)
        obtain ⟨temp, after, walked, member, done⟩ := ih rest later (Nat.lt_of_succ_lt_succ enough)
        have kept : (record h num page temp).node first = h.node first := by
          apply record_away
          · intro same
            exact once (same ▸ member)
          · intro isNew
            exact fresh first isNew.symm List.mem_cons_self
        refine ⟨temp, first :: after, by simp [walk, onward, found, walked], List.mem_cons_of_mem first member, ?_⟩
        rw [Process.updatesyscallhistory, if_neg (number ▸ found)]
        exact ⟨rfl, by rw [kept, number], by rw [kept, count], by rw [kept, onward]; exact done⟩

theorem Links.length_le (links : Links node link pages counters) : pages.length ≤ PAGES := by
  have bound := links.chain.nodup.length_le_card
  rwa [Fintype.card_fin] at bound

theorem Links.head_eq_none_iff (links : Links node link pages counters) : link = none ↔ counters = [] := by
  cases pages with
  | nil =>
    cases counters with
    | nil => exact iff_of_true links rfl
    | cons counter counters => exact links.elim
  | cons page pages =>
    cases counters with
    | nil => exact links.elim
    | cons counter counters => simp [links.1]

theorem updatesyscallhistory_links (links : Links h.node h.head pages counters)
    (fresh : ∀ new ∈ page, new ∉ pages) : ∃ after h', updatesyscallhistory h num page = .ok h' ∧
      Links h'.node h'.head after (Process.updatesyscallhistory num page.isSome counters) := by
  cases pages with
  | nil =>
    cases counters with
    | cons counter counters => exact links.elim
    | nil =>
      have empty : h.head = none := links
      refine ⟨page.toList, _, if_pos empty, ?_⟩
      cases page with
      | none => exact rfl
      | some new => simp [History.setNode, Process.updatesyscallhistory, Links]
  | cons first pages =>
    have head : h.head = some first := links.chain.1
    have enough : pages.length < PAGES := links.length_le
    rw [head] at links
    obtain ⟨temp, after, walked, _, done⟩ := record_links num links fresh enough
    refine ⟨after, record h num page temp, ?_, ?_⟩
    · simp only [updatesyscallhistory, head, walked]
      rfl
    · have kept : (record h num page temp).head = some first := by
        unfold record newcounter
        split
        · exact head
        · cases page <;> exact head
      rw [kept]
      exact done

def counted (num : Int) : List SyscallCounter → Int
  | [] => 0
  | counter :: rest => if counter.num = num then counter.count else counted num rest

theorem walk_counted (num : Int) (links : Links node (some first) (first :: pages) counters)
    (enough : pages.length < fuel) : ∃ temp, walk node num fuel (some first) = .ok temp ∧
      (if (node temp).num = num then (node temp).count.toInt else 0) =
        (BitVec.ofInt 32 (counted num counters)).toInt := by
  induction pages generalizing first counters fuel with
  | nil =>
    obtain ⟨fuel, rfl⟩ := Nat.exists_eq_add_one_of_ne_zero (Nat.ne_of_gt enough)
    cases counters with
    | nil => exact links.elim
    | cons counter counters =>
      obtain ⟨_, number, count, rest⟩ := links
      cases counters with
      | cons counter' counters => exact rest.elim
      | nil =>
        have last : (node first).next = none := rest
        refine ⟨first, by simp [walk, last], ?_⟩
        rw [number, count, counted]
        split <;> rfl
  | cons second pages ih =>
    obtain ⟨fuel, rfl⟩ := Nat.exists_eq_add_one_of_ne_zero (Nat.ne_of_gt (Nat.zero_lt_of_lt enough))
    cases counters with
    | nil => exact links.elim
    | cons counter counters =>
      obtain ⟨_, number, count, rest⟩ := links
      have onward : (node first).next = some second := rest.chain.1
      by_cases found : (node first).num = num
      · refine ⟨first, by simp [walk, found], ?_⟩
        rw [if_pos found, count, counted, if_pos (number.symm.trans found)]
      · rw [onward] at rest
        obtain ⟨temp, walked, value⟩ := ih rest (Nat.lt_of_succ_lt_succ enough)
        refine ⟨temp, by simp [walk, onward, found, walked], ?_⟩
        rw [value, counted, if_neg (number ▸ found)]

/-- `getsyscallcounter` reads the count if there is a node, and follows the null
pointer if there is none. -/
theorem getsyscallcounter_links (links : Links h.node h.head pages counters) :
    getsyscallcounter h num =
      if counters = [] then .error .nullNode else .ok (BitVec.ofInt 32 (counted num counters)).toInt := by
  by_cases empty : counters = []
  · rw [if_pos empty, getsyscallcounter, links.head_eq_none_iff.mpr empty]
    rfl
  · cases pages with
    | nil =>
      cases counters with
      | nil => exact absurd rfl empty
      | cons counter counters => exact links.elim
    | cons first pages =>
      have head : h.head = some first := links.chain.1
      have enough : pages.length < PAGES := links.length_le
      rw [head] at links
      obtain ⟨temp, walked, value⟩ := walk_counted num links enough
      rw [if_neg empty, ← value, getsyscallcounter, head, walked]
      split
      · rename_i found
        simp only [bind, Except.bind, found, if_true]
        rfl
      · rename_i missing
        simp only [bind, Except.bind, missing, if_false]
        rfl

theorem free_links (links : Links h.node h.head pages counters) (enough : pages.length < fuel) :
    h.free fuel = .ok { h with head := none } := by
  induction pages generalizing h counters fuel with
  | nil =>
    obtain ⟨fuel, rfl⟩ := Nat.exists_eq_add_one_of_ne_zero (Nat.ne_of_gt enough)
    have empty : h.head = none := links.chain
    simp only [History.free, empty]
    rw [← empty]
  | cons first pages ih =>
    obtain ⟨fuel, rfl⟩ := Nat.exists_eq_add_one_of_ne_zero (Nat.ne_of_gt (Nat.zero_lt_of_lt enough))
    cases counters with
    | nil => exact links.elim
    | cons counter counters =>
      obtain ⟨head, _, _, rest⟩ := links
      have onward : Links ({ h with head := (h.node first).next } : History).node (h.node first).next pages counters :=
        rest
      simp only [History.free, head]
      exact ih onward (Nat.lt_of_succ_lt_succ enough)

end Xv6.Counting
