import Xv6.Process.ExitWait
import Xv6.Process.SystemCalls

namespace Xv6.Process

open Xv6.Data

/-! # Children and parents

`getchildren` compares the pid of every slot's parent with the caller's, so it also
reads the pid of a parent that is null: a word of the caller's own memory.
-/

variable {s : State} {caller x : Slot} {word : Int} {pids : List Int}

/-- `p->parent->pid`, where `word` is what stands at the place of `pid` behind a null
pointer. -/
def State.parentPid (s : State) (word : Int) (x : Slot) : Int :=
  match (s.proc x).parent with
  | some parent => (s.proc parent).pid
  | none => word

def getchildrenStep (s : State) (caller : Slot) (word : Int) (resultchilds : BitVec 32) (x : Slot) : BitVec 32 :=
  if s.parentPid word x = (s.proc caller).pid then resultchilds * 100 + BitVec.ofInt 32 (s.proc x).pid
  else resultchilds

def getchildren (s : State) (caller : Slot) (word : Int) : Int :=
  ((List.finRange NPROC).foldl (getchildrenStep s caller word) 0).toInt

def sysGetparentid (s : State) (caller : Slot) (word : Int) : Int := s.parentPid word caller

/-- `for (j = children; j > 0; j /= 100)` with what the body prints, `j % 100`. -/
def childIds (children : Int) : List Int :=
  if 0 < children then children.tmod 100 :: childIds (children.tdiv 100) else []
termination_by children.toNat
decreasing_by
  have smaller : children.tdiv 100 = children / 100 := Int.tdiv_eq_ediv_of_nonneg (by omega)
  rw [smaller]
  omega

def children (s : State) (caller : Slot) : List Slot :=
  (List.finRange NPROC).filter fun x => (s.proc x).parent = some caller

def packed (pids : List Int) : Int := pids.foldl (fun number pid => number * 100 + pid) 0

theorem packed_concat (pid : Int) : packed (pids ++ [pid]) = packed pids * 100 + pid := by
  simp [packed]

theorem packed_digits (digits : List Nat) :
    packed (digits.map Nat.cast).reverse = (Nat.ofDigits 100 digits : Nat) := by
  induction digits with
  | nil => rfl
  | cons digit rest ih =>
    rw [List.map_cons, List.reverse_cons, packed_concat, ih, Nat.ofDigits_cons]
    push_cast
    ring

theorem childIds_of_nonpos {number : Int} (none : number ≤ 0) : childIds number = [] := by
  rw [childIds, if_neg (by omega)]

theorem childIds_natCast (number : Nat) : childIds number = (Nat.digits 100 number).map Nat.cast := by
  induction number using Nat.strong_induction_on with
  | h number ih =>
    rw [childIds]
    by_cases positive : 0 < number
    · have quotient : (number : Int).tdiv 100 = (number / 100 : Nat) := rfl
      have rest : (number : Int).tmod 100 = (number % 100 : Nat) := rfl
      rw [if_pos (by exact_mod_cast positive), Nat.digits_def' (by decide) positive, List.map_cons, quotient, rest,
        ih _ (Nat.div_lt_self positive (by decide))]
    · obtain rfl : number = 0 := by omega
      rfl

structure Packable (pids : List Int) : Prop where
  digits : ∀ pid ∈ pids, 0 ≤ pid ∧ pid < 100
  first : pids.head? ≠ some 0
  fits : packed pids < 2 ^ 31

theorem Packable.of_digits (number : Nat) (small : number < 2 ^ 31) :
    Packable ((Nat.digits 100 number).map Nat.cast).reverse where
  digits pid member := by
    rw [List.mem_reverse, List.mem_map] at member
    obtain ⟨digit, isDigit, rfl⟩ := member
    have below := Nat.digits_lt_base (by decide) isDigit
    omega
  first := by
    rw [List.head?_reverse, List.getLast?_map]
    intro zero
    obtain ⟨digit, isLast, isZero⟩ := Option.map_eq_some_iff.mp zero
    obtain rfl : digit = 0 := by exact_mod_cast isZero
    obtain ⟨nonempty, last⟩ := List.mem_getLast?_eq_getLast isLast
    have positive : number ≠ 0 := by
      intro zero
      simp [zero] at nonempty
    exact Nat.getLast_digit_ne_zero 100 positive last.symm
  fits := by
    rw [packed_digits, Nat.ofDigits_digits]
    exact_mod_cast small

theorem Packable.eq_digits (packable : Packable pids) :
    0 ≤ packed pids ∧ (Nat.digits 100 (packed pids).toNat).map Nat.cast = pids.reverse := by
  have casts : ((pids.reverse.map Int.toNat).map (Nat.cast : Nat → Int)) = pids.reverse := by
    rw [List.map_map]
    refine (List.map_congr_left fun pid member => ?_).trans (List.map_id _)
    exact Int.toNat_of_nonneg (packable.digits pid (List.mem_reverse.mp member)).1
  have number : packed pids = (Nat.ofDigits 100 (pids.reverse.map Int.toNat) : Nat) := by
    rw [← packed_digits, casts, List.reverse_reverse]
  refine ⟨by omega, ?_⟩
  rw [number, Int.toNat_natCast, Nat.digits_ofDigits 100 (by decide), casts]
  · intro digit member
    obtain ⟨pid, isPid, rfl⟩ := List.mem_map.mp member
    have range := packable.digits pid (List.mem_reverse.mp isPid)
    omega
  · intro nonempty zero
    cases pids with
    | nil => exact nonempty rfl
    | cons pid rest =>
      have range := packable.digits pid List.mem_cons_self
      have isZero : pid.toNat = 0 := by simpa using zero
      exact packable.first (by rw [List.head?_cons, show pid = 0 by omega])

/-- The loop of the test finds the pids again exactly if they can be packed. -/
theorem childIds_packed_iff : childIds (BitVec.ofInt 32 (packed pids)).toInt = pids.reverse ↔ Packable pids := by
  constructor
  · intro decoded
    by_cases positive : 0 < (BitVec.ofInt 32 (packed pids)).toInt
    · obtain ⟨number, is⟩ := Int.eq_ofNat_of_zero_le positive.le
      have bound : (BitVec.ofInt 32 (packed pids)).toInt < 2 ^ 31 := BitVec.toInt_lt
      rw [is, childIds_natCast] at decoded
      rw [← List.reverse_reverse pids, ← decoded]
      exact .of_digits number (by omega)
    · rw [childIds_of_nonpos (by omega)] at decoded
      rw [List.reverse_eq_nil_iff.mp decoded.symm]
      exact ⟨by simp, by simp, by decide⟩
  · intro packable
    obtain ⟨positive, digits⟩ := packable.eq_digits
    have fits := packable.fits
    have same : (BitVec.ofInt 32 (packed pids)).toInt = ((packed pids).toNat : Int) := by
      rw [BitVec.toInt_ofInt, Int.bmod_def]
      split <;> omega
    rw [same, childIds_natCast, digits]

def Identified (s : State) (caller : Slot) (word : Int) : Prop :=
  ∀ x, s.parentPid word x = (s.proc caller).pid → (s.proc x).parent = some caller

theorem parentPid_eq_iff (identified : Identified s caller word) :
    s.parentPid word x = (s.proc caller).pid ↔ (s.proc x).parent = some caller := by
  constructor
  · exact identified x
  · intro child
    simp only [State.parentPid, child]

theorem foldl_getchildrenStep (identified : Identified s caller word) (number : Int) (slots : List Slot) :
    slots.foldl (getchildrenStep s caller word) (BitVec.ofInt 32 number) =
      BitVec.ofInt 32 (((slots.filter fun x => (s.proc x).parent = some caller).map fun x => (s.proc x).pid).foldl
        (fun number pid => number * 100 + pid) number) := by
  induction slots generalizing number with
  | nil => rfl
  | cons x rest ih =>
    rw [List.foldl_cons, getchildrenStep]
    simp only [parentPid_eq_iff identified]
    by_cases child : (s.proc x).parent = some caller
    · have next : BitVec.ofInt 32 number * 100 + BitVec.ofInt 32 (s.proc x).pid =
          BitVec.ofInt 32 (number * 100 + (s.proc x).pid) := by
        rw [BitVec.ofInt_add, BitVec.ofInt_mul]
        rfl
      rw [if_pos child, next, ih, List.filter_cons_of_pos (by simpa using child), List.map_cons, List.foldl_cons]
    · rw [if_neg child, ih, List.filter_cons_of_neg (by simpa using child)]

/-- For any table and caller, the number that `getchildren` returns is decoded to the
pids of the children, last one first, if and only if they can be packed. -/
theorem getchildren_decodes_iff (identified : Identified s caller word) :
    childIds (getchildren s caller word) = ((children s caller).map fun x => (s.proc x).pid).reverse ↔
      Packable ((children s caller).map fun x => (s.proc x).pid) := by
  have fold := foldl_getchildrenStep identified 0 (List.finRange NPROC)
  have start : BitVec.ofInt 32 0 = 0 := rfl
  rw [start] at fold
  rw [getchildren, fold]
  exact childIds_packed_iff

theorem Reachable.identified (reachable : Reachable s) (used : (s.proc caller).state ≠ .unused)
    (other : word ≠ (s.proc caller).pid) : Identified s caller word := by
  intro x same
  cases parent : (s.proc x).parent with
  | none =>
    rw [State.parentPid, parent] at same
    exact absurd same other
  | some q =>
    simp only [State.parentPid, parent] at same
    rw [reachable.pidTable.distinct caller q used same.symm]

def forksOnce : List Action := firstDispatch ++ forkChild

theorem getchildren_decodes_iff_init : ∃ s, exec step (userinit 0 1 2) forksOnce = some s ∧
    children s 0 = [1] ∧
    (childIds (getchildren s 0 0) = ((children s 0).map fun x => (s.proc x).pid).reverse ↔
      Packable ((children s 0).map fun x => (s.proc x).pid)) := by
  have observed : ((exec step (userinit 0 1 2) forksOnce).map fun s =>
      (children s 0, (s.proc 0).state, (s.proc 0).pid)) = some ([1], .running, 1) := by decide +kernel
  obtain ⟨s, ran, seen⟩ := Option.map_eq_some_iff.mp observed
  simp only [Prod.mk.injEq] at seen
  obtain ⟨only, running, pid⟩ := seen
  have reachable : Reachable s := ⟨0, 1, 2, forksOnce, ran⟩
  have identified : Identified s 0 0 := reachable.identified (by simp [running]) (by simp [pid])
  exact ⟨s, ran, only, getchildren_decodes_iff identified⟩

def hundredth : State :=
  { boot 0 with proc := fun x =>
      if x = 0 then { state := .running, pid := 99 }
      else if x = 1 then { state := .runnable, pid := 100, parent := some 0 }
      else {} }

theorem getchildren_loses_hundred : Identified hundredth 0 0 ∧ (children hundredth 0).map (fun x =>
      (hundredth.proc x).pid) = [100] ∧ childIds (getchildren hundredth 0 0) = [0, 1] := by
  have number : getchildren hundredth 0 0 = (100 : Nat) := by decide +kernel
  refine ⟨?_, by decide +kernel, ?_⟩
  · unfold Identified
    decide +kernel
  · rw [number, childIds_natCast]
    norm_num

/-- The parent pointers through which the loop of `getchildren` reads a pid. -/
def getchildrenReads (s : State) : List (Option Slot) := (List.finRange NPROC).map fun x => (s.proc x).parent

def getchildrenCounts (s : State) (caller : Slot) (word : Int) : List Slot :=
  (List.finRange NPROC).filter fun x => s.parentPid word x = (s.proc caller).pid

/-- Neither query reads through a null parent, and no unused slot is counted. -/
structure QueriesSafe (s : State) (caller : Slot) (word : Int) : Prop where
  getchildren : none ∉ getchildrenReads s
  getparentid : (s.proc caller).parent ≠ none
  counts : ∀ x ∈ getchildrenCounts s caller word, (s.proc x).state ≠ .unused

theorem Reachable.family (reachable : Reachable s) : Family s := by
  obtain ⟨ticks, kstack, pgdir, actions, ran⟩ := reachable
  have good : Sound s ∧ Family s := by
    apply exec_invariant_all (fun s => Sound s ∧ Family s) _ _ ran
    · exact ⟨sound_userinit ticks kstack pgdir, family_userinit ticks kstack pgdir⟩
    · intro before action after ⟨sound, family⟩ taken
      exact ⟨sound.step taken, family.step sound.forks (sound.change taken)⟩
  exact good.2

/-- In no reachable state are the queries safe: `getchildren` always reads through the
null parent of init, and `getparentid` does so when init makes the call. -/
theorem parent_queries_unsafe (reachable : Reachable s) (running : (s.proc caller).state = .running) :
    ¬ QueriesSafe s caller word ∧ none ∈ getchildrenReads s ∧
      ((s.proc caller).parent = none ↔ caller = s.initproc) ∧
      (caller = s.initproc → sysGetparentid s caller word = word) ∧
      ((∃ x ∈ getchildrenCounts s caller word, (s.proc x).state = .unused) ↔
        word = (s.proc caller).pid ∧ ∃ x, (s.proc x).state = .unused) := by
  have family := reachable.family
  have follows : none ∈ getchildrenReads s :=
    List.mem_map.mpr ⟨s.initproc, List.mem_finRange _, family.initParent⟩
  have word_of_unused (x : Slot) (unused : (s.proc x).state = .unused) : s.parentPid word x = word := by
    simp only [State.parentPid, family.unused x unused]
  have counted_iff (x : Slot) :
      x ∈ getchildrenCounts s caller word ↔ s.parentPid word x = (s.proc caller).pid := by
    simp [getchildrenCounts]
  refine ⟨fun safe => safe.getchildren follows, follows, ?_, ?_, ?_⟩
  · constructor
    · intro orphan
      by_contra other
      obtain ⟨q, parent, _⟩ := family.parent caller other (by simp [running]) (by simp [running])
      rw [orphan] at parent
      contradiction
    · intro isInit
      rw [isInit, family.initParent]
  · intro isInit
    simp only [sysGetparentid, State.parentPid, isInit, family.initParent]
  · constructor
    · intro ⟨x, counted, unused⟩
      rw [counted_iff, word_of_unused x unused] at counted
      exact ⟨counted, x, unused⟩
    · intro ⟨same, x, unused⟩
      refine ⟨x, ?_, unused⟩
      rw [counted_iff, word_of_unused x unused, same]

theorem parent_queries_unsafe_init : ∃ s, exec step (userinit 0 1 2) forksOnce = some s ∧
    ¬ QueriesSafe s 0 7 ∧ (s.proc 0).parent = none := by
  have observed : ((exec step (userinit 0 1 2) forksOnce).map fun s => ((s.proc 0).state, s.initproc)) =
      some (.running, 0) := by decide +kernel
  obtain ⟨s, ran, seen⟩ := Option.map_eq_some_iff.mp observed
  obtain ⟨running, init⟩ := Prod.mk.inj seen
  obtain ⟨unsafe_, _, parent, _, _⟩ := parent_queries_unsafe ⟨0, 1, 2, forksOnce, ran⟩ running
  exact ⟨s, ran, unsafe_, parent.mpr init.symm⟩

def childRuns : List Action :=
  List.flatten [forksOnce, [.yield 0, .scheduler 0, .scheduler 0], firstDispatch,
    [.yield 0, .scheduler 0, .scheduler 0], onePass]

/-- Init's child asks for its children while the word read through a null parent is its
own pid: init, which is not its child, and an unused slot are counted. -/
theorem getchildren_counts_unused : ∃ s, exec step (userinit 0 1 2) childRuns = some s ∧
    (s.proc 1).state = .running ∧ (s.proc 1).pid = 2 ∧ none ∈ getchildrenReads s ∧
    0 ∈ getchildrenCounts s 1 2 ∧ 2 ∈ getchildrenCounts s 1 2 ∧ (s.proc 2).state = .unused := by
  have observed : ((exec step (userinit 0 1 2) childRuns).map fun s =>
      (((s.proc 1).state, (s.proc 1).pid, (s.proc 2).state), decide (none ∈ getchildrenReads s),
        decide (0 ∈ getchildrenCounts s 1 2), decide (2 ∈ getchildrenCounts s 1 2))) =
      some ((.running, 2, .unused), true, true, true) := by decide +kernel
  obtain ⟨s, ran, seen⟩ := Option.map_eq_some_iff.mp observed
  simp only [Prod.mk.injEq, decide_eq_true_eq] at seen
  obtain ⟨⟨running, pid, unused⟩, null, init, slot⟩ := seen
  exact ⟨s, ran, running, pid, null, init, slot, unused⟩

end Xv6.Process
