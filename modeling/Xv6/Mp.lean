import Xv6.Data.Words

namespace Xv6.Mp

open Xv6.Data

/-! # The multiprocessor tables

`mp.c`: the search for the floating pointer structure, the checks of the configuration
table and the walk over its entries, over the bytes of the physical memory.
-/

def NCPU : Nat := 8

def sum (memory : Memory) (address len : Nat) : Byte :=
  (List.range len).foldl (fun total i => total + memory (address + i)) 0

def memcmp (memory : Memory) (address : Nat) (text : List Nat) : Bool :=
  (List.range text.length).map (fun i => (memory (address + i)).toNat) == text

/-- The number in the `n` bytes at an address, the lowest byte first. -/
def little (memory : Memory) (address : Nat) : Nat → Nat
  | 0 => 0
  | n + 1 => (memory address).toNat + 256 * little memory (address + 1) n

def mpsearch1 (memory : Memory) (a len : Nat) : Option Nat :=
  ((List.range (len / 16)).map (a + 16 * ·)).find? fun p =>
    memcmp memory p [0x5f, 0x4d, 0x50, 0x5f] && sum memory p 16 == 0

def mpsearch (memory : Memory) : Option Nat :=
  let ebda := little memory 0x40e 2 * 16
  let first :=
    if ebda ≠ 0 then mpsearch1 memory ebda 1024
    else mpsearch1 memory ((little memory 0x413 2 * 1024 + (2 ^ 32 - 1024)) % 2 ^ 32) 1024
  first.orElse fun _ => mpsearch1 memory 0xf0000 0x10000

def mpconfig (memory : Memory) : Option (Nat × Nat) := do
  let mp ← mpsearch memory
  let conf := little memory (mp + 4) 4
  if conf = 0 then none
  else if !memcmp memory conf [0x50, 0x43, 0x4d, 0x50] then none
  else if memory (conf + 6) ≠ 1 ∧ memory (conf + 6) ≠ 4 then none
  else if sum memory conf (little memory (conf + 4) 2) ≠ 0 then none
  else some (mp, conf)

structure Walk where
  p : Nat
  ismp : Bool
  ncpu : Nat
  apicid : Nat → Byte
  ioapicid : Byte

/-- One round of the loop.  The `break` of the last case leaves the `switch` only. -/
def round (memory : Memory) (e : Nat) (walk : Walk) : Walk :=
  if walk.p < e then
    match (memory walk.p).toNat with
    | 0 =>
      if walk.ncpu < NCPU then
        { walk with
          p := walk.p + 20
          ncpu := walk.ncpu + 1
          apicid := Function.update walk.apicid walk.ncpu (memory (walk.p + 1)) }
      else { walk with p := walk.p + 20 }
    | 2 => { walk with p := walk.p + 8, ioapicid := memory (walk.p + 1) }
    | 1 | 3 | 4 => { walk with p := walk.p + 8 }
    | _ => { walk with ismp := false }
  else walk

def tableEnd (memory : Memory) (conf : Nat) : Nat := conf + little memory (conf + 4) 2

/-- The loop after some rounds; the header of the table has 44 bytes. -/
def walked (memory : Memory) (conf rounds : Nat) : Walk :=
  (round memory (tableEnd memory conf))^[rounds] ⟨conf + 44, true, 0, fun _ => 0, 0⟩

inductive Outcome
  | panics (message : String)
  | returned (lapic : Nat) (walk : Walk) (imcr : Bool)

/-- The function `mpinit`, or `none` when its loop is not over after so many rounds. -/
def mpinit (memory : Memory) (rounds : Nat) : Option Outcome :=
  match mpconfig memory with
  | none => some (.panics "Expect to run on an SMP")
  | some (mp, conf) =>
    let walk := walked memory conf rounds
    if walk.p < tableEnd memory conf then none
    else if !walk.ismp then some (.panics "Didn't find a suitable machine")
    else some (.returned (little memory (conf + 36) 4) walk (memory (mp + 12) != 0))

def entrySize (type : Byte) : Option Nat :=
  match type.toNat with
  | 0 => some 20
  | 1 | 2 | 3 | 4 => some 8
  | _ => none

/-- From `p` on the table is a row of entries of known types. -/
inductive Covered (memory : Memory) (e : Nat) : Nat → Prop
  | past {p : Nat} : e ≤ p → Covered memory e p
  | entry {p size : Nat} : p < e → entrySize (memory p) = some size → Covered memory e (p + size) →
    Covered memory e p

def Unknown (memory : Memory) (e : Nat) (walk : Walk) : Prop :=
  walk.p < e ∧ entrySize (memory walk.p) = none

section Rounds

variable {memory : Memory} {e : Nat} {walk : Walk}

theorem round_past (past : e ≤ walk.p) : round memory e walk = walk :=
  if_neg (Nat.not_lt.mpr past)

theorem round_entry {size : Nat} (inside : walk.p < e) (known : entrySize (memory walk.p) = some size) :
    (round memory e walk).p = walk.p + size := by
  simp only [round, if_pos inside]
  simp only [entrySize] at known
  split at known <;> simp_all
  split <;> rfl

theorem round_unknown (unknown : Unknown memory e walk) : round memory e walk = { walk with ismp := false } := by
  simp only [round, if_pos unknown.1]
  have type := unknown.2
  simp only [entrySize] at type
  split at type <;> simp_all

theorem round_ncpu (within : walk.ncpu ≤ NCPU) : (round memory e walk).ncpu ≤ NCPU := by
  simp only [round]
  split
  · split
    · split
      · next free => exact free
      · exact within
    all_goals exact within
  · exact within

/-- An unknown entry is met again in every later round. -/
theorem Unknown.stays (unknown : Unknown memory e walk) (rounds : Nat) :
    Unknown memory e ((round memory e)^[rounds] walk) := by
  induction rounds generalizing walk with
  | zero => exact unknown
  | succ rounds later =>
    rw [Function.iterate_succ_apply, round_unknown unknown]
    exact later unknown

theorem past_stays (past : e ≤ walk.p) (rounds : Nat) : (round memory e)^[rounds] walk = walk :=
  Function.iterate_fixed (round_past past) rounds

theorem Covered.ends (covered : Covered memory e walk.p) :
    ∃ rounds, e ≤ ((round memory e)^[rounds] walk).p := by
  generalize start : walk.p = p at covered
  induction covered generalizing walk with
  | past past => exact ⟨0, by rwa [← start] at past⟩
  | entry inside known _ rest =>
    subst start
    obtain ⟨rounds, ended⟩ := rest (round_entry inside known)
    exact ⟨rounds + 1, ended⟩

theorem covered_of_ends {rounds : Nat} (ended : e ≤ ((round memory e)^[rounds] walk).p) :
    Covered memory e walk.p := by
  induction rounds generalizing walk with
  | zero => exact .past ended
  | succ rounds rest =>
    rcases Nat.lt_or_ge walk.p e with inside | past
    · cases known : entrySize (memory walk.p) with
      | none =>
        have stuck := Unknown.stays ⟨inside, known⟩ (rounds + 1)
        exact absurd stuck.1 (Nat.not_lt.mpr ended)
      | some size =>
        have next := rest ended
        rw [round_entry inside known] at next
        exact .entry inside known next
    · exact .past past

theorem Covered.known (covered : Covered memory e walk.p) (rounds : Nat) :
    ¬ Unknown memory e ((round memory e)^[rounds] walk) := by
  intro unknown
  obtain ⟨more, ended⟩ := covered.ends
  have stuck := unknown.stays more
  rw [← Function.iterate_add_apply, Nat.add_comm, Function.iterate_add_apply, past_stays ended] at stuck
  exact absurd stuck.1 (Nat.not_lt.mpr ended)

end Rounds

theorem walked_ncpu (memory : Memory) (conf rounds : Nat) : (walked memory conf rounds).ncpu ≤ NCPU := by
  induction rounds with
  | zero => exact Nat.zero_le _
  | succ rounds within =>
    rw [walked, Function.iterate_succ_apply']
    exact round_ncpu within

theorem mpinit_ended {memory : Memory} {mp conf : Nat} (accepted : mpconfig memory = some (mp, conf))
    (rounds : Nat) :
    mpinit memory rounds ≠ none ↔ tableEnd memory conf ≤ (walked memory conf rounds).p := by
  simp only [mpinit, accepted]
  split
  · next running => simp [running]
  · next ended => split <;> simp [Nat.not_lt.mp ended]

/-- An entry of an unknown type is never passed: with one the loop runs for ever, without
one `mpinit` ends. -/
theorem mpinit_terminates_iff (memory : Memory) (mp conf : Nat)
    (accepted : mpconfig memory = some (mp, conf)) : ((∃ rounds, mpinit memory rounds ≠ none) ∧
      (∀ rounds, Unknown memory (tableEnd memory conf) (walked memory conf rounds) →
        ∃ later, mpinit memory later = some (.panics "Didn't find a suitable machine")) ∧
      ∀ rounds, (walked memory conf rounds).ncpu ≤ NCPU) ↔
    Covered memory (tableEnd memory conf) (conf + 44) := by
  constructor
  · intro ⟨⟨rounds, returned⟩, _, _⟩
    exact covered_of_ends ((mpinit_ended accepted rounds).mp returned)
  · intro covered
    have start : Covered memory (tableEnd memory conf) (walked memory conf 0).p := covered
    obtain ⟨rounds, ended⟩ := start.ends
    constructor
    · exact ⟨rounds, (mpinit_ended accepted rounds).mpr ended⟩
    · constructor
      · intro rounds unknown
        exact absurd unknown (start.known rounds)
      · exact walked_ncpu memory conf

def oneEntry (type sum : Byte) : Memory := fun address =>
  if address = 0x40e then 0x10
  else if address < 0x100 then 0
  else if address < 0x110 then [0x5f, 0x4d, 0x50, 0x5f, 0, 2, 0, 0, 1, 4, 0x9e, 0, 0, 0, 0, 0].getD (address - 0x100) 0
  else if address < 0x200 then 0
  else [0x50, 0x43, 0x4d, 0x50, 52, 0, 4, sum].getD (address - 0x200) (if address = 0x22c then type else 0)

theorem mpinit_terminates_bus : ∃ rounds, mpinit (oneEntry 1 0x97) rounds ≠ none :=
  ((mpinit_terminates_iff (oneEntry 1 0x97) 0x100 0x200 (by decide +kernel)).mpr
    (.entry (by decide) rfl (.past (by decide)))).1

/-- A table with a correct sum and an entry of type 5: the loop never ends. -/
theorem mpinit_runs_forever :
    mpconfig (oneEntry 5 0x93) = some (0x100, 0x200) ∧ ∀ rounds, mpinit (oneEntry 5 0x93) rounds = none := by
  have accepted : mpconfig (oneEntry 5 0x93) = some (0x100, 0x200) := by decide +kernel
  constructor
  · exact accepted
  · intro rounds
    by_contra ended
    have past := (mpinit_ended accepted rounds).mp ended
    have stuck : Unknown (oneEntry 5 0x93) 0x234 (walked (oneEntry 5 0x93) 0x200 rounds) :=
      Unknown.stays ⟨by decide, rfl⟩ rounds
    exact absurd stuck.1 (Nat.not_lt.mpr past)

end Xv6.Mp
