import Mathlib

namespace Xv6.Data

/-! # Queues linked through their entries

An entry is appended by storing into the first link that is null; an entry that is
not in the queue may hold any link.
-/

structure LinkedQueue (P : Type) where
  head : Option P
  next : P → Option P

namespace LinkedQueue

variable {P : Type} {queue : LinkedQueue P} {entries : List P} {b : P}

/-- The links lead from a pointer through the entries to null. -/
def Chain (next : P → Option P) : Option P → List P → Prop
  | link, [] => link = none
  | link, i :: rest => link = some i ∧ Chain next (next i) rest

def Holds (queue : LinkedQueue P) (entries : List P) : Prop := Chain queue.next queue.head entries

variable {next : P → Option P} {link : Option P}

theorem Chain.unique {first second : List P}
    (left : Chain next link first) (right : Chain next link second) : first = second := by
  induction first generalizing link second with
  | nil =>
    cases second with
    | nil => rfl
    | cons j others => cases left.symm.trans right.1
  | cons i rest ih =>
    cases second with
    | nil => cases right.symm.trans left.1
    | cons j others =>
      obtain rfl := Option.some.inj (left.1.symm.trans right.1)
      rw [ih left.2 right.2]

theorem Chain.suffix {front rest : List P} {i : P}
    (chain : Chain next link (front ++ i :: rest)) : Chain next (some i) (i :: rest) := by
  induction front generalizing link with
  | nil => exact ⟨rfl, chain.2⟩
  | cons j front ih => exact ih chain.2

theorem Chain.nodup {entries : List P} (chain : Chain next link entries) : entries.Nodup := by
  induction entries generalizing link with
  | nil => exact List.nodup_nil
  | cons i rest ih =>
    refine List.nodup_cons.mpr ⟨?_, ih chain.2⟩
    intro again
    obtain ⟨front, back, split⟩ := List.append_of_mem again
    rw [split] at chain
    have whole : Chain next (some i) (i :: (front ++ i :: back)) := ⟨rfl, chain.2⟩
    have part : Chain next (some i) (i :: back) := Chain.suffix chain.2
    have lengths := congrArg List.length (whole.unique part)
    simp only [List.length_cons, List.length_append] at lengths
    omega

theorem Holds.length_le [Fintype P] (holds : queue.Holds entries) : entries.length ≤ Fintype.card P :=
  holds.nodup.length_le_card

theorem Holds.pop {rest : List P} (holds : queue.Holds (b :: rest)) :
    ({ queue with head := queue.next b } : LinkedQueue P).Holds rest := holds.2

def follow (next : P → Option P) : Nat → Option P → List P
  | 0, _ => []
  | _, none => []
  | fuel + 1, some i => i :: follow next fuel (next i)

theorem Chain.follow {entries : List P} (chain : Chain next link entries)
    {fuel : Nat} (enough : entries.length ≤ fuel) : LinkedQueue.follow next fuel link = entries := by
  induction entries generalizing link fuel with
  | nil =>
    rw [show link = none from chain]
    cases fuel <;> rfl
  | cons i rest ih =>
    rw [chain.1]
    cases fuel with
    | zero => simp at enough
    | succ fuel => rw [LinkedQueue.follow, ih chain.2 (Nat.le_of_succ_le_succ enough)]

/-- Where a link is stored. -/
inductive Cell (P : Type) where
  | head
  | next (i : P)
deriving DecidableEq, Repr

def load (queue : LinkedQueue P) : Cell P → Option P
  | .head => queue.head
  | .next i => queue.next i

/-- The first cell, from one on, that holds null; `none` if it is not among the
first `fuel`. -/
def lastCell (queue : LinkedQueue P) : Nat → Cell P → Option (Cell P)
  | 0, _ => none
  | fuel + 1, cell =>
    match queue.load cell with
    | none => some cell
    | some i => queue.lastCell fuel (.next i)

variable [DecidableEq P]

def store (queue : LinkedQueue P) (link : Option P) : Cell P → LinkedQueue P
  | .head => { queue with head := link }
  | .next i => { queue with next := Function.update queue.next i link }

theorem load_store_of_ne {cell other : Cell P} (different : cell ≠ other) :
    (queue.store link cell).load other = queue.load other := by
  cases cell with
  | head =>
    cases other with
    | head => exact absurd rfl different
    | next i => rfl
  | next i =>
    cases other with
    | head => rfl
    | next j =>
      apply Function.update_of_ne
      intro same
      exact different (same ▸ rfl)

def append (queue : LinkedQueue P) (fuel : Nat) (b : P) : Option (LinkedQueue P) :=
  let queue := queue.store none (.next b)
  (queue.lastCell fuel .head).map (queue.store (some b))

theorem Chain.update_of_notMem {value : Option P} {entries : List P}
    (chain : Chain next link entries) (outside : b ∉ entries) : Chain (Function.update next b value) link entries := by
  induction entries generalizing link with
  | nil => exact chain
  | cons i rest ih =>
    have notFirst := List.ne_of_not_mem_cons outside
    have notRest := List.not_mem_of_not_mem_cons outside
    refine ⟨chain.1, ?_⟩
    rw [Function.update_of_ne (Ne.symm notFirst)]
    exact ih chain.2 notRest

/-- From a cell that leads to the entries, the walk ends at the last of their
links, and storing `b` there adds it. -/
theorem lastCell_chain {cell : Cell P} {fuel : Nat} (chain : Chain queue.next (queue.load cell) entries)
    (outside : b ∉ entries) (other : cell ≠ .next b) (null : queue.next b = none)
    (apart : ∀ i ∈ entries, cell ≠ .next i) (enough : entries.length < fuel) :
    ∃ last, queue.lastCell fuel cell = some last ∧
      Chain (queue.store (some b) last).next ((queue.store (some b) last).load cell) (entries ++ [b]) ∧
      (last = cell ∨ ∃ i ∈ entries, last = .next i) := by
  induction entries generalizing cell fuel with
  | nil =>
    cases fuel with
    | zero => cases enough
    | succ fuel =>
      have ends : queue.load cell = none := chain
      refine ⟨cell, by simp only [lastCell, ends], ?_, .inl rfl⟩
      cases cell with
      | head => exact ⟨rfl, null⟩
      | next i =>
        have different : b ≠ i := fun same => other (same ▸ rfl)
        refine ⟨Function.update_self .., ?_⟩
        exact (Function.update_of_ne different ..).trans null
  | cons i rest ih =>
    cases fuel with
    | zero => cases enough
    | succ fuel =>
      have notFirst := List.ne_of_not_mem_cons outside
      have notRest := List.not_mem_of_not_mem_cons outside
      have fresh : i ∉ rest := (List.nodup_cons.mp (Chain.nodup chain)).1
      have leads : queue.load cell = some i := chain.1
      have onward : Chain queue.next (queue.load (.next i)) rest := chain.2
      obtain ⟨last, found, holds, place⟩ := ih onward notRest (by simpa using Ne.symm notFirst)
        (fun j member same => fresh (by cases same; exact member)) (Nat.lt_of_succ_lt_succ enough)
      refine ⟨last, by simp only [lastCell, leads, found], ⟨?_, holds⟩, ?_⟩
      · have elsewhere : last ≠ cell := by
          intro same
          rcases place with is | ⟨j, member, is⟩
          · exact apart i List.mem_cons_self (same.symm.trans is)
          · exact apart j (List.mem_cons_of_mem i member) (same.symm.trans is)
        rw [load_store_of_ne elsewhere, leads]
      · rcases place with is | ⟨j, member, is⟩
        · exact .inr ⟨i, List.mem_cons_self, is⟩
        · exact .inr ⟨j, List.mem_cons_of_mem i member, is⟩

theorem Holds.append {fuel : Nat} (holds : queue.Holds entries) (outside : b ∉ entries) (enough : entries.length < fuel) :
    ∃ after, queue.append fuel b = some after ∧ after.Holds (entries ++ [b]) := by
  have chain : Chain (queue.store none (.next b)).next ((queue.store none (.next b)).load .head) entries :=
    Chain.update_of_notMem holds outside
  obtain ⟨last, found, after, _⟩ := lastCell_chain chain outside (by simp)
    (Function.update_self ..) (by simp) enough
  refine ⟨(queue.store none (.next b)).store (some b) last, ?_, after⟩
  simp only [LinkedQueue.append, found, Option.map_some]

end LinkedQueue

end Xv6.Data
