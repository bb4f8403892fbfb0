import Mathlib.Data.List.Chain

namespace Xv6.Data

open Function (update update_self update_of_ne)

/-! # Doubly linked rings

Nodes with links in both directions, in a ring that starts and ends at a head.
-/

structure Links (N : Type) where
  next : N → N
  prev : N → N

namespace Links

variable {N : Type} [DecidableEq N] {links : Links N} {head b p q u v : N} {nodes : List N}

def setNext (links : Links N) (u v : N) : Links N := { links with next := Function.update links.next u v }

def setPrev (links : Links N) (u v : N) : Links N := { links with prev := Function.update links.prev u v }

/-- Take a node out: `b->next->prev = b->prev; b->prev->next = b->next`. -/
def unlink (links : Links N) (b : N) : Links N :=
  let links := links.setPrev (links.next b) (links.prev b)
  links.setNext (links.prev b) (links.next b)

/-- Put a node behind the head: `b->next = head->next; b->prev = head;
head->next->prev = b; head->next = b`. -/
def insert (links : Links N) (head b : N) : Links N :=
  let links := (links.setNext b (links.next head)).setPrev b head
  (links.setPrev (links.next head) b).setNext head b

def Linked (links : Links N) (u v : N) : Prop := links.next u = v ∧ links.prev v = u

/-- From the head over the nodes and back, and over no node twice. -/
structure Ring (links : Links N) (head : N) (nodes : List N) : Prop where
  chain : (head :: (nodes ++ [head])).IsChain links.Linked
  nodup : (head :: nodes).Nodup

/-- The node where a loop from `u` on stops: the first that a test accepts, or the head. -/
def find (follow : N → N) (head : N) (test : N → Bool) : Nat → N → Option N
  | 0, _ => none
  | fuel + 1, u => if u = head ∨ test u then some u else find follow head test fuel (follow u)

section Unlinking

variable (before : links.Linked p b) (after : links.Linked b q) (other : q ≠ b)
include before after other

theorem unlink_eq : links.unlink b = (links.setPrev q p).setNext p q := by
  have own : (links.setPrev q p).prev b = p := (update_of_ne other.symm ..).trans before.2
  have next : (links.setPrev q p).next b = q := after.1
  simp only [unlink, after.1, before.2, own, next]

theorem unlink_neighbours : (links.unlink b).Linked p q := by
  rw [unlink_eq before after other]
  exact ⟨update_self .., update_self ..⟩

theorem unlink_linked (notU : u ≠ b) (notV : v ≠ b) (linked : links.Linked u v) : (links.unlink b).Linked u v := by
  have differentU : u ≠ p := by
    rintro rfl
    exact notV (linked.1.symm.trans before.1)
  have differentV : v ≠ q := by
    rintro rfl
    exact notU (linked.2.symm.trans after.2)
  rw [unlink_eq before after other]
  exact ⟨(update_of_ne differentU ..).trans linked.1, (update_of_ne differentV ..).trans linked.2⟩

end Unlinking

theorem Ring.unlink {first second : List N} (ring : links.Ring head (first ++ b :: second)) :
    (links.unlink b).Ring head (first ++ second) := by
  have distinct : b ∉ head :: first ∧ b ∉ second ++ [head] := by
    have nodup := ring.nodup
    simp only [List.nodup_cons, List.nodup_append, List.mem_append, List.mem_cons] at nodup ⊢
    grind
  -- The nodes next to `b`.
  obtain ⟨left, p, start⟩ : ∃ left p, head :: first = left ++ [p] :=
    ⟨_, _, (List.dropLast_append_getLast (List.cons_ne_nil head first)).symm⟩
  obtain ⟨q, right, finish⟩ := List.exists_cons_of_ne_nil
    (List.append_ne_nil_of_right_ne_nil second (List.cons_ne_nil head []))
  have chain := ring.chain
  simp only [List.append_assoc, List.cons_append, finish] at chain
  rw [← List.cons_append, start, List.append_assoc, List.singleton_append, List.isChain_append_cons_cons] at chain
  rw [start, finish] at distinct
  obtain ⟨chainLeft, before, chain⟩ := chain
  obtain ⟨after, chainRight⟩ := List.isChain_cons_cons.mp chain
  have other : q ≠ b := (List.ne_of_not_mem_cons distinct.2).symm
  constructor
  · rw [List.append_assoc, ← List.cons_append, finish, start, List.append_assoc, List.singleton_append,
      List.isChain_append_cons_cons]
    refine ⟨?_, unlink_neighbours before after other, ?_⟩
    · exact chainLeft.imp_of_mem_imp fun u v inU inV => unlink_linked before after other
        (ne_of_mem_of_not_mem inU distinct.1) (ne_of_mem_of_not_mem inV distinct.1)
    · exact chainRight.imp_of_mem_imp fun u v inU inV => unlink_linked before after other
        (ne_of_mem_of_not_mem inU distinct.2) (ne_of_mem_of_not_mem inV distinct.2)
  · exact ring.nodup.sublist
      (List.Sublist.cons_cons head (List.Sublist.append_left (List.sublist_cons_self b second) first))

theorem insert_eq (first : links.Linked head q) (new : b ≠ head) :
    links.insert head b = ⟨update (update links.next b q) head b,
      update (update links.prev b head) q b⟩ := by
  simp only [Links.insert, setNext, setPrev, update_of_ne new.symm, first.1]

theorem insert_linked (first : links.Linked head q) (new : b ≠ head) (notHead : u ≠ head) (notU : u ≠ b) (notV : v ≠ b)
    (linked : links.Linked u v) : (links.insert head b).Linked u v := by
  have different : v ≠ q := by
    rintro rfl
    exact notHead (linked.2.symm.trans first.2)
  simp only [insert_eq first new, Linked, update_of_ne notHead, update_of_ne notU,
    update_of_ne notV, update_of_ne different]
  exact linked

theorem Ring.insert (ring : links.Ring head nodes) (new : b ∉ head :: nodes) :
    (links.insert head b).Ring head (b :: nodes) := by
  have notHead : b ≠ head := List.ne_of_not_mem_cons new
  have notNode : b ∉ nodes := List.not_mem_of_not_mem_cons new
  have headless : head ∉ nodes := (List.nodup_cons.mp ring.nodup).1
  obtain ⟨q, right, finish⟩ := List.exists_cons_of_ne_nil
    (List.append_ne_nil_of_right_ne_nil nodes (List.cons_ne_nil head []))
  have notQ : q ≠ b := by
    rintro rfl
    exact absurd (finish ▸ List.mem_cons_self : q ∈ nodes ++ [head]) (by simp [notHead, notNode])
  obtain ⟨first, rest⟩ := List.isChain_cons_cons.mp (finish ▸ ring.chain)
  constructor
  · rw [List.cons_append, List.isChain_cons_cons, finish, List.isChain_cons_cons, ← finish]
    refine ⟨?_, ?_, ?_⟩
    · simp [insert_eq first notHead, Linked, notQ.symm]
    · simp [insert_eq first notHead, Linked, notHead]
    · obtain ⟨inner, _, last⟩ := List.isChain_append.mp (finish ▸ rest)
      refine List.isChain_append.mpr ⟨?_, List.isChain_singleton _, ?_⟩
      · exact inner.imp_of_mem_imp fun u v inU inV => insert_linked first notHead (ne_of_mem_of_not_mem inU headless)
          (ne_of_mem_of_not_mem inU notNode) (ne_of_mem_of_not_mem inV notNode)
      · intro u isLast v isHead
        have inU := List.mem_of_getLast? isLast
        obtain rfl : head = v := Option.some.inj isHead
        exact insert_linked first notHead (ne_of_mem_of_not_mem inU headless) (ne_of_mem_of_not_mem inU notNode)
          notHead.symm (last u isLast head rfl)
  · exact (List.nodup_cons.mpr ⟨new, ring.nodup⟩).perm (List.Perm.swap head b nodes)

omit [DecidableEq N] in
theorem Ring.leftInverse (ring : links.Ring head nodes) (all : ∀ u, u ∈ head :: nodes) :
    Function.LeftInverse links.prev links.next := by
  intro u
  obtain ⟨i, bound, rfl⟩ := List.getElem_of_mem (all u)
  have linked := List.isChain_iff_getElem.mp ring.chain i (by simpa using bound)
  simp only [← List.cons_append, List.getElem_append_left bound] at linked
  rw [linked.1, linked.2]

section Searching

variable {test : N → Bool} {fuel : Nat} (enough : nodes.length < fuel)
include enough

theorem find_chain {follow : N → N} (chain : (u :: (nodes ++ [head])).IsChain fun x y => follow x = y)
    (headless : head ∉ nodes) : find follow head test fuel (follow u) = some ((nodes.find? test).getD head) := by
  induction nodes generalizing u fuel with
  | nil =>
    cases fuel with
    | zero => omega
    | succ fuel => simp [find, (List.isChain_cons_cons.mp chain).1]
  | cons v nodes rest =>
    cases fuel with
    | zero => omega
    | succ fuel =>
      obtain ⟨first, later⟩ := List.isChain_cons_cons.mp chain
      have notHead : head ≠ v := List.ne_of_not_mem_cons headless
      rw [first, find, List.find?_cons]
      cases accepted : test v with
      | true => simp
      | false =>
        rw [if_neg (by simp [notHead.symm])]
        exact rest (Nat.lt_of_succ_lt_succ enough) later (List.not_mem_of_not_mem_cons headless)

theorem Ring.find_next (ring : links.Ring head nodes) :
    find links.next head test fuel (links.next head) = some ((nodes.find? test).getD head) :=
  find_chain enough (ring.chain.imp fun _ _ linked => linked.1) (List.nodup_cons.mp ring.nodup).1

theorem Ring.find_prev (ring : links.Ring head nodes) :
    find links.prev head test fuel (links.prev head) = some ((nodes.reverse.find? test).getD head) := by
  apply find_chain (by simpa using enough)
  · have turned := List.isChain_reverse.mpr (ring.chain.imp fun _ _ linked => linked.2)
    simpa using turned
  · simpa using (List.nodup_cons.mp ring.nodup).1

end Searching

end Links

end Xv6.Data
