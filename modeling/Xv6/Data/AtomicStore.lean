import Mathlib

namespace Xv6.Data

/-! # A store with atomic transactions

It keeps the contents of the last transaction that committed and those that the
current one has built up; a crash forgets the second.
-/

variable {κ β : Type*} [DecidableEq κ]

def replay (writes : List (κ × β)) (contents : κ → β) : κ → β :=
  writes.foldl (fun current write => Function.update current write.1 write.2) contents

omit [DecidableEq κ] in
variable (κ β) in
structure AtomicStore where
  durable : κ → β
  pending : κ → β

namespace AtomicStore

variable (κ β) in
inductive Event where
  | write (key : κ) (value : β)
  | commit
  | crash
  | silent

def apply (store : AtomicStore κ β) : Event κ β → AtomicStore κ β
  | .write key value => { store with pending := Function.update store.pending key value }
  | .commit => { store with durable := store.pending }
  | .crash => { store with pending := store.durable }
  | .silent => store

def Event.writes : Event κ β → List (κ × β)
  | .write key value => [(key, value)]
  | _ => []

def Event.Inside : Event κ β → Prop
  | .write _ _ | .silent => True
  | _ => False

def run (store : AtomicStore κ β) (events : List (Event κ β)) : AtomicStore κ β :=
  events.foldl apply store

variable {store : AtomicStore κ β} {events : List (Event κ β)}

theorem run_append (first second : List (Event κ β)) :
    store.run (first ++ second) = (store.run first).run second :=
  List.foldl_append

/-- An open transaction has changed nothing durable, and has pending exactly
what its writes left. -/
theorem run_inside (store : AtomicStore κ β) (inside : ∀ event ∈ events, event.Inside) :
    (store.run events).durable = store.durable ∧
      (store.run events).pending = replay (events.flatMap Event.writes) store.pending := by
  induction events generalizing store with
  | nil => exact ⟨rfl, rfl⟩
  | cons event rest ih =>
    obtain ⟨first, others⟩ := List.forall_mem_cons.mp inside
    obtain ⟨durable, pending⟩ := ih (store.apply event) others
    cases event with
    | write key value | silent => exact ⟨durable, pending⟩
    | commit | crash => exact first.elim

/-- Without further writes the store ends with all of the old contents or all of
the new ones. -/
theorem run_old_or_new (noWrite : ∀ event ∈ events, event.writes = []) :
    (store.run events).durable = store.durable ∨ (store.run events).durable = store.pending := by
  have both : ((store.run events).durable = store.durable ∨ (store.run events).durable = store.pending) ∧
      ((store.run events).pending = store.durable ∨ (store.run events).pending = store.pending) := by
    induction events using List.reverseRecOn with
    | nil => exact ⟨.inl rfl, .inr rfl⟩
    | append_singleton rest event ih =>
      obtain ⟨durable, pending⟩ := ih fun event member => noWrite event (List.mem_append_left _ member)
      rw [run_append]
      cases event with
      | write key value =>
        have none := noWrite (.write key value) (List.mem_append_right _ (List.mem_singleton_self _))
        simp [Event.writes] at none
      | silent => exact ⟨durable, pending⟩
      | commit => exact ⟨pending, pending⟩
      | crash => exact ⟨durable, durable⟩
  exact both.1

end AtomicStore

end Xv6.Data
