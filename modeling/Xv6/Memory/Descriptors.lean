import Xv6.Memory.Places

namespace Xv6.Memory

open Xv6.Data

/-! # Descriptors

Files are counted, and pipes held open, by the descriptors of live processes. -/

variable {s : State} {f : FileId} {map : List KMap}

def State.slots (s : State) (f : FileId) : Finset (Slot × Fin NOFILE) :=
  Finset.univ.filter fun slot => (s.proc slot.1).state = .live ∧ (s.proc slot.1).ofile slot.2 = some f

theorem Counted.mem_slots (counted : Counted s) (f : FileId) (slot : Slot × Fin NOFILE) :
    slot ∈ s.slots f ↔ (s.proc slot.1).ofile slot.2 = some f := by
  simp only [State.slots, Finset.mem_filter, Finset.mem_univ, true_and, and_iff_right_iff_imp]
  intro held
  by_contra stopped
  rw [counted.closed slot.1 stopped slot.2] at held
  cases held

theorem Counted.card_slots (counted : Counted s) (f : FileId) : ((s.slots f).card : Int) = s.descriptors f := by
  have slots : s.slots f = Finset.univ.filter fun slot => (s.proc slot.1).ofile slot.2 = some f := by
    ext slot
    rw [counted.mem_slots]
    simp
  rw [slots, Finset.card_filter, ← Finset.univ_product_univ, Finset.sum_product]
  simp only [State.descriptors, Proc.descriptors]
  push_cast
  rfl

-- The set ranges over all slots of all processes and must not be computed.
attribute [irreducible] State.slots

theorem Counted.held (counted : Counted s) (files : Files s.file s.pipes) {page : Page} {w : Bool}
    (isEnd : (s.file f).EndOf page w) : ∃ p fd, (s.proc p).ofile fd = some f := by
  have isOpen : s.refs f ≠ 0 := by
    intro zero
    exact not_endOf_none (files.closed f zero) isEnd
  rw [counted.refs, ← counted.card_slots f] at isOpen
  have nonempty : (s.slots f).Nonempty := Finset.card_ne_zero.mp (Int.natCast_ne_zero.mp isOpen)
  obtain ⟨slot, member⟩ := nonempty
  exact ⟨slot.1, slot.2, (counted.mem_slots f slot).mp member⟩

section

variable {ncpu kernelEnd : Nat} {low high : List Page} {s₀ : State}

end

def pipeBetween : List Request :=
  [⟨0, .pipe, []⟩, ⟨0, .fork, []⟩, ⟨0, .close 0, []⟩, ⟨1, .close 1, []⟩, ⟨1, .exit, []⟩].map ({ action := · })

end Xv6.Memory
