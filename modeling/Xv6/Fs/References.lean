import Xv6.Fs.Names
import Xv6.Data.Resource

namespace Xv6.Fs

open Xv6.Data Xv6.Disk

/-! # The references of open files and current directories

`Fits w tables`: the references to inodes are those of the tables. -/

def File.refs (file : File) (i : Inum) : Nat :=
  if 0 < file.ref ∧ file.type = .inode ∧ file.ip = i then 1 else 0

def cwdRefs (proc : Option Proc) (i : Inum) : Nat := if proc.map Proc.cwd = some i then 1 else 0

def Tables.refs (tables : Tables) (i : Inum) : Nat :=
  (∑ f, (tables.file f).refs i) + ∑ p, cwdRefs (tables.proc p) i

structure Fits (w : World) (tables : Tables) : Prop where
  refs : ∀ i, w.base i = tables.refs i
  closed : ∀ f, (tables.file f).ref = 0 → (tables.file f).type = .none
  writable : ∀ f, (tables.file f).type = .inode → (tables.file f).writable = true →
    (w.inode (tables.file f).ip).type ≠ .dir

variable {faults : Faults} {sb : Superblock} {w t : World} {i j ip : Inum} {ops : Nat} {tables : Tables}
  {proc : Proc} {p : Slot} {f : FileId} {s : Store}

theorem setFile_self {file : File} : (tables.setFile f file).file f = file := Function.update_self _ _ _

theorem setFile_of_ne {file : File} {g : FileId} (different : g ≠ f) : (tables.setFile f file).file g = tables.file g :=
  Function.update_of_ne different _ _

theorem refs_setFile (tables : Tables) (f : FileId) (file : File) (i : Inum) :
    (tables.setFile f file).refs i + (tables.file f).refs i = tables.refs i + file.refs i := by
  have moved := sum_update (fun _ file => File.refs file i) tables.file f file
  simp only [Tables.refs, Tables.setFile]
  omega

theorem refs_setProc (tables : Tables) (p : Slot) (new : Option Proc) (i : Inum) :
    (tables.setProc p new).refs i + cwdRefs (tables.proc p) i = tables.refs i + cwdRefs new i := by
  have moved := sum_update (fun _ proc => cwdRefs proc i) tables.proc p new
  simp only [Tables.refs, Tables.setProc]
  omega

namespace Fits

variable (fits : Fits w tables)
include fits

theorem file_used (isInode : (tables.file f).type = .inode) : 0 < w.base (tables.file f).ip := by
  have isOpen : 0 < (tables.file f).ref := by
    by_contra unused
    have isNone := fits.closed f (by omega)
    rw [isInode] at isNone
    cases isNone
  have counted : (tables.file f).refs (tables.file f).ip = 1 := if_pos ⟨isOpen, isInode, rfl⟩
  have part := Finset.single_le_sum (f := fun g => (tables.file g).refs (tables.file f).ip)
    (fun _ _ => Nat.zero_le _) (Finset.mem_univ f)
  rw [fits.refs, Tables.refs]
  omega

theorem cwd_used (isProc : tables.proc p = some proc) : 0 < w.base proc.cwd := by
  have counted : cwdRefs (tables.proc p) proc.cwd = 1 := if_pos (by rw [isProc]; rfl)
  have part := Finset.single_le_sum (f := fun q => cwdRefs (tables.proc q) proc.cwd)
    (fun _ _ => Nat.zero_le _) (Finset.mem_univ p)
  rw [fits.refs, Tables.refs]
  omega

theorem world (refs : ∀ i, t.base i = w.base i)
    (type : ∀ i, 0 < w.base i → (t.inode i).type = (w.inode i).type) : Fits t tables := by
  refine ⟨fun i => (refs i).trans (fits.refs i), fits.closed, ?_⟩
  intro f isInode writes
  rw [type _ (fits.file_used isInode)]
  exact fits.writable f isInode writes

theorem setFile {file : File} (refs : ∀ i, t.base i + (tables.file f).refs i = w.base i + file.refs i)
    (type : ∀ i, 0 < t.base i → (t.inode i).type = (w.inode i).type)
    (closed : file.ref = 0 → file.type = .none)
    (writable : file.type = .inode → file.writable = true → (w.inode file.ip).type ≠ .dir) :
    Fits t (tables.setFile f file) := by
  have counts (i : Inum) : t.base i = (tables.setFile f file).refs i := by
    have moved := refs_setFile tables f file i
    have before := fits.refs i
    have after := refs i
    omega
  have closedAll (g : FileId) (unused : ((tables.setFile f file).file g).ref = 0) :
      ((tables.setFile f file).file g).type = .none := by
    by_cases same : g = f
    · subst g
      rw [setFile_self] at unused ⊢
      exact closed unused
    · rw [setFile_of_ne same] at unused ⊢
      exact fits.closed g unused
  have counted : Fits { w with base := t.base } (tables.setFile f file) := by
    refine ⟨counts, closedAll, ?_⟩
    intro g isInode writes
    by_cases same : g = f
    · subst g
      rw [setFile_self] at isInode writes ⊢
      exact writable isInode writes
    · rw [setFile_of_ne same] at isInode writes ⊢
      exact fits.writable g isInode writes
  exact counted.world (fun _ => rfl) type

theorem setOff (off : Nat) : Fits w (tables.setFile f { tables.file f with off }) :=
  fits.setFile (fun _ => rfl) (fun _ _ => rfl) (fits.closed f) (fits.writable f)

theorem setProc {new : Option Proc} (refs : ∀ i, t.base i + cwdRefs (tables.proc p) i = w.base i + cwdRefs new i)
    (type : ∀ i, 0 < t.base i → (t.inode i).type = (w.inode i).type) : Fits t (tables.setProc p new) := by
  have counted : Fits { w with base := t.base } (tables.setProc p new) := by
    refine ⟨?_, fits.closed, fits.writable⟩
    intro i
    have moved := refs_setProc tables p new i
    have before := fits.refs i
    have after := refs i
    simp only
    omega
  exact counted.world (fun _ => rfl) type

end Fits

theorem sweep_type (used : 0 < w.base i) : ((w.sweep j).inode i).type = (w.inode i).type := by
  by_cases same : i = j
  · subst j
    rw [sweep_of_used fun _ => used]
  · rw [sweep_of_ne same]

theorem setBase_self {n : Nat} : (w.setBase i n).base i = n := Function.update_self _ _ _

theorem setBase_of_ne {n : Nat} (different : j ≠ i) : (w.setBase i n).base j = w.base j :=
  Function.update_of_ne different _ _

theorem hold_base {ip : Inum} : (w.hold ip).base i = w.base i + if ip = i then 1 else 0 := by
  by_cases same : i = ip
  · rw [same, setBase_self, if_pos rfl]
  · rw [setBase_of_ne same, if_neg (Ne.symm same), Nat.add_zero]

theorem Shows.keep {exempt : Finset Inum} (known : Shows ((w.exemptView exempt ops).hold i) s)
    (only : ∀ j ∈ exempt, j = i) (allocated : (w.inode i).type ≠ .free) : Shows ((w.hold i).view ops) s := by
  refine ⟨known.inode, ?_, ?_, known.awake, known.alloc, ?_, no_exempt, known.locks, fun _ => no_locks, known.clean,
    known.ops⟩
  · intro j
    rw [known.refs]
    by_cases same : j = i
    · subst j
      simp
    · simp [same]
  · intro j _ isAllocated unlinked
    change 0 < (w.hold i).base j
    by_cases same : j = i
    · subst j
      rw [setBase_self]
      omega
    · rw [setBase_of_ne same]
      exact known.linked j (fun isExempt => same (only j isExempt)) isAllocated unlinked
  · intro j used
    change 0 < (w.hold i).base j at used
    by_cases same : j = i
    · exact same ▸ allocated
    · rw [setBase_of_ne same] at used
      exact known.base j used

abbrev lentView (w : World) (i : Inum) (ops : Nat) : View :=
  ((w.setBase i (w.base i - 1)).exemptView {i} ops).hold i

/-- A reference of the tables becomes one of the call. -/
theorem Shows.lend (known : Shows (w.view ops) s) (used : 0 < w.base i) : Shows (lentView w i ops) s := by
  refine ⟨known.inode, ?_, ?_, known.awake, known.alloc, ?_, ?_, known.locks, fun _ => no_locks, known.clean,
    known.ops⟩
  · intro j
    rw [known.refs]
    by_cases same : j = i
    · subst j
      simp only [Multiset.count_zero, Function.update_self, Multiset.count_cons_self]
      omega
    · simp [same]
  · intro j notExempt isAllocated unlinked
    rw [Finset.mem_singleton] at notExempt
    change 0 < (w.setBase i (w.base i - 1)).base j
    rw [setBase_of_ne notExempt]
    exact known.linked j (Finset.notMem_empty j) isAllocated unlinked
  · intro j positive
    change 0 < (w.setBase i (w.base i - 1)).base j at positive
    by_cases same : j = i
    · exact same ▸ known.base i used
    · rw [setBase_of_ne same] at positive
      exact known.base j positive
  · intro j isExempt
    rw [Finset.mem_singleton.mp isExempt]
    exact View.mem_hold

theorem hold_setBase (used : 0 < w.base i) : (w.setBase i (w.base i - 1)).hold i = w := by
  have same : w.base i - 1 + 1 = w.base i := by omega
  rw [World.hold, setBase_self, same]
  exact congrArg (World.mk w.inode) ((Function.update_idem _ _ _).trans (Function.update_eq_self i w.base))

theorem Shows.giveBack (known : Shows (lentView w i ops) s) (used : 0 < w.base i)
    (allocated : (w.inode i).type ≠ .free) : Shows (w.view ops) s := by
  have kept := known.keep (fun _ isExempt => Finset.mem_singleton.mp isExempt) allocated
  rw [hold_setBase used] at kept
  exact kept

theorem leads_iput_table (used : 0 < w.base i) :
    Leads faults sb (w.view ops) (iput i) fun _ u => u = (w.drop i).view ops := by
  apply Script.Leads.of_view (lentView w i ops)
  · apply (leads_iput View.mem_hold no_locks).weaken
    intro _ u reached
    rw [reached.2, View.put_of_last (Multiset.count_singleton_self i)]
    simp only [Multiset.erase_cons_head, Finset.erase_singleton, sweep_view]
  · exact fun state known => known.lend used

theorem leads_locked {α β : Type} {body : Code α} {next : α → Code β} {last : β → View → Prop}
    (middle : α → World → Prop) (used : 0 < w.base i)
    (inside : Leads faults sb ((lentView w i ops).lock i) body fun r u =>
      ∃ t, middle r t ∧ u = (lentView t i ops).lock i)
    (same : ∀ r t, middle r t → t.base i = w.base i ∧ (t.inode i).type = (w.inode i).type)
    (after : ∀ r t, middle r t → Leads faults sb (t.view ops) (next r) last) :
    Leads faults sb (w.view ops) (do ilock i; let r ← body; iunlock i; next r) last := by
  apply leads_of_sound
  intro sound
  have allocated : (w.inode i).type ≠ .free := sound.base i used
  apply Script.Leads.of_view (lentView w i ops)
  · apply Script.Leads.bind (leads_ilock (v := lentView w i ops) View.mem_hold no_locks
      fun isFree => absurd isFree allocated)
    intro _ u reached
    obtain ⟨_, _, rfl⟩ := reached
    apply Script.Leads.bind inside
    intro r u reached
    obtain ⟨t, holds, rfl⟩ := reached
    obtain ⟨sameBase, sameType⟩ := same r t holds
    apply Script.Leads.seq (leads_iunlock View.mem_lock)
    apply Script.Leads.of_view (t.view ops) (after r t holds)
    intro state known
    rw [Finset.erase_insert (Finset.notMem_empty i)] at known
    exact known.giveBack (by rw [sameBase]; exact used) (by rw [sameType]; exact allocated)
  · exact fun state known => known.lend used

end Xv6.Fs
