import Xv6.Fs.Dirents

namespace Xv6.Fs

open Xv6.Data Xv6.Disk
open Function (update update_self update_of_ne update_eq_self update_idem)

/-! # What a call knows

`View` is what is known of the inodes in the middle of a call: their contents, the
references that open files and current directories hold, and those of the call
itself.  Each operation of the inode layer has one rule.
-/

/-- `base` counts the references of open files and current directories, `held` those
of the call, and `ops` its transactions.  An inode whose link count the call has changed is `exempt` from the
rule that an inode without links is referred to by a file or directory. -/
structure View where
  inode : Inum → Inode
  base : Inum → Nat
  held : Multiset Inum
  locks : Finset Inum
  exempt : Finset Inum
  ops : Nat

abbrev View.hold (v : View) (i : Inum) : View := { v with held := i ::ₘ v.held }

abbrev View.lock (v : View) (i : Inum) : View := { v with locks := insert i v.locks }

theorem View.mem_hold {v : View} {i : Inum} : i ∈ (v.hold i).held := Multiset.mem_cons_self i _

theorem View.mem_lock {v : View} {i : Inum} : i ∈ (v.lock i).locks := Finset.mem_insert_self i _

theorem View.hold_lock_hold (v : View) (i j : Inum) :
    ((v.hold i).lock i).hold j = ((v.hold j).hold i).lock i := by
  simp only [View.hold, View.lock, Multiset.cons_swap]

abbrev View.setInode (v : View) (i : Inum) (inode : Inode) : View :=
  { v with inode := Function.update v.inode i inode }

structure Shows (v : View) (s : Store) : Prop where
  inode : s.inode = v.inode
  refs : ∀ i, (s.entry i).ref = v.base i + v.held.count i
  linked : ∀ i, i ∉ v.exempt → (v.inode i).type ≠ .free → (v.inode i).nlink = 0 → 0 < v.base i
  awake : ∀ i, (v.inode i).type ≠ .free → (v.inode i).nlink = 0 → 0 < (s.entry i).ref →
    (s.entry i).valid = true
  alloc : ∀ i, (s.entry i).valid = true → 0 < (s.entry i).ref → (v.inode i).type ≠ .free
  base : ∀ i, 0 < v.base i → (v.inode i).type ≠ .free
  exempt : ∀ i ∈ v.exempt, i ∈ v.held
  locks : ∀ i, (s.entry i).locked = true ↔ i ∈ v.locks
  locked : ∀ i ∈ v.locks, i ∈ v.held ∧ (s.entry i).valid = true
  clean : ∀ i, (s.entry i).dirty = false
  ops : s.ops = v.ops

structure View.Sound (v : View) : Prop where
  linked : ∀ i, i ∉ v.exempt → (v.inode i).type ≠ .free → (v.inode i).nlink = 0 → 0 < v.base i
  base : ∀ i, 0 < v.base i → (v.inode i).type ≠ .free
  exempt : ∀ i ∈ v.exempt, i ∈ v.held
  locked : ∀ i ∈ v.locks, i ∈ v.held ∧ (v.inode i).type ≠ .free

/-- Whether a name may lead to a free inode, and a process wait for itself. -/
structure Faults where
  dangling : Prop
  deadlock : Prop

/-- The stops that are not excluded: the disk or a table is full, a directory cannot
grow, a link count is wrong, or it is one of the given faults. -/
def Fine (faults : Faults) : Stop → Prop
  | .deadlock => faults.deadlock
  | .misuse | .fuel => False
  | .panic .ilockNoType => faults.dangling
  | .panic message =>
    message ∉ [.ilock, .iunlock, .dirlookupNotDir, .dirlookupRead, .dirlinkRead, .isdirempty]

abbrev Leads {α : Type} (faults : Faults) (sb : Superblock) (v : View) (code : Code α)
    (post : α → View → Prop) : Prop :=
  Script.Leads (Store.handle sb) (Fine faults) Shows v code post

variable {faults : Faults} {sb : Superblock} {v : View} {s : Store} {i ip : Inum} {type : FileType}

section

variable {off n : Nat} {src : List Byte} {major minor nlink : BitVec 16}

theorem run_iget : (iget i).run (Store.handle sb) s = s.iget i := Script.run_query (Query.iget i)
theorem run_idup : (idup i).run (Store.handle sb) s = s.idup i := Script.run_query (Query.idup i)
theorem run_ialloc : (ialloc type).run (Store.handle sb) s = s.ialloc sb type := Script.run_query (Query.ialloc type)
theorem run_ilock : (ilock i).run (Store.handle sb) s = s.ilock i := Script.run_query (Query.ilock i)
theorem run_iunlock : (iunlock i).run (Store.handle sb) s = s.iunlock i := Script.run_query (Query.iunlock i)
theorem run_iput : (iput i).run (Store.handle sb) s = s.iput i := Script.run_query (Query.iput i)
theorem run_fields : (fields i).run (Store.handle sb) s = s.locked i (.ok ((s.inode i).fields, s)) :=
  Script.run_query (Query.fields i)
theorem run_assign : (assign i major minor nlink).run (Store.handle sb) s = s.assign i major minor nlink :=
  Script.run_query (Query.assign i major minor nlink)
theorem run_iupdate : (iupdate i).run (Store.handle sb) s = s.iupdate i := Script.run_query (Query.iupdate i)
theorem run_readi : (readi i off n).run (Store.handle sb) s = s.readi i off n :=
  Script.run_query (Query.readi i off n)
theorem run_writei : (writei i off src).run (Store.handle sb) s = s.writei sb i off src :=
  Script.run_query (Query.writei i off src)
theorem run_beginOp : beginOp.run (Store.handle sb) s = s.beginOp := Script.run_query Query.beginOp
theorem run_endOp : endOp.run (Store.handle sb) s = s.endOp := Script.run_query Query.endOp

end

theorem Shows.held_ref (known : Shows v s) (member : i ∈ v.held) : 0 < (s.entry i).ref := by
  have counted := Multiset.count_pos.mpr member
  rw [known.refs]
  omega

theorem Shows.ref_of_lock (known : Shows v s) (member : i ∈ v.locks) : 0 < (s.entry i).ref :=
  known.held_ref (known.locked i member).1

theorem Shows.allocated_of_lock (known : Shows v s) (member : i ∈ v.locks) : (v.inode i).type ≠ .free :=
  known.alloc i (known.locked i member).2 (known.ref_of_lock member)

theorem Shows.sound (known : Shows v s) : v.Sound :=
  ⟨known.linked, known.base, known.exempt, fun i member => ⟨(known.locked i member).1, known.allocated_of_lock member⟩⟩

theorem leads_of_sound {α : Type} {code : Code α} {post : α → View → Prop}
    (leads : v.Sound → Leads faults sb v code post) : Leads faults sb v code post :=
  fun s known => leads known.sound s known

theorem Shows.same {t : Store} {n : Nat} (known : Shows v s) (inode : t.inode = s.inode) (entry : t.entry = s.entry)
    (ops : t.ops = n) : Shows { v with ops := n } t := by
  constructor
  · rw [inode, known.inode]
  · rw [entry]
    exact known.refs
  · exact known.linked
  · rw [entry]
    exact known.awake
  · rw [entry]
    exact known.alloc
  · exact known.base
  · exact known.exempt
  · rw [entry]
    exact known.locks
  · rw [entry]
    exact known.locked
  · rw [entry]
    exact known.clean
  · exact ops

structure Shown (v : View) (inode : Inode) (e : Entry) (i : Inum) : Prop where
  ref : e.ref = v.base i + v.held.count i
  linked : i ∉ v.exempt → inode.type ≠ .free → inode.nlink = 0 → 0 < v.base i
  awake : inode.type ≠ .free → inode.nlink = 0 → 0 < e.ref → e.valid = true
  alloc : e.valid = true → 0 < e.ref → inode.type ≠ .free
  base : 0 < v.base i → inode.type ≠ .free
  exempt : i ∈ v.exempt → i ∈ v.held
  lock : e.locked = true ↔ i ∈ v.locks
  locked : i ∈ v.locks → i ∈ v.held ∧ e.valid = true
  clean : e.dirty = false

theorem Shows.shown (known : Shows v s) (j : Inum) : Shown v (v.inode j) (s.entry j) j :=
  ⟨known.refs j, known.linked j, known.awake j, known.alloc j, known.base j, known.exempt j, known.locks j,
    known.locked j, known.clean j⟩

theorem Shows.set {w : View} {t : Store} {e : Entry} {new : Inode} (known : Shows v s)
    (inode : w.inode = update v.inode i new) (same : t.inode = update s.inode i new)
    (base : w.base = v.base) (ops : s.ops = v.ops → t.ops = w.ops) (entry : t.entry = update s.entry i e)
    (others : ∀ j, j ≠ i → w.held.count j = v.held.count j ∧ (j ∈ w.exempt ↔ j ∈ v.exempt) ∧
      (j ∈ w.locks ↔ j ∈ v.locks))
    (here : Shown w new e i) : Shows w t := by
  have each (j : Inum) : Shown w (w.inode j) (t.entry j) j := by
    by_cases isI : j = i
    · subst j
      rw [inode, entry, update_self, update_self]
      exact here
    · obtain ⟨held, exempt, locks⟩ := others j isI
      have member : j ∈ w.held ↔ j ∈ v.held := by rw [← Multiset.count_pos, ← Multiset.count_pos, held]
      have before := known.shown j
      rw [inode, entry, update_of_ne isI, update_of_ne isI]
      constructor
      · rw [base, held]
        exact before.ref
      · rw [base, exempt]
        exact before.linked
      · exact before.awake
      · exact before.alloc
      · rw [base]
        exact before.base
      · rw [exempt, member]
        exact before.exempt
      · rw [locks]
        exact before.lock
      · rw [locks, member]
        exact before.locked
      · exact before.clean
  exact ⟨by rw [same, known.inode, inode], fun j => (each j).ref, fun j => (each j).linked, fun j => (each j).awake,
    fun j => (each j).alloc, fun j => (each j).base, fun j => (each j).exempt, fun j => (each j).lock,
    fun j => (each j).locked, fun j => (each j).clean, ops known.ops⟩

theorem Shows.setEntry {w : View} {t : Store} {e : Entry} (known : Shows v s) (inode : w.inode = v.inode)
    (base : w.base = v.base) (ops : s.ops = v.ops → t.ops = w.ops) (same : t.inode = s.inode)
    (entry : t.entry = update s.entry i e)
    (others : ∀ j, j ≠ i → w.held.count j = v.held.count j ∧ (j ∈ w.exempt ↔ j ∈ v.exempt) ∧
      (j ∈ w.locks ↔ j ∈ v.locks))
    (here : Shown w (v.inode i) e i) : Shows w t := by
  have unchanged : t.inode = update s.inode i (v.inode i) := by
    rw [same, ← known.inode, update_eq_self]
  exact known.set (by rw [inode, update_eq_self]) unchanged base ops entry others here

theorem hold_others (j : Inum) (different : j ≠ i) :
    (v.hold i).held.count j = v.held.count j ∧ (j ∈ (v.hold i).exempt ↔ j ∈ v.exempt) ∧
      (j ∈ (v.hold i).locks ↔ j ∈ v.locks) :=
  ⟨Multiset.count_cons_of_ne different _, Iff.rfl, Iff.rfl⟩

theorem Shows.hold (known : Shows v s) (positive : 0 < (s.entry i).ref) :
    Shows (v.hold i) (s.setEntry i { s.entry i with ref := (s.entry i).ref + 1 }) := by
  have before := known.shown i
  refine known.setEntry rfl rfl id rfl rfl hold_others ?_
  constructor
  · simp only [Multiset.count_cons_self, known.refs]
    omega
  · exact before.linked
  · exact fun allocated unlinked _ => before.awake allocated unlinked positive
  · exact fun isValid _ => before.alloc isValid positive
  · exact before.base
  · exact fun _ => Multiset.mem_cons_self i _
  · exact before.lock
  · exact fun isLocked => ⟨Multiset.mem_cons_self i _, (before.locked isLocked).2⟩
  · exact before.clean

theorem leads_iget (i : Inum) : Leads faults sb v (iget i) fun _ w => w = v.hold i := by
  intro s known
  rw [run_iget]
  simp only [Store.iget]
  split
  · rename_i referred
    exact .ok ⟨_, rfl, known.hold referred⟩
  · rename_i unreferred
    have free : v.base i = 0 ∧ v.held.count i = 0 := by
      have count := known.refs i
      omega
    have notHeld : i ∉ v.held := Multiset.count_eq_zero.mp free.2
    have notLocked : i ∉ v.locks := fun isLocked => notHeld (known.locked i isLocked).1
    split
    · exact .error (by simp [Fine])
    · refine .ok ⟨_, rfl, known.setEntry rfl rfl id rfl rfl hold_others ?_⟩
      constructor
      · simp only [Multiset.count_cons_self, free]
      · exact known.linked i
      · intro allocated unlinked _
        have used := known.linked i (fun isExempt => notHeld (known.exempt i isExempt)) allocated unlinked
        omega
      · exact fun isValid => absurd isValid (by simp)
      · exact known.base i
      · exact fun _ => Multiset.mem_cons_self i _
      · exact iff_of_false (by simp) notLocked
      · exact fun isLocked => absurd isLocked notLocked
      · rfl

theorem leads_idup (referred : 0 < v.base i ∨ i ∈ v.held) :
    Leads faults sb v (idup i) fun _ w => w = v.hold i := by
  intro s known
  have positive : 0 < (s.entry i).ref := by
    cases referred with
    | inl used =>
      rw [known.refs]
      omega
    | inr member => exact known.held_ref member
  rw [run_idup]
  simp only [Store.idup]
  rw [if_neg (by omega)]
  exact .ok ⟨_, rfl, known.hold positive⟩

/-- A process that already has the lock waits for itself. -/
theorem leads_ilock (member : i ∈ v.held) (waits : i ∈ v.locks → faults.deadlock)
    (dangles : (v.inode i).type = .free → faults.dangling) : Leads faults sb v (ilock i) fun _ w =>
      i ∉ v.locks ∧ (v.inode i).type ≠ .free ∧ w = v.lock i := by
  intro s known
  have positive := known.held_ref member
  rw [run_ilock]
  simp only [Store.ilock]
  rw [if_neg (by omega)]
  split
  · rename_i isLocked
    exact .error (waits ((known.locks i).mp isLocked))
  · rename_i notLocked
    split
    · rename_i isFree
      rw [known.inode] at isFree
      exact .error (dangles isFree.2)
    · rename_i isTyped
      have unlocked : i ∉ v.locks := by
        rw [← known.locks i]
        exact notLocked
      have allocated : (v.inode i).type ≠ .free := by
        intro isFree
        cases valid : (s.entry i).valid with
        | true => exact known.alloc i valid positive isFree
        | false =>
          rw [known.inode] at isTyped
          exact isTyped ⟨valid, isFree⟩
      refine .ok ⟨_, ⟨unlocked, allocated, rfl⟩, known.setEntry rfl rfl id rfl rfl ?_ ?_⟩
      · exact fun j different => ⟨rfl, Iff.rfl, by simp [different]⟩
      · exact ⟨known.refs i, known.linked i, fun _ _ _ => rfl, fun _ _ => allocated, known.base i, known.exempt i,
          by simp, fun _ => ⟨member, rfl⟩, known.clean i⟩

theorem leads_iunlock (member : i ∈ v.locks) :
    Leads faults sb v (iunlock i) fun _ w => w = { v with locks := v.locks.erase i } := by
  intro s known
  have positive := known.ref_of_lock member
  rw [run_iunlock]
  simp only [Store.iunlock, (known.locks i).mpr member, known.clean i]
  rw [if_neg (by simp; omega)]
  refine .ok ⟨_, rfl, known.setEntry rfl rfl id rfl rfl ?_ ?_⟩
  · exact fun j different => ⟨rfl, Iff.rfl, by simp [different]⟩
  · exact ⟨known.refs i, known.linked i, fun allocated unlinked _ => known.awake i allocated unlinked positive,
      fun isValid _ => known.alloc i isValid positive, known.base i, known.exempt i, by simp,
      fun isLocked => absurd isLocked (by simp), rfl⟩

/-- The view after `iput`.  The last reference to an inode without links frees it. -/
def View.put (v : View) (i : Inum) : View :=
  { v with
    inode :=
      if (v.inode i).type ≠ .free ∧ (v.inode i).nlink = 0 ∧ v.base i = 0 ∧ v.held.count i = 1 then
        Function.update v.inode i { v.inode i with type := .free, data := [] }
      else v.inode
    held := v.held.erase i
    exempt := if v.held.count i = 1 then v.exempt.erase i else v.exempt }

theorem mem_erase_of_exempt {j : Inum} (known : Shows v s)
    (isExempt : j ∈ if v.held.count i = 1 then v.exempt.erase i else v.exempt) : j ∈ v.held.erase i := by
  split at isExempt
  · obtain ⟨different, member⟩ := Finset.mem_erase.mp isExempt
    exact (Multiset.mem_erase_of_ne different).mpr (known.exempt j member)
  · rename_i notOne
    have member := known.exempt j isExempt
    by_cases same : j = i
    · subst j
      have counted := Multiset.count_pos.mpr member
      rw [← Multiset.count_pos, Multiset.count_erase_self]
      omega
    · exact (Multiset.mem_erase_of_ne same).mpr member

theorem put_others (j : Inum) (different : j ≠ i) :
    (v.put i).held.count j = v.held.count j ∧ (j ∈ (v.put i).exempt ↔ j ∈ v.exempt) ∧
      (j ∈ (v.put i).locks ↔ j ∈ v.locks) := by
  refine ⟨Multiset.count_erase_of_ne different _, ?_, Iff.rfl⟩
  simp only [View.put]
  split
  · simp [different]
  · exact Iff.rfl

theorem leads_iput (member : i ∈ v.held) (waits : i ∈ v.locks → faults.deadlock) :
    Leads faults sb v (iput i) fun _ w => i ∉ v.locks ∧ w = v.put i := by
  intro s known
  have positive := known.held_ref member
  have counted := Multiset.count_pos.mpr member
  have count := known.refs i
  rw [run_iput]
  simp only [Store.iput]
  split
  · rename_i isLocked
    exact .error (waits ((known.locks i).mp isLocked))
  · rename_i notLocked
    have unlocked : i ∉ v.locks := by
      rw [← known.locks i]
      exact notLocked
    rw [if_neg (by omega)]
    split
    · rename_i freed
      obtain ⟨valid, unlinked, last⟩ := freed
      rw [known.inode] at unlinked
      have unused : v.base i = 0 ∧ v.held.count i = 1 := by omega
      have inode : (v.put i).inode = update v.inode i { v.inode i with type := .free, data := [] } :=
        if_pos ⟨known.alloc i valid positive, unlinked, unused⟩
      refine .ok ⟨_, ⟨unlocked, rfl⟩, known.set inode (by rw [← known.inode]; rfl) rfl id rfl put_others ?_⟩
      constructor
      · simp only [View.put, Multiset.count_erase_self]
        omega
      · exact fun _ allocated => absurd rfl allocated
      · exact fun allocated => absurd rfl allocated
      · exact fun isValid => absurd isValid (by simp)
      · exact fun used => absurd used (by simp only [View.put]; omega)
      · exact mem_erase_of_exempt known
      · exact known.locks i
      · exact fun isLocked => absurd isLocked unlocked
      · exact known.clean i
    · rename_i kept
      rw [known.inode] at kept
      have inUse : (v.inode i).type ≠ .free → (v.inode i).nlink = 0 → v.held.count i = 1 → 0 < v.base i := by
        intro allocated unlinked one
        by_contra unused
        exact kept ⟨known.awake i allocated unlinked positive, unlinked, by omega⟩
      have inode : (v.put i).inode = v.inode := by
        apply if_neg
        intro freed
        obtain ⟨allocated, unlinked, unused, one⟩ := freed
        have used := inUse allocated unlinked one
        omega
      refine .ok ⟨_, ⟨unlocked, rfl⟩, known.setEntry inode rfl id rfl rfl put_others ?_⟩
      constructor
      · simp only [View.put, Multiset.count_erase_self]
        omega
      · intro notExempt allocated unlinked
        by_cases one : v.held.count i = 1
        · exact inUse allocated unlinked one
        · simp only [View.put, one, ↓reduceIte] at notExempt
          exact known.linked i notExempt allocated unlinked
      · exact fun allocated unlinked _ => known.awake i allocated unlinked positive
      · exact fun isValid _ => known.alloc i isValid positive
      · exact known.base i
      · exact mem_erase_of_exempt known
      · exact known.locks i
      · exact fun isLocked => absurd isLocked unlocked
      · exact known.clean i

theorem leads_iput_kept (member : i ∈ v.held) (waits : i ∈ v.locks → faults.deadlock)
    (kept : i ∉ v.exempt ∨ 2 ≤ v.held.count i) :
    Leads faults sb v (iput i) fun _ w => i ∉ v.locks ∧ w = { v with held := v.held.erase i } := by
  apply leads_of_sound
  intro sound
  apply (leads_iput member waits).weaken
  intro _ w reached
  obtain ⟨unlocked, rfl⟩ := reached
  refine ⟨unlocked, ?_⟩
  have counted := Multiset.count_pos.mpr member
  have notFreed : ¬((v.inode i).type ≠ .free ∧ (v.inode i).nlink = 0 ∧ v.base i = 0 ∧ v.held.count i = 1) := by
    intro freed
    obtain ⟨allocated, unlinked, unused, one⟩ := freed
    cases kept with
    | inl notExempt =>
      have used := sound.linked i notExempt allocated unlinked
      omega
    | inr several => omega
  have sameExempt : (if v.held.count i = 1 then v.exempt.erase i else v.exempt) = v.exempt := by
    split
    · rename_i one
      cases kept with
      | inl notExempt => exact Finset.erase_eq_of_notMem notExempt
      | inr several => omega
    · rfl
  simp only [View.put, notFreed, ↓reduceIte, sameExempt]

section

variable (exempt : ∀ j ∈ v.exempt, j ∈ v.held)
include exempt

theorem leads_iput_own (waits : i ∈ v.locks → faults.deadlock) :
    Leads faults sb (v.hold i) (iput i) fun _ w => i ∉ v.locks ∧ w = v := by
  have kept : i ∉ v.exempt ∨ 2 ≤ (i ::ₘ v.held).count i := by
    by_cases isExempt : i ∈ v.exempt
    · have counted := Multiset.count_pos.mpr (exempt i isExempt)
      rw [Multiset.count_cons_self]
      omega
    · exact .inl isExempt
  refine (leads_iput_kept ?_ ?_ ?_).weaken ?_
  · exact Multiset.mem_cons_self i _
  · exact waits
  · exact kept
  · intro _ w reached
    rw [reached.2, Multiset.erase_cons_head]
    exact ⟨reached.1, rfl⟩

theorem leads_iunlockput_own (unlocked : i ∉ v.locks) :
    Leads faults sb ((v.hold i).lock i) (iunlockput i) fun _ w => w = v := by
  refine Script.Leads.bind (leads_iunlock ?_) ?_
  · exact Finset.mem_insert_self i _
  · intro _ w reached
    subst w
    simp only [Finset.erase_insert unlocked]
    exact (leads_iput_own exempt fun isLocked => absurd isLocked unlocked).weaken fun _ _ reached => reached.2

end

theorem leads_beginOp : Leads faults sb v beginOp fun _ w => w = { v with ops := v.ops + 1 } := by
  intro s known
  rw [run_beginOp, Store.beginOp, known.ops]
  exact .ok ⟨_, rfl, known.same rfl rfl rfl⟩

theorem leads_endOp (positive : 0 < v.ops) :
    Leads faults sb v endOp fun _ w => w = { v with ops := v.ops - 1 } := by
  intro s known
  rw [run_endOp, Store.endOp, known.ops, if_neg (by omega)]
  exact .ok ⟨_, rfl, known.same rfl rfl rfl⟩

theorem Shows.run_locked {α : Type} {body : Except Stop α} (known : Shows v s) (member : i ∈ v.locks) :
    s.locked i body = body := by
  have isLocked := (known.locks i).mpr member
  have isValid := (known.locked i member).2
  simp only [Store.locked, isLocked, isValid, and_self, ↓reduceIte]

theorem leads_fields (member : i ∈ v.locks) :
    Leads faults sb v (fields i) fun f w => f = (v.inode i).fields ∧ w = v := by
  intro s known
  rw [run_fields, known.run_locked member, known.inode]
  exact .ok ⟨v, ⟨rfl, rfl⟩, known⟩

theorem leads_readi {off n : Nat} (member : i ∈ v.locks) :
    Leads faults sb v (readi i off n) fun r w =>
      w = v ∧ ((v.inode i).type ≠ .dev → off ≤ (v.inode i).data.length → off + n < 2 ^ 32 →
        r = some (((v.inode i).data.drop off).take n)) := by
  intro s known
  rw [run_readi, Store.readi, known.run_locked member, known.inode]
  simp only []
  split
  · rename_i isDev
    split
    · exact .ok ⟨v, ⟨rfl, fun notDev => absurd isDev notDev⟩, known.same known.inode.symm rfl known.ops⟩
    · exact .ok ⟨v, ⟨rfl, fun notDev => absurd isDev notDev⟩, known⟩
  · split
    · exact .ok ⟨v, ⟨rfl, fun _ _ _ => by omega⟩, known⟩
    · exact .ok ⟨v, ⟨rfl, fun _ _ _ => rfl⟩, known⟩

theorem Shows.change {w : View} {t : Store} {e : Entry} {new : Inode} (known : Shows v s) (member : i ∈ v.locks)
    (inode : w.inode = update v.inode i new) (same : t.inode = update s.inode i new)
    (base : w.base = v.base) (ops : s.ops = v.ops → t.ops = w.ops) (held : w.held = v.held)
    (locks : w.locks = v.locks) (entry : t.entry = update s.entry i e) (unchanged : e = { s.entry i with dirty := false })
    (allocated : new.type ≠ .free) (linked : i ∉ w.exempt → new.nlink = 0 → 0 < v.base i)
    (exempt : ∀ j, j ≠ i → (j ∈ w.exempt ↔ j ∈ v.exempt)) : Shows w t := by
  obtain ⟨isHeld, isValid⟩ := known.locked i member
  subst e
  apply known.set inode same base ops entry
  · intro j different
    rw [held, locks]
    exact ⟨rfl, exempt j different, Iff.rfl⟩
  · constructor
    · rw [held, base]
      exact known.refs i
    · rw [base]
      exact fun notExempt _ => linked notExempt
    · exact fun _ _ _ => isValid
    · exact fun _ _ => allocated
    · exact fun _ => allocated
    · rw [held]
      exact fun _ => isHeld
    · rw [locks]
      exact known.locks i
    · rw [held]
      exact fun _ => ⟨isHeld, isValid⟩
    · rfl

theorem leads_writei {off : Nat} {src : List Byte} (member : i ∈ v.locks) (notDev : (v.inode i).type ≠ .dev) :
    Leads faults sb v (writei i off src) fun r w =>
      (r = none ∧ w = v) ∨
        r = some src.length ∧ off ≤ (v.inode i).data.length ∧ off + src.length ≤ MAXFILE * BSIZE ∧
          w = v.setInode i { v.inode i with data := overwrite (v.inode i).data off src } ∧
          usedBlocks sb w.inode ≤ sb.nblocks := by
  intro s known
  rw [run_writei, Store.writei, known.run_locked member, known.inode]
  have allocated := known.allocated_of_lock member
  simp only [notDev, ↓reduceIte]
  split
  · exact .ok ⟨v, .inl ⟨rfl, rfl⟩, known⟩
  · rename_i inside
    split
    · exact .ok ⟨v, .inl ⟨rfl, rfl⟩, known⟩
    · rename_i small
      split
      · exact .error (by simp [Fine])
      · rename_i room
        have written : Shows (v.setInode i { v.inode i with data := overwrite (v.inode i).data off src })
            { s.setInode i { v.inode i with data := overwrite (v.inode i).data off src } with
              entry := update s.entry i { s.entry i with dirty := false } } :=
          known.change member rfl rfl rfl id rfl rfl rfl rfl allocated
            (fun notExempt => known.linked i notExempt allocated) fun _ _ => Iff.rfl
        have same : { s.entry i with dirty := false } = s.entry i := by
          rw [← known.clean i]
        have blocks : usedBlocks sb (v.setInode i { v.inode i with data := overwrite (v.inode i).data off src }).inode ≤
            sb.nblocks := by
          rw [Store.setInode, known.inode] at room
          exact Nat.le_of_not_lt room
        split
        · exact .ok ⟨_, .inr ⟨rfl, by omega, by omega, rfl, blocks⟩, written⟩
        · rw [same, update_eq_self] at written
          exact .ok ⟨_, .inr ⟨rfl, by omega, by omega, rfl, blocks⟩, written⟩

theorem leads_writei_dev {off : Nat} {src : List Byte} (member : i ∈ v.locks) (isDev : (v.inode i).type = .dev) :
    Leads faults sb v (writei i off src) fun r w => (r = none ∨ r = some src.length) ∧ w = v := by
  intro s known
  rw [run_writei, Store.writei, known.run_locked member, known.inode]
  simp only [isDev, ↓reduceIte]
  refine .ok ⟨v, ⟨?_, rfl⟩, known⟩
  split
  · exact .inr rfl
  · exact .inl rfl

/-- Between `assign` and `iupdate` the inode is locked, so nobody sees that the disk has
other values. -/
theorem run_assign_iupdate {α : Type} {major minor nlink : BitVec 16} (next : Code α)
    (isLocked : (s.entry i).locked = true) (isValid : (s.entry i).valid = true) :
    (do assign i major minor nlink; iupdate i; next).run (Store.handle sb) s =
      next.run (Store.handle sb) ((s.setInode i { s.inode i with major, minor, nlink }).setEntry i
        { s.entry i with dirty := false }) := by
  rw [Script.run_bind, run_assign, Store.assign, Store.locked, if_pos ⟨isLocked, isValid⟩]
  change (iupdate i >>= fun _ => next).run (Store.handle sb) _ = _
  rw [Script.run_bind, run_iupdate, Store.iupdate, Store.locked, if_pos]
  · simp only [Store.setEntry, Store.setInode, update_self, update_idem]
    rfl
  · simp only [Store.setEntry, Store.setInode, update_self, isLocked, isValid, and_self]

theorem leads_changeNlink {change : BitVec 16} (member : i ∈ v.locks) :
    Leads faults sb v (changeNlink i change) fun _ w =>
      w = { v.setInode i { v.inode i with nlink := (v.inode i).nlink + change } with
        exempt := insert i v.exempt } := by
  intro s known
  obtain ⟨isHeld, isValid⟩ := known.locked i member
  rw [changeNlink, Script.run_bind, run_fields, known.run_locked member, known.inode]
  change Ends (Fine faults) _ ((do assign i _ _ _; iupdate i; pure ()).run (Store.handle sb) s)
  rw [run_assign_iupdate _ ((known.locks i).mpr member) isValid, known.inode]
  refine .ok ⟨_, rfl, known.change member rfl rfl rfl id rfl rfl rfl rfl ?_ ?_ ?_⟩
  · exact known.allocated_of_lock member
  · exact fun notExempt => absurd (Finset.mem_insert_self i _) notExempt
  · exact fun j different => by simp [different]

theorem freeInode_some {n : Inum} (found : s.freeInode sb = some n) :
    1 ≤ n ∧ n < sb.ninodes ∧ (s.inode n).type = .free := by
  have below := List.mem_range.mp (List.mem_of_find?_eq_some found)
  have isFree := List.find?_some found
  simp only [Bool.decide_and, Bool.and_eq_true, decide_eq_true_eq] at isFree
  exact ⟨isFree.1, below, isFree.2⟩

theorem ialloc_of_unused {n : Inum} (found : s.freeInode sb = some n) (unused : (s.entry n).ref = 0) :
    s.ialloc sb type =
      if NINODE ≤ s.used then .error (.panic .iget)
      else .ok (n, { s.setInode n { type } with
        entry := update s.entry n { ref := 1 }, used := s.used + 1 }) := by
  simp only [Store.ialloc, found, unused, Nat.lt_irrefl, ↓reduceIte, Store.iget, Store.setInode, Store.setEntry]
  by_cases full : NINODE ≤ s.used <;> simp only [full, ↓reduceIte] <;> rfl

theorem leads_createInode {major minor : BitVec 16} (typed : type ≠ .free)
    (allocated : ∀ j ∈ v.held, (v.inode j).type ≠ .free) :
    Leads faults sb v (createInode type major minor) fun n w =>
      1 ≤ n ∧ n < sb.ninodes ∧ (v.inode n).type = .free ∧
        w = ((v.setInode n { type, major, minor, nlink := 1 }).hold n).lock n := by
  intro s known
  rw [createInode, Script.run_bind, run_ialloc]
  cases found : s.freeInode sb with
  | none =>
    rw [Store.ialloc, found]
    exact .error (by simp [Fine])
  | some n =>
    obtain ⟨positive, below, isFree⟩ := freeInode_some found
    rw [known.inode] at isFree
    have notHeld : n ∉ v.held := fun member => allocated n member isFree
    have noBase : ¬0 < v.base n := fun used => known.base n used isFree
    have noLock : n ∉ v.locks := fun isLocked => notHeld (known.locked n isLocked).1
    have unused : (s.entry n).ref = 0 := by
      rw [known.refs, Multiset.count_eq_zero.mpr notHeld]
      omega
    rw [ialloc_of_unused found unused]
    by_cases full : NINODE ≤ s.used
    · rw [if_pos full]
      exact .error (by simp [Fine])
    · rw [if_neg full]
      change Ends (Fine faults) _ ((do ilock n; assign n major minor 1; iupdate n; pure n).run (Store.handle sb) _)
      rw [Script.run_bind, run_ilock]
      simp only [Store.ilock, Store.setEntry, Store.setInode, update_self, Nat.lt_irrefl,
        Bool.false_eq_true, typed, and_false, ↓reduceIte, update_idem]
      change Ends (Fine faults) _ ((do assign n major minor 1; iupdate n; pure n).run (Store.handle sb) _)
      rw [run_assign_iupdate _ (by simp) (by simp)]
      simp only [Store.setEntry, Store.setInode, update_self, update_idem]
      refine .ok ⟨_, ⟨positive, below, isFree, rfl⟩, known.set rfl rfl rfl id rfl ?_ ?_⟩
      · exact fun j different => ⟨Multiset.count_cons_of_ne different _, Iff.rfl, by simp [different]⟩
      · constructor
        · simp only [Multiset.count_cons_self, Multiset.count_eq_zero.mpr notHeld]
          omega
        · exact fun _ _ unlinked => absurd unlinked (by simp)
        · exact fun _ _ _ => rfl
        · exact fun _ _ => typed
        · exact fun _ => typed
        · exact fun _ => Multiset.mem_cons_self n _
        · simp
        · exact fun _ => ⟨Multiset.mem_cons_self n _, rfl⟩
        · rfl

end Xv6.Fs
