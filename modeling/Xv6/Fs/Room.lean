import Xv6.Fs.Walk

namespace Xv6.Fs

open Xv6.Data Xv6.Disk
open Function (update update_self update_of_ne)

/-! # Room in the inode cache

A walk refers to at most two inodes at a time. -/

variable {sb : Superblock} {v w : View} {s t : Store} {i : Inum} {reason : Stop} {α : Type}

def Counted (s : Store) : Prop :=
  ∃ inUse : Finset Inum, inUse.card = s.used ∧ ∀ i, i ∈ inUse ↔ 0 < (s.entry i).ref

namespace Counted

section

variable (counted : Counted s)
include counted

theorem same (used : t.used = s.used) (ref : ∀ i, (t.entry i).ref = (s.entry i).ref) : Counted t := by
  obtain ⟨inUse, card, exact⟩ := counted
  refine ⟨inUse, by rw [used, card], ?_⟩
  intro i
  rw [ref, exact]

theorem setEntry {e : Entry} (used : t.used = s.used)
    (entry : t.entry = update s.entry i e) (alive : 0 < e.ref ↔ 0 < (s.entry i).ref) : Counted t := by
  obtain ⟨inUse, card, exact⟩ := counted
  refine ⟨inUse, by rw [used, card], ?_⟩
  intro j
  rw [entry, exact]
  by_cases same : j = i
  · subst j
    rw [update_self, alive]
  · rw [update_of_ne same]

theorem add {e : Entry} (dead : ¬0 < (s.entry i).ref) (used : t.used = s.used + 1)
    (entry : t.entry = update s.entry i e) (alive : 0 < e.ref) : Counted t := by
  obtain ⟨inUse, card, exact⟩ := counted
  refine ⟨insert i inUse, ?_, ?_⟩
  · rw [Finset.card_insert_of_notMem (fun member => dead ((exact i).mp member)), used, card]
  · intro j
    rw [entry, Finset.mem_insert, exact]
    by_cases same : j = i
    · subst j
      simp only [update_self, true_or, alive]
    · simp only [update_of_ne same, same, false_or]

theorem remove {e : Entry} (alive : 0 < (s.entry i).ref) (used : t.used = s.used - 1)
    (entry : t.entry = update s.entry i e) (dead : ¬0 < e.ref) : Counted t := by
  obtain ⟨inUse, card, exact⟩ := counted
  refine ⟨inUse.erase i, ?_, ?_⟩
  · rw [Finset.card_erase_of_mem ((exact i).mpr alive), used, card]
  · intro j
    rw [entry, Finset.mem_erase, exact]
    by_cases same : j = i
    · subst j
      simp only [update_self, ne_eq, not_true_eq_false, false_and, dead]
    · simp only [update_of_ne same, ne_eq, same, not_false_eq_true, true_and]

theorem iget (ran : s.iget i = .ok ((), t)) : Counted t := by
  simp only [Store.iget] at ran
  split at ran
  · rename_i alive
    cases ran
    exact counted.setEntry rfl rfl ⟨fun _ => alive, fun _ => Nat.succ_pos _⟩
  · rename_i dead
    split at ran
    · cases ran
    · cases ran
      exact counted.add dead rfl rfl Nat.one_pos

theorem iput (ran : s.iput i = .ok ((), t)) : Counted t := by
  simp only [Store.iput] at ran
  split at ran
  · cases ran
  · split at ran
    · cases ran
    · rename_i alive
      have kept (e : Entry) (ref : e.ref = (s.entry i).ref - 1)
          (used : t.used = if (s.entry i).ref = 1 then s.used - 1 else s.used)
          (entry : t.entry = update s.entry i e) : Counted t := by
        by_cases last : (s.entry i).ref = 1
        · rw [if_pos last] at used
          exact counted.remove (by omega) used entry (by omega)
        · rw [if_neg last] at used
          exact counted.setEntry used entry ⟨fun _ => by omega, fun _ => by omega⟩
      split at ran <;> cases ran <;> exact kept _ rfl rfl rfl

end

theorem locked {body : Except Stop (α × Store)} {a : α} (ran : s.locked i body = .ok (a, t))
    (holds : body = .ok (a, t) → Counted t) : Counted t := by
  simp only [Store.locked] at ran
  split at ran
  · exact holds ran
  · cases ran

section

variable (counted : Counted s)
include counted

theorem ialloc {type : FileType} {n : Inum} (ran : s.ialloc sb type = .ok (n, t)) : Counted t := by
  simp only [Store.ialloc] at ran
  cases found : s.freeInode sb with
  | none =>
    rw [found] at ran
    cases ran
  | some i =>
    rw [found] at ran
    dsimp only at ran
    split at ran
    · cases ran
    · cases got : (s.setInode i { type }).iget i with
      | error reason =>
        rw [got] at ran
        cases ran
      | ok pair =>
        rw [got] at ran
        cases ran
        exact iget (s := s.setInode n { type }) (counted.same rfl fun _ => rfl) got

theorem readi {off n : Nat} {a : Option (List Byte)} (ran : s.readi i off n = .ok (a, t)) :
    Counted t := by
  apply locked ran
  intro ran
  dsimp only at ran
  split at ran
  · split at ran
    · cases ran
      exact counted.same rfl fun _ => rfl
    · cases ran
      exact counted
  · split at ran <;> cases ran <;> exact counted

theorem writei {off : Nat} {src : List Byte} {a : Option Nat}
    (ran : s.writei sb i off src = .ok (a, t)) : Counted t := by
  apply locked ran
  intro ran
  dsimp only at ran
  split at ran
  · cases ran
    exact counted
  · split at ran
    · cases ran
      exact counted
    · split at ran
      · cases ran
        exact counted
      · split at ran
        · cases ran
        · split at ran
          · cases ran
            exact counted.setEntry rfl rfl Iff.rfl
          · cases ran
            exact counted.same rfl fun _ => rfl

theorem handle {query : Query} {answer : query.Answer}
    (ran : Store.handle sb s query = .ok (answer, t)) : Counted t := by
  cases query with
  | iget inum => exact counted.iget ran
  | idup ip =>
    simp only [Store.handle, Store.idup] at ran
    split at ran
    · cases ran
    · cases ran
      exact counted.setEntry rfl rfl ⟨fun _ => by omega, fun _ => Nat.succ_pos _⟩
  | ialloc type => exact counted.ialloc ran
  | ilock ip =>
    simp only [Store.handle, Store.ilock] at ran
    split at ran
    · cases ran
    · split at ran
      · cases ran
      · split at ran
        · cases ran
        · cases ran
          exact counted.setEntry rfl rfl Iff.rfl
  | iunlock ip =>
    simp only [Store.handle, Store.iunlock] at ran
    split at ran
    · cases ran
    · split at ran
      · cases ran
      · cases ran
        exact counted.setEntry rfl rfl Iff.rfl
  | iput ip => exact counted.iput ran
  | fields ip =>
    apply locked ran
    intro ran
    cases ran
    exact counted
  | assign ip major minor nlink | iupdate ip =>
    apply locked ran
    intro ran
    cases ran
    exact counted.setEntry rfl rfl Iff.rfl
  | readi ip off n => exact counted.readi ran
  | writei ip off src => exact counted.writei ran
  | beginOp =>
    cases ran
    exact counted.same rfl fun _ => rfl
  | endOp =>
    simp only [Store.handle, Store.endOp] at ran
    split at ran
    · cases ran
    · cases ran
      exact counted.same rfl fun _ => rfl

theorem run {code : Code α} {a : α} (ran : code.run (Store.handle sb) s = .ok (a, t)) :
    Counted t := by
  induction code generalizing s with
  | done value =>
    cases ran
    exact counted
  | stop reason => cases ran
  | ask query next ih =>
    simp only [Script.run] at ran
    cases answered : Store.handle sb s query with
    | error reason =>
      rw [answered] at ran
      cases ran
    | ok pair =>
      rw [answered] at ran
      exact ih pair.1 (counted.handle answered) ran

theorem used_le (known : Shows w s) (few : Finset Inum)
    (among : ∀ i, 0 < w.base i + w.held.count i → i ∈ few) : s.used ≤ few.card := by
  obtain ⟨inUse, card, exact⟩ := counted
  rw [← card]
  apply Finset.card_le_card
  intro i member
  have positive := (exact i).mp member
  rw [known.refs] at positive
  exact among i positive

end

end Counted

def noFaults : Faults := ⟨False, False⟩

/-- The stop of a walk that finds no entry for an inode, when all but one of the entries
were in use before it. -/
def CacheFull (used : Nat) (reason : Stop) : Prop := reason = .panic .iget ∧ NINODE ≤ used + 1

theorem ends_of_room {n : Nat} {post : α → Prop} {result : Except Stop α} (ends : Ends (CacheFull n) post result)
    (room : n + 2 ≤ NINODE) : ∃ value, result = .ok value ∧ post value := by
  cases result with
  | ok value => exact ⟨value, rfl, ends⟩
  | error reason =>
    have full := ends.2
    omega

def Strict (sb : Superblock) (code : Code α) : Prop :=
  ∀ s reason, code.run (Store.handle sb) s = .error reason → ¬Fine noFaults reason

namespace Strict

theorem idup : Strict sb (idup i) := by
  intro s reason ran
  rw [run_idup, Store.idup] at ran
  split at ran
  · cases ran
    exact id
  · cases ran

theorem ilock : Strict sb (ilock i) := by
  intro s reason ran
  rw [run_ilock, Store.ilock] at ran
  split at ran
  · cases ran
    simp [Fine]
  · split at ran
    · cases ran
      exact id
    · split at ran
      · cases ran
        exact id
      · cases ran

theorem iunlock : Strict sb (iunlock i) := by
  intro s reason ran
  rw [run_iunlock, Store.iunlock] at ran
  split at ran
  · cases ran
    simp [Fine]
  · split at ran
    · cases ran
      exact id
    · cases ran

theorem iput : Strict sb (iput i) := by
  intro s reason ran
  rw [run_iput, Store.iput] at ran
  split at ran
  · cases ran
    exact id
  · split at ran
    · cases ran
      exact id
    · dsimp only at ran
      split at ran <;> cases ran

theorem fields : Strict sb (fields i) := by
  intro s reason ran
  rw [run_fields, Store.locked] at ran
  split at ran
  · cases ran
  · cases ran
    exact id

theorem iunlockput : Strict sb (iunlockput i) := by
  intro s reason ran
  rw [Fs.iunlockput, Script.run_bind] at ran
  cases unlocked : (Fs.iunlock i).run (Store.handle sb) s with
  | error other =>
    rw [unlocked] at ran
    cases ran
    exact iunlock s _ unlocked
  | ok pair =>
    rw [unlocked] at ran
    exact iput pair.2 reason ran

end Strict

def ShowsCounted (v : View) (s : Store) : Prop := Shows v s ∧ Counted s

theorem leads_counted {code : Code α} {fine : Stop → Prop} {post : α → View → Prop} (leads : Leads noFaults sb v code post)
    (stops : ∀ s reason, ShowsCounted v s → code.run (Store.handle sb) s = .error reason → Fine noFaults reason →
      fine reason) :
    Script.Leads (Store.handle sb) fine ShowsCounted v code post := by
  intro s known
  have ends := leads s known.1
  cases ran : code.run (Store.handle sb) s with
  | error reason =>
    rw [ran] at ends
    exact stops s reason known ran ends
  | ok pair =>
    rw [ran] at ends
    obtain ⟨after, holds, shown⟩ := ends
    exact ⟨after, holds, shown, known.2.run ran⟩

theorem Strict.leads {code : Code α} {fine : Stop → Prop} {post : α → View → Prop} (strict : Strict sb code)
    (leads : Leads noFaults sb v code post) : Script.Leads (Store.handle sb) fine ShowsCounted v code post :=
  leads_counted leads fun s reason _ ran isFine => absurd isFine (strict s reason ran)

section

variable {n : Nat} (few : Finset Inum) (count : few.card ≤ n + 1)
  (among : ∀ i, 0 < v.base i + v.held.count i → i ∈ few)
include count among

theorem iget_full (known : ShowsCounted v s) (ran : s.iget i = .error reason) : CacheFull n reason := by
  have used := known.2.used_le known.1 few among
  rw [Store.iget] at ran
  dsimp only at ran
  split at ran
  · cases ran
  · split at ran
    · cases ran
      exact ⟨rfl, by omega⟩
    · cases ran

theorem counted_iget : Script.Leads (Store.handle sb) (CacheFull n) ShowsCounted v (iget i) fun _ w => w = v.hold i := by
  apply leads_counted (leads_iget i)
  intro s reason known ran _
  rw [run_iget] at ran
  exact iget_full few count among known ran

theorem counted_dirlookup {dp : Inum} {name : List Byte} (member : dp ∈ v.locks) (isDir : (v.inode dp).type = .dir)
    (readable : Readable (v.inode dp).data) :
    Script.Leads (Store.handle sb) (CacheFull n) ShowsCounted v (dirlookup dp name) fun r w =>
      match lookup (v.inode dp).data name with
      | none => r = none ∧ w = v
      | some k =>
        let inum := (direntAt (v.inode dp).data k).inum.toNat
        r = some (inum, DIRENTSIZE * k) ∧ w = v.hold inum := by
  apply leads_counted (leads_dirlookup member isDir readable)
  intro s reason known ran _
  have isLocked := (known.1.locks dp).mpr member
  have isValid := (known.1.locked dp member).2
  rw [← known.1.inode] at isDir readable
  rw [run_dirlookup isLocked isValid isDir readable] at ran
  cases found : lookup (s.inode dp).data name with
  | none =>
    rw [found] at ran
    cases ran
  | some k =>
    rw [found] at ran
    simp only [taken, Script.run_bind, run_iget] at ran
    cases got : s.iget (direntAt (s.inode dp).data k).inum.toNat with
    | error other =>
      rw [got] at ran
      cases ran
      exact iget_full few count among known got
    | ok pair =>
      rw [got] at ran
      cases ran

end

/-- A walk finds the inode cache full only if all entries but one were in use. -/
theorem counted_walkRules {few : Finset Inum} (among : ∀ i, 0 < v.base i + v.held.count i → i ∈ few)
    (readable : ∀ i, (v.inode i).type = .dir → Readable (v.inode i).data)
    (exempt : ∀ j ∈ v.exempt, j ∈ v.held) (noLocks : v.locks = ∅) :
    WalkRules noFaults sb (CacheFull few.card) ShowsCounted v := by
  have rules : WalkRules noFaults sb (Fine noFaults) Shows v := walkRules readable exempt noLocks
  constructor
  · exact counted_iget few (Nat.le_succ _) among
  · exact fun ip inUse => Strict.idup.leads (rules.duplicate ip inUse)
  · exact fun ip dangles => Strict.ilock.leads (rules.lock ip dangles)
  · exact fun ip => Strict.fields.leads (rules.look ip)
  · exact fun ip => Strict.iunlock.leads (rules.unlock ip)
  · intro ip name isDir
    apply counted_dirlookup (v := (v.hold ip).lock ip) (insert ip few) (Finset.card_insert_le ip few) ?_ View.mem_lock
      isDir (readable ip isDir)
    intro i positive
    by_cases same : i = ip
    · exact same ▸ Finset.mem_insert_self ip few
    · rw [Multiset.count_cons_of_ne same] at positive
      exact Finset.mem_insert_of_mem (among i positive)
  · exact fun ip => Strict.iput.leads (rules.drop ip)
  · exact fun ip => Strict.iunlockput.leads (rules.release ip)
  · exact fun ip next => Strict.iunlockput.leads (rules.advance ip next)

end Xv6.Fs
