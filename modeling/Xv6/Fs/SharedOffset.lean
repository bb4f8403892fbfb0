import Xv6.Fs.View
import Xv6.Data.Trace

namespace Xv6.Fs

open Xv6.Data Xv6.Disk

/-! # Writers that share an offset

One transaction of `filewrite` is one step; between two of them any other process may
do anything but write to the file.
-/

namespace SharedOffset

/-- `off` is `f->off`; `left` is what each process has still to write in its call. -/
structure State where
  store : Store
  off : Nat
  left : Nat → List Byte

inductive Action where
  | write (p : Nat) (src : List Byte)
  | chunk (p : Nat)
  | other (store : Store)

def State.next (s : State) (p : Nat) : List Byte := (s.left p).take writeMax

def State.transaction (sb : Superblock) (ip : Inum) (s : State) (p : Nat) : Except Stop (Option Nat × Store) :=
  (filewriteChunk ip s.off (s.next p)).run (Store.handle sb) s.store

def step (sb : Superblock) (ip : Inum) (s : State) : Action → Option State
  | .write p src => if s.left p = [] then some { s with left := Function.update s.left p src } else none
  | .chunk p =>
    if s.left p = [] then none
    else
      match s.transaction sb ip p with
      | .error _ => none
      | .ok (none, store) => some { s with store, left := Function.update s.left p [] }
      | .ok (some n, store) =>
        if n ≠ (s.next p).length then none
        else some
          { store
            off := (s.off + n) % 2 ^ 32
            left := Function.update s.left p ((s.left p).drop writeMax) }
  | .other store => if store.inode ip = s.store.inode ip then some { s with store } else none

def completed (sb : Superblock) (ip : Inum) (s : State) : Action → List Byte
  | .chunk p =>
    match s.transaction sb ip p with
    | .ok (some _, _) => s.next p
    | _ => []
  | _ => []

def Refused (inode : Inode) (off n : Nat) : Prop := inode.data.length < off ∨ MAXFILE * BSIZE < off + n

variable {sb : Superblock} {ip : Inum} {store after : Store} {off : Nat} {src : List Byte}

theorem ilock_inode {u : Unit} (ran : store.ilock ip = .ok (u, after)) : after.inode = store.inode := by
  unfold Store.ilock at ran
  simp only at ran
  split at ran
  · cases ran
  · split at ran
    · cases ran
    · split at ran
      · cases ran
      · cases ran
        rfl

theorem iunlock_inode {u : Unit} (ran : store.iunlock ip = .ok (u, after)) : after.inode = store.inode := by
  unfold Store.iunlock at ran
  simp only at ran
  split at ran
  · cases ran
  · split at ran
    · cases ran
    · cases ran
      rfl

theorem endOp_inode {u : Unit} (ran : store.endOp = .ok (u, after)) : after.inode = store.inode := by
  unfold Store.endOp at ran
  split at ran
  · cases ran
  · cases ran
    rfl

theorem writei_cases {r : Option Nat} (regular : (store.inode ip).type = .file)
    (ran : store.writei sb ip off src = .ok (r, after)) :
    (r = none ∧ after.inode ip = store.inode ip ∧ Refused (store.inode ip) off src.length) ∨
      (r = some src.length ∧ off ≤ (store.inode ip).data.length ∧ off + src.length ≤ MAXFILE * BSIZE ∧
        after.inode ip = { store.inode ip with data := overwrite (store.inode ip).data off src }) := by
  have notDev : (store.inode ip).type ≠ .dev := by
    rw [regular]
    decide
  unfold Store.writei Store.locked at ran
  simp only [notDev, ↓reduceIte] at ran
  split at ran
  · split at ran
    · rename_i outside
      cases ran
      refine .inl ⟨rfl, rfl, outside.imp_right ?_⟩
      simp only [MAXFILE, NDIRECT, NINDIRECT, BSIZE]
      omega
    · rename_i inside
      split at ran
      · rename_i large
        cases ran
        exact .inl ⟨rfl, rfl, .inr large⟩
      · rename_i small
        have written : (store.setInode ip { store.inode ip with data := overwrite (store.inode ip).data off src }).inode ip =
            { store.inode ip with data := overwrite (store.inode ip).data off src } := Function.update_self _ _ _
        split at ran
        · cases ran
        · split at ran <;> cases ran <;> exact .inr ⟨rfl, by omega, by omega, written⟩
  · cases ran

theorem transaction_cases {r : Option Nat} (regular : (store.inode ip).type = .file)
    (ran : (filewriteChunk ip off src).run (Store.handle sb) store = .ok (r, after)) :
    (r = none ∧ after.inode ip = store.inode ip ∧ Refused (store.inode ip) off src.length) ∨
      (r = some src.length ∧ off ≤ (store.inode ip).data.length ∧ off + src.length ≤ MAXFILE * BSIZE ∧
        after.inode ip = { store.inode ip with data := overwrite (store.inode ip).data off src }) := by
  obtain ⟨_, begun, began, ran⟩ := Script.run_bind_ok ran
  obtain ⟨_, locked, gotLock, ran⟩ := Script.run_bind_ok ran
  obtain ⟨written, wrote, writes, ran⟩ := Script.run_bind_ok ran
  obtain ⟨_, unlocked, gaveLock, ran⟩ := Script.run_bind_ok ran
  obtain ⟨_, ended, ends, ran⟩ := Script.run_bind_ok ran
  cases ran
  -- only `writei` changes the file
  have same : locked.inode = store.inode := by
    rw [run_beginOp] at began
    cases began
    rw [run_ilock] at gotLock
    exact (ilock_inode gotLock).trans rfl
  have kept : after.inode = wrote.inode := by
    rw [run_iunlock] at gaveLock
    rw [run_endOp] at ends
    exact (endOp_inode ends).trans (iunlock_inode gaveLock)
  rw [run_writei] at writes
  rw [← same] at regular
  rw [kept, ← same]
  exact writei_cases regular writes

variable {s t initial : State} {a : Action} {past : List Byte}

structure Appended (ip : Inum) (initial : State) (past : List Byte) (s : State) : Prop where
  type : (s.store.inode ip).type = .file
  off : s.off = initial.off + past.length
  data : (s.store.inode ip).data = overwrite (initial.store.inode ip).data initial.off past
  inside : past = [] ∨ initial.off ≤ (initial.store.inode ip).data.length

theorem Appended.step (appended : Appended ip initial past s) (taken : step sb ip s a = some t) :
    Appended ip initial (past ++ completed sb ip s a) t := by
  have nothing {u : State} (off : u.off = s.off) (same : u.store.inode ip = s.store.inode ip) :
      Appended ip initial (past ++ []) u := by
    rw [List.append_nil]
    exact ⟨same ▸ appended.type, off.trans appended.off, same ▸ appended.data, appended.inside⟩
  cases a with
  | write p src =>
    simp only [SharedOffset.step] at taken
    split at taken
    · cases taken
      exact nothing rfl rfl
    · cases taken
  | other store =>
    simp only [SharedOffset.step] at taken
    split at taken
    · rename_i same
      cases taken
      exact nothing rfl same
    · cases taken
  | chunk p =>
    simp only [SharedOffset.step] at taken
    simp only [completed]
    split at taken
    · cases taken
    · cases ran : s.transaction sb ip p with
      | error reason =>
        rw [ran] at taken
        cases taken
      | ok pair =>
        obtain ⟨r, store⟩ := pair
        rw [ran] at taken
        cases transaction_cases appended.type ran with
        | inl failed =>
          obtain ⟨rfl, same, _⟩ := failed
          cases taken
          exact nothing rfl same
        | inr written =>
          obtain ⟨rfl, inside, room, same⟩ := written
          simp only [ne_eq, not_true_eq_false, ↓reduceIte, Option.some.injEq] at taken
          subst t
          have first : initial.off ≤ (initial.store.inode ip).data.length := by
            cases appended.inside with
            | inl none =>
              have data := appended.data
              have off := appended.off
              rw [none, overwrite_nil] at data
              rw [none, List.length_nil, Nat.add_zero] at off
              rw [← data, ← off]
              exact inside
            | inr first => exact first
          have word : s.off + (s.next p).length < 2 ^ 32 := by
            simp only [MAXFILE, NDIRECT, NINDIRECT, BSIZE] at room
            omega
          refine ⟨same ▸ appended.type, ?_, ?_, .inr first⟩
          · rw [Nat.mod_eq_of_lt word, appended.off, List.length_append, Nat.add_assoc]
          · change (store.inode ip).data = _
            rw [same, ← overwrite_append first, ← appended.data, ← appended.off]

/-- However the transactions of the writers interleave, the file has all of them, one
behind the other, and the offset is behind the last. -/
theorem shared_writes_append {initial s : State} {actions : List Action}
    (regular : (initial.store.inode ip).type = .file) (ran : Data.exec (step sb ip) initial actions = some s) :
    let chunks := emitted (step sb ip) (completed sb ip) initial actions
    s.off = initial.off + (chunks.map List.length).sum ∧
      (s.store.inode ip).data = overwrite (initial.store.inode ip).data initial.off chunks.flatten := by
  have appended : Appended ip initial (emitted (step sb ip) (completed sb ip) initial actions).flatten s := by
    apply emitted_invariant (fun s past => Appended ip initial past.flatten s) ?_ along_true ?_ ran
    · exact ⟨regular, rfl, overwrite_nil.symm, .inl rfl⟩
    · intro before past action after holds _ taken
      rw [List.flatten_append, List.flatten_singleton]
      exact holds.step taken
  refine ⟨?_, appended.data⟩
  rw [← List.length_flatten]
  exact appended.off

def emptyFile : State where
  store :=
    { inode := Function.update (fun _ => {}) 2 { type := .file, nlink := 1 }
      entry := Function.update (fun _ => {}) 2 { ref := 1, valid := true }
      used := 1 }
  off := 0
  left := fun _ => []

def twoWriters : List Action :=
  [.write 1 (List.replicate 1537 97), .write 2 [99], .chunk 1, .chunk 2, .chunk 1]

/-- The call of the second writer comes between the two transactions of the first one. -/
theorem shared_writes_append_between : ∃ s, Data.exec (step imageSuperblock 2) emptyFile twoWriters = some s ∧
    s.off = 1538 ∧ (s.store.inode 2).data = List.replicate 1536 97 ++ [99, 97] := by
  have reached : (Data.exec (step imageSuperblock 2) emptyFile twoWriters).isSome = true := by decide +kernel
  obtain ⟨s, ran⟩ := Option.isSome_iff_exists.mp reached
  have regular : (emptyFile.store.inode 2).type = .file := rfl
  obtain ⟨off, data⟩ := shared_writes_append regular ran
  refine ⟨s, ran, ?_, ?_⟩
  · rw [off]
    decide +kernel
  · rw [data]
    decide +kernel

end SharedOffset

end Xv6.Fs
