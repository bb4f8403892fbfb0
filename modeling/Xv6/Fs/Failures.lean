import Xv6.Fs.Runs
import Xv6.Fs.SharedOffset

namespace Xv6.Fs

open Xv6.Data Xv6.Disk SharedOffset

/-! # Calls that fail

What a call has changed when it returns -1.
-/

variable {sb : Superblock} {s t : State} {p : Slot} {c : Call} {proc : Proc} {tables : Tables} {f : FileId} {ip : Inum}
  {store after : Store} {off last : Nat} {src : List Byte}

def Crosses (inode : Inode) (off n : Nat) : Prop :=
  ¬Refused inode off (min n writeMax) ∧ MAXFILE * BSIZE < off + n

/-- The loop writes everything, fails at once or has moved the offset. -/
theorem filewriteLoop_cases {fuel : Nat} {all : Bool} (regular : (store.inode ip).type = .file)
    (ran : (filewriteLoop ip fuel src off).run (Store.handle sb) store = .ok ((all, last), after)) :
    (all = true ∧ (src = [] ∨ off + src.length ≤ MAXFILE * BSIZE)) ∨
      (all = false ∧ last = off ∧ after.inode ip = store.inode ip ∧
        Refused (store.inode ip) off (min src.length writeMax)) ∨
      (all = false ∧ off < last ∧ Crosses (store.inode ip) off src.length) := by
  induction fuel generalizing store src off with
  | zero =>
    unfold filewriteLoop at ran
    split at ran
    · rename_i nothing
      cases ran
      exact .inl ⟨rfl, .inl nothing⟩
    · cases ran
  | succ fuel ih =>
    unfold filewriteLoop at ran
    split at ran
    · rename_i nothing
      cases ran
      exact .inl ⟨rfl, .inl nothing⟩
    · rename_i something
      have positive : 0 < src.length := List.length_pos_iff.mpr something
      have chunk : (src.take writeMax).length = min src.length writeMax := by rw [List.length_take, Nat.min_comm]
      obtain ⟨r, middle, wrote, ran⟩ := Script.run_bind_ok ran
      cases transaction_cases regular wrote with
      | inl failed =>
        obtain ⟨rfl, same, refused⟩ := failed
        cases ran
        rw [chunk] at refused
        exact .inr (.inl ⟨rfl, rfl, same, refused⟩)
      | inr written =>
        obtain ⟨rfl, inside, room, same⟩ := written
        have word : off + (src.take writeMax).length < 2 ^ 32 := by
          simp only [MAXFILE, NDIRECT, NINDIRECT, BSIZE] at room
          omega
        simp only [ne_eq, not_true_eq_false, ↓reduceIte, Nat.mod_eq_of_lt word] at ran
        rw [chunk] at room ran
        have size : (middle.inode ip).data.length = max (store.inode ip).data.length (off + min src.length writeMax) := by
          rw [same, length_overwrite inside, chunk]
        have left : (src.drop writeMax).length = src.length - writeMax := List.length_drop
        have some : 0 < writeMax := by decide
        have accepted : ¬Refused (store.inode ip) off (min src.length writeMax) := by
          simp only [Refused]
          omega
        -- the next transactions start where the file has bytes
        have next := ih (same ▸ regular) ran
        simp only [Crosses, Refused, size, left, ← List.length_eq_zero_iff] at next accepted ⊢
        cases next with
        | inl completed => exact .inl ⟨completed.1, by omega⟩
        | inr failed =>
          cases failed with
          | inl atOnce => exact .inr (.inr ⟨atOnce.1, by omega, by omega, by omega⟩)
          | inr later => exact .inr (.inr ⟨later.1, by omega, by omega, by omega⟩)

def oneOpen (data : List Byte) : Store where
  inode := Function.update (fun _ => {}) 2 { type := .file, nlink := 1, data }
  entry := Function.update (fun _ => {}) 2 { ref := 1, valid := true }
  used := 1

def openTables (off : Nat) : Tables where
  file := Function.update (fun _ => {}) 0 { ref := 1, type := .inode, ip := 2, off, writable := true }
  proc := fun _ => none

def oneLocked (data : List Byte) : Store :=
  { oneOpen data with entry := Function.update (fun _ => {}) 2 { ref := 1, valid := true, locked := true }, ops := 1 }

theorem run_oneOpen {data new : List Byte} {r : Option Nat}
    (writes : (oneLocked data).writei imageSuperblock 2 off src = .ok (r, oneLocked new)) :
    (filewriteChunk 2 off src).run (Store.handle imageSuperblock) (oneOpen data) = .ok (r, oneOpen new) := by
  have locks : (ilock 2).run (Store.handle imageSuperblock) { oneOpen data with ops := 1 } = .ok ((), oneLocked data) := by
    simp [run_ilock, Store.ilock, oneOpen, oneLocked, Store.setEntry]
  have unlocks : (iunlock 2).run (Store.handle imageSuperblock) (oneLocked new) =
      .ok ((), { oneOpen new with ops := 1 }) := by
    simp [run_iunlock, Store.iunlock, oneOpen, oneLocked, Store.setEntry]
  calc (filewriteChunk 2 off src).run (Store.handle imageSuperblock) (oneOpen data)
    _ = _ := Script.run_bind_of_ok (run_beginOp.trans rfl)
    _ = _ := Script.run_bind_of_ok locks
    _ = _ := Script.run_bind_of_ok (run_writei.trans writes)
    _ = _ := Script.run_bind_of_ok unlocks
    _ = .ok (r, oneOpen new) := Script.run_bind_of_ok (run_endOp.trans rfl)

/-- A file of `MAXFILE` blocks does not grow. -/
theorem run_full {data : List Byte} (size : data.length = 71680) (one : src.length = 1) :
    (filewriteChunk 2 71680 src).run (Store.handle imageSuperblock) (oneOpen data) = .ok (none, oneOpen data) := by
  apply run_oneOpen
  refine Eq.trans (if_neg ?_) (if_pos ?_)
  · change ¬(data.length < 71680 ∨ _)
    rw [size, one]
    decide
  · rw [one]
    decide

/-- A write that fails has had no effect if its first transaction failed, and only then. -/
theorem failed_write_unchanged_iff {r : Int} {final : Tables} (regular : (store.inode (tables.file f).ip).type = .file)
    (isInode : (tables.file f).type = .inode) (writable : (tables.file f).writable = true)
    (ran : (filewrite tables f src).run (Store.handle sb) store = .ok ((r, final), after)) :
    (r = -1 → after.inode (tables.file f).ip = store.inode (tables.file f).ip ∧
        (final.file f).off = (tables.file f).off) ↔
      ¬Crosses (store.inode (tables.file f).ip) (tables.file f).off src.length := by
  unfold filewrite at ran
  simp only [writable, isInode, Bool.true_eq_false, ↓reduceIte] at ran
  obtain ⟨⟨all, last⟩, _, looped, ran⟩ := Script.run_bind_ok ran
  cases ran
  simp only [setFile_self]
  cases filewriteLoop_cases regular looped with
  | inl completed =>
    obtain ⟨rfl, inside⟩ := completed
    refine ⟨fun _ crosses => ?_, fun _ fails => absurd fails (by simp)⟩
    simp only [Crosses, Refused, ← List.length_eq_zero_iff] at crosses inside
    omega
  | inr failed =>
    cases failed with
    | inl atOnce =>
      obtain ⟨rfl, sameOff, same, refused⟩ := atOnce
      exact ⟨fun _ crosses => crosses.1 refused, fun _ _ => ⟨same, sameOff⟩⟩
    | inr later =>
      obtain ⟨rfl, grown, crosses⟩ := later
      exact ⟨fun kept => absurd (kept rfl).2 (by omega), fun holds => absurd crosses holds⟩

theorem failed_write_unchanged_full : ∃ data : List Byte, data.length = 71680 ∧ ∃ final after,
    (filewrite (openTables 71680) 0 [97]).run (Store.handle imageSuperblock) (oneOpen data) = .ok ((-1, final), after) ∧
      after.inode 2 = (oneOpen data).inode 2 ∧ (final.file 0).off = 71680 := by
  have size : (List.replicate 71680 (0 : Byte)).length = 71680 := List.length_replicate
  refine ⟨List.replicate 71680 0, size, ?_⟩
  generalize List.replicate 71680 (0 : Byte) = data at size
  have refused : Refused ((oneOpen data).inode 2) 71680 1 := .inr (by decide)
  have loop : (filewriteLoop 2 1 [97] 71680).run (Store.handle imageSuperblock) (oneOpen data) =
      .ok ((false, 71680), oneOpen data) := by
    unfold filewriteLoop
    rw [if_neg (by simp)]
    exact Script.run_bind_of_ok (run_full size rfl)
  have ran : (filewrite (openTables 71680) 0 [97]).run (Store.handle imageSuperblock) (oneOpen data) =
      .ok ((-1, _), _) := Script.run_bind_of_ok loop
  exact ⟨_, _, ran, (failed_write_unchanged_iff rfl rfl rfl ran).mpr (fun crosses => crosses.1 refused) rfl⟩

theorem oneLocked_written {data : List Byte} (inside : off ≤ data.length) (full : off + src.length = MAXFILE * BSIZE)
    (grows : data.length < off + src.length) (size : (overwrite data off src).length = MAXFILE * BSIZE) :
    (oneLocked data).writei imageSuperblock 2 off src = .ok (some src.length, oneLocked (overwrite data off src)) := by
  have sets : (oneLocked data).setInode 2 { (oneLocked data).inode 2 with data := overwrite data off src } =
      oneLocked (overwrite data off src) := by
    simp [Store.setInode, oneLocked, oneOpen]
  have keeps : (oneLocked (overwrite data off src)).setEntry 2 { (oneLocked data).entry 2 with dirty := false } =
      oneLocked (overwrite data off src) := by
    simp [Store.setEntry, oneLocked]
  have lengths : (fun i => blocksFor ((oneLocked (overwrite data off src)).inode i).data.length) =
      fun i => if i = 2 then blocksFor (MAXFILE * BSIZE) else 0 := by
    funext i
    by_cases same : i = 2
    · simp [oneLocked, oneOpen, same, size]
    · simp [oneLocked, oneOpen, same, blocksFor, BSIZE]
  have blocks : ¬imageSuperblock.nblocks < usedBlocks imageSuperblock
      ((oneLocked data).setInode 2 { (oneLocked data).inode 2 with data := overwrite data off src }).inode := by
    rw [sets, usedBlocks, lengths]
    decide +kernel
  have fits : ¬(data.length < off ∨ 2 ^ 32 ≤ off + src.length) := by
    rw [full]
    exact not_or.mpr ⟨by omega, by decide⟩
  calc (oneLocked data).writei imageSuperblock 2 off src
    _ = _ := if_neg fits
    _ = _ := if_neg (Nat.not_lt.mpr full.le)
    _ = _ := if_neg blocks
    _ = _ := if_pos grows
    _ = .ok (some src.length, oneLocked (overwrite data off src)) :=
      congrArg (fun store => Except.ok (some src.length, store)) ((congrArg (Store.setEntry · 2 _) sets).trans keeps)

theorem run_crossing {data : List Byte} (size : data.length = 70144) (count : src.length = 1537) :
    ∃ final after, (filewrite (openTables 70144) 0 src).run (Store.handle imageSuperblock) (oneOpen data) =
        .ok ((-1, final), after) ∧ (final.file 0).off = 71680 ∧ (after.inode 2).data.length = 71680 := by
  have chunk : (src.take writeMax).length = 1536 := by
    rw [List.length_take, count]
    rfl
  have left : ((src.drop writeMax).take writeMax).length = 1 := by
    rw [List.length_take, List.length_drop, count]
    rfl
  have grown : (overwrite data 70144 (src.take writeMax)).length = 71680 := by
    rw [length_overwrite size.ge, size, chunk]
    rfl
  have first : (filewriteChunk 2 70144 (src.take writeMax)).run (Store.handle imageSuperblock) (oneOpen data) = _ :=
    run_oneOpen (oneLocked_written size.ge (by rw [chunk]; rfl) (by rw [size, chunk]; decide) grown)
  generalize overwrite data 70144 (src.take writeMax) = new at first grown
  refine ⟨(openTables 70144).setFile 0 { (openTables 70144).file 0 with off := 71680 },
    oneOpen new, ?_, by rw [setFile_self], grown⟩
  have loop : (filewriteLoop 2 1537 src 70144).run (Store.handle imageSuperblock) (oneOpen data) =
      .ok ((false, 71680), oneOpen new) := by
    unfold filewriteLoop
    rw [if_neg (List.length_pos_iff.mp (by omega)), Script.run_bind_of_ok first]
    simp only [ne_eq, not_true_eq_false, ↓reduceIte, chunk]
    unfold filewriteLoop
    rw [if_neg (List.length_pos_iff.mp (by rw [List.length_drop, count]; decide))]
    exact Script.run_bind_of_ok (run_full grown left)
  rw [← count] at loop
  exact Script.run_bind_of_ok loop

theorem failed_write_moves_offset : ∃ data src : List Byte, data.length = 70144 ∧ ∃ final after,
      (filewrite (openTables 70144) 0 src).run (Store.handle imageSuperblock) (oneOpen data) = .ok ((-1, final), after) ∧
        (final.file 0).off = 71680 ∧ (after.inode 2).data.length = 71680 :=
  ⟨List.replicate 70144 0, List.replicate 1537 1, List.length_replicate,
    run_crossing List.length_replicate List.length_replicate⟩

def Call.OnTree : Call → Prop
  | .link _ | .unlink _ | .mkdir _ | .mknod _ | .chdir _ => True
  | _ => False

section

variable (settled : Settled sb s)
include settled

theorem Settled.returns {r : Int} {post : Int × Tables → View → Prop} (isProc : s.tables.proc p = some proc)
    (leads : Walkable ⟨True, True⟩ s.world.inode →
      Leads ⟨True, True⟩ sb (s.world.view 0) (Fs.serve s.tables p proc c) post)
    (called : Fs.call sb s p c = some (.ok (r, t))) : ∃ u, post (r, t.tables) u ∧ t.store.inode = u.inode := by
  have served := leads (settled.walkable (fun _ => trivial) fun _ _ _ _ _ _ => trivial) s.store settled.shows
  rw [Fs.call, isProc] at called
  simp only [Option.map_some, Option.some.injEq] at called
  cases ran : (Fs.serve s.tables p proc c).run (Store.handle sb) s.store with
  | error reason =>
    rw [ran] at called
    cases called
  | ok pair =>
    rw [ran] at called served
    cases called
    obtain ⟨u, holds, shows⟩ := served
    exact ⟨u, holds, shows.inode⟩

/-- A call on names that returns -1 has changed neither an inode nor a table. -/
theorem failed_call_keeps_tree (onTree : c.OnTree) (called : call sb s p c = some (.ok (-1, t))) :
    t.store.inode = s.store.inode ∧ t.tables = s.tables := by
  have named {proc : Proc} (isProc : s.tables.proc p = some proc)
      (leads : Walkable ⟨True, True⟩ s.world.inode →
        Leads ⟨True, True⟩ sb (s.world.view 0) (serve s.tables p proc c) (Named sb s.world s.tables 0)) :
      t.store.inode = s.store.inode ∧ t.tables = s.tables := by
    obtain ⟨u, ⟨tables, w, _, same, rfl⟩, shown⟩ := settled.returns isProc leads called
    exact ⟨shown.trans (congrArg World.inode (same rfl)), tables⟩
  cases isProc : s.tables.proc p with
  | none =>
    rw [call, isProc] at called
    cases called
  | some proc =>
    have used := settled.fits.cwd_used isProc
    cases c with
    | link args => exact named isProc fun walkable => leads_sysLink walkable used fun _ _ _ _ => trivial
    | unlink path => exact named isProc fun walkable => leads_sysUnlink walkable used
    | mkdir path => exact named isProc fun walkable => leads_sysMkdir walkable used
    | mknod args => exact named isProc fun walkable => leads_sysMknod walkable used
    | chdir path =>
      obtain ⟨u, ⟨_, same⟩, shown⟩ := settled.returns isProc (leads_sysChdir settled.fits isProc) called
      obtain ⟨tables, rfl⟩ := same rfl
      exact ⟨shown, tables⟩
    | _ => exact onTree.elim

end

theorem returned_of_map {α : Type} {result : Option (Except Stop (Int × State))} {f : Int × State → α} {value : α}
    (computed : (result.bind Except.toOption).map f = some value) : ∃ pair, result = some (.ok pair) ∧ f pair = value := by
  obtain ⟨pair, returned, equal⟩ := Option.map_eq_some_iff.mp computed
  obtain ⟨outcome, called, isOk⟩ := Option.bind_eq_some_iff.mp returned
  exact ⟨pair, ok_of_toOption isOk ▸ called, equal⟩

theorem failed_call_keeps_tree_unlink :
    ∃ t, call imageSuperblock (userinit oneFile) initproc (.unlink (some [103])) = some (.ok (-1, t)) ∧
      t.store.inode = mkfs oneFile ∧ t.tables = (userinit oneFile).tables := by
  have failed : ((call imageSuperblock (userinit oneFile) initproc (.unlink (some [103]))).bind Except.toOption).map
      Prod.fst = some (-1) := by
    decide +kernel
  obtain ⟨⟨r, t⟩, called, rfl⟩ := returned_of_map failed
  exact ⟨t, called, failed_call_keeps_tree (userinit_settled oneFile_fits.count) (by trivial) called⟩

end Xv6.Fs
