import Xv6.Blocks.Chunks

namespace Xv6.Blocks

open Xv6.Data Xv6.Disk
open Xv6.Fs (Inum Stop Panic FileType Query Code Proc Tables DIRENTSIZE DIRSIZ O_CREATE iget idup ilock iunlock iput
  iunlockput fields beginOp endOp readDirent dirlookupLoop dirlookup namexLoop namex namei create filealloc fdalloc
  fileclose openInode openFile sysOpen)

/-! # A failed `open` on blocks

Until it allocates an inode, `open` reads blocks and counts references only; the
references that it holds itself keep `iput` from freeing an inode.
-/

/-- The disk is as at the start, and the cache has the references of the start and those
that the call holds. -/
structure Untouched (sb : Superblock) (start : Inodes) (held : Multiset Inum) (s : Inodes) : Prop where
  consistent : Consistent sb s
  device : s.device = start.device
  refs : ∀ i, (start.entry i).ref + held.count i ≤ (s.entry i).ref

/-- `none` is a call that may have written. -/
def Known (sb : Superblock) (start : Inodes) : Option (Multiset Inum) → Inodes → Prop
  | none, _ => True
  | some held, s => Untouched sb start held s

abbrev Leads {α : Type} (sb : Superblock) (start : Inodes) (view : Option (Multiset Inum)) (code : Code α)
    (post : α → Option (Multiset Inum) → Prop) : Prop :=
  Script.Leads (Inodes.handle sb) (fun _ => True) (Known sb start) view code post

/-- What a search holds afterwards. -/
def found {β : Type} (held : Multiset Inum) : Option (Inum × β) → Multiset Inum
  | none => held
  | some (ip, _) => ip ::ₘ held

variable {sb : Superblock} {start s t : Inodes} {held : Multiset Inum} {view : Option (Multiset Inum)} {i : Inum}
  {α : Type}

theorem leads_any (code : Code α) : Leads sb start view code fun _ w => w = none := by
  intro s _
  exact Ends.trivial.weaken fun _ _ => ⟨none, rfl, trivial⟩

theorem fileType_dir {type : BitVec 16} (isDir : fileType type = .dir) : type = T_DIR := by
  unfold fileType at isDir
  split at isDir
  · assumption
  · split at isDir
    · cases isDir
    · split at isDir <;> cases isDir

section

variable (untouched : Untouched sb start held s)
include untouched

theorem Untouched.setEntry {new : CachedInode} {after : Multiset Inum} (device : t.device = s.device)
    (entry : t.entry = Function.update s.entry i new)
    (own : 0 < new.ref → new.valid = true → Shadows sb s.device i new.ip new.dirty)
    (clean : 0 < new.ref → new.locked = false → new.dirty = false)
    (mine : (start.entry i).ref + after.count i ≤ new.ref) (others : ∀ j, j ≠ i → after.count j = held.count j) :
    Untouched sb start after t := by
  refine ⟨untouched.consistent.setEntry device entry own clean, device.trans untouched.device, ?_⟩
  intro j
  rw [entry]
  by_cases same : j = i
  · subst same
    rw [Function.update_self]
    exact mine
  · rw [Function.update_of_ne same, others j same]
    exact untouched.refs j

theorem Untouched.again (positive : 0 < (s.entry i).ref) :
    Untouched sb start (i ::ₘ held) (s.setEntry i { s.entry i with ref := (s.entry i).ref + 1 }) := by
  have refs := untouched.refs i
  refine untouched.setEntry rfl rfl ?_ ?_ ?_ ?_
  · exact fun _ isValid => untouched.consistent.cached i ⟨positive, isValid⟩
  · exact fun _ unlocked => untouched.consistent.clean i positive unlocked
  · rw [Multiset.count_cons_self]
    dsimp only
    omega
  · exact fun j other => Multiset.count_cons_of_ne other _

end

/-! ## The operations -/

theorem leads_query (q : Query) {post : q.Answer → Option (Multiset Inum) → Prop}
    (answers : ∀ s, Untouched sb start held s →
      Ends (fun _ => True) (fun r => ∃ w, post r.1 w ∧ Known sb start w r.2) (Inodes.handle sb s q)) :
    Leads sb start (some held) (Script.query q) post := by
  intro s untouched
  rw [Script.run_query]
  exact answers s untouched

theorem leads_iget : Leads sb start (some held) (iget i) fun _ w => w = some (i ::ₘ held) := by
  apply leads_query (.iget i)
  intro s untouched
  change Ends _ _ (s.iget i)
  unfold Inodes.iget
  dsimp only
  split
  · next positive => exact .ok ⟨_, rfl, untouched.again positive⟩
  · split
    · exact .error trivial
    · refine .ok ⟨_, rfl, untouched.setEntry rfl rfl ?_ ?_ ?_ ?_⟩
      · exact fun _ isValid => Bool.noConfusion isValid
      · exact fun _ _ => rfl
      · have refs := untouched.refs i
        rw [Multiset.count_cons_self]
        dsimp only
        omega
      · exact fun j other => Multiset.count_cons_of_ne other _

theorem leads_idup : Leads sb start (some held) (idup i) fun _ w => w = some (i ::ₘ held) := by
  apply leads_query (.idup i)
  intro s untouched
  change Ends _ _ (s.idup i)
  unfold Inodes.idup
  dsimp only
  split
  · exact .error trivial
  · exact .ok ⟨_, rfl, untouched.again (by omega)⟩

theorem leads_keeps (q : Query)
    (keeps : ∀ s, Consistent sb s → Ends (fun _ => True) (fun r => Keeps sb s r.2) (Inodes.handle sb s q)) :
    Leads sb start (some held) (Script.query q) fun _ w => w = some held := by
  apply leads_query q
  intro s untouched
  apply (keeps s untouched.consistent).weaken
  intro r kept
  refine ⟨_, rfl, kept.consistent, kept.device.trans untouched.device, ?_⟩
  intro j
  rw [kept.refs]
  exact untouched.refs j

theorem leads_ilock : Leads sb start (some held) (ilock i) fun _ w => w = some held :=
  leads_keeps (.ilock i) fun _ consistent => consistent.ilock.allow fun _ _ => trivial

theorem leads_iunlock : Leads sb start (some held) (iunlock i) fun _ w => w = some held :=
  leads_keeps (.iunlock i) fun _ consistent => consistent.iunlock.allow fun _ _ => trivial

theorem leads_beginOp : Leads sb start (some held) beginOp fun _ w => w = some held :=
  leads_keeps .beginOp fun _ consistent => .ok ⟨consistent.same rfl rfl, rfl, fun _ => rfl⟩

theorem leads_endOp : Leads sb start (some held) endOp fun _ w => w = some held := by
  apply leads_keeps .endOp
  intro s consistent
  change Ends _ _ s.endOp
  unfold Inodes.endOp
  split
  · exact .error trivial
  · exact .ok ⟨consistent.same rfl rfl, rfl, fun _ => rfl⟩

theorem leads_fields : Leads sb start (some held) (fields i) fun _ w => w = some held := by
  apply leads_keeps (.fields i)
  intro s consistent
  rw [Inodes.handle, Inodes.whenLocked]
  split
  · exact .ok ⟨consistent, rfl, fun _ => rfl⟩
  · exact .error trivial

/-! ## Directories -/

section

variable (consistent : Consistent sb s) (isDir : (s.entry i).ip.type = T_DIR)
include consistent isDir

theorem run_readDirent {off : Nat} {message : Panic} :
    Ends (fun _ => True) (fun r => r.2 = s) ((readDirent i off message).run (Inodes.handle sb) s) := by
  have notDev : (s.entry i).ip.type ≠ T_DEV := by
    rw [isDir]
    decide
  have ran : (Fs.readi i off DIRENTSIZE).run (Inodes.handle sb) s = s.readi sb i off DIRENTSIZE :=
    Script.run_query (Query.readi i off DIRENTSIZE)
  have reads : Ends (fun _ => True) (fun r => r.2 = s) (s.readi sb i off DIRENTSIZE) := by
    apply (consistent.whenLocked ?_).allow fun _ _ => trivial
    intro shadow _
    dsimp only
    rw [if_neg (by simp [DIRENTSIZE, DIRSIZ])]
    apply (io_ends (shadow.readi consistent.sound notDev (by decide))).bind
    rintro ⟨⟨bytes, dip⟩, t⟩ ⟨e, isState, device, isCopy, _⟩
    dsimp only at isState device isCopy ⊢
    subst isState device isCopy
    exact .ok (congrArg (fun entry => { s with entry }) (Function.update_eq_self i s.entry))
  rw [readDirent, Script.run_bind, ran]
  apply reads.bind
  rintro ⟨bytes, t⟩ rfl
  cases bytes with
  | none => exact .error trivial
  | some bytes =>
    dsimp only
    split
    · exact .ok rfl
    · exact .error trivial

theorem run_dirlookupLoop {name : List Byte} (untouched : Untouched sb start held s) (offs : List Nat) :
    Ends (fun _ => True) (fun r => ∃ w, w = some (found held r.1) ∧ Known sb start w r.2)
      ((dirlookupLoop i name offs).run (Inodes.handle sb) s) := by
  induction offs with
  | nil => exact .ok ⟨_, rfl, untouched⟩
  | cons off rest ih =>
    rw [dirlookupLoop, Script.run_bind]
    apply (run_readDirent consistent isDir).bind
    rintro ⟨de, t⟩ rfl
    dsimp only
    split
    · exact ih
    · split
      · have taken : Leads sb start (some held) (do iget de.inum.toNat; pure (some (de.inum.toNat, off))) fun r w =>
            w = some (found held r) := leads_iget.seq (.pure rfl)
        exact taken t untouched
      · exact ih

end

/-- The walk through a directory holds what it finds. -/
theorem leads_dirlookup {name : List Byte} : Leads sb start (some held) (dirlookup i name) fun r w =>
    w = some (found held r) := by
  intro s untouched
  have ran : (fields i).run (Inodes.handle sb) s = s.whenLocked i (.ok ((s.entry i).ip.fields, s)) :=
    Script.run_query (Query.fields i)
  rw [dirlookup, Script.run_bind, ran, Inodes.whenLocked]
  split
  · change Ends _ _ (Script.run _ (if _ then _ else _) s)
    split
    · exact .error trivial
    · next isDir => exact run_dirlookupLoop untouched.consistent (fileType_dir (not_not.mp isDir)) untouched _
  · exact .error trivial

/-- Every inode in use that has no link is referred to. -/
def Linked (sb : Superblock) (s : Inodes) : Prop :=
  ∀ i < sb.ninodes, (s.device.dinode sb i).type ≠ 0 → (s.device.dinode sb i).nlink = 0 → 0 < (s.entry i).ref

section

variable (linked : Linked sb start)
include linked

theorem leads_iput : Leads sb start (some (i ::ₘ held)) (iput i) fun _ w => w = some held := by
  apply leads_query (.iput i)
  intro s untouched
  have refs := untouched.refs i
  rw [Multiset.count_cons_self] at refs
  have positive : 0 < (s.entry i).ref := by omega
  change Ends _ _ (s.iput sb i)
  unfold Inodes.iput
  dsimp only
  split
  · exact .error trivial
  · rename_i unlocked
    have clean := untouched.consistent.clean i positive (Bool.eq_false_iff.mpr unlocked)
    rw [if_neg (Nat.not_lt.mpr positive), if_neg]
    · refine .ok ⟨_, rfl, untouched.setEntry rfl rfl ?_ ?_ ?_ ?_⟩
      · exact fun _ isValid => untouched.consistent.cached i ⟨positive, isValid⟩
      · exact fun _ _ => clean
      · dsimp only
        omega
      · exact fun j other => (Multiset.count_cons_of_ne other _).symm
    · -- an inode without links has a reference of the start besides the one of the call
      rintro ⟨isValid, noLink, last⟩
      have shadow := untouched.consistent.cached i ⟨positive, isValid⟩
      have live := shadow.live
      rw [shadow.clean clean, untouched.device] at noLink live
      have kept := linked i shadow.inside live noLink
      omega

theorem leads_iunlockput : Leads sb start (some (i ::ₘ held)) (iunlockput i) fun _ w => w = some held :=
  leads_iunlock.seq (leads_iput linked)

theorem leads_namexLoop (parent : Bool) (names : List (List Byte)) (ip : Inum) :
    Leads sb start (some (ip ::ₘ held)) (namexLoop parent ip names) fun r w =>
      w = some (found held r) := by
  induction names generalizing ip with
  | nil =>
    rw [namexLoop]
    split
    · exact (leads_iput linked).seq (.pure rfl)
    · exact .pure rfl
  | cons name rest ih =>
    rw [namexLoop]
    apply leads_ilock.seq
    apply leads_fields.bind
    rintro f w rfl
    split
    · exact (leads_iunlockput linked).seq (.pure rfl)
    · split
      · exact leads_iunlock.seq (.pure rfl)
      · apply leads_dirlookup.bind
        rintro result w rfl
        cases result with
        | none =>
          exact (leads_iunlockput linked).seq (.pure rfl)
        | some pair =>
          rw [found, Multiset.cons_swap]
          apply (leads_iunlockput linked).seq
          exact ih pair.1

theorem leads_namex {cwd : Inum} {path : List Byte} {parent : Bool} :
    Leads sb start (some held) (namex cwd path parent) fun r w =>
      w = some (found held r) := by
  unfold namex
  split
  · exact leads_iget.seq (leads_namexLoop linked _ _ _)
  · exact leads_idup.seq (leads_namexLoop linked _ _ _)

/-! ## `open` -/

theorem leads_create {cwd : Inum} {path : List Byte} {type : FileType} {major minor : BitVec 16} :
    Leads sb start (some held) (create cwd path type major minor) fun r w => r = none → w = some held := by
  apply (leads_namex linked).bind
  rintro result w rfl
  cases result with
  | none => exact .pure fun _ => rfl
  | some pair =>
    apply leads_ilock.seq
    apply leads_dirlookup.bind
    rintro result w rfl
    cases result with
    | none =>
      apply (leads_any _).bind
      exact fun ip w _ => .pure fun isNone => by cases isNone
    | some other =>
      rw [found, found, Multiset.cons_swap]
      apply (leads_iunlockput linked).seq
      apply leads_ilock.seq
      apply leads_fields.bind
      rintro f w rfl
      split
      · exact .pure fun isNone => by cases isNone
      · exact (leads_iunlockput linked).seq (.pure fun _ => rfl)

theorem leads_openInode {cwd : Inum} {path : List Byte} {omode : BitVec 32} :
    Leads sb start (some held) (openInode cwd path omode) fun r w =>
      match r with
      | none => w = some held
      | some ip => omode &&& O_CREATE = 0 → w = some (ip ::ₘ held) := by
  unfold openInode
  split
  · next creates =>
    apply (leads_create linked).weaken
    rintro (_ | ip) w failed
    · exact failed rfl
    · exact fun not => absurd not creates
  · unfold namei
    rw [bind_assoc]
    apply (leads_namex linked).bind
    rintro (_ | ⟨ip, name⟩) w rfl
    · exact .pure rfl
    · apply leads_ilock.seq
      apply leads_fields.bind
      rintro f w rfl
      split
      · exact (leads_iunlockput linked).seq (.pure rfl)
      · exact .pure fun _ => rfl

end

variable {tables : Tables} {p : Fs.Slot} {proc : Proc} {path : List Byte} {omode : BitVec 32}

section

variable (linked : Linked sb start) (closed : ∀ f, (tables.file f).ref = 0 → (tables.file f).type = .none)
include linked closed

theorem leads_openFile {ip : Inum}
    (known : (filealloc tables).isSome ∧ (fdalloc proc).isSome ∨ view = some (ip ::ₘ held)) :
    Leads sb start view (openFile tables p proc ip omode) fun r w => r.1 = -1 → r.2 = tables ∧ w = some held := by
  unfold openFile
  split
  · next full =>
    obtain rfl : view = _ := known.resolve_left (by simp [full])
    apply (leads_iunlockput linked).seq
    exact leads_endOp.seq (.pure fun _ => ⟨rfl, rfl⟩)
  · rename_i f found
    have unused : (tables.file f).ref = 0 := by simpa using List.find?_some found
    dsimp only
    split
    · next full =>
      obtain rfl : view = _ := known.resolve_left (by simp [full])
      rw [Fs.fileclose_unused unused (closed f unused), pure_bind]
      apply (leads_iunlockput linked).seq
      exact leads_endOp.seq (.pure fun _ => ⟨rfl, rfl⟩)
    · rename_i fd _
      apply (leads_any _).bind
      intro _ w _
      apply (leads_any _).bind
      intro _ w _
      exact .pure fun failed => absurd failed (by dsimp only; omega)

theorem leads_sysOpen (room : omode &&& O_CREATE = 0 ∨ (filealloc tables).isSome ∧ (fdalloc proc).isSome) :
    Leads sb start (some held) (sysOpen tables p proc (some (path, omode))) fun r w =>
      r.1 = -1 → r.2 = tables ∧ w = some held := by
  apply leads_beginOp.seq
  apply (leads_openInode linked).bind
  rintro (_ | ip) w reached
  · subst reached
    exact leads_endOp.seq (.pure fun _ => ⟨rfl, rfl⟩)
  · exact leads_openFile linked closed (room.symm.imp_right reached)

end

def emptyRoot : Inodes := { smallInodes with device := smallDevice T_DIR }

end Xv6.Blocks
