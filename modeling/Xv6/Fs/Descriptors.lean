import Xv6.Fs.References

namespace Xv6.Fs

open Xv6.Data Xv6.Disk

/-! # Calls on descriptors

Every call keeps the references to inodes those of the tables. -/

variable {faults : Faults} {sb : Superblock} {w t : World} {i ip : Inum} {ops : Nat} {tables : Tables}
  {proc : Proc} {p : Slot} {f : FileId}

abbrev Quietly (sb : Superblock) : World → World → Prop := Relation.ReflTransGen (Quiet sb)

abbrev Handled (sb : Superblock) (w : World) (ops : Nat) (after : Tables) (u : View) : Prop :=
  ∃ t, Quietly sb w t ∧ Fits t after ∧ u = t.view ops

theorem leads_fileclose (fits : Fits w tables) :
    Leads faults sb (w.view ops) (fileclose tables f) fun after u =>
      after.proc = tables.proc ∧ Handled sb w ops after u := by
  unfold fileclose
  simp only
  split
  · exact .stop (by simp [Fine])
  · rename_i isOpen
    split
    · rename_i several
      refine .pure ⟨rfl, w, .refl, fits.setFile ?_ (fun _ _ => rfl) ?_ (fits.writable f), rfl⟩
      · intro i
        have stays : 0 < (tables.file f).ref - 1 := by omega
        have before : 0 < (tables.file f).ref := by omega
        simp only [File.refs, stays, before, true_and]
      · intro unused
        simp only at unused
        omega
    · rename_i one
      have noRefs (i : Inum) : File.refs { tables.file f with ref := 0, type := .none } i = 0 := by simp [File.refs]
      cases type : (tables.file f).type with
      | none =>
        refine .pure ⟨rfl, w, .refl, fits.setFile ?_ (fun _ _ => rfl) (fun _ => rfl) ?_, rfl⟩
        · intro i
          have before : (tables.file f).refs i = 0 := by simp [File.refs, type]
          rw [noRefs, before]
        · intro isInode
          cases isInode
      | inode =>
        have used := fits.file_used type
        apply Script.Leads.seq leads_beginOp
        apply Script.Leads.seq (leads_iput_table used)
        apply Script.Leads.bind (leads_endOp (Nat.succ_pos ops))
        intro _ u reached
        refine .pure ⟨rfl, _, .single (.drop _ used), fits.setFile ?_ ?_ (fun _ => rfl) ?_, reached⟩
        · intro i
          rw [noRefs, sweep_base]
          by_cases same : i = (tables.file f).ip
          · have before : (tables.file f).refs i = 1 := by
              rw [File.refs, if_pos ⟨by omega, type, same.symm⟩]
            subst i
            rw [setBase_self, before]
            omega
          · have before : (tables.file f).refs i = 0 := by
              rw [File.refs, if_neg fun counted => same counted.2.2.symm]
            rw [setBase_of_ne same, before]
        · intro i inUse
          rw [sweep_base] at inUse
          rw [sweep_type inUse]
        · intro isInode
          cases isInode

theorem leads_filedup (fits : Fits w tables) :
    Leads faults sb (w.view ops) (filedup tables f) fun after u =>
      after.proc = tables.proc ∧ Fits w after ∧ u = w.view ops := by
  unfold filedup
  split
  · exact .stop (by simp [Fine])
  · rename_i isOpen
    refine .pure ⟨rfl, fits.setFile ?_ (fun _ _ => rfl) ?_ (fits.writable f), rfl⟩
    · intro i
      have before : 0 < (tables.file f).ref := by omega
      simp only [File.refs, before, Nat.succ_pos, true_and]
    · intro unused
      simp at unused

theorem leads_fileread {n : Nat} (fits : Fits w tables) :
    Leads faults sb (w.view ops) (fileread tables f n) fun r u => Handled sb w ops r.2 u := by
  unfold fileread
  simp only
  split
  · exact .pure ⟨w, .refl, fits, rfl⟩
  · split
    · exact .stop (by simp [Fine])
    · rename_i isInode
      apply leads_locked (fun _ t => t = w) (fits.file_used isInode)
      · apply (leads_readi View.mem_lock).weaken
        intro r u reached
        exact ⟨w, rfl, reached.1⟩
      · intro r t same
        rw [same]
        exact ⟨rfl, rfl⟩
      · intro r t same
        subst t
        cases r with
        | none => exact .pure ⟨w, .refl, fits, rfl⟩
        | some bytes => exact .pure ⟨w, .refl, fits.setOff _, rfl⟩

/-- A transaction of `write` has written to the file, or to nothing that is on the disk. -/
structure Written (sb : Superblock) (w t : World) : Prop where
  quiet : Quietly sb w t
  base : t.base = w.base
  type : ∀ i, (t.inode i).type = (w.inode i).type

theorem Written.refl : Written sb w w := ⟨.refl, rfl, fun _ => rfl⟩

theorem Written.trans {x : World} (first : Written sb w t) (second : Written sb t x) : Written sb w x :=
  ⟨first.quiet.trans second.quiet, second.base.trans first.base, fun i => (second.type i).trans (first.type i)⟩

theorem Written.write {data : List Byte} (isFile : (w.inode i).type = .file)
    (blocks : usedBlocks sb (w.set i { w.inode i with data }).inode ≤ sb.nblocks) :
    Written sb w (w.set i { w.inode i with data }) := by
  refine ⟨.single (.write i data isFile blocks), rfl, ?_⟩
  intro j
  by_cases same : j = i
  · subst j
    simp only [Function.update_self]
  · simp only [Function.update_of_ne same]

section

variable (used : 0 < w.base ip) (notDir : (w.inode ip).type ≠ .dir)
include used notDir

variable {src : List Byte}

theorem leads_filewriteChunk {off : Nat} :
    Leads faults sb (w.view ops) (filewriteChunk ip off src) fun _ u => ∃ t, Written sb w t ∧ u = t.view ops := by
  apply leads_of_sound
  intro sound
  have allocated : (w.inode ip).type ≠ .free := sound.base ip used
  apply Script.Leads.seq leads_beginOp
  apply leads_locked (fun _ t => Written sb w t) used
  · by_cases isDev : (w.inode ip).type = .dev
    · apply (leads_writei_dev View.mem_lock isDev).weaken
      intro r u reached
      exact ⟨w, .refl, reached.2⟩
    · apply (leads_writei View.mem_lock isDev).weaken
      intro r u reached
      cases reached with
      | inl failed => exact ⟨w, .refl, failed.2⟩
      | inr written =>
        obtain ⟨_, _, _, rfl, blocks⟩ := written
        have isFile : (w.inode ip).type = .file := by
          cases type : (w.inode ip).type with
          | free => exact absurd type allocated
          | dir => exact absurd type notDir
          | file => rfl
          | dev => exact absurd type isDev
        exact ⟨_, .write isFile blocks, rfl⟩
  · intro r t written
    exact ⟨congrFun written.base ip, written.type ip⟩
  · intro r t written
    apply Script.Leads.bind (leads_endOp (Nat.succ_pos ops))
    intro _ u reached
    exact .pure ⟨t, written, reached⟩

theorem leads_filewriteLoop {fuel off : Nat} (enough : src.length ≤ fuel) :
    Leads faults sb (w.view ops) (filewriteLoop ip fuel src off) fun _ u => ∃ t, Written sb w t ∧ u = t.view ops := by
  induction fuel generalizing w src off with
  | zero =>
    rw [filewriteLoop, if_pos (List.eq_nil_of_length_eq_zero (Nat.le_zero.mp enough))]
    exact .pure ⟨w, .refl, rfl⟩
  | succ fuel ih =>
    unfold filewriteLoop
    split
    · exact .pure ⟨w, .refl, rfl⟩
    · have shorter : (src.drop writeMax).length ≤ fuel := by
        have positive : 0 < writeMax := by decide
        rw [List.length_drop]
        omega
      apply Script.Leads.bind (leads_filewriteChunk used notDir)
      intro r u reached
      obtain ⟨t, written, rfl⟩ := reached
      cases r with
      | none => exact .pure ⟨t, written, rfl⟩
      | some n =>
        simp only
        split
        · exact .stop (by simp [Fine])
        · have usedAfter : 0 < t.base ip := by
            rw [written.base]
            exact used
          have notDirAfter : (t.inode ip).type ≠ .dir := by
            rw [written.type]
            exact notDir
          apply (ih usedAfter notDirAfter shorter).weaken
          intro _ u reached
          obtain ⟨x, more, rfl⟩ := reached
          exact ⟨x, written.trans more, rfl⟩

end

theorem leads_filewrite (fits : Fits w tables) :
    Leads faults sb (w.view ops) (filewrite tables f src) fun r u => Handled sb w ops r.2 u := by
  unfold filewrite
  simp only
  split
  · exact .pure ⟨w, .refl, fits, rfl⟩
  · rename_i isWritable
    split
    · exact .stop (by simp [Fine])
    · rename_i isInode
      have notDir := fits.writable f isInode (Bool.eq_true_of_not_eq_false isWritable)
      apply Script.Leads.bind (leads_filewriteLoop (fits.file_used isInode) notDir le_rfl)
      intro r u reached
      obtain ⟨t, written, rfl⟩ := reached
      have fitsAfter : Fits t tables := fits.world (congrFun written.base) fun i _ => written.type i
      exact .pure ⟨t, written.quiet, fitsAfter.setOff _, rfl⟩

theorem leads_sysRead {fd : Fd} {n : Nat} (fits : Fits w tables) :
    Leads faults sb (w.view ops) (sysRead tables proc fd n) fun r u => Handled sb w ops r.2 u := by
  unfold sysRead
  cases proc.ofile fd with
  | none => exact .pure ⟨w, .refl, fits, rfl⟩
  | some f => exact leads_fileread fits

theorem leads_sysWrite {fd : Fd} (fits : Fits w tables) :
    Leads faults sb (w.view ops) (sysWrite tables proc fd src) fun r u => Handled sb w ops r.2 u := by
  unfold sysWrite
  cases proc.ofile fd with
  | none => exact .pure ⟨w, .refl, fits, rfl⟩
  | some f => exact leads_filewrite fits

theorem Change.base (changed : Change sb w t) : t.base = w.base := by
  cases changed with
  | create | link => exact sweep_base
  | unlink => exact sweep_base.trans sweep_base

theorem created_type {type : FileType} {major minor : BitVec 16} (old : i ≠ ip) :
    ((w.created dp name ip type major minor).inode i).type = (w.inode i).type := by
  simp only [Function.update_apply, if_neg old]
  split
  · next isDp => rw [isDp]
  · rfl

theorem linked_type : ((w.linked dp name ip).inode i).type = (w.inode i).type := by
  simp only [Function.update_apply]
  split
  · next isDp => rw [isDp]
  · split
    · next isIp => rw [isIp]
    · rfl

theorem unlinked_type {k : Nat} : ((w.unlinked dp ip k).inode i).type = (w.inode i).type := by
  simp only [Function.update_apply]
  split
  · next isIp => rw [isIp]
  · split
    · next isDp => rw [isDp]
    · rfl

theorem Change.type (changed : Change sb w t) (sound : (w.view ops).Sound) (used : 0 < w.base i) :
    (t.inode i).type = (w.inode i).type := by
  have allocated : (w.inode i).type ≠ .free := sound.base i used
  cases changed with
  | create dp name ip type major minor typed unused =>
    have old : i ≠ ip := by
      rintro rfl
      exact allocated unused
    rw [sweep_type (by exact used), created_type old]
  | link dp name ip => rw [sweep_type (by exact used), linked_type]
  | unlink dp name k ip =>
    rw [sweep_type (by rw [sweep_base]; exact used), sweep_type (by exact used), unlinked_type]

theorem Fits.change (fits : Fits w tables) (changed : Perhaps sb w t) (sound : (w.view ops).Sound) : Fits t tables := by
  cases changed with
  | inl same => exact same ▸ fits
  | inr changed => exact fits.world (congrFun changed.base) fun i used => changed.type sound used

abbrev Done (sb : Superblock) (w : World) (ops : Nat) (after : Tables) (u : View) : Prop :=
  ∃ t, Effect sb w t ∧ Fits t after ∧ u = t.view ops

theorem Handled.done {after : Tables} {u : View} (handled : Handled sb w ops after u) : Done sb w ops after u := by
  obtain ⟨t, moves, fits, reached⟩ := handled
  exact ⟨t, .quiet moves, fits, reached⟩

theorem Perhaps.effect (changed : Perhaps sb w t) : Effect sb w t := by
  cases changed with
  | inl same => exact same ▸ .quiet .refl
  | inr changed => exact .change changed

section

variable (fits : Fits w tables) (isProc : tables.proc p = some proc)
include fits

theorem leads_named {code : Code (Int × Tables)}
    (leads : Leads faults sb (w.view ops) code (Named sb w tables ops)) :
    Leads faults sb (w.view ops) code fun r u => Done sb w ops r.2 u := by
  apply leads_of_sound
  intro sound
  apply leads.weaken
  intro r u reached
  obtain ⟨sameTables, t, changed, _, equal⟩ := reached
  rw [sameTables]
  exact ⟨t, changed.effect, fits.change changed sound, equal⟩

include isProc

theorem Fits.setFd {fd : Fd} {value : Option FileId} : Fits w (tables.setProc p (proc.setFd fd value)) := by
  apply fits.setProc
  · intro i
    rw [isProc]
    rfl
  · exact fun _ _ => rfl

theorem leads_sysDup {fd : Fd} :
    Leads faults sb (w.view ops) (sysDup tables p proc fd) fun r u => Handled sb w ops r.2 u := by
  unfold sysDup
  cases proc.ofile fd with
  | none => exact .pure ⟨w, .refl, fits, rfl⟩
  | some f =>
    cases fdalloc proc with
    | none => exact .pure ⟨w, .refl, fits, rfl⟩
    | some new =>
      apply Script.Leads.bind (leads_filedup fits)
      intro after u reached
      obtain ⟨sameProc, fitsAfter, rfl⟩ := reached
      exact .pure ⟨w, .refl, fitsAfter.setFd (by rw [sameProc]; exact isProc), rfl⟩

theorem leads_sysClose {fd : Fd} :
    Leads faults sb (w.view ops) (sysClose tables p proc fd) fun r u => Handled sb w ops r.2 u := by
  unfold sysClose
  cases proc.ofile fd with
  | none => exact .pure ⟨w, .refl, fits, rfl⟩
  | some f =>
    apply Script.Leads.bind (leads_fileclose (fits.setFd isProc))
    intro after u reached
    exact .pure reached.2

omit isProc in
theorem leads_dupFiles {fds : List Fd} :
    Leads faults sb (w.view ops) (dupFiles tables proc fds) fun after u =>
      after.proc = tables.proc ∧ Fits w after ∧ u = w.view ops := by
  induction fds generalizing tables with
  | nil => exact .pure ⟨rfl, fits, rfl⟩
  | cons fd rest ih =>
    unfold dupFiles
    cases proc.ofile fd with
    | none => exact ih fits
    | some f =>
      apply Script.Leads.bind (leads_filedup fits)
      intro after u reached
      obtain ⟨sameProc, fitsAfter, rfl⟩ := reached
      apply (ih fitsAfter).weaken
      intro last u reached
      exact ⟨reached.1.trans sameProc, reached.2⟩

theorem leads_fork {child : Option Slot} :
    Leads faults sb (w.view ops) (fork tables child proc) fun r u => Handled sb w ops r.2 u := by
  apply leads_of_sound
  intro sound
  cases child with
  | none => exact .pure ⟨w, .refl, fits, rfl⟩
  | some child =>
    unfold fork
    simp only
    split
    · exact .pure ⟨w, .refl, fits, rfl⟩
    · rename_i isFree
      have used := fits.cwd_used isProc
      have allocated : (w.inode proc.cwd).type ≠ .free := sound.base proc.cwd used
      apply Script.Leads.bind (leads_dupFiles fits)
      intro after u reached
      obtain ⟨sameProc, fitsAfter, rfl⟩ := reached
      apply Script.Leads.seq (leads_idup (.inl used))
      have fitsChild : Fits (w.hold proc.cwd) (after.setProc child (some proc)) := by
        apply fitsAfter.setProc
        · intro i
          have noChild : cwdRefs (after.proc child) i = 0 := by
            rw [sameProc, Option.not_isSome_iff_eq_none.mp isFree]
            rfl
          rw [noChild, hold_base]
          simp [cwdRefs]
        · exact fun _ _ => rfl
      apply Script.Leads.of_view ((w.hold proc.cwd).view ops)
      · exact .pure ⟨_, .single (.hold _ allocated), fitsChild, rfl⟩
      · exact fun state known => known.keep (fun _ => no_locks) allocated

omit isProc in
theorem leads_closeFiles {fds : List Fd} :
    Leads faults sb (w.view ops) (closeFiles tables proc fds) fun after u =>
      after.proc = tables.proc ∧ Handled sb w ops after u := by
  induction fds generalizing tables w with
  | nil => exact .pure ⟨rfl, w, .refl, fits, rfl⟩
  | cons fd rest ih =>
    unfold closeFiles
    cases proc.ofile fd with
    | none => exact ih fits
    | some f =>
      apply Script.Leads.bind (leads_fileclose fits)
      intro after u reached
      obtain ⟨sameProc, t, moves, fitsAfter, rfl⟩ := reached
      apply (ih fitsAfter).weaken
      intro last u reached
      obtain ⟨sameLast, x, more, fitsLast, equal⟩ := reached
      exact ⟨sameLast.trans sameProc, x, moves.trans more, fitsLast, equal⟩

omit fits isProc in
theorem Fits.leave {new : Option Proc} (fits : Fits w tables) (isProc : tables.proc p = some proc)
    (refs : ∀ i, t.base i = w.base i + cwdRefs new i) (type : ∀ i, (t.inode i).type = (w.inode i).type) :
    Fits (t.drop proc.cwd) (tables.setProc p new) := by
  have used := fits.cwd_used isProc
  apply fits.setProc
  · intro i
    rw [isProc, sweep_base]
    by_cases same : i = proc.cwd
    · have counted : cwdRefs (some proc) i = 1 := by simp [cwdRefs, same]
      have grown := refs i
      rw [counted]
      subst i
      rw [setBase_self]
      omega
    · have counted : cwdRefs (some proc) i = 0 := by simp [cwdRefs, Ne.symm same]
      rw [counted, setBase_of_ne same, refs, Nat.add_zero]
  · intro i inUse
    rw [sweep_base] at inUse
    rw [sweep_type inUse]
    exact type i

theorem leads_exit :
    Leads faults sb (w.view ops) (exit tables p proc) fun r u => Handled sb w ops r.2 u := by
  unfold exit
  split
  · exact .stop (by simp [Fine])
  · apply Script.Leads.bind (leads_closeFiles fits)
    intro after u reached
    obtain ⟨sameProc, t, moves, fitsAfter, rfl⟩ := reached
    have isProcAfter : after.proc p = some proc := by
      rw [sameProc]
      exact isProc
    have used := fitsAfter.cwd_used isProcAfter
    apply Script.Leads.seq leads_beginOp
    apply Script.Leads.seq (leads_iput_table used)
    apply Script.Leads.bind (leads_endOp (Nat.succ_pos ops))
    intro _ u reached
    refine .pure ⟨_, moves.tail (.drop _ used), ?_, reached⟩
    exact fitsAfter.leave isProcAfter (fun _ => rfl) fun _ => rfl

theorem leads_sysChdir {path : Option (List Byte)} (walkable : Walkable faults w.inode) :
    Leads faults sb (w.view ops) (sysChdir tables p proc path) fun r u =>
      Handled sb w ops r.2 u ∧ (r.1 = -1 → r.2 = tables ∧ u = w.view ops) := by
  have used := fits.cwd_used isProc
  have failed : Leads faults sb (w.view (ops + 1)) (do endOp; pure ((-1 : Int), tables)) fun r u =>
      Handled sb w ops r.2 u ∧ (r.1 = -1 → r.2 = tables ∧ u = w.view ops) := by
    apply Script.Leads.bind (leads_endOp (Nat.succ_pos ops))
    intro _ u reached
    exact .pure ⟨⟨w, .refl, fits, reached⟩, fun _ => ⟨rfl, reached⟩⟩
  apply Script.Leads.seq leads_beginOp
  cases path with
  | none => exact failed
  | some path =>
    apply leads_found walkable used fun _ => rfl
    · exact failed
    · intro ip allocated
      have unlocked := Finset.notMem_empty ip
      apply Script.Leads.bind (leads_fields View.mem_lock)
      intro fields u reached
      obtain ⟨rfl, rfl⟩ := reached
      split
      · apply Script.Leads.seq (leads_iunlockput_own no_exempt unlocked)
        exact failed
      · apply Script.Leads.bind (leads_iunlock View.mem_lock)
        intro _ u reached
        rw [Finset.erase_insert unlocked] at reached
        subst u
        -- the new directory is referred to before the old one is given up
        apply Script.Leads.of_view ((w.hold ip).view (ops + 1))
        · have usedAfter : 0 < (w.hold ip).base proc.cwd := by
            rw [hold_base]
            exact Nat.add_pos_left used _
          apply Script.Leads.seq (leads_iput_table usedAfter)
          apply Script.Leads.bind (leads_endOp (Nat.succ_pos ops))
          intro _ u reached
          refine .pure ⟨⟨_, .tail (.single (.hold ip allocated)) (.drop _ usedAfter), ?_, reached⟩, nofun⟩
          refine fits.leave isProc ?_ (fun _ => rfl)
          intro i
          rw [hold_base]
          simp [cwdRefs]
        · exact fun state known => known.keep (fun _ => no_locks) allocated

omit isProc in
/-- `sys_open` with the inode locked; only an inode that is no directory is opened for writing. -/
theorem leads_openFile {omode : BitVec 32} (isProc : tables.proc p = some proc) (allocated : (w.inode ip).type ≠ .free)
    (readOnly : (w.inode ip).type = .dir → omode = 0) :
    Leads faults sb (((w.view (ops + 1)).hold ip).lock ip) (openFile tables p proc ip omode) fun r u =>
      (r.2 = tables ∧ u = w.view ops) ∨ (Fits (w.hold ip) r.2 ∧ u = (w.hold ip).view ops) := by
  unfold openFile
  cases found : filealloc tables with
  | none =>
    apply Script.Leads.seq (leads_iunlockput_own no_exempt (Finset.notMem_empty ip))
    apply Script.Leads.bind (leads_endOp (Nat.succ_pos ops))
    intro _ u reached
    exact .pure (.inl ⟨rfl, reached⟩)
  | some f =>
    have unused : (tables.file f).ref = 0 := by
      have isFree := List.find?_some found
      simpa using isFree
    have noType := fits.closed f unused
    -- until its type is set, the file refers to nothing
    have fitsTaken : Fits w (tables.setFile f { tables.file f with ref := 1 }) := by
      apply fits.setFile
      · intro i
        simp [File.refs, noType]
      · exact fun _ _ => rfl
      · exact fun _ => noType
      · exact fits.writable f
    have noRefs (i : Inum) : ((tables.setFile f { tables.file f with ref := 1 }).file f).refs i = 0 := by
      simp [setFile_self, File.refs, noType]
    simp only
    cases free : fdalloc proc with
    | none =>
      rw [fileclose_unused unused noType]
      apply Script.Leads.seq (leads_iunlockput_own no_exempt (Finset.notMem_empty ip))
      apply Script.Leads.bind (leads_endOp (Nat.succ_pos ops))
      intro _ u reached
      exact .pure (.inl ⟨rfl, reached⟩)
    | some fd =>
      apply Script.Leads.bind (leads_iunlock View.mem_lock)
      intro _ u reached
      rw [Finset.erase_insert (Finset.notMem_empty ip)] at reached
      subst u
      apply Script.Leads.of_view ((w.hold ip).view (ops + 1))
      · apply Script.Leads.bind (leads_endOp (Nat.succ_pos ops))
        intro _ u reached
        refine .pure (.inr ⟨(fitsTaken.setFile (t := w.hold ip) ?_ (fun _ _ => rfl) ?_ ?_).setFd isProc, reached⟩)
        · intro i
          rw [noRefs, hold_base]
          simp [File.refs]
        · exact fun isZero => absurd isZero Nat.one_ne_zero
        · intro _ writes isDir
          rw [readOnly isDir] at writes
          simp at writes
      · exact fun state known => known.keep (fun _ => no_locks) allocated

theorem leads_sysOpen {args : Option (List Byte × BitVec 32)} (walkable : Walkable faults w.inode) :
    Leads faults sb (w.view ops) (sysOpen tables p proc args) fun r u => Done sb w ops r.2 u := by
  apply leads_of_sound
  intro sound
  cases args with
  | none => exact .pure ⟨w, .quiet .refl, fits, rfl⟩
  | some args =>
    apply Script.Leads.seq leads_beginOp
    apply Script.Leads.bind (leads_openInode walkable (fits.cwd_used isProc))
    intro r u reached
    cases reached with
    | inl failed =>
      obtain ⟨rfl, rfl⟩ := failed
      apply Script.Leads.seq (leads_endOp (Nat.succ_pos ops))
      exact .pure ⟨w, .quiet .refl, fits, rfl⟩
    | inr found =>
      obtain ⟨t, ip, rfl, made, allocated, readOnly, rfl⟩ := found
      have fitsMade := fits.change made sound
      apply (leads_openFile fitsMade isProc allocated readOnly).weaken
      intro r u reached
      cases reached with
      | inl failed => exact ⟨t, made.effect, failed.1 ▸ fitsMade, failed.2⟩
      | inr opened =>
        refine ⟨_, ?_, opened.1, opened.2⟩
        cases made with
        | inl same => exact same ▸ .quiet (.single (.hold ip allocated))
        | inr changed => exact .changeHold changed ip allocated

/-- Every call has one of the effects, and keeps the references those of the tables. -/
theorem leads_serve {c : Call} (walkable : Walkable faults w.inode)
    (waits : ∀ old new, c = .link (some (old, new)) → SelfNamed w.inode proc.cwd new → faults.deadlock) :
    Leads faults sb (w.view ops) (serve tables p proc c) fun r u => Done sb w ops r.2 u := by
  have used := fits.cwd_used isProc
  cases c with
  | «open» args => exact leads_sysOpen fits isProc walkable
  | mkdir path => exact leads_named fits (leads_sysMkdir walkable used)
  | mknod args => exact leads_named fits (leads_sysMknod walkable used)
  | link args =>
    apply leads_named fits (leads_sysLink walkable used _)
    intro old new same
    exact waits old new (by rw [same])
  | unlink path => exact leads_named fits (leads_sysUnlink walkable used)
  | chdir path => exact (leads_sysChdir fits isProc walkable).weaken fun _ _ reached => reached.1.done
  | exec args => exact leads_named fits (leads_exec walkable used)
  | dup fd => exact (leads_sysDup fits isProc).weaken fun _ _ => Handled.done
  | read fd n => exact (leads_sysRead fits).weaken fun _ _ => Handled.done
  | write fd src => exact (leads_sysWrite fits).weaken fun _ _ => Handled.done
  | close fd => exact (leads_sysClose fits isProc).weaken fun _ _ => Handled.done
  | fork child => exact (leads_fork fits isProc).weaken fun _ _ => Handled.done
  | exit => exact (leads_exit fits isProc).weaken fun _ _ => Handled.done

end

end Xv6.Fs
