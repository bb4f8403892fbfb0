import Xv6.Fs.View

namespace Xv6.Fs

open Xv6.Data Xv6.Disk

/-! # Directories and paths in a view -/

structure Readable (data : List Byte) : Prop where
  aligned : Aligned data
  small : data.length ≤ MAXFILE * BSIZE

variable {faults : Faults} {sb : Superblock} {v : View} {dp : Inum} {data name : List Byte}

theorem offsets_zero (aligned : Aligned data) :
    offsets 0 data.length = (List.range (slots data)).map (DIRENTSIZE * ·) := by
  have length := aligned.length
  have count : (data.length - 0 + (DIRENTSIZE - 1)) / DIRENTSIZE = slots data := by
    simp only [DIRENTSIZE, DIRSIZ] at length ⊢
    omega
  rw [offsets, count]
  simp only [Nat.zero_add]

theorem offsets_two (aligned : Aligned data) :
    offsets (2 * DIRENTSIZE) data.length = ((List.range (slots data - 2)).map (2 + ·)).map (DIRENTSIZE * ·) := by
  have length := aligned.length
  have count : (data.length - 2 * DIRENTSIZE + (DIRENTSIZE - 1)) / DIRENTSIZE = slots data - 2 := by
    simp only [DIRENTSIZE, DIRSIZ] at length ⊢
    omega
  rw [offsets, count, List.map_map]
  apply List.map_congr_left
  intro k _
  simp only [Function.comp, DIRENTSIZE, DIRSIZ]
  omega

def taken (data : List Byte) (k : Nat) : Code (Option (Inum × Nat)) := do
  iget (direntAt data k).inum.toNat
  pure (some ((direntAt data k).inum.toNat, DIRENTSIZE * k))

section

variable {s : Store} (isLocked : (s.entry dp).locked = true) (isValid : (s.entry dp).valid = true)
  (isDir : (s.inode dp).type = .dir) (readable : Readable (s.inode dp).data)
include isLocked isValid isDir readable

theorem run_readDirent {k : Nat} {message : Panic} (below : k < slots (s.inode dp).data) :
    (readDirent dp (DIRENTSIZE * k) message).run (Store.handle sb) s = .ok (direntAt (s.inode dp).data k, s) := by
  have length := readable.aligned.length
  have small := readable.small
  have inside : DIRENTSIZE * k + DIRENTSIZE ≤ (s.inode dp).data.length := by
    rw [length, ← Nat.mul_succ]
    exact Nat.mul_le_mul_left _ below
  have word : DIRENTSIZE * k + DIRENTSIZE < 2 ^ 32 := by
    simp only [MAXFILE, NDIRECT, NINDIRECT, BSIZE] at small
    omega
  have whole : (((s.inode dp).data.drop (DIRENTSIZE * k)).take DIRENTSIZE).length = DIRENTSIZE := by
    simp
    omega
  have notDev : (s.inode dp).type ≠ .dev := by
    rw [isDir]
    decide
  have read : s.readi dp (DIRENTSIZE * k) DIRENTSIZE =
      .ok (some (((s.inode dp).data.drop (DIRENTSIZE * k)).take DIRENTSIZE), s) := by
    rw [Store.readi, Store.locked, if_pos ⟨isLocked, isValid⟩]
    simp only [notDev, ↓reduceIte]
    rw [if_neg (by omega)]
  rw [readDirent, Script.run_bind, run_readi, read]
  change (if _ then pure _ else panic message : Code Dirent).run (Store.handle sb) s = _
  rw [if_pos whole]
  rfl

theorem run_isdiremptyLoop (ks : List Nat) (below : ∀ k ∈ ks, k < slots (s.inode dp).data) :
    ∃ r, (isdiremptyLoop dp (ks.map (DIRENTSIZE * ·))).run (Store.handle sb) s = .ok (r, s) ∧
      (r = true ↔ ∀ k ∈ ks, (direntAt (s.inode dp).data k).inum = 0) := by
  induction ks with
  | nil => exact ⟨true, rfl, by simp⟩
  | cons k rest ih =>
    obtain ⟨r, ran, exact⟩ := ih fun j inRest => below j (List.mem_cons_of_mem _ inRest)
    have read : (readDirent dp (DIRENTSIZE * k) .isdirempty).run (Store.handle sb) s = _ :=
      run_readDirent isLocked isValid isDir readable (below k List.mem_cons_self)
    simp only [List.map_cons, isdiremptyLoop, Script.run_bind, read, List.forall_mem_cons]
    by_cases free : (direntAt (s.inode dp).data k).inum = 0
    · refine ⟨r, ?_, ?_⟩
      · change (if _ then _ else _ : Code Bool).run (Store.handle sb) s = _
        rw [if_neg (not_not.mpr free)]
        exact ran
      · rw [exact]
        exact ⟨fun all => ⟨free, all⟩, fun all => all.2⟩
    · refine ⟨false, ?_, fun isTrue => absurd isTrue (by decide), fun all => absurd all.1 free⟩
      change (if _ then _ else _ : Code Bool).run (Store.handle sb) s = _
      rw [if_pos free]
      rfl

theorem run_isdirempty :
    ∃ r, (isdirempty dp).run (Store.handle sb) s = .ok (r, s) ∧ (r = true ↔ Empty (s.inode dp).data) := by
  have inRange (k : Nat) (inside : k ∈ (List.range (slots (s.inode dp).data - 2)).map (2 + ·)) :
      2 ≤ k ∧ k < slots (s.inode dp).data := by
    obtain ⟨j, inRest, rfl⟩ := List.mem_map.mp inside
    have below := List.mem_range.mp inRest
    omega
  obtain ⟨r, ran, exact⟩ : ∃ r, (isdiremptyLoop dp _).run (Store.handle sb) s = .ok (r, s) ∧ _ :=
    run_isdiremptyLoop isLocked isValid isDir readable ((List.range (slots (s.inode dp).data - 2)).map (2 + ·))
      fun k inside => (inRange k inside).2
  refine ⟨r, ?_, exact.trans ⟨?_, ?_⟩⟩
  · rw [isdirempty, Script.run_bind, run_fields, Store.locked, if_pos ⟨isLocked, isValid⟩]
    change (isdiremptyLoop dp (offsets (2 * DIRENTSIZE) (s.inode dp).data.length)).run (Store.handle sb) s = _
    rw [offsets_two readable.aligned]
    exact ran
  · intro all k atLeast below
    apply all
    exact List.mem_map.mpr ⟨k - 2, List.mem_range.mpr (by omega), by omega⟩
  · intro all k inside
    obtain ⟨atLeast, below⟩ := inRange k inside
    exact all k atLeast below

theorem run_dirlookupLoop (ks : List Nat) (below : ∀ k ∈ ks, k < slots (s.inode dp).data) :
    (dirlookupLoop dp name (ks.map (DIRENTSIZE * ·))).run (Store.handle sb) s =
      match ks.find? fun k => (direntAt (s.inode dp).data k).inum ≠ 0 ∧
          namecmp name (direntAt (s.inode dp).data k).name = 0 with
      | none => .ok (none, s)
      | some k => (taken (s.inode dp).data k).run (Store.handle sb) s := by
  induction ks with
  | nil => rfl
  | cons k rest ih =>
    have tail := ih fun j inRest => below j (List.mem_cons_of_mem _ inRest)
    have read : (readDirent dp (DIRENTSIZE * k) .dirlookupRead).run (Store.handle sb) s = _ :=
      run_readDirent isLocked isValid isDir readable (below k List.mem_cons_self)
    simp only [List.map_cons, dirlookupLoop, Script.run_bind, read, List.find?_cons]
    change (if _ then _ else if _ then _ else _ : Code (Option (Inum × Nat))).run (Store.handle sb) s = _
    by_cases free : (direntAt (s.inode dp).data k).inum = 0
    · simp only [free, ↓reduceIte, ne_eq, not_true_eq_false, false_and, decide_false]
      exact tail
    · by_cases same : namecmp name (direntAt (s.inode dp).data k).name = 0
      · simp only [free, same, ↓reduceIte, ne_eq, not_false_eq_true, and_self, decide_true]
        rfl
      · simp only [free, same, ↓reduceIte, and_false, decide_false]
        exact tail

theorem run_dirlookup : (dirlookup dp name).run (Store.handle sb) s =
      match lookup (s.inode dp).data name with
      | none => .ok (none, s)
      | some k => (taken (s.inode dp).data k).run (Store.handle sb) s := by
  rw [dirlookup, Script.run_bind, run_fields, Store.locked, if_pos ⟨isLocked, isValid⟩]
  change (if _ then _ else _ : Code (Option (Inum × Nat))).run (Store.handle sb) s = _
  simp only [Inode.fields, isDir, ne_eq, not_true_eq_false, ↓reduceIte, offsets_zero readable.aligned]
  exact run_dirlookupLoop isLocked isValid isDir readable _ fun k inRange => List.mem_range.mp inRange

end

theorem leads_taken (data : List Byte) (k : Nat) : Leads faults sb v (taken data k) fun r w =>
      r = some ((direntAt data k).inum.toNat, DIRENTSIZE * k) ∧ w = v.hold (direntAt data k).inum.toNat := by
  apply Script.Leads.bind (leads_iget _)
  intro _ w reached
  exact .pure ⟨rfl, reached⟩

section

variable (member : dp ∈ v.locks) (isDir : (v.inode dp).type = .dir) (readable : Readable (v.inode dp).data)
include member isDir readable

theorem leads_readDirent {k : Nat} {message : Panic} (below : k < slots (v.inode dp).data) :
    Leads faults sb v (readDirent dp (DIRENTSIZE * k) message) fun de w =>
      de = direntAt (v.inode dp).data k ∧ w = v := by
  intro s known
  have isLocked := (known.locks dp).mpr member
  have isValid := (known.locked dp member).2
  rw [← known.inode] at isDir readable below ⊢
  rw [run_readDirent isLocked isValid isDir readable below]
  exact .ok ⟨v, ⟨rfl, rfl⟩, known⟩

theorem leads_dirlookup : Leads faults sb v (dirlookup dp name) fun r w =>
      match lookup (v.inode dp).data name with
      | none => r = none ∧ w = v
      | some k =>
        let inum := (direntAt (v.inode dp).data k).inum.toNat
        r = some (inum, DIRENTSIZE * k) ∧ w = v.hold inum := by
  intro s known
  have isLocked := (known.locks dp).mpr member
  have isValid := (known.locked dp member).2
  rw [← known.inode] at isDir readable ⊢
  rw [run_dirlookup isLocked isValid isDir readable]
  cases lookup (s.inode dp).data name with
  | none => exact .ok ⟨v, ⟨rfl, rfl⟩, known⟩
  | some k => exact leads_taken _ k s known

theorem leads_emptyDirent (ks : List Nat) (last : Nat) (below : ∀ k ∈ ks, k < slots (v.inode dp).data) :
    Leads faults sb v (emptyDirent dp (DIRENTSIZE * last) (ks.map (DIRENTSIZE * ·))) fun off w =>
      off = DIRENTSIZE * (ks.find? fun k => (direntAt (v.inode dp).data k).inum = 0).getD last ∧ w = v := by
  induction ks with
  | nil => exact .pure ⟨rfl, rfl⟩
  | cons k rest ih =>
    have tail := ih fun j inRest => below j (List.mem_cons_of_mem _ inRest)
    simp only [List.map_cons, emptyDirent]
    apply Script.Leads.bind (leads_readDirent member isDir readable (below k List.mem_cons_self))
    intro de w reached
    obtain ⟨rfl, rfl⟩ := reached
    rw [List.find?_cons]
    by_cases free : (direntAt (w.inode dp).data k).inum = 0
    · simp only [free, ↓reduceIte, decide_true, Option.getD_some]
      exact .pure ⟨rfl, rfl⟩
    · simp only [free, ↓reduceIte, decide_false]
      exact tail

theorem leads_isdirempty :
    Leads faults sb v (isdirempty dp) fun r w => (r = true ↔ Empty (v.inode dp).data) ∧ w = v := by
  intro s known
  have isLocked := (known.locks dp).mpr member
  have isValid := (known.locked dp member).2
  rw [← known.inode] at isDir readable ⊢
  obtain ⟨r, ran, exact⟩ := run_isdirempty isLocked isValid isDir readable
  rw [ran]
  exact .ok ⟨v, ⟨exact, rfl⟩, known⟩

theorem leads_dirlink {inum : Inum} (exempt : ∀ j ∈ v.exempt, j ∈ v.held)
    (waits : ∀ k, lookup (v.inode dp).data name = some k →
      (direntAt (v.inode dp).data k).inum.toNat ∈ v.locks → faults.deadlock) :
    Leads faults sb v (dirlink dp name inum) fun r w =>
      match lookup (v.inode dp).data name with
      | some _ => r = false ∧ w = v
      | none =>
        let data := addEntry (v.inode dp).data name inum
        r = true ∧ w = v.setInode dp { v.inode dp with data } ∧ data.length ≤ MAXFILE * BSIZE ∧
          usedBlocks sb w.inode ≤ sb.nblocks := by
  apply Script.Leads.bind (leads_dirlookup member isDir readable)
  intro r w reached
  cases found : lookup (v.inode dp).data name with
  | some k =>
    simp only [found] at reached
    obtain ⟨rfl, rfl⟩ := reached
    apply Script.Leads.bind (leads_iput_own exempt (waits k found))
    intro _ u reached
    exact .pure ⟨rfl, reached.2⟩
  | none =>
    simp only [found] at reached
    obtain ⟨rfl, rfl⟩ := reached
    apply Script.Leads.bind (leads_fields member)
    intro f u reached
    obtain ⟨rfl, rfl⟩ := reached
    simp only [Inode.fields, offsets_zero readable.aligned, List.length_map, List.length_range]
    apply Script.Leads.bind (leads_emptyDirent member isDir readable _ _ fun k inRange => List.mem_range.mp inRange)
    intro off t reached
    obtain ⟨rfl, rfl⟩ := reached
    have size : (Dirent.bytes ⟨BitVec.ofNat 16 inum, strncpy name DIRSIZ⟩).length = DIRENTSIZE := by
      rw [Dirent.length_bytes, length_strncpy]
    change Leads faults sb t (writei dp (DIRENTSIZE * freeSlot (t.inode dp).data) _ >>= _) _
    apply Script.Leads.bind (leads_writei member (by rw [isDir]; decide))
    intro r w reached
    cases reached with
    | inl failed =>
      rw [failed.1, if_neg (by simp)]
      exact .stop (by simp [Fine])
    | inr written =>
      obtain ⟨rfl, inside, room, rfl, blocks⟩ := written
      rw [if_pos (by rw [size])]
      refine .pure ⟨rfl, rfl, ?_, blocks⟩
      rw [addEntry, length_overwrite inside]
      exact Nat.max_le.mpr ⟨readable.small, room⟩

theorem leads_dirlink_absent {inum : Inum} (exempt : ∀ j ∈ v.exempt, j ∈ v.held)
    (absent : lookup (v.inode dp).data name = none) :
    Leads faults sb v (dirlink dp name inum) fun r w =>
      let data := addEntry (v.inode dp).data name inum
      r = true ∧ w = v.setInode dp { v.inode dp with data } ∧ data.length ≤ MAXFILE * BSIZE ∧
        usedBlocks sb w.inode ≤ sb.nblocks := by
  refine (leads_dirlink member isDir readable exempt ?_).weaken ?_
  · intro k found
    rw [absent] at found
    cases found
  · intro r w reached
    rw [absent] at reached
    exact reached

end

def resolve (inode : Inum → Inode) (parent : Bool) : Inum → List (List Byte) → Option (Inum × List Byte)
  | ip, [] => if parent then none else some (ip, [])
  | ip, name :: rest =>
    if (inode ip).type ≠ .dir then none
    else if parent ∧ rest = [] then some (ip, name)
    else
      match lookup (inode ip).data name with
      | none => none
      | some k => resolve inode parent (direntAt (inode ip).data k).inum.toNat rest

def start (cwd : Inum) (path : List Byte) : Inum := if path.headD 0 = slash then ROOTINO else cwd

def resolveParent (inode : Inum → Inode) (cwd : Inum) (path : List Byte) : Option (Inum × List Byte) :=
  resolve inode true (start cwd path) (elements path)

/-- A walk depends on the types and the data. -/
theorem resolve_congr {inode other : Inum → Inode} (type : ∀ i, (other i).type = (inode i).type)
    (data : ∀ i, (other i).data = (inode i).data) (parent : Bool) (names : List (List Byte)) (ip : Inum) :
    resolve other parent ip names = resolve inode parent ip names := by
  induction names generalizing ip with
  | nil => rfl
  | cons name rest ih =>
    simp only [resolve, type, data]
    cases lookup (inode ip).data name with
    | none => rfl
    | some k => simp only [ih]

/-- Every directory can be read and has itself only under the names `.` and `..`; an
entry may name a free inode only if that is one of the faults. -/
structure Walkable (faults : Faults) (inode : Inum → Inode) : Prop where
  root : (inode ROOTINO).type = .free → faults.dangling
  readable : ∀ i, (inode i).type = .dir → Readable (inode i).data
  target : ∀ i k, (inode i).type = .dir → k < slots (inode i).data → (direntAt (inode i).data k).inum ≠ 0 →
    (inode (direntAt (inode i).data k).inum.toNat).type = .free → faults.dangling
  own : ∀ i name k, (inode i).type = .dir → lookup (inode i).data name = some k →
    (direntAt (inode i).data k).inum.toNat = i → namecmp name dot = 0 ∨ namecmp name dotdot = 0

/-- What a walk uses of the operations it calls.  It is stated for any set of allowed
stops and any knowledge of the states, so that a walk can be looked at with and
without the limits of the inode cache. -/
structure WalkRules (faults : Faults) (sb : Superblock) (fine : Stop → Prop) (shows : View → Store → Prop)
    (v : View) : Prop where
  root : Script.Leads (Store.handle sb) fine shows v (iget ROOTINO) fun _ w => w = v.hold ROOTINO
  duplicate : ∀ ip, 0 < v.base ip → Script.Leads (Store.handle sb) fine shows v (idup ip) fun _ w => w = v.hold ip
  lock : ∀ ip, ((v.inode ip).type = .free → faults.dangling) →
    Script.Leads (Store.handle sb) fine shows (v.hold ip) (ilock ip) fun _ w => w = (v.hold ip).lock ip
  look : ∀ ip, Script.Leads (Store.handle sb) fine shows ((v.hold ip).lock ip) (fields ip) fun f w =>
    f = (v.inode ip).fields ∧ w = (v.hold ip).lock ip
  unlock : ∀ ip, Script.Leads (Store.handle sb) fine shows ((v.hold ip).lock ip) (iunlock ip) fun _ w => w = v.hold ip
  search : ∀ ip name, (v.inode ip).type = .dir →
    Script.Leads (Store.handle sb) fine shows ((v.hold ip).lock ip) (dirlookup ip name) fun r w =>
      match lookup (v.inode ip).data name with
      | none => r = none ∧ w = (v.hold ip).lock ip
      | some k =>
        let inum := (direntAt (v.inode ip).data k).inum.toNat
        r = some (inum, DIRENTSIZE * k) ∧ w = ((v.hold ip).lock ip).hold inum
  drop : ∀ ip, Script.Leads (Store.handle sb) fine shows (v.hold ip) (iput ip) fun _ w => w = v
  release : ∀ ip, Script.Leads (Store.handle sb) fine shows ((v.hold ip).lock ip) (iunlockput ip) fun _ w => w = v
  advance : ∀ ip next, Script.Leads (Store.handle sb) fine shows (((v.hold ip).lock ip).hold next) (iunlockput ip)
    fun _ w => w = v.hold next

section

variable {fine : Stop → Prop} {shows : View → Store → Prop} (rules : WalkRules faults sb fine shows v)
  (target : ∀ i k, (v.inode i).type = .dir → k < slots (v.inode i).data → (direntAt (v.inode i).data k).inum ≠ 0 →
    (v.inode (direntAt (v.inode i).data k).inum.toNat).type = .free → faults.dangling)
include rules target

theorem WalkRules.namexLoop (parent : Bool) (names : List (List Byte)) (ip : Inum)
    (dangles : (v.inode ip).type = .free → faults.dangling) :
    Script.Leads (Store.handle sb) fine shows (v.hold ip) (namexLoop parent ip names) fun r w =>
      r = resolve v.inode parent ip names ∧
      ((r = none ∧ w = v) ∨ ∃ found name, r = some (found, name) ∧ w = v.hold found ∧
        ((v.inode found).type = .free → faults.dangling) ∧ (parent = true → (v.inode found).type = .dir)) := by
  induction names generalizing ip with
  | nil =>
    simp only [Fs.namexLoop]
    cases parent with
    | true =>
      apply Script.Leads.bind (rules.drop ip)
      intro _ w reached
      exact .pure ⟨rfl, .inl ⟨rfl, reached⟩⟩
    | false => exact .pure ⟨rfl, .inr ⟨ip, [], rfl, rfl, dangles, fun isParent => absurd isParent (by decide)⟩⟩
  | cons name rest ih =>
    simp only [Fs.namexLoop, resolve]
    apply Script.Leads.seq (rules.lock ip dangles)
    apply Script.Leads.bind (rules.look ip)
    intro f w reached
    obtain ⟨rfl, rfl⟩ := reached
    by_cases isDir : (v.inode ip).type = .dir
    · simp only [Inode.fields, isDir, ne_eq, not_true_eq_false, ↓reduceIte]
      by_cases last : parent = true ∧ rest = []
      · simp only [last, and_self, ↓reduceIte]
        apply Script.Leads.bind (rules.unlock ip)
        intro _ w reached
        exact .pure ⟨rfl, .inr ⟨ip, name, rfl, reached, dangles, fun _ => isDir⟩⟩
      · simp only [last, ↓reduceIte]
        apply Script.Leads.bind (rules.search ip name isDir)
        intro r w reached
        cases found : lookup (v.inode ip).data name with
        | none =>
          simp only [found] at reached
          obtain ⟨rfl, rfl⟩ := reached
          apply Script.Leads.bind (rules.release ip)
          intro _ w reached
          exact .pure ⟨rfl, .inl ⟨rfl, reached⟩⟩
        | some k =>
          simp only [found] at reached
          obtain ⟨rfl, rfl⟩ := reached
          obtain ⟨below, live, _⟩ := lookup_some found
          apply Script.Leads.seq (rules.advance ip _)
          exact ih _ (target ip k isDir below live)
    · simp only [Inode.fields, isDir, ne_eq, not_false_eq_true, ↓reduceIte]
      apply Script.Leads.bind (rules.release ip)
      intro _ w reached
      exact .pure ⟨rfl, .inl ⟨rfl, reached⟩⟩

variable {path : List Byte}

theorem WalkRules.namex {cwd : Inum} {parent : Bool} (inUse : 0 < v.base cwd)
    (root : (v.inode ROOTINO).type = .free → faults.dangling) (allocated : (v.inode cwd).type ≠ .free) :
    Script.Leads (Store.handle sb) fine shows v (namex cwd path parent) fun r w =>
      r = resolve v.inode parent (start cwd path) (elements path) ∧
      ((r = none ∧ w = v) ∨ ∃ found name, r = some (found, name) ∧ w = v.hold found ∧
        ((v.inode found).type = .free → faults.dangling) ∧ (parent = true → (v.inode found).type = .dir)) := by
  unfold Fs.namex start
  split
  · apply Script.Leads.seq rules.root
    exact rules.namexLoop target parent _ _ root
  · apply Script.Leads.seq (rules.duplicate cwd inUse)
    exact rules.namexLoop target parent _ _ fun isFree => absurd isFree allocated

end

theorem walkRules (readable : ∀ i, (v.inode i).type = .dir → Readable (v.inode i).data)
    (exempt : ∀ j ∈ v.exempt, j ∈ v.held) (noLocks : v.locks = ∅) :
    WalkRules faults sb (Fine faults) Shows v := by
  have unlocked (j : Inum) : j ∉ v.locks := by
    rw [noLocks]
    exact Finset.notMem_empty j
  constructor
  · exact leads_iget _
  · exact fun ip inUse => leads_idup (.inl inUse)
  · intro ip dangles
    apply (leads_ilock (v := v.hold ip) View.mem_hold (fun isLocked => absurd isLocked (unlocked ip)) dangles).weaken
    exact fun _ w reached => reached.2.2
  · exact fun ip => leads_fields View.mem_lock
  · intro ip
    apply (leads_iunlock View.mem_lock).weaken
    intro _ w reached
    simp only [Finset.erase_insert (unlocked ip)] at reached
    exact reached
  · exact fun ip name isDir => leads_dirlookup (v := (v.hold ip).lock ip) View.mem_lock isDir (readable ip isDir)
  · intro ip
    apply (leads_iput_own exempt fun isLocked => absurd isLocked (unlocked ip)).weaken
    exact fun _ w reached => reached.2
  · exact fun ip => leads_iunlockput_own exempt (unlocked ip)
  · intro ip next
    rw [View.hold_lock_hold]
    have heldNext : ∀ j ∈ v.exempt, j ∈ next ::ₘ v.held :=
      fun j isExempt => Multiset.mem_cons_of_mem (exempt j isExempt)
    exact leads_iunlockput_own (v := v.hold next) heldNext (unlocked ip)

section

variable (walkable : Walkable faults v.inode) (exempt : ∀ j ∈ v.exempt, j ∈ v.held) (noLocks : v.locks = ∅)
include walkable exempt noLocks

theorem leads_namex {cwd : Inum} {parent : Bool} (inUse : 0 < v.base cwd) :
    Leads faults sb v (namex cwd path parent) fun r w =>
      r = resolve v.inode parent (start cwd path) (elements path) ∧
      ((r = none ∧ w = v) ∨ ∃ found name, r = some (found, name) ∧ w = v.hold found ∧
        ((v.inode found).type = .free → faults.dangling) ∧ (parent = true → (v.inode found).type = .dir)) := by
  apply leads_of_sound
  intro sound
  exact (walkRules walkable.readable exempt noLocks).namex walkable.target inUse walkable.root (sound.base cwd inUse)

theorem leads_namei {cwd : Inum} (inUse : 0 < v.base cwd) :
    Leads faults sb v (namei cwd path) fun r w =>
      (r = none ∧ w = v) ∨ ∃ found, r = some found ∧ w = v.hold found ∧
        ((v.inode found).type = .free → faults.dangling) := by
  apply Script.Leads.bind (leads_namex walkable exempt noLocks inUse)
  intro r w reached
  cases reached.2 with
  | inl failed =>
    obtain ⟨rfl, rfl⟩ := failed
    exact .pure (.inl ⟨rfl, rfl⟩)
  | inr found =>
    obtain ⟨found, name, rfl, rfl, dangles, _⟩ := found
    exact .pure (.inr ⟨found, rfl, rfl, dangles⟩)

theorem leads_nameiparent {cwd : Inum} (inUse : 0 < v.base cwd) :
    Leads faults sb v (nameiparent cwd path) fun r w =>
      resolveParent v.inode cwd path = r ∧ ((r = none ∧ w = v) ∨
        ∃ dp name, r = some (dp, name) ∧ w = v.hold dp ∧ (v.inode dp).type = .dir) := by
  apply (leads_namex walkable exempt noLocks inUse).weaken
  intro r w reached
  obtain ⟨resolved, outcome⟩ := reached
  refine ⟨resolved.symm, outcome.imp_right ?_⟩
  intro ⟨dp, name, same, reached, _, isDir⟩
  exact ⟨dp, name, same, reached, isDir rfl⟩

end

end Xv6.Fs
