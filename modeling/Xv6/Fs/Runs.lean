import Xv6.Fs.Image
import Xv6.Data.Trace

namespace Xv6.Fs

open Xv6.Data Xv6.Disk

/-! # Runs of calls

What holds between calls, in every state that calls lead to from an image that `mkfs`
has made.
-/

def State.world (s : State) : World := ⟨s.store.inode, s.tables.refs⟩

/-- Nothing is locked, all references are those of the tables, and the directories have
their format. -/
structure Settled (sb : Superblock) (s : State) : Prop where
  shows : Shows (s.world.view 0) s.store
  fits : Fits s.world s.tables
  ranged : Ranged sb s.world
  formed : ∀ i, (s.store.inode i).type = .dir → Formed i (s.store.inode i).data

variable {faults : Faults} {sb : Superblock} {s t : State} {p : Slot} {c : Call} {proc : Proc}

namespace Settled

variable (settled : Settled sb s)
include settled

theorem walkable (root : (s.store.inode ROOTINO).type = .free → faults.dangling)
    (target : ∀ i k, (s.store.inode i).type = .dir → k < slots (s.store.inode i).data →
      (direntAt (s.store.inode i).data k).inum ≠ 0 →
      (s.store.inode (direntAt (s.store.inode i).data k).inum.toNat).type = .free → faults.dangling) :
    Walkable faults s.world.inode := by
  refine ⟨root, fun i isDir => (settled.formed i isDir).readable, target, ?_⟩
  intro i name k isDir found own
  exact (settled.formed i isDir).dots_of_own found own

theorem serve (faults : Faults) (bounded : sb.ninodes ≤ 2 ^ 16) (isProc : s.tables.proc p = some proc)
    (walkable : Walkable faults s.world.inode)
    (waits : ∀ old new, c = .link (some (old, new)) → SelfNamed s.world.inode proc.cwd new → faults.deadlock) :
    Ends (Fine faults) (fun pair => Settled sb ⟨pair.2, pair.1.2⟩ ∧ Effect sb s.world (State.world ⟨pair.2, pair.1.2⟩))
      ((serve s.tables p proc c).run (Store.handle sb) s.store) := by
  have served : Leads faults sb (s.world.view 0) (Fs.serve s.tables p proc c) _ :=
    leads_serve settled.fits isProc walkable waits
  apply (served s.store settled.shows).weaken
  intro pair reached
  obtain ⟨u, ⟨w, effect, fits, rfl⟩, shows⟩ := reached
  have same : w = State.world ⟨pair.2, pair.1.2⟩ := by
    have inode : w.inode = pair.2.inode := shows.inode.symm
    have base : w.base = pair.1.2.refs := funext fits.refs
    rw [State.world, ← inode, ← base]
  subst same
  have ranged := effect.ranged settled.ranged
  refine ⟨⟨shows, fits, ranged, ?_⟩, effect⟩
  intro i isDir
  exact (effect.dirStep settled.ranged isDir).formed bounded settled.ranged (settled.formed i)

theorem call (faults : Faults) (bounded : sb.ninodes ≤ 2 ^ 16) (isProc : s.tables.proc p = some proc)
    (walkable : Walkable faults s.world.inode)
    (waits : ∀ old new, c = .link (some (old, new)) → SelfNamed s.world.inode proc.cwd new → faults.deadlock) :
    ∃ result, call sb s p c = some result ∧
      Ends (Fine faults) (fun r => Settled sb r.2 ∧ Effect sb s.world r.2.world) result := by
  refine ⟨_, by rw [Fs.call, isProc]; rfl, ?_⟩
  apply (settled.serve faults bounded isProc walkable waits).bind
  exact fun pair reached => .ok reached

theorem step (bounded : sb.ninodes ≤ 2 ^ 16) {a : Slot × Call} (taken : step sb s a = some t) :
    Settled sb t ∧ Effect sb s.world t.world := by
  unfold Fs.step at taken
  cases isProc : s.tables.proc a.1 with
  | none =>
    rw [Fs.call, isProc] at taken
    cases taken
  | some proc =>
    obtain ⟨result, called, ends⟩ := settled.call (c := a.2) ⟨True, True⟩ bounded isProc
      (settled.walkable (fun _ => trivial) fun _ _ _ _ _ _ => trivial) fun _ _ _ _ => trivial
    rw [called] at taken
    cases result with
    | error reason => cases taken
    | ok r =>
      cases taken
      exact ends

end Settled

variable {files : List (List Byte × List Byte)} {input : List (Option (List Byte))}

theorem refs_userinit (i : Inum) : (userinit files input).tables.refs i = if i = ROOTINO then 1 else 0 := by
  have moved := refs_setProc ⟨fun _ => {}, fun _ => none⟩ initproc (some ⟨ROOTINO, fun _ => none⟩) i
  have nothing : Tables.refs ⟨fun _ => {}, fun _ => none⟩ i = 0 := by simp [Tables.refs, File.refs, cwdRefs]
  rw [nothing, Nat.zero_add] at moved
  change (userinit files input).tables.refs i + 0 = _ at moved
  rw [← Nat.add_zero (Tables.refs _ i), moved]
  simp only [cwdRefs, Option.map_some, Option.some.injEq, eq_comm]

theorem userinit_settled (count : files.length + 2 ≤ imageSuperblock.ninodes) :
    Settled imageSuperblock (userinit files input) := by
  have formed (i : Inum) (isDir : (mkfs files i).type = .dir) : Formed i (mkfs files i).data := by
    rw [mkfs_dir isDir, mkfs_root]
    exact formed_rootData count
  have entry (i : Inum) : (userinit files input).store.entry i = if i = ROOTINO then { ref := 1 } else {} := by
    simp only [userinit, Function.update_apply]
  have linked (i : Inum) (allocated : (mkfs files i).type ≠ .free) : (mkfs files i).nlink ≠ 0 := by
    rw [mkfs_nlink allocated]
    decide
  refine ⟨⟨rfl, ?_, ?_, ?_, ?_, ?_, no_exempt, ?_, fun _ => no_locks, ?_, rfl⟩, ⟨fun _ => rfl, fun _ _ => rfl, ?_⟩,
    fun i allocated => mkfs_range count allocated, formed⟩
  · intro i
    change _ = (userinit files input).tables.refs i + Multiset.count i 0
    rw [refs_userinit, entry, Multiset.count_zero]
    split <;> rfl
  · exact fun i _ allocated unlinked => absurd unlinked (linked i allocated)
  · exact fun i allocated unlinked => absurd unlinked (linked i allocated)
  · intro i isValid
    rw [entry] at isValid
    split at isValid <;> cases isValid
  · intro i used
    change 0 < (userinit files input).tables.refs i at used
    rw [refs_userinit] at used
    split at used
    · rename_i isRoot
      change (mkfs files i).type ≠ .free
      rw [isRoot, mkfs_root]
      simp
    · cases used
  · intro i
    rw [entry]
    split <;> simp
  · intro i
    rw [entry]
    split <;> rfl
  · exact nofun

theorem Fine.format {message : Panic} (fine : Fine faults (.panic message)) :
    message ∉ [.dirlookupNotDir, .dirlookupRead, .dirlinkRead, .isdirempty] := by
  intro member
  simp only [List.mem_cons, List.not_mem_nil, or_false] at member
  obtain rfl | rfl | rfl | rfl := member <;> exact fine (by decide)

/-- Directories keep their format, and nothing that reads them finds them in another one. -/
theorem directories_keep_format {calls : List (Slot × Call)} (fits : ImageFits files)
    (distinct : (imageNames files).Nodup)
    (ran : Data.exec (step imageSuperblock) (userinit files input) calls = some s) :
    (∀ i, (s.store.inode i).type = .dir →
      let data := (s.store.inode i).data
      DIRENTSIZE ∣ data.length ∧ 2 ≤ slots data ∧
        direntAt data 0 = ⟨BitVec.ofNat 16 i, strncpy dot DIRSIZ⟩ ∧
        (direntAt data 1).name = strncpy dotdot DIRSIZ ∧ (direntAt data 1).inum ≠ 0 ∧
        ∀ j k, j < slots data → k < slots data → (direntAt data j).inum ≠ 0 → (direntAt data k).inum ≠ 0 →
          namecmp (direntAt data j).name (direntAt data k).name = 0 → j = k) ∧
      (∀ f, 0 < (s.tables.file f).ref → (s.tables.file f).type = .inode → (s.tables.file f).writable = true →
        (s.store.inode (s.tables.file f).ip).type ≠ .dir) ∧
      (∀ p c message, call imageSuperblock s p c = some (.error (.panic message)) →
        message ∉ [.dirlookupNotDir, .dirlookupRead, .dirlinkRead, .isdirempty]) ∧
      ∀ i store, (s.store.inode i).type = .dir → store.inode i = s.store.inode i →
        (store.entry i).locked = true → (store.entry i).valid = true →
        ∃ r, (isdirempty i).run (Store.handle imageSuperblock) store = .ok (r, store) ∧
          (r = true ↔ ∀ k, 2 ≤ k → k < slots (s.store.inode i).data →
            (direntAt (s.store.inode i).data k).inum = 0) := by
  have holds : Settled imageSuperblock s ∧ ∀ i, (s.store.inode i).type = .dir → Distinct (s.store.inode i).data := by
    apply exec_invariant_all
      (fun s => Settled imageSuperblock s ∧ ∀ i, (s.store.inode i).type = .dir → Distinct (s.store.inode i).data)
      ?_ ?_ ran
    · refine ⟨userinit_settled fits.count, ?_⟩
      intro i isDir
      change Distinct (mkfs files i).data
      rw [mkfs_dir isDir, mkfs_root]
      exact distinct_rootData distinct
    · rintro before action after ⟨settled, distinct⟩ taken
      obtain ⟨next, moved⟩ := settled.step (by decide) taken
      refine ⟨next, fun i isDir => ?_⟩
      exact (moved.dirStep settled.ranged isDir).distinct (by decide) (fun wasDir => (settled.formed i wasDir).readable)
        (distinct i)
  obtain ⟨settled, names⟩ := holds
  refine ⟨?_, fun f _ => settled.fits.writable f, ?_, ?_⟩
  · intro i isDir
    have formed := settled.formed i isDir
    exact ⟨formed.readable.aligned, formed.two, formed.first, formed.second, formed.parent, names i isDir⟩
  · intro p c message stopped
    cases isProc : s.tables.proc p with
    | none =>
      rw [call, isProc] at stopped
      cases stopped
    | some proc =>
      obtain ⟨result, called, ends⟩ := settled.call (c := c) ⟨True, True⟩ (by decide) isProc
        (settled.walkable (fun _ => trivial) fun _ _ _ _ _ _ => trivial) fun _ _ _ _ => trivial
      rw [called] at stopped
      cases stopped
      exact Fine.format ends
  · intro i store isDir same isLocked isValid
    rw [← same] at isDir ⊢
    exact run_isdirempty isLocked isValid isDir (same ▸ (settled.formed i (same ▸ isDir)).readable)

def oneFile : List (List Byte × List Byte) := [([95, 102], [1, 2, 3])]

theorem oneFile_fits : ImageFits oneFile := ⟨by decide, by decide, by decide +kernel⟩

theorem directories_keep_format_mkdir : ∃ s, Data.exec (step imageSuperblock) (userinit oneFile)
        [(0, .mkdir (some [100])), (0, .open (some ([102], O_RDWR)))] = some s ∧
      (s.store.inode 3).type = .dir ∧ DIRENTSIZE ∣ (s.store.inode 3).data.length := by
  have reached : (Data.exec (step imageSuperblock) (userinit oneFile)
      [(0, .mkdir (some [100])), (0, .open (some ([102], O_RDWR)))]).map (fun s => (s.store.inode 3).type) =
      some .dir := by
    decide +kernel
  obtain ⟨s, ran, isDir⟩ := Option.map_eq_some_iff.mp reached
  exact ⟨s, ran, isDir, ((directories_keep_format oneFile_fits (by decide) ran).1 3 isDir).1⟩

def twinFiles : List (List Byte × List Byte) := [([95, 102], []), ([102], [])]

/-- `mkfs` enters both files under one name. -/
theorem twinFiles_same_name : ImageFits twinFiles ∧
    ∃ s, Data.exec (step imageSuperblock) (userinit twinFiles) [] = some s ∧ (s.store.inode ROOTINO).type = .dir ∧
      ¬∀ j k, j < slots (s.store.inode ROOTINO).data → k < slots (s.store.inode ROOTINO).data →
        (direntAt (s.store.inode ROOTINO).data j).inum ≠ 0 → (direntAt (s.store.inode ROOTINO).data k).inum ≠ 0 →
        namecmp (direntAt (s.store.inode ROOTINO).data j).name (direntAt (s.store.inode ROOTINO).data k).name = 0 →
          j = k := by
  refine ⟨⟨by decide, by decide, by decide +kernel⟩, _, rfl, rfl, ?_⟩
  intro distinct
  have same := distinct 2 3 (by decide +kernel) (by decide +kernel) (by decide +kernel) (by decide +kernel)
    (by decide +kernel)
  exact absurd same (by decide)

end Xv6.Fs
