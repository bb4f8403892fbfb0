import Xv6.Fs.Descriptors

namespace Xv6.Fs

open Xv6.Data Xv6.Disk
open Function (update_self update_of_ne)

/-! # The format of directories

`DirStep` lists what one call can make of the data of a directory. -/

def Ranged (sb : Superblock) (w : World) : Prop := ∀ i, (w.inode i).type ≠ .free → 1 ≤ i ∧ i < sb.ninodes

inductive DirStep (sb : Superblock) (w : World) (i : Inum) : List Byte → Prop where
  | same (isDir : (w.inode i).type = .dir) : DirStep sb w i (w.inode i).data
  | added (name : List Byte) (ip : Inum) (isDir : (w.inode i).type = .dir)
      (absent : lookup (w.inode i).data name = none)
      (small : (addEntry (w.inode i).data name ip).length ≤ MAXFILE * BSIZE) (different : ip ≠ i)
      (positive : 1 ≤ ip) (below : ip < sb.ninodes) : DirStep sb w i (addEntry (w.inode i).data name ip)
  | cleared (name : List Byte) (k : Nat) (isDir : (w.inode i).type = .dir) (notDot : namecmp name dot ≠ 0)
      (notDotdot : namecmp name dotdot ≠ 0) (found : lookup (w.inode i).data name = some k) :
      DirStep sb w i (clearEntry (w.inode i).data k)
  | made (dp : Inum) (unused : (w.inode i).type = .free) (positive : 1 ≤ i) (below : i < sb.ninodes)
      (parentDir : (w.inode dp).type = .dir) : DirStep sb w i (newDir i dp)

variable {sb : Superblock} {w t : World} {i j dp ip : Inum} {name data : List Byte} {k : Nat}

theorem sweep_kept (allocated : ((w.sweep j).inode i).type ≠ .free) : (w.sweep j).inode i = w.inode i := by
  by_cases same : i = j
  · subst j
    unfold World.sweep at allocated ⊢
    split at allocated
    · simp at allocated
    · rename_i kept
      rw [if_neg kept]
  · exact sweep_of_ne same

theorem Quiet.kept (quiet : Quiet sb w t) (isDir : (t.inode i).type = .dir) : t.inode i = w.inode i := by
  cases quiet with
  | write j data isFile =>
    by_cases same : i = j
    · subst j
      simp only [update_self] at isDir
      exact absurd (isDir.symm.trans isFile) (by decide)
    · exact update_of_ne same _ _
  | hold j => rfl
  | drop j => exact sweep_kept (by rw [isDir]; decide)

theorem Quietly.kept (quiet : Quietly sb w t) (isDir : (t.inode i).type = .dir) : t.inode i = w.inode i := by
  induction quiet with
  | refl => rfl
  | tail _ last ih =>
    have sameLast := last.kept isDir
    rw [sameLast] at isDir ⊢
    exact ih isDir

theorem Change.dirStep (changed : Change sb w t) (ranged : Ranged sb w) (isDir : (t.inode i).type = .dir) :
    DirStep sb w i (t.inode i).data := by
  have allocated : (t.inode i).type ≠ .free := by
    rw [isDir]
    decide
  cases changed with
  | create dp name ip type major minor typed unused positive below addable =>
    have different : ip ≠ dp := by
      rintro rfl
      exact absurd (addable.isDir.symm.trans unused) (by decide)
    rw [sweep_kept allocated] at isDir ⊢
    by_cases isDp : i = dp
    · subst dp
      simp only [update_self]
      exact .added name ip addable.isDir addable.absent addable.small different positive below
    · by_cases isIp : i = ip
      · subst ip
        simp only [update_of_ne isDp, update_self] at isDir ⊢
        simp only [isDir, ↓reduceIte]
        exact .made dp unused positive below addable.isDir
      · simp only [update_of_ne isDp, update_of_ne isIp] at isDir ⊢
        exact .same isDir
  | link dp name ip ipAllocated notDir addable =>
    obtain ⟨positive, below⟩ := ranged ip ipAllocated
    rw [sweep_kept allocated] at isDir ⊢
    by_cases isDp : i = dp
    · subst dp
      simp only [update_self]
      refine .added name ip addable.isDir addable.absent addable.small ?_ positive below
      rintro rfl
      exact notDir addable.isDir
    · by_cases isIp : i = ip
      · subst ip
        simp only [update_of_ne isDp, update_self] at isDir
        exact absurd isDir notDir
      · simp only [update_of_ne isDp, update_of_ne isIp] at isDir ⊢
        exact .same isDir
  | unlink dp name k ip dpDir notDot notDotdot found target different =>
    have keptIp := sweep_kept allocated
    have keptDp : ((w.unlinked dp ip k).sweep dp).inode i = (w.unlinked dp ip k).inode i := by
      apply sweep_kept
      rw [← keptIp]
      exact allocated
    rw [keptIp, keptDp] at isDir ⊢
    by_cases isIp : i = ip
    · rw [isIp] at isDir ⊢
      simp only [update_self] at isDir ⊢
      exact .same isDir
    · by_cases isDp : i = dp
      · subst dp
        simp only [update_of_ne isIp, update_self]
        exact .cleared name k dpDir notDot notDotdot found
      · simp only [update_of_ne isDp, update_of_ne isIp] at isDir ⊢
        exact .same isDir

theorem Effect.dirStep (effect : Effect sb w t) (ranged : Ranged sb w) (isDir : (t.inode i).type = .dir) :
    DirStep sb w i (t.inode i).data := by
  cases effect with
  | quiet moves =>
    have kept := Quietly.kept moves isDir
    rw [kept] at isDir ⊢
    exact .same isDir
  | change changed | changeHold changed => exact changed.dirStep ranged isDir

theorem Quiet.allocated (quiet : Quiet sb w t) (allocated : (t.inode i).type ≠ .free) : (w.inode i).type ≠ .free := by
  cases quiet with
  | write j data isFile =>
    by_cases same : i = j
    · subst j
      rw [isFile]
      decide
    · simp only [update_of_ne same] at allocated
      exact allocated
  | hold j => exact allocated
  | drop j =>
    rw [sweep_kept allocated] at allocated
    exact allocated

theorem Change.ranged (changed : Change sb w t) (ranged : Ranged sb w) : Ranged sb t := by
  intro i allocated
  cases changed with
  | create dp name ip type major minor typed unused positive below =>
    by_cases isIp : i = ip
    · rw [isIp]
      exact ⟨positive, below⟩
    · rw [sweep_kept allocated, created_type isIp] at allocated
      exact ranged i allocated
  | link dp name ip =>
    rw [sweep_kept allocated, linked_type] at allocated
    exact ranged i allocated
  | unlink dp name k ip =>
    rw [sweep_kept allocated] at allocated
    rw [sweep_kept allocated, unlinked_type] at allocated
    exact ranged i allocated

theorem Effect.ranged (effect : Effect sb w t) (ranged : Ranged sb w) : Ranged sb t := by
  cases effect with
  | quiet moves =>
    induction moves with
    | refl => exact ranged
    | tail _ last ih => exact fun i allocated => ih i (last.allocated allocated)
  | change changed | changeHold changed => exact changed.ranged ranged

/-- A directory has its own number under `.` and a parent under `..`, in this order, and
no other name for itself. -/
structure Formed (i : Inum) (data : List Byte) : Prop where
  readable : Readable data
  two : 2 ≤ slots data
  first : direntAt data 0 = ⟨BitVec.ofNat 16 i, strncpy dot DIRSIZ⟩
  second : (direntAt data 1).name = strncpy dotdot DIRSIZ
  parent : (direntAt data 1).inum ≠ 0
  own : ∀ k, 2 ≤ k → k < slots data → (direntAt data k).inum.toNat ≠ i

def Distinct (data : List Byte) : Prop :=
  ∀ j k, j < slots data → k < slots data → (direntAt data j).inum ≠ 0 → (direntAt data k).inum ≠ 0 →
    namecmp (direntAt data j).name (direntAt data k).name = 0 → j = k

theorem ofNat_ne_zero (positive : 1 ≤ i) (below : i < 2 ^ 16) : BitVec.ofNat 16 i ≠ 0 := by
  intro isZero
  have value := congrArg BitVec.toNat isZero
  rw [BitVec.toNat_ofNat, Nat.mod_eq_of_lt below] at value
  rw [value] at positive
  exact absurd positive (by decide)

structure IsNewDir (ip dp : Inum) (data : List Byte) : Prop where
  aligned : Aligned data
  slots : slots data = 2
  first : direntAt data 0 = ⟨BitVec.ofNat 16 ip, strncpy dot DIRSIZ⟩
  second : direntAt data 1 = ⟨BitVec.ofNat 16 dp, strncpy dotdot DIRSIZ⟩

theorem isNewDir_newDir (live : BitVec.ofNat 16 ip ≠ 0) : IsNewDir ip dp (newDir ip dp) := by
  have nil : Aligned [] := Nat.dvd_zero _
  have entry : direntAt (addEntry [] dot ip) 0 = ⟨BitVec.ofNat 16 ip, strncpy dot DIRSIZ⟩ := direntAt_addEntry nil 0
  have aligned : Aligned (addEntry [] dot ip) := (aligned_addEntry nil).1
  have one : slots (addEntry [] dot ip) = 1 := (aligned_addEntry nil).2
  have free : freeSlot (addEntry [] dot ip) = 1 := by
    have atMost : freeSlot (addEntry [] dot ip) ≤ 1 := one ▸ freeSlot_le
    by_contra notOne
    have zero : freeSlot (addEntry [] dot ip) = 0 := by omega
    have isFree := freeSlot_free (by rw [zero, one]; decide)
    rw [zero, entry] at isFree
    exact live isFree
  obtain ⟨alignedTwo, two⟩ : Aligned (newDir ip dp) ∧ slots (newDir ip dp) = _ := aligned_addEntry aligned
  refine ⟨alignedTwo, ?_, ?_, ?_⟩
  · rw [two, one, free]
    rfl
  · rw [newDir, direntAt_addEntry aligned, free, if_neg (by decide), entry]
  · rw [newDir, direntAt_addEntry aligned, free, if_pos rfl]

theorem formed_newDir (bounded : sb.ninodes ≤ 2 ^ 16) (positive : 1 ≤ ip) (below : ip < sb.ninodes)
    (parent : 1 ≤ dp ∧ dp < sb.ninodes) : Formed ip (newDir ip dp) := by
  obtain ⟨aligned, two, first, second⟩ : IsNewDir ip dp (newDir ip dp) :=
    isNewDir_newDir (ofNat_ne_zero positive (below.trans_le bounded))
  refine ⟨⟨aligned, ?_⟩, by omega, first, by rw [second], ?_, ?_⟩
  · rw [aligned.length, two]
    decide
  · rw [second]
    exact ofNat_ne_zero parent.1 (parent.2.trans_le bounded)
  · intro k atLeast inside
    omega

namespace Formed

variable (formed : Formed i data)
include formed

theorem own_live (positive : 1 ≤ i) (below : i < 2 ^ 16) : (direntAt data 0).inum ≠ 0 := by
  rw [formed.first]
  exact ofNat_ne_zero positive below

/-- The first two entries are never free. -/
theorem two_le_freeSlot (positive : 1 ≤ i) (below : i < 2 ^ 16) : 2 ≤ freeSlot data := by
  have two := formed.two
  by_contra small
  have isFree := freeSlot_free (show freeSlot data < slots data by omega)
  have cases : freeSlot data = 0 ∨ freeSlot data = 1 := by omega
  cases cases with
  | inl zero =>
    rw [zero] at isFree
    exact formed.own_live positive below isFree
  | inr one =>
    rw [one] at isFree
    exact formed.parent isFree

theorem dots_of_lookup (found : lookup data name = some k) (first : k < 2) :
    namecmp name dot = 0 ∨ namecmp name dotdot = 0 := by
  obtain ⟨_, _, same⟩ := lookup_some found
  have cases : k = 0 ∨ k = 1 := by omega
  cases cases with
  | inl zero =>
    rw [zero, formed.first, strncpy_strncpy] at same
    exact .inl (namecmp_eq_zero.mpr same)
  | inr one =>
    rw [one, formed.second, strncpy_strncpy] at same
    exact .inr (namecmp_eq_zero.mpr same)

theorem dots_of_own (found : lookup data name = some k) (own : (direntAt data k).inum.toNat = i) :
    namecmp name dot = 0 ∨ namecmp name dotdot = 0 := by
  apply formed.dots_of_lookup found
  by_contra later
  exact formed.own k (by omega) (lookup_some found).1 own

theorem add (positive : 1 ≤ i) (below : i < 2 ^ 16) (different : ip ≠ i) (inRange : ip < 2 ^ 16)
    (small : (addEntry data name ip).length ≤ MAXFILE * BSIZE) : Formed i (addEntry data name ip) := by
  have later := formed.two_le_freeSlot positive below
  have two := formed.two
  have aligned := formed.readable.aligned
  obtain ⟨alignedAfter, count⟩ : Aligned (addEntry data name ip) ∧ slots (addEntry data name ip) = _ :=
    aligned_addEntry aligned
  refine ⟨⟨alignedAfter, small⟩, by omega, ?_, ?_, ?_, ?_⟩
  · rw [direntAt_addEntry aligned, if_neg (by omega)]
    exact formed.first
  · rw [direntAt_addEntry aligned, if_neg (by omega)]
    exact formed.second
  · rw [direntAt_addEntry aligned, if_neg (by omega)]
    exact formed.parent
  · intro j atLeast inside
    rw [direntAt_addEntry aligned]
    split
    · rw [BitVec.toNat_ofNat, Nat.mod_eq_of_lt inRange]
      exact different
    · have most : freeSlot data ≤ slots data := freeSlot_le
      exact formed.own j atLeast (by omega)

theorem clear (positive : 1 ≤ i) (notDot : namecmp name dot ≠ 0) (notDotdot : namecmp name dotdot ≠ 0)
    (found : lookup data name = some k) : Formed i (clearEntry data k) := by
  have later : 2 ≤ k := by
    by_contra early
    cases formed.dots_of_lookup found (by omega) with
    | inl isDot => exact notDot isDot
    | inr isDotdot => exact notDotdot isDotdot
  have inside := (lookup_some found).1
  have two := formed.two
  have aligned := formed.readable.aligned
  obtain ⟨alignedAfter, count⟩ := aligned_clearEntry aligned inside
  have length : (clearEntry data k).length = data.length := by
    rw [alignedAfter.length, count, ← aligned.length]
  refine ⟨⟨alignedAfter, length ▸ formed.readable.small⟩, by omega, ?_, ?_, ?_, ?_⟩
  · rw [direntAt_clearEntry aligned inside, if_neg (by omega)]
    exact formed.first
  · rw [direntAt_clearEntry aligned inside, if_neg (by omega)]
    exact formed.second
  · rw [direntAt_clearEntry aligned inside, if_neg (by omega)]
    exact formed.parent
  · intro j atLeast below
    rw [direntAt_clearEntry aligned inside]
    split
    · intro isZero
      rw [← isZero] at positive
      exact absurd positive (by decide)
    · exact formed.own j atLeast (by omega)

end Formed

theorem DirStep.formed (step : DirStep sb w i data) (bounded : sb.ninodes ≤ 2 ^ 16) (ranged : Ranged sb w)
    (before : (w.inode i).type = .dir → Formed i (w.inode i).data) : Formed i data := by
  cases step with
  | same isDir => exact before isDir
  | added name ip isDir absent small different positive below =>
    obtain ⟨own, inRange⟩ := ranged i (by rw [isDir]; decide)
    exact (before isDir).add own (inRange.trans_le bounded) different (below.trans_le bounded) small
  | cleared name k isDir notDot notDotdot found =>
    obtain ⟨own, inRange⟩ := ranged i (by rw [isDir]; decide)
    exact (before isDir).clear own notDot notDotdot found
  | made dp unused positive below parentDir =>
    exact formed_newDir bounded positive below (ranged dp (by rw [parentDir]; decide))

theorem Distinct.add (distinct : Distinct data) (aligned : Aligned data) (absent : lookup data name = none) :
    Distinct (addEntry data name ip) := by
  have most : freeSlot data ≤ slots data := freeSlot_le
  have count : slots (addEntry data name ip) = max (slots data) (freeSlot data + 1) := (aligned_addEntry aligned).2
  -- no entry that was there has the new name
  have other {k : Nat} (inside : k < slots (addEntry data name ip)) (notNew : k ≠ freeSlot data)
      (live : (direntAt data k).inum ≠ 0) : k < slots data ∧
        strncpy name DIRSIZ ≠ strncpy (direntAt data k).name DIRSIZ := by
    have below : k < slots data := by omega
    exact ⟨below, lookup_none absent below live⟩
  intro j k insideJ insideK liveJ liveK same
  rw [namecmp_eq_zero] at same
  rw [direntAt_addEntry aligned] at liveJ liveK same
  rw [direntAt_addEntry aligned] at same
  by_cases newJ : j = freeSlot data
  · by_cases newK : k = freeSlot data
    · rw [newJ, newK]
    · rw [if_neg newK] at liveK same
      rw [if_pos newJ, strncpy_strncpy] at same
      exact absurd same (other insideK newK liveK).2
  · rw [if_neg newJ] at liveJ same
    by_cases newK : k = freeSlot data
    · rw [if_pos newK, strncpy_strncpy] at same
      exact absurd same.symm (other insideJ newJ liveJ).2
    · rw [if_neg newK] at liveK same
      exact distinct j k (other insideJ newJ liveJ).1 (other insideK newK liveK).1 liveJ liveK
        (namecmp_eq_zero.mpr same)

theorem Distinct.clear (distinct : Distinct data) (aligned : Aligned data) (inside : k < slots data) :
    Distinct (clearEntry data k) := by
  have count := (aligned_clearEntry aligned inside).2
  have other {j : Nat} (live : (direntAt (clearEntry data k) j).inum ≠ 0) : j ≠ k := by
    rintro rfl
    rw [direntAt_clearEntry aligned inside, if_pos rfl] at live
    exact live rfl
  intro i j insideI insideJ liveI liveJ same
  have notI := other liveI
  have notJ := other liveJ
  rw [direntAt_clearEntry aligned inside, if_neg notI] at liveI same
  rw [direntAt_clearEntry aligned inside, if_neg notJ] at liveJ same
  rw [count] at insideI insideJ
  exact distinct i j insideI insideJ liveI liveJ same

theorem distinct_newDir (live : BitVec.ofNat 16 ip ≠ 0) : Distinct (newDir ip dp) := by
  obtain ⟨_, two, first, second⟩ : IsNewDir ip dp (newDir ip dp) := isNewDir_newDir live
  have names (k : Nat) (inside : k < 2) : (direntAt (newDir ip dp) k).name = if k = 0 then strncpy dot DIRSIZ else
      strncpy dotdot DIRSIZ := by
    have cases : k = 0 ∨ k = 1 := by omega
    cases cases with
    | inl zero => rw [zero, first, if_pos rfl]
    | inr one => rw [one, second, if_neg (by decide)]
  intro j k insideJ insideK _ _ same
  rw [two] at insideJ insideK
  rw [names j insideJ, names k insideK] at same
  have casesJ : j = 0 ∨ j = 1 := by omega
  have casesK : k = 0 ∨ k = 1 := by omega
  cases casesJ with
  | inl zeroJ =>
    cases casesK with
    | inl zeroK => rw [zeroJ, zeroK]
    | inr oneK =>
      rw [zeroJ, oneK] at same
      exact absurd same (by decide)
  | inr oneJ =>
    cases casesK with
    | inl zeroK =>
      rw [oneJ, zeroK] at same
      exact absurd same (by decide)
    | inr oneK => rw [oneJ, oneK]

theorem DirStep.distinct (step : DirStep sb w i data) (bounded : sb.ninodes ≤ 2 ^ 16)
    (readable : (w.inode i).type = .dir → Readable (w.inode i).data)
    (before : (w.inode i).type = .dir → Distinct (w.inode i).data) : Distinct data := by
  cases step with
  | same isDir => exact before isDir
  | added name ip isDir absent => exact (before isDir).add (readable isDir).aligned absent
  | cleared name k isDir notDot notDotdot found =>
    exact (before isDir).clear (readable isDir).aligned (lookup_some found).1
  | made dp unused positive below => exact distinct_newDir (ofNat_ne_zero positive (below.trans_le bounded))

end Xv6.Fs
