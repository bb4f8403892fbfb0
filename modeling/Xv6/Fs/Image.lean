import Xv6.Fs.Format

namespace Xv6.Fs

open Xv6.Data Xv6.Disk

/-! # The directory of an image

The root directory that `mkfs` makes has the format of directories.
-/

structure ImageFits (files : List (List Byte × List Byte)) : Prop where
  count : files.length + 2 ≤ imageSuperblock.ninodes
  small : ∀ file ∈ files, file.2.length ≤ MAXFILE * BSIZE
  blocks : usedBlocks imageSuperblock (mkfs files) ≤ imageSuperblock.nblocks

def imageNames (files : List (List Byte × List Byte)) : List (List Byte) :=
  strncpy dot DIRSIZ :: strncpy dotdot DIRSIZ :: files.map fun file => imageName file.1

variable {files : List (List Byte × List Byte)} {des : List Dirent} {rest : List Byte} {k : Nat}

section

variable (names : ∀ de ∈ des, de.name.length = DIRSIZ)
include names

theorem length_entries : (des.flatMap Dirent.bytes).length = DIRENTSIZE * des.length := by
  induction des with
  | nil => rfl
  | cons de others ih =>
    obtain ⟨first, tail⟩ := List.forall_mem_cons.mp names
    rw [List.flatMap_cons, List.length_append, de.length_bytes, first, ih tail, List.length_cons, Nat.mul_succ,
      Nat.add_comm]

theorem direntAt_entries {de : Dirent} (found : des[k]? = some de) :
    direntAt (des.flatMap Dirent.bytes ++ rest) k = de := by
  induction des generalizing k with
  | nil => simp at found
  | cons head others ih =>
    obtain ⟨first, tail⟩ := List.forall_mem_cons.mp names
    have size : head.bytes.length = DIRENTSIZE := by rw [head.length_bytes, first]
    cases k with
    | zero =>
      simp only [List.getElem?_cons_zero, Option.some.injEq] at found
      subst found
      simp only [direntAt, List.flatMap_cons, List.append_assoc, Nat.mul_zero, List.drop_zero]
      rw [List.take_append_of_le_length (by rw [size]), ← size, List.take_length, Dirent.ofBytes_bytes]
    | succ k =>
      rw [List.getElem?_cons_succ] at found
      rw [← ih tail found]
      simp only [direntAt, List.flatMap_cons, List.append_assoc]
      rw [Nat.mul_succ, Nat.add_comm, ← List.drop_drop, ← size, List.drop_left]

theorem direntAt_zeros {n : Nat} (later : des.length ≤ k) :
    (direntAt (des.flatMap Dirent.bytes ++ List.replicate n 0) k).inum = 0 := by
  have start : (des.flatMap Dirent.bytes).length ≤ DIRENTSIZE * k := by
    rw [length_entries names]
    exact Nat.mul_le_mul_left _ later
  rw [direntAt, List.drop_append, List.drop_eq_nil_of_le start, List.nil_append, List.drop_replicate,
    List.take_replicate, Dirent.ofBytes]
  have zero (m j : Nat) : (List.replicate m (0 : Byte)).getD j 0 = 0 := by
    rw [List.getD_eq_getElem?_getD, List.getElem?_replicate]
    split <;> rfl
  rw [zero, zero]
  rfl

end

theorem length_rootDirents : (rootDirents files).length = files.length + 2 := by
  simp [rootDirents]

theorem names_rootDirents : (rootDirents files).map Dirent.name = imageNames files := by
  simp only [rootDirents, imageNames, List.map_cons, List.map_map]
  congr 2
  rw [← List.zipIdx_map_fst 0 files, List.map_map, List.zipIdx_map_fst]
  rfl

theorem strncpy_imageNames {name : List Byte} (member : name ∈ imageNames files) : strncpy name DIRSIZ = name := by
  simp only [imageNames, List.mem_cons, List.mem_map] at member
  obtain rfl | rfl | ⟨file, _, rfl⟩ := member <;> exact strncpy_strncpy _ _

theorem name_rootDirents {de : Dirent} (member : de ∈ rootDirents files) : de.name ∈ imageNames files := by
  rw [← names_rootDirents]
  exact List.mem_map_of_mem member

theorem size_rootDirents : ∀ de ∈ rootDirents files, de.name.length = DIRSIZ := by
  intro de member
  rw [← strncpy_imageNames (name_rootDirents member), length_strncpy]

theorem inum_rootDirents {de : Dirent} (found : (rootDirents files)[k]? = some de) :
    de.inum = if k < 2 then 1 else BitVec.ofNat 16 k := by
  match k with
  | 0 | 1 =>
    cases found
    rfl
  | j + 2 =>
    simp only [rootDirents, List.getElem?_cons_succ, List.getElem?_map, List.getElem?_zipIdx,
      Option.map_eq_some_iff] at found
    obtain ⟨pair, ⟨file, _, rfl⟩, rfl⟩ := found
    rw [if_neg (by omega), Nat.zero_add]

theorem rootDirents_of_lt (inside : k < files.length + 2) : ∃ de, (rootDirents files)[k]? = some de := by
  rw [← length_rootDirents] at inside
  exact ⟨_, List.getElem?_eq_getElem inside⟩

theorem length_rootData :
    (rootData files).length = (DIRENTSIZE * (files.length + 2) / BSIZE + 1) * BSIZE := by
  have size : ((rootDirents files).flatMap Dirent.bytes).length = DIRENTSIZE * (files.length + 2) := by
    rw [length_entries size_rootDirents, length_rootDirents]
  simp only [rootData, List.length_append, List.length_replicate, size]
  have below := Nat.lt_mul_div_succ (DIRENTSIZE * (files.length + 2)) (show 0 < BSIZE by decide)
  rw [Nat.mul_comm BSIZE] at below
  exact Nat.add_sub_of_le (Nat.le_of_lt below)

theorem slots_rootData : slots (rootData files) = (DIRENTSIZE * (files.length + 2) / BSIZE + 1) * 32 ∧
    Aligned (rootData files) := by
  constructor
  · rw [slots, length_rootData]
    simp only [DIRENTSIZE, DIRSIZ, BSIZE]
    omega
  · rw [Aligned, length_rootData]
    exact Dvd.dvd.mul_left (by decide) _

theorem direntAt_rootData {de : Dirent} (found : (rootDirents files)[k]? = some de) :
    direntAt (rootData files) k = de :=
  direntAt_entries size_rootDirents found

theorem free_rootData (later : files.length + 2 ≤ k) : (direntAt (rootData files) k).inum = 0 :=
  direntAt_zeros size_rootDirents (by rw [length_rootDirents]; exact later)

theorem formed_rootData (count : files.length + 2 ≤ imageSuperblock.ninodes) : Formed ROOTINO (rootData files) := by
  obtain ⟨slotCount, aligned⟩ : slots (rootData files) = _ ∧ Aligned (rootData files) := slots_rootData
  have first : direntAt (rootData files) 0 = ⟨1, strncpy dot DIRSIZ⟩ := direntAt_rootData rfl
  have second : direntAt (rootData files) 1 = ⟨1, strncpy dotdot DIRSIZ⟩ := direntAt_rootData rfl
  have two : 2 ≤ slots (rootData files) := by
    rw [slotCount]
    exact Nat.le_trans (by decide) (Nat.le_mul_of_pos_left 32 (Nat.succ_pos _))
  refine ⟨⟨aligned, ?_⟩, two, first, by rw [second], by rw [second]; decide, ?_⟩
  · rw [length_rootData]
    simp only [imageSuperblock] at count
    simp only [DIRENTSIZE, DIRSIZ, BSIZE, MAXFILE, NDIRECT, NINDIRECT]
    omega
  · intro k atLeast _
    by_cases inside : k < files.length + 2
    · obtain ⟨de, found⟩ := rootDirents_of_lt inside
      have word : k < 2 ^ 16 := by
        simp only [imageSuperblock] at count
        omega
      rw [direntAt_rootData found, inum_rootDirents found, if_neg (by omega), BitVec.toNat_ofNat,
        Nat.mod_eq_of_lt word]
      exact Nat.ne_of_gt atLeast
    · rw [free_rootData (by omega)]
      decide

theorem distinct_rootData (distinct : (imageNames files).Nodup) : Distinct (rootData files) := by
  have named {k : Nat} (live : (direntAt (rootData files) k).inum ≠ 0) :
      (imageNames files)[k]? = some (direntAt (rootData files) k).name := by
    by_cases inside : k < files.length + 2
    · obtain ⟨de, found⟩ := rootDirents_of_lt inside
      rw [← names_rootDirents, List.getElem?_map, found, direntAt_rootData found]
      rfl
    · exact absurd (free_rootData (by omega)) live
  intro j k _ _ liveJ liveK same
  have foundJ := named liveJ
  have foundK := named liveK
  rw [namecmp_eq_zero, strncpy_imageNames (List.mem_of_getElem? foundJ),
    strncpy_imageNames (List.mem_of_getElem? foundK)] at same
  rw [← same, ← foundJ] at foundK
  exact (List.getElem?_inj (List.getElem?_eq_some_iff.mp foundJ).1 distinct).mp foundK.symm

theorem mkfs_root : mkfs files ROOTINO = { type := .dir, nlink := 1, data := rootData files } := if_pos rfl

theorem mkfs_cases {i : Inum} (allocated : (mkfs files i).type ≠ .free) :
    i = ROOTINO ∨ 2 ≤ i ∧ ∃ file, files[i - 2]? = some file ∧
      mkfs files i = { type := .file, nlink := 1, data := file.2 } := by
  by_cases isRoot : i = ROOTINO
  · exact .inl isRoot
  · by_cases isZero : i = 0
    · simp [mkfs, isZero] at allocated
    · right
      have atLeast : 2 ≤ i := by
        have notOne : (i : Nat) ≠ 1 := isRoot
        have notZero : (i : Nat) ≠ 0 := isZero
        exact Nat.two_le_iff i |>.mpr ⟨notZero, notOne⟩
      refine ⟨atLeast, ?_⟩
      cases found : files[i - 2]? with
      | none => simp [mkfs, isRoot, isZero, found] at allocated
      | some file => exact ⟨file, rfl, by simp [mkfs, isRoot, isZero, found]⟩

theorem mkfs_nlink {i : Inum} (allocated : (mkfs files i).type ≠ .free) : (mkfs files i).nlink = 1 := by
  cases mkfs_cases allocated with
  | inl isRoot => rw [isRoot, mkfs_root]
  | inr isFile =>
    obtain ⟨_, file, _, equal⟩ := isFile
    rw [equal]

theorem mkfs_range {i : Inum} (count : files.length + 2 ≤ imageSuperblock.ninodes)
    (allocated : (mkfs files i).type ≠ .free) : 1 ≤ i ∧ i < imageSuperblock.ninodes := by
  cases mkfs_cases allocated with
  | inl isRoot =>
    rw [isRoot]
    decide
  | inr isFile =>
    obtain ⟨atLeast, file, found, _⟩ := isFile
    have inside := (List.getElem?_eq_some_iff.mp found).1
    have below := (Nat.sub_lt_iff_lt_add atLeast).mp inside
    exact ⟨Nat.le_of_succ_le atLeast, below.trans_le count⟩

theorem mkfs_dir {i : Inum} (isDir : (mkfs files i).type = .dir) : i = ROOTINO := by
  cases mkfs_cases (by rw [isDir]; decide) with
  | inl isRoot => exact isRoot
  | inr isFile =>
    obtain ⟨_, file, _, equal⟩ := isFile
    rw [equal] at isDir
    cases isDir

end Xv6.Fs
