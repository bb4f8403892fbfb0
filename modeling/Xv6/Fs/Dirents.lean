import Xv6.Fs.Store

namespace Xv6.Fs

open Xv6.Data Xv6.Disk

/-! # Directory data

What looking up, adding and clearing an entry do to the entries. -/

variable {data src name other : List Byte} {off j k : Nat} {de : Dirent}

theorem headD_strncpy (t : List Byte) (n : Nat) : (strncpy t (n + 1)).headD 0 = t.headD 0 := by
  simp only [strncpy]
  split
  · rfl
  · rename_i zero
    rw [List.replicate_succ, List.headD_cons, not_not.mp zero]

/-- Two names are equal for the kernel when they are stored as the same bytes. -/
theorem strncmp_eq_zero {s t : List Byte} {n : Nat} : strncmp s t n = 0 ↔ strncpy s n = strncpy t n := by
  induction n generalizing s t with
  | zero => simp [strncmp, strncpy]
  | succ n ih =>
    have heads : ((s.headD 0).toNat : Int) - (t.headD 0).toNat = 0 ↔ s.headD 0 = t.headD 0 := by
      rw [sub_eq_zero, Nat.cast_inj, BitVec.toNat_inj]
    simp only [strncmp, strncpy, List.replicate_succ]
    by_cases equal : s.headD 0 = t.headD 0
    · by_cases zero : t.headD 0 = 0
      · simp only [equal, zero, ne_eq, not_true_eq_false, false_and, ↓reduceIte, sub_self]
      · simp only [equal, zero, ne_eq, not_false_eq_true, and_self, ↓reduceIte, List.cons.injEq, true_and]
        exact ih
    · simp only [equal, and_false, ↓reduceIte, heads, false_iff]
      intro same
      rw [← List.replicate_succ] at same
      exact equal ((headD_strncpy s n).symm.trans ((congrArg (List.headD · 0) same).trans (headD_strncpy t n)))

theorem namecmp_eq_zero {s t : List Byte} : namecmp s t = 0 ↔ strncpy s DIRSIZ = strncpy t DIRSIZ :=
  strncmp_eq_zero

@[simp] theorem length_strncpy (t : List Byte) (n : Nat) : (strncpy t n).length = n := by
  induction n generalizing t with
  | zero => rfl
  | succ n ih =>
    simp only [strncpy]
    split <;> simp [ih]

@[simp] theorem strncpy_strncpy (t : List Byte) (n : Nat) : strncpy (strncpy t n) n = strncpy t n := by
  induction n generalizing t with
  | zero => rfl
  | succ n ih =>
    by_cases zero : t.headD 0 = 0
    · have copied : strncpy t (n + 1) = List.replicate (n + 1) 0 := by
        simp only [strncpy, zero, ne_eq, not_true_eq_false, ↓reduceIte]
      rw [copied]
      simp only [strncpy, List.replicate_succ, List.headD_cons, ne_eq, not_true_eq_false, ↓reduceIte]
    · have copied : strncpy t (n + 1) = t.headD 0 :: strncpy t.tail n := by
        simp only [strncpy, zero, ne_eq, not_false_eq_true, ↓reduceIte]
      rw [copied]
      simp only [strncpy, List.headD_cons, List.tail_cons, zero, ne_eq, not_false_eq_true, ↓reduceIte, ih]

@[simp] theorem Dirent.ofBytes_bytes (de : Dirent) : Dirent.ofBytes de.bytes = de := by
  obtain ⟨inum, name⟩ := de
  simp only [Dirent.ofBytes, Dirent.bytes]
  congr 1
  simp only [List.getD_cons_succ, List.getD_cons_zero]
  apply BitVec.eq_of_toNat_eq
  have low : (inum.setWidth 8).toNat < 2 ^ 8 := (inum.setWidth 8).isLt
  rw [BitVec.toNat_append, ← Nat.shiftLeft_add_eq_or_of_lt low, Nat.shiftLeft_eq]
  bv_omega

theorem Dirent.length_bytes (de : Dirent) : de.bytes.length = 2 + de.name.length := by
  simp only [Dirent.bytes, List.length_cons]
  omega

def slots (data : List Byte) : Nat := data.length / DIRENTSIZE

def direntAt (data : List Byte) (k : Nat) : Dirent :=
  .ofBytes ((data.drop (DIRENTSIZE * k)).take DIRENTSIZE)

def Aligned (data : List Byte) : Prop := DIRENTSIZE ∣ data.length

theorem Aligned.length (aligned : Aligned data) : data.length = DIRENTSIZE * slots data :=
  (Nat.mul_div_cancel' aligned).symm

def lookup (data : List Byte) (name : List Byte) : Option Nat :=
  (List.range (slots data)).find? fun k =>
    (direntAt data k).inum ≠ 0 ∧ namecmp name (direntAt data k).name = 0

def freeSlot (data : List Byte) : Nat :=
  ((List.range (slots data)).find? fun k => (direntAt data k).inum = 0).getD (slots data)

theorem freeSlot_le : freeSlot data ≤ slots data := by
  unfold freeSlot
  cases found : (List.range (slots data)).find? fun k => (direntAt data k).inum = 0 with
  | none => simp
  | some k =>
    have below := List.mem_range.mp (List.mem_of_find?_eq_some found)
    simp only [Option.getD_some]
    omega

theorem freeSlot_free (below : freeSlot data < slots data) : (direntAt data (freeSlot data)).inum = 0 := by
  unfold freeSlot at below ⊢
  cases found : (List.range (slots data)).find? fun k => (direntAt data k).inum = 0 with
  | none =>
    rw [found] at below
    exact absurd below (Nat.lt_irrefl _)
  | some k => simpa using List.find?_some found

theorem lookup_some (found : lookup data name = some k) :
    k < slots data ∧ (direntAt data k).inum ≠ 0 ∧
      strncpy name DIRSIZ = strncpy (direntAt data k).name DIRSIZ := by
  have below := List.mem_range.mp (List.mem_of_find?_eq_some found)
  have matched := List.find?_some found
  simp only [ne_eq, Bool.decide_and, decide_not, Bool.and_eq_true, Bool.not_eq_true', decide_eq_false_iff_not,
    decide_eq_true_eq, namecmp_eq_zero] at matched
  exact ⟨below, matched.1, matched.2⟩

theorem lookup_none (absent : lookup data name = none) (below : k < slots data)
    (live : (direntAt data k).inum ≠ 0) :
    strncpy name DIRSIZ ≠ strncpy (direntAt data k).name DIRSIZ := by
  have unmatched := List.find?_eq_none.mp absent k (List.mem_range.mpr below)
  simp only [ne_eq, Bool.decide_and, decide_not, Bool.and_eq_true, Bool.not_eq_true', decide_eq_false_iff_not,
    decide_eq_true_eq, namecmp_eq_zero, not_and] at unmatched
  exact unmatched live

theorem length_overwrite (inside : off ≤ data.length) :
    (overwrite data off src).length = max data.length (off + src.length) := by
  simp only [overwrite, List.length_append, List.length_take, List.length_drop]
  omega

theorem getElem?_overwrite (inside : off ≤ data.length) (m : Nat) : (overwrite data off src)[m]? =
      if m < off then data[m]? else if m < off + src.length then src[m - off]? else data[m]? := by
  simp only [overwrite, List.append_assoc]
  split
  · rename_i before
    rw [List.getElem?_append_left (by simp; omega), List.getElem?_take_of_lt before]
  · rename_i notBefore
    have taken : (data.take off).length = off := by simp; omega
    rw [List.getElem?_append_right (by omega), taken]
    split
    · rename_i within
      rw [List.getElem?_append_left (by omega)]
    · rw [List.getElem?_append_right (by omega), List.getElem?_drop]
      congr 1
      omega

theorem overwrite_nil : overwrite data off [] = data := by
  simp [overwrite]

theorem overwrite_append {more : List Byte} (inside : off ≤ data.length) :
    overwrite (overwrite data off src) (off + src.length) more = overwrite data off (src ++ more) := by
  have start : (data.take off).length = off := by
    rw [List.length_take]
    omega
  have head : (data.take off ++ src).length = off + src.length := by rw [List.length_append, start]
  simp only [overwrite]
  rw [List.take_append_of_le_length (by rw [head]), ← head, List.take_length, List.drop_append,
    List.drop_eq_nil_of_le (by omega), List.nil_append, head, List.drop_drop, List.length_append,
    List.append_assoc (data.take off)]
  congr 2
  omega

theorem chunk_overwrite (aligned : Aligned data) (inside : k ≤ slots data) (size : src.length = DIRENTSIZE) :
    ((overwrite data (DIRENTSIZE * k) src).drop (DIRENTSIZE * j)).take DIRENTSIZE =
      if j = k then src else (data.drop (DIRENTSIZE * j)).take DIRENTSIZE := by
  have start : DIRENTSIZE * k ≤ data.length := by
    rw [aligned.length]
    exact Nat.mul_le_mul_left _ inside
  apply List.ext_getElem?
  intro m
  rw [List.getElem?_take, List.getElem?_drop, getElem?_overwrite start, size]
  by_cases inChunk : m < DIRENTSIZE
  · simp only [inChunk, ↓reduceIte]
    by_cases same : j = k
    · subst j
      simp only [↓reduceIte]
      rw [if_neg (by omega), if_pos (by omega)]
      congr 1
      omega
    · have apart : j < k ∨ k < j := by omega
      simp only [same, ↓reduceIte, List.getElem?_take, List.getElem?_drop, inChunk]
      cases apart with
      | inl before =>
        have gap : DIRENTSIZE * j + DIRENTSIZE ≤ DIRENTSIZE * k := by
          rw [← Nat.mul_succ]
          exact Nat.mul_le_mul_left _ before
        rw [if_pos (by omega)]
      | inr after =>
        have gap : DIRENTSIZE * k + DIRENTSIZE ≤ DIRENTSIZE * j := by
          rw [← Nat.mul_succ]
          exact Nat.mul_le_mul_left _ after
        rw [if_neg (by omega), if_neg (by omega)]
  · simp only [inChunk, ↓reduceIte]
    split
    · rw [List.getElem?_eq_none (by omega)]
    · rw [List.getElem?_take, if_neg inChunk]

theorem direntAt_overwrite (aligned : Aligned data) (inside : k ≤ slots data)
    (size : de.name.length = DIRSIZ) (j : Nat) :
    direntAt (overwrite data (DIRENTSIZE * k) de.bytes) j = if j = k then de else direntAt data j := by
  have length : de.bytes.length = DIRENTSIZE := by rw [de.length_bytes, size]
  unfold direntAt
  rw [chunk_overwrite aligned inside length]
  split
  · exact de.ofBytes_bytes
  · rfl

theorem aligned_overwrite (aligned : Aligned data) (inside : k ≤ slots data) (size : src.length = DIRENTSIZE) :
    Aligned (overwrite data (DIRENTSIZE * k) src) ∧
      slots (overwrite data (DIRENTSIZE * k) src) = max (slots data) (k + 1) := by
  have start : DIRENTSIZE * k ≤ data.length := by
    rw [aligned.length]
    exact Nat.mul_le_mul_left _ inside
  have length : (overwrite data (DIRENTSIZE * k) src).length = DIRENTSIZE * max (slots data) (k + 1) := by
    rw [length_overwrite start, size, aligned.length, ← Nat.mul_succ, Nat.mul_max_mul_left]
  unfold Aligned slots
  rw [length]
  exact ⟨Dvd.intro _ rfl, Nat.mul_div_cancel_left _ (by decide)⟩

def addEntry (data name : List Byte) (inum : Inum) : List Byte :=
  overwrite data (DIRENTSIZE * freeSlot data) (Dirent.bytes ⟨BitVec.ofNat 16 inum, strncpy name DIRSIZ⟩)

def clearEntry (data : List Byte) (k : Nat) : List Byte :=
  overwrite data (DIRENTSIZE * k) (List.replicate DIRENTSIZE 0)

def newDir (ip dp : Inum) : List Byte := addEntry (addEntry [] dot ip) dotdot dp

def Empty (data : List Byte) : Prop := ∀ k, 2 ≤ k → k < slots data → (direntAt data k).inum = 0

section

variable {inum : Inum}

theorem direntAt_addEntry (aligned : Aligned data) (j : Nat) : direntAt (addEntry data name inum) j =
      if j = freeSlot data then ⟨BitVec.ofNat 16 inum, strncpy name DIRSIZ⟩ else direntAt data j :=
  direntAt_overwrite aligned freeSlot_le (length_strncpy name DIRSIZ) j

theorem aligned_addEntry (aligned : Aligned data) :
    Aligned (addEntry data name inum) ∧ slots (addEntry data name inum) = max (slots data) (freeSlot data + 1) :=
  aligned_overwrite aligned freeSlot_le (by rw [Dirent.length_bytes, length_strncpy])

theorem direntAt_clearEntry (aligned : Aligned data) (below : k < slots data) (j : Nat) :
    direntAt (clearEntry data k) j = if j = k then ⟨0, List.replicate DIRSIZ 0⟩ else direntAt data j := by
  have zeros : List.replicate DIRENTSIZE 0 = Dirent.bytes ⟨0, List.replicate DIRSIZ 0⟩ := rfl
  rw [clearEntry, zeros, direntAt_overwrite aligned (Nat.le_of_lt below) (by simp)]

theorem aligned_clearEntry (aligned : Aligned data) (below : k < slots data) :
    Aligned (clearEntry data k) ∧ slots (clearEntry data k) = slots data := by
  obtain ⟨after, count⟩ := aligned_overwrite aligned (Nat.le_of_lt below) (List.length_replicate)
  exact ⟨after, by rw [clearEntry, count]; omega⟩

theorem lookup_nil : lookup [] name = none := rfl

theorem lookup_dotdot : lookup (addEntry [] dot inum) dotdot = none := by
  have aligned : Aligned [] := Nat.dvd_zero _
  have entry : direntAt (addEntry [] dot inum) 0 = ⟨BitVec.ofNat 16 inum, strncpy dot DIRSIZ⟩ :=
    direntAt_addEntry aligned 0
  have count : slots (addEntry [] dot inum) = 1 := (aligned_addEntry aligned).2
  have different : ¬namecmp dotdot (strncpy dot DIRSIZ) = 0 := by decide
  rw [lookup, count]
  simp only [List.range_succ, List.range_zero, List.nil_append, List.find?_cons, entry, different, and_false,
    decide_false, List.find?_nil]

end

end Xv6.Fs
