import Xv6.Image.Space

namespace Xv6.Image

open Xv6.Data Xv6.Memory

/-! # `copyout`

It stores the bytes at the user addresses, or stops at the first page that is not a
user page.  Where a page table is missing, it reads through the null pointer.
-/

variable {r : Ram} {current pgdir : PageDir} {page : Page} {va off fuel : Nat} {byte : Byte} {bytes rest : List Byte}

def userPage (pgdir : PageDir) (va : Nat) : Option Page :=
  (pgdir.pte va).bind fun pte => if pte.flags &&& PTE_U = 0 then none else some pte.pa

def location (pgdir : PageDir) (va : Nat) : Option (Page × Nat) := (userPage pgdir va).map (·, va % PGSIZE)

def Ram.put (pgdir : PageDir) (r : Ram) (va : Nat) (byte : Byte) : Ram :=
  match userPage pgdir va with
  | some page => r.write page (va % PGSIZE) [byte]
  | none => r

def Ram.store (pgdir : PageDir) : Ram → Nat → List Byte → Ram
  | r, _, [] => r
  | r, va, byte :: rest => Ram.store pgdir (Ram.put pgdir r va byte) ((va + 1) % 2 ^ 32) rest

theorem Ram.byte_write_one (page place : Page) (off o : Nat) (byte : Byte) :
    (r.write page off [byte]).byte place o = if (page, off) = (place, o) then byte else r.byte place o := by
  by_cases same : page = place
  · subst same
    rw [Ram.byte_write]
    by_cases here : off = o
    · simp [here]
    · by_cases above : off ≤ o
      · obtain ⟨d, distance⟩ := Nat.exists_eq_succ_of_ne_zero (show o - off ≠ 0 by omega)
        simp [here, above, distance]
      · simp [here, above]
  · rw [Ram.byte_write_of_ne (Ne.symm same)]
    simp [same]

theorem Ram.byte_put : (Ram.put pgdir r va byte).byte page off =
    if location pgdir va = some (page, off) then byte else r.byte page off := by
  unfold Ram.put location
  split
  · rename_i found is
    rw [Ram.byte_write_one, is]
    simp
  · next is => simp [is]

theorem Ram.mem_put : (Ram.put pgdir r va byte).mem = r.mem := by
  unfold Ram.put
  split
  · exact Ram.mem_write
  · rfl

theorem Ram.nullReads_put : (Ram.put pgdir r va byte).nullReads = r.nullReads := by
  unfold Ram.put
  split
  · exact Ram.nullReads_write
  · rfl

theorem Ram.mem_store : (Ram.store pgdir r va bytes).mem = r.mem := by
  induction bytes generalizing r va with
  | nil => rfl
  | cons byte rest ih => exact ih.trans Ram.mem_put

theorem Ram.nullReads_store : (Ram.store pgdir r va bytes).nullReads = r.nullReads := by
  induction bytes generalizing r va with
  | nil => rfl
  | cons byte rest ih => exact ih.trans Ram.nullReads_put

theorem successor_mod (va i : Nat) : ((va + 1) % 2 ^ 32 + i) % 2 ^ 32 = (va + (i + 1)) % 2 ^ 32 := by
  rw [Nat.mod_add_mod]
  congr 1
  omega

theorem Ram.byte_store_of_ne (small : va < 2 ^ 32)
    (apart : ∀ i < bytes.length, location pgdir ((va + i) % 2 ^ 32) ≠ some (page, off)) :
    (Ram.store pgdir r va bytes).byte page off = r.byte page off := by
  induction bytes generalizing r va with
  | nil => rfl
  | cons byte rest ih =>
    have first := apart 0 (by simp)
    rw [Nat.add_zero, Nat.mod_eq_of_lt small] at first
    rw [Ram.store, ih (Nat.mod_lt _ (by decide)), Ram.byte_put, if_neg first]
    intro i inside
    rw [successor_mod]
    exact apart (i + 1) (by simpa using inside)

/-- An address of the range has its byte, unless a later one leads to the same place. -/
theorem Ram.byte_store {i : Nat} (small : va < 2 ^ 32) (inside : i < bytes.length)
    (place : location pgdir ((va + i) % 2 ^ 32) = some (page, off))
    (last : ∀ j, i < j → j < bytes.length → location pgdir ((va + j) % 2 ^ 32) ≠ some (page, off)) :
    (Ram.store pgdir r va bytes).byte page off = bytes.get ⟨i, inside⟩ := by
  induction bytes generalizing r va i with
  | nil => cases inside
  | cons byte rest ih =>
    have bounded : (va + 1) % 2 ^ 32 < 2 ^ 32 := Nat.mod_lt _ (by decide)
    rw [Ram.store]
    cases i with
    | zero =>
      rw [Nat.add_zero, Nat.mod_eq_of_lt small] at place
      rw [Ram.byte_store_of_ne bounded, Ram.byte_put, if_pos place]
      · rfl
      · intro j within
        rw [successor_mod]
        exact last (j + 1) (Nat.succ_pos j) (by simpa using within)
    | succ i =>
      apply ih bounded
      · rw [successor_mod]
        exact place
      · intro j after upper
        rw [successor_mod]
        exact last (j + 1) (by omega) (by simpa using upper)

theorem Ram.store_append (small : va < 2 ^ 32) : Ram.store pgdir r va (bytes ++ rest) =
    Ram.store pgdir (Ram.store pgdir r va bytes) ((va + bytes.length) % 2 ^ 32) rest := by
  induction bytes generalizing r va with
  | nil => rw [List.nil_append, List.length_nil, Nat.add_zero, Nat.mod_eq_of_lt small, Ram.store]
  | cons byte tail ih =>
    rw [List.cons_append, List.length_cons, ← successor_mod, Ram.store, Ram.store,
      ih (Nat.mod_lt _ (by decide))]

theorem Ram.write_nil : r.write page off [] = r := by
  simp [Ram.write]

theorem Ram.write_cons :
    r.write page off (byte :: rest) = (r.write page off [byte]).write page (off + 1) rest := by
  unfold Ram.write
  congr 1
  rw [Function.update_idem]
  congr 1
  funext o
  dsimp only
  rw [Function.update_self]
  by_cases above : off + 1 ≤ o
  · obtain ⟨d, rfl⟩ := Nat.exists_eq_add_of_le above
    have distance : off + 1 + d - off = d + 1 := by omega
    have shorter : off + 1 + d - (off + 1) = d := by omega
    have lower : off ≤ off + 1 + d := by omega
    rw [if_pos lower, if_pos above, distance, shorter, if_pos lower]
    rfl
  · by_cases here : off = o
    · simp [here]
    · have below : ¬ off ≤ o := by omega
      simp [below, above]

theorem pte_of_page {other : Nat} (same : va / PGSIZE = other / PGSIZE) : pgdir.pte va = pgdir.pte other := by
  have outer : va / (PGSIZE * NPTENTRIES) = other / (PGSIZE * NPTENTRIES) := by
    rw [← Nat.div_div_eq_div_mul, ← Nat.div_div_eq_div_mul, same]
  simp only [PageDir.pte, PDX, PTX, outer, same]

theorem userPage_of_page {other : Nat} (same : va / PGSIZE = other / PGSIZE) :
    userPage pgdir va = userPage pgdir other := by
  simp only [userPage, pte_of_page same]

theorem Ram.store_page (found : userPage pgdir va = some page) (small : va < 2 ^ 32)
    (fits : va % PGSIZE + bytes.length ≤ PGSIZE) :
    Ram.store pgdir r va bytes = r.write page (va % PGSIZE) bytes := by
  have size : PGSIZE = 4096 := rfl
  induction bytes generalizing r va with
  | nil => exact Ram.write_nil.symm
  | cons byte rest ih =>
    have first : Ram.put pgdir r va byte = r.write page (va % PGSIZE) [byte] := by rw [Ram.put, found]
    rw [Ram.store, first]
    cases rest with
    | nil => rw [Ram.store]
    | cons next tail =>
      rw [List.length_cons, List.length_cons, size] at fits
      have inside : (va + 1) % 2 ^ 32 = va + 1 := Nat.mod_eq_of_lt (by omega)
      have same : (va + 1) / PGSIZE = va / PGSIZE := by
        rw [size]
        omega
      have offset : (va + 1) % PGSIZE = va % PGSIZE + 1 := by
        rw [size]
        omega
      have foundNext : userPage pgdir (va + 1) = some page := by
        rw [userPage_of_page same]
        exact found
      have fitsNext : (va + 1) % PGSIZE + (next :: tail).length ≤ PGSIZE := by
        rw [offset, size, List.length_cons]
        omega
      rw [inside, ih foundNext (by omega) fitsNext, offset]
      exact Ram.write_cons.symm

theorem uva2ka_found (found : (pgdir.table (PDX va)).isSome) :
    uva2ka current pgdir va = pure (userPage pgdir va) := by
  obtain ⟨table, is⟩ := Option.isSome_iff_exists.mp found
  unfold uva2ka userPage
  rw [is]
  cases present : table.pte (PTX va) with
  | none | some pte => simp [PageDir.pte, is, present]

theorem uva2ka_missing (missing : pgdir.table (PDX va) = none) :
    Meets (fun _ => True) (uva2ka current pgdir va) r fun _ final => final.nullReads = r.nullReads + 1 := by
  unfold uva2ka
  rw [missing]
  apply Meets.modify_bind
  cases current.pte 0 with
  | none => exact .throw True.intro
  | some first =>
    apply Meets.get_bind
    dsimp only
    split
    · exact .pure rfl
    · split
      · exact .pure rfl
      · split
        · exact .throw True.intro
        · exact .pure rfl

abbrev piece (va : Nat) (bytes : List Byte) : List Byte := bytes.take (PGSIZE - va % PGSIZE)

theorem PGROUNDDOWN_page (va : Nat) : PGROUNDDOWN va / PGSIZE = va / PGSIZE :=
  Nat.mul_div_cancel _ (by decide)

theorem sub_PGROUNDDOWN (va : Nat) : va - PGROUNDDOWN va = va % PGSIZE := by
  have split := Nat.div_add_mod va PGSIZE
  rw [PGROUNDDOWN, Nat.mul_comm]
  omega

theorem next_page (va : Nat) : (PGROUNDDOWN va + PGSIZE) % 2 ^ 32 = (va + (PGSIZE - va % PGSIZE)) % 2 ^ 32 := by
  have size : PGSIZE = 4096 := rfl
  rw [PGROUNDDOWN, size]
  congr 1
  omega

theorem PDX_PGROUNDDOWN (small : va < 2 ^ 32) : PDX (PGROUNDDOWN va) = PDX va :=
  ((same_entry_iff ((Nat.div_mul_le_self va PGSIZE).trans_lt small) small).mpr (PGROUNDDOWN_page va)).1

theorem copyoutLoop_cons (nonempty : bytes ≠ []) : copyoutLoop current pgdir (fuel + 1) va bytes =
    uva2ka current pgdir (PGROUNDDOWN va) >>= fun page => page.elim (pure false) fun page =>
      memmove page (va % PGSIZE) (piece va bytes) >>= fun _ =>
        copyoutLoop current pgdir fuel ((va + (PGSIZE - va % PGSIZE)) % 2 ^ 32)
          (bytes.drop (PGSIZE - va % PGSIZE)) := by
  rw [copyoutLoop, if_pos (List.length_pos_iff.mpr nonempty)]
  dsimp only
  congr 1
  funext page
  cases page with
  | none => rfl
  | some page =>
    simp only [Option.elim_some, piece, sub_PGROUNDDOWN, next_page, ← List.take_eq_take_min,
      ← List.drop_eq_drop_min]

theorem copyoutLoop_nil : copyoutLoop current pgdir fuel va [] = pure true := by
  cases fuel with
  | zero => rfl
  | succ fuel => rw [copyoutLoop, if_neg (by simp)]

theorem copyoutLoop_round (nonempty : bytes ≠ []) (small : va < 2 ^ 32) (found : (pgdir.table (PDX va)).isSome) :
    copyoutLoop current pgdir (fuel + 1) va bytes =
      (userPage pgdir va).elim (pure false) fun page => memmove page (va % PGSIZE) (piece va bytes) >>= fun _ =>
        copyoutLoop current pgdir fuel ((va + (PGSIZE - va % PGSIZE)) % 2 ^ 32)
          (bytes.drop (PGSIZE - va % PGSIZE)) := by
  have table : (pgdir.table (PDX (PGROUNDDOWN va))).isSome := by
    rw [PDX_PGROUNDDOWN small]
    exact found
  rw [copyoutLoop_cons nonempty, uva2ka_found table, pure_bind, userPage_of_page (PGROUNDDOWN_page va)]

theorem uva2ka_nullReads : Meets (fun _ => True) (uva2ka current pgdir va) r fun _ final =>
    r.nullReads ≤ final.nullReads := by
  cases found : pgdir.table (PDX va) with
  | none => exact (uva2ka_missing found).weaken fun _ final grown => by omega
  | some table =>
    rw [uva2ka_found (by simp [found])]
    exact .pure le_rfl

theorem copyoutLoop_nullReads : Meets (fun _ => True) (copyoutLoop current pgdir fuel va bytes) r fun _ final =>
    r.nullReads ≤ final.nullReads := by
  induction fuel generalizing va bytes r with
  | zero =>
    unfold copyoutLoop
    split
    · exact .throw True.intro
    · exact .pure le_rfl
  | succ fuel ih =>
    by_cases empty : bytes = []
    · rw [empty, copyoutLoop_nil]
      exact .pure le_rfl
    · rw [copyoutLoop_cons empty]
      apply uva2ka_nullReads.bind
      intro page middle grown
      cases page with
      | none => exact .pure grown
      | some page =>
        apply Meets.modify_bind
        exact ih.weaken fun _ final later => grown.trans later

theorem table_of_userPage (user : (userPage pgdir va).isSome) : (pgdir.table (PDX va)).isSome := by
  cases found : pgdir.table (PDX va) with
  | none => simp [userPage, PageDir.pte, found] at user
  | some table => rfl

theorem userPage_in_page {i : Nat} (small : va < 2 ^ 32) (inside : i < PGSIZE - va % PGSIZE) :
    userPage pgdir ((va + i) % 2 ^ 32) = userPage pgdir va := by
  have size : PGSIZE = 4096 := rfl
  rw [size] at inside
  rw [Nat.mod_eq_of_lt (by omega)]
  apply userPage_of_page
  rw [size]
  omega

/-- A round over a user page stores the bytes of that page. -/
theorem copyoutLoop_user (nonempty : bytes ≠ []) (small : va < 2 ^ 32) (user : (userPage pgdir va).isSome) :
    (copyoutLoop current pgdir (fuel + 1) va bytes).run r =
      (copyoutLoop current pgdir fuel ((va + (PGSIZE - va % PGSIZE)) % 2 ^ 32)
        (bytes.drop (PGSIZE - va % PGSIZE))).run (Ram.store pgdir r va (piece va bytes)) := by
  obtain ⟨page, is⟩ := Option.isSome_iff_exists.mp user
  have fits : va % PGSIZE + (piece va bytes).length ≤ PGSIZE := by
    have inside : va % PGSIZE < PGSIZE := Nat.mod_lt _ (by decide)
    rw [List.length_take]
    omega
  rw [copyoutLoop_round nonempty small (table_of_userPage user), is, Option.elim_some, Ram.store_page is small fits]
  rfl

theorem store_pieces (small : va < 2 ^ 32) : Ram.store pgdir (Ram.store pgdir r va (piece va bytes))
      ((va + (PGSIZE - va % PGSIZE)) % 2 ^ 32) (bytes.drop (PGSIZE - va % PGSIZE)) = Ram.store pgdir r va bytes := by
  by_cases whole : PGSIZE - va % PGSIZE ≤ bytes.length
  · have length : (piece va bytes).length = PGSIZE - va % PGSIZE := by
      rw [List.length_take]
      omega
    rw [← length, ← Ram.store_append small, length, List.take_append_drop]
  · have all : piece va bytes = bytes := List.take_of_length_le (by omega)
    have nothing : bytes.drop (PGSIZE - va % PGSIZE) = [] := List.drop_eq_nil_of_le (by omega)
    rw [all, nothing, Ram.store]

def Enough (fuel va : Nat) (bytes : List Byte) : Prop := va % PGSIZE + bytes.length ≤ fuel * PGSIZE

theorem Enough.next (enough : Enough (fuel + 1) va bytes) :
    Enough fuel ((va + (PGSIZE - va % PGSIZE)) % 2 ^ 32) (bytes.drop (PGSIZE - va % PGSIZE)) := by
  have size : PGSIZE = 4096 := rfl
  unfold Enough at enough ⊢
  rw [List.length_drop, size]
  rw [size] at enough
  omega

theorem Enough.nil (enough : Enough 0 va bytes) : bytes = [] := by
  unfold Enough at enough
  exact List.length_eq_zero_iff.mp (by omega)

theorem copyoutLoop_all (enough : Enough fuel va bytes) (small : va < 2 ^ 32)
    (user : ∀ i < bytes.length, (userPage pgdir ((va + i) % 2 ^ 32)).isSome) :
    (copyoutLoop current pgdir fuel va bytes).run r = .ok (true, Ram.store pgdir r va bytes) := by
  induction fuel generalizing va bytes r with
  | zero =>
    rw [enough.nil]
    rfl
  | succ fuel ih =>
    by_cases empty : bytes = []
    · rw [empty, copyoutLoop_nil]
      rfl
    · have first := user 0 (List.length_pos_iff.mpr empty)
      rw [Nat.add_zero, Nat.mod_eq_of_lt small] at first
      rw [copyoutLoop_user empty small first, ih enough.next (Nat.mod_lt _ (by decide)), store_pieces small]
      intro i inside
      rw [Nat.mod_add_mod, Nat.add_assoc]
      apply user
      rw [List.length_drop] at inside
      omega

theorem later_page {d : Nat} (small : va < 2 ^ 32) (user : (userPage pgdir va).isSome)
    (fails : userPage pgdir ((va + d) % 2 ^ 32) = none) : ∃ e, d = PGSIZE - va % PGSIZE + e := by
  apply Nat.exists_eq_add_of_le
  by_contra early
  rw [userPage_in_page small (by omega)] at fails
  rw [fails] at user
  cases user

/-- Where the first `d` addresses have user pages, the loop gets to the next one. -/
theorem copyoutLoop_reaches {d : Nat} (current : PageDir) (r : Ram) (enough : Enough fuel va bytes) (small : va < 2 ^ 32)
    (inside : d < bytes.length) (before : ∀ i < d, (userPage pgdir ((va + i) % 2 ^ 32)).isSome)
    (fails : userPage pgdir ((va + d) % 2 ^ 32) = none) :
    ∃ fuel', (copyoutLoop current pgdir fuel va bytes).run r =
      (copyoutLoop current pgdir (fuel' + 1) ((va + d) % 2 ^ 32) (bytes.drop d)).run
        (Ram.store pgdir r va (bytes.take d)) := by
  induction fuel generalizing va bytes r d with
  | zero =>
    rw [enough.nil] at inside
    cases inside
  | succ fuel ih =>
    cases d with
    | zero =>
      have here : (va + 0) % 2 ^ 32 = va := Nat.mod_eq_of_lt small
      refine ⟨fuel, ?_⟩
      rw [here]
      rfl
    | succ d =>
      have nonempty : bytes ≠ [] := by
        rintro rfl
        cases inside
      have first := before 0 (Nat.succ_pos d)
      rw [Nat.add_zero, Nat.mod_eq_of_lt small] at first
      obtain ⟨e, is⟩ := later_page small first fails
      rw [is] at inside before fails ⊢
      have shorter : e < (bytes.drop (PGSIZE - va % PGSIZE)).length := by
        rw [List.length_drop]
        omega
      have beforeNext : ∀ i < e,
          (userPage pgdir (((va + (PGSIZE - va % PGSIZE)) % 2 ^ 32 + i) % 2 ^ 32)).isSome := by
        intro i within
        rw [Nat.mod_add_mod, Nat.add_assoc]
        exact before _ (by omega)
      have failsNext : userPage pgdir (((va + (PGSIZE - va % PGSIZE)) % 2 ^ 32 + e) % 2 ^ 32) = none := by
        rw [Nat.mod_add_mod, Nat.add_assoc]
        exact fails
      obtain ⟨fuel', ran⟩ := ih (Ram.store pgdir r va (piece va bytes)) enough.next
        (Nat.mod_lt _ (by decide)) shorter beforeNext failsNext
      refine ⟨fuel', ?_⟩
      have length : (piece va bytes).length = PGSIZE - va % PGSIZE := by
        rw [List.length_take]
        omega
      have joined : Ram.store pgdir (Ram.store pgdir r va (piece va bytes))
          ((va + (PGSIZE - va % PGSIZE)) % 2 ^ 32) ((bytes.drop (PGSIZE - va % PGSIZE)).take e) =
          Ram.store pgdir r va (bytes.take (PGSIZE - va % PGSIZE + e)) := by
        rw [List.take_add, Ram.store_append small, length]
      rw [copyoutLoop_user nonempty small first, ran, joined, Nat.mod_add_mod, Nat.add_assoc, List.drop_drop]

/-- What a call that ends with `result` has done: it has inspected only entries
that `walkpgdir` found, it reports whether the whole range is made of user pages,
it has stored nothing outside the range, and the whole range if it succeeds.
Of addresses that lead to one place, the last one counts. -/
structure CopiedOut (pgdir : PageDir) (va : Nat) (p : List Byte) (r : Ram) (result : Bool) (final : Ram) : Prop where
  nullReads : final.nullReads = r.nullReads
  mem : final.mem = r.mem
  reported : result = true ↔ ∀ i < p.length, (location pgdir ((va + i) % 2 ^ 32)).isSome
  others : ∀ page off, (∀ i < p.length, location pgdir ((va + i) % 2 ^ 32) ≠ some (page, off)) →
    final.byte page off = r.byte page off
  copied : result = true → ∀ (i : Nat) (inside : i < p.length) (page : Page) (off : Nat),
    location pgdir ((va + i) % 2 ^ 32) = some (page, off) →
    (∀ j, i < j → j < p.length → location pgdir ((va + j) % 2 ^ 32) ≠ some (page, off)) →
    final.byte page off = p.get ⟨i, inside⟩

def CopyoutContract (current pgdir : PageDir) (va : Nat) (p : List Byte) (r : Ram) : Prop :=
  ∃ result final, (copyout current pgdir va p).run r = .ok (result, final) ∧ CopiedOut pgdir va p r result final

/-- Every page of the range up to the first that is not a user page has a page table. -/
def Guarded (pgdir : PageDir) (va len : Nat) : Prop :=
  ∀ d < len, (∀ i < d, (location pgdir ((va + i) % 2 ^ 32)).isSome) →
    (pgdir.table (PDX ((va + d) % 2 ^ 32))).isSome

theorem isSome_location : (location pgdir va).isSome = (userPage pgdir va).isSome := Option.isSome_map

theorem enough_copyout : Enough (bytes.length / PGSIZE + 2) va bytes := by
  have size : PGSIZE = 4096 := rfl
  unfold Enough
  rw [size]
  omega

theorem exists_first_failure {test : Nat → Prop} {len : Nat} (some : ¬ ∀ i < len, test i) :
    ∃ d < len, (∀ i < d, test i) ∧ ¬ test d := by
  classical
  push Not at some
  refine ⟨Nat.find some, (Nat.find_spec some).1, ?_, (Nat.find_spec some).2⟩
  intro i early
  have least := Nat.find_min some early
  have inside := (Nat.find_spec some).1
  by_contra fails
  exact least ⟨by omega, fails⟩

theorem copyout_succeeds (current : PageDir) (r : Ram) (small : va < 2 ^ 32)
    (user : ∀ i < bytes.length, (location pgdir ((va + i) % 2 ^ 32)).isSome) :
    ∃ final, (copyout current pgdir va bytes).run r = .ok (true, final) ∧ CopiedOut pgdir va bytes r true final := by
  refine ⟨_, copyoutLoop_all enough_copyout small fun i inside => isSome_location ▸ user i inside, ?_⟩
  exact {
    nullReads := Ram.nullReads_store
    mem := Ram.mem_store
    reported := by simpa using user
    others := fun page off apart => Ram.byte_store_of_ne small apart
    copied := fun _ i inside page off place last => Ram.byte_store small inside place last }

theorem copyout_fails {d : Nat} (current : PageDir) (r : Ram) (small : va < 2 ^ 32) (inside : d < bytes.length)
    (before : ∀ i < d, (location pgdir ((va + i) % 2 ^ 32)).isSome)
    (fails : ¬ (location pgdir ((va + d) % 2 ^ 32)).isSome)
    (found : (pgdir.table (PDX ((va + d) % 2 ^ 32))).isSome) :
    ∃ final, (copyout current pgdir va bytes).run r = .ok (false, final) ∧ CopiedOut pgdir va bytes r false final := by
  have absent : userPage pgdir ((va + d) % 2 ^ 32) = none := by simpa [isSome_location] using fails
  obtain ⟨fuel', ran⟩ := copyoutLoop_reaches current r enough_copyout small inside
    (fun i early => isSome_location ▸ before i early) absent
  have nonempty : bytes.drop d ≠ [] := by simpa using inside
  rw [copyoutLoop_round nonempty (Nat.mod_lt _ (by decide)) found, absent] at ran
  refine ⟨_, ran, ?_⟩
  exact {
    nullReads := Ram.nullReads_store
    mem := Ram.mem_store
    reported := by
      simp only [Bool.false_eq_true, false_iff]
      exact fun all => fails (all d inside)
    others := by
      intro page off apart
      apply Ram.byte_store_of_ne small
      intro i within
      rw [List.length_take] at within
      exact apart i (by omega)
    copied := fun wrong => by cases wrong }

theorem Guarded.copyout (guarded : Guarded pgdir va bytes.length) (small : va < 2 ^ 32) :
    CopyoutContract current pgdir va bytes r := by
  by_cases all : ∀ i < bytes.length, (location pgdir ((va + i) % 2 ^ 32)).isSome
  · obtain ⟨final, ran, copied⟩ := copyout_succeeds current r small all
    exact ⟨true, final, ran, copied⟩
  · obtain ⟨d, inside, before, fails⟩ := exists_first_failure all
    obtain ⟨final, ran, copied⟩ := copyout_fails current r small inside before fails
      (guarded d inside before)
    exact ⟨false, final, ran, copied⟩

/-- Without a page table at the first address that is not a user address. -/
theorem copyout_strays {d : Nat} (small : va < 2 ^ 32) (inside : d < bytes.length)
    (before : ∀ i < d, (location pgdir ((va + i) % 2 ^ 32)).isSome)
    (missing : pgdir.table (PDX ((va + d) % 2 ^ 32)) = none) :
    Meets (fun _ => True) (copyout current pgdir va bytes) r fun _ final => r.nullReads < final.nullReads := by
  have absent : userPage pgdir ((va + d) % 2 ^ 32) = none := by
    rw [userPage, PageDir.pte, missing]
    rfl
  obtain ⟨fuel', ran⟩ := copyoutLoop_reaches current r enough_copyout small inside
    (fun i early => isSome_location ▸ before i early) absent
  have nonempty : bytes.drop d ≠ [] := by simpa using inside
  have table := PDX_PGROUNDDOWN (Nat.mod_lt (va + d) (by decide : 0 < 2 ^ 32))
  have goesOn : Meets (fun _ => True) (copyoutLoop current pgdir (fuel' + 1) ((va + d) % 2 ^ 32) (bytes.drop d))
      (Ram.store pgdir r va (bytes.take d)) fun _ final => r.nullReads < final.nullReads := by
    rw [copyoutLoop_cons nonempty]
    apply (uva2ka_missing (table ▸ missing)).bind
    intro page middle strayed
    rw [Ram.nullReads_store] at strayed
    cases page with
    | none => exact .pure (by omega)
    | some page =>
      apply Meets.modify_bind
      apply copyoutLoop_nullReads.weaken
      intro _ final later
      rw [Ram.nullReads_write] at later
      omega
  exact goesOn.congr_run ran

/-- `copyout` keeps its contract exactly where it finds every page table it looks
for. -/
theorem copyout_contract_iff (small : va < 2 ^ 32) :
    CopyoutContract current pgdir va bytes r ↔ Guarded pgdir va bytes.length := by
  constructor
  · intro ⟨result, final, ran, copied⟩ d inside before
    cases found : pgdir.table (PDX ((va + d) % 2 ^ 32)) with
    | some table => rfl
    | none =>
      have strayed := (copyout_strays small inside before found).of_run ran
      have same := copied.nullReads
      omega
  · intro guarded
    exact guarded.copyout small

/-- The first word of the caller is a present user entry for the page at 20480. -/
def strayRam : Ram where
  mem := { freelist := [], kernelEnd := PGSIZE }
  byte page off := if page = 4 * PGSIZE then ([0x07, 0x50] : List Byte).getD off 0 else 0

theorem copyout_contract_iff_stray :
    CopyoutContract onePage oneTable 0xFD000000 [0x41] strayRam ↔ Guarded oneTable 0xFD000000 1 :=
  copyout_contract_iff (by decide)

def strayResult : Option (Bool × Nat × Byte) :=
  ((copyout onePage oneTable 0xFD000000 [0x41]).run strayRam).toOption.map fun result =>
    (result.1, result.2.nullReads, result.2.byte (5 * PGSIZE) 0)

/-- A copy to an address without a page table succeeds and writes to that page. -/
theorem copyout_writes_stray_page : strayResult = some (true, 1, 0x41) ∧
    ¬ CopyoutContract onePage oneTable 0xFD000000 [0x41] strayRam := by
  have seen : strayResult = some (true, 1, 0x41) := by decide +kernel
  refine ⟨seen, ?_⟩
  intro ⟨result, final, ran, copied⟩
  have same : final.nullReads = 0 := copied.nullReads
  unfold strayResult at seen
  rw [ran] at seen
  simp [Except.toOption, same] at seen

end Xv6.Image
