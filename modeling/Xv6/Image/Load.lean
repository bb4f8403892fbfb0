import Xv6.Image.Copyout

namespace Xv6.Image

open Xv6.Data Xv6.Memory

/-! # The load loop of `exec`

Every address below the size so far reads as the last segment loaded over it says. -/

variable {fine : Panic → Prop} {r : Ram} {pgdir : PageDir} {page : Page} {va addr other b sz newsz fuel : Nat}
  {bytes file : List Byte} {extra : Multiset Page} {done : List ProgHeader} {ph : ProgHeader}

def Separate (pgdir : PageDir) : Prop :=
  ∀ va < KERNBASE, ∀ other < KERNBASE, ∀ pte pte', pgdir.pte va = some pte → pgdir.pte other = some pte' →
    pte.pa = pte'.pa → va / PGSIZE = other / PGSIZE

theorem table_of_pte {pte : Pte} (mapped : pgdir.pte va = some pte) : (pgdir.table (PDX va)).isSome := by
  unfold PageDir.pte at mapped
  obtain ⟨table, found, _⟩ := Option.bind_eq_some_iff.mp mapped
  simp [found]

theorem separate_of_nodup (distinct : pgdir.pages.Nodup) : Separate pgdir := by
  have top : KERNBASE = 2147483648 := rfl
  intro va user other user' pte pte' mapped mapped' same
  by_contra apart
  have found := table_of_pte mapped
  -- Without the entry of `va`, the page still belongs to the directory.
  have without := pgdir.pages_setPte (userIndex_of_lt user) found none
  rw [mapped] at without
  have left : (pgdir.setPte va none).pte other = some pte' := by
    rw [PageDir.pte_setPte found (by omega) (by omega), if_neg (Ne.symm apart)]
    exact mapped'
  have member := PageDir.mem_pages (userIndex_of_lt user') left
  have whole : pgdir.pages = {pte.pa} + (pgdir.setPte va none).pages := by
    simpa [ptePages, add_comm] using without.symm
  rw [whole, Multiset.singleton_add, Multiset.nodup_cons, same] at distinct
  exact distinct.1 member

theorem pte_of_userPage (user : userPage pgdir va = some page) : ∃ pte, pgdir.pte va = some pte ∧ pte.pa = page := by
  unfold userPage at user
  obtain ⟨pte, mapped, is⟩ := Option.bind_eq_some_iff.mp user
  split at is
  · cases is
  · exact ⟨pte, mapped, Option.some.inj is⟩

theorem location_eq_some {off : Nat} (place : location pgdir va = some (page, off)) :
    (∃ pte, pgdir.pte va = some pte ∧ pte.pa = page) ∧ va % PGSIZE = off := by
  unfold location at place
  obtain ⟨found, user, is⟩ := Option.map_eq_some_iff.mp place
  cases is
  exact ⟨pte_of_userPage user, rfl⟩

theorem Separate.location_inj (separate : Separate pgdir) {pte : Pte} (mapped : pgdir.pte va = some pte)
    (place : location pgdir other = some (pte.pa, va % PGSIZE)) (user : va < KERNBASE) (user' : other < KERNBASE) :
    va = other := by
  obtain ⟨⟨pte', mapped', same⟩, offset⟩ := location_eq_some place
  have pages := separate va user other user' pte pte' mapped mapped' same.symm
  rw [← Nat.div_add_mod va PGSIZE, ← Nat.div_add_mod other PGSIZE, pages, offset]

theorem Separate.read_store (separate : Separate pgdir) (upper : addr + bytes.length ≤ KERNBASE)
    (user : ∀ va, addr ≤ va → va < addr + bytes.length → (userPage pgdir va).isSome) (below : va < KERNBASE) :
    (Ram.store pgdir r addr bytes).read pgdir va =
      if addr ≤ va ∧ va < addr + bytes.length then bytes[va - addr]? else r.read pgdir va := by
  have top : KERNBASE = 2147483648 := rfl
  by_cases empty : bytes.length = 0
  · rw [List.length_eq_zero_iff.mp empty, Ram.store, if_neg]
    rw [List.length_nil]
    omega
  · have small : addr < 2 ^ 32 := by omega
    have plain (j : Nat) (inside : j < bytes.length) : (addr + j) % 2 ^ 32 = addr + j := Nat.mod_eq_of_lt (by omega)
    cases mapped : pgdir.pte va with
    | none =>
      rw [if_neg]
      · simp [Ram.read, mapped]
      · intro inside
        obtain ⟨page, found⟩ := Option.isSome_iff_exists.mp (user va inside.1 inside.2)
        obtain ⟨pte, present, _⟩ := pte_of_userPage found
        rw [mapped] at present
        cases present
    | some pte =>
      by_cases inside : addr ≤ va ∧ va < addr + bytes.length
      · obtain ⟨page, found⟩ := Option.isSome_iff_exists.mp (user va inside.1 inside.2)
        obtain ⟨pte', present, is⟩ := pte_of_userPage found
        rw [mapped] at present
        cases present
        obtain ⟨i, rfl⟩ := Nat.exists_eq_add_of_le inside.1
        have within : i < bytes.length := by omega
        have place : location pgdir ((addr + i) % 2 ^ 32) = some (pte.pa, (addr + i) % PGSIZE) := by
          rw [plain i within, location, found, is]
          rfl
        rw [if_pos inside, Nat.add_sub_cancel_left, List.getElem?_eq_getElem within]
        simp only [Ram.read, mapped, Option.map_some]
        rw [Ram.byte_store small within place]
        · rfl
        · intro j after last again
          rw [plain j last] at again
          have same := separate.location_inj mapped again below (by omega)
          omega
      · rw [if_neg inside]
        simp only [Ram.read, mapped, Option.map_some]
        rw [Ram.byte_store_of_ne small]
        intro j within again
        rw [plain j within] at again
        have same := separate.location_inj mapped again below (by omega)
        omega

theorem Kept.of_store (upper : addr + bytes.length ≤ KERNBASE) :
    Kept 0 extra r pgdir extra (Ram.store pgdir r addr bytes) pgdir where
  pages := by rw [Ram.mem_store]
  kernelEnd := by rw [Ram.mem_store]
  nullReads := Ram.nullReads_store
  outside := by
    have top : KERNBASE = 2147483648 := rfl
    intro page foreign
    funext off
    cases bytes with
    | nil => rfl
    | cons first rest =>
      apply Ram.byte_store_of_ne (by omega)
      intro i inside place
      rw [Nat.mod_eq_of_lt (by omega)] at place
      obtain ⟨⟨pte, mapped, is⟩, _⟩ := location_eq_some place
      have owned := PageDir.mem_pages (userIndex_of_lt (show addr + i < KERNBASE by omega)) mapped
      rw [is] at owned
      apply foreign
      simp [owned]
  pte := fun _ _ _ => rfl
  read := fun _ below => absurd below (Nat.not_lt_zero _)
  kernel := fun _ _ => rfl
  tables := fun _ => id

def UserMapped (pgdir : PageDir) (b : Nat) : Prop := ∀ va < b, ∃ page, pgdir.pte va = some ⟨page, PTE_W + PTE_U⟩

theorem userPage_of_pte (mapped : pgdir.pte va = some ⟨page, PTE_W + PTE_U⟩) : userPage pgdir va = some page := by
  have accessible : (PTE_W + PTE_U) &&& PTE_U ≠ 0 := by decide
  simp [userPage, mapped, accessible]

variable {offset : Nat} {headers : List ProgHeader}

theorem loaduvmLoop_round {i : Nat} (inside : i < sz) (small : addr + i < 2 ^ 32)
    (mapped : pgdir.pte (addr + i) = some ⟨page, PTE_W + PTE_U⟩) :
    loaduvmLoop pgdir addr file offset sz (fuel + 1) i =
      (match readi file ((offset + i) % 2 ^ 32) (min (sz - i) PGSIZE) with
      | none => pure false
      | some bytes => do
        memmove page 0 bytes
        if bytes.length ≠ min (sz - i) PGSIZE then pure false
        else loaduvmLoop pgdir addr file offset sz fuel (i + PGSIZE)) := by
  obtain ⟨table, found⟩ := Option.isSome_iff_exists.mp (table_of_pte mapped)
  have entry : table.pte (PTX (addr + i)) = some ⟨page, PTE_W + PTE_U⟩ := by
    simpa [PageDir.pte, found] using mapped
  rw [loaduvmLoop, if_pos inside, Nat.mod_eq_of_lt small, found]
  dsimp only
  rw [entry]
  rfl

def LoadedFrom (pgdir : PageDir) (addr : Nat) (file : List Byte) (offset sz i : Nat) (r : Ram) (loaded : Bool)
    (r' : Ram) : Prop :=
  ∃ bytes, bytes.length ≤ sz - i ∧ r' = Ram.store pgdir r (addr + i) bytes ∧
    (loaded = true → bytes = (file.drop (offset + i)).take (sz - i) ∧ bytes.length = sz - i)

theorem LoadedFrom.finished {i : Nat} (past : sz ≤ i) : LoadedFrom pgdir addr file offset sz i r true r := by
  have nothing : sz - i = 0 := by omega
  exact ⟨[], by simp, rfl, by simp [nothing]⟩

theorem LoadedFrom.cons {i : Nat} {loaded : Bool} {r' : Ram}
    (rest : LoadedFrom pgdir addr file offset sz (i + PGSIZE) (Ram.store pgdir r (addr + i) bytes) loaded r')
    (small : addr + i + PGSIZE < 2 ^ 32) (is : (file.drop (offset + i)).take (min (sz - i) PGSIZE) = bytes)
    (full : bytes.length = min (sz - i) PGSIZE) : LoadedFrom pgdir addr file offset sz i r loaded r' := by
  obtain ⟨others, short, stored, whole⟩ := rest
  by_cases last : sz - i ≤ PGSIZE
  · have empty : others = [] := List.eq_nil_of_length_eq_zero (by omega)
    subst empty
    rw [Nat.min_eq_left last] at is full
    exact ⟨bytes, full.le, stored, fun _ => ⟨is.symm, full⟩⟩
  · rw [Nat.min_eq_right (by omega)] at is full
    refine ⟨bytes ++ others, ?_, ?_, ?_⟩
    · rw [List.length_append]
      omega
    · rw [Ram.store_append (by omega), full, Nat.mod_eq_of_lt small, Nat.add_assoc]
      exact stored
    · intro success
      obtain ⟨tail, length⟩ := whole success
      have parts : sz - i = PGSIZE + (sz - (i + PGSIZE)) := by omega
      constructor
      · rw [parts, List.take_add, List.drop_drop, is, tail, Nat.add_assoc]
      · rw [List.length_append, full, length]
        exact parts.symm

theorem loaduvmLoop_meets {i : Nat} (aligned : addr % PGSIZE = 0) (step : i % PGSIZE = 0)
    (mapped : UserMapped pgdir b) (upper : addr + sz ≤ b) (user : b ≤ KERNBASE) (within : i < sz → offset + i < 2 ^ 32)
    (enough : sz ≤ i + fuel * PGSIZE) :
    Meets fine (loaduvmLoop pgdir addr file offset sz fuel i) r (LoadedFrom pgdir addr file offset sz i r) := by
  obtain ⟨size, top⟩ := page_sizes
  induction fuel generalizing i r with
  | zero =>
    rw [loaduvmLoop, if_neg (by omega)]
    exact .pure (.finished (by omega))
  | succ fuel ih =>
    by_cases inside : i < sz
    · obtain ⟨page, present⟩ := mapped (addr + i) (by omega)
      rw [loaduvmLoop_round inside (by omega) present, Nat.mod_eq_of_lt (within inside)]
      cases got : readi file (offset + i) (min (sz - i) PGSIZE) with
      | none => exact .pure ⟨[], by simp, rfl, by simp⟩
      | some bytes =>
        -- `readi` has checked that the range does not pass the end of the 32-bit offsets.
        obtain ⟨valid, is⟩ : ¬ (file.length < offset + i ∨ 2 ^ 32 ≤ offset + i + min (sz - i) PGSIZE) ∧
            (file.drop (offset + i)).take (min (sz - i) PGSIZE) = bytes := by
          simpa [readi] using got
        have longest : bytes.length ≤ min (sz - i) PGSIZE := is ▸ List.length_take_le ..
        have place : (addr + i) % PGSIZE = 0 := by
          rw [size] at aligned step ⊢
          omega
        have stored : r.write page 0 bytes = Ram.store pgdir r (addr + i) bytes := by
          rw [Ram.store_page (userPage_of_pte present) (by omega) (by omega), place]
        dsimp only
        apply Meets.modify_bind
        rw [stored]
        split
        · exact .pure ⟨bytes, by omega, rfl, by simp⟩
        · rename_i full
          rw [not_not] at full
          have multiple : (i + PGSIZE) % PGSIZE = 0 := by rwa [Nat.add_mod_right]
          apply (ih multiple (by omega) (by rw [size] at enough ⊢; omega)).weaken
          intro loaded r' rest
          exact rest.cons (by omega) is full
    · rw [loaduvmLoop, if_neg inside]
      exact .pure (.finished (by omega))

theorem loaduvm_meets (aligned : addr % PGSIZE = 0) (mapped : UserMapped pgdir b) (upper : addr + sz ≤ b)
    (user : b ≤ KERNBASE) (small : offset < 2 ^ 32) :
    Meets fine (loaduvm pgdir addr file offset sz) r (LoadedFrom pgdir addr file offset sz 0 r) := by
  have space : KERNBASE ≤ pagesOfSpace * PGSIZE := by decide
  unfold loaduvm
  rw [if_neg (by simpa using aligned)]
  exact loaduvmLoop_meets aligned rfl mapped upper user (fun _ => small) (by omega)

def loadHeaders (file : List Byte) : Nat → Nat → List ProgHeader
  | 0, _ => []
  | left + 1, off =>
    let ph := (elfFile file).ph off
    if ph.type ≠ ELF_PROG_LOAD then loadHeaders file left ((off + 32) % 2 ^ 32)
    else ph :: loadHeaders file left ((off + 32) % 2 ^ 32)

def Covers (ph : ProgHeader) (va : Nat) : Prop := ph.vaddr ≤ va ∧ va < ph.vaddr + ph.filesz

instance (ph : ProgHeader) (va : Nat) : Decidable (Covers ph va) := inferInstanceAs (Decidable (_ ∧ _))

def imageByte (file : List Byte) (headers : List ProgHeader) (va : Nat) : Option Byte :=
  headers.foldl (fun byte ph => if Covers ph va then file[ph.off + (va - ph.vaddr)]? else byte) (some 0)

theorem imageByte_concat : imageByte file (done ++ [ph]) va =
    if Covers ph va then file[ph.off + (va - ph.vaddr)]? else imageByte file done va := by
  rw [imageByte, List.foldl_append]
  rfl

theorem imageByte_uncovered {later : List ProgHeader} (uncovered : ∀ ph ∈ later, ¬ Covers ph va) :
    imageByte file (headers ++ later) va = imageByte file headers va := by
  induction later using List.reverseRecOn with
  | nil => rw [List.append_nil]
  | append_singleton rest ph ih =>
    rw [List.forall_mem_append] at uncovered
    rw [← List.append_assoc, imageByte_concat, if_neg (uncovered.2 ph (by simp)), ih uncovered.1]

structure Fits (file : List Byte) (sz : Nat) (ph : ProgHeader) : Prop where
  holds : ph.filesz ≤ ph.memsz
  below : ph.vaddr + ph.memsz ≤ sz
  inFile : ph.filesz ≤ file.length - ph.off

/-- The address space of a program of `sz` bytes after loading some headers. -/
structure Loaded (file : List Byte) (headers : List ProgHeader) (r : Ram) (pgdir : PageDir) (sz : Nat) : Prop where
  below : sz < KERNBASE
  mapped : UserMapped pgdir (PGROUNDUP sz)
  empty : Unmapped pgdir (PGROUNDUP sz)
  fits : ∀ ph ∈ headers, Fits file sz ph
  contents : ∀ va < PGROUNDUP sz, r.read pgdir va = imageByte file headers va

theorem Fits.uncovered (fits : Fits file sz ph) (above : sz ≤ va) : ¬ Covers ph va := by
  intro covers
  have length := fits.holds
  have upper := fits.below
  have inside := covers.2
  omega

theorem Loaded.grown {r' : Ram} {next : PageDir} (loaded : Loaded file done r pgdir sz) (grows : sz ≤ newsz)
    (below : newsz < KERNBASE) (kept : Kept (PGROUNDUP sz) 0 r pgdir 0 r' next)
    (fresh : Fresh r' next (PGROUNDUP sz) (PGROUNDUP newsz)) (empty : Unmapped next (PGROUNDUP newsz)) :
    Loaded file done r' next newsz where
  below := below
  mapped := by
    obtain ⟨size, top⟩ := page_sizes
    have rounded := le_PGROUNDUP below.le
    intro va inside
    by_cases old : va < PGROUNDUP sz
    · rw [kept.pte va (by omega) (.inl old)]
      exact loaded.mapped va old
    · exact fresh.mapped va (by omega) inside
  empty := empty
  fits := by
    intro ph member
    have fit := loaded.fits ph member
    exact { fit with below := fit.below.trans grows }
  contents := by
    have rounded := le_PGROUNDUP loaded.below.le
    intro va inside
    by_cases old : va < PGROUNDUP sz
    · rw [kept.read va old]
      exact loaded.contents va old
    · have nothing : imageByte file ([] ++ done) va = imageByte file [] va :=
        imageByte_uncovered fun ph member => (loaded.fits ph member).uncovered (by omega)
      rw [List.nil_append] at nothing
      rw [fresh.zero va (by omega) inside, nothing]
      rfl

theorem Loaded.allocuvm_meets (loaded : Loaded file done r pgdir sz) (holds : Holds fine pgdir.pages r) :
    Meets fine (allocuvm pgdir sz newsz) r fun result r' => Kept 0 0 r pgdir 0 r' result.1 ∧
      (result.2 ≠ 0 → result.2 = max sz newsz ∧ Loaded file done r' result.1 result.2) := by
  by_cases high : KERNBASE ≤ newsz
  · rw [allocuvm_past high]
    exact .pure ⟨.refl, fun nonzero => absurd rfl nonzero⟩
  · by_cases less : newsz < sz
    · unfold allocuvm
      rw [if_neg high, if_pos less]
      exact .pure ⟨.refl, fun _ => ⟨(max_eq_left less.le).symm, loaded⟩⟩
    · apply (Image.allocuvm_meets holds (by omega) (by omega) loaded.empty).weaken
      intro (next, size) r' final
      cases final with
      | inl success =>
        obtain ⟨is, kept, fresh, empty⟩ := success
        dsimp only at is kept fresh empty ⊢
        subst is
        refine ⟨kept.below (Nat.zero_le _), fun _ => ⟨(max_eq_right (by omega)).symm, ?_⟩⟩
        exact loaded.grown (by omega) (by omega) kept fresh empty
      | inr failure =>
        obtain ⟨zero, kept, _⟩ := failure
        exact ⟨kept.below (Nat.zero_le _), fun nonzero => absurd zero nonzero⟩

theorem Loaded.loaduvm_meets (loaded : Loaded file done r pgdir sz) (distinct : pgdir.pages.Nodup)
    (aligned : ph.vaddr % PGSIZE = 0) (holds : ph.filesz ≤ ph.memsz) (below : ph.vaddr + ph.memsz ≤ sz)
    (small : ph.off < 2 ^ 32) :
    Meets fine (loaduvm pgdir ph.vaddr file ph.off ph.filesz) r fun success r' => Kept 0 0 r pgdir 0 r' pgdir ∧
      (success = true → Loaded file (done ++ [ph]) r' pgdir sz) := by
  have rounded := le_PGROUNDUP loaded.below.le
  have limit := PGROUNDUP_le loaded.below.le
  apply (Image.loaduvm_meets aligned loaded.mapped (by omega) limit small).weaken
  intro success r' ⟨bytes, short, stored, whole⟩
  rw [Nat.add_zero] at stored
  rw [stored]
  refine ⟨.of_store (by omega), ?_⟩
  intro done'
  obtain ⟨is, length⟩ := whole done'
  rw [Nat.add_zero, Nat.sub_zero] at is
  rw [Nat.sub_zero] at length
  have inFile : ph.filesz ≤ file.length - ph.off := by
    rw [is, List.length_take, List.length_drop] at length
    omega
  refine { loaded with fits := ?_, contents := ?_ }
  · rw [List.forall_mem_append]
    exact ⟨loaded.fits, by simpa using ⟨holds, below, inFile⟩⟩
  · intro va inside
    have user : ∀ va, ph.vaddr ≤ va → va < ph.vaddr + bytes.length → (userPage pgdir va).isSome := by
      intro va _ upper
      obtain ⟨page, mapped⟩ := loaded.mapped va (by omega)
      simp [userPage_of_pte mapped]
    rw [(separate_of_nodup distinct).read_store (by omega) user (by omega), imageByte_concat, length,
      loaded.contents va inside]
    by_cases covers : ph.vaddr ≤ va ∧ va < ph.vaddr + ph.filesz
    · rw [if_pos covers, if_pos (show Covers ph va from covers), is, List.getElem?_take_of_lt (by omega),
        List.getElem?_drop]
    · rw [if_neg covers, if_neg (show ¬ Covers ph va from covers)]

theorem littleEndian_lt (bytes : List Byte) : littleEndian bytes < 256 ^ bytes.length := by
  induction bytes with
  | nil => decide
  | cons byte rest ih =>
    have first := byte.isLt
    change byte.toNat + 256 * littleEndian rest < 256 ^ (rest.length + 1)
    rw [Nat.pow_succ]
    omega

theorem fieldAt_lt (off : Nat) : fieldAt file off 4 < 2 ^ 32 := by
  have short : ((file.drop off).take 4).length ≤ 4 := List.length_take_le ..
  have bounded := littleEndian_lt ((file.drop off).take 4)
  exact bounded.trans_le (Nat.pow_le_pow_right (by decide) short)

def LoadEnds (file : List Byte) (headers : List ProgHeader) (r : Ram) (pgdir : PageDir)
    (result : PageDir × Option Nat) (r' : Ram) : Prop :=
  Kept 0 0 r pgdir 0 r' result.1 ∧ ∀ sz, result.2 = some sz → Loaded file headers r' result.1 sz

theorem LoadEnds.refused {next : PageDir} {r' : Ram} (kept : Kept 0 0 r pgdir 0 r' next) :
    LoadEnds file headers r pgdir (next, none) r' :=
  ⟨kept, fun _ is => by cases is⟩

theorem LoadEnds.after {next : PageDir} {r' s : Ram} {result : PageDir × Option Nat}
    (kept : Kept 0 0 r pgdir 0 r' next) (ends : LoadEnds file headers r' next result s) :
    LoadEnds file headers r pgdir result s :=
  ⟨kept.trans ends.1, ends.2⟩

theorem execLoad_meets {left off : Nat} (loaded : Loaded file done r pgdir sz) (holds : Holds fine pgdir.pages r) :
    Meets fine (execLoad file left off pgdir sz) r (LoadEnds file (done ++ loadHeaders file left off) r pgdir) := by
  induction left generalizing off pgdir sz r done with
  | zero =>
    refine .pure ⟨.refl, ?_⟩
    intro size is
    cases is
    rwa [loadHeaders, List.append_nil]
  | succ left ih =>
    obtain ⟨ph, is⟩ : ∃ ph, ph = (elfFile file).ph off := ⟨_, rfl⟩
    have memsz : ph.memsz < 2 ^ 32 := is ▸ fieldAt_lt (off + 20)
    have offset : ph.off < 2 ^ 32 := is ▸ fieldAt_lt (off + 4)
    unfold execLoad loadHeaders
    rw [← is]
    dsimp only
    split
    · exact .pure (.refused .refl)
    · split
      · exact ih loaded holds
      · split
        · exact .pure (.refused .refl)
        · rename_i fits
          split
          · exact .pure (.refused .refl)
          · rename_i passes
            have whole := holds.whole
            apply (loaded.allocuvm_meets holds).bind
            intro (grown, size) r1 ⟨kept, larger⟩
            dsimp only at kept larger ⊢
            split
            · exact .pure (.refused kept)
            · rename_i nonzero
              obtain ⟨greater, loaded⟩ := larger nonzero
              have held : Holds fine grown.pages r1 := by simpa using whole.kept kept
              have below : ph.vaddr + ph.memsz ≤ size := by
                omega
              split
              · exact .pure (.refused kept)
              · rename_i aligned
                apply (loaded.loaduvm_meets (Multiset.nodup_add.mp held.distinct).1 (not_not.mp aligned)
                  (Nat.not_lt.mp fits) below offset).bind
                intro success r2 ⟨stored, more⟩
                have both := kept.trans stored
                cases success with
                | false => exact .pure (.refused both)
                | true =>
                  have held : Holds fine grown.pages r2 := by simpa using whole.kept both
                  apply (ih (more rfl) held).weaken
                  intro result r3 ends
                  rw [List.append_assoc] at ends
                  exact .after both ends

end Xv6.Image
