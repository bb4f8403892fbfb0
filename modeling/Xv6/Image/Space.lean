import Xv6.Image.Machine
import Xv6.Memory.Spaces

namespace Xv6.Image

open Xv6.Data Xv6.Memory

/-! # Address spaces and their contents

The pages that stay mapped keep their bytes. -/

variable {fine : Panic → Prop} {r r' s : Ram} {pgdir pgdir' last : PageDir} {page : Page}
  {a b va off limit oldsz newsz fuel : Nat} {bytes : List Byte} {held extra extra' extra'' : Multiset Page}

@[simp] theorem Ram.mem_write : (r.write page off bytes).mem = r.mem := rfl

@[simp] theorem Ram.nullReads_write : (r.write page off bytes).nullReads = r.nullReads := rfl

theorem Ram.byte_write_of_ne {other : Page} (different : other ≠ page) :
    (r.write page off bytes).byte other = r.byte other :=
  Function.update_of_ne different ..

theorem Ram.byte_write (page : Page) (off o : Nat) (bytes : List Byte) : (r.write page off bytes).byte page o =
    if off ≤ o then bytes[o - off]?.getD (r.byte page o) else r.byte page o := by
  simp [Ram.write]

theorem Ram.byte_allocate {mem : Mem} (used : page ∉ freePages mem) : (r.allocate mem).byte page = r.byte page := by
  rw [freePages, Multiset.mem_coe] at used
  simp [Ram.allocate, used]

theorem lift_meets {α : Type} {program : Vm α} {post : α → Mem → Prop} (meets : Meets fine program r.mem post) :
    Meets fine (lift program) r fun value final => post value final.mem ∧ final = r.allocate final.mem := by
  unfold Meets StateT.run at meets ⊢
  unfold lift StateT.run
  cases ran : program r.mem with
  | ok result =>
    rw [ran] at meets
    exact ⟨meets, rfl⟩
  | error reason =>
    rw [ran] at meets
    exact meets

/-- No page of the allocator is owned twice, and each may be freed. -/
structure Holds (fine : Panic → Prop) (held : Multiset Page) (r : Ram) : Prop where
  distinct : (held + freePages r.mem).Nodup
  frees : ∀ page ∈ held + freePages r.mem, Frees fine r.mem.kernelEnd page

theorem Holds.whole {fine : Panic → Prop} {held : Multiset Page} {r : Ram} (holds : Holds fine held r) :
    Holds fine (0 + held) r := by
  rwa [zero_add]

/-- From one address space, and the pages held besides it, to the next: below
`limit` and in the kernel half both are as they were. -/
structure Kept (limit : Nat) (extra : Multiset Page) (r : Ram) (pgdir : PageDir) (extra' : Multiset Page)
    (r' : Ram) (pgdir' : PageDir) : Prop where
  pages : extra' + pgdir'.pages + freePages r'.mem = extra + pgdir.pages + freePages r.mem
  kernelEnd : r'.mem.kernelEnd = r.mem.kernelEnd
  nullReads : r'.nullReads = r.nullReads
  outside : ∀ page ∉ extra + pgdir.pages + freePages r.mem, r'.byte page = r.byte page
  pte : ∀ va < 2 ^ 32, va < limit ∨ KERNBASE ≤ va → pgdir'.pte va = pgdir.pte va
  read : ∀ va < limit, r'.read pgdir' va = r.read pgdir va
  kernel : ∀ i, ¬ UserIndex i → pgdir'.table i = pgdir.table i
  tables : ∀ i, (pgdir.table i).isSome → (pgdir'.table i).isSome

theorem Kept.refl : Kept limit extra r pgdir extra r pgdir :=
  ⟨rfl, rfl, rfl, fun _ _ => rfl, fun _ _ _ => rfl, fun _ _ => rfl, fun _ _ => rfl, fun _ => id⟩

theorem Kept.trans (first : Kept limit extra r pgdir extra' r' pgdir')
    (second : Kept limit extra' r' pgdir' extra'' s last) : Kept limit extra r pgdir extra'' s last where
  pages := second.pages.trans first.pages
  kernelEnd := second.kernelEnd.trans first.kernelEnd
  nullReads := second.nullReads.trans first.nullReads
  outside := by
    intro page foreign
    rw [second.outside page (first.pages ▸ foreign), first.outside page foreign]
  pte := fun va small place => (second.pte va small place).trans (first.pte va small place)
  read := fun va below => (second.read va below).trans (first.read va below)
  kernel := fun i outside => (second.kernel i outside).trans (first.kernel i outside)
  tables := fun i found => second.tables i (first.tables i found)

theorem Kept.below (kept : Kept limit extra r pgdir extra' r' pgdir') (lower : b ≤ limit) :
    Kept b extra r pgdir extra' r' pgdir' :=
  { kept with
    pte := fun va small place => kept.pte va small (place.imp_left fun below => below.trans_le lower)
    read := fun va below => kept.read va (below.trans_le lower) }

theorem Holds.kept (holds : Holds fine (extra + pgdir.pages) r)
    (kept : Kept limit extra r pgdir extra' r' pgdir') : Holds fine (extra' + pgdir'.pages) r' where
  distinct := kept.pages ▸ holds.distinct
  frees := by
    intro page member
    rw [kept.kernelEnd]
    exact holds.frees page (kept.pages ▸ member)

theorem Holds.notMem (holds : Holds fine held r) (member : page ∈ held) : page ∉ freePages r.mem :=
  Multiset.disjoint_left.mp (Multiset.nodup_add.mp holds.distinct).2.2 member

theorem Kept.of_allocate {mem : Mem} (holds : Holds fine (extra + pgdir.pages) r) (user : limit ≤ KERNBASE)
    (pages : extra' + pgdir'.pages + freePages mem = extra + pgdir.pages + freePages r.mem)
    (kernelEnd : mem.kernelEnd = r.mem.kernelEnd)
    (pte : ∀ va < 2 ^ 32, va < limit ∨ KERNBASE ≤ va → pgdir'.pte va = pgdir.pte va)
    (kernel : ∀ i, ¬ UserIndex i → pgdir'.table i = pgdir.table i)
    (tables : ∀ i, (pgdir.table i).isSome → (pgdir'.table i).isSome) :
    Kept limit extra r pgdir extra' (r.allocate mem) pgdir' where
  pages := pages
  kernelEnd := kernelEnd
  nullReads := rfl
  outside := by
    intro page foreign
    apply Ram.byte_allocate
    intro free
    exact foreign (pages ▸ Multiset.mem_add.mpr (.inr free))
  pte := pte
  read := by
    have distinct : (extra' + pgdir'.pages + freePages mem).Nodup := pages ▸ holds.distinct
    intro va below
    have bounded : va < 2 ^ 32 := by
      have top : KERNBASE = 2147483648 := rfl
      omega
    have same := pte va bounded (.inl below)
    cases mapped : pgdir.pte va with
    | none =>
      rw [mapped] at same
      simp [Ram.read, mapped, same]
    | some entry =>
      rw [mapped] at same
      have owned := PageDir.mem_pages (userIndex_of_lt (below.trans_le user)) same
      have used : entry.pa ∉ freePages mem := Multiset.disjoint_left.mp (Multiset.nodup_add.mp distinct).2.2
        (Multiset.mem_add.mpr (.inr owned))
      simp [Ram.read, mapped, same, Ram.byte_allocate used]
  kernel := kernel
  tables := tables

theorem Kept.of_write (holds : Holds fine ({page} + pgdir.pages) r) (user : limit ≤ KERNBASE) :
    Kept limit {page} r pgdir {page} (r.write page off bytes) pgdir where
  pages := rfl
  kernelEnd := rfl
  nullReads := rfl
  outside := by
    intro other foreign
    apply Ram.byte_write_of_ne
    rintro rfl
    simp at foreign
  pte := fun _ _ _ => rfl
  read := by
    intro va below
    cases mapped : pgdir.pte va with
    | none => simp [Ram.read, mapped]
    | some entry =>
      have owned := PageDir.mem_pages (userIndex_of_lt (below.trans_le user)) mapped
      have different : entry.pa ≠ page := by
        rintro rfl
        have twice := (Multiset.nodup_add.mp holds.distinct).1
        rw [Multiset.singleton_add, Multiset.nodup_cons] at twice
        exact twice.1 owned
      simp [Ram.read, mapped, Ram.byte_write_of_ne different]
  kernel := fun _ _ => rfl
  tables := fun _ => id

def Unmapped (pgdir : PageDir) (b : Nat) : Prop := ∀ va, b ≤ va → va < KERNBASE → pgdir.pte va = none

structure Fresh (r : Ram) (pgdir : PageDir) (a b : Nat) : Prop where
  mapped : ∀ va, a ≤ va → va < b → ∃ page, pgdir.pte va = some ⟨page, PTE_W + PTE_U⟩
  zero : ∀ va, a ≤ va → va < b → r.read pgdir va = some 0

theorem kalloc_keeps (holds : Holds fine pgdir.pages r) (user : limit ≤ KERNBASE) :
    Meets fine (lift kalloc) r fun page r' => Kept limit 0 r pgdir (page.elim 0 ({·})) r' pgdir := by
  apply (lift_meets (kalloc_meets.conserving (kalloc_frame pgdir.pages))).weaken
  rintro page _ ⟨⟨kernelEnd, _, rfl, pages⟩, is⟩
  rw [is]
  refine Kept.of_allocate (by simpa using holds) user ?_ kernelEnd (fun _ _ _ => rfl) (fun _ _ => rfl) (fun _ => id)
  rw [pages, zero_add]

theorem kfree_keeps (holds : Holds fine ({page} + pgdir.pages) r) (user : limit ≤ KERNBASE) :
    Meets fine (lift (kfree page)) r fun _ r' => Kept limit {page} r pgdir 0 r' pgdir := by
  have frees := holds.frees page (by simp)
  apply (lift_meets ((kfree_meets frees).conserving ((kfree_conserves page).frame pgdir.pages))).weaken
  rintro _ _ ⟨⟨freed, _, ⟨_, rfl, rfl⟩, pages⟩, is⟩
  rw [is]
  exact Kept.of_allocate holds user pages (by rw [freed]) (fun _ _ _ => rfl) (fun _ _ => rfl) (fun _ => id)

theorem deallocuvm_keeps (holds : Holds fine (extra + pgdir.pages) r) (below : newsz ≤ KERNBASE)
    (start : oldsz ≤ KERNBASE) : Meets fine (lift (deallocuvm pgdir newsz oldsz)) r fun result r' =>
      Kept (PGROUNDUP oldsz) extra r pgdir extra r' result.1 ∧
        if oldsz < newsz then Cleared pgdir (PGROUNDUP oldsz) newsz result.1 ∧ result.2 = oldsz
        else result.1 = pgdir ∧ result.2 = newsz := by
  obtain ⟨size, top⟩ := page_sizes
  by_cases shrinks : oldsz < newsz
  · have frees : ∀ va < KERNBASE, ∀ pte, pgdir.pte va = some pte → PGROUNDUP oldsz ≤ va →
        Frees fine r.mem.kernelEnd pte.pa := by
      intro va small pte mapped _
      apply holds.frees
      simp [PageDir.mem_pages (userIndex_of_lt small) mapped]
    have conserves : Conserves freePages (extra + pgdir.pages) (deallocuvm pgdir newsz oldsz) fun result kept =>
        ∃ own, own = result.1.pages ∧ kept = own + extra := by
      rw [add_comm]
      exact (deallocuvm_conserves below).frame extra
    apply (lift_meets ((deallocuvm_meets below shrinks frees).conserving conserves)).weaken
    rintro ⟨next, size'⟩ _ ⟨⟨⟨cleared, sized, freed⟩, _, ⟨_, rfl, rfl⟩, pages⟩, is⟩
    rw [is, if_pos shrinks]
    refine ⟨Kept.of_allocate holds ?_ ?_ (by rw [freed]) ?_ cleared.kernel ?_, cleared, sized⟩
    · rw [PGROUNDUP, size]
      omega
    · rw [add_comm extra]
      exact pages
    · intro va small place
      rw [cleared.pte va small, if_neg]
      rw [size]
      omega
    · intro i found
      rw [cleared.tables]
      exact found
  · unfold deallocuvm
    rw [if_pos (by omega)]
    have nothing : Meets fine (pure (pgdir, newsz) : Vm (PageDir × Nat)) r.mem fun result final =>
        result = (pgdir, newsz) ∧ final = r.mem := .pure ⟨rfl, rfl⟩
    apply (lift_meets nothing).weaken
    rintro result r' ⟨⟨is, mem⟩, final⟩
    rw [is, final, mem]
    refine ⟨?_, by simp [shrinks]⟩
    exact Kept.of_allocate holds (by rw [PGROUNDUP, size]; omega) rfl rfl (fun _ _ _ => rfl) (fun _ _ => rfl) fun _ => id

theorem mappages_keeps {perm : Nat} (holds : Holds fine ({page} + pgdir.pages) r) (aligned : a % PGSIZE = 0)
    (below : a < KERNBASE) (empty : pgdir.pte a = none) :
    Meets fine (lift (mappages pgdir a PGSIZE page perm)) r fun result r' =>
      if result.2 then
        Kept a {page} r pgdir 0 r' result.1 ∧ Stored pgdir a (some ⟨page, perm⟩) result.1 ∧
          r'.byte page = r.byte page
      else Kept KERNBASE {page} r pgdir {page} r' result.1 ∧ result.1.pte = pgdir.pte := by
  obtain ⟨size, top⟩ := page_sizes
  apply (lift_meets ((mappages_meets aligned below empty).conserving (mappages_page aligned below))).weaken
  intro (next, mapped) final ⟨⟨⟨is, kernelEnd⟩, _, kept, pages⟩, allocated⟩
  dsimp only at is kept ⊢
  subst kept
  rw [allocated]
  have user := userIndex_of_lt below
  cases mapped with
  | true =>
    rw [if_pos rfl] at pages ⊢
    obtain ⟨stored, _⟩ : Stored pgdir a (some ⟨page, perm⟩) next ∧ (next.table (PDX a)).isSome := by
      simpa [PageMapped] using is
    have keeps : Kept a {page} r pgdir 0 (r.allocate final.mem) next := by
      apply Kept.of_allocate holds below.le pages kernelEnd
      · intro va small place
        rw [stored.pte va small, if_neg]
        rw [size] at aligned ⊢
        omega
      · intro i kernel
        exact stored.others i fun equal => kernel (equal ▸ user)
      · exact stored.kept
    refine ⟨keeps, stored, Ram.byte_allocate ?_⟩
    have mapped : next.pte a = some ⟨page, perm⟩ := by rw [stored.pte a (by omega), if_pos rfl]
    have owned := PageDir.mem_pages user mapped
    exact (holds.kept keeps).notMem (by simpa using owned)
  | false =>
    rw [if_neg Bool.false_ne_true] at pages ⊢
    have walked : Walked pgdir a next := by simpa [PageMapped] using is
    refine ⟨Kept.of_allocate holds le_rfl pages kernelEnd ?_ ?_ walked.kept, walked.pte⟩
    · intro va _ _
      rw [walked.pte]
    · intro i kernel
      exact walked.others i fun equal => kernel (equal ▸ user)

theorem Unmapped.of_cleared (empty : Unmapped pgdir a) (inside : a ≤ newsz)
    (cleared : Cleared pgdir b newsz pgdir') : Unmapped pgdir' b := by
  have top : KERNBASE = 2147483648 := rfl
  intro va lower upper
  rw [cleared.pte va (by omega)]
  by_cases mapped : va / PGSIZE * PGSIZE < newsz
  · rw [if_pos ⟨lower, mapped⟩]
  · rw [if_neg (fun both => mapped both.2)]
    have page := Nat.div_mul_le_self va PGSIZE
    exact empty va (by omega) upper

theorem Fresh.cons (first : Fresh r pgdir a b) (kept : Kept b extra r pgdir extra' r' pgdir')
    (rest : Fresh r' pgdir' b limit) (user : b ≤ KERNBASE) : Fresh r' pgdir' a limit where
  mapped := by
    have top : KERNBASE = 2147483648 := rfl
    intro va lower upper
    by_cases old : va < b
    · rw [kept.pte va (by omega) (.inl old)]
      exact first.mapped va lower old
    · exact rest.mapped va (by omega) upper
  zero := by
    intro va lower upper
    by_cases old : va < b
    · rw [kept.read va old]
      exact first.zero va lower old
    · exact rest.zero va (by omega) upper

theorem PGROUNDUP_mono {a b : Nat} (lower : a ≤ b) (user : b ≤ KERNBASE) : PGROUNDUP a ≤ PGROUNDUP b := by
  obtain ⟨size, top⟩ := page_sizes
  rw [PGROUNDUP, PGROUNDUP, size]
  omega

theorem PGROUNDUP_le {a : Nat} (user : a ≤ KERNBASE) : PGROUNDUP a ≤ KERNBASE := by
  obtain ⟨size, top⟩ := page_sizes
  rw [PGROUNDUP, size]
  omega

theorem Fresh.of_stored (stored : Stored pgdir a (some ⟨page, PTE_W + PTE_U⟩) pgdir')
    (aligned : a % PGSIZE = 0) (below : a < KERNBASE)
    (same : r'.byte page = (r.write page 0 (List.replicate PGSIZE 0)).byte page) :
    Fresh r' pgdir' a (a + PGSIZE) := by
  obtain ⟨size, top⟩ := page_sizes
  have mapped : ∀ va, a ≤ va → va < a + PGSIZE → pgdir'.pte va = some ⟨page, PTE_W + PTE_U⟩ := by
    intro va lower upper
    rw [stored.pte va (by omega), if_pos]
    rw [size] at aligned upper ⊢
    omega
  refine ⟨fun va lower upper => ⟨page, mapped va lower upper⟩, ?_⟩
  intro va lower upper
  have inside : va % PGSIZE < PGSIZE := Nat.mod_lt _ (by decide)
  simp [Ram.read, mapped va lower upper, same, Ram.byte_write, inside]

theorem Fresh.empty (past : b ≤ a) : Fresh r pgdir a b :=
  ⟨fun va _ _ => by omega, fun va _ _ => by omega⟩

def Allocated (oldsz newsz a : Nat) (r : Ram) (pgdir : PageDir) (result : PageDir × Nat) (r' : Ram) : Prop :=
  (result.2 = newsz ∧ Kept a 0 r pgdir 0 r' result.1 ∧ Fresh r' result.1 a (PGROUNDUP newsz) ∧
    Unmapped result.1 (PGROUNDUP newsz)) ∨
  (result.2 = 0 ∧ Kept (PGROUNDUP oldsz) 0 r pgdir 0 r' result.1 ∧ Unmapped result.1 (PGROUNDUP oldsz))

/-- Giving back what has been allocated so far. -/
theorem deallocuvm_failed (holds : Holds fine (extra + pgdir.pages) r) (below : newsz < KERNBASE)
    (inside : a < newsz) (start : PGROUNDUP oldsz ≤ a) (user : oldsz ≤ KERNBASE) (empty : Unmapped pgdir a) :
    Meets fine (lift (deallocuvm pgdir newsz oldsz)) r fun result r' =>
      Kept (PGROUNDUP oldsz) extra r pgdir extra r' result.1 ∧ Unmapped result.1 (PGROUNDUP oldsz) := by
  have rounded := le_PGROUNDUP user
  apply (deallocuvm_keeps holds below.le user).weaken
  intro result r' ⟨kept, cleared⟩
  rw [if_pos (by omega)] at cleared
  exact ⟨kept, empty.of_cleared inside.le cleared.1⟩

theorem allocuvmLoop_meets (holds : Holds fine pgdir.pages r) (below : newsz < KERNBASE) (grows : oldsz ≤ newsz)
    (aligned : a % PGSIZE = 0) (start : PGROUNDUP oldsz ≤ a) (within : a ≤ PGROUNDUP newsz)
    (enough : newsz ≤ a + fuel * PGSIZE) (empty : Unmapped pgdir a) :
    Meets fine (allocuvmLoop oldsz newsz fuel pgdir a) r (Allocated oldsz newsz a r pgdir) := by
  obtain ⟨size, top⟩ := page_sizes
  have rounded := le_PGROUNDUP below.le
  have multiple := aligned_PGROUNDUP newsz
  rw [size] at rounded multiple
  induction fuel generalizing pgdir a r with
  | zero =>
    rw [size] at aligned
    have last : a = PGROUNDUP newsz := by omega
    rw [allocuvmLoop, if_neg (by omega)]
    exact .pure (.inl ⟨rfl, .refl, .empty last.ge, last ▸ empty⟩)
  | succ fuel ih =>
    unfold allocuvmLoop
    split
    · rename_i inside
      have user : a < KERNBASE := inside.trans below
      have small : oldsz ≤ KERNBASE := grows.trans below.le
      have whole := holds.whole
      apply (kalloc_keeps holds user.le).bind
      intro page r1 allocated
      cases page with
      | none =>
        apply (deallocuvm_failed (whole.kept allocated) below inside start small empty).bind
        intro (next, _) r2 ⟨kept, unmapped⟩
        exact .pure (.inr ⟨rfl, (allocated.below start).trans kept, unmapped⟩)
      | some page =>
        have held : Holds fine ({page} + pgdir.pages) r1 := whole.kept allocated
        apply Meets.modify_bind
        obtain ⟨r2, written⟩ : ∃ r2, r2 = r1.write page 0 (List.replicate PGSIZE 0) := ⟨_, rfl⟩
        have zeroed : Kept a {page} r1 pgdir {page} r2 pgdir := written ▸ Kept.of_write held user.le
        have before := allocated.trans zeroed
        rw [← written]
        apply (mappages_keeps (held.kept zeroed) aligned user (empty a le_rfl user)).bind
        intro (next, mapped) r3 is
        cases mapped with
        | false =>
          obtain ⟨kept, same⟩ := is
          have unmapped : Unmapped next a := by
            intro va lower upper
            rw [same]
            exact empty va lower upper
          dsimp only
          rw [if_pos rfl]
          apply (deallocuvm_failed ((held.kept zeroed).kept kept) below inside start small unmapped).bind
          intro (left, _) r4 ⟨given, nothing⟩
          have known := (((before.trans (kept.below user.le)).below start)).trans given
          apply (kfree_keeps (whole.kept known) ?_).bind
          · intro _ r5 freed
            exact .pure (.inr ⟨rfl, known.trans freed, nothing⟩)
          · exact start.trans user.le
        | true =>
          obtain ⟨kept, stored, same⟩ := is
          have known := before.trans kept
          have first : Fresh r3 next a (a + PGSIZE) := .of_stored stored aligned user (written ▸ same)
          have unmapped : Unmapped next (a + PGSIZE) := by
            intro va lower upper
            rw [stored.pte va (by omega), if_neg]
            · exact empty va (by omega) upper
            · rw [size] at aligned lower ⊢
              omega
          dsimp only
          rw [if_neg (by decide)]
          refine (ih ?_ (aligned_add aligned) ?_ ?_ ?_ unmapped).weaken ?_
          · simpa using whole.kept known
          · omega
          · rw [size] at aligned ⊢
            omega
          · rw [size] at enough ⊢
            omega
          · intro result r' final
            cases final with
            | inl success =>
              obtain ⟨sized, more, fresh, nothing⟩ := success
              have whole : a + PGSIZE ≤ KERNBASE := by
                rw [size] at aligned ⊢
                omega
              exact .inl ⟨sized, known.trans (more.below (by omega)), first.cons more fresh whole, nothing⟩
            | inr failure =>
              obtain ⟨zero, less, nothing⟩ := failure
              exact .inr ⟨zero, (known.below start).trans less, nothing⟩
    · rename_i past
      rw [size] at aligned
      have last : a = PGROUNDUP newsz := by omega
      exact .pure (.inl ⟨rfl, .refl, .empty last.ge, last ▸ empty⟩)

theorem allocuvm_past (past : KERNBASE ≤ newsz) : allocuvm pgdir oldsz newsz = pure (pgdir, 0) := if_pos past

theorem allocuvm_meets (holds : Holds fine pgdir.pages r) (below : newsz < KERNBASE) (grows : oldsz ≤ newsz)
    (empty : Unmapped pgdir (PGROUNDUP oldsz)) :
    Meets fine (allocuvm pgdir oldsz newsz) r (Allocated oldsz newsz (PGROUNDUP oldsz) r pgdir) := by
  have space : KERNBASE ≤ pagesOfSpace * PGSIZE := by decide
  have enough : newsz ≤ PGROUNDUP oldsz + pagesOfSpace * PGSIZE :=
    (below.le.trans space).trans (Nat.le_add_left ..)
  have within : PGROUNDUP oldsz ≤ PGROUNDUP newsz := by
    obtain ⟨size, top⟩ := page_sizes
    rw [PGROUNDUP, PGROUNDUP, size]
    omega
  unfold allocuvm
  rw [if_neg (by omega), if_neg (by omega)]
  exact allocuvmLoop_meets holds below grows (aligned_PGROUNDUP oldsz) le_rfl within enough empty

theorem onRam_meets {α : Type} {code : Code α} {k : Kernel} {post : α → Ram → Prop}
    (meets : Meets fine code k.ram post) :
    Meets fine (onRam code) k fun value final => post value final.ram ∧ final = { k with ram := final.ram } := by
  unfold Meets StateT.run at meets ⊢
  unfold onRam StateT.run
  cases ran : code k.ram with
  | ok result =>
    rw [ran] at meets
    exact ⟨meets, rfl⟩
  | error reason =>
    rw [ran] at meets
    exact meets

def oneTable : PageDir := ⟨2 * PGSIZE, Function.update (fun _ => none) 0 (some ⟨3 * PGSIZE, fun _ => none⟩)⟩

theorem pte_oneTable (va : Nat) : oneTable.pte va = none := by
  by_cases first : PDX va = 0 <;> simp [oneTable, PageDir.pte, first]

theorem pages_oneTable : oneTable.pages = {2 * PGSIZE} + {3 * PGSIZE} := by
  have fresh : PageDir.pages ⟨2 * PGSIZE, fun _ => none⟩ = {2 * PGSIZE} := by simp [PageDir.pages_eq]
  have grown := (⟨2 * PGSIZE, fun _ => none⟩ : PageDir).pages_update (i := 0) (some ⟨3 * PGSIZE, fun _ => none⟩)
  rw [tablePages_none, add_zero, fresh, tablePages_empty (fun _ _ => rfl)] at grown
  exact grown

def onePage : PageDir := oneTable.setPte 0 (some ⟨4 * PGSIZE, PTE_W + PTE_U⟩)

theorem pte_onePage {va : Nat} (small : va < 2 ^ 32) :
    onePage.pte va = if va / PGSIZE = 0 / PGSIZE then some ⟨4 * PGSIZE, PTE_W + PTE_U⟩ else none := by
  rw [onePage, oneTable.pte_setPte (by rfl) (by decide) small, pte_oneTable]

theorem pages_onePage : onePage.pages = {2 * PGSIZE} + {3 * PGSIZE} + {4 * PGSIZE} := by
  have stored : onePage.pages + ptePages (oneTable.pte 0) = oneTable.pages + {4 * PGSIZE} :=
    oneTable.pages_setPte (userIndex_of_lt (by decide)) (by rfl) (some ⟨4 * PGSIZE, PTE_W + PTE_U⟩)
  rw [pte_oneTable, pages_oneTable] at stored
  simpa [ptePages] using stored

end Xv6.Image
