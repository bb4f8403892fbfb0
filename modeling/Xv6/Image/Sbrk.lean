import Xv6.Image.Space

namespace Xv6.Image

open Xv6.Data Xv6.Memory

/-! # `sbrk`

`growproc` takes the size 0 for an error and adds the sizes modulo 2^32: giving back
everything reports failure, and giving back more reports success and does nothing.
-/

variable {k : Kernel} {n : Int}

def MapsBelow (pgdir : PageDir) (limit : Nat) : Prop := ∀ va < KERNBASE, (pgdir.pte va).isSome ↔ va < limit

structure Unchanged (before after : Kernel) : Prop where
  size : after.curproc.sz = before.curproc.sz
  pte : ∀ va < 2 ^ 32, after.curproc.pgdir.pte va = before.curproc.pgdir.pte va
  read : ∀ va < KERNBASE, after.ram.read after.curproc.pgdir va = before.ram.read before.curproc.pgdir va

structure Grew (n : Int) (before after : Kernel) : Prop where
  size : (after.curproc.sz : Int) = before.curproc.sz + n
  maps : MapsBelow after.curproc.pgdir (PGROUNDUP after.curproc.sz)
  kept : ∀ va < PGROUNDUP before.curproc.sz, va < PGROUNDUP after.curproc.sz →
    after.ram.read after.curproc.pgdir va = before.ram.read before.curproc.pgdir va
  zero : ∀ va, PGROUNDUP before.curproc.sz ≤ va → va < PGROUNDUP after.curproc.sz →
    after.ram.read after.curproc.pgdir va = some 0

def Contract (n : Int) (k : Kernel) : Prop :=
  ∃ ret after, (sysSbrk n).run k = .ok (ret, after) ∧
    if ret = -1 then Unchanged k after else ret = k.curproc.sz ∧ Grew n k after

/-- A process whose page table maps exactly the pages of its size; its pages are
the allocator's, and none is owned twice. -/
structure Sized (k : Kernel) : Prop where
  holds : Holds (fun _ => False) k.curproc.pgdir.pages k.ram
  maps : MapsBelow k.curproc.pgdir (PGROUNDUP k.curproc.sz)
  user : k.curproc.sz < KERNBASE

theorem MapsBelow.unmapped {pgdir : PageDir} {limit : Nat} (maps : MapsBelow pgdir limit) : Unmapped pgdir limit := by
  intro va lower upper
  have absent := mt (maps va upper).mp (Nat.not_lt.mpr lower)
  simpa using absent

theorem sysSbrk_meets {post : Int → Kernel → Prop} (grows : Meets (fun _ => False) (growproc n) k post) :
    Meets (fun _ => False) (sysSbrk n) k fun ret after =>
      ∃ grown, post grown after ∧ ret = if grown < 0 then -1 else (k.curproc.sz : Int) := by
  apply Meets.get_bind
  apply grows.bind
  intro grown after holds
  split
  · next failed => exact .pure ⟨grown, holds, (if_pos failed).symm⟩
  · next succeeded => exact .pure ⟨grown, holds, (if_neg succeeded).symm⟩

def Outcome (n : Int) (k : Kernel) (ret : Int) (after : Kernel) : Prop :=
  (ret = -1 ∧ Unchanged k after) ∨ (ret = 0 ∧ Grew n k after)

theorem contract_of_growproc (grows : Meets (fun _ => False) (growproc n) k (Outcome n k)) : Contract n k := by
  obtain ⟨ret, after, ran, grown, outcome, is⟩ := (sysSbrk_meets grows).exists_run
  refine ⟨ret, after, ran, ?_⟩
  cases outcome with
  | inl failed =>
    obtain ⟨rfl, same⟩ := failed
    rw [if_pos (by decide)] at is
    rw [if_pos is]
    exact same
  | inr succeeded =>
    obtain ⟨rfl, grew⟩ := succeeded
    rw [if_neg (by decide)] at is
    rw [if_neg (by omega)]
    exact ⟨is, grew⟩

theorem Unchanged.of_kept (sized : Sized k) {r : Ram} {pgdir : PageDir}
    (kept : Kept (PGROUNDUP k.curproc.sz) 0 k.ram k.curproc.pgdir 0 r pgdir)
    (empty : Unmapped pgdir (PGROUNDUP k.curproc.sz)) :
    Unchanged k { k with ram := r, curproc := { k.curproc with pgdir } } where
  size := rfl
  pte := by
    intro va small
    by_cases inside : va < PGROUNDUP k.curproc.sz ∨ KERNBASE ≤ va
    · exact kept.pte va small inside
    · rw [not_or, not_lt, not_le] at inside
      exact (empty va inside.1 inside.2).trans (sized.maps.unmapped va inside.1 inside.2).symm
  read := by
    intro va user
    by_cases inside : va < PGROUNDUP k.curproc.sz
    · exact kept.read va inside
    · rw [not_lt] at inside
      simp [Ram.read, empty va inside user, sized.maps.unmapped va inside user]

theorem Grew.of_fresh (sized : Sized k) {r : Ram} {pgdir : PageDir} {newsz : Nat}
    (is : (newsz : Int) = k.curproc.sz + n) (later : k.curproc.sz ≤ newsz) (below : newsz < KERNBASE)
    (kept : Kept (PGROUNDUP k.curproc.sz) 0 k.ram k.curproc.pgdir 0 r pgdir)
    (fresh : Fresh r pgdir (PGROUNDUP k.curproc.sz) (PGROUNDUP newsz))
    (empty : Unmapped pgdir (PGROUNDUP newsz)) :
    Grew n k { k with ram := r, curproc := { k.curproc with pgdir, sz := newsz } } where
  size := is
  maps := by
    have top : KERNBASE = 2147483648 := rfl
    intro va small
    by_cases old : va < PGROUNDUP k.curproc.sz
    · have new := old.trans_le (PGROUNDUP_mono later below.le)
      have mapped := kept.pte va (by omega) (.inl old)
      have present := (sized.maps va small).mpr old
      simp [mapped, present, new]
    · by_cases new : va < PGROUNDUP newsz
      · obtain ⟨page, mapped⟩ := fresh.mapped va (by omega) new
        simp [mapped, new]
      · have absent := empty va (by omega) small
        simp [absent, new]
  kept := fun va old _ => kept.read va old
  zero := fresh.zero

theorem growproc_up (sized : Sized k) (positive : 0 < n) (bounded : n < 2 ^ 31) :
    Meets (fun _ => False) (growproc n) k (Outcome n k) := by
  have top : KERNBASE = 2147483648 := rfl
  have user := sized.user
  obtain ⟨newsz, is⟩ : ∃ newsz : Nat, (newsz : Int) = k.curproc.sz + n := ⟨(k.curproc.sz + n).toNat, by omega⟩
  have wrapped : ((k.curproc.sz + n) % 2 ^ 32).toNat = newsz := by omega
  apply Meets.get_bind
  rw [if_pos positive, wrapped]
  by_cases below : newsz < KERNBASE
  · apply (onRam_meets (allocuvm_meets sized.holds below (by omega) sized.maps.unmapped)).bind
    intro (pgdir, size) after ⟨allocated, same⟩
    rw [same]
    apply Meets.modify_bind
    cases allocated with
    | inl success =>
      obtain ⟨sizeIs, kept, fresh, nothing⟩ := success
      dsimp only at sizeIs
      subst sizeIs
      rw [if_neg (by omega)]
      apply Meets.modify_bind
      exact .pure (.inr ⟨rfl, .of_fresh sized is (by omega) below kept fresh nothing⟩)
    | inr failure =>
      obtain ⟨zero, kept, nothing⟩ := failure
      dsimp only at zero
      rw [if_pos zero]
      exact .pure (.inl ⟨rfl, .of_kept sized kept nothing⟩)
  · have refused : allocuvm k.curproc.pgdir k.curproc.sz newsz = pure (k.curproc.pgdir, 0) := by
      unfold allocuvm
      rw [if_pos (by omega)]
    rw [refused]
    exact .returns rfl (.inl ⟨rfl, ⟨rfl, fun _ _ => rfl, fun _ _ => rfl⟩⟩)

theorem Grew.of_cleared (sized : Sized k) {r : Ram} {pgdir : PageDir} {newsz : Nat}
    (is : (newsz : Int) = k.curproc.sz + n) (earlier : newsz ≤ k.curproc.sz)
    (kept : Kept (PGROUNDUP newsz) 0 k.ram k.curproc.pgdir 0 r pgdir)
    (cleared : Cleared k.curproc.pgdir (PGROUNDUP newsz) k.curproc.sz pgdir) :
    Grew n k { k with ram := r, curproc := { k.curproc with pgdir, sz := newsz } } where
  size := is
  maps := by
    obtain ⟨size, top⟩ := page_sizes
    have within := le_PGROUNDUP sized.user.le
    intro va small
    have lower := PGROUNDUP_mono earlier sized.user.le
    rw [cleared.pte va (by omega)]
    by_cases old : va < PGROUNDUP newsz
    · have present := (sized.maps va small).mpr (old.trans_le lower)
      rw [if_neg (by omega)]
      simp [old, present]
    · by_cases inside : va / PGSIZE * PGSIZE < k.curproc.sz
      · rw [if_pos ⟨by omega, inside⟩]
        simp [old]
      · have absent := sized.maps.unmapped va (by
          have multiple := aligned_PGROUNDUP k.curproc.sz
          rw [size] at inside multiple within
          omega) small
        simp [inside, absent, old]
  kept := fun va _ new => kept.read va new
  zero := by
    intro va lower upper
    have order := PGROUNDUP_mono earlier sized.user.le
    exact absurd (upper.trans_le order) (Nat.not_lt.mpr lower)

theorem growproc_negative {post : Int → Kernel → Prop} (newsz : Nat) (negative : n < 0)
    (wrapped : ((k.curproc.sz + n) % 2 ^ 32).toNat = newsz)
    (done : Meets (fun _ => False) (lift (deallocuvm k.curproc.pgdir k.curproc.sz newsz)) k.ram fun result r =>
      if result.2 = 0 then post (-1) { k with ram := r, curproc := { k.curproc with pgdir := result.1 } }
      else post 0 { k with ram := r, curproc := { k.curproc with pgdir := result.1, sz := result.2 } }) :
    Meets (fun _ => False) (growproc n) k post := by
  apply Meets.get_bind
  rw [if_neg (by omega), if_pos negative, wrapped]
  apply (onRam_meets done).bind
  intro (pgdir, size) after ⟨holds, same⟩
  rw [same]
  apply Meets.modify_bind
  split at holds
  · rename_i zero
    rw [if_pos zero]
    exact .pure holds
  · rename_i nonzero
    rw [if_neg nonzero]
    apply Meets.modify_bind
    exact .pure holds

theorem growproc_down (sized : Sized k) (negative : n < 0) (remains : 0 < k.curproc.sz + n) :
    Meets (fun _ => False) (growproc n) k (Outcome n k) := by
  have top : KERNBASE = 2147483648 := rfl
  have user := sized.user
  obtain ⟨newsz, is⟩ : ∃ newsz : Nat, (newsz : Int) = k.curproc.sz + n := ⟨(k.curproc.sz + n).toNat, by omega⟩
  apply growproc_negative newsz negative (by omega)
  apply (deallocuvm_keeps sized.holds.whole user.le (by omega)).weaken
  intro (pgdir, size) r ⟨kept, freed⟩
  rw [if_pos (by omega)] at freed
  obtain ⟨cleared, sizeIs⟩ := freed
  dsimp only at sizeIs
  subst sizeIs
  rw [if_neg (by omega)]
  exact .inr ⟨rfl, .of_cleared sized is (by omega) kept cleared⟩

/-- Giving back everything frees the pages, and the size 0 is taken for an error. -/
theorem growproc_all (sized : Sized k) (nonempty : 0 < k.curproc.sz) (everything : k.curproc.sz + n = 0) :
    Meets (fun _ => False) (growproc n) k fun ret after => ret = -1 ∧ after.curproc.pgdir.pte 0 = none := by
  have user := sized.user
  apply growproc_negative 0 (by omega) (by rw [everything]; rfl)
  apply (deallocuvm_keeps sized.holds.whole user.le (by omega)).weaken
  intro (pgdir, size) r ⟨kept, freed⟩
  rw [if_pos nonempty] at freed
  obtain ⟨cleared, sizeIs⟩ := freed
  rw [if_pos sizeIs]
  refine ⟨rfl, ?_⟩
  have start : PGROUNDUP 0 = 0 := by decide
  rw [start] at cleared
  have first := cleared.pte 0 (by decide)
  rwa [if_pos (by simpa using nonempty)] at first

/-- Giving back more than everything does nothing, and the old size is only taken
for an error where it is 0. -/
theorem growproc_past (bounded : -2 ^ 31 ≤ n) (user : k.curproc.sz < KERNBASE) (past : k.curproc.sz + n < 0) :
    Meets (fun _ => False) (growproc n) k fun ret after =>
      (ret = if k.curproc.sz = 0 then -1 else 0) ∧ after.curproc = k.curproc := by
  have top : KERNBASE = 2147483648 := rfl
  obtain ⟨newsz, is⟩ : ∃ newsz : Nat, (newsz : Int) = k.curproc.sz + n + 2 ^ 32 :=
    ⟨(k.curproc.sz + n + 2 ^ 32).toNat, by omega⟩
  have kept : deallocuvm k.curproc.pgdir k.curproc.sz newsz = pure (k.curproc.pgdir, k.curproc.sz) := by
    unfold deallocuvm
    rw [if_pos (by omega)]
  apply growproc_negative newsz (by omega) (by omega)
  rw [kept]
  apply Meets.returns rfl
  dsimp only
  split <;> exact ⟨rfl, rfl⟩

theorem Unchanged.of_empty {after : Kernel} (sized : Sized k) (empty : k.curproc.sz = 0)
    (same : after.curproc = k.curproc) : Unchanged k after where
  size := by rw [same]
  pte := fun _ _ => by rw [same]
  read := by
    intro va user
    have nothing : k.curproc.pgdir.pte va = none := by
      apply sized.maps.unmapped va _ user
      rw [empty]
      exact Nat.zero_le _
    simp [Ram.read, same, nothing]

theorem Grew.refl (sized : Sized k) : Grew 0 k k where
  size := by simp
  maps := sized.maps
  kept := fun _ _ _ => rfl
  zero := fun va lower upper => absurd upper (Nat.not_lt.mpr lower)

/-- `sbrk` keeps its contract exactly for arguments that do not take away
everything or more. -/
theorem sbrk_contract_iff (sized : Sized k) (lower : -2 ^ 31 ≤ n) (upper : n < 2 ^ 31) :
    Contract n k ↔ 0 ≤ n ∨ 0 < k.curproc.sz + n ∨ k.curproc.sz = 0 := by
  constructor
  · intro ⟨ret, after, ran, holds⟩
    by_contra refused
    obtain ⟨negative, gone, nonempty⟩ : n < 0 ∧ k.curproc.sz + n ≤ 0 ∧ k.curproc.sz ≠ 0 := by omega
    by_cases everything : k.curproc.sz + n = 0
    · obtain ⟨_, ⟨rfl, unmapped⟩, is⟩ :=
        (sysSbrk_meets (growproc_all sized (by omega) everything)).of_run ran
      rw [if_pos (by decide)] at is
      rw [if_pos is] at holds
      have rounded := le_PGROUNDUP sized.user.le
      have mapped := (sized.maps 0 (by decide)).mpr (by omega)
      rw [← holds.pte 0 (by decide), unmapped] at mapped
      cases mapped
    · obtain ⟨_, ⟨grown, _⟩, is⟩ :=
        (sysSbrk_meets (growproc_past lower sized.user (by omega))).of_run ran
      rw [if_neg nonempty] at grown
      rw [grown, if_neg (by decide)] at is
      rw [if_neg (by omega)] at holds
      have size := holds.2.size
      omega
  · intro fine
    by_cases positive : 0 < n
    · exact contract_of_growproc (growproc_up sized positive upper)
    · by_cases zero : n = 0
      · subst zero
        apply contract_of_growproc
        exact .returns rfl (.inr ⟨rfl, .refl sized⟩)
      · by_cases remains : 0 < k.curproc.sz + n
        · exact contract_of_growproc (growproc_down sized (by omega) remains)
        · have empty : k.curproc.sz = 0 := by omega
          apply contract_of_growproc
          apply (growproc_past lower sized.user (by omega)).weaken
          intro ret after ⟨is, same⟩
          rw [if_pos empty] at is
          exact .inl ⟨is, .of_empty sized empty same⟩

def smallProcess : Kernel where
  ram := { mem := { freelist := [5 * PGSIZE], kernelEnd := PGSIZE }, byte := fun _ _ => 0 }
  curproc := { pgdir := onePage, sz := PGSIZE, name := [], eip := 0, esp := 0 }

theorem sized_smallProcess : Sized smallProcess where
  holds := by
    have pages : smallProcess.curproc.pgdir.pages + freePages smallProcess.ram.mem =
        ([2 * PGSIZE, 3 * PGSIZE, 4 * PGSIZE, 5 * PGSIZE] : List Page) := by
      change onePage.pages + ([5 * PGSIZE] : List Page) = _
      rw [pages_onePage]
      rfl
    constructor
    · rw [pages]
      decide
    · intro page member
      rw [pages, Multiset.mem_coe] at member
      have valid : ∀ page ∈ [2 * PGSIZE, 3 * PGSIZE, 4 * PGSIZE, 5 * PGSIZE],
          page % PGSIZE = 0 ∧ PGSIZE ≤ page ∧ page < PHYSTOP ∧ page ≠ 0 := by decide
      obtain ⟨aligned, lower, upper, positive⟩ := valid page member
      exact .inr ⟨aligned, lower, upper, positive⟩
  maps := by
    intro va user
    obtain ⟨size, top⟩ := page_sizes
    have rounded : PGROUNDUP smallProcess.curproc.sz = 4096 := by decide
    change (onePage.pte va).isSome ↔ _
    rw [rounded, pte_onePage (by omega), size]
    split
    · simp
      omega
    · simp
      omega
  user := by decide

theorem sbrk_contract_iff_smallProcess : Sized smallProcess ∧
    (Contract 5000 smallProcess ↔ 0 ≤ (5000 : Int) ∨ 0 < (PGSIZE : Int) + 5000 ∨ PGSIZE = 0) :=
  ⟨sized_smallProcess, sbrk_contract_iff sized_smallProcess (by decide) (by decide)⟩

def sbrkResult (n : Int) (k : Kernel) : Option (Int × Nat × Option Pte) :=
  ((sysSbrk n).run k).toOption.map fun result =>
    (result.1, result.2.curproc.sz, result.2.curproc.pgdir.pte 0)

theorem sbrkResult_of_run {ret : Int} {after : Kernel} (ran : (sysSbrk n).run k = .ok (ret, after)) :
    sbrkResult n k = some (ret, after.curproc.sz, after.curproc.pgdir.pte 0) := by
  simp [sbrkResult, ran, Except.toOption]

/-- `sbrk(-4096)` of the process of one page returns -1 and unmaps the page;
`sbrk(-8192)` succeeds without any effect. -/
theorem sbrk_breaks_contract :
    Sized smallProcess ∧ ¬ Contract (-4096) smallProcess ∧ ¬ Contract (-8192) smallProcess := by
  refine ⟨sized_smallProcess, ?_, ?_⟩
  · intro ⟨ret, after, ran, holds⟩
    have seen : sbrkResult (-4096) smallProcess = some (-1, 4096, none) := by decide +kernel
    rw [sbrkResult_of_run ran] at seen
    simp only [Option.some.injEq, Prod.mk.injEq] at seen
    obtain ⟨failed, _, unmapped⟩ := seen
    rw [if_pos failed] at holds
    have same := holds.pte 0 (by decide)
    rw [unmapped] at same
    exact absurd same (by decide)
  · intro ⟨ret, after, ran, holds⟩
    have seen : sbrkResult (-8192) smallProcess = some (4096, 4096, some ⟨4 * PGSIZE, PTE_W + PTE_U⟩) := by
      decide +kernel
    rw [sbrkResult_of_run ran] at seen
    simp only [Option.some.injEq, Prod.mk.injEq] at seen
    obtain ⟨succeeded, size, _⟩ := seen
    rw [if_neg (by omega)] at holds
    have grown := holds.2.size
    rw [size] at grown
    exact absurd grown (by decide)

end Xv6.Image
