import Xv6.Image.Exec
import Xv6.Memory.Enough

namespace Xv6.Image

open Xv6.Data Xv6.Memory

/-! # `exec` with enough memory

An executable without segments always gets to the point where arguments are pushed. -/

variable {fine : Panic → Prop} {data : Nat} {r r0 : Ram} {pgdir : PageDir} {page : Page}
  {a spare oldsz newsz fuel pages : Nat} {path file : List Byte} {argv : List (List Byte)} {k : Kernel}

theorem allocuvmLoop_succeeds (roomy : Roomy (spare + pages) pgdir r.mem) (few : newsz ≤ a + pages * PGSIZE) :
    Meets (fun _ => True) (allocuvmLoop oldsz newsz fuel pgdir a) r fun result r' =>
      result.2 = newsz ∧ Roomy spare result.1 r'.mem := by
  induction fuel generalizing pages pgdir a r with
  | zero =>
    unfold allocuvmLoop
    split
    · exact .throw True.intro
    · exact .pure ⟨rfl, roomy.less (Nat.le_add_right ..)⟩
  | succ fuel ih =>
    unfold allocuvmLoop
    split
    · rename_i inside
      cases pages with
      | zero => omega
      | succ pages =>
        have enough := roomy.enough
        apply (lift_meets (kalloc_succeeds (pgdir.missing + (spare + pages)) roomy.denied (by omega))).bind
        rintro page r1 ⟨⟨given, denied, left⟩, _⟩
        obtain ⟨page, rfl⟩ := Option.isSome_iff_exists.mp given
        apply Meets.modify_bind
        have still : Roomy (spare + pages) pgdir (r1.write page 0 (List.replicate PGSIZE 0)).mem := ⟨denied, left⟩
        apply (lift_meets (mappagesLoop_succeeds still)).bind
        rintro ⟨next, mapped⟩ r2 ⟨⟨is, roomy⟩, _⟩
        dsimp only at is roomy ⊢
        rw [is, if_neg (by decide)]
        apply ih roomy
        have size : PGSIZE = 4096 := rfl
        rw [size] at few ⊢
        omega
    · exact .pure ⟨rfl, roomy.less (Nat.le_add_right ..)⟩

theorem allocuvm_succeeds (spare pages : Nat) (roomy : Roomy (spare + pages) pgdir r.mem)
    (below : newsz < KERNBASE) (grows : oldsz ≤ newsz) (few : newsz ≤ PGROUNDUP oldsz + pages * PGSIZE) :
    Meets (fun _ => True) (allocuvm pgdir oldsz newsz) r fun result r' =>
      result.2 = newsz ∧ Roomy spare result.1 r'.mem := by
  unfold allocuvm
  rw [if_neg (Nat.not_le.mpr below), if_neg (Nat.not_lt.mpr grows)]
  exact allocuvmLoop_succeeds roomy few

/-- A page of the kernel half that has no page table: the last one before the devices. -/
def gap : Nat := DEVSPACE - PGSIZE

theorem gap_apart (linked : Linked data) : ∀ row ∈ kmap data, ∀ va, row.virt ≤ va → va < row.virt + row.size →
    PDX va ≠ PDX gap := by
  have limit : KERNBASE = 2147483648 := rfl
  have stop : PHYSTOP = 234881024 := rfl
  have link : KERNLINK = 2148532224 := rfl
  have ext : EXTMEM = 1048576 := rfl
  have dev : DEVSPACE = 4261412864 := rfl
  have above := linked.above
  have below := linked.below
  have index (va : Nat) : (PDX va).val = va / 4194304 % 1024 := rfl
  have here : (PDX gap).val = 1015 := by decide
  intro row member va lower upper same
  rw [Fin.ext_iff, index, here] at same
  simp only [kmap, List.mem_cons, List.not_mem_nil, or_false] at member
  obtain rfl | rfl | rfl | rfl := member
  · have size : KMap.size ⟨KERNBASE, 0, EXTMEM, PTE_W⟩ = 1048576 := by decide
    dsimp only at lower upper
    omega
  · have size : KMap.size ⟨KERNLINK, EXTMEM, data - KERNBASE, 0⟩ ≤ 234881024 := by
      simp only [KMap.size]
      omega
    dsimp only at lower upper
    omega
  · have size : KMap.size ⟨data, data - KERNBASE, PHYSTOP, PTE_W⟩ = 2382364672 - data := by
      simp only [KMap.size]
      omega
    dsimp only at lower upper
    omega
  · have size : KMap.size ⟨DEVSPACE, DEVSPACE, 0, PTE_W⟩ = 33554432 := by decide
    dsimp only at lower upper
    omega

structure Plain (file : List Byte) : Prop where
  header : (elfFile file).readsAll 0 52 = true
  magic : (elfFile file).magic = ELF_MAGIC
  phnum : (elfFile file).phnum = 0

/-- No call of `kalloc` is denied, and there are pages for a directory, every
table and the stack. -/
structure Supplied (m : Mem) : Prop where
  denied : m.denied = []
  enough : NPDENTRIES + 3 ≤ m.freelist.length

def pushAndCommit (path file : List Byte) (argv : List (List Byte)) (pgdir : PageDir) (sz : Nat) : Call Int := do
  let oldpgdir := (← get).curproc.pgdir
  match ← onRam (pushArguments oldpgdir pgdir argv [] sz) with
  | none => bad (some pgdir) false
  | some esp =>
    setProc fun _ => { pgdir, sz, name := lastName path, eip := entry file, esp }
    onRam (lift (freevm oldpgdir))
    pure 0

theorem execStack_supplied (k : Kernel) {post : Int → Kernel → Prop} {caller : Multiset Page}
    (building : Building True r0 k.ram pgdir) (only : KernelOnly pgdir) (roomy : Roomy 2 pgdir k.ram.mem)
    (gapped : pgdir.table (PDX gap) = none) (holds : Holds fine caller r0)
    (rest : ∀ next page r, Building True r0 r next → StackPage next (2 * PGSIZE) page →
      next.table (PDX gap) = none →
      Meets fine (pushAndCommit path file argv next (2 * PGSIZE)) { k with ram := r } post) :
    Meets fine (execStack path file argv pgdir 0) k post := by
  have start : PGROUNDUP 0 = 0 := by decide
  have stop : (PGROUNDUP 0 + 2 * PGSIZE) % 2 ^ 32 = 2 * PGSIZE := by decide
  have kernel : ¬ UserIndex (PDX gap) := by decide
  have loaded : Loaded file [] k.ram pgdir 0 := loaded_kernelOnly only
  have succeeds : Meets (fun _ => True) (allocuvm pgdir (PGROUNDUP 0) ((PGROUNDUP 0 + 2 * PGSIZE) % 2 ^ 32)) k.ram
      fun result r' => result.2 = 2 * PGSIZE ∧ Roomy 0 result.1 r'.mem := by
    rw [stop, start]
    exact allocuvm_succeeds 0 2 roomy (by decide) (by decide) (by decide)
  unfold execStack
  apply (onRam_meets ((loaded.allocStack (building.alone holds)).both succeeds)).bind
  intro (grown, size) k1 ⟨⟨⟨kept, larger⟩, is, _⟩, is1⟩
  dsimp only at kept larger is ⊢
  subst is
  rw [if_neg (by decide)]
  have building1 := building.kept kept
  have loaded1 := (larger (by decide)).2
  apply (onRam_meets (loaded1.clearpteu_meets building1 holds (by decide) (by decide))).bind
  intro next k2 ⟨⟨guarded, ⟨page, stack⟩, _⟩, is2⟩
  have state : k2 = { k with ram := k2.ram } := by rw [is2, is1]
  have both := kept.trans guarded
  rw [state]
  exact rest next page k2.ram (building.kept both) stack ((both.kernel _ kernel).trans gapped)

theorem exec_supplied {post : Int → Kernel → Prop} (linked : Linked data) (plain : Plain file)
    (supplied : Supplied k.ram.mem) (holds : Holds fine k.curproc.pgdir.pages k.ram)
    (rest : ∀ pgdir page r, Building True k.ram r pgdir → StackPage pgdir (2 * PGSIZE) page → pgdir.table (PDX gap) = none →
      Meets fine (pushAndCommit path file argv pgdir (2 * PGSIZE)) (released (opened k) r) post) :
    Meets fine (exec (kmap data) path (some file) argv) k post := by
  unfold exec
  apply Meets.modify_bind
  apply Meets.modify_bind
  apply Meets.modify_bind
  rw [if_neg (by simp [plain.header]), if_neg (by simp [plain.magic]), plain.phnum]
  change Meets fine _ (opened k) _
  have enough : NPDENTRIES + 1 + 2 ≤ (opened k).ram.mem.freelist.length := supplied.enough
  have made : Meets fine (lift (setupkvm (kmap data))) (opened k).ram _ :=
    (setupkvm_builds True linked holds).both (lift_meets (setupkvm_succeeds supplied.denied enough
      (rows_kmap linked.aligned linked.above linked.below)))
  apply (onRam_meets made).bind
  intro result k1 ⟨⟨built, ⟨pgdir, is, roomy, tables⟩, _⟩, is1⟩
  subst is
  obtain ⟨building, only⟩ := built
  have nothing : Meets fine (execLoad file 0 (elfFile file).phoff pgdir 0) k1.ram fun result r =>
      result = (pgdir, some 0) ∧ r = k1.ram := .pure ⟨rfl, rfl⟩
  apply (onRam_meets nothing).bind
  intro result k2 ⟨⟨is, same⟩, is2⟩
  subst is
  have state : k2 = { opened k with ram := k1.ram } := by rw [is2, same, is1]
  rw [state]
  apply Meets.modify_bind
  apply Meets.modify_bind
  change Meets fine (execStack path file argv pgdir 0) (released (opened k) k1.ram) post
  have gapped := tables (PDX gap) (gap_apart linked)
  exact execStack_supplied (released (opened k) k1.ram) building only roomy gapped holds rest

theorem copyout_stack (current : PageDir) (r : Ram) {sz : Nat} (addr : Nat) (bytes : List Byte)
    (stack : StackPage pgdir sz page) (lower : sz - PGSIZE ≤ addr) (fits : addr + bytes.length ≤ sz) :
    ∃ final, (copyout current pgdir addr bytes).run r = .ok (true, final) := by
  have top : KERNBASE = 2147483648 := rfl
  have upper := stack.upper
  have user : ∀ i < bytes.length, (location pgdir ((addr + i) % 2 ^ 32)).isSome := by
    intro i inside
    rw [isSome_location, Nat.mod_eq_of_lt (by omega), stack.top (addr + i) (by omega) (by omega)]
    rfl
  obtain ⟨final, ran, _⟩ := copyout_succeeds current r (by omega) user
  exact ⟨final, ran⟩

def stackNeed (argv : List (List Byte)) : Nat := (argv.map fun arg => arg.length + 4).sum

theorem pushArguments_fits {current : PageDir} {sz sp : Nat} {pointers : List Nat} (stack : StackPage pgdir sz page)
    (upper : sp ≤ sz) (few : pointers.length + argv.length ≤ MAXARG)
    (room : sz - PGSIZE + stackNeed argv + 4 * (pointers.length + argv.length + 4) ≤ sp) :
    ∃ esp final, (pushArguments current pgdir argv pointers sp).run r = .ok (some esp, final) := by
  have top : KERNBASE = 2147483648 := rfl
  have user := stack.upper
  induction argv generalizing pointers sp r with
  | nil =>
    rw [stackNeed, List.map_nil, List.sum_nil, List.length_nil] at room
    have place : (sp + 2 ^ 32 - (3 + pointers.length + 1) * 4) % 2 ^ 32 = sp - 4 * (pointers.length + 4) := by omega
    have length := length_vector pointers sp
    obtain ⟨final, copied⟩ := copyout_stack current r (sp - 4 * (pointers.length + 4))
      ((ustack pointers sp).flatMap wordBytes) stack (by omega) (by omega)
    refine ⟨sp - 4 * (pointers.length + 4), final, ?_⟩
    rw [pushArguments, place, StateT.run_bind, copied]
    rfl
  | cons arg rest ih =>
    rw [stackNeed, List.map_cons, List.sum_cons, List.length_cons] at room
    rw [List.length_cons] at few
    obtain ⟨addr, is⟩ : ∃ addr, (sp + 2 ^ 32 - (arg.length + 1)) % 2 ^ 32 / 4 * 4 = addr := ⟨_, rfl⟩
    have place : sp < addr + arg.length + 5 ∧ addr + arg.length + 1 ≤ sp := by omega
    have length : (arg ++ [0]).length = arg.length + 1 := by simp
    obtain ⟨middle, copied⟩ := copyout_stack current r addr (arg ++ [0]) stack (by omega) (by omega)
    have count : (pointers ++ [addr]).length = pointers.length + 1 := by simp
    obtain ⟨esp, final, pushed⟩ : ∃ esp final,
        (pushArguments current pgdir rest (pointers ++ [addr]) addr).run middle = .ok (some esp, final) :=
      ih (by omega) (by omega) (by rw [stackNeed]; omega)
    refine ⟨esp, final, ?_⟩
    rw [pushArguments, if_neg (by omega), is, StateT.run_bind, copied]
    exact pushed

theorem exec_returns (linked : Linked data) (plain : Plain file) (supplied : Supplied k.ram.mem)
    (holds : Holds (fun _ => False) k.curproc.pgdir.pages k.ram) (few : argv.length ≤ MAXARG)
    (room : stackNeed argv + 4 * (argv.length + 4) ≤ PGSIZE) :
    ∃ final, (exec (kmap data) path (some file) argv).run k = .ok (0, final) := by
  have meets : Meets (fun _ => False) (exec (kmap data) path (some file) argv) k fun value _ => value = 0 := by
    apply exec_supplied linked plain supplied holds
    intro pgdir page r building stack _
    have size : PGSIZE = 4096 := rfl
    obtain ⟨esp, final, ran⟩ : ∃ esp final,
        (pushArguments k.curproc.pgdir pgdir argv [] (2 * PGSIZE)).run r = .ok (some esp, final) :=
      pushArguments_fits stack le_rfl (by simpa using few) (by rw [List.length_nil, Nat.zero_add]; omega)
    have keeps : Meets (fun _ => True) (pushArguments k.curproc.pgdir pgdir argv [] (2 * PGSIZE)) r
        fun _ r' => r'.mem = r.mem := pushArguments_mem True.intro _
    have pushed : Meets (fun _ => False) (pushArguments k.curproc.pgdir pgdir argv [] (2 * PGSIZE))
        (released (opened k) r).ram fun result after => result = some esp ∧ after = final := .returns ran ⟨rfl, rfl⟩
    apply Meets.get_bind
    apply (onRam_meets pushed).bind
    intro result k1 ⟨⟨is, after⟩, _⟩
    subst is
    have committed : Building False k.ram k1.ram pgdir := after ▸ building.written (keeps.of_run ran) False.elim
    apply (commit_meets committed holds).weaken
    intro value _ ⟨done, _⟩
    exact done
  obtain ⟨value, final, ran, is⟩ := meets.exists_run
  exact ⟨final, is ▸ ran⟩

theorem uva2ka_null {current : PageDir} {first : Pte} {va pte : Nat} (missing : pgdir.table (PDX va) = none)
    (mapped : current.pte 0 = some first) (word : littleEndian ((List.range 4).map (r.byte first.pa)) = pte)
    (below : pte < PHYSTOP ∨ pte &&& PTE_P = 0) :
    Meets fine (uva2ka current pgdir va) r fun result r' => r' = { r with nullReads := r.nullReads + 1 } ∧
      result = if pte &&& PTE_P = 0 ∨ pte &&& PTE_U = 0 then none else some (PGROUNDDOWN pte) := by
  unfold uva2ka
  rw [missing]
  apply Meets.modify_bind
  rw [mapped]
  apply Meets.get_bind
  dsimp only
  rw [word]
  split
  · next absent => exact .pure ⟨rfl, (if_pos (.inl absent)).symm⟩
  · rename_i present
    split
    · next kernel => exact .pure ⟨rfl, (if_pos (.inr kernel)).symm⟩
    · rename_i user
      rw [if_neg (by omega)]
      exact .pure ⟨rfl, (if_neg (by simp [present, user])).symm⟩

/-- A copy that begins in the gap writes to the page that the word at address 0
names, and stops at the next page. -/
theorem copyout_gap {current : PageDir} {bytes : List Byte} (closed : Closed pgdir)
    (missing : pgdir.table (PDX gap) = none) (mapped : current.pte 0 = some ⟨4 * PGSIZE, PTE_W + PTE_U⟩)
    (word : littleEndian ((List.range 4).map (r.byte (4 * PGSIZE))) = 4 * PGSIZE + 7) (long : PGSIZE < bytes.length)
    (start : ∀ o < 4, bytes[o]? = some 0x42) :
    Meets fine (copyout current pgdir gap bytes) r fun result r' => result = false ∧
      r'.byte (4 * PGSIZE) 0 = 0x42 := by
  have nonempty : bytes ≠ [] := by
    intro empty
    rw [empty] at long
    cases long
  have place : gap % PGSIZE = 0 := by decide
  have next : (gap + (PGSIZE - 0)) % 2 ^ 32 = DEVSPACE := by decide
  have here : PGROUNDDOWN gap = gap := by decide
  have more : bytes.drop (PGSIZE - 0) ≠ [] := by simpa using long
  unfold copyout
  rw [copyoutLoop_cons nonempty, here, piece, place]
  apply (uva2ka_null missing mapped word (.inl (by decide))).bind
  intro result r1 ⟨is1, is⟩
  rw [if_neg (by decide)] at is
  subst is
  apply Meets.modify_bind
  have target : PGROUNDDOWN (4 * PGSIZE + 7) = 4 * PGSIZE := by decide
  obtain ⟨r2, written⟩ : ∃ r2, r2 = r1.write (4 * PGSIZE) 0 (bytes.take (PGSIZE - 0)) := ⟨_, rfl⟩
  have overwritten : ∀ o < 4, r2.byte (4 * PGSIZE) o = 0x42 := by
    intro o small
    rw [written, Ram.byte_write, if_pos (Nat.zero_le o), Nat.sub_zero o,
      List.getElem?_take_of_lt (small.trans_le (by decide)), start o small]
    rfl
  have word2 : littleEndian ((List.range 4).map (r2.byte (4 * PGSIZE))) = 0x42424242 := by
    have range : List.range 4 = [0, 1, 2, 3] := rfl
    simp only [range, List.map_cons, List.map_nil, overwritten 0 (by decide), overwritten 1 (by decide),
      overwritten 2 (by decide), overwritten 3 (by decide)]
    rfl
  have after : PGROUNDDOWN DEVSPACE = DEVSPACE := by decide
  rw [target, ← written, next, copyoutLoop_cons more, after]
  cases found : pgdir.table (PDX DEVSPACE) with
  | some table =>
    rw [uva2ka_found (by simp [found]), closed.userPage (by decide) (by decide), pure_bind]
    exact .pure ⟨rfl, overwritten 0 (by decide)⟩
  | none =>
    apply (uva2ka_null found mapped word2 (.inr (by decide))).bind
    intro result r3 ⟨is3, is⟩
    rw [if_pos (by decide)] at is
    subst is
    refine .pure ⟨rfl, ?_⟩
    rw [is3]
    exact overwritten 0 (by decide)

/-- An argument string whose place on the stack of two pages wraps around to the
gap: it is as long as the stack and what lies above the gap. -/
def longArgument : List Byte := List.replicate 33566719 0x42

theorem length_longArgument : longArgument.length = 33566719 := List.length_replicate

theorem start_replicate {n : Nat} {byte : Byte} (long : 4 ≤ n) :
    ∀ o < 4, (List.replicate n byte ++ [0])[o]? = some byte := by
  intro o small
  have inside : o < n := small.trans_le long
  rw [List.getElem?_append_left (by rwa [List.length_replicate]), List.getElem?_replicate_of_lt inside]

theorem start_longArgument : ∀ o < 4, (longArgument ++ [0])[o]? = some 0x42 := by
  unfold longArgument
  have long : 4 ≤ 33566719 := by decide
  exact start_replicate long

attribute [irreducible] longArgument

theorem pushArguments_gap {current : PageDir} (closed : Closed pgdir) (missing : pgdir.table (PDX gap) = none)
    (mapped : current.pte 0 = some ⟨4 * PGSIZE, PTE_W + PTE_U⟩)
    (word : littleEndian ((List.range 4).map (r.byte (4 * PGSIZE))) = 4 * PGSIZE + 7) :
    Meets fine (pushArguments current pgdir [longArgument] [] (2 * PGSIZE)) r fun result r' =>
      result = none ∧ r'.byte (4 * PGSIZE) 0 = 0x42 := by
  have place : (2 * PGSIZE + 2 ^ 32 - (longArgument.length + 1)) % 2 ^ 32 / 4 * 4 = gap := by
    rw [length_longArgument]
    decide
  have long : PGSIZE < (longArgument ++ [0]).length := by
    rw [List.length_append, length_longArgument]
    decide
  unfold pushArguments
  rw [if_neg (by decide), place]
  apply (copyout_gap closed missing mapped word long start_longArgument).bind
  rintro _ r1 ⟨rfl, changed⟩
  exact .pure ⟨rfl, changed⟩

/-- `exec` with this argument fails after overwriting the caller's first page. -/
theorem exec_strays (linked : Linked data) (plain : Plain file) (supplied : Supplied k.ram.mem)
    (holds : Holds (fun _ => False) k.curproc.pgdir.pages k.ram)
    (mapped : k.curproc.pgdir.pte 0 = some ⟨4 * PGSIZE, PTE_W + PTE_U⟩)
    (word : littleEndian ((List.range 4).map (k.ram.byte (4 * PGSIZE))) = 4 * PGSIZE + 7) :
    ∃ final, (exec (kmap data) path (some file) [longArgument]).run k = .ok (-1, final) ∧
      final.curproc = k.curproc ∧ final.ram.byte (4 * PGSIZE) 0 = 0x42 := by
  have used : 4 * PGSIZE ∉ freePages k.ram.mem :=
    holds.notMem (PageDir.mem_pages (userIndex_of_lt (by decide)) mapped)
  have meets : Meets (fun _ => False) (exec (kmap data) path (some file) [longArgument]) k fun value final =>
      value = -1 ∧ final.curproc = k.curproc ∧ final.ram.byte (4 * PGSIZE) 0 = 0x42 := by
    apply exec_supplied linked plain supplied holds
    intro pgdir page r building _ missing
    have same := building.outside trivial _ used
    have pushed : Meets (fun _ => False) (pushArguments k.curproc.pgdir pgdir [longArgument] [] (2 * PGSIZE))
        (released (opened k) r).ram fun result r' => result = none ∧ r'.byte (4 * PGSIZE) 0 = 0x42 :=
      pushArguments_gap building.closed missing mapped (by rw [← word, ← same]; rfl)
    have keeps : Meets (fun _ => True) (pushArguments k.curproc.pgdir pgdir [longArgument] [] (2 * PGSIZE))
        (released (opened k) r).ram fun _ r' => r'.mem = r.mem := pushArguments_mem True.intro _
    apply Meets.get_bind
    apply (onRam_meets (pushed.both keeps)).bind
    intro result k1 ⟨⟨⟨is, changed⟩, mem⟩, is1⟩
    subst is
    apply (bad_meets (building.written mem False.elim) holds).weaken
    intro value final ⟨failed, _, isFinal, others⟩
    refine ⟨failed, ?_, ?_⟩
    · rw [isFinal, is1]
      rfl
    · rw [others _ used, changed]
  obtain ⟨value, final, ran, is, rest⟩ := meets.exists_run
  exact ⟨final, is ▸ ran, rest⟩

def plainFile : List Byte := [0x7F, 0x45, 0x4C, 0x46] ++ List.replicate 48 0

/-- With one program header: the four bytes at the end are loaded to address 0. -/
def segmentFile : List Byte :=
  [0x7F, 0x45, 0x4C, 0x46] ++ List.replicate 24 0 ++ [52, 0, 0, 0] ++ List.replicate 12 0 ++ [1, 0] ++
    List.replicate 6 0 ++ [ELF_PROG_LOAD, 84, 0, 0, 4, PGSIZE, 0, 0].flatMap wordBytes ++ [0xEB, 0xFE, 0x90, 0x90]

theorem plain_plainFile : Plain plainFile := ⟨by decide, by decide, by decide⟩

def dataStart : Nat := KERNLINK + 8 * PGSIZE

theorem linked_dataStart : Linked dataStart := ⟨by decide, by decide, by decide⟩

/-- A process of one page, whose first word reads as a user entry for this page,
and twenty thousand free pages. -/
def caller : Kernel where
  ram := {
    mem := { freelist := (List.range' 5 20000).map (· * PGSIZE), kernelEnd := PGSIZE }
    byte := fun page off => if page = 4 * PGSIZE then ((wordBytes (4 * PGSIZE + 7))[off]?).getD 0 else 0 }
  curproc := { pgdir := onePage, sz := PGSIZE, name := [], eip := 0, esp := 0 }

theorem pages_caller : caller.curproc.pgdir.pages + freePages caller.ram.mem =
    ((List.range' 2 20003).map (· * PGSIZE) : List Page) := by
  have parts : List.range' 2 20003 = List.range' 2 3 ++ List.range' (2 + 3) 20000 :=
    (List.range'_append_1 (n := 20000)).symm
  change onePage.pages + (((List.range' 5 20000).map (· * PGSIZE) : List Page) : Multiset Page) = _
  rw [pages_onePage, parts, List.map_append, ← Multiset.coe_add]
  rfl

theorem freeable_caller (n : Nat) (lower : 2 ≤ n) (upper : n < 20005) : Freeable PGSIZE (n * PGSIZE) := by
  have below : n * 4096 < 234881024 := by omega
  exact ⟨Nat.mul_mod_left .., Nat.le_mul_of_pos_left _ (by omega), below, (Nat.mul_pos (by omega) (by decide)).ne'⟩

theorem holds_caller : Holds (fun _ => False) caller.curproc.pgdir.pages caller.ram where
  distinct := by
    rw [pages_caller, Multiset.coe_nodup]
    apply List.Nodup.map
    · intro a b same
      exact Nat.eq_of_mul_eq_mul_right (by decide) same
    · exact List.nodup_range' ..
  frees := by
    intro page member
    rw [pages_caller, Multiset.mem_coe, List.mem_map] at member
    obtain ⟨n, inside, is⟩ := member
    rw [List.mem_range'_1] at inside
    rw [← is]
    exact .inr (freeable_caller n inside.1 inside.2)

theorem supplied_caller : Supplied caller.ram.mem where
  denied := rfl
  enough := by
    change _ ≤ ((List.range' 5 20000).map (· * PGSIZE)).length
    rw [List.length_map, List.length_range']
    decide

end Xv6.Image
