import Xv6.Image.Load

namespace Xv6.Image

open Xv6.Data Xv6.Memory

/-! # The initial user stack

`exec` pushes the argument strings and the vector of their addresses downward from
the end of the stack page.  Only the guard page below it, or the end of the address
space where the address has wrapped around, stops a string that is too long.
-/

variable {r final : Ram} {current pgdir : PageDir} {page : Page} {va addr sp sz esp fuel : Nat} {bytes : List Byte}
  {argv : List (List Byte)} {pointers : List Nat} {items : List (Nat × List Byte)}

/-- The address space when the push begins: the stack page, the guard page below
it, and the devices at the end of the address space, which are the kernel's. -/
structure StackPage (pgdir : PageDir) (sz : Nat) (page : Page) : Prop where
  aligned : sz % PGSIZE = 0
  lower : 2 * PGSIZE ≤ sz
  upper : sz ≤ KERNBASE
  top : ∀ va, sz - PGSIZE ≤ va → va < sz → userPage pgdir va = some page
  guard : userPage pgdir (sz - 2 * PGSIZE) = none
  tables : ∀ va < sz, (pgdir.table (PDX va)).isSome
  devices : ∀ va, DEVSPACE ≤ va → va < 2 ^ 32 → userPage pgdir va = none ∧ (pgdir.table (PDX va)).isSome
  separate : Separate pgdir

def Passable (pgdir : PageDir) (va len : Nat) : Prop :=
  ∀ i < len, (pgdir.table (PDX ((va + i) % 2 ^ 32))).isSome → (userPage pgdir ((va + i) % 2 ^ 32)).isSome

theorem PDX_in_page {i : Nat} (small : va < 2 ^ 32) (inside : i < PGSIZE - va % PGSIZE) :
    PDX ((va + i) % 2 ^ 32) = PDX va := by
  have size : PGSIZE = 4096 := rfl
  rw [size] at inside
  rw [Nat.mod_eq_of_lt (by omega)]
  apply ((same_entry_iff (by omega) small).mpr _).1
  rw [size]
  omega

theorem Passable.of_page {len : Nat} (small : va < 2 ^ 32)
    (first : (pgdir.table (PDX va)).isSome → (userPage pgdir va).isSome)
    (rest : Passable pgdir ((va + (PGSIZE - va % PGSIZE)) % 2 ^ 32) (len - (PGSIZE - va % PGSIZE))) :
    Passable pgdir va len := by
  intro i inside
  by_cases here : i < PGSIZE - va % PGSIZE
  · rw [PDX_in_page small here, userPage_in_page small here]
    exact first
  · obtain ⟨j, rfl⟩ := Nat.exists_eq_add_of_le (Nat.not_lt.mp here)
    have later := rest j (by omega)
    rwa [Nat.mod_add_mod, Nat.add_assoc] at later

theorem copyoutLoop_true (enough : Enough fuel va bytes) (small : va < 2 ^ 32) :
    Meets (fun _ => True) (copyoutLoop current pgdir fuel va bytes) r fun result _ =>
      result = true → Passable pgdir va bytes.length := by
  have nothing (va : Nat) : Passable pgdir va ([] : List Byte).length := fun i inside => absurd inside (Nat.not_lt_zero i)
  induction fuel generalizing va bytes r with
  | zero =>
    rw [enough.nil, copyoutLoop_nil]
    exact .pure fun _ => nothing va
  | succ fuel ih =>
    by_cases empty : bytes = []
    · rw [empty, copyoutLoop_nil]
      exact .pure fun _ => nothing va
    · have bounded : (va + (PGSIZE - va % PGSIZE)) % 2 ^ 32 < 2 ^ 32 := Nat.mod_lt _ (by decide)
      cases found : pgdir.table (PDX va) with
      | none =>
        rw [copyoutLoop_cons empty]
        apply uva2ka_nullReads.bind
        intro page middle _
        cases page with
        | none => exact .pure fun wrong => by cases wrong
        | some page =>
          apply Meets.modify_bind
          apply (ih enough.next bounded).weaken
          intro result _ passable done
          have rest := passable done
          rw [List.length_drop] at rest
          exact .of_page small (by simp [found]) rest
      | some table =>
        rw [copyoutLoop_round empty small (by simp [found])]
        cases user : userPage pgdir va with
        | none => exact .pure fun wrong => by cases wrong
        | some page =>
          apply Meets.modify_bind
          apply (ih enough.next bounded).weaken
          intro result _ passable done
          have rest := passable done
          rw [List.length_drop] at rest
          exact .of_page small (by simp [user]) rest

theorem copyout_top (stack : StackPage pgdir sz page) (lower : sz - PGSIZE ≤ sp) (upper : sp ≤ sz)
    (nonempty : bytes ≠ []) (short : bytes.length < 2 ^ 32)
    (ran : (copyout current pgdir ((sp + 2 ^ 32 - bytes.length) % 2 ^ 32 / 4 * 4) bytes).run r = .ok (true, final)) :
    ∃ addr, (sp + 2 ^ 32 - bytes.length) % 2 ^ 32 / 4 * 4 = addr ∧ sz - PGSIZE ≤ addr ∧
      addr + bytes.length ≤ sp ∧ final = Ram.store pgdir r addr bytes := by
  obtain ⟨size, top⟩ := page_sizes
  have aligned := stack.aligned
  have low := stack.lower
  have high := stack.upper
  have length : 0 < bytes.length := List.length_pos_iff.mpr nonempty
  rw [size] at aligned low lower
  rw [top] at high
  obtain ⟨addr, is⟩ : ∃ addr, (sp + 2 ^ 32 - bytes.length) % 2 ^ 32 / 4 * 4 = addr := ⟨_, rfl⟩
  rw [is] at ran
  have small : addr < 2 ^ 32 := by omega
  have passable : Passable pgdir addr bytes.length := (copyoutLoop_true enough_copyout small).of_run ran rfl
  -- The guard page and the last page of the address space have tables and are not user pages.
  have guardMissed : ¬ ∃ i < bytes.length, (addr + i) % 2 ^ 32 / PGSIZE = (sz - 2 * PGSIZE) / PGSIZE := by
    intro ⟨i, inside, same⟩
    have user := passable i inside
    have entry := (same_entry_iff (Nat.mod_lt _ (by decide)) (by omega)).mpr same
    rw [entry.1, userPage_of_page same, stack.guard] at user
    exact absurd (user (stack.tables _ (by omega))) (by simp)
  have lastMissed : ¬ ∃ i < bytes.length, (addr + i) % 2 ^ 32 = 2 ^ 32 - 1 := by
    intro ⟨i, inside, same⟩
    have user := passable i inside
    have last := stack.devices (2 ^ 32 - 1) (by decide) (by decide)
    rw [same, last.1] at user
    exact absurd (user last.2) (by simp)
  have fits : sz - 4096 ≤ addr ∧ addr + bytes.length ≤ sp := by
    by_cases wraps : sp < bytes.length
    · exact absurd ⟨2 ^ 32 - 1 - addr, by omega, by omega⟩ lastMissed
    · refine ⟨?_, by omega⟩
      by_contra below
      by_cases inGuard : sz - 8192 ≤ addr
      · exact absurd ⟨0, length, by rw [size]; omega⟩ guardMissed
      · exact absurd ⟨sz - 8192 - addr, by omega, by rw [size]; omega⟩ guardMissed
  refine ⟨addr, is, by rw [size]; exact fits.1, fits.2, ?_⟩
  have user : ∀ i < bytes.length, (userPage pgdir ((addr + i) % 2 ^ 32)).isSome := by
    intro i inside
    rw [Nat.mod_eq_of_lt (by omega), stack.top (addr + i) (by rw [size]; omega) (by omega)]
    rfl
  rw [copyout, copyoutLoop_all enough_copyout small user] at ran
  cases ran
  rfl

def stores (pgdir : PageDir) (r : Ram) (items : List (Nat × List Byte)) : Ram :=
  items.foldl (fun r item => Ram.store pgdir r item.1 item.2) r

/-- Items below `sp` and below each other, at multiples of 4, down to `floor`. -/
def Descending (floor : Nat) : Nat → List (Nat × List Byte) → Prop
  | sp, [] => floor ≤ sp
  | sp, (addr, bytes) :: rest => addr + bytes.length ≤ sp ∧ addr % 4 = 0 ∧ Descending floor addr rest

theorem Descending.floor_le {floor : Nat} (descending : Descending floor sp items) : floor ≤ sp := by
  induction items generalizing sp with
  | nil => exact descending
  | cons item rest ih =>
    obtain ⟨below, _, others⟩ := descending
    have lower := ih others
    omega

theorem Descending.within {floor : Nat} (descending : Descending floor sp items) :
    ∀ item ∈ items, floor ≤ item.1 ∧ item.1 + item.2.length ≤ sp ∧ item.1 % 4 = 0 := by
  induction items generalizing sp with
  | nil => simp
  | cons first rest ih =>
    obtain ⟨below, aligned, others⟩ := descending
    intro item member
    cases List.mem_cons.mp member with
    | inl here =>
      subst here
      exact ⟨others.floor_le, below, aligned⟩
    | inr later =>
      obtain ⟨lower, upper, multiple⟩ := ih others item later
      exact ⟨lower, by omega, multiple⟩

theorem Descending.pairwise {floor : Nat} (descending : Descending floor sp items) :
    items.Pairwise fun earlier later => later.1 + later.2.length ≤ earlier.1 := by
  induction items generalizing sp with
  | nil => exact .nil
  | cons first rest ih =>
    obtain ⟨_, _, others⟩ := descending
    exact .cons (fun later member => (others.within later member).2.1) (ih others)

theorem StackPage.read_store (stack : StackPage pgdir sz page) (lower : sz - PGSIZE ≤ addr)
    (upper : addr + bytes.length ≤ sz) (user : va < KERNBASE) :
    (Ram.store pgdir r addr bytes).read pgdir va =
      if addr ≤ va ∧ va < addr + bytes.length then bytes[va - addr]? else r.read pgdir va := by
  apply stack.separate.read_store (upper.trans stack.upper) _ user
  intro va above below
  simp [stack.top va (lower.trans above) (by omega)]

theorem read_stores_outside (stack : StackPage pgdir sz page) (descending : Descending (sz - PGSIZE) sp items)
    (upper : sp ≤ sz) (user : va < KERNBASE) (outside : ∀ item ∈ items, ¬ (item.1 ≤ va ∧ va < item.1 + item.2.length)) :
    (stores pgdir r items).read pgdir va = r.read pgdir va := by
  induction items generalizing r sp with
  | nil => rfl
  | cons item rest ih =>
    obtain ⟨below, _, others⟩ := descending
    obtain ⟨first, later⟩ := List.forall_mem_cons.mp outside
    have place := others.floor_le
    change (stores pgdir (Ram.store pgdir r item.1 item.2) rest).read pgdir va = _
    rw [ih others (by omega) later, stack.read_store place (by omega) user, if_neg first]

theorem read_stores (stack : StackPage pgdir sz page) (descending : Descending (sz - PGSIZE) sp items)
    (upper : sp ≤ sz) {item : Nat × List Byte} (member : item ∈ items) {i : Nat} (inside : i < item.2.length) :
    (stores pgdir r items).read pgdir (item.1 + i) = item.2[i]? := by
  induction items generalizing r sp with
  | nil => cases member
  | cons first rest ih =>
    obtain ⟨below, _, others⟩ := descending
    change (stores pgdir (Ram.store pgdir r first.1 first.2) rest).read pgdir _ = _
    cases List.mem_cons.mp member with
    | inl here =>
      subst here
      have place := others.floor_le
      have high := stack.upper
      rw [read_stores_outside stack others (by omega) (by omega), stack.read_store place (by omega) (by omega),
        if_pos (by omega), Nat.add_sub_cancel_left]
      intro later member
      have limits := others.within later member
      omega
    | inr later => exact ih others (by omega) later

theorem length_wordBytes (word : Nat) : (wordBytes word).length = 4 := by simp [wordBytes]

theorem length_flatMap_wordBytes (words : List Nat) : (words.flatMap wordBytes).length = 4 * words.length := by
  induction words with
  | nil => rfl
  | cons word rest ih =>
    rw [List.flatMap_cons, List.length_append, ih, length_wordBytes, List.length_cons]
    ring

def stringItems (addrs : List Nat) (argv : List (List Byte)) : List (Nat × List Byte) :=
  addrs.zip (argv.map (· ++ [0]))

def vectorItem (pointers : List Nat) (sp esp : Nat) : Nat × List Byte :=
  (esp, (ustack pointers sp).flatMap wordBytes)

theorem run_copied {α : Type} {code : Code Bool} {next : Code (Option α)} {value : α}
    (ran : (do let copied ← code; if copied then next else pure none : Code (Option α)).run r =
      .ok (some value, final)) :
    ∃ middle, code.run r = .ok (true, middle) ∧ next.run middle = .ok (some value, final) := by
  obtain ⟨copied, middle, first, rest⟩ := run_bind_ok ran
  cases copied with
  | true => exact ⟨middle, first, rest⟩
  | false => cases rest

theorem length_vector (pointers : List Nat) (sp : Nat) :
    ((ustack pointers sp).flatMap wordBytes).length = 4 * (pointers.length + 4) := by
  rw [length_flatMap_wordBytes, ustack]
  simp only [List.length_append, List.length_cons, List.length_nil]
  ring

theorem pushVector (stack : StackPage pgdir sz page) (lower : sz - PGSIZE ≤ sp) (upper : sp ≤ sz)
    (multiple : sp % 4 = 0) (few : pointers.length ≤ MAXARG)
    (ran : (pushArguments current pgdir [] pointers sp).run r = .ok (some esp, final)) :
    sz - PGSIZE ≤ esp ∧ esp + 4 * (pointers.length + 4) = sp ∧
      final = Ram.store pgdir r esp ((ustack pointers sp).flatMap wordBytes) := by
  have max : MAXARG = 32 := rfl
  have top : KERNBASE = 2147483648 := rfl
  have high := stack.upper
  have length := length_vector pointers sp
  have place : (sp + 2 ^ 32 - (3 + pointers.length + 1) * 4) % 2 ^ 32 =
      (sp + 2 ^ 32 - ((ustack pointers sp).flatMap wordBytes).length) % 2 ^ 32 / 4 * 4 := by
    rw [length]
    omega
  obtain ⟨middle, copied, done⟩ := run_copied ran
  rw [place] at copied done
  obtain ⟨addr, is, above, below, stored⟩ := copyout_top stack lower upper (List.length_pos_iff.mp (by omega))
    (by omega) copied
  rw [is] at done
  cases done
  refine ⟨above, ?_, stored⟩
  rw [length] at is below
  omega

theorem pushArguments_items (stack : StackPage pgdir sz page) (lower : sz - PGSIZE ≤ sp) (upper : sp ≤ sz)
    (multiple : sp % 4 = 0) (short : ∀ arg ∈ argv, arg.length + 1 < 2 ^ 32) (few : pointers.length ≤ MAXARG)
    (ran : (pushArguments current pgdir argv pointers sp).run r = .ok (some esp, final)) :
    ∃ addrs, addrs.length = argv.length ∧
      Descending (sz - PGSIZE) sp
        (stringItems addrs argv ++ [vectorItem (pointers ++ addrs) (addrs.getLastD sp) esp]) ∧
      esp + 4 * (pointers.length + argv.length + 4) = addrs.getLastD sp ∧
      final = stores pgdir r (stringItems addrs argv ++ [vectorItem (pointers ++ addrs) (addrs.getLastD sp) esp]) := by
  induction argv generalizing pointers sp r with
  | nil =>
    obtain ⟨above, bottom, stored⟩ := pushVector stack lower upper multiple few ran
    refine ⟨[], rfl, ?_, bottom, ?_⟩
    · have length := length_vector pointers sp
      simp only [stringItems, List.zip_nil_left, List.nil_append, List.append_nil, vectorItem, Descending,
        List.getLastD_nil, length]
      omega
    · simp only [stringItems, List.zip_nil_left, List.nil_append, List.append_nil, vectorItem, stores,
        List.foldl_cons, List.foldl_nil]
      exact stored
  | cons arg rest ih =>
    obtain ⟨fits, others⟩ := List.forall_mem_cons.mp short
    have length : (arg ++ [0]).length = arg.length + 1 := by simp
    unfold pushArguments at ran
    have room : ¬ pointers.length ≥ MAXARG := by
      intro full
      rw [if_pos full] at ran
      cases ran
    rw [if_neg room] at ran
    obtain ⟨middle, copied, pushed⟩ := run_copied ran
    rw [← length] at copied pushed fits
    obtain ⟨addr, is, above, below, stored⟩ := copyout_top stack lower upper (by simp) fits copied
    rw [is] at pushed
    have fewer : (pointers ++ [addr]).length ≤ MAXARG := by
      rw [List.length_append, List.length_singleton]
      omega
    obtain ⟨addrs, count, descending, bottom, items⟩ := ih above (by omega) (by omega) others fewer pushed
    have last : (addr :: addrs).getLastD sp = addrs.getLastD addr := List.getLastD_cons ..
    have whole : pointers ++ addr :: addrs = pointers ++ [addr] ++ addrs := by simp
    refine ⟨addr :: addrs, by simp [count], ?_, ?_, ?_⟩
    · rw [last, whole]
      exact ⟨below, by omega, descending⟩
    · rw [last, ← bottom]
      simp
      omega
    · rw [last, whole, items, stored]
      rfl

def readWord (r : Ram) (pgdir : PageDir) (va : Nat) : Option Nat :=
  ((List.range 4).mapM fun i => r.read pgdir (va + i)).map littleEndian

def readString (r : Ram) (pgdir : PageDir) : Nat → Nat → Option (List Byte)
  | 0, _ => none
  | fuel + 1, va =>
    match r.read pgdir va with
    | none => none
    | some byte => if byte = 0 then some [] else (readString r pgdir fuel (va + 1)).map (byte :: ·)

def argumentStrings (r : Ram) (pgdir : PageDir) : Nat → Nat → Option (List (List Byte))
  | 0, argv => if readWord r pgdir argv = some 0 then some [] else none
  | n + 1, argv => do
    let first ← readString r pgdir PGSIZE (← readWord r pgdir argv)
    let rest ← argumentStrings r pgdir n (argv + 4)
    pure (first :: rest)

/-- The arguments as a C `main` finds them: above the return address are the
number of arguments and the address of the vector. -/
def mainArguments (r : Ram) (pgdir : PageDir) (esp : Nat) : Option (List (List Byte)) := do
  let argc ← readWord r pgdir (esp + 4)
  let argv ← readWord r pgdir (esp + 8)
  if readWord r pgdir esp = some 0xFFFFFFFF then argumentStrings r pgdir argc argv else none

theorem littleEndian_wordBytes {word : Nat} (small : word < 2 ^ 32) : littleEndian (wordBytes word) = word := by
  have range : List.range 4 = [0, 1, 2, 3] := rfl
  simp only [wordBytes, range, List.map_cons, List.map_nil, littleEndian, List.foldr_cons, List.foldr_nil,
    BitVec.toNat_ofNat]
  omega

theorem readWord_eq {word : Nat} (small : word < 2 ^ 32)
    (stored : ∀ i < 4, r.read pgdir (va + i) = (wordBytes word)[i]?) : readWord r pgdir va = some word := by
  have bytes : (List.range 4).mapM (fun i => r.read pgdir (va + i)) = some (wordBytes word) := by
    have range : List.range 4 = [0, 1, 2, 3] := rfl
    rw [range]
    simp only [List.mapM_cons, List.mapM_nil, stored 0 (by decide), stored 1 (by decide), stored 2 (by decide),
      stored 3 (by decide)]
    rfl
  rw [readWord, bytes, Option.map_some, littleEndian_wordBytes small]

theorem getElem?_flatMap_wordBytes {words : List Nat} {j i : Nat} (inside : i < 4) :
    (words.flatMap wordBytes)[4 * j + i]? = words[j]?.bind fun word => (wordBytes word)[i]? := by
  induction words generalizing j with
  | nil => simp
  | cons word rest ih =>
    rw [List.flatMap_cons]
    cases j with
    | zero =>
      rw [List.getElem?_append_left (by rw [length_wordBytes]; omega)]
      simp
    | succ j =>
      have shifted : 4 * (j + 1) + i = 4 + (4 * j + i) := by ring
      rw [List.getElem?_append_right (by rw [length_wordBytes]; omega), length_wordBytes, shifted,
        Nat.add_sub_cancel_left, ih]
      simp

theorem readString_eq {string : List Byte} (ended : (0 : Byte) ∉ string) (enough : string.length < fuel)
    (stored : ∀ i < (string ++ [0]).length, r.read pgdir (va + i) = (string ++ [0])[i]?) :
    readString r pgdir fuel va = some string := by
  induction string generalizing va fuel with
  | nil =>
    cases fuel with
    | zero => cases enough
    | succ fuel =>
      have first : r.read pgdir va = some 0 := stored 0 (by simp)
      simp only [readString, first, if_true]
  | cons byte rest ih =>
    cases fuel with
    | zero => cases enough
    | succ fuel =>
      have first : r.read pgdir va = some byte := stored 0 (by simp)
      rw [List.mem_cons, not_or] at ended
      obtain ⟨nonzero, others⟩ := ended
      have tail : readString r pgdir fuel (va + 1) = some rest := by
        apply ih others (Nat.lt_of_succ_lt_succ enough)
        intro i inside
        have next := stored (i + 1) (Nat.succ_lt_succ inside)
        rwa [Nat.add_comm i 1, ← Nat.add_assoc, Nat.add_comm 1 i, List.cons_append, List.getElem?_cons_succ]
          at next
      simp only [readString, first, if_neg (Ne.symm nonzero), tail, Option.map_some]

theorem argumentStrings_eq {addrs : List Nat} (count : addrs.length = argv.length)
    (pointers : ∀ i < addrs.length, readWord r pgdir (va + 4 * i) = addrs[i]?)
    (null : readWord r pgdir (va + 4 * addrs.length) = some 0)
    (strings : ∀ pair ∈ addrs.zip argv, readString r pgdir PGSIZE pair.1 = some pair.2) :
    argumentStrings r pgdir argv.length va = some argv := by
  induction argv generalizing addrs va with
  | nil =>
    rw [count] at null
    exact if_pos null
  | cons arg rest ih =>
    obtain ⟨addr, addrs, rfl⟩ := List.exists_cons_of_length_eq_add_one count
    obtain ⟨string, others⟩ := List.forall_mem_cons.mp strings
    have first : readWord r pgdir va = some addr := pointers 0 (by simp)
    have tail : argumentStrings r pgdir rest.length (va + 4) = some rest := by
      apply ih (Nat.succ.inj count) _ _ others
      · intro i inside
        have next := pointers (i + 1) (Nat.succ_lt_succ inside)
        rwa [Nat.mul_add, Nat.add_comm (4 * i), ← Nat.add_assoc, List.getElem?_cons_succ] at next
      · rwa [List.length_cons, Nat.mul_add, Nat.add_comm (4 * _), ← Nat.add_assoc] at null
    simp only [List.length_cons, argumentStrings, first, string, tail, Option.bind_eq_bind, Option.bind_some]
    rfl

theorem readWord_vector {j word : Nat} (stored : ∀ i < (pointers.flatMap wordBytes).length,
      r.read pgdir (esp + i) = (pointers.flatMap wordBytes)[i]?) (present : pointers[j]? = some word)
    (small : word < 2 ^ 32) : readWord r pgdir (esp + 4 * j) = some word := by
  apply readWord_eq small
  intro i inside
  have below : j < pointers.length := (List.getElem?_eq_some_iff.mp present).1
  rw [Nat.add_assoc, stored (4 * j + i) (by rw [length_flatMap_wordBytes]; omega), getElem?_flatMap_wordBytes inside,
    present, Option.bind_some]

def stackItems (addrs : List Nat) (argv : List (List Byte)) (sz esp : Nat) : List (Nat × List Byte) :=
  stringItems addrs argv ++ [vectorItem addrs (addrs.getLastD sz) esp]

structure Pushed (r : Ram) (pgdir : PageDir) (sz : Nat) (argv : List (List Byte)) (addrs : List Nat) (esp : Nat) :
    Prop where
  count : addrs.length = argv.length
  bottom : esp + 4 * (addrs.length + 4) = addrs.getLastD sz
  descending : Descending (sz - PGSIZE) sz (stackItems addrs argv sz esp)
  read : ∀ item ∈ stackItems addrs argv sz esp, ∀ i < item.2.length, r.read pgdir (item.1 + i) = item.2[i]?

def Outside (items : List (Nat × List Byte)) (va : Nat) : Prop :=
  ∀ item ∈ items, ¬ (item.1 ≤ va ∧ va < item.1 + item.2.length)

theorem pushArguments_pushed (stack : StackPage pgdir sz page) (short : ∀ arg ∈ argv, arg.length + 1 < 2 ^ 32)
    (ran : (pushArguments current pgdir argv [] sz).run r = .ok (some esp, final)) :
    ∃ addrs, Pushed final pgdir sz argv addrs esp ∧
      ∀ va < KERNBASE, Outside (stackItems addrs argv sz esp) va → final.read pgdir va = r.read pgdir va := by
  have size : PGSIZE = 4096 := rfl
  have aligned := stack.aligned
  rw [size] at aligned
  obtain ⟨addrs, count, descending, bottom, stored⟩ := pushArguments_items stack (Nat.sub_le ..) (Nat.le_refl sz)
    (by omega) short (Nat.zero_le _) ran
  rw [List.length_nil, Nat.zero_add, ← count] at bottom
  refine ⟨addrs, ⟨count, bottom, descending, ?_⟩, ?_⟩
  · intro item member i inside
    rw [stored]
    exact read_stores stack descending (Nat.le_refl sz) member inside
  · intro va user outside
    rw [stored]
    exact read_stores_outside stack descending (Nat.le_refl sz) user outside

variable {addrs : List Nat}

section

variable (pushed : Pushed r pgdir sz argv addrs esp)
include pushed

theorem Pushed.of_read {r' : Ram}
    (same : ∀ va < sz, r'.read pgdir va = r.read pgdir va) : Pushed r' pgdir sz argv addrs esp where
  count := pushed.count
  bottom := pushed.bottom
  descending := pushed.descending
  read := by
    intro item member i inside
    obtain ⟨_, upper, _⟩ := pushed.descending.within item member
    rw [same _ (by omega), pushed.read item member i inside]

theorem Pushed.string {addr : Nat} {arg : List Byte}
    (member : (addr, arg) ∈ addrs.zip argv) : sz - PGSIZE ≤ addr ∧ addr + arg.length + 1 ≤ sz ∧ addr % 4 = 0 ∧
      (addr, arg ++ [0]) ∈ stackItems addrs argv sz esp := by
  have item : (addr, arg ++ [0]) ∈ stackItems addrs argv sz esp := by
    apply List.mem_append_left
    rw [stringItems, List.zip_map_right]
    exact List.mem_map.mpr ⟨(addr, arg), member, rfl⟩
  obtain ⟨lower, upper, multiple⟩ := pushed.descending.within _ item
  rw [List.length_append, List.length_singleton, ← Nat.add_assoc] at upper
  exact ⟨lower, upper, multiple, item⟩

theorem Pushed.word {j word : Nat}
    (present : (ustack addrs (addrs.getLastD sz))[j]? = some word) (small : word < 2 ^ 32) :
    readWord r pgdir (esp + 4 * j) = some word :=
  readWord_vector (pushed.read _ (List.mem_append_right _ (List.mem_singleton_self _))) present small

/-- A C `main` that starts with this stack pointer finds the arguments of `exec`. -/
theorem Pushed.mainArguments (user : sz ≤ KERNBASE)
    (ended : ∀ arg ∈ argv, (0 : Byte) ∉ arg) : mainArguments r pgdir esp = some argv := by
  obtain ⟨size, top⟩ := page_sizes
  have count := pushed.count
  have bottom := pushed.bottom
  have vectorBelow := pushed.descending.within _ (List.mem_append_right _ (List.mem_singleton_self _))
  rw [vectorItem, length_vector] at vectorBelow
  have strings : ∀ pair ∈ addrs.zip argv, readString r pgdir PGSIZE pair.1 = some pair.2 := by
    intro ⟨addr, arg⟩ member
    obtain ⟨lower, upper, _, item⟩ := pushed.string member
    apply readString_eq (ended arg (List.of_mem_zip member).2) (by omega)
    intro i inside
    exact pushed.read _ item i inside
  have addresses : ∀ i < addrs.length, readWord r pgdir (esp + 12 + 4 * i) = addrs[i]? := by
    intro i inside
    obtain ⟨_, upper, _, _⟩ := pushed.string
      (List.mem_iff_getElem.mpr ⟨i, by rw [List.length_zip]; omega, List.getElem_zip⟩)
    have place : esp + 12 + 4 * i = esp + 4 * (i + 3) := by ring
    rw [place, List.getElem?_eq_getElem inside]
    apply pushed.word _ (by omega)
    simp only [ustack, List.cons_append, List.nil_append, List.getElem?_cons_succ]
    rw [List.getElem?_append_left inside, List.getElem?_eq_getElem inside]
  have null : readWord r pgdir (esp + 12 + 4 * addrs.length) = some 0 := by
    have place : esp + 12 + 4 * addrs.length = esp + 4 * (addrs.length + 3) := by ring
    rw [place]
    apply pushed.word _ (by decide)
    simp [ustack]
  have argc : readWord r pgdir (esp + 4) = some argv.length := by
    apply pushed.word (j := 1) _ (by omega)
    simp [ustack, count]
  have pointer : readWord r pgdir (esp + 8) = some (esp + 12) := by
    apply pushed.word (j := 2) _ (by omega)
    simp only [ustack, List.cons_append, List.nil_append, List.getElem?_cons_succ, List.getElem?_cons_zero]
    rw [← bottom]
    congr 1
    omega
  have back : readWord r pgdir esp = some 0xFFFFFFFF := pushed.word (j := 0) rfl (by decide)
  simp only [Image.mainArguments, argc, pointer, back, Option.bind_eq_bind, Option.bind_some, if_true]
  exact argumentStrings_eq count addresses null strings

end

end Xv6.Image
