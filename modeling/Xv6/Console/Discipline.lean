import Xv6.Console.Machine

namespace Xv6.Console

open Xv6.Data

/-! # The line discipline

The buffer holds the committed bytes that nobody has read, from `r` to `w`, and
after them the line that is being edited, from `w` to `e`.
-/

variable {s t : State} {input : Input} {c : Byte}

theorem fits : FreeRing.Fits INPUT_BUF := ⟨by decide, by decide⟩

def Input.ring (input : Input) : FreeRing INPUT_BUF Byte := ⟨input.buf, input.r, input.e⟩

def Input.pending (input : Input) : List Byte := (FreeRing.mk input.buf input.r input.w).contents

def Input.line (input : Input) : List Byte := (FreeRing.mk input.buf input.w input.e).contents

structure Input.Sound (input : Input) : Prop where
  order : (input.w - input.r).toNat ≤ (input.e - input.r).toNat
  room : (input.e - input.r).toNat ≤ INPUT_BUF

theorem Input.Sound.contents (sound : input.Sound) : input.ring.contents = input.pending ++ input.line :=
  FreeRing.contents_split sound.order

theorem Input.Sound.lengths (sound : input.Sound) :
    input.pending.length + input.line.length = (input.e - input.r).toNat := by
  rw [← List.length_append, ← sound.contents, FreeRing.length_contents]
  rfl

/-- The bytes after `w` are a beginning of what they were; all else is as before. -/
structure Erased (before after : Input) : Prop where
  sound : after.Sound
  buf : after.buf = before.buf
  r : after.r = before.r
  w : after.w = before.w
  line : after.line <+: before.line

theorem Erased.pending {before after : Input} (erased : Erased before after) : after.pending = before.pending := by
  simp only [Input.pending, erased.buf, erased.r, erased.w]

theorem Input.Sound.kept (sound : input.Sound) : Erased input input := ⟨sound, rfl, rfl, rfl, List.prefix_rfl⟩

theorem erased_one (sound : input.Sound) (some : input.e ≠ input.w) :
    Erased input { input with e := input.e - 1 } := by
  obtain ⟨order, room⟩ := sound
  have uncommitted : (FreeRing.mk input.buf input.w input.e).count ≠ 0 := by
    intro none
    exact some (FreeRing.empty_iff.mpr none).symm
  have shorter : ({ input with e := input.e - 1 } : Input).Sound := by
    constructor
    · dsimp only
      bv_omega
    · dsimp only
      bv_omega
  obtain ⟨last, is⟩ := FreeRing.contents_unput uncommitted
  exact ⟨shorter, rfl, rfl, rfl, last :: [], is.symm⟩

theorem backspace_erased (sound : input.Sound) : Erased input (backspace input) := by
  unfold backspace
  split
  · next some => exact erased_one sound some
  · exact sound.kept

theorem killLine_erased (left : Nat) (sound : input.Sound) : Erased input (killLine left input) := by
  induction left generalizing input with
  | zero => exact sound.kept
  | succ left ih =>
    simp only [killLine]
    split
    · rename_i more
      have one := erased_one sound more.1
      have rest := ih one.sound
      exact ⟨rest.sound, rest.buf, rest.r, rest.w, rest.line.trans one.line⟩
    · exact sound.kept

def Erases (c : Byte) : Prop := c = C 'U' ∨ c = C 'H' ∨ c = delete

theorem edit_erases (sound : input.Sound) (erases : Erases c) : Erased input (edit input c).1 := by
  rcases erases with rfl | rfl | rfl
  · exact killLine_erased _ sound
  · exact backspace_erased sound
  · exact backspace_erased sound

structure Committed (before after : Input) : Prop where
  sound : after.Sound
  r : after.r = before.r
  w : after.w = before.w + BitVec.ofNat 32 (committed before after).length
  pending : after.pending = before.pending ++ committed before after

theorem Erased.committed {before after : Input} (erased : Erased before after) : Committed before after := by
  have none : Console.committed before after = [] := by
    apply List.eq_nil_of_length_eq_zero
    simp [Console.committed, FreeRing.count, erased.w]
  refine ⟨erased.sound, erased.r, ?_, ?_⟩
  · simp [none, erased.w]
  · rw [none, List.append_nil, erased.pending]

/-- A byte put in at `e` is added to the line and leaves the bytes before it alone. -/
theorem store_parts (sound : input.Sound) (room : (input.e - input.r).toNat < INPUT_BUF) (c : Byte) :
    (store input c).Sound ∧ (store input c).pending = input.pending ∧ (store input c).line = input.line ++ [c] := by
  obtain ⟨order, _⟩ := sound
  have free : input.ring.count < INPUT_BUF := room
  have counted : (input.e + 1 - input.r).toNat = (input.e - input.r).toNat + 1 := FreeRing.count_put fits free c
  have after : (store input c).Sound := by
    constructor
    · exact order.trans ((Nat.le_succ _).trans counted.ge)
    · exact counted.trans_le room
  have whole : (store input c).ring.contents = input.ring.contents ++ [c] := FreeRing.contents_put fits free c
  rw [after.contents, Input.Sound.contents ⟨order, room.le⟩, List.append_assoc] at whole
  have length : (store input c).pending.length = input.pending.length := by
    simp only [Input.pending, FreeRing.length_contents]
    rfl
  exact ⟨after, List.append_inj whole length⟩

theorem stored_committed (sound : input.Sound) (room : (input.e - input.r).toNat < INPUT_BUF) (c : Byte) :
    Committed input (store input c) := by
  obtain ⟨after, pending, _⟩ := store_parts sound room c
  have none : committed input (store input c) = [] := by
    apply List.eq_nil_of_length_eq_zero
    simp [committed, FreeRing.count, store]
  refine ⟨after, rfl, ?_, ?_⟩
  · rw [none]
    exact (BitVec.add_zero _).symm
  · rw [none, List.append_nil, pending]

theorem line_committed (sound : input.Sound) (room : (input.e - input.r).toNat < INPUT_BUF) (c : Byte) :
    Committed input { store input c with w := (store input c).e } := by
  obtain ⟨after, pending, _⟩ := store_parts sound room c
  have moved : committed input { store input c with w := (store input c).e } = (store input c).line := rfl
  refine ⟨⟨le_rfl, after.room⟩, rfl, ?_, ?_⟩
  · rw [moved, Input.line, FreeRing.length_contents]
    exact FreeRing.nwrite_eq (FreeRing.mk (store input c).buf (store input c).w (store input c).e)
  · rw [moved, ← pending]
    exact after.contents

theorem edit_committed (sound : input.Sound) (c : Byte) : Committed input (edit input c).1 := by
  unfold edit
  split
  · exact sound.kept.committed
  · split
    · exact (killLine_erased _ sound).committed
    · split
      · exact (backspace_erased sound).committed
      · split
        · rename_i stores
          dsimp only
          generalize (if c = carriageReturn then newline else c) = stored
          split
          · exact line_committed sound stores.2 _
          · exact stored_committed sound stores.2 _
        · exact sound.kept.committed

/-- What the loop of `consoleread` takes from the bytes that can be read. -/
structure Taken (target : Nat) (input : Input) (bytes : List Byte) (progress : Progress) (after : Input) : Prop where
  sound : after.Sound
  w : after.w = input.w
  r : after.r = input.r + BitVec.ofNat 32 (items target bytes progress).length
  pending : input.pending.map Item.of = items target bytes progress ++ after.pending.map Item.of

theorem Input.Sound.none_taken {target : Nat} (sound : input.Sound) {progress : Progress}
    (goesOn : items target [] progress = []) : Taken target input [] progress input := by
  refine ⟨sound, rfl, ?_, ?_⟩
  · simp [goesOn]
  · simp [goesOn]

theorem Input.Sound.pending_cons (sound : input.Sound) (some : input.r ≠ input.w) :
    ({ input with r := input.r + 1 } : Input).Sound ∧
      input.pending = input.buf (FreeRing.slot input.r) :: ({ input with r := input.r + 1 } : Input).pending := by
  obtain ⟨order, room⟩ := sound
  have unread : (FreeRing.mk input.buf input.r input.w).count ≠ 0 := by
    intro none
    exact some (FreeRing.empty_iff.mpr none)
  refine ⟨⟨?_, ?_⟩, FreeRing.contents_drop unread⟩
  · dsimp only
    bv_omega
  · dsimp only
    bv_omega

theorem items_cons (target : Nat) (c : Byte) (bytes : List Byte) (progress : Progress) :
    items target (c :: bytes) progress = .byte c :: items target bytes progress := rfl

theorem readLoop_taken {target : Nat} (n : Nat) (atMost : n ≤ target) (sound : input.Sound) :
    Taken target input (readLoop target n input).1 (readLoop target n input).2.1 (readLoop target n input).2.2 := by
  induction n generalizing input with
  | zero =>
    apply sound.none_taken
    simp only [readLoop, items, Progress.returns.injEq, List.map_nil, List.nil_append, ite_eq_right_iff]
    omega
  | succ n ih =>
    have wants : 0 < target := Nat.lt_of_lt_of_le n.succ_pos atMost
    simp only [readLoop]
    split
    · apply sound.none_taken
      simp [items]
    · rename_i some
      obtain ⟨after, pending⟩ := sound.pending_cons some
      split
      · rename_i isD
        split
        · rename_i short
          have back : ({ input with r := input.r + 1 - 1 } : Input) = input := by simp
          dsimp only
          rw [back]
          apply sound.none_taken
          have positive : target - (n + 1) ≠ 0 := by omega
          simp [items, positive]
        · rename_i whole
          have zero : target - (n + 1) = 0 := by omega
          refine ⟨after, rfl, ?_, ?_⟩
          · simp [items, zero, wants]
          · simp [items, zero, wants, pending, isD, Item.of]
      · rename_i notD
        split
        · have positive : target - n ≠ 0 := by omega
          refine ⟨after, rfl, ?_, ?_⟩
          · simp [items, positive]
          · simp [items, positive, pending, notD, Item.of]
        · have rest := ih (Nat.le_of_succ_le atMost) after
          refine ⟨rest.sound, rest.w, ?_, ?_⟩
          · rw [items_cons, List.length_cons, Nat.add_comm, BitVec.ofNat_add, ← BitVec.add_assoc]
            exact rest.r
          · rw [items_cons, pending, List.map_cons, rest.pending]
            simp [Item.of, notD]

theorem consoleintr_committed (sound : s.input.Sound) (chars : List Byte) :
    (consoleintr s chars).input.Sound ∧ (consoleintr s chars).input.r = s.input.r ∧
      (consoleintr s chars).input.w = s.input.w + BitVec.ofNat 32 (intrCommits s chars).length ∧
      (consoleintr s chars).input.pending = s.input.pending ++ intrCommits s chars := by
  induction chars generalizing s with
  | nil => exact ⟨sound, rfl, (BitVec.add_zero _).symm, (List.append_nil _).symm⟩
  | cons c rest ih =>
    have one := edit_committed sound c
    have input : (getc s c).input = (edit s.input c).1 := by
      simp only [getc]
      split <;> rfl
    obtain ⟨after, r, w, pending⟩ := ih (s := getc s c) (input ▸ one.sound)
    rw [input] at r w pending
    refine ⟨after, r.trans one.r, ?_, ?_⟩
    · rw [intrCommits, List.length_append, BitVec.ofNat_add, ← BitVec.add_assoc, ← one.w]
      exact w
    · rw [intrCommits, ← List.append_assoc, ← one.pending]
      exact pending

structure State.Sound (s : State) : Prop where
  input : s.input.Sound
  wanted : ∀ p n target, s.ops p = .reading n target ∨ s.ops p = .sleeping n target → n ≤ target

theorem consoleintr_wants {p n target : Nat} (chars : List Byte)
    (inside : (consoleintr s chars).ops p = .reading n target ∨ (consoleintr s chars).ops p = .sleeping n target) :
    s.ops p = .reading n target ∨ s.ops p = .sleeping n target := by
  induction chars generalizing s with
  | nil => exact inside
  | cons c rest ih =>
    have after := ih (s := getc s c) inside
    simp only [getc] at after
    split at after
    · simp only [wakeup] at after
      cases is : s.ops p <;> simp_all [Op.wake]
    · exact after

theorem readLoop_sleeps {target n m : Nat} (sleeps : (readLoop target n input).2.1 = .sleeps m) : m ≤ n := by
  induction n generalizing input with
  | zero => cases sleeps
  | succ n ih =>
    simp only [readLoop] at sleeps
    split at sleeps
    · cases sleeps
      exact le_rfl
    · split at sleeps
      · split at sleeps <;> cases sleeps
      · split at sleeps
        · cases sleeps
        · exact (ih sleeps).trans (Nat.le_succ n)

structure Moved (s : State) (a : Action) (t : State) : Prop where
  sound : t.Sound
  w : t.input.w = s.input.w + BitVec.ofNat 32 (commits s a).length
  r : t.input.r = s.input.r + BitVec.ofNat 32 (delivers s a).length
  pending : s.input.pending.map Item.of ++ (commits s a).map Item.of =
    delivers s a ++ t.input.pending.map Item.of

theorem State.Sound.step {a : Action} (sound : s.Sound) (taken : step s a = some t) : Moved s a t := by
  cases a with
  | intr chars =>
    cases taken
    obtain ⟨after, r, w, pending⟩ := consoleintr_committed sound.input chars
    refine ⟨⟨after, ?_⟩, w, ?_, ?_⟩
    · intro p n target inside
      exact sound.wanted p n target (consoleintr_wants chars inside)
    · rw [r]
      exact (BitVec.add_zero _).symm
    · rw [pending, List.map_append]
      rfl
  | callRead p n =>
    simp only [Console.step, Option.ite_none_right_eq_some, Option.some.injEq] at taken
    obtain ⟨_, rfl⟩ := taken
    refine ⟨⟨sound.input, ?_⟩, (BitVec.add_zero _).symm, (BitVec.add_zero _).symm, List.append_nil _⟩
    intro q m target inside
    by_cases same : q = p
    · simp only [same, Function.update_self, Op.reading.injEq, reduceCtorEq, or_false] at inside
      omega
    · exact sound.wanted q m target (by simpa [same] using inside)
  | run p =>
    simp only [Console.step] at taken
    split at taken
    · rename_i n target inside
      cases taken
      have atMost := sound.wanted p n target (.inl inside)
      have fetched := readLoop_taken n atMost sound.input
      refine ⟨⟨fetched.sound, ?_⟩, ?_, ?_, ?_⟩
      · intro q m wanted still
        by_cases same : q = p
        · simp only [consoleread, same, Function.update_self] at still
          cases progress : (readLoop target n s.input).2.1 with
          | sleeps left =>
            have less := readLoop_sleeps progress
            simp only [progress, Op.after, reduceCtorEq, Op.sleeping.injEq, false_or] at still
            omega
          | returns result => simp [progress, Op.after] at still
        · exact sound.wanted q m wanted (by simpa [consoleread, same] using still)
      · exact fetched.w.trans (BitVec.add_zero _).symm
      · simp only [delivers, inside]
        exact fetched.r
      · simp only [delivers, commits, inside, List.map_nil, List.append_nil]
        exact fetched.pending
    · cases taken

theorem consoleinit_sound : consoleinit.Sound := by
  constructor
  · exact ⟨le_rfl, Nat.zero_le _⟩
  · intro p n target inside
    rcases inside with inside | inside <;> cases inside

theorem consoleinit_pending : consoleinit.input.pending = [] := by
  apply List.eq_nil_of_length_eq_zero
  simp [Input.pending, FreeRing.count, consoleinit]

variable {actions : List Action}

theorem run_sound (ran : exec step consoleinit actions = some s) : s.Sound :=
  exec_invariant_all State.Sound consoleinit_sound (fun _ _ _ good taken => (good.step taken).sound) ran

/-- An index that every step moves over the events of one kind is their number. -/
theorem run_counts {β : Type} {event : State → Action → List β} {index : Input → BitVec 32}
    (zero : index consoleinit.input = 0) (moves : ∀ before action after, Moved before action after →
      index after.input = index before.input + BitVec.ofNat 32 (event before action).length)
    (ran : exec step consoleinit actions = some s) :
    index s.input = BitVec.ofNat 32 (emitted step event consoleinit actions).flatten.length := by
  have counted : s.Sound ∧ index s.input = BitVec.ofNat 32 (emitted step event consoleinit actions).flatten.length := by
    refine emitted_invariant (fun s past => s.Sound ∧ index s.input = BitVec.ofNat 32 past.flatten.length)
      ⟨consoleinit_sound, zero⟩ along_true ?_ ran
    intro before past action after good _ taken
    have moved := good.1.step taken
    refine ⟨moved.sound, ?_⟩
    rw [moves before action after moved, good.2, List.flatten_append, List.flatten_singleton, List.length_append,
      BitVec.ofNat_add]
  exact counted.2

theorem run_fifo (ran : exec step consoleinit actions = some s) :
    (emitted step commits consoleinit actions).flatten.map Item.of =
      (emitted step delivers consoleinit actions).flatten ++ s.input.pending.map Item.of := by
  have fifo := emitted_fifo State.Sound consoleinit_sound along_true
    (fun _ _ _ good _ taken => ⟨(good.step taken).sound, (good.step taken).pending⟩) ran
  rw [consoleinit_pending, List.map_nil, List.nil_append, emitted_map, ← List.map_flatten] at fifo
  exact fifo

/-- However long the console runs: what readers get, with an end of file for every `^D`,
is what was committed, in order, up to the bytes that nobody has read yet. -/
theorem committed_bytes_delivered {actions : List Action} (ran : exec step consoleinit actions = some s) :
    (emitted step commits consoleinit actions).flatten.map Item.of =
        (emitted step delivers consoleinit actions).flatten ++ s.input.pending.map Item.of ∧
      (∃ r w e : Nat, s.input.r = BitVec.ofNat 32 r ∧ s.input.w = BitVec.ofNat 32 w ∧ s.input.e = BitVec.ofNat 32 e ∧
        r = (emitted step delivers consoleinit actions).flatten.length ∧
        w = (emitted step commits consoleinit actions).flatten.length ∧
        r ≤ w ∧ w ≤ e ∧ e ≤ r + INPUT_BUF) ∧
      ∀ c, Erases c → Erased s.input (edit s.input c).1 := by
  have sound := run_sound ran
  have fifo := run_fifo ran
  refine ⟨fifo, ⟨(emitted step delivers consoleinit actions).flatten.length,
    (emitted step commits consoleinit actions).flatten.length,
    (emitted step commits consoleinit actions).flatten.length + s.input.line.length, ?_, ?_, ?_, rfl, rfl, ?_, ?_, ?_⟩,
    fun c erases => edit_erases sound.input erases⟩
  · exact run_counts rfl (fun _ _ _ moved => moved.r) ran
  · exact run_counts rfl (fun _ _ _ moved => moved.w) ran
  · rw [BitVec.ofNat_add, ← run_counts rfl (fun _ _ _ moved => moved.w) ran, Input.line, FreeRing.length_contents]
    exact FreeRing.nwrite_eq (FreeRing.mk s.input.buf s.input.w s.input.e)
  · have counted := congrArg List.length fifo
    simp only [List.length_map, List.length_append] at counted
    omega
  · exact Nat.le_add_right _ _
  · have counted := congrArg List.length fifo
    have parts := sound.input.lengths
    have room := sound.input.room
    simp only [List.length_map, List.length_append] at counted
    omega

def lineAndEnd : List Action :=
  [.intr [104, 120, 8, 105, 13, 4], .callRead 0 10, .run 0, .callRead 0 10, .run 0]

theorem committed_bytes_delivered_line : ∃ s, exec step consoleinit lineAndEnd = some s ∧
    (emitted step delivers consoleinit lineAndEnd).flatten = [.byte 104, .byte 105, .byte 10, .endOfFile] ∧
    (emitted step commits consoleinit lineAndEnd).flatten.map Item.of =
      (emitted step delivers consoleinit lineAndEnd).flatten ++ s.input.pending.map Item.of := by
  have reached : (exec step consoleinit lineAndEnd).isSome := by decide +kernel
  obtain ⟨s, ran⟩ := Option.isSome_iff_exists.mp reached
  exact ⟨s, ran, by decide +kernel, (committed_bytes_delivered ran).1⟩

end Xv6.Console
