import Xv6.Pipes.Machine

namespace Xv6.Pipes

open Xv6.Data

/-! # A pipe is a queue

Whoever sleeps has a reason to, but for a reader that a writer does not wake when it
gives up.
-/

variable {s t : State} {p : Nat} {ring : FreeRing PIPESIZE Byte}

theorem fits : FreeRing.Fits PIPESIZE := ⟨by decide, by decide⟩

structure Stored (ring : FreeRing PIPESIZE Byte) (bytes : List Byte) (i : Nat)
    (after : FreeRing PIPESIZE Byte) : Prop where
  bound : i ≤ bytes.length
  contents : after.contents = ring.contents ++ bytes.take i
  count : after.count = ring.count + i
  room : after.count ≤ PIPESIZE
  full : i < bytes.length → after.count = PIPESIZE

theorem store_stored (bytes : List Byte) (room : ring.count ≤ PIPESIZE) :
    Stored ring bytes (store ring bytes).1 (store ring bytes).2 := by
  induction bytes generalizing ring with
  | nil => exact ⟨le_rfl, by simp [store], rfl, room, by simp [store]⟩
  | cons byte rest ih =>
    by_cases full : ring.count = PIPESIZE
    · have test := (FreeRing.full_iff fits).mpr full
      simp only [store, test, if_true]
      exact ⟨Nat.zero_le _, by simp, rfl, room, fun _ => full⟩
    · have test := mt (FreeRing.full_iff fits).mp full
      have free : ring.count < PIPESIZE := lt_of_le_of_ne room full
      have one := FreeRing.count_put fits free byte
      have inner := ih (one.trans_le free)
      simp only [store, test, if_false]
      refine ⟨by simpa using inner.bound, ?_, ?_, inner.room, ?_⟩
      · rw [inner.contents, FreeRing.contents_put fits free, List.take_succ_cons, List.append_assoc]
        rfl
      · rw [inner.count, one]
        omega
      · intro short
        exact inner.full (by simpa using short)

structure Fetched (ring : FreeRing PIPESIZE Byte) (bytes : List Byte) (after : FreeRing PIPESIZE Byte) :
    Prop where
  contents : ring.contents = bytes ++ after.contents
  count : after.count ≤ ring.count

theorem fetch_fetched (n : Nat) (ring : FreeRing PIPESIZE Byte) : Fetched ring (fetch n ring).1 (fetch n ring).2 := by
  induction n generalizing ring with
  | zero => exact ⟨rfl, le_rfl⟩
  | succ n ih =>
    by_cases empty : ring.count = 0
    · have test := FreeRing.empty_iff.mpr empty
      simp only [fetch, test, if_true]
      exact ⟨rfl, le_rfl⟩
    · have test := mt FreeRing.empty_iff.mp empty
      have inner := ih ring.drop
      have one := FreeRing.count_drop empty
      simp only [fetch, test, if_false]
      constructor
      · rw [FreeRing.contents_drop empty, inner.contents]
        rfl
      · have less := inner.count
        omega

structure Waiting (s : State) : Prop where
  room : s.pipe.count ≤ PIPESIZE
  writer : ∀ p rest, s.ops p = .sleepsWrite rest → s.pipe.count = PIPESIZE ∧ s.pipe.readopen = true

def ReaderWaits (s : State) : Prop :=
  ∀ p n, s.ops p = .sleepsRead n → s.pipe.count = 0 ∧ s.pipe.writeopen = true

@[simp] theorem setOp_pipe (op : Op) : (s.setOp p op).pipe = s.pipe := rfl

@[simp] theorem wakeup_pipe (chan : Chan) : (wakeup s chan).pipe = s.pipe := rfl

theorem setOp_asleep {op op' : Op} {q : Nat} (different : op ≠ op') (asleep : (s.setOp p op).ops q = op') :
    s.ops q = op' := by
  by_cases same : q = p
  · subst same
    simp [State.setOp] at asleep
    exact absurd asleep different
  · simpa [State.setOp, same] using asleep

theorem wakeup_reader {n : Int} : (wakeup s .nread).ops p ≠ .sleepsRead n := by
  simp only [wakeup]
  cases s.ops p <;> simp [Op.wake]

theorem wakeup_writer {rest : List Byte} : (wakeup s .nwrite).ops p ≠ .sleepsWrite rest := by
  simp only [wakeup]
  cases s.ops p <;> simp [Op.wake]

theorem wakeup_other_reader {n : Int} (asleep : (wakeup s .nwrite).ops p = .sleepsRead n) :
    s.ops p = .sleepsRead n := by
  simp only [wakeup] at asleep
  cases is : s.ops p <;> simp_all [Op.wake]

theorem wakeup_other_writer {rest : List Byte} (asleep : (wakeup s .nread).ops p = .sleepsWrite rest) :
    s.ops p = .sleepsWrite rest := by
  simp only [wakeup] at asleep
  cases is : s.ops p <;> simp_all [Op.wake]

theorem pipewrite_waiting (bytes : List Byte) (waiting : Waiting s) : Waiting (pipewrite s p bytes) := by
  have stored := store_stored bytes waiting.room
  have full (q : Nat) (rest : List Byte) (asleep : s.ops q = .sleepsWrite rest) :
      (store s.pipe.toFreeRing bytes).2.count = PIPESIZE ∧ s.pipe.readopen = true := by
    obtain ⟨wasFull, isOpen⟩ := waiting.writer q rest asleep
    have count := stored.count
    have room := stored.room
    exact ⟨by omega, isOpen⟩
  unfold pipewrite
  dsimp only
  split
  · rename_i short
    split
    · refine ⟨stored.room, ?_⟩
      intro q rest asleep
      exact full q rest (setOp_asleep (by simp) asleep)
    · rename_i waits
      simp only [not_or, Bool.not_eq_false] at waits
      refine ⟨stored.room, ?_⟩
      intro q rest asleep
      exact ⟨stored.full short, waits.1⟩
  · refine ⟨stored.room, ?_⟩
    intro q rest asleep
    exact full q rest (wakeup_other_writer (setOp_asleep (by simp) asleep))

theorem piperead_waiting (n : Int) (waiting : Waiting s) : Waiting (piperead s p n) := by
  have fetched := fetch_fetched n.toNat s.pipe.toFreeRing
  unfold piperead
  split
  · split <;> exact ⟨waiting.room, fun q rest asleep => waiting.writer q rest (setOp_asleep (by simp) asleep)⟩
  · refine ⟨fetched.count.trans waiting.room, ?_⟩
    intro q rest asleep
    exact absurd (setOp_asleep (by simp) asleep) wakeup_writer

theorem pipeclose_waiting (writable : Bool) (waiting : Waiting s) : Waiting (pipeclose s writable) := by
  unfold pipeclose
  split
  · refine ⟨waiting.room, ?_⟩
    intro q rest asleep
    exact waiting.writer q rest (wakeup_other_writer asleep)
  · refine ⟨waiting.room, ?_⟩
    intro q rest asleep
    exact absurd asleep wakeup_writer

theorem kill_asleep {q : Nat} {op : Op} (sleeps : (∃ n, op = .sleepsRead n) ∨ ∃ rest, op = .sleepsWrite rest)
    (asleep : (kill s p).ops q = op) : s.ops q = op := by
  by_cases same : q = p
  · subst same
    simp only [kill, Function.update_self] at asleep
    cases is : s.ops q <;> rcases sleeps with ⟨n, rfl⟩ | ⟨rest, rfl⟩ <;> simp_all [Op.wake]
  · simpa [kill, same] using asleep

theorem Waiting.step {a : Action} (waiting : Waiting s) (taken : step s a = some t) : Waiting t := by
  cases step_effect taken with
  | callsWrite outside | callsRead outside =>
    exact ⟨waiting.room, fun q rest asleep => waiting.writer q rest (setOp_asleep (by simp) asleep)⟩
  | writes inside => exact pipewrite_waiting _ waiting
  | reads inside => exact piperead_waiting _ waiting
  | closes => exact pipeclose_waiting _ waiting
  | kills =>
    exact ⟨waiting.room, fun q rest asleep => waiting.writer q rest (kill_asleep (.inr ⟨rest, rfl⟩) asleep)⟩

/-- The condition on a step of `pipewrite`: a writer with more bytes than there is
room for, and that is killed or whose readers are gone, leaves no reader asleep. -/
def Heard (s : State) : Action → Prop
  | .run p =>
    ∀ bytes, s.ops p = .writing bytes → PIPESIZE < s.pipe.count + bytes.length →
      s.pipe.readopen = false ∨ s.killed p = true → ∀ q n, s.ops q ≠ .sleepsRead n
  | _ => True

theorem pipewrite_readerWaits {bytes : List Byte} (waiting : Waiting s) (inside : s.ops p = .writing bytes)
    (heard : Heard s (.run p)) : ReaderWaits (pipewrite s p bytes) := by
  have stored := store_stored bytes waiting.room
  intro q n asleep
  unfold pipewrite at asleep
  dsimp only at asleep
  split at asleep
  · rename_i short
    split at asleep
    · rename_i givesUp
      have full := stored.full short
      have count := stored.count
      exact absurd (setOp_asleep (by simp) asleep) (heard bytes inside (by omega) givesUp q n)
    · exact absurd (setOp_asleep (by simp) asleep) wakeup_reader
  · exact absurd (setOp_asleep (by simp) asleep) wakeup_reader

theorem piperead_readerWaits {n : Int} (readers : ReaderWaits s) : ReaderWaits (piperead s p n) := by
  intro q m asleep
  unfold piperead at asleep ⊢
  split at asleep
  · rename_i empty
    have nothing : s.pipe.count = 0 ∧ s.pipe.writeopen = true := ⟨FreeRing.empty_iff.mp empty.1, empty.2⟩
    simp only [empty, and_self, if_true]
    split <;> exact nothing
  · rename_i some
    obtain ⟨nothing, isOpen⟩ := readers q m (wakeup_other_reader (setOp_asleep (by simp) asleep))
    exact absurd ⟨FreeRing.empty_iff.mpr nothing, isOpen⟩ some

theorem ReaderWaits.step {a : Action} (readers : ReaderWaits s) (waiting : Waiting s) (heard : Heard s a)
    (taken : step s a = some t) : ReaderWaits t := by
  cases step_effect taken with
  | callsWrite outside | callsRead outside =>
    exact fun q n asleep => readers q n (setOp_asleep (by simp) asleep)
  | writes inside => exact pipewrite_readerWaits waiting inside heard
  | reads inside => exact piperead_readerWaits readers
  | @closes writable =>
    intro q n asleep
    cases writable with
    | true => exact absurd asleep wakeup_reader
    | false => exact readers q n (wakeup_other_reader asleep)
  | kills => exact fun q n asleep => readers q n (kill_asleep (.inl ⟨n, rfl⟩) asleep)

theorem step_fifo {a : Action} (waiting : Waiting s) (taken : step s a = some t) :
    s.pipe.contents ++ stores s a = returns s a ++ t.pipe.contents := by
  cases step_effect taken with
  | callsWrite outside | callsRead outside => simp [stores, returns]
  | @writes p bytes inside =>
    have stored := store_stored bytes waiting.room
    have ring : (pipewrite s p bytes).pipe.toFreeRing = (store s.pipe.toFreeRing bytes).2 := by
      unfold pipewrite
      dsimp only
      split
      · split <;> rfl
      · rfl
    simp only [stores, returns, inside, ring, List.nil_append]
    exact stored.contents.symm
  | @reads p n inside =>
    simp only [stores, returns, inside, List.append_nil]
    unfold piperead
    split
    · split <;> simp
    · exact (fetch_fetched n.toNat s.pipe.toFreeRing).contents
  | @closes writable => cases writable <;> simp [stores, returns, pipeclose]
  | kills => simp [stores, returns, kill]

theorem pipealloc_count (data : Fin PIPESIZE → Byte) : (pipealloc data).pipe.count = 0 := by
  simp [pipealloc, FreeRing.count]

theorem pipealloc_waiting (data : Fin PIPESIZE → Byte) : Waiting (pipealloc data) := by
  constructor
  · rw [pipealloc_count]
    exact Nat.zero_le _
  · exact nofun

/-- What readers return is what writers stored, in order, at most `PIPESIZE` bytes
late; a writer that sleeps is right to.  A reader that sleeps is right to if no
writer that gives up has left it asleep. -/
theorem pipe_is_fifo {data : Fin PIPESIZE → Byte} {actions : List Action}
    (ran : exec step (pipealloc data) actions = some s) :
    (emitted step returns (pipealloc data) actions).flatten <+:
        (emitted step stores (pipealloc data) actions).flatten ∧
      (s.pipe.nwrite - s.pipe.nread).toNat ≤ PIPESIZE ∧
      (∀ p rest, s.ops p = .sleepsWrite rest →
        s.pipe.nwrite = s.pipe.nread + BitVec.ofNat 32 PIPESIZE ∧ s.pipe.readopen = true) ∧
      (Along step Heard (pipealloc data) actions → ∀ p n, s.ops p = .sleepsRead n →
        s.pipe.nread = s.pipe.nwrite ∧ s.pipe.writeopen = true) := by
  have waiting : Waiting s :=
    exec_invariant_all Waiting (pipealloc_waiting data) (fun _ _ _ good taken => good.step taken) ran
  have fifo := emitted_fifo Waiting (pipealloc_waiting data) along_true
    (fun _ _ _ good _ taken => ⟨good.step taken, step_fifo good taken⟩) ran
  refine ⟨⟨s.pipe.contents, ?_⟩, waiting.room, ?_, ?_⟩
  · have empty : (pipealloc data).pipe.contents = [] := List.eq_nil_of_length_eq_zero (by simp [pipealloc_count])
    rw [empty, List.nil_append] at fifo
    exact fifo.symm
  · intro p rest asleep
    obtain ⟨full, isOpen⟩ := waiting.writer p rest asleep
    exact ⟨(FreeRing.full_iff fits).mpr full, isOpen⟩
  · intro heard p n asleep
    have readers : Waiting s ∧ ReaderWaits s := by
      refine exec_invariant (fun s => Waiting s ∧ ReaderWaits s) ⟨pipealloc_waiting data, ?_⟩ heard ?_ ran
      · exact nofun
      · intro before action after good heard taken
        exact ⟨good.1.step taken, good.2.step good.1 heard taken⟩
    obtain ⟨empty, isOpen⟩ := readers.2 p n asleep
    exact ⟨FreeRing.empty_iff.mpr empty, isOpen⟩

theorem pipe_is_fifo_reader_sleeps : ∃ s, exec step (pipealloc fun _ => 0) [.callRead 0 1, .run 0] = some s ∧
    s.ops 0 = .sleepsRead 1 ∧ s.pipe.nread = s.pipe.nwrite ∧ s.pipe.writeopen = true := by
  have reached : (exec step (pipealloc fun _ => 0) [.callRead 0 1, .run 0]).map (fun s => s.ops 0) =
      some (.sleepsRead 1) := by decide +kernel
  obtain ⟨s, ran, asleep⟩ := Option.map_eq_some_iff.mp reached
  have heard : Along step Heard (pipealloc fun _ => 0) [.callRead 0 1, .run 0] := by
    refine ⟨trivial, fun next taken => ⟨fun bytes inside => ?_, fun _ _ => trivial⟩⟩
    cases taken
    simp [State.setOp] at inside
  exact ⟨s, ran, asleep, (pipe_is_fifo ran).2.2.2 heard 0 1 asleep⟩

def killedWriter : List Action :=
  [.callRead 0 1, .run 0, .callWrite 1 (List.replicate (PIPESIZE + 1) 7), .kill 1, .run 1]

/-- The writer fills the pipe and returns without waking the reader. -/
theorem killed_writer_leaves_reader_asleep : ∃ s, exec step (pipealloc fun _ => 0) killedWriter = some s ∧
    s.ops 0 = .sleepsRead 1 ∧ s.ops 1 = .outside ∧ s.pipe.nread ≠ s.pipe.nwrite := by
  have reached : (exec step (pipealloc fun _ => 0) killedWriter).map
      (fun s => (s.ops 0, s.ops 1, s.pipe.nread, s.pipe.nwrite)) = some (.sleepsRead 1, .outside, 0, 512) := by
    decide +kernel
  obtain ⟨s, ran, seen⟩ := Option.map_eq_some_iff.mp reached
  simp only [Prod.mk.injEq] at seen
  obtain ⟨reader, writer, nread, nwrite⟩ := seen
  exact ⟨s, ran, reader, writer, by rw [nread, nwrite]; decide⟩

def OneSideSleeps (s : State) : Prop := ∀ p q n rest, s.ops p = .sleepsRead n → s.ops q ≠ .sleepsWrite rest

theorem OneSideSleeps.step {a : Action} (apart : OneSideSleeps s) (waiting : Waiting s)
    (taken : step s a = some t) : OneSideSleeps t := by
  intro r w n rest reads writes
  cases step_effect taken with
  | callsWrite | callsRead =>
    exact apart r w n rest (setOp_asleep (by simp) reads) (setOp_asleep (by simp) writes)
  | writes =>
    unfold pipewrite at reads writes
    dsimp only at reads writes
    split at reads
    · rename_i short
      simp only [short, if_true] at writes
      split at reads
      · rename_i givesUp
        simp only [givesUp, if_true] at writes
        exact apart r w n rest (setOp_asleep (by simp) reads) (setOp_asleep (by simp) writes)
      · exact wakeup_reader (setOp_asleep (by simp) reads)
    · exact wakeup_reader (setOp_asleep (by simp) reads)
  | reads =>
    unfold piperead at reads writes
    split at writes
    · rename_i empty
      -- a writer that sleeps has left the pipe full
      have asleep : s.ops w = .sleepsWrite rest := by
        split at writes <;> exact setOp_asleep (by simp) writes
      have full := (waiting.writer w rest asleep).1
      rw [FreeRing.empty_iff.mp empty.1] at full
      cases full
    · exact wakeup_writer (setOp_asleep (by simp) writes)
  | @closes writable =>
    cases writable with
    | true => exact wakeup_reader reads
    | false => exact wakeup_writer writes
  | kills => exact apart r w n rest (kill_asleep (.inl ⟨n, rfl⟩) reads) (kill_asleep (.inr ⟨rest, rfl⟩) writes)

/-- Readers and writers never wait for each other, not even after a wakeup was lost. -/
theorem pipe_never_deadlocks {data : Fin PIPESIZE → Byte} {actions : List Action} {q : Nat} {n : Int}
    (ran : exec step (pipealloc data) actions = some s) (reads : s.ops p = .sleepsRead n) (rest : List Byte) :
    s.ops q ≠ .sleepsWrite rest := by
  have both : Waiting s ∧ OneSideSleeps s := by
    refine exec_invariant_all (fun s => Waiting s ∧ OneSideSleeps s) ⟨pipealloc_waiting data, ?_⟩ ?_ ran
    · exact nofun
    · exact fun _ _ _ good taken => ⟨good.1.step taken, good.2.step good.1 taken⟩
  exact both.2 p q n rest reads

theorem pipe_never_deadlocks_killed_writer : ∃ s, exec step (pipealloc fun _ => 0) killedWriter = some s ∧
    s.ops 0 = .sleepsRead 1 ∧ ∀ q rest, s.ops q ≠ .sleepsWrite rest := by
  have reached : (exec step (pipealloc fun _ => 0) killedWriter).map (fun s => s.ops 0) = some (.sleepsRead 1) := by
    decide +kernel
  obtain ⟨s, ran, reads⟩ := Option.map_eq_some_iff.mp reached
  exact ⟨s, ran, reads, fun q rest => pipe_never_deadlocks ran reads rest⟩

/-- A process that is not killed reads no bytes only when the writing end is closed and
everything that was written has been read. -/
theorem end_of_file_after_everything {data : Fin PIPESIZE → Byte} {actions : List Action} {n : Int}
    (ran : exec step (pipealloc data) actions = some s) (inside : s.ops p = .reading n) (wants : 0 < n)
    (alive : s.killed p = false) (taken : step s (.run p) = some t) (returned : t.ops p = .outside)
    (nothing : returns s (.run p) = []) :
    s.pipe.writeopen = false ∧ (emitted step returns (pipealloc data) actions).flatten =
      (emitted step stores (pipealloc data) actions).flatten := by
  have fifo := emitted_fifo Waiting (pipealloc_waiting data) along_true
    (fun _ _ _ good _ taken => ⟨good.step taken, step_fifo good taken⟩) ran
  have start : (pipealloc data).pipe.contents = [] := List.eq_nil_of_length_eq_zero (by simp [pipealloc_count])
  simp only [returns, inside] at nothing
  by_cases waits : s.pipe.nread = s.pipe.nwrite ∧ s.pipe.writeopen = true
  · cases step_effect taken with
    | writes other => cases inside.symm.trans other
    | reads other =>
      rw [piperead, if_pos waits, alive] at returned
      simp [State.setOp] at returned
  · obtain ⟨m, more⟩ := Nat.exists_eq_succ_of_ne_zero (by omega : n.toNat ≠ 0)
    have empty : s.pipe.nread = s.pipe.nwrite := by
      by_contra filled
      simp [more, fetch, filled] at nothing
    have drained : s.pipe.contents = [] := List.eq_nil_of_length_eq_zero (by simp [FreeRing.empty_iff.mp empty])
    rw [start, drained, List.nil_append, List.append_nil] at fifo
    exact ⟨by simpa [empty] using waits, fifo.symm⟩

theorem end_of_file_after_everything_closed : ∃ s, exec step (pipealloc fun _ => 0)
      [.callWrite 1 [7], .run 1, .callRead 0 1, .run 0, .close true, .callRead 0 1] = some s ∧
    s.pipe.writeopen = false := by
  have reached : (exec step (pipealloc fun _ => 0)
      [.callWrite 1 [7], .run 1, .callRead 0 1, .run 0, .close true, .callRead 0 1]).map
      (fun s => (s.ops 0, s.killed 0, (step s (.run 0)).map fun t => t.ops 0, returns s (.run 0))) =
      some (.reading 1, false, some .outside, []) := by decide +kernel
  obtain ⟨s, ran, seen⟩ := Option.map_eq_some_iff.mp reached
  simp only [Prod.mk.injEq] at seen
  obtain ⟨inside, alive, next, nothing⟩ := seen
  obtain ⟨t, taken, returned⟩ := Option.map_eq_some_iff.mp next
  exact ⟨s, ran, (end_of_file_after_everything ran inside (by decide) alive taken returned nothing).1⟩

end Xv6.Pipes
