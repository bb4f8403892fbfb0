import Xv6.Ide.Driver

namespace Xv6.Ide

open Xv6.Data Xv6.Disk Xv6.Cache

/-! # The queue of requests

Whoever sleeps in `iderw` has its buffer on the queue, and the device has been
given the request at the head.
-/

variable {n : Nat} {s t : State n} {p : Fin n} {b : Slot} {entries : List Slot}

def Done (buf : Buf n) : Prop := buf.valid = true ∧ buf.dirty = false

structure Requested (buf : Buf n) : Prop where
  pending : ¬ Done buf
  range : buf.blockno.toNat < FSSIZE

def Placed (buf : Slot → Buf n) (entries : List Slot) (p : Fin n) : Op → Prop
  | .outside => True
  | .calling b => (buf b).owner = some p ∧ b ∉ entries ∧ Requested (buf b)
  | .sleeping b => (buf b).owner = some p ∧ b ∈ entries ∧ Requested (buf b)
  | .woken b => (buf b).owner = some p ∧ b ∉ entries ∧ Done (buf b)

/-- The device has nothing to do, or the request at the head of the queue. -/
def Serves (s : State n) : List Slot → Prop
  | [] => s.device = .idle
  | b :: _ =>
    s.device = .working (registersFor (s.buf b)) (s.buf b).data ∨
      ∃ data, s.device = .finished (registersFor (s.buf b)) data

structure Sound (s : State n) (entries : List Slot) : Prop where
  holds : s.queue.Holds entries
  placed : ∀ p, Placed s.buf entries p (s.ops p)
  listed : ∀ b ∈ entries, ∃ p, s.ops p = .sleeping b
  serves : Serves s entries

theorem Placed.owner {buf : Slot → Buf n} {op : Op} (placed : Placed buf entries p op) (inside : op.buffer = some b) :
    (buf b).owner = some p := by
  cases op with
  | outside => cases inside
  | calling c | sleeping c | woken c => cases inside; exact placed.1

theorem Placed.congr {buf buf' : Slot → Buf n} {entries' : List Slot} {op : Op} (placed : Placed buf entries p op)
    (same : ∀ b, op.buffer = some b → buf' b = buf b ∧ (b ∈ entries' ↔ b ∈ entries)) : Placed buf' entries' p op := by
  cases op with
  | outside => trivial
  | calling b | sleeping b | woken b => simpa only [Placed, same b rfl] using placed

section

variable (sound : Sound s entries)
include sound

/-- Two processes are never inside `iderw` with one buffer. -/
theorem Sound.alone {q : Fin n} (one : (s.ops p).buffer = some b)
    (other : (s.ops q).buffer = some b) : q = p :=
  Option.some.inj (((sound.placed q).owner other).symm.trans ((sound.placed p).owner one))

theorem Sound.requested (member : b ∈ entries) : Requested (s.buf b) := by
  obtain ⟨p, sleeps⟩ := sound.listed b member
  have placed := sound.placed p
  rw [sleeps] at placed
  exact placed.2.2

theorem Sound.length_le : entries.length ≤ NBUF :=
  sound.holds.length_le.trans_eq (Fintype.card_fin NBUF)

theorem Sound.requests : s.requests = entries := sound.holds.follow sound.length_le

theorem Sound.head : s.queue.head = entries.head? := by
  cases entries with
  | nil => exact sound.holds
  | cons b rest => exact sound.holds.1

end

theorem ops_setOp (s : State n) (p q : Fin n) (op : Op) :
    (s.setOp p op).ops q = if q = p then op else s.ops q := by
  simp only [State.setOp, Function.update_apply]

theorem Sound.use {buf : Buf n} (sound : Sound s entries) (unused : s.unused b) :
    Sound { s with buf := Function.update s.buf b buf } entries := by
  have others (q : Fin n) (c : Slot) (inside : (s.ops q).buffer = some c) :
      Function.update s.buf b buf c = s.buf c := by
    apply Function.update_of_ne
    intro same
    exact unused q (same ▸ inside)
  refine ⟨sound.holds, ?_, sound.listed, ?_⟩
  · intro q
    exact (sound.placed q).congr fun c inside => ⟨others q c inside, Iff.rfl⟩
  · have serves := sound.serves
    cases entries with
    | nil => exact serves
    | cons c rest =>
      obtain ⟨q, sleeps⟩ := sound.listed c List.mem_cons_self
      simp only [Serves, others q c (by rw [sleeps]; rfl)]
      exact serves

theorem Sound.setOp {op : Op} (sound : Sound s entries) (awake : ∀ b, s.ops p ≠ .sleeping b)
    (placed : Placed s.buf entries p op) : Sound (s.setOp p op) entries := by
  refine ⟨sound.holds, ?_, ?_, sound.serves⟩
  · intro q
    rw [ops_setOp]
    split
    · next same => exact same ▸ placed
    · exact sound.placed q
  · intro c member
    obtain ⟨q, sleeps⟩ := sound.listed c member
    refine ⟨q, ?_⟩
    rw [ops_setOp, if_neg, sleeps]
    rintro rfl
    exact awake c sleeps

theorem iderwBegin_next (legal : Legal s (.call p b)) : iderwBegin s p b = .next (s.setOp p (.calling b)) := by
  obtain ⟨owner, pending, _, drive⟩ := legal
  have present : ¬ ((s.buf b).dev ≠ 0 ∧ ¬ s.havedisk1 = true) := by
    rintro ⟨second, absent⟩
    exact drive.elim second absent
  simp only [iderwBegin, owner, ne_eq, not_true_eq_false, if_false, Bool.not_eq_true, pending]
  rw [if_neg]
  simpa using present

theorem Sound.call (sound : Sound s entries) (outside : s.ops p = .outside) (legal : Legal s (.call p b)) :
    Sound (s.setOp p (.calling b)) entries := by
  obtain ⟨owner, pending, range, _⟩ := legal
  have fresh : b ∉ entries := by
    intro member
    obtain ⟨q, sleeps⟩ := sound.listed b member
    have holder := (sound.placed q).owner (by rw [sleeps]; rfl)
    obtain rfl := Option.some.inj (holder.symm.trans owner)
    rw [outside] at sleeps
    cases sleeps
  exact sound.setOp (by simp [outside]) ⟨owner, fresh, pending, range⟩

theorem await_next (sound : Sound s entries) (woken : s.ops p = .woken b) :
    await s p b = .next (s.setOp p .outside) := by
  have placed := sound.placed p
  rw [woken] at placed
  obtain ⟨_, _, valid, clean⟩ := placed
  simp [await, valid, clean]

theorem Sound.leave (sound : Sound s entries) (woken : s.ops p = .woken b) : Sound (s.setOp p .outside) entries :=
  sound.setOp (by simp [woken]) trivial

/-- What `iderw` does with `idelock` held: the request goes to the end of the queue,
to the device if it is the only one, and the caller sleeps. -/
def queued (s : State n) (p : Fin n) (b : Slot) (entries : List Slot) (queue : LinkedQueue Slot) : State n :=
  { s with
    queue
    device := if entries = [] then .working (registersFor (s.buf b)) (s.buf b).data else s.device }.setOp p (.sleeping b)

theorem ops_queued {queue : LinkedQueue Slot} (q : Fin n) :
    (queued s p b entries queue).ops q = if q = p then .sleeping b else s.ops q := by
  rw [queued, ops_setOp]

theorem iderw_next (sound : Sound s entries) (calling : s.ops p = .calling b) :
    ∃ queue, queue.Holds (entries ++ [b]) ∧ iderw s p b = .next (queued s p b entries queue) := by
  have placed := sound.placed p
  rw [calling] at placed
  obtain ⟨_, fresh, requested⟩ := placed
  obtain ⟨queue, appended, holds⟩ := sound.holds.append fresh (Nat.lt_succ_of_le sound.length_le)
  refine ⟨queue, holds, ?_⟩
  have waits (u : State n) (same : u.buf b = s.buf b) : await u p b = .next (u.setOp p (.sleeping b)) := by
    simp only [await, same]
    rw [if_neg]
    simpa [Done] using requested.pending
  simp only [iderw, appended, queued]
  cases entries with
  | nil =>
    have first : queue.head = some b := holds.1
    have inside : ¬ FSSIZE ≤ (s.buf b).blockno.toNat := Nat.not_le.mpr requested.range
    simp only [first, if_true, idestart, inside, if_false]
    exact waits _ rfl
  | cons c rest =>
    have other : queue.head ≠ some b := by
      rw [show queue.head = some c from holds.1]
      intro same
      cases same
      exact fresh List.mem_cons_self
    simp only [if_neg other, List.cons_ne_nil, if_false]
    exact waits _ rfl

theorem Sound.iderw {queue : LinkedQueue Slot} (sound : Sound s entries) (calling : s.ops p = .calling b)
    (holds : queue.Holds (entries ++ [b])) : Sound (queued s p b entries queue) (entries ++ [b]) := by
  have placed := sound.placed p
  rw [calling] at placed
  obtain ⟨owner, fresh, requested⟩ := placed
  refine ⟨holds, ?_, ?_, ?_⟩
  · intro q
    rw [ops_queued]
    split
    · rename_i same
      rw [same]
      exact ⟨owner, by simp, requested⟩
    · rename_i different
      apply (sound.placed q).congr
      intro c inside
      refine ⟨rfl, ?_⟩
      rw [List.mem_append, List.mem_singleton, or_iff_left]
      rintro rfl
      exact different (sound.alone (by rw [calling]; rfl) inside)
  · intro c member
    rw [List.mem_append, List.mem_singleton] at member
    rcases member with member | rfl
    · obtain ⟨q, sleeps⟩ := sound.listed c member
      refine ⟨q, ?_⟩
      rw [ops_queued, if_neg]
      · exact sleeps
      · rintro rfl
        rw [calling] at sleeps
        cases sleeps
    · exact ⟨p, by rw [ops_queued, if_pos rfl]⟩
  · cases entries with
    | nil => exact .inl rfl
    | cons c rest => exact sound.serves

theorem Sound.finish {registers : Registers} {data : Block} (sound : Sound s entries)
    (working : s.device = .working registers data) : Sound (finish s registers data) entries := by
  have serves : Serves (Ide.finish s registers data) entries := by
    have before := sound.serves
    cases entries with
    | nil => cases working.symm.trans before
    | cons b rest =>
      rcases before with same | ⟨other, done⟩
      · cases working.symm.trans same
        simp only [Ide.finish]
        split <;> exact .inr ⟨_, rfl⟩
      · cases working.symm.trans done
  have same : (Ide.finish s registers data).queue = s.queue ∧ (Ide.finish s registers data).buf = s.buf ∧
      (Ide.finish s registers data).ops = s.ops := by
    simp only [Ide.finish]
    split <;> exact ⟨rfl, rfl, rfl⟩
  obtain ⟨queue, buf, ops⟩ := same
  refine ⟨?_, ?_, ?_, serves⟩
  · rw [queue]
    exact sound.holds
  · rw [buf, ops]
    exact sound.placed
  · rw [ops]
    exact sound.listed

/-- What `ideintr` does: the request at the head is done and its process woken, and
the device gets the next one. -/
def served (s : State n) (b : Slot) (rest : List Slot) (data : Block) : State n :=
  { wakeup (s.setBuf b (completed data)) b with
    queue := { s.queue with head := s.queue.next b }
    device :=
      match rest with
      | [] => .idle
      | c :: _ => .working (registersFor (s.buf c)) (s.buf c).data }

theorem ideintr_next {rest : List Slot} {data : Block} (sound : Sound s (b :: rest)) :
    ideintr { s with device := .idle } data = .next (served s b rest data) := by
  have first : s.queue.head = some b := sound.holds.1
  have fresh : b ∉ rest := (List.nodup_cons.mp sound.holds.nodup).1
  simp only [ideintr, first]
  cases rest with
  | nil =>
    have last : s.queue.next b = none := sound.holds.2
    simp only [wakeup, State.setBuf, last, ne_eq, not_true_eq_false, if_false, served]
    rfl
  | cons c others =>
    have next : s.queue.next b = some c := sound.holds.2.1
    have different : c ≠ b := fun same => fresh (same ▸ List.mem_cons_self)
    have range := (sound.requested (List.mem_cons_of_mem b List.mem_cons_self) : Requested (s.buf c)).range
    have inside : ¬ FSSIZE ≤ (s.buf c).blockno.toNat := Nat.not_le.mpr range
    simp only [wakeup, State.setBuf, next, ne_eq, reduceCtorEq, not_false_eq_true, if_true, idestart,
      Function.update_of_ne different, inside, if_false, served]
    rfl

theorem Sound.intr {rest : List Slot} {data : Block} (sound : Sound s (b :: rest)) :
    Sound (served s b rest data) rest := by
  obtain ⟨fresh, distinct⟩ := List.nodup_cons.mp sound.holds.nodup
  have buffers (c : Slot) (different : c ≠ b) : (served s b rest data).buf c = s.buf c :=
    Function.update_of_ne different ..
  refine ⟨sound.holds.pop, ?_, ?_, ?_⟩
  · intro q
    have placed := sound.placed q
    simp only [served, wakeup]
    split
    · rename_i sleeps
      rw [show s.ops q = .sleeping b from sleeps] at placed
      refine ⟨?_, fresh, ?_⟩
      · simpa [State.setBuf, completed] using placed.1
      · simp [State.setBuf, completed, Done]
    · rename_i other
      apply placed.congr
      intro c inside
      have different : c ≠ b := by
        rintro rfl
        obtain ⟨p, sleeps⟩ := sound.listed c List.mem_cons_self
        have asleep : (s.ops p).buffer = some c := by rw [sleeps]; rfl
        obtain rfl := sound.alone asleep inside
        exact other sleeps
      refine ⟨buffers c different, ?_⟩
      rw [List.mem_cons, or_iff_right different]
  · intro c member
    obtain ⟨q, sleeps⟩ := sound.listed c (List.mem_cons_of_mem b member)
    refine ⟨q, ?_⟩
    have different : c ≠ b := fun same => fresh (same ▸ member)
    have other : s.ops q ≠ .sleeping b := by
      rw [sleeps]
      intro same
      cases same
      exact different rfl
    simp only [served, wakeup]
    rw [if_neg, ← sleeps]
    · rfl
    · exact other
  · cases rest with
    | nil => rfl
    | cons c others =>
      have different : c ≠ b := fun same => fresh (same ▸ List.mem_cons_self)
      refine .inl ?_
      rw [buffers c different]
      rfl

inductive Effect (s : State n) (entries : List Slot) : Action n → List Slot → State n → Prop where
  | uses {b : Slot} {buf : Buf n} (unused : s.unused b) :
      Effect s entries (.use b buf) entries { s with buf := Function.update s.buf b buf }
  | calls {p : Fin n} {b : Slot} (outside : s.ops p = .outside) :
      Effect s entries (.call p b) entries (s.setOp p (.calling b))
  | queues {p : Fin n} {b : Slot} {queue : LinkedQueue Slot} (calling : s.ops p = .calling b)
      (holds : queue.Holds (entries ++ [b])) :
      Effect s entries (.run p) (entries ++ [b]) (queued s p b entries queue)
  | leaves {p : Fin n} {b : Slot} (woken : s.ops p = .woken b) :
      Effect s entries (.run p) entries (s.setOp p .outside)
  | finishes {registers : Registers} {data : Block} (working : s.device = .working registers data) :
      Effect s entries .finish entries (finish s registers data)
  | serves {b : Slot} {rest : List Slot} {registers : Registers} {data : Block} (is : entries = b :: rest)
      (finished : s.device = .finished registers data) :
      Effect s entries .intr rest (served s b rest data)

theorem Sound.act {a : Action n} (sound : Sound s entries) (legal : Legal s a) :
    act s a = .disabled ∨ ∃ after t, act s a = .next t ∧ Effect s entries a after t := by
  cases a with
  | use b buf =>
    simp only [Ide.act]
    split
    · next unused => exact .inr ⟨_, _, rfl, .uses unused⟩
    · exact .inl rfl
  | call p b =>
    simp only [Ide.act]
    split
    · next outside => exact .inr ⟨_, _, iderwBegin_next legal, .calls outside⟩
    · exact .inl rfl
  | run p =>
    simp only [Ide.act]
    split
    · rename_i b calling
      obtain ⟨queue, holds, next⟩ := iderw_next sound calling
      exact .inr ⟨_, _, next, .queues calling holds⟩
    · next b woken => exact .inr ⟨_, _, await_next sound woken, .leaves woken⟩
    · exact .inl rfl
  | finish =>
    simp only [Ide.act]
    split
    · next registers data working => exact .inr ⟨_, _, rfl, .finishes working⟩
    · exact .inl rfl
  | intr =>
    simp only [Ide.act]
    split
    · rename_i registers data finished
      have serves := sound.serves
      cases entries with
      | nil => cases finished.symm.trans serves
      | cons b rest => exact .inr ⟨_, _, ideintr_next sound, .serves rfl finished⟩
    · exact .inl rfl

theorem Sound.step {a : Action n} (sound : Sound s entries) (legal : Legal s a) (taken : step s a = some t) :
    ∃ after, Effect s entries a after t ∧ Sound t after := by
  have effect : ∃ after, Effect s entries a after t := by
    simp only [Ide.step] at taken
    rcases sound.act legal with stuck | ⟨after, next, ran, effect⟩
    · rw [stuck] at taken
      cases taken
    · rw [ran] at taken
      cases taken
      exact ⟨after, effect⟩
  obtain ⟨after, effect⟩ := effect
  refine ⟨after, effect, ?_⟩
  cases effect with
  | uses unused => exact sound.use unused
  | calls outside => exact sound.call outside legal
  | queues calling holds => exact sound.iderw calling holds
  | leaves woken => exact sound.leave woken
  | finishes working => exact sound.finish working
  | serves is finished =>
    subst is
    exact sound.intr

def Good (s : State n) : Prop := Sound s s.requests

theorem Sound.good (sound : Sound s entries) : Good s := by
  unfold Good
  rw [sound.requests]
  exact sound

theorem Good.step {a : Action n} (good : Good s) (legal : Legal s a) (taken : step s a = some t) :
    Effect s s.requests a t.requests t ∧ Good t := by
  obtain ⟨after, effect, sound⟩ := Sound.step good legal taken
  rw [sound.requests]
  exact ⟨effect, sound.good⟩

theorem ideinit_good {buf : Slot → Buf n} {disk : Bool → BlockNo → Block} {qnext : Slot → Option Slot}
    {havedisk1 : Bool} : Good (ideinit buf disk qnext havedisk1) := by
  have sound : Sound (ideinit buf disk qnext havedisk1) [] := by
    refine ⟨rfl, ?_, ?_, rfl⟩
    · intro p
      trivial
    · exact nofun
  exact sound.good

end Xv6.Ide
