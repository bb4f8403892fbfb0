import Xv6.Ide.Queue

namespace Xv6.Ide

open Xv6.Data Xv6.Disk Xv6.Cache

/-! # The driver as a memory disk

Every request takes effect when the device finishes it, in the order of the queue. -/

variable {n : Nat} {s t : State n} {p : Fin n} {b : Slot} {entries after : List Slot} {a : Action n}

theorem writes_registersFor (buf : Buf n) : (registersFor buf).writes = buf.dirty := by
  cases dirty : buf.dirty <;> simp only [registersFor, dirty, Registers.writes] <;> decide

theorem and_one_cases (dev : BitVec 32) : dev &&& 1 = 0 ∨ dev &&& 1 = 1 := by
  have bit : (dev &&& 1).toNat = dev.toNat % 2 := by
    rw [BitVec.toNat_and]
    exact Nat.and_one_is_mod _
  have cases := Nat.mod_two_eq_zero_or_one dev.toNat
  rw [← bit] at cases
  exact cases.imp (fun zero => BitVec.eq_of_toNat_eq zero) (fun one => BitVec.eq_of_toNat_eq one)

theorem sector_eq (blockno : BlockNo) : blockno * BitVec.ofNat 32 (BSIZE / SECTOR_SIZE) = blockno := by simp

theorem device_registersFor {buf : Buf n} (range : buf.blockno.toNat < FSSIZE) :
    (registersFor buf).device = (0xe0 ||| ((buf.dev &&& 1) <<< 4) : BitVec 32).setWidth 8 := by
  have top : buf.blockno >>> 24 &&& 0x0f = 0 := by
    have bound : buf.blockno.toNat < 1000 := range
    have none : buf.blockno >>> 24 = 0#32 := by
      apply BitVec.eq_of_toNat_eq
      rw [BitVec.toNat_ushiftRight, Nat.shiftRight_eq_div_pow, BitVec.toNat_ofNat]
      omega
    rw [none]
    rfl
  simp only [registersFor, sector_eq, top]
  congr 1
  exact BitVec.or_zero

theorem sector_registersFor {buf : Buf n} (range : buf.blockno.toNat < FSSIZE) :
    (registersFor buf).sector = buf.blockno.toNat := by
  have bound : buf.blockno.toNat < 1000 := range
  have high : (registersFor buf).device.toNat % 16 = 0 := by
    rw [device_registersFor range]
    rcases and_one_cases buf.dev with bit | bit <;> rw [bit] <;> decide
  have mask (x : BitVec 32) : ((x &&& 0xff).setWidth 8).toNat = x.toNat % 256 := by
    rw [BitVec.toNat_setWidth, BitVec.toNat_and, show (0xff : BitVec 32).toNat = 2 ^ 8 - 1 from rfl,
      Nat.and_two_pow_sub_one_eq_mod, Nat.mod_mod]
  simp only [Registers.sector, high]
  simp only [registersFor, sector_eq, mask, BitVec.toNat_ushiftRight, Nat.shiftRight_eq_div_pow]
  omega

theorem drive_registersFor {buf : Buf n} (range : buf.blockno.toNat < FSSIZE) (onDisk1 : buf.dev = ROOTDEV) :
    (registersFor buf).drive = true := by
  rw [Registers.drive, device_registersFor range, onDisk1]
  decide

inductive Event (n : Nat) where
  | nothing
  | use (b : Slot) (buf : Buf n)
  | iderw (p : Fin n) (b : Slot)

def event (s : State n) : Action n → Event n
  | .use b buf => .use b buf
  | .finish =>
    match s.queue.head with
    | some b =>
      match (s.buf b).owner with
      | some p => .iderw p b
      | none => .nothing
    | none => .nothing
  | _ => .nothing

def Event.request : Event n → List Slot
  | .iderw _ b => [b]
  | _ => []

/-- What the device has not finished of the requests. -/
def Device.unfinished : Device → List Slot → List Slot
  | .finished _ _, requests => requests.tail
  | _, requests => requests

theorem Sound.event_finish {registers : Registers} {data : Block} (sound : Sound s entries)
    (working : s.device = .working registers data) :
    ∃ b rest p, entries = b :: rest ∧ (s.buf b).owner = some p ∧ event s .finish = .iderw p b ∧
      registers = registersFor (s.buf b) ∧ data = (s.buf b).data := by
  have serves := sound.serves
  cases entries with
  | nil => cases working.symm.trans serves
  | cons b rest =>
    obtain ⟨p, sleeps⟩ := sound.listed b List.mem_cons_self
    have owner := (sound.placed p).owner (by rw [sleeps]; rfl)
    refine ⟨b, rest, p, rfl, owner, ?_, ?_⟩
    · simp only [event, show s.queue.head = some b from sound.holds.1, owner]
    · rcases serves with same | ⟨other, done⟩
      · cases working.symm.trans same
        exact ⟨rfl, rfl⟩
      · cases working.symm.trans done

theorem Effect.fifo (sound : Sound s entries) (effect : Effect s entries a after t) :
    entries ++ appends s a = completes s a ++ after := by
  cases effect with
  | uses unused | calls outside | finishes working => exact List.append_nil _
  | queues calling holds => simp [appends, completes, calling]
  | leaves woken => simp [appends, completes, woken]
  | serves is finished =>
    subst is
    simp [appends, completes, sound.head]

theorem finish_device (s : State n) (registers : Registers) (data : Block) :
    ∃ read, (finish s registers data).device = .finished registers read := by
  simp only [finish]
  split <;> exact ⟨_, rfl⟩

theorem Effect.unfinished_fifo (sound : Sound s entries) (effect : Effect s entries a after t) :
    s.device.unfinished entries ++ appends s a = (event s a).request ++ t.device.unfinished after := by
  cases effect with
  | uses unused | calls outside => exact List.append_nil _
  | queues calling holds =>
    have serves := sound.serves
    simp only [appends, calling, event, Event.request, List.nil_append, queued, State.setOp]
    cases entries with
    | nil =>
      rw [show s.device = .idle from serves]
      rfl
    | cons c rest =>
      simp only [List.cons_ne_nil, if_false]
      cases s.device <;> rfl
  | leaves woken =>
    simp only [appends, woken, event, Event.request, List.append_nil, List.nil_append]
    rfl
  | finishes working =>
    obtain ⟨b, rest, p, rfl, _, serves, _⟩ := sound.event_finish working
    obtain ⟨read, finished⟩ := finish_device s _ _
    rw [serves, finished, working]
    exact List.append_nil _
  | @serves b rest registers data is finished =>
    subst is
    have restarted : (served s b after data).device.unfinished after = after := by cases after <;> rfl
    rw [finished, restarted]
    exact List.append_nil _

/-- A buffer as it will be when the interrupt for what the device has finished is
handled. -/
def State.settled (s : State n) (b : Slot) : Buf n :=
  match s.device with
  | .finished _ data => if s.queue.head = some b then completed data (s.buf b) else s.buf b
  | _ => s.buf b

def memide (g : Geometry) : Option (Cache.State n) → Event n → Option (Cache.State n)
  | none, _ => none
  | some m, .nothing => some m
  | some m, .use b buf => some (m.setBuf b fun _ => buf)
  | some m, .iderw p b =>
    match Cache.iderw g m p b with
    | .next m => some m
    | _ => none

structure Shows (s : State n) (m : Cache.State n) : Prop where
  disk : m.disk = s.disk true
  buf : ∀ b, m.buf b = s.settled b

def OnDisk1 (s : State n) : Action n → Prop
  | .call _ b => (s.buf b).dev = ROOTDEV
  | _ => True

instance (s : State n) : (a : Action n) → Decidable (OnDisk1 s a)
  | .call _ b => inferInstanceAs (Decidable ((s.buf b).dev = ROOTDEV))
  | .use _ _ | .run _ | .finish | .intr => isTrue trivial

def AllOnDisk1 (s : State n) : Prop := ∀ p b, (s.ops p).buffer = some b → (s.buf b).dev = ROOTDEV

theorem settled_of_notMem (sound : Sound s entries) (absent : b ∉ entries) : s.settled b = s.buf b := by
  have other : s.queue.head ≠ some b := by
    rw [sound.head]
    intro first
    exact absent (List.mem_of_head? first)
  unfold State.settled
  split
  · rw [if_neg other]
  · rfl

theorem Shows.finish {g : Geometry} {m : Cache.State n} {registers : Registers} {data : Block}
    (size : g.disksize = FSSIZE) (sound : Sound s entries) (onDisk1 : AllOnDisk1 s) (shows : Shows s m)
    (working : s.device = .working registers data) :
    ∃ m', memide g (some m) (event s .finish) = some m' ∧ Shows (finish s registers data) m' := by
  obtain ⟨b, rest, p, rfl, owner, serves, rfl, rfl⟩ := sound.event_finish working
  have requested := sound.requested List.mem_cons_self
  have range : ¬ g.disksize ≤ (s.buf b).blockno.toNat := by
    rw [size]
    exact Nat.not_le.mpr requested.range
  have dev : (s.buf b).dev = ROOTDEV := by
    obtain ⟨q, sleeps⟩ := sound.listed b List.mem_cons_self
    exact onDisk1 q b (by rw [sleeps]; rfl)
  have buffers (c : Slot) : m.buf c = s.buf c := by
    rw [shows.buf c]
    simp only [State.settled, working]
  have first : s.queue.head = some b := sound.holds.1
  have pending : ¬ ((s.buf b).valid = true ∧ ¬ (s.buf b).dirty = true) := by
    simpa [Done] using requested.pending
  have sector : BitVec.ofNat 32 (s.buf b).blockno.toNat = (s.buf b).blockno := by simp
  rw [serves]
  simp only [memide, Cache.iderw, buffers b, owner, ne_eq, not_true_eq_false, if_false, pending, dev, range]
  cases dirty : (s.buf b).dirty with
  | true =>
    refine ⟨_, rfl, ?_, ?_⟩
    · simp [Ide.finish, writes_registersFor, dirty, drive_registersFor requested.range dev,
        sector_registersFor requested.range, shows.disk]
    · intro c
      simp only [Ide.finish, writes_registersFor, dirty, if_true, State.settled, first, Cache.State.setBuf]
      by_cases same : c = b
      · subst same
        simp [completed, dirty, buffers]
      · simp [same, Ne.symm same, buffers]
  | false =>
    refine ⟨_, rfl, ?_, ?_⟩
    · simp [Ide.finish, writes_registersFor, dirty, shows.disk, Cache.State.setBuf]
    · intro c
      simp only [Ide.finish, writes_registersFor, dirty, State.settled, Cache.State.setBuf]
      by_cases same : c = b
      · subst same
        simp [completed, dirty, buffers, shows.disk, drive_registersFor requested.range dev,
          sector_registersFor requested.range, first]
      · simp [same, Ne.symm same, buffers, first]

theorem Shows.step {g : Geometry} {m : Cache.State n} (size : g.disksize = FSSIZE) (sound : Sound s entries)
    (onDisk1 : AllOnDisk1 s) (shows : Shows s m) (effect : Effect s entries a after t) :
    ∃ m', memide g (some m) (event s a) = some m' ∧ Shows t m' := by
  cases effect with
  | @uses b buf unused =>
    have absent : b ∉ entries := by
      intro member
      obtain ⟨q, sleeps⟩ := sound.listed b member
      exact unused q (by rw [sleeps]; rfl)
    refine ⟨_, rfl, shows.disk, ?_⟩
    intro c
    by_cases same : c = b
    · subst same
      rw [settled_of_notMem (sound.use unused) absent]
      simp [Cache.State.setBuf]
    · have kept := shows.buf c
      simp only [State.settled, Cache.State.setBuf, Function.update_of_ne same] at kept ⊢
      exact kept
  | calls outside | leaves woken => exact ⟨m, rfl, shows.disk, shows.buf⟩
  | queues calling holds =>
    refine ⟨m, rfl, shows.disk, ?_⟩
    intro c
    rw [shows.buf c]
    cases entries with
    | nil => simp only [State.settled, show s.device = .idle from sound.serves, queued, State.setOp, if_true]
    | cons d rest =>
      have first : s.queue.head = some d := sound.holds.1
      have still := show _ = some d from holds.1
      simp only [State.settled, queued, State.setOp, List.cons_ne_nil, if_false, first, still]
  | finishes working => exact shows.finish size sound onDisk1 working
  | @serves b rest registers data is finished =>
    subst is
    have first : s.queue.head = some b := sound.holds.1
    refine ⟨m, rfl, shows.disk, ?_⟩
    intro c
    have device : (served s b after data).settled c = (served s b after data).buf c := by
      cases after <;> rfl
    rw [device, shows.buf c]
    simp only [State.settled, finished, first, served, wakeup, State.setBuf]
    by_cases same : c = b
    · subst same
      simp
    · simp [same, Ne.symm same]

theorem AllOnDisk1.step (onDisk1 : AllOnDisk1 s) (call : OnDisk1 s a) (effect : Effect s entries a after t) :
    AllOnDisk1 t := by
  intro q c inside
  cases effect with
  | @uses b buf unused =>
    have other : c ≠ b := fun same => unused q (same ▸ inside)
    have same : Function.update s.buf b buf c = s.buf c := Function.update_of_ne other ..
    exact (congrArg Buf.dev same).trans (onDisk1 q c inside)
  | calls outside =>
    rw [ops_setOp] at inside
    split at inside
    · cases inside
      exact call
    · exact onDisk1 q c inside
  | @queues p b queue calling holds =>
    rw [ops_queued] at inside
    split at inside
    · cases inside
      exact onDisk1 p c (by rw [calling]; rfl)
    · exact onDisk1 q c inside
  | leaves woken =>
    rw [ops_setOp] at inside
    split at inside
    · cases inside
    · exact onDisk1 q c inside
  | finishes working =>
    simp only [finish] at inside ⊢
    split at inside
    · rename_i writes
      rw [if_pos writes]
      exact onDisk1 q c inside
    · rename_i reads
      rw [if_neg reads]
      exact onDisk1 q c inside
  | @serves b rest registers data is finished =>
    have before : (s.ops q).buffer = some c := by
      simp only [served, wakeup] at inside
      split at inside
      · rename_i sleeps
        cases inside
        rw [show s.ops q = .sleeping c from sleeps]
        rfl
      · exact inside
    have kept : ((served s b after data).buf c).dev = (s.buf c).dev := by
      simp only [served, wakeup, State.setBuf, Function.update_apply]
      split
      · rename_i same
        rw [same]
        rfl
      · rfl
    exact kept.trans (onDisk1 q c before)

def Simulates (s : State n) (value : Option (Cache.State n)) : Prop :=
  Good s ∧ AllOnDisk1 s ∧ ∃ m, value = some m ∧ Shows s m

section Runs

variable {g : Geometry} {m : Cache.State n} {disk : Bool → BlockNo → Block} {qnext : Slot → Option Slot}
  {havedisk1 : Bool} {actions : List (Action n)}

theorem run_good (legal : Along step Legal (ideinit m.buf disk qnext havedisk1) actions)
    (ran : exec step (ideinit m.buf disk qnext havedisk1) actions = some s) : Good s :=
  exec_invariant Good ideinit_good legal (fun _ _ _ good legal taken => (good.step legal taken).2) ran

theorem ideinit_requests : (ideinit m.buf disk qnext havedisk1).requests = [] := rfl

theorem run_fifo (legal : Along step Legal (ideinit m.buf disk qnext havedisk1) actions)
    (ran : exec step (ideinit m.buf disk qnext havedisk1) actions = some s) :
    (emitted step appends (ideinit m.buf disk qnext havedisk1) actions).flatten =
      (emitted step completes (ideinit m.buf disk qnext havedisk1) actions).flatten ++ s.requests := by
  have kept (before : State n) (action : Action n) (after : State n) (good : Good before) (legal : Legal before action)
      (taken : step before action = some after) :
      Good after ∧ before.requests ++ appends before action = completes before action ++ after.requests := by
    obtain ⟨effect, next⟩ := good.step legal taken
    exact ⟨next, effect.fifo good⟩
  have fifo := emitted_fifo Good ideinit_good legal kept ran
  rw [ideinit_requests, List.nil_append] at fifo
  exact fifo

theorem run_served (legal : Along step Legal (ideinit m.buf disk qnext havedisk1) actions)
    (ran : exec step (ideinit m.buf disk qnext havedisk1) actions = some s) :
    (emitted step event (ideinit m.buf disk qnext havedisk1) actions).flatMap Event.request <+:
      (emitted step appends (ideinit m.buf disk qnext havedisk1) actions).flatten := by
  have kept (before : State n) (action : Action n) (after : State n) (good : Good before) (legal : Legal before action)
      (taken : step before action = some after) :
      Good after ∧ before.device.unfinished before.requests ++ appends before action =
        (event before action).request ++ after.device.unfinished after.requests := by
    obtain ⟨effect, next⟩ := good.step legal taken
    exact ⟨next, effect.unfinished_fifo good⟩
  have fifo := emitted_fifo Good ideinit_good legal kept ran
  rw [ideinit_requests, emitted_map, ← List.flatMap_def] at fifo
  exact ⟨_, fifo.symm⟩

theorem run_shows (size : g.disksize = FSSIZE) (same : m.disk = disk true)
    (legal : Along step Legal (ideinit m.buf disk qnext havedisk1) actions)
    (onDisk1 : Along step OnDisk1 (ideinit m.buf disk qnext havedisk1) actions)
    (ran : exec step (ideinit m.buf disk qnext havedisk1) actions = some s) :
    ∃ m', (emitted step event (ideinit m.buf disk qnext havedisk1) actions).foldl (memide g) (some m) = some m' ∧
      Shows s m' := by
  have start : Simulates (ideinit m.buf disk qnext havedisk1) (some m) := by
    refine ⟨ideinit_good, ?_, m, rfl, same, fun _ => rfl⟩
    exact nofun
  have kept (before : State n) (value : Option (Cache.State n)) (action : Action n) (after : State n)
      (holds : Simulates before value) (meets : Legal before action ∧ OnDisk1 before action)
      (taken : step before action = some after) : Simulates after (memide g value (event before action)) := by
    obtain ⟨good, all, m', rfl, shows⟩ := holds
    obtain ⟨effect, next⟩ := good.step meets.1 taken
    exact ⟨next, all.step meets.2 effect, shows.step size good all effect⟩
  exact (exec_simulates Simulates start (legal.and onDisk1) kept ran).2.2

/-- For every run of calls on buffers that their processes hold, and of interrupts:
nothing panics, requests are done in the order in which they were appended, and on
disk 1 the disk, and every buffer that nobody waits for, are what `memide.c` makes of
the requests in that order. -/
theorem driver_refines_memory_disk (size : g.disksize = FSSIZE) (same : m.disk = disk true)
    (legal : Along step Legal (ideinit m.buf disk qnext havedisk1) actions)
    (ran : exec step (ideinit m.buf disk qnext havedisk1) actions = some s) :
    (∀ a, Legal s a → act s a = .disabled ∨ ∃ t, act s a = .next t) ∧
      s.requests.Nodup ∧
      (∀ b rest, s.requests = b :: rest → s.device.registers = some (registersFor (s.buf b))) ∧
      (emitted step appends (ideinit m.buf disk qnext havedisk1) actions).flatten =
        (emitted step completes (ideinit m.buf disk qnext havedisk1) actions).flatten ++ s.requests ∧
      (∀ p b t, (s.ops p).buffer = some b → step s (.run p) = some t → t.ops p = .outside →
        (t.buf b).valid = true ∧ (t.buf b).dirty = false) ∧
      (emitted step event (ideinit m.buf disk qnext havedisk1) actions).flatMap Event.request <+:
        (emitted step appends (ideinit m.buf disk qnext havedisk1) actions).flatten ∧
      (Along step OnDisk1 (ideinit m.buf disk qnext havedisk1) actions →
        ∃ m', (emitted step event (ideinit m.buf disk qnext havedisk1) actions).foldl (memide g) (some m) = some m' ∧
          m'.disk = s.disk true ∧ ∀ b, (∀ p, s.ops p ≠ .sleeping b) → m'.buf b = s.buf b) := by
  have good := run_good legal ran
  refine ⟨?_, good.holds.nodup, ?_, run_fifo legal ran, ?_, run_served legal ran, ?_⟩
  · intro a allowed
    rcases Sound.act good allowed with stuck | ⟨_, t, next, _⟩
    · exact .inl stuck
    · exact .inr ⟨t, next⟩
  · intro b rest is
    have serves := good.serves
    rw [is] at serves
    rcases serves with working | ⟨data, finished⟩
    · rw [working]
      rfl
    · rw [finished]
      rfl
  · intro p b t inside taken returns
    have allowed : Legal s (.run p) := trivial
    obtain ⟨effect, _⟩ := good.step allowed taken
    generalize t.requests = after at effect
    cases effect with
    | queues calling holds =>
      rw [ops_queued, if_pos rfl] at returns
      cases returns
    | leaves woken =>
      have placed := good.placed p
      rw [woken] at placed inside
      cases inside
      exact placed.2.2
  · intro onDisk1
    obtain ⟨m', folded, shows⟩ := run_shows size same legal onDisk1 ran
    refine ⟨m', folded, shows.disk, ?_⟩
    intro b awake
    rw [shows.buf b, settled_of_notMem good]
    intro member
    obtain ⟨p, sleeps⟩ := good.listed b member
    exact awake p sleeps

end Runs

def writeThenRead : List (Action 2) :=
  [.call 0 0, .run 0, .call 1 1, .run 1, .finish, .intr, .finish, .intr, .run 0, .run 1]

def twoBuffers : Cache.State 2 :=
  { binit 2 (fun _ => .zero) with
    buf := fun b =>
      if b = 0 then { dev := 1, blockno := 3, dirty := true, owner := some 0, data := fun _ => 7 }
      else if b = 1 then { dev := 1, blockno := 3, owner := some 1 }
      else {} }

theorem driver_refines_memory_disk_write_then_read :
    ∃ s m', exec step (ideinit twoBuffers.buf (fun _ _ => .zero) (fun _ => none) true) writeThenRead = some s ∧
      (s.buf 1).data 0 = 7 ∧
      (emitted step event (ideinit twoBuffers.buf (fun _ _ => .zero) (fun _ => none) true) writeThenRead).foldl
        (memide ⟨Log.imageLog, FSSIZE⟩) (some twoBuffers) = some m' ∧
      m'.disk = s.disk true ∧ m'.buf 1 = s.buf 1 := by
  have reached : (exec step (ideinit twoBuffers.buf (fun _ _ => .zero) (fun _ => none) true) writeThenRead).map
      (fun s => ((s.buf 1).data 0, s.ops 0, s.ops 1)) = some (7, .outside, .outside) := by decide +kernel
  obtain ⟨s, ran, seen⟩ := Option.map_eq_some_iff.mp reached
  simp only [Prod.mk.injEq] at seen
  obtain ⟨data, first, second⟩ := seen
  have legal : Along step Legal (ideinit twoBuffers.buf (fun _ _ => .zero) (fun _ => none) true) writeThenRead := by
    decide +kernel
  have onDisk1 : Along step OnDisk1 (ideinit twoBuffers.buf (fun _ _ => .zero) (fun _ => none) true) writeThenRead := by
    decide +kernel
  obtain ⟨m', folded, disk, buffers⟩ :=
    (driver_refines_memory_disk (g := ⟨Log.imageLog, FSSIZE⟩) rfl rfl legal ran).2.2.2.2.2.2 onDisk1
  refine ⟨s, m', ran, data, folded, disk, buffers 1 ?_⟩
  intro p
  fin_cases p
  · simp [first]
  · simp [second]

end Xv6.Ide
