import Xv6.Cache.Machine
import Xv6.Data.Resource

namespace Xv6.Cache

open Xv6.Data Xv6.Disk
open Function (update update_self update_of_ne update_apply update_eq_self)

/-! # What the buffers hold

The cache and the disk together stand for a map from devices and block numbers to
contents, which `Coherent` relates to them.
-/

variable {n : Nat} {g : Geometry} {s t : State n} {a : Action n} {contents : Key → Block}
  {p : Fin n} {i : Slot} {data : Block}

inductive Event where
  | quiet
  | write (key : Key) (data : Block)
  | pin (key : Key) (data : Block)

variable {event : Event}

inductive Change (s t : State n) : Event → Prop where
  | same (buf : t.buf = s.buf) (disk : t.disk = s.disk) (call : t.call = s.call)
      (order : t.order = s.order) : Change s t .quiet
  | hit {p : Fin n} {i : Slot} (ready : s.call p = .ready)
      (buf : t.buf = update s.buf i { s.buf i with refcnt := (s.buf i).refcnt + 1 })
      (disk : t.disk = s.disk) (call : t.call = update s.call p (.locking i (s.buf i).key))
      (order : t.order = s.order) : Change s t .quiet
  | recycle {p : Fin n} {i : Slot} {dev : Dev} {blockno : BlockNo} (ready : s.call p = .ready)
      (absent : ∀ j ∈ s.order, (s.buf j).key ≠ (dev, blockno))
      (unused : (s.buf i).refcnt = 0) (clean : (s.buf i).dirty = false)
      (buf : t.buf = update s.buf i
        { s.buf i with dev, blockno, valid := false, dirty := false, refcnt := 1 })
      (disk : t.disk = s.disk) (call : t.call = update s.call p (.locking i (dev, blockno)))
      (order : t.order = s.order) : Change s t .quiet
  | lock {p : Fin n} {i : Slot} {key : Key} (asked : s.call p = .locking i key)
      (unowned : (s.buf i).owner = none) (fetched : (s.buf i).valid = false → (s.buf i).dev = ROOTDEV)
      (buf : t.buf = update s.buf i
        { s.buf i with
          owner := some p, valid := true,
          data := if (s.buf i).valid then (s.buf i).data else s.disk (s.buf i).blockno })
      (disk : t.disk = s.disk) (call : t.call = update s.call p .ready)
      (order : t.order = s.order) : Change s t .quiet
  | write {p : Fin n} {i : Slot} {data : Block} (owned : (s.buf i).owner = some p)
      (onDisk : (s.buf i).dev = ROOTDEV)
      (buf : t.buf = update s.buf i { s.buf i with data, dirty := false, valid := true })
      (disk : t.disk = update s.disk (s.buf i).blockno data) (call : t.call = s.call)
      (order : t.order = s.order) : Change s t (.write (s.buf i).key data)
  | check {p : Fin n} {i : Slot} {data : Block} (ready : s.call p = .ready)
      (owned : (s.buf i).owner = some p) (buf : t.buf = s.buf) (disk : t.disk = s.disk)
      (call : t.call = update s.call p (.logging i data))
      (order : t.order = s.order) : Change s t .quiet
  | pin {p : Fin n} {i : Slot} {data : Block} (asked : s.call p = .logging i data)
      (buf : t.buf = update s.buf i { s.buf i with data, dirty := true })
      (disk : t.disk = s.disk) (call : t.call = update s.call p .ready)
      (order : t.order = s.order) : Change s t (.pin (s.buf i).key data)
  | release {p : Fin n} {i : Slot} (ready : s.call p = .ready) (owned : (s.buf i).owner = some p)
      (buf : t.buf = update s.buf i { s.buf i with owner := none })
      (disk : t.disk = s.disk) (call : t.call = update s.call p (.leaving i))
      (order : t.order = s.order) : Change s t .quiet
  | unref {p : Fin n} {i : Slot} (asked : s.call p = .leaving i)
      (buf : t.buf = update s.buf i { s.buf i with refcnt := (s.buf i).refcnt - 1 })
      (disk : t.disk = s.disk) (call : t.call = update s.call p .ready)
      (order : ∀ j ∈ s.order, j ∈ t.order) : Change s t .quiet

def written (s : State n) : Action n → Event
  | .bwrite _ i data => .write (s.buf i).key data
  | .append p =>
    match s.call p with
    | .logging i data => .pin (s.buf i).key data
    | _ => .quiet
  | .commit p =>
    match s.job p with
    | .gotSecond which _ i j =>
      .write (s.buf (roundTarget s which i j).1).key (roundTarget s which i j).2
    | .gotHead _ i => .write (s.buf i).key (Log.headerBlock (s.buf i).data s.lh)
    | _ => .quiet
  | _ => .quiet

theorem Result.andThen_next {result : Result n} {f : State n → State n}
    (ran : result.andThen f = .next t) : ∃ u, result = .next u ∧ t = f u := by
  cases result with
  | next u =>
    cases ran
    exact ⟨u, rfl, rfl⟩
  | panic message | disabled => cases ran

theorem breadBegin_next {dev : Dev} {blockno : BlockNo} (ran : breadBegin s p dev blockno = .next t) :
    ∃ i, t = { s with buf := t.buf, call := update s.call p (.locking i (dev, blockno)) } ∧
      ((t.buf = update s.buf i { s.buf i with refcnt := (s.buf i).refcnt + 1 } ∧
          (s.buf i).key = (dev, blockno)) ∨
        ((∀ j ∈ s.order, (s.buf j).key ≠ (dev, blockno)) ∧ (s.buf i).refcnt = 0 ∧
          (s.buf i).dirty = false ∧ t.buf = update s.buf i
            { s.buf i with dev, blockno, valid := false, dirty := false, refcnt := 1 })) := by
  simp only [breadBegin, bget] at ran
  cases cached : s.order.find? fun i => (s.buf i).key = (dev, blockno) with
  | some i =>
    simp only [cached] at ran
    cases ran
    have found := List.find?_some cached
    simp only [decide_eq_true_eq] at found
    exact ⟨i, rfl, .inl ⟨rfl, found⟩⟩
  | none =>
    cases unused : s.order.reverse.find? fun i => (s.buf i).refcnt = 0 ∧ (s.buf i).dirty = false with
    | none =>
      simp only [cached, unused] at ran
      cases ran
    | some i =>
      simp only [cached, unused] at ran
      cases ran
      have found := List.find?_some unused
      simp only [Bool.decide_and, Bool.and_eq_true, decide_eq_true_eq] at found
      refine ⟨i, rfl, .inr ⟨fun j member => ?_, found.1, found.2, rfl⟩⟩
      simpa using List.find?_eq_none.mp cached j member

theorem bwrite_next (ran : bwrite g s p i data = .next t) :
    (s.buf i).owner = some p ∧ (s.buf i).dev = ROOTDEV ∧
      t = { s with
        buf := update s.buf i { s.buf i with data, dirty := false, valid := true }
        disk := update s.disk (s.buf i).blockno data } := by
  unfold bwrite at ran
  split at ran
  · cases ran
  · rename_i owned
    simp only [ne_eq, not_not] at owned
    simp only [iderw, State.setBuf, update_self, owned] at ran
    split at ran
    · contradiction
    · split at ran
      · cases ran
      · split at ran
        · cases ran
        · split at ran
          · cases ran
          · simp only [↓reduceIte, Result.next.injEq] at ran
            cases ran
            simp_all

theorem breadEnd_next (clean : ∀ i, (s.buf i).dirty = true → (s.buf i).valid = true)
    (ran : breadEnd g s p = .next t) : ∃ i key, s.call p = .locking i key ∧ (s.buf i).owner = none ∧
      ((s.buf i).valid = false → (s.buf i).dev = ROOTDEV) ∧
      t = { s with
        buf := update s.buf i
          { s.buf i with
            owner := some p, valid := true,
            data := if (s.buf i).valid then (s.buf i).data else s.disk (s.buf i).blockno }
        call := update s.call p .ready
        job := update s.job p ((s.job p).returned i) } := by
  cases asked : s.call p with
  | ready | leaving i | logging i data =>
    simp only [breadEnd, asked] at ran
    cases ran
  | locking i key =>
    simp only [breadEnd, asked, State.setBuf, update_self] at ran
    split at ran
    · cases ran
    · rename_i unowned
      simp only [ne_eq, not_not] at unowned
      refine ⟨i, key, rfl, unowned, ?_⟩
      cases valid : (s.buf i).valid with
      | true =>
        simp only [valid, ↓reduceIte, Result.next.injEq] at ran
        cases ran
        simp [State.setCall, State.setJob]
      | false =>
        have notDirty : (s.buf i).dirty = false := by
          cases dirty : (s.buf i).dirty with
          | false => rfl
          | true => exact absurd (clean i dirty) (by simp [valid])
        simp only [valid, Bool.false_eq_true, ↓reduceIte] at ran
        obtain ⟨u, read, rfl⟩ := Result.andThen_next ran
        simp only [iderw, update_self, notDirty, State.setBuf] at read
        simp only [ne_eq, not_true_eq_false, ↓reduceIte, Bool.false_eq_true, false_and] at read
        split at read
        · cases read
        · rename_i onDisk
          split at read
          · cases read
          · cases read
            refine ⟨fun _ => not_not.mp onDisk, ?_⟩
            simp [State.setCall, State.setJob, notDirty]

theorem brelseBegin_next (ran : brelseBegin s p i = .next t) : (s.buf i).owner = some p ∧ t = { s with
      buf := update s.buf i { s.buf i with owner := none }
      call := update s.call p (.leaving i) } := by
  unfold brelseBegin at ran
  split at ran
  · cases ran
  · rename_i owned
    cases ran
    exact ⟨not_not.mp owned, rfl⟩

theorem Change.bread {u : State n} {dev : Dev} {blockno : BlockNo} (ready : s.call p = .ready)
    (ran : breadBegin s p dev blockno = .next u) (buf : t.buf = u.buf) (disk : t.disk = u.disk)
    (call : t.call = u.call) (order : t.order = u.order) : Change s t .quiet := by
  obtain ⟨i, equal, found | ⟨absent, unused, clean, recycled⟩⟩ := breadBegin_next ran
  · obtain ⟨counted, key⟩ := found
    apply Change.hit (p := p) (i := i) ready (buf.trans counted)
    · rw [disk, equal]
    · rw [call, equal, key]
    · rw [order, equal]
  · apply Change.recycle (p := p) (i := i) ready absent unused clean (buf.trans recycled)
    · rw [disk, equal]
    · rw [call, equal]
    · rw [order, equal]

theorem step_act (taken : step g s a = some t) : act g s a = .next t := by
  unfold step at taken
  split at taken
  · rename_i next ran
    cases taken
    exact ran
  · cases taken

theorem of_guard {guard : Prop} [Decidable guard] {result : Result n}
    (ran : (if guard then result else .disabled) = .next t) : guard ∧ result = .next t := by
  split at ran
  · exact ⟨‹guard›, ran⟩
  · cases ran

theorem commit_change (ready : s.call p = .ready) (ran : commit g s p = .next t) :
    Change s t (written s (.commit p)) := by
  unfold commit at ran
  simp only [written]
  generalize s.job p = job at ran ⊢
  cases job with
  | user | first which tail | second which tail i | getHead erase => cases ran
  | loop which tail =>
    dsimp only at ran
    split at ran
    · obtain ⟨u, began, rfl⟩ := Result.andThen_next ran
      exact .bread ready began rfl rfl rfl rfl
    · cases ran
      cases which <;> exact .same rfl rfl rfl rfl
  | gotFirst which tail i =>
    dsimp only at ran
    split at ran
    · obtain ⟨u, began, rfl⟩ := Result.andThen_next ran
      exact .bread ready began rfl rfl rfl rfl
    · cases ran
  | gotSecond which tail i j | gotHead erase i =>
    obtain ⟨u, wrote, rfl⟩ := Result.andThen_next ran
    obtain ⟨owned, onDisk, rfl⟩ := bwrite_next wrote
    exact .write owned onDisk rfl rfl rfl rfl
  | copied which tail i j | half which tail k | wroteHead erase i =>
    obtain ⟨u, released, rfl⟩ := Result.andThen_next ran
    obtain ⟨owned, rfl⟩ := brelseBegin_next released
    exact .release ready owned rfl rfl rfl rfl
  | head erase =>
    obtain ⟨u, began, rfl⟩ := Result.andThen_next ran
    exact .bread ready began rfl rfl rfl rfl
  | finish =>
    cases ran
    exact .same rfl rfl rfl rfl

theorem mem_moved {order : List Slot} {j : Slot} {last : Prop} [Decidable last] (member : j ∈ order) :
    j ∈ if last then i :: order.erase i else order := by
  split
  · by_cases same : j = i
    · rw [same]
      exact List.mem_cons_self
    · exact List.mem_cons_of_mem _ ((List.mem_erase_of_ne same).mpr member)
  · exact member

theorem step_change (clean : ∀ i, (s.buf i).dirty = true → (s.buf i).valid = true)
    (taken : step g s a = some t) : Change s t (written s a) := by
  have ran := step_act taken
  cases a with
  | bread p dev b =>
    obtain ⟨free, ran⟩ := of_guard ran
    exact .bread free.1 ran rfl rfl rfl rfl
  | lock p =>
    obtain ⟨i, key, asked, unowned, fetched, rfl⟩ := breadEnd_next clean ran
    exact .lock asked unowned fetched rfl rfl rfl rfl
  | bwrite p i data =>
    obtain ⟨owned, onDisk, rfl⟩ := bwrite_next (of_guard ran).2
    exact .write owned onDisk rfl rfl rfl rfl
  | logWrite p i data =>
    obtain ⟨guard, ran⟩ := of_guard ran
    simp only [logWriteBegin] at ran
    split at ran
    · cases ran
    · split at ran
      · cases ran
      · cases ran
        exact .check guard.1.1 guard.2 rfl rfl rfl rfl
  | append p =>
    cases asked : s.call p with
    | logging i data =>
      simp only [act, logWriteEnd, asked] at ran
      cases ran
      simp only [written, asked]
      exact .pin asked rfl rfl rfl rfl
    | ready | locking i key | leaving i =>
      simp only [act, logWriteEnd, asked] at ran
      cases ran
  | brelse p i =>
    obtain ⟨guard, ran⟩ := of_guard ran
    obtain ⟨owned, rfl⟩ := brelseBegin_next ran
    exact .release guard.1.1 owned rfl rfl rfl rfl
  | unref p =>
    simp only [act, brelseEnd] at ran
    split at ran
    · rename_i i asked
      cases ran
      exact .unref asked rfl rfl rfl fun j member => mem_moved member
    · cases ran
  | beginOp p =>
    have began := (of_guard ran).2
    simp only [beginOp] at began
    split at began
    · cases began
    · split at began
      · cases began
      · cases began
        exact .same rfl rfl rfl rfl
  | endOp p =>
    have ended := (of_guard ran).2
    simp only [endOp] at ended
    split at ended
    · cases ended
    · split at ended <;> cases ended <;> exact .same rfl rfl rfl rfl
  | commit p =>
    obtain ⟨ready, ran⟩ := of_guard ran
    exact commit_change ready ran

theorem Change.listed (changed : Change s t event) {j : Slot} (member : j ∈ s.order) : j ∈ t.order := by
  cases changed with
  | unref asked buf disk call order => exact order j member
  | same buf disk call order | hit ready buf disk call order
  | recycle ready absent unused clean buf disk call order
  | lock asked unowned fetched buf disk call order | write owned onDisk buf disk call order
  | check ready owned buf disk call order | pin asked buf disk call order
  | release ready owned buf disk call order => exact order ▸ member

/-- How often a call counts in the `refcnt` of a buffer that nobody has locked for
it. -/
def Call.refs : Call → Slot → Nat
  | .locking j _, i => if j = i then 1 else 0
  | .leaving j, i => if j = i then 1 else 0
  | _, _ => 0

def store (contents : Key → Block) (key : Key) (data : Block) : Key → Block :=
  update contents key data

theorem store_self {key : Key} : store contents key data key = data :=
  update_self ..

theorem store_of_ne {key other : Key} (different : other ≠ key) :
    store contents key data other = contents other :=
  update_of_ne different ..

def put (contents : Key → Block) : Event → Key → Block
  | .quiet => contents
  | .write key data | .pin key data => store contents key data

structure Coherent (s : State n) (contents : Key → Block) : Prop where
  listed : ∀ i, i ∈ s.order
  refs : ∀ i, (s.buf i).refcnt = (if (s.buf i).owner = none then 0 else 1) + ∑ p, (s.call p).refs i
  keys : ∀ i j, (s.buf i).dev ≠ 0 → (s.buf i).key = (s.buf j).key → i = j
  asked : ∀ p i key, s.call p = .locking i key → (s.buf i).key = key
  writing : ∀ p i data, s.call p = .logging i data → (s.buf i).owner = some p
  owned : ∀ i, (s.buf i).owner ≠ none → (s.buf i).valid = true
  valid : ∀ i, (s.buf i).valid = true →
    (s.buf i).dev = ROOTDEV ∧ (s.buf i).data = contents (s.buf i).key
  dirty : ∀ i, (s.buf i).dirty = true → (s.buf i).valid = true
  disk : ∀ b, (∀ i, (s.buf i).key = (ROOTDEV, b) → (s.buf i).dirty = false) →
    s.disk b = contents (ROOTDEV, b)

structure Buf.Sound (buf : Buf n) (contents : Key → Block) : Prop where
  owned : buf.owner ≠ none → buf.valid = true
  valid : buf.valid = true → buf.dev = ROOTDEV ∧ buf.data = contents buf.key
  dirty : buf.dirty = true → buf.valid = true

namespace Coherent

section

variable {call : Call} (calls : t.call = Function.update s.call p call)
include calls

theorem sum_refs (i : Slot) :
    ∑ q, (t.call q).refs i + (s.call p).refs i = ∑ q, (s.call q).refs i + call.refs i := by
  rw [calls]
  exact sum_update (fun _ call => call.refs i) s.call p call

theorem called (q : Fin n) : t.call q = if q = p then call else s.call q := by
  rw [calls, update_apply]

end

section

variable (coherent : Coherent s contents)
include coherent

theorem unused (zero : (s.buf i).refcnt = 0) :
    (s.buf i).owner = none ∧ ∀ p, (s.call p).refs i = 0 := by
  have count := coherent.refs i
  rw [zero] at count
  have unowned : (s.buf i).owner = none := by
    by_contra owned
    simp only [owned, ↓reduceIte] at count
    omega
  refine ⟨unowned, fun p => ?_⟩
  have sum : ∑ p, (s.call p).refs i = 0 := by omega
  exact Finset.sum_eq_zero_iff.mp sum p (Finset.mem_univ p)

theorem other_key {j : Slot} (onDisk : (s.buf i).dev = ROOTDEV)
    (different : j ≠ i) : (s.buf j).key ≠ (s.buf i).key := by
  intro same
  have nonzero : (s.buf i).dev ≠ 0 := by simp [onDisk, ROOTDEV]
  exact different (coherent.keys i j nonzero same.symm).symm

theorem sound (i : Slot) : (s.buf i).Sound contents :=
  ⟨coherent.owned i, coherent.valid i, coherent.dirty i⟩

section

variable {new : Buf n} {call : Call} {others : Key → Block}
  (listed : ∀ j, j ∈ t.order) (buf : t.buf = Function.update s.buf i new) (calls : t.call = Function.update s.call p call)
  (refs : ∀ j, (if i = j then new.refcnt + (if (s.buf i).owner = none then 0 else 1) else 0) + (s.call p).refs j =
    (if i = j then (s.buf i).refcnt + (if new.owner = none then 0 else 1) else 0) + call.refs j)
  (sound : new.Sound others)
  (kept : ∀ j, j ≠ i → (s.buf j).valid = true → others (s.buf j).key = contents (s.buf j).key)
  (disk : ∀ b, (∀ j, (t.buf j).key = (ROOTDEV, b) → (t.buf j).dirty = false) → t.disk b = others (ROOTDEV, b))
include listed buf calls refs sound kept disk

theorem update (keys : ∀ j, j ≠ i → new.dev ≠ 0 → (s.buf j).key ≠ new.key)
    (asked : ∀ q key, t.call q = .locking i key → new.key = key)
    (askedOther : ∀ j key, j ≠ i → call = .locking j key → (s.buf j).key = key)
    (writing : ∀ q data, t.call q = .logging i data → new.owner = some q)
    (writingOther : ∀ j data, j ≠ i → call = .logging j data → (s.buf j).owner = some p) : Coherent t others := by
  have self : t.buf i = new := by rw [buf, update_self]
  have other : ∀ j, j ≠ i → t.buf j = s.buf j := by
    intro j different
    rw [buf, update_of_ne different]
  have each : ∀ j, (t.buf j).Sound others := by
    intro j
    by_cases same : j = i
    · rw [same, self]
      exact sound
    · rw [other j same]
      have old := coherent.sound j
      exact { old with valid := fun isValid => kept j same isValid ▸ old.valid isValid }
  constructor
  · exact listed
  · intro j
    have sum := sum_refs calls j
    have count := refs j
    have before := coherent.refs j
    by_cases same : j = i
    · subst j
      rw [self]
      simp only [↓reduceIte] at count
      omega
    · rw [other j same]
      simp only [Ne.symm same, ↓reduceIte] at count
      omega
  · intro j k nonzero equal
    by_cases first : j = i
    · by_cases second : k = i
      · rw [first, second]
      · rw [first, self] at nonzero equal
        rw [other k second] at equal
        exact absurd equal.symm (keys k second nonzero)
    · rw [other j first] at nonzero equal
      by_cases second : k = i
      · rw [second, self] at equal
        have device : (s.buf j).dev = new.dev := congrArg Prod.fst equal
        exact absurd equal (keys j first (device ▸ nonzero))
      · rw [other k second] at equal
        exact coherent.keys j k nonzero equal
  · intro q j key waiting
    by_cases same : j = i
    · subst j
      rw [self]
      exact asked q key waiting
    · rw [other j same]
      rw [called calls] at waiting
      split at waiting
      · exact askedOther j key same waiting
      · exact coherent.asked q j key waiting
  · intro q j data waiting
    by_cases same : j = i
    · subst j
      rw [self]
      exact writing q data waiting
    · rw [other j same]
      rw [called calls] at waiting
      split at waiting
      · rename_i isP
        rw [isP]
        exact writingOther j data same waiting
      · exact coherent.writing q j data waiting
  · exact fun j => (each j).owned
  · exact fun j => (each j).valid
  · exact fun j => (each j).dirty
  · exact disk

theorem update_kept (key : new.key = (s.buf i).key) (asked : ∀ j key, call = .locking j key → (s.buf j).key = key)
    (writing : ∀ j data, call = .logging j data → (s.buf j).owner = some p ∧ (i = j → new.owner = some p))
    (owner : ∀ q, q ≠ p → (s.buf i).owner = some q → new.owner = some q) : Coherent t others := by
  apply coherent.update listed buf calls refs sound kept disk
  · intro j different nonzero same
    have device : new.dev = (s.buf i).dev := congrArg Prod.fst key
    exact different (coherent.keys i j (device ▸ nonzero) (key.symm.trans same.symm)).symm
  · intro q wanted waiting
    rw [key]
    rw [called calls] at waiting
    split at waiting
    · exact asked i wanted waiting
    · exact coherent.asked q i wanted waiting
  · intro j wanted _ waiting
    exact asked j wanted waiting
  · intro q data waiting
    rw [called calls] at waiting
    split at waiting
    · rename_i isP
      rw [isP]
      exact (writing i data waiting).2 rfl
    · rename_i notP
      exact owner q notP (coherent.writing q i data waiting)
  · intro j data _ waiting
    exact (writing j data waiting).1

end

theorem disk_kept {new : Buf n} (unwritten : t.disk = s.disk)
    (buf : t.buf = Function.update s.buf i new) (key : new.key = (s.buf i).key)
    (dirty : (s.buf i).dirty = true → new.dirty = true) (b : BlockNo)
    (clean : ∀ j, (t.buf j).key = (ROOTDEV, b) → (t.buf j).dirty = false) :
    t.disk b = contents (ROOTDEV, b) := by
  rw [unwritten]
  apply coherent.disk
  intro j stands
  have after := clean j
  rw [buf] at after
  by_cases same : j = i
  · subst j
    simp only [update_self, key] at after
    have notDirty := after stands
    by_contra isDirty
    simp [dirty (by simpa using isDirty)] at notDirty
  · rw [update_of_ne same] at after
    exact after stands

theorem recycle {dev : Dev} {blockno : BlockNo}
    (listed : ∀ j, j ∈ t.order) (ready : s.call p = .ready)
    (absent : ∀ j ∈ s.order, (s.buf j).key ≠ (dev, blockno))
    (unused : (s.buf i).refcnt = 0) (clean : (s.buf i).dirty = false)
    (buf : t.buf = Function.update s.buf i
      { s.buf i with dev, blockno, valid := false, dirty := false, refcnt := 1 })
    (disk : t.disk = s.disk) (call : t.call = Function.update s.call p (.locking i (dev, blockno))) :
    Coherent t contents := by
  obtain ⟨unowned, unreferenced⟩ := coherent.unused unused
  apply coherent.update listed buf call
  · intro j
    simp only [ready, unowned, unused, Call.refs, ↓reduceIte]
    split <;> omega
  · exact ⟨fun held => absurd unowned held, nofun, nofun⟩
  · exact fun j _ _ => rfl
  · intro b others
    rw [disk]
    apply coherent.disk
    intro j stands
    by_cases same : j = i
    · rw [same]
      exact clean
    · have after := others j
      rw [buf, update_of_ne same] at after
      exact after stands
  · exact fun j _ _ => absent j (coherent.listed j)
  · intro q key waiting
    rw [called call] at waiting
    split at waiting
    · cases waiting
      rfl
    · -- nobody waited for the buffer, since its `refcnt` was 0
      have none := unreferenced q
      simp [waiting, Call.refs] at none
  · intro j key different waiting
    cases waiting
    exact absurd rfl different
  · intro q data waiting
    rw [called call] at waiting
    split at waiting
    · cases waiting
    · have owned := coherent.writing q i data waiting
      rw [unowned] at owned
      cases owned
  · exact nofun

/-- What `bread` returns when it reads the disk is what the disk stands for: no
buffer can hold something newer. -/
theorem fetched (fetched : (s.buf i).valid = false → (s.buf i).dev = ROOTDEV) :
    (s.buf i).dev = ROOTDEV ∧
      (if (s.buf i).valid then (s.buf i).data else s.disk (s.buf i).blockno) =
        contents (s.buf i).key := by
  cases valid : (s.buf i).valid with
  | true =>
    simp only [↓reduceIte]
    exact coherent.valid i valid
  | false =>
    simp only [Bool.false_eq_true, ↓reduceIte]
    have onDisk := fetched valid
    have key : (s.buf i).key = (ROOTDEV, (s.buf i).blockno) := by rw [Buf.key, onDisk]
    refine ⟨onDisk, ?_⟩
    rw [key]
    apply coherent.disk
    intro j stands
    by_cases same : j = i
    · subst j
      by_contra dirty
      have := coherent.dirty i (by simpa using dirty)
      simp [valid] at this
    · exact absurd (stands.trans key.symm) (coherent.other_key onDisk same)

/-- A store reaches the disk, or leaves its buffer dirty. -/
theorem disk_stored {new : Buf n} (onDisk : (s.buf i).dev = ROOTDEV)
    (buf : t.buf = Function.update s.buf i new) (key : new.key = (s.buf i).key)
    (stored : t.disk = Function.update s.disk (s.buf i).blockno data ∨
      new.dirty = true ∧ t.disk = s.disk) (b : BlockNo)
    (clean : ∀ j, (t.buf j).key = (ROOTDEV, b) → (t.buf j).dirty = false) :
    t.disk b = store contents (s.buf i).key data (ROOTDEV, b) := by
  have key_eq : (s.buf i).key = (ROOTDEV, (s.buf i).blockno) := by rw [Buf.key, onDisk]
  by_cases same : b = (s.buf i).blockno
  · subst b
    rw [← key_eq, store_self]
    cases stored with
    | inl written => rw [written, update_self]
    | inr pinned =>
      have after := clean i
      rw [buf, update_self, key] at after
      exact absurd (after key_eq) (by simp [pinned.1])
  · have different : ((ROOTDEV, b) : Key) ≠ (s.buf i).key := by
      rw [key_eq]
      exact fun equal => same (congrArg Prod.snd equal)
    have unwritten : t.disk b = s.disk b := by
      cases stored with
      | inl written => rw [written, update_of_ne same]
      | inr pinned => rw [pinned.2]
    rw [store_of_ne different, unwritten]
    apply coherent.disk
    intro j stands
    have after := clean j
    rw [buf, update_of_ne] at after
    · exact after stands
    · intro equal
      subst j
      exact different stands.symm

theorem counted (leaving : s.call p = .leaving i) : 0 < (s.buf i).refcnt := by
  by_contra zero
  have none := (coherent.unused (Nat.eq_zero_of_not_pos zero)).2 p
  simp [leaving, Call.refs] at none

theorem change (changed : Change s t event) : Coherent t (put contents event) := by
  have listed : ∀ j, j ∈ t.order := fun j => changed.listed (coherent.listed j)
  cases changed with
  | same buf disk call _ =>
    obtain ⟨_, refs, keys, asked, writing, owned, valid, dirty, onDisk⟩ := coherent
    rw [← buf] at refs keys asked writing owned valid dirty onDisk
    rw [← call] at refs asked writing
    rw [← disk] at onDisk
    exact ⟨listed, refs, keys, asked, writing, owned, valid, dirty, onDisk⟩
  | @hit p i ready buf disk call _ =>
    apply coherent.update_kept listed buf call
    · intro j
      simp only [ready, Call.refs]
      split <;> omega
    · exact { coherent.sound i with }
    · exact fun j _ _ => rfl
    · exact coherent.disk_kept disk buf rfl id
    · rfl
    · intro j key waiting
      cases waiting
      rfl
    · exact nofun
    · exact fun q _ owner => owner
  | recycle ready absent unused clean buf disk call _ =>
    exact coherent.recycle listed ready absent unused clean buf disk call
  | @lock p i key asked unowned fetched buf disk call _ =>
    apply coherent.update_kept listed buf call
    · intro j
      simp only [asked, unowned, Call.refs, reduceCtorEq, ↓reduceIte]
      split <;> omega
    · exact ⟨fun _ => rfl, fun _ => coherent.fetched fetched, fun _ => rfl⟩
    · exact fun j _ _ => rfl
    · exact coherent.disk_kept disk buf rfl id
    · rfl
    · exact nofun
    · exact nofun
    · intro q _ owner
      rw [unowned] at owner
      cases owner
  | @write p i data owned onDisk buf disk call _ =>
    have unchanged : t.call = Function.update s.call p (s.call p) := by
      rw [call, update_eq_self]
    apply coherent.update_kept listed buf unchanged
    · exact fun j => rfl
    · exact ⟨fun _ => rfl, fun _ => ⟨onDisk, store_self.symm⟩, fun _ => rfl⟩
    · exact fun j different _ => store_of_ne (coherent.other_key onDisk different)
    · exact coherent.disk_stored onDisk buf rfl (.inl disk)
    · rfl
    · exact coherent.asked p
    · intro j stored waiting
      exact ⟨coherent.writing p j stored waiting, fun _ => owned⟩
    · exact fun q _ owner => owner
  | @check p i data ready owned buf disk call _ =>
    have unchanged : t.buf = Function.update s.buf i (s.buf i) := by
      rw [buf, update_eq_self]
    apply coherent.update_kept listed unchanged call
    · intro j
      simp only [ready, Call.refs]
    · exact coherent.sound i
    · exact fun j _ _ => rfl
    · exact coherent.disk_kept disk unchanged rfl id
    · rfl
    · exact nofun
    · intro j stored waiting
      cases waiting
      exact ⟨owned, fun _ => owned⟩
    · exact fun q _ owner => owner
  | @pin p i data asked buf disk call _ =>
    have owned := coherent.writing p i data asked
    have isValid := coherent.owned i (by simp [owned])
    have onDisk := (coherent.valid i isValid).1
    apply coherent.update_kept listed buf call
    · intro j
      simp only [asked, Call.refs]
    · exact ⟨fun _ => isValid, fun _ => ⟨onDisk, store_self.symm⟩, fun _ => isValid⟩
    · exact fun j different _ => store_of_ne (coherent.other_key onDisk different)
    · exact coherent.disk_stored onDisk buf rfl (.inr ⟨rfl, disk⟩)
    · rfl
    · exact nofun
    · exact nofun
    · exact fun q _ owner => owner
  | @release p i ready owned buf disk call _ =>
    apply coherent.update_kept listed buf call
    · intro j
      simp only [ready, owned, Call.refs, reduceCtorEq, ↓reduceIte]
      split <;> omega
    · exact ⟨fun held => absurd rfl held, coherent.valid i, coherent.dirty i⟩
    · exact fun j _ _ => rfl
    · exact coherent.disk_kept disk buf rfl id
    · rfl
    · exact nofun
    · exact nofun
    · intro q notP owner
      rw [owned] at owner
      exact absurd (Option.some.inj owner).symm notP
  | @unref p i asked buf disk call _ =>
    have counted := coherent.counted asked
    apply coherent.update_kept listed buf call
    · intro j
      simp only [asked, Call.refs]
      split <;> omega
    · exact { coherent.sound i with }
    · exact fun j _ _ => rfl
    · exact coherent.disk_kept disk buf rfl id
    · rfl
    · exact nofun
    · exact nofun
    · exact fun q _ owner => owner

end

end Coherent

theorem coherent_binit (n : Nat) (disk : BlockNo → Block) :
    Coherent (binit n disk) fun key => disk key.2 := by
  constructor <;> simp [binit, Call.refs]

theorem Coherent.step (coherent : Coherent s contents) (taken : step g s a = some t) :
    Coherent t (put contents (written s a)) :=
  coherent.change (step_change coherent.dirty taken)

end Xv6.Cache
