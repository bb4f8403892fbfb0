import Xv6.Cache.Commit

namespace Xv6.Cache

open Xv6.Data Xv6.Disk
open Xv6.Log (Home)

/-! # The cache refines a map

The map holds what processes and the log last stored; `install_trans` writes what
the map already holds.  That needs what the rest of the kernel keeps to: during a
commit no process writes a log block or a block of the transaction with `bwrite`, and
the checks of `log_write` are still true when it holds `log.lock`.
-/

variable {n : Nat} {g : Geometry} {s t : State n} {a : Action n} {contents : Key → Block}
  {p : Fin n} {i j : Slot} {event : Event}

def installs (s : State n) : Action n → Bool
  | .commit p =>
    match s.job p with
    | .gotSecond .installTrans _ _ _ => true
    | _ => false
  | _ => false

/-- What an action stores, as the user of the cache sees it. -/
def stored (s : State n) (a : Action n) : Event :=
  if installs s a then .quiet else written s a

/-- A `log_write` that has made its checks is for a block outside the log, and its
checks are still true. -/
def StillChecked (g : Geometry) (s : State n) : Call → Prop
  | .logging i _ =>
    Home g.log (s.buf i).blockno ∧ 1 ≤ s.outstanding ∧
      s.lh.length < Log.LOGSIZE ∧ s.lh.length < g.log.size - 1
  | _ => True

def Disciplined (g : Geometry) (s : State n) : Action n → Prop
  | .bwrite _ i _ => s.committing = true → Home g.log (s.buf i).blockno ∧ (s.buf i).blockno ∉ s.lh
  | .append p => StillChecked g s (s.call p)
  | _ => True

instance (g : Log.Geometry) (b : BlockNo) : Decidable (Home g b) :=
  decidable_of_iff (b ≠ g.start ∧ ∀ i < (g.size - 1).toNat, b ≠ g.logBlock i)
    (and_congr_right fun _ => forall_congr' fun _ => by rw [Int.lt_toNat])

instance (g : Geometry) (s : State n) : ∀ call, Decidable (StillChecked g s call)
  | .logging _ _ => inferInstanceAs (Decidable (_ ∧ _))
  | .ready | .locking _ _ | .leaving _ => isTrue trivial

instance (g : Geometry) (s : State n) : ∀ a, Decidable (Disciplined g s a)
  | .bwrite _ _ _ => inferInstanceAs (Decidable (_ → _))
  | .append p => inferInstanceAs (Decidable (StillChecked g s (s.call p)))
  | .bread _ _ _ | .lock _ | .logWrite _ _ _ | .brelse _ _ | .unref _ | .beginOp _ | .endOp _
  | .commit _ => isTrue trivial

theorem Committing.step (good : Committing g s contents) (coherent : Coherent s contents)
    (disciplined : Disciplined g s a) (taken : step g s a = some t) :
    Committing g t (put contents (written s a)) := by
  have ran := step_act taken
  have changed := step_change coherent.dirty taken
  cases a with
  | bread p dev b =>
    obtain ⟨free, ran⟩ := of_guard ran
    exact good.bread coherent free ran
  | lock p => exact good.lock coherent ran
  | bwrite p i data =>
    obtain ⟨guard, ran⟩ := of_guard ran
    exact good.bwrite coherent guard.1 disciplined ran
  | logWrite p i data =>
    obtain ⟨guard, ran⟩ := of_guard ran
    exact good.logWrite coherent guard.1 guard.2 ran
  | append p =>
    cases asked : s.call p with
    | logging i data =>
      simp only [Disciplined, asked, StillChecked] at disciplined
      obtain ⟨home, active, room, area⟩ := disciplined
      exact good.append asked home active room area ran
    | ready | locking i key | leaving i =>
      simp only [act, logWriteEnd, asked] at ran
      cases ran
  | brelse p i =>
    obtain ⟨guard, ran⟩ := of_guard ran
    exact good.brelse coherent guard.1 ran
  | unref p => exact good.unref coherent changed ran
  | beginOp p => exact good.beginOp (of_guard ran).2
  | endOp p => exact good.endOp (of_guard ran).2
  | commit p =>
    obtain ⟨ready, ran⟩ := of_guard ran
    exact good.commit coherent ready ran

/-- `install_trans` changes nothing in the map. -/
theorem Committing.stored_eq (good : Committing g s contents) (coherent : Coherent s contents) :
    put contents (stored s a) = put contents (written s a) := by
  cases a with
  | commit p =>
    have stage := good.stage p
    cases job : s.job p with
    | gotSecond which tail i j =>
      rw [job] at stage
      obtain ⟨progress, held, b, found, heldToo⟩ := stage
      cases which with
      | writeLog => simp [stored, installs, job]
      | installTrans =>
        simp only [stored, installs, written, job, ↓reduceIte, put, roundTarget,
          heldToo.key coherent, held.reads coherent]
        exact (progress.1.install found).symm
    | user | loop which tail | first which tail | gotFirst which tail i | second which tail i
    | copied which tail i j | half which tail k | head erase | getHead erase | gotHead erase i
    | wroteHead erase i | finish => simp [stored, installs, job]
  | bread p dev b | lock p | bwrite p i data | logWrite p i data | append p | brelse p i | unref p
  | beginOp p | endOp p => rfl

def contentsAfter (g : Geometry) (disk : BlockNo → Block) (actions : List (Action n)) : Key → Block :=
  ghost (step g) (fun s a contents => put contents (stored s a)) (binit n disk)
    (fun key => disk key.2) actions

structure Refines (g : Geometry) (s : State n) (contents : Key → Block) : Prop where
  coherent : Coherent s contents
  committing : Committing g s contents

theorem committing_binit (g : Geometry) (disk : BlockNo → Block) :
    Committing g (binit n disk) fun key => disk key.2 := by
  exact .of_users (fun _ => rfl) rfl Log.listed_nil (by simp [binit])

theorem run_refines {disk : BlockNo → Block} {actions : List (Action n)}
    (disciplined : Along (step g) (Disciplined g) (binit n disk) actions)
    (ran : exec (step g) (binit n disk) actions = some s) :
    Refines g s (contentsAfter g disk actions) := by
  apply ghost_invariant (Refines g) ⟨coherent_binit n disk, committing_binit g disk⟩ disciplined _ ran
  intro before contents action after refines isDisciplined taken
  have coherent := refines.coherent.step taken
  have committing := refines.committing.step refines.coherent isDisciplined taken
  rw [← refines.committing.stored_eq refines.coherent] at coherent committing
  exact ⟨coherent, committing⟩

theorem key_update {new : Buf n} (buf : t.buf = Function.update s.buf j new)
    (same : new.key = (s.buf j).key) (i : Slot) : (t.buf i).key = (s.buf i).key := by
  rw [buf]
  by_cases isJ : i = j
  · rw [isJ, Function.update_self, same]
  · rw [Function.update_of_ne isJ]

theorem Change.reassigned (changed : Change s t event) (other : (t.buf i).key ≠ (s.buf i).key) :
    (s.buf i).refcnt = 0 ∧ (s.buf i).dirty = false := by
  cases changed with
  | same buf disk call order | check ready owned buf disk call order =>
    rw [buf] at other
    exact absurd rfl other
  | hit ready buf disk call order | lock asked unowned fetched buf disk call order
  | write owned onDisk buf disk call order | pin asked buf disk call order
  | release ready owned buf disk call order | unref asked buf disk call order =>
    exact absurd (key_update buf rfl i) other
  | @recycle p k dev blockno ready absent unused clean buf disk call order =>
    by_cases same : i = k
    · rw [same]
      exact ⟨unused, clean⟩
    · rw [buf, Function.update_of_ne same] at other
      exact absurd rfl other

theorem Coherent.returns (coherent : Coherent s contents) (taken : Cache.step g s (.lock p) = some t) :
    ∃ i key, s.call p = .locking i key ∧ (t.buf i).owner = some p ∧ (t.buf i).key = key ∧
      (t.buf i).data = contents key := by
  obtain ⟨i, key, asked, unowned, fetched, equal⟩ := breadEnd_next coherent.dirty (step_act taken)
  have stands := coherent.asked p i key asked
  have reads := (coherent.fetched fetched).2
  refine ⟨i, key, asked, ?_⟩
  rw [equal]
  simp only [Function.update_self]
  rw [← stands]
  exact ⟨trivial, rfl, reads⟩

/-- When no transaction is listed, the disk holds the map. -/
theorem Refines.disk (refines : Refines g s contents) (empty : s.lh = []) (b : BlockNo) :
    s.disk b = contents (ROOTDEV, b) := by
  apply refines.coherent.disk
  intro i _
  by_contra dirty
  have member := refines.committing.pinned i (by simpa using dirty)
  simp [empty] at member

/-- The buffer cache behaves like a map from blocks to contents: `bread` returns what was
last written, no two buffers have one block, a buffer is given another block only if it
is neither referred to nor dirty, and after a commit the disk has what the map has. -/
theorem cache_refines_map {disk : BlockNo → Block} {actions : List (Action n)}
    (disciplined : Along (step g) (Disciplined g) (binit n disk) actions)
    (ran : exec (step g) (binit n disk) actions = some s) :
    (∀ p t, step g s (.lock p) = some t → ∃ i key, s.call p = .locking i key ∧
      (t.buf i).owner = some p ∧ (t.buf i).key = key ∧
      (t.buf i).data = contentsAfter g disk actions key) ∧
    (∀ i j, (s.buf i).dev ≠ 0 → (s.buf i).key = (s.buf j).key → i = j) ∧
    (∀ a t i, step g s a = some t → (t.buf i).key ≠ (s.buf i).key →
      (s.buf i).refcnt = 0 ∧ (s.buf i).dirty = false) ∧
    (∀ p t, s.job p = .finish → step g s (.commit p) = some t →
      ∀ b, t.disk b = contentsAfter g disk actions (ROOTDEV, b)) := by
  have refines := run_refines disciplined ran
  refine ⟨?_, refines.coherent.keys, ?_, ?_⟩
  · intro p t taken
    exact refines.coherent.returns taken
  · intro a t i taken other
    exact (step_change refines.coherent.dirty taken).reassigned other
  · intro p t finishing taken b
    have empty : s.lh = [] := by
      have stage := refines.committing.stage p
      rw [finishing] at stage
      exact stage
    have ran := step_act taken
    simp only [act] at ran
    split at ran
    · simp only [commit, finishing] at ran
      cases ran
      exact refines.disk empty b
    · cases ran

def imageDisk : Geometry := ⟨Log.imageLog, 1000⟩

def filled (byte : BitVec 8) : Block := fun _ => byte

local instance twoProcesses : NeZero 2 := ⟨by decide⟩

def committedRun : List (Action 2) :=
  [.beginOp 0, .bread 0 ROOTDEV 40, .lock 0, .logWrite 0 0 (filled 1), .append 0, .brelse 0 0, .unref 0,
    .endOp 0, .commit 0, .lock 0, .commit 0, .lock 0, .commit 0, .commit 0, .unref 0, .commit 0, .unref 0,
    .commit 0, .commit 0, .lock 0, .commit 0, .commit 0, .unref 0]

def bwriteRun (b : BlockNo) (i : Slot) : List (Action 2) :=
  [.bread 1 ROOTDEV b, .lock 1, .bwrite 1 i (filled 2), .brelse 1 i, .unref 1]

def installRun : List (Action 2) :=
  [.commit 0, .lock 0, .commit 0, .lock 0, .commit 0, .commit 0, .unref 0, .commit 0, .unref 0]

def eraseRun : List (Action 2) := [.commit 0, .commit 0, .lock 0, .commit 0, .commit 0, .unref 0]

theorem cache_refines_map_other_block : ∃ s : State 2,
      exec (step imageDisk) (binit 2 fun _ => .zero)
        (committedRun ++ bwriteRun 50 3 ++ installRun ++ eraseRun ++ [.bread 1 ROOTDEV 40]) = some s ∧
      (∀ p t, step imageDisk s (.lock p) = some t → ∃ i key, s.call p = .locking i key ∧
        (t.buf i).owner = some p ∧ (t.buf i).key = key ∧
        (t.buf i).data = contentsAfter imageDisk (fun _ => .zero)
          (committedRun ++ bwriteRun 50 3 ++ installRun ++ eraseRun ++ [.bread 1 ROOTDEV 40]) key) ∧
      (∀ p t, s.job p = .finish → step imageDisk s (.commit p) = some t →
        ∀ b, t.disk b = contentsAfter imageDisk (fun _ => .zero)
          (committedRun ++ bwriteRun 50 3 ++ installRun ++ eraseRun ++ [.bread 1 ROOTDEV 40])
          (ROOTDEV, b)) := by
  have runs : ((exec (step imageDisk) (binit 2 fun _ => .zero)
      (committedRun ++ bwriteRun 50 3 ++ installRun ++ eraseRun ++ [.bread 1 ROOTDEV 40])).map
        (·.job)) = some ![.finish, .user] := by
    decide +kernel
  obtain ⟨s, ran, _⟩ := Option.map_eq_some_iff.mp runs
  obtain ⟨returns, _, _, onDisk⟩ := cache_refines_map (by decide +kernel) ran
  exact ⟨s, ran, returns, onDisk⟩

def overwrittenRun : List (Action 2) :=
  committedRun ++ bwriteRun 40 0 ++ installRun ++ [.bread 1 ROOTDEV 40]

theorem bread_returns_older_contents : ∃ s t : State 2,
      exec (step imageDisk) (binit 2 fun _ => .zero) overwrittenRun = some s ∧
      step imageDisk s (.lock 1) = some t ∧ (t.buf 0).owner = some 1 ∧ (t.buf 0).key = (ROOTDEV, 40) ∧
      (t.buf 0).data ≠ contentsAfter imageDisk (fun _ => .zero) overwrittenRun (t.buf 0).key := by
  have returned : ((exec (step imageDisk) (binit 2 fun _ => .zero) overwrittenRun).bind fun s =>
      (step imageDisk s (.lock 1)).map fun t =>
        ((t.buf 0).owner, (t.buf 0).key, (t.buf 0).data 0)) = some (some 1, (ROOTDEV, 40), 1) := by
    decide +kernel
  have latest : contentsAfter imageDisk (fun _ => .zero) overwrittenRun (ROOTDEV, 40) 0 = 2 := by
    decide +kernel
  obtain ⟨s, ran, after⟩ := Option.bind_eq_some_iff.mp returned
  obtain ⟨t, taken, observed⟩ := Option.map_eq_some_iff.mp after
  simp only [Prod.mk.injEq] at observed
  obtain ⟨owner, key, byte⟩ := observed
  refine ⟨s, t, ran, taken, owner, key, fun same => ?_⟩
  rw [key] at same
  have equal := congrFun same 0
  rw [byte, latest] at equal
  exact absurd equal (by decide)

end Xv6.Cache
