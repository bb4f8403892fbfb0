import Xv6.Process.Updates

namespace Xv6.Process

open Xv6.Data

/-! # The MLQ rings

A push on a full ring overwrites the entry of a process that then is never found
again.
-/

variable {s t : State} {a : Action} {c : CpuId} {x p np : Slot} {ring ring' : Queue} {q : Int}

def IsRing (q : Int) : Prop :=
  q = QUEUE_DEFAULT ∨ q = QUEUE_PRIORITY_RR

instance : DecidablePred IsRing := fun _ => inferInstanceAs (Decidable (_ ∨ _))

def Proc.Queued (p : Proc) : Prop :=
  p.state ≠ .unused ∧ p.state ≠ .zombie

def MlqFinds (s : State) : Prop :=
  ∀ x, (s.proc x).Live →
    (IsRing (s.proc x).queueNumber → some x ∈ (s.queue (s.proc x).queueNumber).window NPROC) ∧
    ((s.proc x).queueNumber = QUEUE_PRIORITY ∨ (s.proc x).queueNumber = QUEUE_PRIORITY_REVERSE →
      0 < (s.queue (s.proc x).queueNumber).size)

def State.named (s : State) (pid : Int) : List Slot :=
  (List.finRange NPROC).filter fun x => (s.proc x).pid = pid

def State.pushes (s : State) : Action → Option (Int × List Slot)
  | .fork _ => (s.findSlot (·.state == .unused)).map fun np => (QUEUE_DEFAULT, [np])
  | .setqueue pid queue => some (queue, s.named pid)
  | _ => none

/-- The queue whose `size` an action raises, and by how much. -/
def State.raises (s : State) : Action → Option (Int × Nat)
  | .setPriority pid _ => if s.named pid = [] then none else some (QUEUE_PRIORITY, 1)
  | a => (s.pushes a).map fun (q, slots) => (q, slots.length)

def Within (limit : Int → Nat) (s : State) (a : Action) : Prop :=
  match s.raises a with
  | some (q, n) => (s.queue q).size + n ≤ limit q
  | none => True

def QueueArguments (_ : State) : Action → Prop
  | .setqueue _ q => 0 ≤ q ∧ q ≤ 3
  | _ => True

/-- A ring has `NPROC` entries; the other queues are only an `int` that counts. -/
def capacity (q : Int) : Nat := if IsRing q then NPROC else MAXINT

def Room (s : State) (a : Action) : Prop := QueueArguments s a ∧ Within capacity s a

instance : ∀ a, Decidable (QueueArguments s a)
  | .setqueue _ _ => inferInstanceAs (Decidable (_ ∧ _))
  | .tick | .wakeup _ | .kill _ | .setPriority _ _ | .changepolicy _ | .syscall _ _ _ | .fork _
  | .forkStack _ _ | .forkCopy _ _ | .forkReady _ | .exitBegin _ | .exitEnd _ | .wait _ | .sleep _ _
  | .yield _ | .resume _ | .pass _ | .scheduler _ => isTrue trivial

instance {limit : Int → Nat} : Decidable (Within limit s a) := by
  unfold Within
  split <;> infer_instance

instance : Decidable (Room s a) := inferInstanceAs (Decidable (_ ∧ _))

structure Rings (s : State) : Prop where
  aligned : ∀ q, IsRing q → (s.queue q).Aligned NPROC
  found : ∀ x, (s.proc x).Queued → IsRing (s.proc x).queueNumber →
    some x ∈ (s.queue (s.proc x).queueNumber).window NPROC
  counted : ∀ x, (s.proc x).Queued →
    (s.proc x).queueNumber = QUEUE_PRIORITY ∨ (s.proc x).queueNumber = QUEUE_PRIORITY_REVERSE →
    0 < (s.queue (s.proc x).queueNumber).size

theorem Proc.Live.queued {p : Proc} (live : p.Live) : p.Queued := by
  rcases live with state | state | state <;> simp [Proc.Queued, state]

theorem Rings.finds (good : Rings s) : MlqFinds s :=
  fun x live => ⟨good.found x live.queued, good.counted x live.queued⟩

theorem Proc.Queued.stays {p : Proc} (queued : p.Queued) (isRing : IsRing p.queueNumber) :
    p.leavesRings = false := by
  rcases isRing with isRing | isRing <;> simp [Proc.leavesRings, queued.1, queued.2, isRing]

theorem Scheduled.turned (effect : Scheduled s c t) : Turned s t.queue ∧ t.nextpid = s.nextpid := by
  cases effect with
  | moved turned | dispatched turned => exact ⟨turned, rfl⟩

inductive QueueChange (s : State) (a : Action) (queue : Int → Queue) : Prop
  | turned (turned : Turned s queue) (quiet : s.pushes a = none)
  | counted (raised : s.raises a = some (QUEUE_PRIORITY, 1)) (quiet : s.pushes a = none)
      (counts : queue = (s.countIn QUEUE_PRIORITY).queue)
  | pushed {q : Int} {slots : List Slot} (pushes : s.pushes a = some (q, slots)) (distinct : slots.Nodup)
      (filled : queue = Function.update s.queue q ((s.queue q).pushAll NPROC (slots.map some)))

theorem State.named_nodup (s : State) (pid : Int) : (s.named pid).Nodup :=
  (List.nodup_finRange NPROC).filter _

theorem setqueue_queue {pid queue : Int} :
    ((List.finRange NPROC).foldl (setqueueStep pid queue) s).queue =
      Function.update s.queue queue ((s.queue queue).pushAll NPROC ((s.named pid).map some)) := by
  rw [foldl_setqueueStep _ (List.nodup_finRange NPROC)]
  simp only [State.named, CircularBuffer.pushAll, List.foldl_map]

theorem setqueue_taken {pid queue : Int} (taken : step s (.setqueue pid queue) = some t) :
    t = (List.finRange NPROC).foldl (setqueueStep pid queue) s := by
  obtain ⟨_, ran⟩ := locked_next (step_eq_some.mp taken)
  cases Result.next.inj ran
  simp only [setqueue]

theorem allocproc_pushes {np : Slot} (allocated : allocproc s = some (np, t)) :
    s.pushes (.fork c) = some (QUEUE_DEFAULT, [np]) := by
  unfold allocproc at allocated
  split at allocated
  · contradiction
  · rename_i found
    cases allocated
    simp [State.pushes, found]

theorem allocproc_full (full : allocproc s = none) : s.pushes (.fork c) = none := by
  unfold allocproc at full
  split at full
  · next missing => simp [State.pushes, missing]
  · contradiction

theorem queueChange_of_step (sound : Sound s) (taken : step s a = some t) : QueueChange s a t.queue := by
  cases sound.effect taken with
  | tick | wakeup | kill | changepolicy | syscall | forkStack | forkCopy | forkReady | exitBegin
  | sleep | yield => exact .turned .same rfl
  | exitEnd => exact .turned (by rw [exitEnd_queue]; exact .same) rfl
  | @setPriority pid _ x _ found =>
    have named : s.named pid ≠ [] := List.ne_nil_of_mem (a := x) (by simp [State.named, found])
    exact .counted (if_neg named) rfl rfl
  | setqueue => exact .pushed rfl (s.named_nodup _) setqueue_queue
  | fork on free user unused allocated =>
    have pushes := allocproc_pushes (c := 0) allocated
    obtain ⟨_, rfl⟩ := allocproc_some allocated
    exact .pushed pushes (List.nodup_singleton _) rfl
  | wait => exact .turned (by rw [waitBody_queue]; exact .same) rfl
  | resume => exact .turned (by rw [resume_queue]; exact .same) rfl
  | pass free idle none effect => exact .turned effect.turned.1 rfl
  | scheduler held effect => exact .turned effect.turned.1 rfl
  | nothing noTick full =>
    cases a with
    | fork c => exact .turned .same (allocproc_full (full c rfl))
    | setqueue pid queue =>
      have same := setqueue_taken taken
      refine .pushed rfl (s.named_nodup _) ?_
      rw [← setqueue_queue]
      exact congrArg State.queue same
    | _ => exact .turned .same rfl

def Sized (limit : Int → Nat) (s : State) : Prop :=
  ∀ q, (s.queue q).size ≤ limit q

theorem capacity_pos (q : Int) : 0 < capacity q := by
  unfold capacity
  split <;> decide

theorem capacity_le (q : Int) : capacity q ≤ MAXINT := by
  unfold capacity
  split
  · decide
  · exact le_rfl

theorem Sized.fits (sized : Sized capacity s) (isRing : IsRing q) : (s.queue q).size ≤ NPROC := by
  have bound := sized q
  rwa [capacity, if_pos isRing] at bound

theorem Turned.size {queue : Int → Queue} (turned : Turned s queue) (r : Int) :
    (queue r).size ≤ (s.queue r).size := by
  cases turned with
  | same => exact le_rfl
  | @popped q found found' ring isRing run =>
    by_cases same : r = q
    · subst same
      rw [Function.update_self]
      exact popLoop_keeps (·.size ≤ (s.queue r).size) run le_rfl
        (fun _ _ _ _ _ => (Nat.sub_le ..).trans) fun _ _ => id
    · rw [Function.update_of_ne same]

theorem raises_of_pushes {slots : List Slot} (pushes : s.pushes a = some (q, slots)) :
    s.raises a = some (q, slots.length) := by
  cases a with
  | setPriority => cases pushes
  | _ => simp [State.raises, pushes]

theorem Sized.step {limit : Int → Nat} (sized : Sized limit s) (sound : Sound s) (within : Within limit s a)
    (taken : step s a = some t) : Sized limit t := by
  intro r
  cases queueChange_of_step sound taken with
  | turned turned quiet => exact (turned.size r).trans (sized r)
  | counted raised quiet counts =>
    rw [Within, raised] at within
    rw [counts]
    by_cases same : r = QUEUE_PRIORITY
    · simpa [State.countIn, same] using within
    · simpa [State.countIn, same] using sized r
  | @pushed q slots pushes distinct filled =>
    rw [Within, raises_of_pushes pushes] at within
    rw [filled]
    by_cases same : r = q
    · simpa [CircularBuffer.size_pushAll, same] using within
    · simpa [same] using sized r

theorem popLoop_members {found found' : Option Slot} (aligned : ring.Aligned NPROC) (fits : ring.size ≤ NPROC)
    (run : popLoop s ring.size ring found = some (ring', found')) : ring'.Aligned NPROC ∧ ring'.size ≤ NPROC ∧
      ∀ x, (s.proc x).leavesRings = false → some x ∈ ring.window NPROC → some x ∈ ring'.window NPROC := by
  refine popLoop_keeps (fun now => now.Aligned NPROC ∧ now.size ≤ NPROC ∧ ∀ x, (s.proc x).leavesRings = false →
    some x ∈ ring.window NPROC → some x ∈ now.window NPROC) run ⟨aligned, fits, fun _ _ => id⟩ ?_ ?_
  · rintro now y positive front leaves ⟨aligned, fits, keeps⟩
    refine ⟨aligned.drop positive, (Nat.sub_le ..).trans fits, fun x stays member => ?_⟩
    have member := keeps x stays member
    rw [CircularBuffer.window_drop aligned positive fits, front, List.mem_cons] at member
    rcases member with same | member
    · rw [Option.some.inj same, leaves] at stays
      contradiction
    · exact member
  · rintro now positive ⟨aligned, fits, keeps⟩
    refine ⟨aligned.rotate, fits, fun x stays member => ?_⟩
    have member := keeps x stays member
    rw [CircularBuffer.window_drop aligned positive fits, List.mem_cons] at member
    rw [CircularBuffer.window_rotate aligned positive fits, List.mem_append, List.mem_singleton]
    exact member.symm

def KeepsQueues (s t : State) : Prop :=
  ∀ x, (t.proc x).Queued → (s.proc x).Queued ∧ (t.proc x).queueNumber = (s.proc x).queueNumber

theorem keepsQueues_of_step (sound : Sound s) (taken : step s a = some t) (plain : ∀ pid q, a ≠ .setqueue pid q)
    (old : ∀ c, a ≠ .fork c) : KeepsQueues s t := by
  intro x
  apply (updates_of_step sound taken x).keeps
    (P := fun p => p.Queued → (s.proc x).Queued ∧ p.queueNumber = (s.proc x).queueNumber) _ fun queued => ⟨queued, rfl⟩
  intro p q update before queued
  cases update with
  | requeued is => exact absurd is (plain _ _)
  | allocated _ is => exact absurd is (old _)
  | adopted | enters => exact before queued
  | killed =>
    by_cases asleep : (s.proc x).state = .sleeping
    · exact ⟨by simp [Proc.Queued, asleep], rfl⟩
    · exact ⟨by simpa [Proc.Queued, Proc.killedAt, asleep] using queued, rfl⟩
  | @stacked kstack c embryo => exact ⟨by simp [Proc.Queued, embryo], by cases kstack <;> rfl⟩
  | @copied parent pgdir embryo => exact ⟨by simp [Proc.Queued, embryo], by cases pgdir <;> rfl⟩
  | ends => exact absurd rfl queued.2
  | reaped => exact absurd rfl queued.1
  | sleeps running => exact before (by simp [Proc.Queued, running])
  | woken state | ready _ state | yields state | dispatched state => exact ⟨by simp [Proc.Queued, state], rfl⟩
  | prioritized | counted | exits | stamped | awakes => exact ⟨queued, rfl⟩

/-- Entries stay findable while every ring keeps what the pop loop would keep
and no other queue shrinks. -/
theorem Rings.kept (good : Rings s) (kept : KeepsQueues s t)
    (rings : ∀ r, IsRing r → (t.queue r).Aligned NPROC ∧
      ∀ x, (s.proc x).leavesRings = false → some x ∈ (s.queue r).window NPROC →
        some x ∈ (t.queue r).window NPROC)
    (others : ∀ r, ¬ IsRing r → (s.queue r).size ≤ (t.queue r).size) : Rings t where
  aligned r isRing := (rings r isRing).1
  found x queued isRing := by
    obtain ⟨before, number⟩ := kept x queued
    rw [number] at isRing ⊢
    exact (rings _ isRing).2 x (before.stays isRing) (good.found x before isRing)
  counted x queued priority := by
    obtain ⟨before, number⟩ := kept x queued
    rw [number] at priority ⊢
    have positive := good.counted x before priority
    refine positive.trans_le (others _ ?_)
    rcases priority with priority | priority <;> rw [priority] <;> decide

theorem Rings.turned (good : Rings s) (sized : Sized capacity s) (kept : KeepsQueues s t)
    (turned : Turned s t.queue) : Rings t := by
  have same (r : Int) (unchanged : t.queue r = s.queue r) (isRing : IsRing r) :
      (t.queue r).Aligned NPROC ∧
        ∀ x, (s.proc x).leavesRings = false → some x ∈ (s.queue r).window NPROC →
          some x ∈ (t.queue r).window NPROC := by
    rw [unchanged]
    exact ⟨good.aligned r isRing, fun _ _ => id⟩
  generalize queues : t.queue = queue at turned
  cases turned with
  | same => exact good.kept kept (fun r => same r (by rw [queues])) fun r _ => by rw [queues]
  | @popped q found found' ring isRing run =>
    have other {r : Int} (different : r ≠ q) : t.queue r = s.queue r := by
      rw [queues, Function.update_of_ne different]
    have popped : t.queue q = ring := by rw [queues, Function.update_self]
    refine good.kept kept ?_ ?_
    · intro r isRing'
      by_cases different : r = q
      · subst different
        rw [popped]
        obtain ⟨aligned, -, keeps⟩ := popLoop_members (good.aligned r isRing) (sized.fits isRing) run
        exact ⟨aligned, keeps⟩
      · exact same r (other different) isRing'
    · intro r notRing
      rw [other]
      rintro rfl
      exact notRing isRing

theorem Rings.counted_in (good : Rings s) (kept : KeepsQueues s t)
    (queues : t.queue = (s.countIn QUEUE_PRIORITY).queue) : Rings t := by
  have other {r : Int} (different : r ≠ QUEUE_PRIORITY) : t.queue r = s.queue r := by
    rw [queues]
    exact Function.update_of_ne different _ _
  refine good.kept kept ?_ ?_
  · intro r isRing
    have different : r ≠ QUEUE_PRIORITY := by
      rintro rfl
      exact absurd isRing (by decide)
    rw [other different]
    exact ⟨good.aligned r isRing, fun _ _ => id⟩
  · intro r _
    by_cases same : r = QUEUE_PRIORITY
    · rw [same, queues]
      simp [State.countIn]
    · rw [other same]

theorem Rings.pushed (slots : List Slot) (good : Rings s)
    (queues : t.queue = Function.update s.queue q ((s.queue q).pushAll NPROC (slots.map some)))
    (room : (s.queue q).size + slots.length ≤ capacity q)
    (entries : ∀ x, (t.proc x).Queued → x ∈ slots ∧ (t.proc x).queueNumber = q ∨
      (s.proc x).Queued ∧ (t.proc x).queueNumber = (s.proc x).queueNumber) : Rings t := by
  have pushed : t.queue q = (s.queue q).pushAll NPROC (slots.map some) := by
    rw [queues, Function.update_self]
  have other {r : Int} (different : r ≠ q) : t.queue r = s.queue r := by
    rw [queues, Function.update_of_ne different]
  have window (isRing : IsRing q) :
      (t.queue q).window NPROC = (s.queue q).window NPROC ++ slots.map some := by
    rw [pushed]
    rw [capacity, if_pos isRing] at room
    exact CircularBuffer.window_pushAll (good.aligned q isRing) (by simpa using room)
  constructor
  · intro r isRing
    by_cases different : r = q
    · subst different
      rw [pushed]
      exact (good.aligned r isRing).pushAll
    · rw [other different]
      exact good.aligned r isRing
  · intro x queued isRing
    rcases entries x queued with ⟨member, number⟩ | ⟨before, number⟩
    · rw [number] at isRing ⊢
      rw [window isRing]
      exact List.mem_append_right _ (List.mem_map_of_mem member)
    · rw [number] at isRing ⊢
      have member := good.found x before isRing
      by_cases different : (s.proc x).queueNumber = q
      · rw [different] at member isRing ⊢
        rw [window isRing]
        exact List.mem_append_left _ member
      · rw [other different]
        exact member
  · intro x queued priority
    rcases entries x queued with ⟨member, number⟩ | ⟨before, number⟩
    · rw [number, pushed, CircularBuffer.size_pushAll, List.length_map]
      have := List.length_pos_of_mem member
      omega
    · rw [number] at priority ⊢
      have positive := good.counted x before priority
      by_cases different : (s.proc x).queueNumber = q
      · rw [different] at positive ⊢
        rw [pushed, CircularBuffer.size_pushAll]
        omega
      · rw [other different]
        exact positive

theorem Rings.fork (good : Rings s) (room : (s.queue QUEUE_DEFAULT).size + 1 ≤ capacity QUEUE_DEFAULT)
    (part : ForkPart s t p np (.forkStack np) ((s.proc np).allocated s.nextpid))
    (queues : t.queue = (s.enqueue QUEUE_DEFAULT np).queue) : Rings t := by
  refine good.pushed [np] queues room ?_
  intro x queued
  by_cases isChild : x = np
  · subst isChild
    exact .inl ⟨List.mem_singleton_self x, by rw [part.child]; rfl⟩
  · right
    by_cases isParent : x = p
    · rw [isParent, part.parent] at queued ⊢
      exact ⟨queued, rfl⟩
    · rw [part.others x isParent isChild] at queued ⊢
      exact ⟨queued, rfl⟩

theorem Rings.setqueue {pid : Int} (good : Rings s) (room : Within capacity s (.setqueue pid q)) :
    Rings ((List.finRange NPROC).foldl (setqueueStep pid q) s) := by
  refine good.pushed (s.named pid) setqueue_queue room ?_
  · rw [foldl_setqueueStep _ (List.nodup_finRange NPROC)]
    intro x queued
    by_cases named : (s.proc x).pid = pid
    · exact .inl ⟨by simp [State.named, named], by simp [named]⟩
    · simp only [named, and_false, if_false] at queued ⊢
      exact .inr ⟨queued, trivial⟩

theorem Rings.step (good : Rings s) (sized : Sized capacity s) (sound : Sound s) (room : Within capacity s a)
    (taken : step s a = some t) : Rings t := by
  have kept := keepsQueues_of_step sound taken
  have plain (other : ∀ pid q, a ≠ .setqueue pid q) (old : ∀ c, a ≠ .fork c) (queue : t.queue = s.queue) : Rings t :=
    good.turned sized (kept other old) (queue ▸ .same)
  cases sound.effect taken with
  | tick | wakeup | kill | changepolicy | syscall | forkStack | forkCopy | forkReady | exitBegin
  | sleep | yield => exact plain (by simp) (by simp) rfl
  | exitEnd => exact plain (by simp) (by simp) exitEnd_queue
  | setPriority => exact good.counted_in (kept (by simp) (by simp)) rfl
  | setqueue => exact good.setqueue room
  | @fork c _ _ _ on free user unused allocated =>
    have running := sound.cpus.running _ _ on (by simp [free])
    have part := ForkPart.first sound.forks running unused allocated
    have pushes := allocproc_pushes (c := c) allocated
    rw [Within, raises_of_pushes pushes] at room
    obtain ⟨_, rfl⟩ := allocproc_some allocated
    exact good.fork room part rfl
  | wait => exact plain (by simp) (by simp) waitBody_queue
  | resume => exact plain (by simp) (by simp) resume_queue
  | pass free idle none effect => exact good.turned sized (kept (by simp) (by simp)) effect.turned.1
  | scheduler held effect => exact good.turned sized (kept (by simp) (by simp)) effect.turned.1
  | nothing => exact good

theorem sized_userinit (ticks : Ticks) (kstack pgdir : Nat) {limit : Int → Nat} (room : ∀ q, 0 < limit q) :
    Sized limit (userinit ticks kstack pgdir) := by
  intro q
  rw [userinit_queue]
  split
  · exact room q
  · exact Nat.zero_le _

theorem rings_userinit (ticks : Ticks) (kstack pgdir : Nat) : Rings (userinit ticks kstack pgdir) := by
  have empty : emptyQueue.Aligned NPROC := ⟨by decide, by decide, by decide⟩
  have first : (userinit ticks kstack pgdir).queue QUEUE_DEFAULT = emptyQueue.push NPROC (some 0) :=
    userinit_queue ticks kstack pgdir QUEUE_DEFAULT
  have other {r : Int} (different : r ≠ QUEUE_DEFAULT) :
      (userinit ticks kstack pgdir).queue r = emptyQueue := by
    rw [userinit_queue, if_neg different]
  have init {x : Slot} (queued : ((userinit ticks kstack pgdir).proc x).Queued) :
      x = 0 ∧ ((userinit ticks kstack pgdir).proc x).queueNumber = QUEUE_DEFAULT := by
    by_cases isInit : x = 0
    · rw [isInit, userinit_proc_init]
      exact ⟨rfl, rfl⟩
    · rw [userinit_proc_other _ _ _ isInit] at queued
      exact absurd rfl queued.1
  constructor
  · intro r _
    by_cases different : r = QUEUE_DEFAULT
    · rw [different, first]
      exact empty.push
    · rw [other different]
      exact empty
  · intro x queued _
    obtain ⟨rfl, number⟩ := init queued
    rw [number, first]
    decide
  · intro x queued priority
    rw [(init queued).2] at priority
    exact absurd priority (by decide)

/-- In every run in which each push finds room in its ring and no `size` passes the
largest `int`, the MLQ branch can find every sleeping, runnable or running process. -/
theorem mlq_finds_with_room {ticks : Ticks} {kstack pgdir : Nat} {actions : List Action}
    (room : Along step Room (userinit ticks kstack pgdir) actions)
    (ran : exec step (userinit ticks kstack pgdir) actions = some s) :
    MlqFinds s ∧ ∀ q, (s.queue q).size ≤ MAXINT := by
  have good : Sound s ∧ Sized capacity s ∧ Rings s := by
    refine exec_invariant (fun s => Sound s ∧ Sized capacity s ∧ Rings s)
      ⟨sound_userinit ticks kstack pgdir, sized_userinit ticks kstack pgdir capacity_pos,
        rings_userinit ticks kstack pgdir⟩ room ?_ ran
    intro before action after good room taken
    exact ⟨good.1.step taken, good.2.1.step good.1 room.2 taken, good.2.2.step good.2.1 good.1 room.2 taken⟩
  exact ⟨good.2.2.finds, fun q => (good.2.1 q).trans (capacity_le q)⟩

def forkAndMove : List Action := firstDispatch ++ forkChild ++ [.setqueue 2 1]

theorem mlq_finds_with_room_child_moved : ∃ s,
    exec step (userinit 0 1 2) forkAndMove = some s ∧ (s.proc 1).state = .runnable ∧
    (s.proc 0).queueNumber = QUEUE_DEFAULT ∧ (s.proc 1).queueNumber = QUEUE_PRIORITY ∧ MlqFinds s ∧
    ∀ q, (s.queue q).size ≤ MAXINT := by
  have room : Along step Room (userinit 0 1 2) forkAndMove := by decide +kernel
  have observed : ((exec step (userinit 0 1 2) forkAndMove).map fun s =>
      ((s.proc 1).state, (s.proc 0).queueNumber, (s.proc 1).queueNumber)) =
      some (.runnable, QUEUE_DEFAULT, QUEUE_PRIORITY) := by decide +kernel
  obtain ⟨s, ran, seen⟩ := Option.map_eq_some_iff.mp observed
  simp only [Prod.mk.injEq] at seen
  exact ⟨s, ran, seen.1, seen.2.1, seen.2.2, mlq_finds_with_room room ran⟩

def flood : List Action := firstDispatch ++ [.setqueue 0 0, .setqueue 0 0]

theorem mlq_loses_init : ∃ s, exec step (userinit 0 1 2) flood = some s ∧
    (s.proc 0).state = .running ∧ (s.proc 0).queueNumber = QUEUE_DEFAULT ∧
    some 0 ∉ (s.queue QUEUE_DEFAULT).window NPROC := by
  have observed : ((exec step (userinit 0 1 2) flood).map fun s =>
      ((s.proc 0).state, (s.proc 0).queueNumber, decide (some 0 ∉ (s.queue QUEUE_DEFAULT).window NPROC))) =
      some (.running, QUEUE_DEFAULT, true) := by decide +kernel
  obtain ⟨s, ran, seen⟩ := Option.map_eq_some_iff.mp observed
  simp only [Prod.mk.injEq, decide_eq_true_eq] at seen
  exact ⟨s, ran, seen⟩

end Xv6.Process
