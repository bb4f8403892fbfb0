import Xv6.Process.Scheduler

namespace Xv6.Process

open Xv6.Data

/-! # Process calls

The functions of `proc.c` that change the table, cut where they release
`ptable.lock`.  A function takes the calling process and its CPU where the
source uses `myproc()` and `cpuid()`.
-/

/-! ## Creation -/

/-- What the locked part of `allocproc` writes into the slot it found. -/
def Proc.allocated (p : Proc) (pid : Int) : Proc :=
  { p with
    state := .embryo
    priority := 3
    scheduledTimes := 0
    queueNumber := QUEUE_DEFAULT
    pid := pid
    syscallhistory := [] }

/-- `allocproc` up to `release(&ptable.lock)`. -/
def allocproc (s : State) : Option (Slot × State) :=
  match s.findSlot (·.state == .unused) with
  | none => none
  | some np =>
    some (np, { (s.setProc np (·.allocated s.nextpid)).enqueue QUEUE_DEFAULT np with
      nextpid := s.nextpid + 1 })

/-- The rest of `allocproc`: the kernel stack, the first context, the clocks. -/
def Proc.stacked (p : Proc) (ticks : Ticks) (kstack : Option Nat) : Proc :=
  match kstack with
  | none => { p with kstack := none, state := .unused }
  | some stack =>
    { p with
      kstack := some stack
      context := .forkret
      inside := .user
      readyTime := 0
      runningTime := 0
      sleepTime := 0
      lastTime := ticks
      creationTime := ticks }

/-- `fork` from `copyuvm` up to the second `acquire(&ptable.lock)`. -/
def Proc.copied (p : Proc) (parent : Slot) (pgdir : Option Nat) : Proc :=
  match pgdir with
  | none => { p with pgdir := none, kstack := none, state := .unused }
  | some directory => { p with pgdir := some directory, parent := some parent }

/-! ## Sleep and wakeup -/

/-- `sched`: the process gives its CPU back to the scheduler, lock held. -/
def sched (s : State) (c : CpuId) (p : Slot) (saved : Saved) : State :=
  { s.setProc p ({ · with context := saved }) with
    lastQueue := Function.update s.lastQueue c (s.proc p).queueNumber
    lock := .scheduler c }

def Proc.asleep (p : Proc) (ticks : Ticks) (chan : Chan) : Proc :=
  { p with
    chan := some chan
    runningTime := if p.state = .running then p.runningTime + (ticks - p.lastTime) else p.runningTime
    readyTime := if p.state = .runnable then p.readyTime + (ticks - p.lastTime) else p.readyTime
    lastTime := ticks
    state := .sleeping }

def sleep (s : State) (c : CpuId) (p : Slot) (chan : Chan) : State :=
  sched (s.setProc p (·.asleep s.ticks chan)) c p .sleep

def Proc.woken (p : Proc) (ticks : Ticks) : Proc :=
  { p with
    sleepTime := p.sleepTime + (ticks - p.lastTime)
    state := .runnable
    lastTime := ticks }

def Proc.sleepsOn (p : Proc) (chan : Option Chan) : Bool :=
  p.state == .sleeping && p.chan == chan

def wakeup1 (s : State) (chan : Option Chan) : State :=
  { s with proc := fun x =>
      if (s.proc x).sleepsOn chan then (s.proc x).woken s.ticks else s.proc x }

/-- `yield` up to `sched`: the running time is charged, `last_time` stays. -/
def yield (s : State) (c : CpuId) (p : Slot) : State :=
  sched (s.setProc p fun q =>
    { q with runningTime := q.runningTime + (s.ticks - q.lastTime), state := .runnable }) c p .yield

/-! ## Exit and wait -/

/-- `exit` up to `acquire(&ptable.lock)`: the statistics are recorded and the
system-call history is freed. -/
def exitBegin (s : State) (p : Slot) : State :=
  { s.setProc p ({ · with terminationTime := s.ticks, syscallhistory := [], inside := .exit }) with
    infos := Function.update s.infos (s.proc p).pid {
      sleepTime := (s.proc p).sleepTime
      readyTime := (s.proc p).readyTime
      runningTime := (s.proc p).runningTime
      creationTime := (s.proc p).creationTime
      terminationTime := s.ticks } }

def adoptStep (cur : Slot) (s : State) (x : Slot) : State :=
  if (s.proc x).parent = some cur then
    let s := s.setProc x ({ · with parent := some s.initproc })
    if (s.proc x).state = .zombie then wakeup1 s (some (.proc s.initproc)) else s
  else s

/-- `exit` from `acquire(&ptable.lock)` on. -/
def exitEnd (s : State) (c : CpuId) (cur : Slot) : State :=
  let s := wakeup1 s ((s.proc cur).parent.map .proc)
  let s := (List.finRange NPROC).foldl (adoptStep cur) s
  sched (s.setProc cur ({ · with state := .zombie })) c cur .sleep

def Proc.reaped (p : Proc) : Proc :=
  { p with
    kstack := none
    pid := 0
    parent := none
    killed := false
    state := .unused }

inductive WaitOutcome where
  | found (child : Slot)
  | noPoint
  | sleep
deriving DecidableEq, Repr

def waitScan (s : State) (cur : Slot) : WaitOutcome :=
  match s.findSlot (fun p => p.parent == some cur && p.state == .zombie) with
  | some child => .found child
  | none =>
    if s.findSlot (fun p => p.parent == some cur) = none ∨ (s.proc cur).killed then .noPoint
    else .sleep

/-- The body of the `for (;;)` in `wait`, entered with the lock held. -/
def waitBody (s : State) (c : CpuId) (cur : Slot) : State :=
  match waitScan s cur with
  | .found child =>
    { (s.setProc child (·.reaped)).setProc cur ({ · with inside := .user }) with lock := .free }
  | .noPoint => { s.setProc cur ({ · with inside := .user }) with lock := .free }
  | .sleep => sleep (s.setProc cur ({ · with inside := .wait })) c cur (.proc cur)

/-! ## Calls on a pid

Each returns the C result with the new state; `-1` means that no slot has the
pid.
-/

def Proc.killedAt (p : Proc) (ticks : Ticks) : Proc :=
  { p with
    killed := true
    state := if p.state = .sleeping then .runnable else p.state
    sleepTime := if p.state = .sleeping then p.sleepTime + (ticks - p.lastTime) else p.sleepTime
    lastTime := ticks
    syscallhistory := [] }

def kill (s : State) (pid : Int) : Int × State :=
  match s.findSlot (·.pid == pid) with
  | some x => (0, s.setProc x (·.killedAt s.ticks))
  | none => (-1, s)

def Proc.prioritized (p : Proc) (priority : Int) : Proc :=
  { p with
    scheduledTimes := if p.priority ≠ priority then 0 else p.scheduledTimes
    priority := priority }

def State.countIn (s : State) (queue : Int) : State :=
  let counted : Queue := { s.queue queue with size := (s.queue queue).size + 1 }
  { s with queue := Function.update s.queue queue counted }

def setPriority (s : State) (pid priority : Int) : Int × State :=
  match s.findSlot (·.pid == pid) with
  | some x =>
    let t := s.setProc x (·.prioritized priority)
    if (t.proc x).queueNumber ≠ QUEUE_DEFAULT ∨ (t.proc x).queueNumber ≠ QUEUE_PRIORITY_RR then
      (pid, t.countIn QUEUE_PRIORITY)
    else (pid, t)
  | none => (-1, s)

/-- One entry of the loop of `setqueue`, which does not stop at the first match. -/
def setqueueStep (pid queue : Int) (s : State) (x : Slot) : State :=
  if (s.proc x).pid = pid then
    (s.setProc x ({ · with queueNumber := queue })).enqueue queue x
  else s

/-- An index above 3 is outside of the array of the source, which `sys_setqueue` does not
check; the calls of `Parameters` end there. -/
def setqueue (s : State) (pid queue : Int) : Int × State :=
  (if s.findSlot (·.pid == pid) = none then -1 else pid,
    (List.finRange NPROC).foldl (setqueueStep pid queue) s)

def changepolicy (s : State) (p : Int) : Int × State :=
  if p < 0 ∨ p > 3 then (-1, s) else (p, { s with policy := p })

/-! ## System-call history -/

/-- `updatesyscallhistory`: count the call in its node, or append a new node
when `newcounter` gets a page. -/
def updatesyscallhistory (num : Int) (allocated : Bool) : List SyscallCounter → List SyscallCounter
  | [] => if allocated then [⟨num, 1⟩] else []
  | counter :: rest =>
    if counter.num = num then { counter with count := counter.count + 1 } :: rest
    else counter :: updatesyscallhistory num allocated rest

/-! ## The first process -/

def emptyQueue : Queue where
  front := 0
  rear := NPROC - 1
  size := 0
  array := fun _ => none

/-- The zeroed kernel data that `userinit` starts from, with its queues reset. -/
def boot (ticks : Ticks) : State where
  proc := fun _ => {}
  queue := fun _ => emptyQueue
  lastQueue := fun _ => 0
  policy := POLICY_MLQ
  initproc := 0
  nextpid := 1
  ticks := ticks
  infos := fun _ => {}
  cpu := fun _ => {}
  lock := .free

/-- `userinit`, given the pages `kalloc` and `setupkvm` return to it. -/
def userinit (ticks : Ticks) (kstack pgdir : Nat) : State :=
  match allocproc (boot ticks) with
  | some (p, s) =>
    { s.setProc p fun q => { q.stacked ticks (some kstack) with
        pgdir := some pgdir, state := .runnable } with initproc := p }
  | none => boot ticks

/-! ## What the table loops come to -/

variable {s : State} {cur x : Slot} {chan : Option Chan} {pid queue : Int}

theorem exitBegin_proc : (exitBegin s cur).proc x =
    if x = cur then { s.proc cur with terminationTime := s.ticks, syscallhistory := [], inside := .exit }
    else s.proc x :=
  Function.update_apply ..

theorem wakeup1_proc : (wakeup1 s chan).proc x =
    if (s.proc x).sleepsOn chan then (s.proc x).woken s.ticks else s.proc x := rfl

@[simp] theorem Proc.sleepsOn_woken (p : Proc) (ticks : Ticks) :
    (p.woken ticks).sleepsOn chan = false := by
  simp [Proc.sleepsOn, Proc.woken]

@[simp] theorem Proc.sleepsOn_parent (p : Proc) (parent : Option Slot) :
    ({ p with parent } : Proc).sleepsOn chan = p.sleepsOn chan := rfl

/-- An entry after the adoption loop: woken if init slept and a zombie was
passed to it, and init's child if it was the exiting process's. -/
def Proc.adopted (p : Proc) (init : Slot) (ticks : Ticks) (wakes child : Bool) : Proc :=
  let p := if wakes && p.sleepsOn (some (.proc init)) then p.woken ticks else p
  if child then { p with parent := some init } else p

theorem Proc.adopted_parent (p : Proc) (init : Slot) (ticks : Ticks) (wakes child : Bool) :
    (p.adopted init ticks wakes child).parent = if child then some init else p.parent := by
  cases child <;> simp only [Proc.adopted, if_true, Bool.false_eq_true, if_false]
  split <;> rfl

theorem Proc.adopted_state (p : Proc) (init : Slot) (ticks : Ticks) (wakes child : Bool) :
    (p.adopted init ticks wakes child).state =
      if wakes ∧ p.sleepsOn (some (.proc init)) then .runnable else p.state := by
  cases wakes <;> cases child <;> cases sleeps : p.sleepsOn (some (.proc init)) <;>
    simp [Proc.adopted, sleeps, Proc.woken]

theorem Proc.adopted_adopted (p : Proc) (init : Slot) (ticks : Ticks) (wakes child wakes' child' : Bool) :
    (p.adopted init ticks wakes child).adopted init ticks wakes' child' =
      p.adopted init ticks (wakes || wakes') (child || child') := by
  cases sleeps : p.sleepsOn (some (.proc init)) <;> cases wakes <;> cases child <;>
    cases wakes' <;> cases child' <;> simp [Proc.adopted, sleeps]
  all_goals simp [Proc.woken]

def zombieChildIn (slots : List Slot) (cur : Slot) (s : State) : Bool :=
  slots.any fun z => (s.proc z).parent = some cur ∧ (s.proc z).state = .zombie

def adopted (slots : List Slot) (cur : Slot) (s : State) : State :=
  { s with
    proc := fun x =>
      (s.proc x).adopted s.initproc s.ticks (zombieChildIn slots cur s)
        (x ∈ slots ∧ (s.proc x).parent = some cur) }

theorem adoptStep_eq (s : State) (z : Slot) : adoptStep cur s z = adopted [z] cur s := by
  by_cases child : (s.proc z).parent = some cur
  · by_cases dead : (s.proc z).state = .zombie
    · simp only [adoptStep, if_pos child, State.setProc_proc_self, dead, if_true]
      simp only [adopted, wakeup1, State.setProc]
      congr 1
      funext x
      by_cases same : x = z
      · subst same
        simp [child, dead, Proc.sleepsOn, Proc.adopted]
      · simp [same, child, dead, Proc.adopted, zombieChildIn]
    · simp only [adoptStep, if_pos child, State.setProc_proc_self, dead, if_false]
      simp only [adopted, State.setProc]
      congr 1
      funext x
      by_cases same : x = z
      · subst same
        simp [child, dead, Proc.adopted, zombieChildIn]
      · simp [same, dead, Proc.adopted, zombieChildIn]
  · have none : ∀ x, ¬ (x = z ∧ (s.proc x).parent = some cur) := by
      rintro x ⟨rfl, is⟩
      exact child is
    simp [adoptStep, adopted, child, Proc.adopted, zombieChildIn, none]

theorem adopted_cons {z : Slot} {rest : List Slot} (fresh : z ∉ rest) (s : State) :
    adopted rest cur (adopted [z] cur s) = adopted (z :: rest) cur s := by
  have others : ∀ y ∈ rest, ((adopted [z] cur s).proc y).parent = (s.proc y).parent := by
    intro y member
    have other : y ≠ z := fun same => fresh (same ▸ member)
    simp [adopted, Proc.adopted_parent, other]
  have zombie : ∀ y, ((adopted [z] cur s).proc y).state = .zombie ↔ (s.proc y).state = .zombie := by
    intro y
    simp only [adopted, Proc.adopted_state]
    split <;> simp_all [Proc.sleepsOn]
  have remaining : zombieChildIn rest cur (adopted [z] cur s) = zombieChildIn rest cur s := by
    rw [Bool.eq_iff_iff]
    simp only [zombieChildIn, List.any_eq_true, decide_eq_true_eq, zombie]
    constructor
    · rintro ⟨y, member, child, dead⟩
      exact ⟨y, member, others y member ▸ child, dead⟩
    · rintro ⟨y, member, child, dead⟩
      exact ⟨y, member, (others y member).symm ▸ child, dead⟩
  have wakes : zombieChildIn (z :: rest) cur s =
      (zombieChildIn [z] cur s || zombieChildIn rest cur s) := by
    simp [zombieChildIn]
  have table : ∀ x, ((adopted rest cur (adopted [z] cur s)).proc x) =
      (adopted (z :: rest) cur s).proc x := by
    intro x
    change (((s.proc x).adopted s.initproc s.ticks _ _).adopted s.initproc s.ticks _ _) =
      (s.proc x).adopted s.initproc s.ticks _ _
    rw [Proc.adopted_adopted, remaining, wakes]
    congr 1
    by_cases same : x = z
    · simp [same, fresh]
    · by_cases member : x ∈ rest
      · simp [same, member, others x member]
      · simp [same, member]
  exact congrArg (fun table => { s with proc := table }) (funext table)

theorem foldl_adoptStep (slots : List Slot) (distinct : slots.Nodup) (s : State) :
    slots.foldl (adoptStep cur) s = adopted slots cur s := by
  induction slots generalizing s with
  | nil => simp [adopted, Proc.adopted, zombieChildIn]
  | cons z rest ih =>
    obtain ⟨fresh, distinct⟩ := List.nodup_cons.mp distinct
    rw [List.foldl_cons, ih distinct, adoptStep_eq, adopted_cons fresh]

theorem foldl_setqueueStep (slots : List Slot) (distinct : slots.Nodup) (s : State) :
    slots.foldl (setqueueStep pid queue) s =
      { s with
        proc := fun x =>
          if x ∈ slots ∧ (s.proc x).pid = pid then { s.proc x with queueNumber := queue }
          else s.proc x
        queue := Function.update s.queue queue
          ((slots.filter fun x => (s.proc x).pid = pid).foldl
            (fun ring x => ring.push NPROC (some x)) (s.queue queue)) } := by
  induction slots generalizing s with
  | nil => simp
  | cons z rest ih =>
    obtain ⟨fresh, distinct⟩ := List.nodup_cons.mp distinct
    rw [List.foldl_cons, ih distinct]
    by_cases named : (s.proc z).pid = pid
    · have pids : ∀ x, ((setqueueStep pid queue s z).proc x).pid = (s.proc x).pid := by
        intro x
        simp only [setqueueStep, if_pos named, State.enqueue_proc, State.setProc_proc]
        split
        · next same => rw [same]
        · rfl
      simp only [pids]
      simp only [setqueueStep, State.setProc, State.enqueue, List.filter_cons, named,
        decide_true, if_true, List.foldl_cons, Function.update_self, Function.update_idem]
      congr 1
      funext x
      by_cases same : x = z
      · subst same
        simp [fresh, named]
      · simp [same]
    · simp only [setqueueStep, if_neg named]
      congr 1
      · funext x
        by_cases same : x = z
        · subst same
          simp [fresh, named]
        · simp [same]
      · simp [named]

/-- Who is woken by an exit: the parent if it waits, and init if it waits and
inherits a zombie. -/
def State.exitWakes (s : State) (cur x : Slot) : Bool :=
  (s.proc x).sleepsOn ((s.proc cur).parent.map .proc) ||
    (zombieChildIn (List.finRange NPROC) cur s && (s.proc x).sleepsOn (some (.proc s.initproc)))

def State.heir (s : State) (cur x : Slot) : Option Slot :=
  if (s.proc x).parent = some cur then some s.initproc else (s.proc x).parent

theorem Proc.sleepsOn_state {p : Proc} (sleeps : p.sleepsOn chan = true) : p.state = .sleeping := by
  simp only [Proc.sleepsOn, Bool.and_eq_true, beq_iff_eq] at sleeps
  exact sleeps.1

theorem State.exitWakes_state (wakes : s.exitWakes cur x = true) : (s.proc x).state = .sleeping := by
  simp only [State.exitWakes, Bool.or_eq_true, Bool.and_eq_true] at wakes
  rcases wakes with sleeps | ⟨_, sleeps⟩ <;> exact Proc.sleepsOn_state sleeps

theorem adopted_wakeup1 : (adopted (List.finRange NPROC) cur (wakeup1 s chan)).proc x =
    { (if (s.proc x).sleepsOn chan || (zombieChildIn (List.finRange NPROC) cur s &&
        (s.proc x).sleepsOn (some (.proc s.initproc))) then (s.proc x).woken s.ticks else s.proc x) with
      parent := s.heir cur x } := by
  have zombies : zombieChildIn (List.finRange NPROC) cur (wakeup1 s chan) =
      zombieChildIn (List.finRange NPROC) cur s := by
    unfold zombieChildIn
    congr 1
    funext z
    rw [wakeup1_proc]
    cases sleeps : (s.proc z).sleepsOn chan
    · simp
    · simp [Proc.woken, Proc.sleepsOn_state sleeps]
  simp only [adopted, zombies, wakeup1_proc, State.heir]
  simp only [wakeup1]
  by_cases sleeps : (s.proc x).sleepsOn chan = true <;>
    by_cases wakes : zombieChildIn (List.finRange NPROC) cur s = true <;>
    by_cases init : (s.proc x).sleepsOn (some (.proc s.initproc)) = true <;>
    by_cases child : (s.proc x).parent = some cur <;>
    simp [Proc.adopted, sleeps, wakes, init, child, Proc.woken]

variable {c : CpuId}

theorem exitEnd_proc (other : x ≠ cur) : (exitEnd s c cur).proc x =
    { (if s.exitWakes cur x then (s.proc x).woken s.ticks else s.proc x) with
      parent := s.heir cur x } := by
  simp only [exitEnd, sched, State.setProc_proc, if_neg other,
    foldl_adoptStep _ (List.nodup_finRange NPROC), adopted_wakeup1]
  rfl

theorem exitEnd_proc_self (running : (s.proc cur).state = .running) : (exitEnd s c cur).proc cur =
      { s.proc cur with state := .zombie, context := .sleep, parent := s.heir cur cur } := by
  have awake (chan : Option Chan) : (s.proc cur).sleepsOn chan = false := by
    simp [Proc.sleepsOn, running]
  simp only [exitEnd, sched, State.setProc_proc_self, foldl_adoptStep _ (List.nodup_finRange NPROC),
    adopted_wakeup1, awake, Bool.and_false, Bool.or_self, Bool.false_eq_true, if_false]

@[simp] theorem exitEnd_cpu : (exitEnd s c cur).cpu = s.cpu := by
  simp only [exitEnd, sched, foldl_adoptStep _ (List.nodup_finRange NPROC)]
  rfl

@[simp] theorem exitEnd_queue : (exitEnd s c cur).queue = s.queue := by
  simp only [exitEnd, sched, foldl_adoptStep _ (List.nodup_finRange NPROC)]
  rfl

@[simp] theorem exitEnd_initproc : (exitEnd s c cur).initproc = s.initproc := by
  simp only [exitEnd, sched, foldl_adoptStep _ (List.nodup_finRange NPROC)]
  rfl

@[simp] theorem exitEnd_nextpid : (exitEnd s c cur).nextpid = s.nextpid := by
  simp only [exitEnd, sched, foldl_adoptStep _ (List.nodup_finRange NPROC)]
  rfl

@[simp] theorem exitEnd_ticks : (exitEnd s c cur).ticks = s.ticks := by
  simp only [exitEnd, sched, foldl_adoptStep _ (List.nodup_finRange NPROC)]
  rfl

@[simp] theorem exitEnd_lock : (exitEnd s c cur).lock = .scheduler c := by
  simp only [exitEnd, sched]

/-! ## What a scan in `wait` finds -/

theorem waitScan_found {child : Slot} (scanned : waitScan s cur = .found child) :
    (s.proc child).parent = some cur ∧ (s.proc child).state = .zombie := by
  unfold waitScan at scanned
  split at scanned
  · rename_i found
    cases scanned
    simpa using State.findSlot_some found
  · split at scanned <;> contradiction

theorem waitScan_sleep (scanned : waitScan s cur = .sleep) :
    ∀ x, (s.proc x).parent = some cur → (s.proc x).state ≠ .zombie := by
  unfold waitScan at scanned
  split at scanned
  · contradiction
  · rename_i missing
    intro x child zombie
    simpa [child, zombie] using State.findSlot_none missing x

section

variable {c : CpuId}

@[simp] theorem waitBody_queue : (waitBody s c cur).queue = s.queue := by
  unfold waitBody
  split <;> rfl

@[simp] theorem waitBody_cpu : (waitBody s c cur).cpu = s.cpu := by
  unfold waitBody
  split <;> rfl

@[simp] theorem waitBody_ticks : (waitBody s c cur).ticks = s.ticks := by
  unfold waitBody
  split <;> rfl

end

end Xv6.Process
