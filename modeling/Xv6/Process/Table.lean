import Xv6.Data.CircularBuffer
import Xv6.Data.Trace

namespace Xv6.Process

open Xv6.Data

/-! # Process table, scheduling queues and CPUs

The state that `proc.c` keeps under `ptable.lock`.  Tick arithmetic is the unsigned
32-bit arithmetic of the source, and `scheduled_times` wraps as an `int`.  `nextpid` and
the `size` of a queue are the numbers counted; they are the `int`s of the source up to
`MAXINT`.  Arrays that the source indexes without a bounds check are maps on the whole
index type.
-/

abbrev NPROC : Nat := 64

scoped instance : NeZero NPROC := ⟨by decide⟩

abbrev Slot := Fin NPROC

abbrev CpuId := Nat

abbrev Ticks := BitVec 32

def MAXINT : Nat := 2 ^ 31 - 1

def POLICY_PRIORITY : Int := 2
def POLICY_MLQ : Int := 3

def QUEUE_DEFAULT : Int := 0
def QUEUE_PRIORITY : Int := 1
def QUEUE_PRIORITY_REVERSE : Int := 2
def QUEUE_PRIORITY_RR : Int := 3

inductive ProcState where
  | unused | embryo | sleeping | runnable | running | zombie
deriving DecidableEq, Repr

/-- What a process sleeps on: its own table entry inside `wait`, or any other
kernel address. -/
inductive Chan where
  | proc (slot : Slot)
  | addr (address : Nat)
deriving DecidableEq, Repr

/-- Which kernel function of several atomic parts the process is inside of. -/
inductive Activity where
  | user
  | forkStack (np : Slot)
  | forkCopy (np : Slot)
  | forkReady (np : Slot)
  | exit
  | wait
deriving DecidableEq, Repr

/-- Where `p->context` goes on when the scheduler switches to the process. -/
inductive Saved where
  | forkret | yield | sleep
deriving DecidableEq, Repr

structure SyscallCounter where
  num : Int
  count : Int
deriving DecidableEq, Repr

structure Proc where
  pgdir : Option Nat := none
  kstack : Option Nat := none
  state : ProcState := .unused
  pid : Int := 0
  parent : Option Slot := none
  context : Saved := .forkret
  inside : Activity := .user
  chan : Option Chan := none
  killed : Bool := false
  syscallhistory : List SyscallCounter := []
  priority : Int := 0
  queueNumber : Int := 0
  scheduledTimes : Int := 0
  creationTime : Ticks := 0
  runningTime : Ticks := 0
  readyTime : Ticks := 0
  sleepTime : Ticks := 0
  terminationTime : Ticks := 0
  lastTime : Ticks := 0

structure Info where
  creationTime : Ticks := 0
  runningTime : Ticks := 0
  readyTime : Ticks := 0
  sleepTime : Ticks := 0
  terminationTime : Ticks := 0
deriving DecidableEq, Repr

abbrev Queue := CircularBuffer (Option Slot)

/-- The scheduler's place in its loop, with the locals that survive a switch:
the iteration `i`, the queue whose turn it is, and the pointer `p`. -/
inductive SchedPc where
  | idle
  | priority
  | mlq (i : Nat) (p : Option Slot)
  | mlqSelected (i : Nat) (newQueue : Int) (p : Option Slot)
  | mlqRing (i : Nat) (newQueue : Int) (p : Option Slot)
  | table (k : Nat)
  | tableRun (k : Nat)
deriving DecidableEq, Repr

structure Cpu where
  proc : Option Slot := none
  scheduler : SchedPc := .idle
deriving DecidableEq, Repr

/-- `ptable.lock`: free, or held by a CPU that runs its scheduler loop, or by
one that has just switched to a process. -/
inductive Lock where
  | free
  | scheduler (cpu : CpuId)
  | process (cpu : CpuId)
deriving DecidableEq, Repr

structure State where
  proc : Slot → Proc
  queue : Int → Queue
  lastQueue : CpuId → Int
  policy : Int
  initproc : Slot
  nextpid : Int
  ticks : Ticks
  infos : Int → Info
  cpu : CpuId → Cpu
  lock : Lock

namespace State

def setProc (s : State) (x : Slot) (f : Proc → Proc) : State :=
  { s with proc := Function.update s.proc x (f (s.proc x)) }

def setCpu (s : State) (c : CpuId) (v : Cpu) : State :=
  { s with cpu := Function.update s.cpu c v }

/-- `rear` steps, the slot is stored there and `size` counts it. -/
def enqueue (s : State) (q : Int) (x : Slot) : State :=
  { s with queue := Function.update s.queue q ((s.queue q).push NPROC (some x)) }

def findSlot (s : State) (test : Proc → Bool) : Option Slot :=
  (List.finRange NPROC).find? fun x => test (s.proc x)

variable {s : State} {x y : Slot} {c d : CpuId} {f : Proc → Proc} {v : Cpu} {q r : Int}

theorem setProc_proc : (s.setProc x f).proc y = if y = x then f (s.proc x) else s.proc y :=
  Function.update_apply ..

@[simp] theorem setProc_proc_self : (s.setProc x f).proc x = f (s.proc x) :=
  Function.update_self ..

theorem update_rel {R : Proc → Proc → Prop} {old new : Slot → Proc} {p : Proc} (refl : ∀ p, R p p)
    (table : new = Function.update old x p) (changed : R (old x) p) (y : Slot) : R (old y) (new y) := by
  rw [table, Function.update_apply]
  split
  · next same => exact same ▸ changed
  · exact refl _

@[simp] theorem setProc_queue : (s.setProc x f).queue = s.queue := rfl
@[simp] theorem setProc_cpu : (s.setProc x f).cpu = s.cpu := rfl
theorem setCpu_cpu : (s.setCpu c v).cpu d = if d = c then v else s.cpu d :=
  Function.update_apply ..

@[simp] theorem setCpu_cpu_self : (s.setCpu c v).cpu c = v := Function.update_self ..

theorem enqueue_queue : (s.enqueue q x).queue r =
    if r = q then (s.queue q).push NPROC (some x) else s.queue r :=
  Function.update_apply ..

@[simp] theorem enqueue_proc : (s.enqueue q x).proc = s.proc := rfl
theorem findSlot_some {test : Proc → Bool} (found : s.findSlot test = some x) :
    test (s.proc x) = true :=
  List.find?_some (p := fun x => test (s.proc x)) found

theorem findSlot_none {test : Proc → Bool} (missing : s.findSlot test = none) (x : Slot) :
    test (s.proc x) = false := by
  simpa using List.find?_eq_none.mp missing x (List.mem_finRange x)

end State

end Xv6.Process
