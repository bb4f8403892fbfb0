import Xv6.Process.Select

namespace Xv6.Process

open Xv6.Data

/-! # `scheduler`

Each function is the part of `scheduler()` between two points where the lock is
released or control passes to a process: one policy test, one body of the MLQ
loop, one entry of the table loop, one return from `swtch`.
-/

inductive Panic where
  | initExiting
  | switchuvmNoKstack
  | switchuvmNoPgdir
  | nullPointer
deriving DecidableEq, Repr

inductive Result where
  | next (state : State)
  | panic (why : Panic)
  | disabled

/-- The bookkeeping at each of the four dispatch sites; only the table loop
does not count the dispatch. -/
def Proc.dispatched (p : Proc) (ticks : Ticks) (counted : Bool) : Proc :=
  { p with
    readyTime := p.readyTime + (ticks - p.lastTime)
    state := .running
    lastTime := ticks
    scheduledTimes := if counted then Int.bmod (p.scheduledTimes + 1) (2 ^ 32) else p.scheduledTimes }

/-- `c->proc = x; switchuvm(x); ...; swtch(&(c->scheduler), x->context)`. -/
def dispatch (s : State) (c : CpuId) (x : Slot) (counted : Bool) (pc : SchedPc) : Result :=
  if (s.proc x).kstack = none then .panic .switchuvmNoKstack
  else if (s.proc x).pgdir = none then .panic .switchuvmNoPgdir
  else .next { (s.setCpu c ⟨some x, pc⟩).setProc x (·.dispatched s.ticks counted) with
    lock := .process c }

def State.schedulerAt (s : State) (c : CpuId) (pc : SchedPc) : State :=
  s.setCpu c { s.cpu c with scheduler := pc }

def State.release (s : State) (c : CpuId) : State :=
  { s.schedulerAt c .idle with lock := .free }

def State.swtchBack (s : State) (c : CpuId) : State :=
  s.setCpu c { s.cpu c with proc := none }

/-- The entries that the MLQ loop drops from a ring: dead slots and processes
that left the two ring queues. -/
def Proc.leavesRings (p : Proc) : Bool :=
  p.state == .unused || p.state == .zombie ||
    (p.queueNumber != QUEUE_DEFAULT && p.queueNumber != QUEUE_PRIORITY_RR)

/-- The inner `for (;;)` of the MLQ branch.  The first argument is the ring's
`size`: at zero the loop breaks and `p` keeps the entry dropped last. -/
def popLoop (s : State) : Nat → Queue → Option Slot → Option (Queue × Option Slot)
  | 0, ring, p => some (ring, p)
  | size + 1, ring, _ =>
    match ring.head with
    | none => none
    | some x =>
      if (s.proc x).leavesRings then popLoop s size (ring.drop NPROC) (some x)
      else some (ring.rotate NPROC, some x)

def newQueue (s : State) (c : CpuId) (i : Nat) : Int := (s.lastQueue c + i).tmod 4

/-- The end of the MLQ loop body: run `p` if it is set and runnable. -/
def mlqTail (s : State) (c : CpuId) (i : Nat) (q : Int) (p : Option Slot) : Result :=
  match p with
  | some x =>
    if (s.proc x).state = .runnable then dispatch s c x true (.mlqRing i q p)
    else .next (s.schedulerAt c (.mlq (i + 1) p))
  | none => .next (s.schedulerAt c (.mlq (i + 1) p))

/-- The body of `for (int i = 1; i <= 4; i++)` in the MLQ branch. -/
def mlqBody (s : State) (c : CpuId) (i : Nat) (p : Option Slot) : Result :=
  let q := newQueue s c i
  if (s.queue q).size = 0 then .next (s.schedulerAt c (.mlq (i + 1) p))
  else if q = QUEUE_DEFAULT ∨ q = QUEUE_PRIORITY_RR then
    match popLoop s (s.queue q).size (s.queue q) p with
    | none => .panic .nullPointer
    | some (ring, p) => mlqTail { s with queue := Function.update s.queue q ring } c i q p
  else
    match findPriority s (if q = QUEUE_PRIORITY then 1 else 2) with
    | some x => dispatch s c x true (.mlqSelected i q p)
    | none => mlqTail s c i q p

/-- One entry of the table loop of the remaining policies. -/
def tableBody (s : State) (c : CpuId) (k : Nat) : Result :=
  if inTable : k < NPROC then
    if (s.proc ⟨k, inTable⟩).state = .runnable then dispatch s c ⟨k, inTable⟩ false (.tableRun k)
    else .next (s.schedulerAt c (.table (k + 1)))
  else .next (s.release c)

/-- `acquire(&ptable.lock)` at the top of the loop and the test of `policy`. -/
def pass (s : State) (c : CpuId) : Result :=
  if s.policy = POLICY_PRIORITY then
    match findPriority s 3 with
    | some x => dispatch s c x true .priority
    | none => .next (s.release c)
  else if s.policy = POLICY_MLQ then
    .next { s.schedulerAt c (.mlq 1 none) with lock := .scheduler c }
  else .next { s.schedulerAt c (.table 0) with lock := .scheduler c }

/-- The scheduler runs with the lock held: either it is at a loop head, or a
process has just come back through `sched` and `c->proc` is cleared. -/
def schedulerStep (s : State) (c : CpuId) : Result :=
  match (s.cpu c).scheduler with
  | .idle => .disabled
  | .priority => .next ((s.swtchBack c).release c)
  | .mlq i p => if i ≤ 4 then mlqBody s c i p else .next (s.release c)
  | .mlqSelected i q p => mlqTail (s.swtchBack c) c i q p
  | .mlqRing i _ p => .next ((s.swtchBack c).schedulerAt c (.mlq (i + 1) p))
  | .table k => tableBody s c k
  | .tableRun k => .next ((s.swtchBack c).schedulerAt c (.table (k + 1)))

theorem popLoop_congr {s t : State} (same : s.proc = t.proc) (size : Nat) (ring : Queue)
    (p : Option Slot) : popLoop s size ring p = popLoop t size ring p := by
  induction size generalizing ring p with
  | zero => rfl
  | succ size ih =>
    simp only [popLoop, same]
    cases ring.head with
    | none => rfl
    | some x => simp only [ih]

/-- What dropping and rotating keep, the loop keeps. -/
theorem popLoop_keeps {s : State} {ring ring' : Queue} {found found' : Option Slot} (P : Queue → Prop)
    (run : popLoop s ring.size ring found = some (ring', found')) (start : P ring)
    (drops : ∀ ring y, 0 < ring.size → ring.head = some y → (s.proc y).leavesRings = true → P ring →
      P (ring.drop NPROC))
    (rotates : ∀ ring, 0 < ring.size → P ring → P (ring.rotate NPROC)) : P ring' := by
  generalize counted : ring.size = size at run
  induction size generalizing ring found with
  | zero =>
    cases run
    exact start
  | succ size ih =>
    have positive : 0 < ring.size := by omega
    cases front : ring.head with
    | none => simp [popLoop, front] at run
    | some y =>
      simp only [popLoop, front] at run
      split at run
      · rename_i leaves
        exact ih (drops ring y positive front leaves start) (by rw [CircularBuffer.size_drop]; omega) run
      · cases run
        exact rotates ring positive start

end Xv6.Process
