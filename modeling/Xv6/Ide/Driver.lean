import Xv6.Cache.Machine
import Xv6.Data.LinkedQueue
import Xv6.Data.Trace

namespace Xv6.Ide

open Xv6.Data Xv6.Disk Xv6.Cache

/-! # The disk driver

`ide.c`: the queue of requests, the processes inside `iderw`, and the device.  A
process runs from where it takes `idelock` to where it sleeps or returns, and so does
the interrupt handler.  The device carries out the command in its registers at some
time after it was started, raises one interrupt for it and never reports an error.
-/

abbrev FSSIZE : Nat := 1000

abbrev SECTOR_SIZE : Nat := 512

structure Registers where
  count : BitVec 8
  low : BitVec 8
  middle : BitVec 8
  high : BitVec 8
  device : BitVec 8
  command : BitVec 8
deriving DecidableEq, Repr

def IDE_CMD_READ : BitVec 8 := 0x20

def IDE_CMD_WRITE : BitVec 8 := 0x30

def IDE_CMD_RDMUL : BitVec 8 := 0xc4

def IDE_CMD_WRMUL : BitVec 8 := 0xc5

/-- Bit 4 of the device register selects the disk, bits 0 to 3 are the top of the
sector number. -/
def Registers.drive (registers : Registers) : Bool := registers.device.getLsbD 4

def Registers.sector (registers : Registers) : Nat :=
  registers.low.toNat + 2 ^ 8 * registers.middle.toNat + 2 ^ 16 * registers.high.toNat +
    2 ^ 24 * (registers.device.toNat % 16)

def Registers.writes (registers : Registers) : Bool :=
  registers.command = IDE_CMD_WRITE || registers.command = IDE_CMD_WRMUL

/-- The device does nothing, works on a command with the data that it was sent,
or has done it and holds the data of the sector. -/
inductive Device where
  | idle
  | working (registers : Registers) (data : Block)
  | finished (registers : Registers) (data : Block)

def Device.registers : Device → Option Registers
  | .idle => none
  | .working registers _ => some registers
  | .finished registers _ => some registers

/-- Where a process is: outside `iderw`, past its checks and about to take
`idelock`, asleep on the buffer, or woken up. -/
inductive Op where
  | outside
  | calling (b : Slot)
  | sleeping (b : Slot)
  | woken (b : Slot)
deriving DecidableEq, Repr

def Op.buffer : Op → Option Slot
  | .outside => none
  | .calling b => some b
  | .sleeping b => some b
  | .woken b => some b

/-- `idequeue` is the head of `queue`, and `b->qnext` the link in an entry. -/
structure State (n : Nat) where
  buf : Slot → Buf n
  queue : LinkedQueue Slot
  disk : Bool → BlockNo → Block
  device : Device
  ops : Fin n → Op
  havedisk1 : Bool

inductive Panic where
  | bufNotLocked | nothingToDo | disk1NotPresent | idestart | incorrectBlockno
deriving DecidableEq, Repr

inductive Result (n : Nat) where
  | next (s : State n)
  | panic (message : Panic)
  | loops
  | disabled

variable {n : Nat}

def State.setOp (s : State n) (p : Fin n) (op : Op) : State n := { s with ops := Function.update s.ops p op }

def State.setBuf (s : State n) (b : Slot) (f : Buf n → Buf n) : State n :=
  { s with buf := Function.update s.buf b (f (s.buf b)) }

def wakeup (s : State n) (b : Slot) : State n :=
  { s with ops := fun p => if s.ops p = .sleeping b then .woken b else s.ops p }

def registersFor (buf : Buf n) : Registers :=
  let sector_per_block : Nat := BSIZE / SECTOR_SIZE
  let sector : BitVec 32 := buf.blockno * BitVec.ofNat 32 sector_per_block
  let read_cmd := if sector_per_block = 1 then IDE_CMD_READ else IDE_CMD_RDMUL
  let write_cmd := if sector_per_block = 1 then IDE_CMD_WRITE else IDE_CMD_WRMUL
  { count := BitVec.ofNat 8 sector_per_block
    low := (sector &&& 0xff).setWidth 8
    middle := ((sector >>> 8) &&& 0xff).setWidth 8
    high := ((sector >>> 16) &&& 0xff).setWidth 8
    device := (0xe0 ||| ((buf.dev &&& 1) <<< 4) ||| ((sector >>> 24) &&& 0x0f)).setWidth 8
    command := if buf.dirty then write_cmd else read_cmd }

def idestart (s : State n) : Option Slot → Result n
  | none => .panic .idestart
  | some b =>
    if FSSIZE ≤ (s.buf b).blockno.toNat then .panic .incorrectBlockno
    else if 7 < BSIZE / SECTOR_SIZE then .panic .idestart
    else .next { s with device := .working (registersFor (s.buf b)) (s.buf b).data }

def completed (data : Block) (buf : Buf n) : Buf n :=
  { buf with data := if buf.dirty then buf.data else data, valid := true, dirty := false }

def ideintr (s : State n) (data : Block) : Result n :=
  match s.queue.head with
  | none => .next s
  | some b =>
    let s := { s with queue := { s.queue with head := s.queue.next b } }
    let s := wakeup (s.setBuf b (completed data)) b
    if s.queue.head ≠ none then idestart s s.queue.head else .next s

/-- The end of `iderw`: its loop sleeps until the request is done. -/
def await (s : State n) (p : Fin n) (b : Slot) : Result n :=
  if (s.buf b).valid ∧ ¬ (s.buf b).dirty then .next (s.setOp p .outside)
  else .next (s.setOp p (.sleeping b))

def Result.andThen : Result n → (State n → Result n) → Result n
  | .next s, f => f s
  | .panic message, _ => .panic message
  | .loops, _ => .loops
  | .disabled, _ => .disabled

def iderwBegin (s : State n) (p : Fin n) (b : Slot) : Result n :=
  if (s.buf b).owner ≠ some p then .panic .bufNotLocked
  else if (s.buf b).valid ∧ ¬ (s.buf b).dirty then .panic .nothingToDo
  else if (s.buf b).dev ≠ 0 ∧ ¬ s.havedisk1 then .panic .disk1NotPresent
  else .next (s.setOp p (.calling b))

/-- `iderw` with `idelock` held, up to where it waits. -/
def iderw (s : State n) (p : Fin n) (b : Slot) : Result n :=
  match s.queue.append (NBUF + 1) b with
  | none => .loops
  | some queue =>
    let s := { s with queue }
    (if s.queue.head = some b then idestart s (some b) else .next s).andThen fun s => await s p b

inductive Action (n : Nat) where
  | use (b : Slot) (buf : Buf n)
  | call (p : Fin n) (b : Slot)
  | run (p : Fin n)
  | finish
  | intr

def State.unused (s : State n) (b : Slot) : Prop := ∀ p, (s.ops p).buffer ≠ some b

instance (s : State n) (b : Slot) : Decidable (s.unused b) := inferInstanceAs (Decidable (∀ _, _))

def finish (s : State n) (registers : Registers) (data : Block) : State n :=
  let sector := BitVec.ofNat 32 registers.sector
  if registers.writes then
    { s with
      disk := Function.update s.disk registers.drive (Function.update (s.disk registers.drive) sector data)
      device := .finished registers data }
  else { s with device := .finished registers (s.disk registers.drive sector) }

def act (s : State n) : Action n → Result n
  | .use b buf => if s.unused b then .next { s with buf := Function.update s.buf b buf } else .disabled
  | .call p b => if s.ops p = .outside then iderwBegin s p b else .disabled
  | .run p =>
    match s.ops p with
    | .calling b => iderw s p b
    | .woken b => await s p b
    | _ => .disabled
  | .finish =>
    match s.device with
    | .working registers data => .next (finish s registers data)
    | _ => .disabled
  | .intr =>
    match s.device with
    | .finished _ data => ideintr { s with device := .idle } data
    | _ => .disabled

def step (s : State n) (a : Action n) : Option (State n) :=
  match act s a with
  | .next t => some t
  | _ => none

def ideinit (buf : Slot → Buf n) (disk : Bool → BlockNo → Block) (qnext : Slot → Option Slot) (havedisk1 : Bool) :
    State n :=
  { buf, disk, havedisk1
    queue := { head := none, next := qnext }
    device := .idle
    ops := fun _ => .outside }

def Legal (s : State n) : Action n → Prop
  | .call p b =>
    (s.buf b).owner = some p ∧ ¬ ((s.buf b).valid = true ∧ (s.buf b).dirty = false) ∧
      (s.buf b).blockno.toNat < FSSIZE ∧ ((s.buf b).dev = 0 ∨ s.havedisk1 = true)
  | _ => True

instance (s : State n) : (a : Action n) → Decidable (Legal s a)
  | .call _ _ => inferInstanceAs (Decidable (_ ∧ _ ∧ _ ∧ _))
  | .use _ _ | .run _ | .finish | .intr => isTrue trivial

def State.requests (s : State n) : List Slot := LinkedQueue.follow s.queue.next NBUF s.queue.head

def appends (s : State n) : Action n → List Slot
  | .run p =>
    match s.ops p with
    | .calling b => [b]
    | _ => []
  | _ => []

def completes (s : State n) : Action n → List Slot
  | .intr => s.queue.head.toList
  | _ => []

end Xv6.Ide
