import Xv6.Data.Trace

namespace Xv6.Locks.Spin

open Xv6.Data
open Function (update)

/-! # Spin locks and interrupts

`spinlock.c` with the interrupts of each CPU and the `swtch` of `sched` and `scheduler`,
cut at the points where another CPU can act or an interrupt can come.  A lock is held by
a CPU; the thread there may change while it holds `ptable.lock`.  The call of `holding` is
one step, because only a CPU itself changes whether `lk->cpu` is that CPU.
-/

/-- Where the code on a CPU is: outside, in `pushcli` after `readeflags` (on its own or in
`acquire`), at `holding` in `acquire` or `release`, before and after the `xchg`, before the
two stores of `release`, and before `popcli`. -/
inductive Point (L : Type) where
  | code
  | pushing (lock : Option L) (eflags : Bool)
  | checking (l : L) (release : Bool)
  | spinning (l : L)
  | taken (l : L)
  | clearing (l : L)
  | unlocking (l : L)
  | popping
deriving DecidableEq

/-- The code since an interrupt: its locks and other calls of `pushcli`, and whether the
last `popcli` will turn interrupts on (after `swtch` that is the `intena` found there,
whatever the thread had before). -/
structure Frame (L : Type) where
  point : Point L := .code
  held : List (Option L) := []
  enabled : Bool := false

structure Cpu (L T : Type) where
  interrupts : Bool := false
  ncli : Int := 0
  intena : Bool := false
  thread : T
  top : Frame L := {}
  below : List (Frame L) := []

/-- A thread inside `swtch`.  `sched` restores `intena`; `scheduler` and a new process do
not. -/
structure Parked (L : Type) where
  below : List (Frame L) := []
  intena : Option Bool := none

structure State (L T : Type) where
  cpu : Nat → Cpu L T
  locked : L → Bool
  owner : L → Option Nat
  parked : T → Option (Parked L)

inductive Stop where
  | disabled | acquire | release | interruptible | popcli | mycpu | schedLock | schedLocks | schedInterruptible
deriving DecidableEq

variable {L T : Type} [DecidableEq L] {ptable : L} {s t : State L T} {c : Nat}

def State.setCpu (s : State L T) (c : Nat) (cpu : Cpu L T) : State L T := { s with cpu := update s.cpu c cpu }

def Cpu.goto (cpu : Cpu L T) (point : Point L) (held : List (Option L)) : Cpu L T :=
  { cpu with top := { cpu.top with point, held } }

def Cpu.pushcli (cpu : Cpu L T) (eflags : Bool) : Cpu L T :=
  { cpu with interrupts := false, intena := if cpu.ncli = 0 then eflags else cpu.intena, ncli := cpu.ncli + 1 }

def Cpu.popcli (cpu : Cpu L T) : Except Stop (Cpu L T) :=
  if cpu.interrupts then .error .interruptible
  else if cpu.ncli - 1 < 0 then .error .popcli
  else .ok { cpu with ncli := cpu.ncli - 1, interrupts := cpu.ncli - 1 = 0 && cpu.intena }

/-- `holding`, with what its `pushcli` stores when it is the first. -/
def holding (s : State L T) (c : Nat) (cpu : Cpu L T) (l : L) : Bool × Cpu L T :=
  (s.locked l && s.owner l = some c, { cpu with intena := if cpu.ncli = 0 then cpu.interrupts else cpu.intena })

/-- The next step of the code on a CPU, from a point of it. -/
def runAt (s : State L T) (c : Nat) (cpu : Cpu L T) : Point L → Except Stop (State L T)
  | .code => .error .disabled
  | .pushing none eflags => .ok (s.setCpu c ((cpu.pushcli eflags).goto .code (none :: cpu.top.held)))
  | .pushing (some l) eflags => .ok (s.setCpu c ((cpu.pushcli eflags).goto (.checking l false) cpu.top.held))
  | .checking l false =>
    let (held, cpu) := holding s c cpu l
    if held then .error .acquire else .ok (s.setCpu c (cpu.goto (.spinning l) cpu.top.held))
  | .checking l true =>
    let (held, cpu) := holding s c cpu l
    if held then .ok (s.setCpu c (cpu.goto (.clearing l) cpu.top.held)) else .error .release
  | .spinning l =>
    if s.locked l then .ok s
    else .ok { s.setCpu c (cpu.goto (.taken l) cpu.top.held) with locked := update s.locked l true }
  | .taken l =>
    if cpu.interrupts then .error .mycpu
    else .ok { s.setCpu c (cpu.goto .code (some l :: cpu.top.held)) with owner := update s.owner l (some c) }
  | .clearing l => .ok { s.setCpu c (cpu.goto (.unlocking l) cpu.top.held) with owner := update s.owner l none }
  | .unlocking l =>
    .ok { s.setCpu c (cpu.goto .popping (cpu.top.held.erase (some l))) with locked := update s.locked l false }
  | .popping => do
    let cpu ← cpu.popcli
    .ok (s.setCpu c (cpu.goto .code cpu.top.held))

inductive Action (L T : Type) where
  | pushcli (c : Nat)
  | popcli (c : Nat)
  | acquire (c : Nat) (l : L)
  | release (c : Nat) (l : L)
  | run (c : Nat)
  | interrupt (c : Nat)
  | iret (c : Nat)
  | sti (c : Nat)
  | swtch (c : Nat) (other : T) (sched : Bool)

/-- Code that is not inside one of the functions goes on. -/
def call (s : State L T) (c : Nat) (cpu : Cpu L T) : Except Stop (State L T) :=
  if (s.cpu c).top.point = .code then .ok (s.setCpu c cpu) else .error .disabled

/-- The thread `other` goes on where it called `swtch`. -/
def Cpu.resume (ptable : L) (cpu : Cpu L T) (other : T) (target : Parked L) : Cpu L T :=
  { cpu with
    intena := target.intena.getD cpu.intena
    thread := other
    top := { held := [some ptable], enabled := target.intena.getD cpu.intena }
    below := target.below }

/-- The thread of a CPU gives way to another one; `sched` makes three tests before. -/
def swtch [DecidableEq T] (ptable : L) (s : State L T) (c : Nat) (other : T) (sched : Bool) :
    Except Stop (State L T) :=
  let cpu := s.cpu c
  if cpu.top.point ≠ .code then .error .disabled
  else if sched ∧ (holding s c cpu ptable).1 = false then .error .schedLock
  else if sched ∧ cpu.ncli ≠ 1 then .error .schedLocks
  else if sched ∧ cpu.interrupts then .error .schedInterruptible
  else match s.parked other with
    | none => .error .disabled
    | some target =>
      .ok { s.setCpu c (cpu.resume ptable other target) with
        parked := update (update s.parked other none) cpu.thread
          (some ⟨cpu.below, if sched then some cpu.intena else none⟩) }

def act [DecidableEq T] (ptable : L) (s : State L T) : Action L T → Except Stop (State L T)
  | .pushcli c => call s c ((s.cpu c).goto (.pushing none (s.cpu c).interrupts) (s.cpu c).top.held)
  | .popcli c => call s c ((s.cpu c).goto .popping ((s.cpu c).top.held.erase none))
  | .acquire c l => call s c ((s.cpu c).goto (.pushing (some l) (s.cpu c).interrupts) (s.cpu c).top.held)
  | .release c l => call s c ((s.cpu c).goto (.checking l true) (s.cpu c).top.held)
  | .run c => runAt s c (s.cpu c) (s.cpu c).top.point
  | .interrupt c =>
    if (s.cpu c).interrupts then
      .ok (s.setCpu c { s.cpu c with interrupts := false, top := {}, below := (s.cpu c).top :: (s.cpu c).below })
    else .error .disabled
  | .iret c =>
    match (s.cpu c).below with
    | [] => .error .disabled
    | frame :: below => call s c { s.cpu c with interrupts := true, top := frame, below }
  | .sti c => call s c { s.cpu c with interrupts := true, top := { (s.cpu c).top with enabled := true } }
  | .swtch c other sched => swtch ptable s c other sched

def step [DecidableEq T] (ptable : L) (s : State L T) (a : Action L T) : Option (State L T) :=
  (act ptable s a).toOption

/-- Code acquires no lock that it holds and releases those that it holds, undoes its own
calls of `pushcli`, and has `ptable.lock` and nothing else when it calls `swtch`. -/
def Disciplined (ptable : L) (s : State L T) : Action L T → Prop
  | .acquire c l => some l ∉ (s.cpu c).top.held
  | .release c l => some l ∈ (s.cpu c).top.held
  | .popcli c => none ∈ (s.cpu c).top.held
  | .iret c | .sti c => (s.cpu c).top.held = []
  | .swtch c _ _ => (s.cpu c).top.held = [some ptable]
  | .pushcli _ | .run _ | .interrupt _ => True

instance : ∀ a : Action L T, Decidable (Disciplined ptable s a)
  | .acquire _ _ => inferInstanceAs (Decidable (_ ∉ _))
  | .release _ _ | .popcli _ => inferInstanceAs (Decidable (_ ∈ _))
  | .iret _ | .sti _ | .swtch _ _ _ => inferInstanceAs (Decidable (_ = _))
  | .pushcli _ | .run _ | .interrupt _ => isTrue trivial

/-- The machine at the start, with the threads that wait to run for the first time. -/
def boot (thread : Nat → T) (parked : T → Bool) : State L T where
  cpu c := { thread := thread c }
  locked _ := false
  owner _ := none
  parked x := if parked x then some {} else none

/-- The open calls of `pushcli` that `held` does not show. -/
def Point.extra : Point L → Nat
  | .checking _ false | .spinning _ | .taken _ | .popping => 1
  | .checking _ true | .code | .pushing _ _ | .clearing _ | .unlocking _ => 0

/-- The lock that `acquire` or `release` has been called with. -/
def Point.lock : Point L → Option (L × Bool)
  | .pushing (some l) _ | .checking l false | .spinning l | .taken l => some (l, false)
  | .checking l true | .clearing l | .unlocking l => some (l, true)
  | .code | .pushing none _ | .popping => none

structure Frame.Placed (frame : Frame L) (interrupts : Bool) : Prop where
  once : ∀ l, frame.held.count (some l) ≤ 1
  place : ∀ l release, frame.point.lock = some (l, release) → (some l ∈ frame.held ↔ release = true)
  read : ∀ lock eflags, frame.point = .pushing lock eflags → eflags = interrupts

def Frame.depth (frame : Frame L) : Nat := frame.held.length + frame.point.extra

/-- Code that can be interrupted. -/
structure Frame.Idle (frame : Frame L) : Prop where
  depth : frame.depth = 0
  enabled : frame.enabled = true
  placed : frame.Placed true

/-- There are `n` open calls of `pushcli`. -/
structure Cpu.Open (cpu : Cpu L T) (n : Nat) : Prop where
  depth : cpu.ncli = n
  flag : cpu.interrupts = (decide (n = 0) && cpu.top.enabled)
  kept : n ≠ 0 → cpu.intena = cpu.top.enabled
  below : ∀ frame ∈ cpu.below, frame.Idle

def Cpu.Fits (cpu : Cpu L T) : Prop := cpu.Open cpu.top.depth ∧ cpu.top.Placed cpu.interrupts

/-- The CPU is between the `xchg` and the store that frees the lock. -/
def Cpu.Has (cpu : Cpu L T) (l : L) : Prop := some l ∈ cpu.top.held ∨ cpu.top.point = .taken l

def Cpu.Owns (cpu : Cpu L T) (l : L) : Prop := some l ∈ cpu.top.held ∧ cpu.top.point ≠ .unlocking l

structure Sound (s : State L T) (holder : L → Option Nat) : Prop where
  fits : ∀ c, (s.cpu c).Fits
  parked : ∀ x target, s.parked x = some target → ∀ frame ∈ target.below, frame.Idle
  locked : ∀ l, s.locked l = (holder l).isSome
  has : ∀ l c, (s.cpu c).Has l ↔ holder l = some c
  owner : ∀ l c, s.owner l = some c ↔ (s.cpu c).Owns l

variable {holder : L → Option Nat} {cpu : Cpu L T} {n : Nat} {point : Point L} {held : List (Option L)} {l : L}

/-- A step of one CPU, in terms of what it has and owns afterwards. -/
theorem Sound.change {locked : L → Bool} {owner : L → Option Nat} {holder' : L → Option Nat} (good : Sound s holder)
    (fits : cpu.Fits) (isLocked : ∀ l, locked l = (holder' l).isSome)
    (mine : ∀ l, (cpu.Has l ↔ holder' l = some c) ∧ (owner l = some c ↔ cpu.Owns l))
    (others : ∀ l d, d ≠ c → (holder l = some d ↔ holder' l = some d) ∧ (owner l = some d ↔ s.owner l = some d)) :
    Sound { s.setCpu c cpu with locked, owner } holder' := by
  have cpus (d : Nat) : (s.setCpu c cpu).cpu d = if d = c then cpu else s.cpu d := Function.update_apply ..
  refine { fits := ?_, parked := good.parked, locked := isLocked, has := ?_, owner := ?_ }
  · intro d
    rw [cpus]
    split
    · exact fits
    · exact good.fits d
  · intro l d
    rw [cpus]
    split
    · next here => exact here ▸ (mine l).1
    · next other => exact (good.has l d).trans (others l d other).1
  · intro l d
    rw [cpus]
    split
    · next here => exact here ▸ (mine l).2
    · next other => exact (others l d other).2.trans (good.owner l d)

theorem Sound.alone (good : Sound s holder) (mine : (s.cpu c).Has l) (d : Nat) (has : (s.cpu d).Has l) : d = c :=
  Option.some.inj (((good.has l d).mp has).symm.trans ((good.has l c).mp mine))

theorem Sound.setCpu (good : Sound s holder) (fits : cpu.Fits) (has : ∀ l, cpu.Has l ↔ (s.cpu c).Has l)
    (owns : ∀ l, cpu.Owns l ↔ (s.cpu c).Owns l) : Sound (s.setCpu c cpu) holder :=
  good.change fits good.locked (fun l => ⟨(has l).trans (good.has l c), (good.owner l c).trans (owns l).symm⟩)
    fun _ _ _ => ⟨.rfl, .rfl⟩

def Safe (result : Except Stop (State L T)) : Prop :=
  match result with
  | .ok t => ∃ holder, Sound t holder
  | .error stop => stop = .disabled

theorem Cpu.Open.pushcli (opened : cpu.Open n) : (cpu.pushcli cpu.interrupts).Open (n + 1) := by
  have depth := opened.depth
  refine ⟨by simp [Cpu.pushcli, depth], by simp [Cpu.pushcli], ?_, opened.below⟩
  intro _
  by_cases first : n = 0
  · simp [Cpu.pushcli, depth, first, opened.flag]
  · simp [Cpu.pushcli, depth, first, opened.kept first]

theorem Cpu.Open.popcli (opened : cpu.Open (n + 1)) :
    ∃ after, cpu.popcli = .ok after ∧ after.Open n ∧ after.top = cpu.top := by
  have depth := opened.depth
  have kept := opened.kept n.succ_ne_zero
  have off : cpu.interrupts = false := opened.flag
  have last : cpu.ncli - 1 = 0 ↔ n = 0 := by omega
  refine ⟨_, if_neg (by simp [off]) |>.trans (if_neg (by omega)), ⟨?_, ?_, fun _ => kept, opened.below⟩, rfl⟩
  · simp [depth]
  · simp [last, kept]

theorem Cpu.Open.goto (opened : cpu.Open n) (depth : held.length + point.extra = n)
    (placed : Frame.Placed ⟨point, held, cpu.top.enabled⟩ cpu.interrupts) : (cpu.goto point held).Fits := by
  subst depth
  exact ⟨⟨opened.depth, opened.flag, opened.kept, opened.below⟩, placed⟩

/-- A step of the code that neither takes nor frees a lock. -/
theorem Sound.goto (good : Sound s holder) (opened : cpu.Open n) (depth : held.length + point.extra = n)
    (same : ∀ l, held.count (some l) = (s.cpu c).top.held.count (some l))
    (before : ∀ l, (s.cpu c).top.point ≠ .taken l ∧ (s.cpu c).top.point ≠ .unlocking l)
    (after : ∀ l, point ≠ .taken l ∧ point ≠ .unlocking l)
    (place : ∀ l release, point.lock = some (l, release) → (some l ∈ (s.cpu c).top.held ↔ release = true))
    (read : ∀ lock eflags, point = .pushing lock eflags → eflags = cpu.interrupts) :
    Sound (s.setCpu c (cpu.goto point held)) holder := by
  have members (l : L) : some l ∈ held ↔ some l ∈ (s.cpu c).top.held := by
    rw [← List.count_pos_iff, same, List.count_pos_iff]
  refine good.setCpu (opened.goto depth ⟨?_, ?_, read⟩) ?_ ?_
  · exact fun l => (same l).trans_le ((good.fits c).2.once l)
  · exact fun l release is => (members l).trans (place l release is)
  · intro l
    simp [Cpu.Has, Cpu.goto, members, before l, after l]
  · intro l
    simp [Cpu.Owns, Cpu.goto, members, before l, after l]

/-- A step of one CPU that concerns one lock, which no other CPU has. -/
theorem Sound.onLock {locked : L → Bool} {owner : L → Option Nat} (l : L) (good : Sound s holder) (fits : cpu.Fits)
    (alone : ∀ d, (s.cpu d).Has l → d = c) (isLocked : locked l = true ↔ cpu.Has l)
    (isOwner : ∀ d, owner l = some d ↔ c = d ∧ cpu.Owns l)
    (others : ∀ k, k ≠ l → locked k = s.locked k ∧ owner k = s.owner k ∧
      (cpu.Has k ↔ (s.cpu c).Has k) ∧ (cpu.Owns k ↔ (s.cpu c).Owns k)) :
    Safe (.ok { s.setCpu c cpu with locked, owner }) := by
  classical
  refine ⟨update holder l (if cpu.Has l then some c else none), good.change fits ?_ ?_ ?_⟩
  · intro k
    by_cases same : k = l
    · rw [same, Bool.eq_iff_iff, isLocked]
      by_cases has : cpu.Has l <;> simp [has]
    · simp [same, (others k same).1, good.locked]
  · intro k
    by_cases same : k = l
    · simp [same, isOwner]
    · obtain ⟨_, owner, has, owns⟩ := others k same
      simp [same, has, owns, owner, good.has, good.owner]
  · intro k d other
    by_cases same : k = l
    · have free := mt (alone d) other
      simp [same, isOwner, other.symm, good.owner, Cpu.Owns, mt Or.inl free, mt (good.has l d).mpr free]
    · simp [same, (others k same).2.1]

section

variable (good : Sound s holder)
include good

theorem Sound.place (isAt : (s.cpu c).top.point = point) :
    (s.cpu c).Open ((s.cpu c).top.held.length + point.extra) ∧ (∀ l, (s.cpu c).top.held.count (some l) ≤ 1) ∧
      ∀ l release, point.lock = some (l, release) → (some l ∈ (s.cpu c).top.held ↔ release = true) := by
  subst isAt
  exact ⟨(good.fits c).1, (good.fits c).2.once, (good.fits c).2.place⟩

theorem Sound.takes (isAt : (s.cpu c).top.point = .spinning l) :
    Safe (runAt s c (s.cpu c) (.spinning l)) := by
  obtain ⟨opened, once, place⟩ := good.place isAt
  have new := mt (place l false rfl).mp Bool.false_ne_true
  simp only [runAt]
  split
  · exact ⟨holder, good⟩
  · rename_i free
    have nobody (d : Nat) : ¬(s.cpu d).Has l := by simp_all [good.locked, good.has]
    refine good.onLock l (opened.goto rfl ⟨once, by simpa [Point.lock], by simp⟩)
      (fun d has => absurd has (nobody d)) ?_ ?_ ?_
    · simp [Cpu.Has, Cpu.goto]
    · simp [State.setCpu, Cpu.Owns, Cpu.goto, new, good.owner, mt Or.inl (nobody _)]
    · intro k other
      simp [State.setCpu, Cpu.Has, Cpu.Owns, Cpu.goto, isAt, other, other.symm]

theorem Sound.records (isAt : (s.cpu c).top.point = .taken l) :
    Safe (runAt s c (s.cpu c) (.taken l)) := by
  obtain ⟨opened, once, place⟩ := good.place isAt
  have new := mt (place l false rfl).mp Bool.false_ne_true
  have off : (s.cpu c).interrupts = false := opened.flag
  simp only [runAt, off]
  refine good.onLock l (opened.goto rfl ⟨?_, by simp [Point.lock], by simp⟩) (good.alone (.inr isAt)) ?_ ?_ ?_
  · intro k
    rw [List.count_cons]
    by_cases same : l = k
    · simp [← same, List.count_eq_zero.mpr new]
    · simp [same, once k]
  · simp [State.setCpu, Cpu.Has, Cpu.goto, good.locked, (good.has l c).mp (.inr isAt)]
  · simp [Cpu.Owns, Cpu.goto]
  · intro k other
    simp [State.setCpu, Cpu.Has, Cpu.Owns, Cpu.goto, isAt, other, other.symm]

theorem Sound.clears (isAt : (s.cpu c).top.point = .clearing l) :
    Safe (runAt s c (s.cpu c) (.clearing l)) := by
  obtain ⟨opened, once, place⟩ := good.place isAt
  have mine := (place l true rfl).mpr rfl
  refine good.onLock l (opened.goto rfl ⟨once, by simpa [Point.lock], by simp⟩) (good.alone (.inl mine)) ?_ ?_ ?_
  · simp [State.setCpu, Cpu.Has, Cpu.goto, mine, good.locked, (good.has l c).mp (.inl mine)]
  · simp [Cpu.Owns, Cpu.goto]
  · intro k other
    simp [State.setCpu, Cpu.Has, Cpu.Owns, Cpu.goto, isAt, other, other.symm]

theorem Sound.frees (isAt : (s.cpu c).top.point = .unlocking l) :
    Safe (runAt s c (s.cpu c) (.unlocking l)) := by
  obtain ⟨opened, once, place⟩ := good.place isAt
  have mine := (place l true rfl).mpr rfl
  have gone : some l ∉ (s.cpu c).top.held.erase (some l) := by
    rw [← List.count_eq_zero, List.count_erase_self]
    exact Nat.sub_eq_zero_of_le (once l)
  have last : ∀ d, some l ∈ (s.cpu d).top.held → (s.cpu d).top.point = .unlocking l :=
    fun d held => good.alone (.inl mine) d (.inl held) ▸ isAt
  refine good.onLock l (opened.goto (List.length_erase_add_one mine) ⟨?_, by simp [Point.lock], by simp⟩)
    (good.alone (.inl mine)) ?_ ?_ ?_
  · exact fun k => ((List.erase_sublist ..).count_le _).trans (once k)
  · simp [Cpu.Has, Cpu.goto, gone]
  · simpa [State.setCpu, Cpu.Owns, Cpu.goto, gone, good.owner] using last
  · intro k other
    simp [State.setCpu, Cpu.Has, Cpu.Owns, Cpu.goto, isAt, other, other.symm, List.mem_erase_of_ne]

theorem Sound.holding {release : Bool} (mine : some l ∈ (s.cpu c).top.held ↔ release = true)
    (isAt : (s.cpu c).top.point ≠ .unlocking l) (opened : (s.cpu c).ncli ≠ 0) :
    Spin.holding s c (s.cpu c) l = (release, s.cpu c) := by
  have owns : s.owner l = some c ↔ release = true := by simp [good.owner, Cpu.Owns, mine, isAt]
  have locked (isOwner : release = true) : s.locked l = true := by
    rw [good.locked, (good.has l c).mp (.inl (mine.mpr isOwner))]
    rfl
  cases release <;> simp_all [Spin.holding]

theorem Sound.run : Safe (runAt s c (s.cpu c) (s.cpu c).top.point) := by
  cases isAt : (s.cpu c).top.point with
  | code => rfl
  | pushing lock eflags =>
    obtain rfl := (good.fits c).2.read _ _ isAt
    obtain ⟨opened, _, place⟩ := good.place isAt
    cases lock with
    | none =>
      refine ⟨holder, ?_⟩
      apply good.goto opened.pushcli <;> simp [isAt, Point.extra, Point.lock]
    | some l =>
      refine ⟨holder, ?_⟩
      apply good.goto opened.pushcli <;> simp_all [Point.extra, Point.lock]
  | checking l release =>
    obtain ⟨opened, _, place⟩ := good.place isAt
    have depth := opened.depth
    cases release with
    | false =>
      have mine := place l false rfl
      rw [runAt, good.holding mine (by simp [isAt]) (by simp only [Point.extra] at depth; omega)]
      refine ⟨holder, ?_⟩
      apply good.goto opened <;> simp_all [Point.extra, Point.lock]
    | true =>
      have mine := place l true rfl
      have positive := List.length_pos_of_mem (mine.mpr rfl)
      rw [runAt, good.holding mine (by simp [isAt]) (by omega)]
      refine ⟨holder, ?_⟩
      apply good.goto opened <;> simp_all [Point.extra, Point.lock]
  | spinning l => exact good.takes isAt
  | taken l => exact good.records isAt
  | clearing l => exact good.clears isAt
  | unlocking l => exact good.frees isAt
  | popping =>
    obtain ⟨opened, _⟩ := good.place isAt
    obtain ⟨after, popped, opened, top⟩ := opened.popcli
    rw [runAt, popped]
    refine ⟨holder, ?_⟩
    apply good.goto opened <;> simp_all [Point.extra, Point.lock]

/-- A step between code without locks and code without locks. -/
theorem Sound.empty (before : (s.cpu c).top.depth = 0) (after : cpu.top.depth = 0)
    (fits : cpu.Fits) : Sound (s.setCpu c cpu) holder := by
  have nothing (l : L) : ∀ cpu : Cpu L T, cpu.top.depth = 0 → ¬cpu.Has l := by
    rintro cpu empty (held | taken) <;> simp_all [Frame.depth, Point.extra]
  apply good.setCpu fits
  · exact fun l => iff_of_false (nothing l _ after) (nothing l _ before)
  · exact fun l => iff_of_false (fun owns => nothing l _ after (.inl owns.1))
      fun owns => nothing l _ before (.inl owns.1)

end

theorem Sound.call (next : (s.cpu c).top.point = .code → Sound (s.setCpu c cpu) holder) : Safe (call s c cpu) := by
  rw [Spin.call]
  split
  · next isAt => exact ⟨holder, next isAt⟩
  · rfl

theorem Sound.swtch [DecidableEq T] {other : T} {sched : Bool} (good : Sound s holder)
    (only : (s.cpu c).top.held = [some ptable]) : Safe (swtch ptable s c other sched) := by
  obtain ⟨opened, placed⟩ := good.fits c
  rw [Spin.swtch]
  by_cases isAt : (s.cpu c).top.point = .code
  · rw [Frame.depth, only, isAt] at opened
    have one : (s.cpu c).ncli = 1 := opened.depth
    have off : (s.cpu c).interrupts = false := opened.flag
    have holds : Spin.holding s c (s.cpu c) ptable = (true, s.cpu c) :=
      good.holding (by simp [only]) (by simp [isAt]) (by simp [one])
    simp only [isAt, holds, one, off, ne_eq, not_true_eq_false, and_false, Bool.false_eq_true, Bool.true_eq_false,
      if_false]
    cases target : s.parked other with
    | none => rfl
    | some parked =>
      have resumed : Sound (s.setCpu c ((s.cpu c).resume ptable other parked)) holder := by
        refine good.setCpu ⟨⟨one, off, fun _ => rfl, good.parked other parked target⟩, ?_⟩ ?_ ?_
        · exact ⟨fun _ => List.count_le_length, by simp [Cpu.resume, Point.lock], by simp [Cpu.resume]⟩
        · simp [Cpu.Has, Cpu.resume, only, isAt]
        · simp [Cpu.Owns, Cpu.resume, only, isAt]
      refine ⟨holder, resumed.fits, ?_, resumed.locked, resumed.has, resumed.owner⟩
      intro x target' found
      simp only [Function.update_apply] at found
      split at found
      · cases found
        exact opened.below
      · split at found
        · cases found
        · exact good.parked x target' found
  · simp [isAt, Safe]

theorem Sound.act [DecidableEq T] {a : Action L T} (good : Sound s holder) (disciplined : Disciplined ptable s a) :
    Safe (act ptable s a) := by
  cases a with
  | run c => exact good.run
  | pushcli c =>
    apply Sound.call
    intro isAt
    apply good.goto (good.fits c).1 <;> simp [Frame.depth, isAt, Point.extra, Point.lock]
  | popcli c =>
    have mine : none ∈ (s.cpu c).top.held := disciplined
    apply Sound.call
    intro isAt
    apply good.goto (good.fits c).1 <;>
      simp [Frame.depth, isAt, Point.extra, Point.lock, List.count_erase_of_ne, List.length_erase_add_one mine]
  | acquire c l | release c l =>
    apply Sound.call
    intro isAt
    apply good.goto (good.fits c).1 <;> simp_all [Frame.depth, Point.extra, Point.lock, Disciplined]
  | interrupt c =>
    obtain ⟨opened, placed⟩ := good.fits c
    simp only [Spin.act]
    split
    · rename_i on
      have flag := opened.flag
      rw [on, eq_comm, Bool.and_eq_true, decide_eq_true_eq] at flag
      obtain ⟨empty, enabled⟩ := flag
      have idle : (s.cpu c).top.Idle := ⟨empty, enabled, on ▸ placed⟩
      refine ⟨holder, good.empty empty rfl ⟨⟨opened.depth.trans (by rw [empty]; rfl), rfl, ?_, ?_⟩, ?_⟩⟩
      · simp [Frame.depth, Point.extra]
      · exact List.forall_mem_cons.mpr ⟨idle, opened.below⟩
      · exact ⟨by simp, by simp [Point.lock], by simp⟩
    · rfl
  | iret c =>
    have nothing : (s.cpu c).top.held = [] := disciplined
    obtain ⟨opened, _⟩ := good.fits c
    simp only [Spin.act]
    split
    · rfl
    · rename_i frame below interrupted
      have belows := opened.below
      rw [interrupted, List.forall_mem_cons] at belows
      obtain ⟨⟨depth, enabled, placed⟩, rest⟩ := belows
      apply Sound.call
      intro isAt
      have empty : (s.cpu c).top.depth = 0 := by simp [Frame.depth, nothing, isAt, Point.extra]
      refine good.empty empty depth ⟨⟨?_, ?_, ?_, rest⟩, placed⟩
      · simp [opened.depth, empty, depth]
      · simp [depth, enabled]
      · simp [depth]
  | sti c =>
    have nothing : (s.cpu c).top.held = [] := disciplined
    obtain ⟨opened, placed⟩ := good.fits c
    apply Sound.call
    intro isAt
    have empty : (s.cpu c).top.depth = 0 := by simp [Frame.depth, nothing, isAt, Point.extra]
    refine good.empty empty empty ⟨⟨opened.depth, ?_, fun some => absurd empty some, opened.below⟩, ?_⟩
    · simp_all [Frame.depth]
    · exact ⟨placed.once, placed.place, by simp [isAt]⟩
  | swtch c other sched => exact good.swtch disciplined

variable {thread : Nat → T} {parked : T → Bool} {actions : List (Action L T)}

theorem sound_boot : Sound (boot thread parked : State L T) fun _ => none := by
  refine ⟨fun c => ⟨⟨rfl, rfl, by simp [boot, Frame.depth, Point.extra], by simp [boot]⟩, ?_⟩, ?_, fun _ => rfl, ?_, ?_⟩
  · exact ⟨by simp [boot], by simp [boot, Point.lock], by simp [boot]⟩
  · intro x target found
    simp only [boot] at found
    split at found <;> cases found
    simp
  · simp [boot, Cpu.Has]
  · simp [boot, Cpu.Owns]

theorem sound_run [DecidableEq T]
    (disciplined : Along (step ptable) (Disciplined ptable) (boot thread parked) actions)
    (ran : exec (step ptable) (boot thread parked) actions = some s) : ∃ holder, Sound s holder := by
  apply exec_invariant (fun s => ∃ holder, Sound s holder) ⟨_, sound_boot⟩ disciplined _ ran
  intro before action after good disciplined taken
  obtain ⟨holder, good⟩ := good
  have safe := good.act disciplined
  rw [ok_of_toOption taken] at safe
  exact safe

/-- Whatever the CPUs, threads and interrupt handlers do, at most one CPU holds a lock, no
interrupted code holds one, a CPU that holds one takes no interrupts, and `ncli` counts the
open calls of `pushcli`. -/
theorem spinlocks_exclude [DecidableEq T]
    (disciplined : Along (step ptable) (Disciplined ptable) (boot thread parked) actions)
    (ran : exec (step ptable) (boot thread parked) actions = some s) :
    (∀ l c d, some l ∈ (s.cpu c).top.held → some l ∈ (s.cpu d).top.held → c = d) ∧
      (∀ c, ∀ frame ∈ (s.cpu c).below, frame.held = []) ∧
      (∀ c, (s.cpu c).top.held ≠ [] → (s.cpu c).interrupts = false) ∧
      ∀ c, (s.cpu c).top.point = .code → (s.cpu c).ncli = (s.cpu c).top.held.length := by
  obtain ⟨holder, good⟩ := sound_run disciplined ran
  refine ⟨?_, ?_, ?_, ?_⟩
  · exact fun l c d first second => good.alone (.inl second) c (.inl first)
  · intro c frame under
    have depth := ((good.fits c).1.below frame under).depth
    exact List.length_eq_zero_iff.mp (Nat.eq_zero_of_add_eq_zero_right depth)
  · intro c holds
    rw [(good.fits c).1.flag]
    simp [Frame.depth, holds]
  · intro c isAt
    exact (good.place isAt).1.depth

/-- A handler holds a lock that another CPU waits for. -/
def handlerHolds : List (Action Nat Nat) :=
  [.sti 0, .interrupt 0, .acquire 0 1, .run 0, .run 0, .run 0, .run 0, .acquire 1 1, .run 1, .run 1, .run 1]

theorem spinlocks_exclude_handler : ∃ s, exec (step 0) (boot id fun _ => false) handlerHolds = some s ∧
    (s.cpu 1).top.point = .spinning 1 ∧ (s.cpu 0).top.held = [some 1] ∧ (s.cpu 0).interrupts = false := by
  have reached : (exec (step 0) (boot id fun _ => false) handlerHolds).map
      (fun s => ((s.cpu 1).top.point, (s.cpu 0).top.held)) = some (.spinning 1, [some 1]) := by decide +kernel
  obtain ⟨s, ran, seen⟩ := Option.map_eq_some_iff.mp reached
  simp only [Prod.mk.injEq] at seen
  refine ⟨s, ran, seen.1, seen.2, (spinlocks_exclude (by decide +kernel) ran).2.2.1 0 ?_⟩
  simp [seen.2]

/-- None of the tests of `acquire`, `release`, `popcli`, `mycpu` and `sched` fails. -/
theorem spinlocks_never_panic [DecidableEq T] {a : Action L T} {stop : Stop}
    (disciplined : Along (step ptable) (Disciplined ptable) (boot thread parked) actions)
    (ran : exec (step ptable) (boot thread parked) actions = some s) (next : Disciplined ptable s a)
    (stops : act ptable s a = .error stop) : stop = .disabled := by
  obtain ⟨holder, good⟩ := sound_run disciplined ran
  have safe := good.act next
  rw [stops] at safe
  exact safe

theorem spinlocks_never_panic_sched : ∃ s, exec (step 0) (boot id fun _ => true)
      [.acquire 0 0, .run 0, .run 0, .run 0, .run 0] = some s ∧ (s.cpu 0).top.held = [some 0] ∧
    ∀ stop, act 0 s (.swtch 0 7 true) = .error stop → stop = .disabled := by
  have reached : (exec (step 0) (boot id fun _ => true) [.acquire 0 0, .run 0, .run 0, .run 0, .run 0]).map
      (fun s => (s.cpu 0).top.held) = some [some 0] := by decide +kernel
  obtain ⟨s, ran, held⟩ := Option.map_eq_some_iff.mp reached
  exact ⟨s, ran, held, fun stop => spinlocks_never_panic (by decide +kernel) ran held⟩

/-- The words of a lock are exact: `locked` is set just while some CPU has the lock, and
`holding` is right about the code on any CPU. -/
theorem spinlock_words_exact [DecidableEq T]
    (disciplined : Along (step ptable) (Disciplined ptable) (boot thread parked) actions)
    (ran : exec (step ptable) (boot thread parked) actions = some s) (l : L) :
    (s.locked l = true ↔ ∃ c, (s.cpu c).Has l) ∧
      ∀ c, (s.cpu c).top.point = .code → ((holding s c (s.cpu c) l).1 = true ↔ some l ∈ (s.cpu c).top.held) := by
  obtain ⟨holder, good⟩ := sound_run disciplined ran
  refine ⟨?_, fun c isAt => ?_⟩
  · simp [good.locked, good.has, Option.isSome_iff_exists]
  · have owns : s.owner l = some c ↔ some l ∈ (s.cpu c).top.held := by simp [good.owner, Cpu.Owns, isAt]
    have locked (mine : some l ∈ (s.cpu c).top.held) : s.locked l = true := by
      rw [good.locked, (good.has l c).mp (.inl mine)]
      rfl
    simpa [holding, owns] using locked

theorem spinlock_words_exact_handler : ∃ s, exec (step 0) (boot id fun _ => false) handlerHolds = some s ∧
    s.locked 1 = true ∧ ∃ c, (s.cpu c).Has 1 := by
  have reached : (exec (step 0) (boot id fun _ => false) handlerHolds).map (fun s => s.locked 1) = some true := by
    decide +kernel
  obtain ⟨s, ran, locked⟩ := Option.map_eq_some_iff.mp reached
  exact ⟨s, ran, locked, (spinlock_words_exact (by decide +kernel) ran 1).1.mp locked⟩

end Xv6.Locks.Spin
