import Xv6.Data.Trace

namespace Xv6.Locks

open Xv6.Data
open Function (update update_self update_of_ne)

/-! # Sleep locks

`sleeplock.c` with `sleep`, `wakeup` and `kill`, for one lock and any number of
processes, cut at the points where another process or CPU can act.
-/

abbrev Pid := Nat

/-- Where a process is: outside with or without the lock, in `acquiresleep` before
`acquire`, at the test of the loop, after the assignments, inside `sleep` before and
after `sched` returns, or in `releasesleep` before the assignments, before `wakeup` and
before `release`. -/
inductive Place where
  | outside | entering | testing | taking | asleep | returning | holding | releasing | waking | leaving
deriving DecidableEq, Repr

/-- `RUNNABLE` stands for `RUNNING` too. -/
inductive RunState where
  | runnable | sleeping
deriving DecidableEq, Repr

inductive Chan where
  | lock
  | other (n : Nat)
deriving DecidableEq, Repr

structure Proc where
  place : Place := .outside
  state : RunState := .runnable
  chan : Option Chan := none
  killed : Bool := false
deriving DecidableEq, Repr

/-- `lk` is the process that holds the spin lock. -/
structure State where
  lk : Option Pid
  locked : Bool
  pid : Pid
  proc : Pid → Proc

def initsleeplock : State := ⟨none, false, 0, fun _ => {}⟩

def State.setProc (s : State) (p : Pid) (proc : Proc) : State :=
  { s with proc := Function.update s.proc p proc }

/-- The result of `holdingsleep` when the spin lock is free. -/
def holdingsleep (s : State) (p : Pid) : Bool := s.locked && s.pid == p

def Proc.wake (chan : Chan) (proc : Proc) : Proc :=
  if proc.state = .sleeping ∧ proc.chan = some chan then { proc with state := .runnable } else proc

def wakeup (s : State) (chan : Chan) : State := { s with proc := fun p => (s.proc p).wake chan }

/-- Only a process that sleeps is not `RUNNABLE` already. -/
def kill (s : State) (p : Pid) : State :=
  s.setProc p { s.proc p with killed := true, state := .runnable }

/-- `sleep` puts a process to sleep on another channel with or without the lock. -/
inductive Action where
  | acquiresleep (p : Pid)
  | releasesleep (p : Pid)
  | run (p : Pid)
  | sleep (p : Pid) (n : Nat)
  | wakeup (n : Nat)
  | kill (p : Pid)

def run (s : State) (p : Pid) : Option State :=
  let proc := s.proc p
  match proc.place with
  | .outside | .holding => some (s.setProc p { proc with chan := none })
  | .entering | .returning =>
    if s.lk = none then some { s.setProc p { proc with place := .testing } with lk := some p } else none
  | .testing =>
    if s.locked then
      some { s.setProc p { proc with place := .asleep, state := .sleeping, chan := some .lock } with lk := none }
    else some { s.setProc p { proc with place := .taking } with locked := true, pid := p }
  | .taking => some { s.setProc p { proc with place := .holding } with lk := none }
  | .asleep => some (s.setProc p { proc with place := .returning, chan := none })
  | .releasing => some { s.setProc p { proc with place := .waking } with locked := false, pid := 0 }
  | .waking => some ((wakeup s .lock).setProc p { proc with place := .leaving })
  | .leaving => some { s.setProc p { proc with place := .outside } with lk := none }

def step (s : State) : Action → Option State
  | .acquiresleep p =>
    if (s.proc p).place = .outside ∧ (s.proc p).state = .runnable then
      some (s.setProc p { s.proc p with place := .entering, chan := none })
    else none
  | .releasesleep p =>
    if (s.proc p).place = .holding ∧ (s.proc p).state = .runnable ∧ s.lk = none then
      some { s.setProc p { s.proc p with place := .releasing, chan := none } with lk := some p }
    else none
  | .run p => if (s.proc p).state = .runnable then run s p else none
  | .sleep p n =>
    if ((s.proc p).place = .outside ∨ (s.proc p).place = .holding) ∧ (s.proc p).state = .runnable then
      some (s.setProc p { s.proc p with state := .sleeping, chan := some (.other n) })
    else none
  | .wakeup n => some (wakeup s (.other n))
  | .kill p => some (kill s p)

def Place.spins : Place → Bool
  | .testing | .taking | .releasing | .waking | .leaving => true
  | _ => false

def Place.owns : Place → Bool
  | .taking | .holding | .releasing => true
  | _ => false

variable {s t : State} {p q : Pid}

structure Sound (s : State) : Prop where
  spin : ∀ p, s.lk = some p ↔ (s.proc p).place.spins = true
  owner : ∀ p, s.locked = true ∧ s.pid = p ↔ (s.proc p).place.owns = true
  sleeper : ∀ p, (s.proc p).state = .sleeping → (s.proc p).chan = some .lock →
    s.locked = true ∨ ∃ q, (s.proc q).place = .waking
  chan : ∀ p, (s.proc p).chan = some .lock → (s.proc p).place = .asleep
  awake : ∀ p, (s.proc p).place.spins = true → (s.proc p).state = .runnable

section

variable (good : Sound s)
include good

variable {new : Proc}

/-- A step of one process.  If it is the one that was to call `wakeup`, nobody needs
that any more. -/
theorem Sound.change {lk : Option Pid} {locked : Bool} {pid : Pid}
    (woken : (s.proc p).place = .waking → ∀ q, (s.proc q).state = .sleeping → (s.proc q).chan ≠ some .lock)
    (spinSelf : lk = some p ↔ new.place.spins = true)
    (spinOther : ∀ q, q ≠ p → (lk = some q ↔ s.lk = some q))
    (ownSelf : locked = true ∧ pid = p ↔ new.place.owns = true)
    (ownOther : ∀ q, q ≠ p → (locked = true ∧ pid = q ↔ s.locked = true ∧ s.pid = q))
    (sleepSelf : new.state = .sleeping → new.chan = some .lock → locked = true)
    (kept : s.locked = true → locked = true ∨ new.place = .waking)
    (chanSelf : new.chan = some .lock → new.place = .asleep)
    (awakeSelf : new.place.spins = true → new.state = .runnable) :
    Sound { lk, locked, pid, proc := update s.proc p new } := by
  constructor
  · intro q
    by_cases same : q = p
    · subst q
      simpa using spinSelf
    · simpa [same, spinOther q same] using good.spin q
  · intro q
    by_cases same : q = p
    · subst q
      simpa using ownSelf
    · simpa only [ownOther q same, update_of_ne same] using good.owner q
  · intro q asleep onLock
    by_cases same : q = p
    · subst q
      simp only [update_self] at asleep onLock
      exact .inl (sleepSelf asleep onLock)
    · simp only [update_of_ne same] at asleep onLock
      cases good.sleeper q asleep onLock with
      | inl isLocked =>
        cases kept isLocked with
        | inl still => exact .inl still
        | inr wakes => exact .inr ⟨p, by simpa using wakes⟩
      | inr waker =>
        obtain ⟨r, wakes⟩ := waker
        have different : r ≠ p := fun same => woken (same ▸ wakes) q asleep onLock
        exact .inr ⟨r, by simpa [different] using wakes⟩
  · intro q
    by_cases same : q = p
    · subst q
      simpa using chanSelf
    · simpa [same] using good.chan q
  · intro q
    by_cases same : q = p
    · subst q
      simpa using awakeSelf
    · simpa [same] using good.awake q

theorem Sound.unlocked (free : s.lk = none) : (s.proc p).place.spins = false := by
  rw [Bool.eq_false_iff]
  intro spins
  rw [(good.spin p).mpr spins] at free
  cases free

theorem Sound.other_spin (spins : (s.proc p).place.spins = true) (different : q ≠ p) :
    s.lk ≠ some q := by
  intro held
  rw [(good.spin p).mpr spins] at held
  exact different (Option.some.inj held).symm

theorem Sound.other_owner (owns : (s.proc p).place.owns = true) (different : q ≠ p) :
    ¬(s.locked = true ∧ s.pid = q) := by
  intro held
  exact different (held.2.symm.trans ((good.owner p).mpr owns).2)

theorem Sound.move (notWaking : (s.proc p).place ≠ .waking)
    (spins : new.place.spins = (s.proc p).place.spins) (owns : new.place.owns = (s.proc p).place.owns)
    (chan : new.chan ≠ some .lock) (awake : new.place.spins = true → new.state = .runnable) :
    Sound (s.setProc p new) := by
  apply good.change fun wakes => absurd wakes notWaking
  · rw [spins]
    exact good.spin p
  · exact fun _ _ => Iff.rfl
  · rw [owns]
    exact good.owner p
  · exact fun _ _ => Iff.rfl
  · exact fun _ onLock => absurd onLock chan
  · exact fun isLocked => .inl isLocked
  · exact fun onLock => absurd onLock chan
  · exact awake

theorem Sound.acquire (free : s.lk = none) (spins : new.place.spins = true)
    (owns : new.place.owns = (s.proc p).place.owns) (chan : new.chan ≠ some .lock) (awake : new.state = .runnable) :
    Sound { s.setProc p new with lk := some p } := by
  have notWaking : (s.proc p).place ≠ .waking := by
    intro wakes
    have quiet : (s.proc p).place.spins = false := good.unlocked free
    rw [wakes] at quiet
    cases quiet
  apply good.change fun wakes => absurd wakes notWaking
  · simp [spins]
  · intro q different
    simp [free, different.symm]
  · rw [owns]
    exact good.owner p
  · exact fun _ _ => Iff.rfl
  · exact fun _ onLock => absurd onLock chan
  · exact fun isLocked => .inl isLocked
  · exact fun onLock => absurd onLock chan
  · exact fun _ => awake

theorem Sound.release (held : (s.proc p).place.spins = true)
    (notWaking : (s.proc p).place ≠ .waking) (spins : new.place.spins = false)
    (owns : new.place.owns = (s.proc p).place.owns) (sleeper : new.chan = some .lock → s.locked = true)
    (chan : new.chan = some .lock → new.place = .asleep) :
    Sound { s.setProc p new with lk := none } := by
  apply good.change fun wakes => absurd wakes notWaking
  · simp [spins]
  · intro q different
    exact iff_of_false (by simp) (good.other_spin held different)
  · rw [owns]
    exact good.owner p
  · exact fun _ _ => Iff.rfl
  · exact fun _ onLock => sleeper onLock
  · exact fun isLocked => .inl isLocked
  · exact chan
  · intro impossible
    rw [spins] at impossible
    cases impossible

theorem Sound.take (place : (s.proc p).place = .testing) (free : s.locked = false)
    (taking : new.place = .taking) (chan : new.chan ≠ some .lock) (awake : new.state = .runnable) :
    Sound { s.setProc p new with locked := true, pid := p } := by
  apply good.change fun wakes => absurd (place.symm.trans wakes) (by decide)
  · rw [taking]
    have spin := good.spin p
    rw [place] at spin
    exact spin
  · exact fun _ _ => Iff.rfl
  · simp [taking, Place.owns]
  · intro q different
    simp [free, different.symm]
  · exact fun _ onLock => absurd onLock chan
  · exact fun _ => .inl rfl
  · exact fun onLock => absurd onLock chan
  · exact fun _ => awake

theorem Sound.clear (place : (s.proc p).place = .releasing)
    (waking : new.place = .waking) (chan : new.chan ≠ some .lock) (awake : new.state = .runnable) :
    Sound { s.setProc p new with locked := false, pid := 0 } := by
  have owns : (s.proc p).place.owns = true := by rw [place]; rfl
  apply good.change fun wakes => absurd (place.symm.trans wakes) (by decide)
  · rw [waking]
    have spin := good.spin p
    rw [place] at spin
    exact spin
  · exact fun _ _ => Iff.rfl
  · simp [waking, Place.owns]
  · intro q different
    exact iff_of_false (by simp) (good.other_owner owns different)
  · exact fun _ onLock => absurd onLock chan
  · exact fun _ => .inr waking
  · exact fun onLock => absurd onLock chan
  · exact fun _ => awake

end

theorem Proc.wake_place (chan : Chan) (proc : Proc) : (proc.wake chan).place = proc.place := by
  unfold Proc.wake
  split <;> rfl

theorem Proc.wake_chan (chan : Chan) (proc : Proc) : (proc.wake chan).chan = proc.chan := by
  unfold Proc.wake
  split <;> rfl

theorem Proc.wake_runnable {chan : Chan} {proc : Proc} (awake : proc.state = .runnable) :
    (proc.wake chan).state = .runnable := by
  unfold Proc.wake
  split
  · rfl
  · exact awake

theorem Proc.sleeping_of_wake {chan : Chan} {proc : Proc} (asleep : (proc.wake chan).state = .sleeping) :
    proc.state = .sleeping ∧ proc.chan ≠ some chan := by
  unfold Proc.wake at asleep
  split at asleep
  · cases asleep
  · rename_i notWoken
    exact ⟨asleep, fun onChan => notWoken ⟨asleep, onChan⟩⟩

section

variable (good : Sound s)
include good

theorem Sound.rouse {proc : Pid → Proc} (place : ∀ q, (proc q).place = (s.proc q).place)
    (chan : ∀ q, (proc q).chan = (s.proc q).chan)
    (awake : ∀ q, (s.proc q).state = .runnable → (proc q).state = .runnable) : Sound { s with proc } := by
  constructor
  · intro q
    rw [place q]
    exact good.spin q
  · intro q
    rw [place q]
    exact good.owner q
  · intro q asleep onLock
    simp only [place, chan] at onLock ⊢
    apply good.sleeper q _ onLock
    cases state : (s.proc q).state with
    | sleeping => rfl
    | runnable =>
      rw [awake q state] at asleep
      cases asleep
  · intro q
    rw [place q, chan q]
    exact good.chan q
  · intro q spins
    rw [place q] at spins
    exact awake q (good.awake q spins)

theorem Sound.wakeup (chan : Chan) : Sound (wakeup s chan) :=
  good.rouse (fun q => (s.proc q).wake_place chan) (fun q => (s.proc q).wake_chan chan)
    (fun _ awake => Proc.wake_runnable awake)

theorem Sound.kill : Sound (kill s p) := by
  apply good.rouse
  · intro q
    by_cases same : q = p <;> simp [same]
  · intro q
    by_cases same : q = p <;> simp [same]
  · intro q awake
    by_cases same : q = p <;> simp [same, awake]

/-- `wakeup(lk)` of `releasesleep` leaves no process asleep on the lock. -/
theorem Sound.wakes (place : (s.proc p).place = .waking)
    (leaving : new.place = .leaving) (chan : new.chan ≠ some .lock) (awake : new.state = .runnable) :
    Sound ((Locks.wakeup s .lock).setProc p new) := by
  have roused := good.wakeup .lock
  have stillWaking : ((Locks.wakeup s .lock).proc p).place = .waking := ((s.proc p).wake_place .lock).trans place
  have spin := roused.spin p
  have owner := roused.owner p
  rw [stillWaking] at spin owner
  apply roused.change
  · intro _ q asleep onLock
    have notOnLock := (Proc.sleeping_of_wake asleep).2
    exact notOnLock (((s.proc q).wake_chan .lock).symm.trans onLock)
  · rw [leaving]
    exact spin
  · exact fun _ _ => Iff.rfl
  · rw [leaving]
    exact owner
  · exact fun _ _ => Iff.rfl
  · exact fun _ onLock => absurd onLock chan
  · exact fun isLocked => .inl isLocked
  · exact fun onLock => absurd onLock chan
  · exact fun _ => awake

theorem Sound.run (awake : (s.proc p).state = .runnable) (ran : run s p = some t) : Sound t := by
  have notOnLock : (s.proc p).place ≠ .asleep → (s.proc p).chan ≠ some .lock :=
    fun notAsleep onLock => notAsleep (good.chan p onLock)
  unfold Locks.run at ran
  cases place : (s.proc p).place with
  | outside | holding =>
    simp only [place, Option.some.injEq] at ran
    subst ran
    apply good.move <;> simp [place, awake]
  | asleep =>
    simp only [place, Option.some.injEq] at ran
    subst ran
    apply good.move <;> simp [place, Place.spins, Place.owns]
  | entering | returning =>
    simp only [place, Option.ite_none_right_eq_some, Option.some.injEq] at ran
    obtain ⟨free, rfl⟩ := ran
    apply good.acquire free <;> simp [place, Place.spins, Place.owns, notOnLock, awake]
  | testing =>
    simp only [place] at ran
    cases isLocked : s.locked with
    | true =>
      simp only [isLocked, ↓reduceIte, Option.some.injEq] at ran
      subst ran
      apply good.release <;> simp [place, Place.spins, Place.owns, isLocked]
    | false =>
      simp only [isLocked, Bool.false_eq_true, ↓reduceIte, Option.some.injEq] at ran
      subst ran
      apply good.take place isLocked <;> simp [place, notOnLock, awake]
  | taking | leaving =>
    simp only [place, Option.some.injEq] at ran
    subst ran
    apply good.release <;> simp [place, Place.spins, Place.owns, notOnLock]
  | releasing =>
    simp only [place, Option.some.injEq] at ran
    subst ran
    apply good.clear place <;> simp [place, notOnLock, awake]
  | waking =>
    simp only [place, Option.some.injEq] at ran
    subst ran
    apply good.wakes place <;> simp [place, notOnLock, awake]

theorem Sound.step {a : Action} (taken : step s a = some t) : Sound t := by
  cases a with
  | acquiresleep p =>
    simp only [Locks.step, Option.ite_none_right_eq_some, Option.some.injEq] at taken
    obtain ⟨⟨place, awake⟩, rfl⟩ := taken
    apply good.move <;> simp [place, Place.spins, Place.owns]
  | releasesleep p =>
    simp only [Locks.step, Option.ite_none_right_eq_some, Option.some.injEq] at taken
    obtain ⟨⟨place, awake, free⟩, rfl⟩ := taken
    apply good.acquire free <;> simp [place, Place.spins, Place.owns, awake]
  | run p =>
    simp only [Locks.step, Option.ite_none_right_eq_some] at taken
    exact good.run taken.1 taken.2
  | sleep p n =>
    simp only [Locks.step, Option.ite_none_right_eq_some, Option.some.injEq] at taken
    obtain ⟨⟨place, awake⟩, rfl⟩ := taken
    cases place with
    | inl outside => apply good.move <;> simp [outside, Place.spins]
    | inr holding => apply good.move <;> simp [holding, Place.spins]
  | wakeup n =>
    cases taken
    exact good.wakeup (.other n)
  | kill p =>
    cases taken
    exact good.kill

end

theorem initsleeplock_sound : Sound initsleeplock := by
  constructor
  all_goals simp [initsleeplock, Place.spins, Place.owns]

/-- At most one process is between `acquiresleep` and `releasesleep`, `holdingsleep`
tells which, and nobody sleeps on a free lock. -/
theorem sleeplock_excludes {actions : List Action} (ran : exec step initsleeplock actions = some s) :
    (∀ p q, (s.proc p).place = .holding → (s.proc q).place = .holding → p = q) ∧
      (s.lk = none → ∀ p, holdingsleep s p = true ↔ (s.proc p).place = .holding) ∧
      ∀ p, (s.proc p).state = .sleeping → (s.proc p).chan = some .lock → s.lk = none → s.locked = true := by
  have good : Sound s :=
    exec_invariant_all Sound initsleeplock_sound (fun _ _ _ before taken => before.step taken) ran
  refine ⟨?_, ?_, ?_⟩
  · intro p q first second
    have ownsP := (good.owner p).mpr (by rw [first]; rfl)
    have ownsQ := (good.owner q).mpr (by rw [second]; rfl)
    exact ownsP.2.symm.trans ownsQ.2
  · intro free p
    have quiet : (s.proc p).place.spins = false := good.unlocked free
    have owner := good.owner p
    rw [holdingsleep, Bool.and_eq_true, beq_iff_eq, owner]
    cases place : (s.proc p).place with
    | holding | outside | entering | testing | asleep | returning | waking | leaving => simp [Place.owns]
    | taking | releasing =>
      rw [place] at quiet
      cases quiet
  · intro p asleep onLock free
    cases good.sleeper p asleep onLock with
    | inl isLocked => exact isLocked
    | inr waker =>
      obtain ⟨q, wakes⟩ := waker
      have quiet : (s.proc q).place.spins = false := good.unlocked free
      rw [wakes] at quiet
      cases quiet

def oneWaits : List Action := [.acquiresleep 1, .run 1, .run 1, .run 1, .acquiresleep 2, .run 2, .run 2]

theorem sleeplock_excludes_waiter : ∃ s, exec step initsleeplock oneWaits = some s ∧
    (s.proc 2).state = .sleeping ∧ s.locked = true ∧ holdingsleep s 1 = true ∧ holdingsleep s 2 = false := by
  have reached : (exec step initsleeplock oneWaits).map (fun s => (s.lk, s.proc 1, s.proc 2)) =
      some (none, { place := .holding }, { place := .asleep, state := .sleeping, chan := some .lock }) := by
    decide +kernel
  obtain ⟨s, ran, seen⟩ := Option.map_eq_some_iff.mp reached
  simp only [Prod.mk.injEq] at seen
  obtain ⟨free, one, two⟩ := seen
  obtain ⟨_, holding, sleeper⟩ := sleeplock_excludes ran
  refine ⟨s, ran, by rw [two], ?_, ?_, ?_⟩
  · exact sleeper 2 (by rw [two]) (by rw [two]) free
  · exact (holding free 1).mpr (by rw [one])
  · rw [← Bool.not_eq_true, holding free 2, two]
    decide

end Xv6.Locks
