import Xv6.Process.Charging

namespace Xv6.Process

open Xv6.Data

/-! # Sleep time

`wakeup1` and `kill` charge the ticks since `last_time`, which `sleep` has set, and
nothing else writes `last_time` of a process that sleeps.
-/

variable {s t u : State} {a : Action} {c : CpuId} {x y p np : Slot} {ticks : Ticks} {slept : Slot → Nat}

/-- The ticks that elapsed while the process in a slot slept.  A process starts at zero
when `allocproc` records its creation. -/
def sleptAdvance (s : State) (a : Action) (slept : Slot → Nat) : Slot → Nat :=
  match a with
  | .tick => fun x => if (s.proc x).state = .sleeping then slept x + 1 else slept x
  | .forkStack c (some _) =>
    match (s.cpu c).proc.map fun p => (s.proc p).inside with
    | some (.forkStack np) => Function.update slept np 0
    | _ => slept
  | _ => slept

def sleptTicks (s : State) (actions : List Action) : Slot → Nat :=
  ghost step sleptAdvance s (fun _ => 0) actions

/-- What `sleep_time` comes to when the present sleep is charged. -/
def Proc.account (p : Proc) (ticks : Ticks) : Ticks :=
  if p.state = .sleeping then p.sleepTime + (ticks - p.lastTime) else p.sleepTime

theorem Proc.account_awake {q : Proc} (awake : q.state ≠ .sleeping) : q.account ticks = q.sleepTime :=
  if_neg awake

theorem Proc.account_woken {q : Proc} (asleep : q.state = .sleeping) :
    (q.woken ticks).account ticks = q.account ticks := by
  simp [Proc.account, Proc.woken, asleep]

theorem Proc.account_killedAt (q : Proc) : (q.killedAt ticks).account ticks = q.account ticks := by
  by_cases asleep : q.state = .sleeping <;> simp [Proc.account, Proc.killedAt, asleep]

theorem Proc.account_asleep {q : Proc} {chan : Chan} (running : q.state = .running) :
    ({ q.asleep ticks chan with context := .sleep } : Proc).account ticks = q.account ticks := by
  simp [Proc.account, Proc.asleep, running]

theorem Proc.Update.account {old new : Proc} (update : Proc.Update s a x old new)
    (born : ∀ c stack, a ≠ .forkStack c (some stack)) : new.account s.ticks = old.account s.ticks := by
  cases update with
  | woken asleep => exact Proc.account_woken asleep
  | killed => exact Proc.account_killedAt _
  | sleeps running => exact Proc.account_asleep running
  | allocated unused => simp [Proc.account, Proc.allocated, unused]
  | @stacked kstack c embryo is =>
    cases kstack with
    | none => simp [Proc.account, Proc.stacked, embryo]
    | some stack => exact absurd is (born c stack)
  | @copied parent pgdir embryo => cases pgdir <;> simp [Proc.account, Proc.copied, embryo]
  | ready inside embryo => simp [Proc.account, embryo]
  | ends running | yields running | stamped running => simp [Proc.account, running]
  | reaped zombie => simp [Proc.account, Proc.reaped, zombie]
  | dispatched runnable => simp [Proc.account, Proc.dispatched, runnable]
  | _ => rfl

def Accounted (s : State) (slept : Slot → Nat) : Prop :=
  ∀ x, (s.proc x).account s.ticks = BitVec.ofNat 32 (slept x)

theorem Accounted.kept (good : Accounted s slept) (sound : Sound s) (taken : step s a = some t) (noTick : a ≠ .tick)
    (born : ∀ c stack, a ≠ .forkStack c (some stack)) : Accounted t slept := by
  intro x
  rw [ticks_of_step sound taken noTick]
  apply (updates_of_step sound taken x).keeps (P := fun p => p.account s.ticks = BitVec.ofNat 32 (slept x)) _ (good x)
  intro old new update same
  rw [update.account born, same]

theorem Accounted.tick (good : Accounted s slept) :
    Accounted { s with ticks := s.ticks + 1 } (sleptAdvance s .tick slept) := by
  intro x
  have entry := good x
  simp only [sleptAdvance]
  by_cases asleep : (s.proc x).state = .sleeping
  · simp only [Proc.account, asleep, if_true] at entry ⊢
    have later : s.ticks + 1 - (s.proc x).lastTime = s.ticks - (s.proc x).lastTime + 1 := by ring
    rw [later, ← BitVec.add_assoc, entry, BitVec.ofNat_add]
    rfl
  · rw [Proc.account_awake asleep] at entry ⊢
    rw [if_neg asleep]
    exact entry

theorem Accounted.stack {kstack : Nat} (good : Accounted s slept) (sound : Sound s) (on : (s.cpu c).proc = some p)
    (elsewhere : s.lock ≠ .scheduler c) (inside : (s.proc p).inside = .forkStack np) :
    Accounted ((s.setProc np (·.stacked s.ticks (some kstack))).setProc p ({ · with inside := .forkCopy np }))
      (Function.update slept np 0) := by
  have running := sound.cpus.running c p on elsewhere
  have owned : (s.proc p).inside.child = some np := by rw [inside]; rfl
  have embryo := (sound.forks.parent p np owned).2
  have part := ForkPart.later sound.forks running owned (·.stacked s.ticks (some kstack)) (.forkCopy np)
  intro x
  rw [Function.update_apply]
  by_cases isChild : x = np
  · rw [if_pos isChild, isChild, part.child]
    simp [Proc.account, Proc.stacked, embryo]
  · rw [if_neg isChild]
    by_cases isParent : x = p
    · rw [isParent, part.parent]
      exact isParent ▸ good x
    · rw [part.others x isParent isChild]
      exact good x

theorem stack_moves {kstack : Option Nat} : Process.step s (.forkStack c kstack) ≠ some s := by
  intro taken
  obtain ⟨p, _, _, part⟩ := running_next (step_eq_some.mp taken)
  split at part
  · rename_i np inside
    have same := congrArg (fun u : State => (u.proc p).inside) (Result.next.inj part)
    simp only [State.setProc_proc_self, inside] at same
    split at same <;> contradiction
  · contradiction

theorem Accounted.step (good : Accounted s slept) (sound : Sound s) (taken : step s a = some t) :
    Accounted t (sleptAdvance s a slept) := by
  cases a with
  | tick =>
    cases sound.effect taken with
    | tick => exact good.tick
    | nothing noTick => exact absurd rfl noTick
  | forkStack c kstack =>
    cases kstack with
    | none => exact good.kept sound taken (by simp) (by simp)
    | some stack =>
      cases sound.effect taken with
      | @forkStack c p np kstack on elsewhere inside =>
        have reset : sleptAdvance s (.forkStack c (some stack)) slept = Function.update slept np 0 := by
          simp [sleptAdvance, on, inside]
        rw [reset]
        exact good.stack sound on elsewhere.1 inside
      | nothing => exact absurd taken stack_moves
  | _ => exact good.kept sound taken (by simp) (by simp)

theorem accounted_userinit (ticks : Ticks) (kstack pgdir : Nat) :
    Accounted (userinit ticks kstack pgdir) fun _ => 0 := by
  intro x
  by_cases init : x = 0
  · rw [init, userinit_proc_init]
    rfl
  · rw [userinit_proc_other _ _ _ init]
    rfl

theorem accounted_run {ticks : Ticks} {kstack pgdir : Nat} {actions : List Action}
    (ran : exec Process.step (userinit ticks kstack pgdir) actions = some s) :
    Sound s ∧ Accounted s (sleptTicks (userinit ticks kstack pgdir) actions) := by
  apply ghost_invariant (fun s slept => Sound s ∧ Accounted s slept) _ along_true _ ran
  · exact ⟨sound_userinit ticks kstack pgdir, accounted_userinit ticks kstack pgdir⟩
  · intro before slept action after ⟨sound, good⟩ _ taken
    exact ⟨sound.step taken, good.step sound taken⟩

/-- In every state of every run, `sleep_time` of a process that does not sleep is the
number of ticks that it has slept since its creation, as an `int`, and that is what
`exit` records. -/
theorem sleepTime_exact {ticks : Ticks} {kstack pgdir : Nat} {actions : List Action}
    (ran : exec step (userinit ticks kstack pgdir) actions = some s) (x : Slot) :
    ((s.proc x).state ≠ .sleeping →
      Shows (s.proc x).sleepTime (sleptTicks (userinit ticks kstack pgdir) actions x)) ∧
    ∀ c t, (s.cpu c).proc = some x → step s (.exitBegin c) = some t →
      Shows (t.infos (s.proc x).pid).sleepTime (sleptTicks (userinit ticks kstack pgdir) actions x) := by
  obtain ⟨sound, accounts⟩ := accounted_run ran
  have exact_ (awake : (s.proc x).state ≠ .sleeping) :
      Shows (s.proc x).sleepTime (sleptTicks (userinit ticks kstack pgdir) actions x) := by
    rw [← Proc.account_awake awake, accounts x]
    exact shows_ofNat _
  refine ⟨exact_, ?_⟩
  intro c t on exits
  obtain ⟨q, onQ, away, _, rfl⟩ := exitBegin_taken exits
  obtain rfl : x = q := Option.some.inj (on.symm.trans onQ)
  have running := sound.cpus.running c x on away
  simp only [exitBegin, Function.update_self]
  exact exact_ (by simp [running])

theorem sleepTime_exact_child : ∃ s, exec step (userinit 0 1 2) runSleepRun = some s ∧
    (s.proc 1).state = .running ∧ Shows (s.proc 1).sleepTime (sleptTicks (userinit 0 1 2) runSleepRun 1) := by
  have observed : ((exec step (userinit 0 1 2) runSleepRun).map fun s => (s.proc 1).state) = some .running := by
    decide +kernel
  obtain ⟨s, ran, running⟩ := Option.map_eq_some_iff.mp observed
  exact ⟨s, ran, running, (sleepTime_exact ran 1).1 (by simp [running])⟩

theorem exec_ticks (s : State) (n : Nat) :
    exec step s (List.replicate n .tick) = some { s with ticks := s.ticks + BitVec.ofNat 32 n } := by
  induction n generalizing s with
  | zero => simp [exec]
  | succ n ih =>
    have next : step s .tick = some { s with ticks := s.ticks + 1 } := rfl
    rw [List.replicate_succ, exec, next, Option.bind_some, ih, BitVec.ofNat_add, BitVec.add_assoc,
      BitVec.add_comm 1]
    rfl

theorem slept_ticks (asleep : (s.proc x).state = .sleeping) (n : Nat) :
    ghost step sleptAdvance s slept (List.replicate n .tick) x = slept x + n := by
  induction n generalizing s slept with
  | zero => rfl
  | succ n ih =>
    have next : step s .tick = some { s with ticks := s.ticks + 1 } := rfl
    rw [List.replicate_succ, ghost, next]
    dsimp only
    rw [ih (s := { s with ticks := s.ticks + 1 }) asleep]
    simp only [sleptAdvance, asleep, if_true]
    omega

def fallsAsleep : List Action := firstDispatch ++ [.sleep 0 7, .scheduler 0, .scheduler 0]

theorem wakes_after (n : Nat) : ∃ actions s, exec step (userinit 0 1 2) actions = some s ∧
    (s.proc 0).state = .runnable ∧ sleptTicks (userinit 0 1 2) actions 0 = n := by
  have observed : ((exec step (userinit 0 1 2) fallsAsleep).map fun s =>
      ((s.proc 0).sleepsOn (some (.addr 7)), s.lock, sleptTicks (userinit 0 1 2) fallsAsleep 0)) =
      some (true, .free, 0) := by decide +kernel
  obtain ⟨s, asleep, seen⟩ := Option.map_eq_some_iff.mp observed
  simp only [Prod.mk.injEq] at seen
  obtain ⟨sleeps, free, none⟩ := seen
  have state := Proc.sleepsOn_state sleeps
  have ticked := exec_ticks s n
  generalize later : ({ s with ticks := s.ticks + BitVec.ofNat 32 n } : State) = u at ticked
  have same : u.proc = s.proc ∧ u.lock = .free := by
    rw [← later]
    exact ⟨rfl, free⟩
  have woken : step u (.wakeup 7) = some (wakeup1 u (some (.addr 7))) := by
    simp only [step, act, locked, same.2, if_true]
  refine ⟨fallsAsleep ++ (List.replicate n .tick ++ [.wakeup 7]), wakeup1 u (some (.addr 7)), ?_, ?_, ?_⟩
  · refine exec_append.mpr ⟨s, asleep, exec_append.mpr ⟨u, ticked, ?_⟩⟩
    rw [exec, woken, Option.bind_some, exec]
  · rw [wakeup1_proc, same.1, if_pos sleeps]
    rfl
  · rw [sleptTicks, ghost_append asleep, ghost_append ticked]
    simp only [ghost, woken]
    change ghost step sleptAdvance s (sleptTicks (userinit 0 1 2) fallsAsleep) (List.replicate n .tick) 0 = n
    rw [slept_ticks state, none, Nat.zero_add]

theorem sleepTime_overflows : ∃ actions s, exec step (userinit 0 1 2) actions = some s ∧
    (s.proc 0).state = .runnable ∧ sleptTicks (userinit 0 1 2) actions 0 = 2147483648 ∧
    (s.proc 0).sleepTime.toInt = -2147483648 := by
  obtain ⟨actions, s, ran, runnable, slept⟩ := wakes_after 2147483648
  refine ⟨actions, s, ran, runnable, slept, ?_⟩
  have account := (accounted_run ran).2 0
  rw [Proc.account_awake (by simp [runnable]), slept] at account
  rw [account]
  decide

end Xv6.Process
