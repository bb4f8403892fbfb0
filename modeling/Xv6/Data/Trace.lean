import Mathlib

namespace Xv6.Data

/-! # Runs of a guarded step function

A step function returns `none` for an action that is not enabled; all choice is in
the actions.  `Along` restricts a run by a condition on every step.
-/

variable {σ τ α γ ε : Type} {step : σ → α → Option σ}

/-- Take the actions of a list in order, stopping at the first disabled one. -/
def exec (step : σ → α → Option σ) : σ → List α → Option σ
  | state, [] => some state
  | state, action :: rest => (step state action).bind fun next => exec step next rest

theorem ok_of_toOption {result : Except ε σ} {state : σ} (found : result.toOption = some state) :
    result = .ok state := by
  cases result with
  | error reason => cases found
  | ok other => exact congrArg _ (Option.some.inj found)

/-- Every step that the run takes satisfies `ok` in the state it starts from. -/
def Along (step : σ → α → Option σ) (ok : σ → α → Prop) : σ → List α → Prop
  | _, [] => True
  | state, action :: rest =>
    ok state action ∧ ∀ next, step state action = some next → Along step ok next rest

instance decidableAlong {ok : σ → α → Prop} [∀ state action, Decidable (ok state action)] :
    ∀ state actions, Decidable (Along step ok state actions)
  | _, [] => isTrue trivial
  | state, action :: rest =>
    match taken : step state action with
    | none => decidable_of_iff (ok state action) (by simp [Along, taken])
    | some next =>
      have : Decidable (Along step ok next rest) := decidableAlong next rest
      decidable_of_iff (ok state action ∧ Along step ok next rest) (by simp [Along, taken])

variable {ok : σ → α → Prop} {event : σ → α → ε} {state middle final : σ} {actions first second : List α}

theorem exec_cons {action : α} {rest : List α} (ran : exec step state (action :: rest) = some final) :
    ∃ next, step state action = some next ∧ exec step next rest = some final :=
  Option.bind_eq_some_iff.mp ran

theorem exec_append : exec step state (first ++ second) = some final ↔
      ∃ middle, exec step state first = some middle ∧ exec step middle second = some final := by
  induction first generalizing state with
  | nil => simp [exec]
  | cons action rest ih =>
    constructor
    · intro ran
      obtain ⟨next, taken, remaining⟩ := exec_cons ran
      obtain ⟨middle, reached, finished⟩ := ih.mp remaining
      exact ⟨middle, by simp [exec, taken, reached], finished⟩
    · rintro ⟨middle, reached, finished⟩
      obtain ⟨next, taken, remaining⟩ := exec_cons reached
      have tail := ih.mpr ⟨middle, remaining, finished⟩
      simp [exec, taken, tail]

theorem Along.of_append (along : Along step ok state (first ++ second)) (ran : exec step state first = some middle) :
    Along step ok state first ∧ Along step ok middle second := by
  induction first generalizing state with
  | nil =>
    cases ran
    exact ⟨trivial, along⟩
  | cons action rest ih =>
    obtain ⟨next, taken, remaining⟩ := exec_cons ran
    obtain ⟨_, after⟩ := ih (along.2 next taken) remaining
    refine ⟨⟨along.1, fun other isNext => ?_⟩, after⟩
    obtain rfl := Option.some.inj (taken.symm.trans isNext)
    exact (ih (along.2 next taken) remaining).1

theorem along_true : Along step (fun _ _ => True) state actions := by
  induction actions generalizing state with
  | nil => trivial
  | cons action rest ih => exact ⟨trivial, fun _ _ => ih⟩

theorem Along.and {also : σ → α → Prop} (first : Along step ok state actions)
    (second : Along step also state actions) :
    Along step (fun state action => ok state action ∧ also state action) state actions := by
  induction actions generalizing state with
  | nil => trivial
  | cons action rest ih =>
    exact ⟨⟨first.1, second.1⟩, fun next taken => ih (first.2 next taken) (second.2 next taken)⟩

/-- The invariant rule: what holds at the start and is kept by every step that
meets the side condition holds at the end of every run that respects it. -/
theorem exec_invariant (Inv : σ → Prop) (start : Inv state) (along : Along step ok state actions)
    (kept : ∀ before action after, Inv before → ok before action →
      step before action = some after → Inv after)
    (ran : exec step state actions = some final) : Inv final := by
  induction actions generalizing state with
  | nil =>
    cases ran
    exact start
  | cons action rest ih =>
    obtain ⟨next, taken, remaining⟩ := exec_cons ran
    exact ih (kept state action next start along.1 taken) (along.2 next taken) remaining

theorem exec_invariant_all (Inv : σ → Prop) (start : Inv state)
    (kept : ∀ before action after, Inv before → step before action = some after → Inv after)
    (ran : exec step state actions = some final) : Inv final :=
  exec_invariant Inv start along_true (fun before action after good _ => kept before action after good) ran

/-- A value that does not influence the run, updated at every step it takes. -/
def ghost (step : σ → α → Option σ) (update : σ → α → γ → γ) : σ → γ → List α → γ
  | _, value, [] => value
  | state, value, action :: rest =>
    match step state action with
    | some next => ghost step update next (update state action value) rest
    | none => value

theorem ghost_invariant {update : σ → α → γ → γ} (Inv : σ → γ → Prop)
    {value : γ} (start : Inv state value) (along : Along step ok state actions)
    (kept : ∀ before value action after, Inv before value → ok before action →
      step before action = some after → Inv after (update before action value))
    (ran : exec step state actions = some final) :
    Inv final (ghost step update state value actions) := by
  induction actions generalizing state value with
  | nil =>
    cases ran
    exact start
  | cons action rest ih =>
    obtain ⟨next, taken, remaining⟩ := exec_cons ran
    simp only [ghost, taken]
    exact ih (kept state value action next start along.1 taken) (along.2 next taken) remaining

theorem ghost_append {update : σ → α → γ → γ} {value : γ} (ran : exec step state first = some middle) :
    ghost step update state value (first ++ second) =
      ghost step update middle (ghost step update state value first) second := by
  induction first generalizing state value with
  | nil =>
    cases ran
    rfl
  | cons action rest ih =>
    obtain ⟨next, taken, remaining⟩ := exec_cons ran
    simp only [List.cons_append, ghost, taken]
    exact ih remaining

/-- What the steps of a run mean to an abstract machine, in order. -/
def emitted (step : σ → α → Option σ) (event : σ → α → ε) : σ → List α → List ε
  | _, [] => []
  | state, action :: rest =>
    match step state action with
    | some next => event state action :: emitted step event next rest
    | none => []

theorem emitted_map {β : Type} {f : ε → β} :
    emitted step (fun state action => f (event state action)) state actions =
      (emitted step event state actions).map f := by
  induction actions generalizing state with
  | nil => rfl
  | cons action rest ih =>
    simp only [emitted]
    split
    · rw [ih, List.map_cons]
    · rfl

theorem emitted_all {P : ε → Prop} (each : ∀ action ∈ actions, ∀ before, P (event before action)) :
    ∀ value ∈ emitted step event state actions, P value := by
  induction actions generalizing state with
  | nil => simp [emitted]
  | cons action rest ih =>
    obtain ⟨first, others⟩ := List.forall_mem_cons.mp each
    simp only [emitted]
    split
    · exact List.forall_mem_cons.mpr ⟨first state, ih others⟩
    · simp

theorem along_iff_emitted {P : ε → Prop} (ran : exec step state actions = some final) :
    Along step (fun state action => P (event state action)) state actions ↔
      ∀ value ∈ emitted step event state actions, P value := by
  induction actions generalizing state with
  | nil => simp [Along, emitted]
  | cons action rest ih =>
    obtain ⟨next, taken, remaining⟩ := exec_cons ran
    simp [Along, emitted, taken, ih remaining]

theorem emitted_flatMap {β : Type} {values : ε → List β} {own : α → List β}
    (same : ∀ before action, values (event before action) = own action)
    (ran : exec step state actions = some final) :
    (emitted step event state actions).flatMap values = actions.flatMap own := by
  induction actions generalizing state with
  | nil => rfl
  | cons action rest ih =>
    obtain ⟨next, taken, remaining⟩ := exec_cons ran
    simp only [emitted, taken, List.flatMap_cons, same, ih remaining]

/-- A queue: what every step puts in at the back and takes out at the front of
`contents`, all steps of a run put in and take out together. -/
theorem emitted_fifo {β : Type} (Inv : σ → Prop) {contents : σ → List β}
    {puts gets : σ → α → List β} (start : Inv state) (along : Along step ok state actions)
    (kept : ∀ before action after, Inv before → ok before action → step before action = some after →
      Inv after ∧ contents before ++ puts before action = gets before action ++ contents after)
    (ran : exec step state actions = some final) :
    contents state ++ (emitted step puts state actions).flatten =
      (emitted step gets state actions).flatten ++ contents final := by
  induction actions generalizing state with
  | nil =>
    cases ran
    simp [emitted]
  | cons action rest ih =>
    obtain ⟨next, taken, remaining⟩ := exec_cons ran
    obtain ⟨good, moved⟩ := kept state action next start along.1 taken
    have later := ih good (along.2 next taken) remaining
    simp only [emitted, taken, List.flatten_cons, List.append_assoc]
    rw [← List.append_assoc, moved, List.append_assoc, later]

/-- The simulation rule: a relation that every step keeps, when the abstract
machine does what the step emits, relates the ends of the two runs. -/
theorem exec_simulates {abstract : τ → ε → τ}
    (Rel : σ → τ → Prop) {value : τ} (start : Rel state value) (along : Along step ok state actions)
    (kept : ∀ before value action after, Rel before value → ok before action →
      step before action = some after → Rel after (abstract value (event before action)))
    (ran : exec step state actions = some final) :
    Rel final ((emitted step event state actions).foldl abstract value) := by
  induction actions generalizing state value with
  | nil =>
    cases ran
    exact start
  | cons action rest ih =>
    obtain ⟨next, taken, remaining⟩ := exec_cons ran
    simp only [emitted, taken, List.foldl_cons]
    exact ih (kept state value action next start along.1 taken) (along.2 next taken) remaining

/-- What every step keeps of the events so far holds of the events of a run. -/
theorem emitted_invariant (Inv : σ → List ε → Prop)
    (start : Inv state []) (along : Along step ok state actions)
    (kept : ∀ before past action after, Inv before past → ok before action →
      step before action = some after → Inv after (past ++ [event before action]))
    (ran : exec step state actions = some final) : Inv final (emitted step event state actions) := by
  have folded : Inv final ((emitted step event state actions).foldl (fun past value => past ++ [value]) []) :=
    exec_simulates Inv start along kept ran
  rw [List.foldl_append_eq_append, List.nil_append, ← List.flatMap_def, List.flatMap_singleton'] at folded
  exact folded

/-- An exact condition: if a step from a state that satisfies `P` leads to such a
state exactly when it meets `ok`, then `P` holds all along a run exactly when
every step of the run meets `ok`. -/
theorem along_iff_always {domain : σ → α → Prop} (Inv P : σ → Prop) (start : Inv state)
    (initially : P state) (along : Along step domain state actions)
    (kept : ∀ before action after, Inv before → domain before action →
      step before action = some after → Inv after)
    (decides : ∀ before action after, Inv before → domain before action → P before →
      step before action = some after → (P after ↔ ok before action))
    (ran : exec step state actions = some final) : Along step ok state actions ↔
      ∀ first rest middle, actions = first ++ rest → exec step state first = some middle → P middle := by
  constructor
  · intro allowed first rest middle split reached
    subst split
    have both : Inv middle ∧ P middle := by
      obtain ⟨within, _⟩ := allowed.of_append reached
      obtain ⟨inside, _⟩ := along.of_append reached
      refine exec_invariant (fun state => Inv state ∧ P state) ⟨start, initially⟩ (within.and inside) ?_ reached
      intro before action after good meets taken
      exact ⟨kept before action after good.1 meets.2 taken,
        (decides before action after good.1 meets.2 good.2 taken).mpr meets.1⟩
    exact both.2
  · intro always
    induction actions generalizing state with
    | nil => trivial
    | cons action rest ih =>
      obtain ⟨next, taken, remaining⟩ := exec_cons ran
      have holds : P next := always [action] rest next rfl (by simp [exec, taken])
      refine ⟨(decides state action next start along.1 initially taken).mp holds, ?_⟩
      intro other isNext
      obtain rfl := Option.some.inj (taken.symm.trans isNext)
      refine ih (kept state action next start along.1 taken) holds (along.2 next taken) remaining ?_
      intro first tail middle split reached
      refine always (action :: first) tail middle (by rw [split]; rfl) ?_
      simp [exec, taken, reached]

/-- A condition that follows from another one in every state of an invariant. -/
theorem Along.of_invariant {also : σ → α → Prop} (Inv : σ → Prop) (start : Inv state)
    (along : Along step ok state actions)
    (kept : ∀ before action after, Inv before → ok before action →
      step before action = some after → Inv after)
    (follows : ∀ before action, Inv before → ok before action → also before action) :
    Along step also state actions := by
  induction actions generalizing state with
  | nil => trivial
  | cons action rest ih =>
    refine ⟨follows state action start along.1, fun next taken => ?_⟩
    exact ih (kept state action next start along.1 taken) (along.2 next taken)

end Xv6.Data
