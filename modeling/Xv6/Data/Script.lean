import Xv6.Data.Outcome

namespace Xv6.Data

/-! # Programs over an interface

A script asks queries and goes on with the answers; a handler gives the queries a
meaning on a state.
-/

variable {Q : Type} {A : Q → Type} {ε α β σ : Type}

inductive Script (Q : Type) (A : Q → Type) (ε α : Type) where
  | done (value : α)
  | stop (reason : ε)
  | ask (query : Q) (next : A query → Script Q A ε α)

abbrev Handler (σ Q : Type) (A : Q → Type) (ε : Type) := σ → (query : Q) → Except ε (A query × σ)

namespace Script

def bind : Script Q A ε α → (α → Script Q A ε β) → Script Q A ε β
  | done value, f => f value
  | stop reason, _ => stop reason
  | ask query next, f => ask query fun answer => (next answer).bind f

instance : Monad (Script Q A ε) where
  pure := done
  bind := bind

theorem bind_done (script : Script Q A ε α) : script.bind done = script := by
  induction script with
  | done value | stop reason => rfl
  | ask query next ih => exact congrArg (ask query) (funext ih)

theorem bind_bind {γ : Type} (script : Script Q A ε α) (f : α → Script Q A ε β) (g : β → Script Q A ε γ) :
    (script.bind f).bind g = script.bind fun value => (f value).bind g := by
  induction script with
  | done value | stop reason => rfl
  | ask query next ih => exact congrArg (ask query) (funext ih)

instance : LawfulMonad (Script Q A ε) := LawfulMonad.mk' _ bind_done (fun _ _ => rfl) bind_bind

def query (q : Q) : Script Q A ε (A q) := ask q done

def run (handler : Handler σ Q A ε) : Script Q A ε α → σ → Except ε (α × σ)
  | done value, state => .ok (value, state)
  | stop reason, _ => .error reason
  | ask query next, state => handler state query >>= fun (answer, after) => (next answer).run handler after

variable {handler : Handler σ Q A ε} {state : σ} {fine : ε → Prop}

@[simp] theorem run_query (q : Q) : (query q : Script Q A ε (A q)).run handler state = handler state q := by
  cases answered : handler state q with
  | error reason | ok pair => simp only [query, run, answered]; rfl

theorem run_bind (script : Script Q A ε α) (f : α → Script Q A ε β) :
    (script >>= f).run handler state =
      script.run handler state >>= fun (value, after) => (f value).run handler after := by
  induction script generalizing state with
  | done value | stop reason => rfl
  | ask query next ih =>
    change (handler state query >>= fun (answer, after) => (next answer >>= f).run handler after) = _
    cases answered : handler state query with
    | error reason => simp only [run, answered]; rfl
    | ok pair =>
      simp only [run, answered]
      exact ih pair.1

theorem run_bind_of_ok {script : Script Q A ε α} {f : α → Script Q A ε β} {value : α} {after : σ}
    (ran : script.run handler state = .ok (value, after)) :
    (script >>= f).run handler state = (f value).run handler after := by
  rw [run_bind, ran]
  rfl

theorem run_bind_ok {script : Script Q A ε α} {f : α → Script Q A ε β} {result : β} {final : σ}
    (ran : (script >>= f).run handler state = .ok (result, final)) :
    ∃ value middle, script.run handler state = .ok (value, middle) ∧
      (f value).run handler middle = .ok (result, final) := by
  rw [run_bind] at ran
  cases first : script.run handler state with
  | error reason =>
    rw [first] at ran
    cases ran
  | ok pair =>
    rw [first] at ran
    exact ⟨pair.1, pair.2, rfl, ran⟩

/-! `shows view state` says what is known of a state.  `Leads shows view script post`:
from every state that shows `view`, the script returns a value and a state that
shows a view as `post` says, or stops for an allowed reason.
-/

variable {ν : Type} {shows : ν → σ → Prop} {view : ν} {script : Script Q A ε α}

def Leads (handler : Handler σ Q A ε) (fine : ε → Prop) (shows : ν → σ → Prop) (view : ν)
    (script : Script Q A ε α) (post : α → ν → Prop) : Prop :=
  ∀ state, shows view state →
    Ends fine (fun pair => ∃ after, post pair.1 after ∧ shows after pair.2) (script.run handler state)

namespace Leads

theorem pure {value : α} {post : α → ν → Prop} (holds : post value view) :
    Leads handler fine shows view (Pure.pure value) post :=
  fun _ known => ⟨view, holds, known⟩

theorem stop {reason : ε} {post : α → ν → Prop} (allowed : fine reason) :
    Leads handler fine shows view (.stop reason) post :=
  fun _ _ => allowed

theorem bind {f : α → Script Q A ε β} {middle : α → ν → Prop} {last : β → ν → Prop}
    (first : Leads handler fine shows view script middle)
    (second : ∀ value after, middle value after → Leads handler fine shows after (f value) last) :
    Leads handler fine shows view (script >>= f) last := by
  intro state known
  rw [run_bind]
  apply (first state known).bind
  intro pair holds
  obtain ⟨after, shown, knownAfter⟩ := holds
  exact second pair.1 after shown pair.2 knownAfter

/-- A script without a result, when the view after it is known. -/
theorem seq {script : Script Q A ε Unit} {f : Unit → Script Q A ε β} {next : ν} {last : β → ν → Prop}
    (first : Leads handler fine shows view script fun _ after => after = next)
    (second : Leads handler fine shows next (f ()) last) :
    Leads handler fine shows view (script >>= f) last :=
  first.bind fun _ _ reached => reached ▸ second

theorem weaken {post other : α → ν → Prop} (leads : Leads handler fine shows view script post)
    (weaker : ∀ value after, post value after → other value after) :
    Leads handler fine shows view script other := by
  intro state known
  apply (leads state known).weaken
  intro pair holds
  obtain ⟨after, shown, knownAfter⟩ := holds
  exact ⟨after, weaker pair.1 after shown, knownAfter⟩

/-- A view may be replaced by another one of the same states. -/
theorem of_view (other : ν) {post : α → ν → Prop} (leads : Leads handler fine shows other script post)
    (known : ∀ state, shows view state → shows other state) :
    Leads handler fine shows view script post :=
  fun state shown => leads state (known state shown)

end Leads

variable {τ : Type} {rel : σ → τ → Prop}

/-- The second result is the first one in a related state; nothing is said where the
first is an error that is not `fine`. -/
def Agrees (fine : ε → Prop) (rel : σ → τ → Prop) : Except ε (α × σ) → Except ε (α × τ) → Prop
  | .ok (value, state), result => ∃ other, result = .ok (value, other) ∧ rel state other
  | .error reason, result => fine reason → result = .error reason

/-- How the first one ends tells how the second one does. -/
theorem Agrees.ends {allowed : ε → Prop} {post : α × σ → Prop} {first : Except ε (α × σ)} {second : Except ε (α × τ)}
    (agrees : Agrees allowed rel first second) (ends : Ends fine post first)
    (looked : ∀ reason, fine reason → allowed reason) :
    Ends fine (fun pair => ∃ state, post (pair.1, state) ∧ rel state pair.2) second := by
  cases first with
  | error reason =>
    rw [agrees (looked reason ends)]
    exact ends
  | ok pair =>
    obtain ⟨other, same, related⟩ := agrees
    rw [same]
    exact .ok ⟨pair.2, ends, related⟩

theorem run_agrees {handler : Handler σ Q A ε} {second : Handler τ Q A ε}
    (agree : ∀ state other query, rel state other → Agrees fine rel (handler state query) (second other query))
    (script : Script Q A ε α) {state : σ} {other : τ} (related : rel state other) :
    Agrees fine rel (script.run handler state) (script.run second other) := by
  induction script generalizing state other with
  | done value => exact ⟨other, rfl, related⟩
  | stop reason => exact fun _ => rfl
  | ask query next ih =>
    have answers := agree state other query related
    simp only [run]
    cases first : handler state query with
    | error reason =>
      rw [first] at answers
      intro allowed
      rw [answers allowed]
      rfl
    | ok pair =>
      rw [first] at answers
      obtain ⟨after, answered, relatedAfter⟩ := answers
      rw [answered]
      exact ih pair.1 relatedAfter

def last (handler : Handler σ Q A ε) : Script Q A ε α → σ → σ
  | done _, state => state
  | stop _, state => state
  | ask query next, state =>
    match handler state query with
    | .ok (answer, after) => (next answer).last handler after
    | .error _ => state

end Script

end Xv6.Data
