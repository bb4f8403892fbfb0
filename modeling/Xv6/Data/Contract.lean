import Xv6.Data.Outcome
import Xv6.Data.Resource

namespace Xv6.Data

/-! # Programs that meet a postcondition

`Meets fine program state post`: from `state` the program returns with `post`, or
stops with an error that is allowed.  Without allowed errors it returns.
-/

variable {σ ε ρ α β ι : Type} {fine : ε → Prop} {program : Program σ ε α} {state : σ}
  {post other : α → σ → Prop}

def Meets (fine : ε → Prop) (program : Program σ ε α) (state : σ) (post : α → σ → Prop) : Prop :=
  Ends fine (fun result => post result.1 result.2) (program.run state)

namespace Meets

theorem pure {value : α} (holds : post value state) : Meets fine (Pure.pure value) state post := holds

theorem throw {reason : ε} (allowed : fine reason) :
    Meets fine (MonadExcept.throw reason : Program σ ε α) state post := allowed

theorem bind {next : α → Program σ ε β} {last : β → σ → Prop} (first : Meets fine program state post)
    (second : ∀ value middle, post value middle → Meets fine (next value) middle last) :
    Meets fine (program >>= next) state last := by
  unfold Meets
  rw [StateT.run_bind]
  exact Ends.bind first fun result holds => second result.1 result.2 holds

theorem get_bind {next : σ → Program σ ε β} {last : β → σ → Prop} (rest : Meets fine (next state) state last) :
    Meets fine (get >>= next) state last := rest

theorem modify_bind {update : σ → σ} {next : PUnit → Program σ ε β} {last : β → σ → Prop}
    (rest : Meets fine (next ()) (update state) last) :
    Meets fine ((modify update : Program σ ε PUnit) >>= next) state last := rest

theorem unknown : Meets (fun _ => True) program state fun _ _ => True := Ends.trivial

theorem weaken (meets : Meets fine program state post)
    (weaker : ∀ value final, post value final → other value final) : Meets fine program state other :=
  Ends.weaken meets fun result holds => weaker result.1 result.2 holds

theorem allow {fine' : ε → Prop} (meets : Meets fine program state post)
    (allowed : ∀ reason, fine reason → fine' reason) : Meets fine' program state post := Ends.allow meets allowed

theorem congr_run {another : Program σ ε α} {start : σ} (same : program.run state = another.run start)
    (meets : Meets fine another start post) : Meets fine program state post := by
  unfold Meets
  rw [same]
  exact meets

theorem returns {value : α} {final : σ} (ran : program.run state = .ok (value, final)) (holds : post value final) :
    Meets fine program state post := by
  unfold Meets
  rw [ran]
  exact holds

section

variable (meets : Meets fine program state post)
include meets

theorem of_run {value : α} {final : σ}
    (ran : program.run state = .ok (value, final)) : post value final := by
  unfold Meets at meets
  rw [ran] at meets
  exact meets

theorem of_error {reason : ε} (failed : program.run state = .error reason) : fine reason :=
  Ends.of_error meets failed

/-- The run itself, for facts about runs with a certain result. -/
theorem with_run :
    Meets fine program state fun value final => post value final ∧ program.run state = .ok (value, final) := by
  unfold Meets at meets ⊢
  cases ran : program.run state with
  | ok result =>
    rw [ran] at meets
    exact ⟨meets, rfl⟩
  | error reason =>
    rw [ran] at meets
    exact meets

theorem both {fine' : ε → Prop} (also : Meets fine' program state other) :
    Meets fine program state fun value final => post value final ∧ other value final :=
  meets.with_run.weaken fun _ _ ⟨holds, ran⟩ => ⟨holds, also.of_run ran⟩

/-- With a law of conservation, what is kept is known as well. -/
theorem conserving {pool : σ → Multiset ρ} {held : Multiset ρ} {keeps : α → Multiset ρ → Prop}
    (conserves : Conserves pool held program keeps) :
    Meets fine program state fun value final =>
      post value final ∧ ∃ kept, keeps value kept ∧ kept + pool final = held + pool state :=
  meets.with_run.weaken fun value final ⟨holds, ran⟩ => ⟨holds, conserves state value final ran⟩

end

/-- A loop over a list, with what every round keeps. -/
theorem forM {body : ι → Program σ ε PUnit} {items : List ι} (inv : σ → Prop) (start : inv state)
    (round : ∀ item ∈ items, ∀ now, inv now → Meets fine (body item) now fun _ next => inv next) :
    Meets fine (ForM.forM items body) state fun _ final => inv final := by
  induction items generalizing state with
  | nil =>
    rw [List.forM_nil]
    exact .pure start
  | cons item rest ih =>
    obtain ⟨first, others⟩ := List.forall_mem_cons.mp round
    rw [List.forM_cons]
    exact (first state start).bind fun _ _ kept => ih kept others

/-- Without allowed errors there is a result. -/
theorem exists_run (meets : Meets (fun _ => False) program state post) :
    ∃ value final, program.run state = .ok (value, final) ∧ post value final := by
  cases ran : program.run state with
  | ok result => exact ⟨result.1, result.2, rfl, meets.of_run ran⟩
  | error reason => exact (meets.of_error ran).elim

end Meets

-- From here on only the rules are used: comparing two `Meets` never runs a program.
attribute [irreducible] Meets

end Xv6.Data
