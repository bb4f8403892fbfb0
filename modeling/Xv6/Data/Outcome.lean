import Mathlib

namespace Xv6.Data

/-! # How a computation ends

`Ends fine post result`: a result satisfies `post`, or is an error that is allowed. -/

variable {ε α β : Type} {fine : ε → Prop} {post other : α → Prop} {result : Except ε α}

def Ends (fine : ε → Prop) (post : α → Prop) : Except ε α → Prop
  | .ok value => post value
  | .error reason => fine reason

namespace Ends

theorem ok {value : α} (holds : post value) : Ends fine post (.ok value) := holds

theorem error {reason : ε} (allowed : fine reason) : Ends fine post (.error reason) := allowed

theorem trivial : Ends (fun _ => True) (fun _ => True) result := by
  cases result with
  | ok value | error reason => exact True.intro

theorem bind {next : α → Except ε β} {last : β → Prop} (first : Ends fine post result)
    (second : ∀ value, post value → Ends fine last (next value)) : Ends fine last (result >>= next) := by
  cases result with
  | ok value => exact second value first
  | error reason => exact first

section

variable (ends : Ends fine post result)
include ends

theorem weaken (weaker : ∀ value, post value → other value) : Ends fine other result := by
  cases result with
  | ok value => exact weaker value ends
  | error reason => exact ends

theorem allow {fine' : ε → Prop} (allowed : ∀ reason, fine reason → fine' reason) :
    Ends fine' post result := by
  cases result with
  | ok value => exact ends
  | error reason => exact allowed reason ends

theorem of_ok {value : α} (done : result = .ok value) : post value := by
  subst done
  exact ends

theorem of_error {reason : ε} (failed : result = .error reason) : fine reason := by
  subst failed
  exact ends

end

end Ends

end Xv6.Data
