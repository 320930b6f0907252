import Mathlib.Logic.Basic

/-!
# Postconditions of fallible code

Code that returns a value or fails with an error.  `Meets allowed result post`
says that the value satisfies `post` and that an error is one of the allowed
ones; the rules follow the structure of the code.
-/

namespace Xv6

namespace Fallible

variable {ε α β : Type} {allowed : ε → Prop}

/-- The value satisfies the postcondition, or the error is allowed. -/
def Meets (allowed : ε → Prop) (result : Except ε α) (post : α → Prop) : Prop :=
  match result with
  | .ok value => post value
  | .error error => allowed error

variable {result : Except ε α} {rest : α → Except ε β} {post stronger : α → Prop}
  {goal : β → Prop}

@[simp]
theorem ok_bind (value : α) : (Except.ok value : Except ε α) >>= rest = rest value :=
  rfl

theorem Meets.bind (first : Meets allowed result post)
    (second : ∀ value, post value → Meets allowed (rest value) goal) :
    Meets allowed (result >>= rest) goal := by
  cases result with
  | ok value => exact second value first
  | error error => exact first

theorem Meets.mono (meets : Meets allowed result stronger)
    (weaken : ∀ value, stronger value → post value) : Meets allowed result post := by
  cases result with
  | ok value => exact weaken value meets
  | error error => exact meets

theorem Meets.allow {wider : ε → Prop} (meets : Meets allowed result post)
    (widen : ∀ error, allowed error → wider error) : Meets wider result post := by
  cases result with
  | ok value => exact meets
  | error error => exact widen error meets

theorem Meets.of_map {f : α → β} (meets : Meets allowed (result.map f) goal) :
    Meets allowed result fun value => goal (f value) := by
  cases result with
  | ok value => exact meets
  | error error => exact meets

theorem Meets.of_ok {value : α} (meets : Meets allowed result post) (ok : result = .ok value) :
    post value := by
  subst ok
  exact meets

theorem ok_of_toOption {value : α} (isValue : result.toOption = some value) :
    result = .ok value := by
  cases result with
  | ok other => exact congrArg Except.ok (Option.some.inj isValue)
  | error error => cases isValue

theorem Meets.of_error {error : ε} (meets : Meets allowed result post)
    (fails : result = .error error) : allowed error := by
  subst fails
  exact meets

end Fallible

end Xv6
