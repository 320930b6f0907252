import Mathlib.Logic.Basic

/-!
# Code that asks its environment

Code over a state that may stop without a value, and that asks for what the
state does not represent: the contents of memory and disk, or whether an
allocation succeeds.  The answers are a list of numbers, so a run can be
computed from it.  `Yields code state post` says that `post` holds of the value
and the state after the code, whatever was answered; the rules follow the
structure of the code.
-/

namespace Xv6

/-- Code with a value of type `α` over states of type `σ`. -/
def Answered (σ α : Type) : Type :=
  List Nat → σ → Option (α × List Nat × σ)

namespace Answered

variable {σ α β : Type}

instance : Monad (Answered σ) where
  pure value := fun answers state => some (value, answers, state)
  bind code rest := fun answers state =>
    (code answers state).bind fun result => rest result.1 result.2.1 result.2.2

/-- Stop: a call of `panic`, or a call that does not return. -/
def stop : Answered σ α :=
  fun _ _ => none

def get : Answered σ σ :=
  fun answers state => some (state, answers, state)

def modify (change : σ → σ) : Answered σ Unit :=
  fun answers state => some ((), answers, change state)

/-- The next answer; the code stops when there is none. -/
def answer : Answered σ Nat :=
  fun answers state =>
    match answers with
    | [] => none
    | number :: answers => some (number, answers, state)

def asks : Answered σ Bool := do
  let number ← answer
  pure (number != 0)

def asksAny : Nat → Answered σ Bool
  | 0 => pure false
  | count + 1 => do
    if ← asks then pure true else asksAny count

def Yields (code : Answered σ α) (state : σ) (post : α → σ → Prop) : Prop :=
  ∀ answers value rest next, code answers state = some (value, rest, next) → post value next

section Rules

variable {code : Answered σ α} {rest : α → Answered σ β} {state : σ} {post stronger : α → σ → Prop}
  {goal : β → σ → Prop}

theorem Yields.bind (first : Yields code state post)
    (second : ∀ value next, post value next → Yields (rest value) next goal) :
    Yields (code >>= rest) state goal := by
  intro answers value remaining last result
  obtain ⟨⟨middle, asked, next⟩, runs, continues⟩ := Option.bind_eq_some_iff.mp result
  exact second middle next (first answers middle asked next runs) asked value remaining last
    continues

/-- What has to hold between two pieces of code is that the second yields the goal. -/
theorem yields_bind (first : Yields code state fun value next => Yields (rest value) next goal) :
    Yields (code >>= rest) state goal :=
  first.bind fun _ _ => id

theorem Yields.mono (yields : Yields code state stronger)
    (weaken : ∀ value next, stronger value next → post value next) : Yields code state post :=
  fun answers value remaining next result => weaken value next (yields answers value remaining next
    result)

theorem yields_pure {value : α} (holds : post value state) : Yields (pure value) state post := by
  rintro answers value remaining next ⟨⟩
  exact holds

theorem yields_stop : Yields stop state post :=
  fun _ _ _ _ result => absurd result.symm (Option.some_ne_none _)

theorem yields_get_bind {rest : σ → Answered σ β} (continues : Yields (rest state) state goal) :
    Yields (get >>= rest) state goal :=
  continues

theorem yields_modify {post : Unit → σ → Prop} {change : σ → σ} (holds : post () (change state)) :
    Yields (modify change) state post := by
  rintro answers value remaining next ⟨⟩
  exact holds

theorem yields_ite {condition : Prop} [Decidable condition] {other : Answered σ α}
    (isTrue : condition → Yields code state post)
    (isFalse : ¬ condition → Yields other state post) :
    Yields (if condition then code else other) state post := by
  grind

theorem yields_modify_bind {change : σ → σ} {rest : Unit → Answered σ β}
    (continues : Yields (rest ()) (change state) goal) :
    Yields (modify change >>= rest) state goal :=
  continues

theorem yields_answer_bind {rest : Nat → Answered σ β}
    (continues : ∀ number, Yields (rest number) state goal) :
    Yields (answer >>= rest) state goal := by
  refine yields_bind ?_
  rintro (- | ⟨number, answers⟩) value remaining next ⟨⟩
  exact continues number

theorem yields_asks_bind {rest : Bool → Answered σ β}
    (continues : ∀ yes, Yields (rest yes) state goal) : Yields (asks >>= rest) state goal :=
  yields_bind (yields_answer_bind fun _ => yields_pure (continues _))

theorem yields_asksAny_bind {rest : Bool → Answered σ β}
    (continues : ∀ yes, Yields (rest yes) state goal) (count : Nat) :
    Yields (asksAny count >>= rest) state goal := by
  refine yields_bind ?_
  induction count with
  | zero => exact yields_pure (continues false)
  | succ count ih =>
    refine yields_asks_bind fun yes => ?_
    exact yields_ite (fun _ => yields_pure (continues true)) fun _ => ih

end Rules

end Answered

end Xv6
