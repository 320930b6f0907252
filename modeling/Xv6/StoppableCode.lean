import Mathlib.Logic.Basic

/-!
# Code that may stop

Code over a state that comes back with a value or stops for a reason.
`EnsuresOr allowed code state post` says that `post` holds of the value and of the
state the code comes back with, and that it stops for allowed reasons only; `Ensures`
is the case where it does not stop.  The rules follow the structure of the code.
-/

namespace Xv6

variable {σ ε α β : Type} {allowed : ε → Prop}

/-- What holds if the code comes back, and the reasons for which it may stop. -/
def EnsuresOr (allowed : ε → Prop) (code : StateT σ (Except ε) α) (state : σ)
    (post : α → σ → Prop) : Prop :=
  (∃ value next, code state = .ok (value, next) ∧ post value next) ∨
    ∃ stop, code state = .error stop ∧ allowed stop

/-- The code comes back, and what then holds. -/
abbrev Ensures : StateT σ (Except ε) α → σ → (α → σ → Prop) → Prop :=
  EnsuresOr fun _ => False

section Rules

variable {code other : StateT σ (Except ε) α} {rest : α → StateT σ (Except ε) β} {state : σ}
  {post stronger : α → σ → Prop} {goal : β → σ → Prop}

theorem Ensures.returns (ensures : Ensures code state post) :
    ∃ value next, code state = .ok (value, next) ∧ post value next := by
  rcases ensures with returns | ⟨stop, -, isFalse⟩
  · exact returns
  · exact isFalse.elim

/-- What has to hold between two pieces of code is that the second ensures the goal. -/
theorem ensures_bind
    (first : EnsuresOr allowed code state fun value next =>
      EnsuresOr allowed (rest value) next goal) :
    EnsuresOr allowed (code >>= rest) state goal := by
  have unfolds : (code >>= rest) state = (code state >>= fun result => rest result.1 result.2) :=
    rfl
  rcases first with ⟨value, next, runs, continues⟩ | ⟨stop, stops, isAllowed⟩
  · rw [EnsuresOr, unfolds, runs]
    exact continues
  · refine .inr ⟨stop, ?_, isAllowed⟩
    rw [unfolds, stops]
    rfl

theorem EnsuresOr.mono (ensures : EnsuresOr allowed code state stronger)
    (weaken : ∀ value next, stronger value next → post value next) :
    EnsuresOr allowed code state post := by
  rcases ensures with ⟨value, next, runs, holds⟩ | stops
  · exact .inl ⟨value, next, runs, weaken value next holds⟩
  · exact .inr stops

theorem Ensures.or (ensures : Ensures code state post) : EnsuresOr allowed code state post :=
  .inl ensures.returns

theorem Ensures.bind (first : Ensures code state post)
    (second : ∀ value next, post value next → EnsuresOr allowed (rest value) next goal) :
    EnsuresOr allowed (code >>= rest) state goal :=
  ensures_bind (first.or.mono second)

theorem EnsuresOr.bind (first : EnsuresOr allowed code state post)
    (second : ∀ value next, post value next → EnsuresOr allowed (rest value) next goal) :
    EnsuresOr allowed (code >>= rest) state goal :=
  ensures_bind (first.mono second)

theorem EnsuresOr.result (ensures : EnsuresOr allowed code state post) {value : α} {next : σ}
    (runs : code state = .ok (value, next)) : post value next := by
  rcases ensures with ⟨same, after, runsSame, holds⟩ | ⟨stop, stops, -⟩
  · grind
  · rw [runs] at stops
    cases stops

theorem EnsuresOr.stopped (ensures : EnsuresOr allowed code state post) {stop : ε}
    (stops : code state = .error stop) : allowed stop := by
  rcases ensures with ⟨value, next, runs, -⟩ | ⟨reason, isReason, isAllowed⟩
  · rw [stops] at runs
    cases runs
  · grind

theorem ensures_pure {value : α} (holds : post value state) :
    EnsuresOr allowed (pure value : StateT σ (Except ε) α) state post :=
  .inl ⟨value, state, rfl, holds⟩

theorem ensures_throw {stop : ε} (isAllowed : allowed stop) :
    EnsuresOr allowed (throw stop : StateT σ (Except ε) α) state post :=
  .inr ⟨stop, rfl, isAllowed⟩

theorem ensures_get_bind {rest : σ → StateT σ (Except ε) β}
    (continues : EnsuresOr allowed (rest state) state goal) :
    EnsuresOr allowed (get >>= rest) state goal :=
  continues

theorem ensures_modify {post : Unit → σ → Prop} {change : σ → σ} (holds : post () (change state)) :
    EnsuresOr allowed (modify change : StateT σ (Except ε) Unit) state post :=
  .inl ⟨(), change state, rfl, holds⟩

theorem ensures_modify_bind {change : σ → σ} {rest : Unit → StateT σ (Except ε) β}
    (continues : EnsuresOr allowed (rest ()) (change state) goal) :
    EnsuresOr allowed (modify change >>= rest) state goal :=
  continues

theorem ensures_modifyGet {change : σ → α × σ} (holds : post (change state).1 (change state).2) :
    EnsuresOr allowed (modifyGet change : StateT σ (Except ε) α) state post :=
  .inl ⟨(change state).1, (change state).2, rfl, holds⟩

theorem ensures_ite {condition : Prop} [Decidable condition]
    (isTrue : condition → EnsuresOr allowed code state post)
    (isFalse : ¬ condition → EnsuresOr allowed other state post) :
    EnsuresOr allowed (if condition then code else other) state post := by
  grind

end Rules

end Xv6
