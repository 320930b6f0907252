import Mathlib.Data.Option.Basic
import Mathlib.Data.List.Basic
import Mathlib.Data.Finset.Card

/-!
# Code with a trace of events

Code that lists the events it causes on its way to a value, or until it stops.
`Within allowed code post` says that every event is allowed and that the value
satisfies `post`.  `Few label shared count code` says that the events have keys, at
most `count` different ones besides shared keys.
-/

namespace Xv6

/-- The events of a piece of code, and its value if it gets that far. -/
structure Traced (ε α : Type) where
  events : List ε
  value : Option α

namespace Traced

variable {ε α β : Type}

def emit (events : List ε) : Traced ε Unit :=
  ⟨events, some ()⟩

def fail : Traced ε α :=
  ⟨[], none⟩

instance : Monad (Traced ε) where
  pure value := ⟨[], some value⟩
  bind code rest :=
    match code.value with
    | none => ⟨code.events, none⟩
    | some value => ⟨code.events ++ (rest value).events, (rest value).value⟩

@[simp]
theorem value_pure (value : α) : (pure value : Traced ε α).value = some value :=
  rfl

@[simp]
theorem value_emit (events : List ε) : (emit events).value = some () :=
  rfl

@[simp]
theorem events_emit (events : List ε) : (emit events).events = events :=
  rfl

@[simp]
theorem value_fail : (fail : Traced ε α).value = none :=
  rfl

@[simp]
theorem value_bind (code : Traced ε α) (rest : α → Traced ε β) :
    (code >>= rest).value = code.value.bind fun value => (rest value).value := by
  obtain ⟨events, value⟩ := code
  cases value with
  | none => rfl
  | some value => rfl

theorem events_bind (code : Traced ε α) (rest : α → Traced ε β) :
    (code >>= rest).events =
      code.events ++ code.value.elim [] fun value => (rest value).events := by
  obtain ⟨events, value⟩ := code
  cases value with
  | none => exact (List.append_nil events).symm
  | some value => rfl

@[simp]
theorem events_bind_pure (code : Traced ε α) (f : α → β) :
    (code >>= fun value => pure (f value)).events = code.events := by
  obtain ⟨events, value⟩ := code
  cases value with
  | none => rfl
  | some value => exact List.append_nil events

/-- Every event is allowed, and the value satisfies the postcondition. -/
def Within (allowed : ε → Prop) (code : Traced ε α) (post : α → Prop) : Prop :=
  (∀ event ∈ code.events, allowed event) ∧ ∀ value, code.value = some value → post value

variable {allowed : ε → Prop} {code : Traced ε α} {rest : α → Traced ε β}
  {post stronger : α → Prop} {goal : β → Prop}

theorem within_pure {value : α} : Within allowed (pure value : Traced ε α) post ↔ post value := by
  constructor
  · intro within
    exact within.2 value rfl
  · intro holds
    exact ⟨fun _ member => absurd member List.not_mem_nil,
      fun _ same => Option.some.inj same ▸ holds⟩

theorem within_emit {events : List ε} {post : Unit → Prop} :
    Within allowed (emit events) post ↔ (∀ event ∈ events, allowed event) ∧ post () := by
  refine and_congr_right fun _ => ⟨fun holds => holds () rfl, fun holds _ _ => holds⟩

theorem within_fail : Within allowed (fail : Traced ε α) post :=
  ⟨fun _ member => absurd member List.not_mem_nil, fun _ same => absurd same (by simp)⟩

/-- A sequence stays within the allowed events exactly when its first part
does, and from each value of that part the rest does. -/
theorem within_bind_iff : Within allowed (code >>= rest) goal ↔
    (∀ event ∈ code.events, allowed event) ∧
      ∀ value, code.value = some value → Within allowed (rest value) goal := by
  obtain ⟨events, value⟩ := code
  cases value with
  | none =>
    constructor
    · intro within
      exact ⟨within.1, fun _ same => absurd same (by simp)⟩
    · intro within
      exact ⟨within.1, fun _ same => absurd same (by simp)⟩
  | some value =>
    change ((∀ event ∈ events ++ (rest value).events, allowed event) ∧ _) ↔ _
    simp only [List.mem_append, or_imp, forall_and, Option.some.injEq, forall_eq', and_assoc]
    rfl

theorem Within.bind (first : Within allowed code post)
    (second : ∀ value, post value → Within allowed (rest value) goal) :
    Within allowed (code >>= rest) goal :=
  within_bind_iff.mpr ⟨first.1, fun value same => second value (first.2 value same)⟩

theorem Within.emit_bind {events : List ε} {rest : Unit → Traced ε β}
    (first : ∀ event ∈ events, allowed event) (second : Within allowed (rest ()) goal) :
    Within allowed (emit events >>= rest) goal :=
  within_bind_iff.mpr ⟨first, fun _ _ => second⟩

theorem Within.mono (within : Within allowed code stronger)
    (weaken : ∀ value, stronger value → post value) : Within allowed code post :=
  ⟨within.1, fun value same => weaken value (within.2 value same)⟩

/-- Every event has a key, and besides the shared keys there are at most `count`
different ones. -/
def Few {κ : Type} (label : κ → ε) (shared : κ → Prop) (count : Nat) (code : Traced ε α) : Prop :=
  ∃ others : Finset κ, others.card ≤ count ∧
    ∀ event ∈ code.events, ∃ key, event = label key ∧ (shared key ∨ key ∈ others)

section Few

variable {κ : Type} {label : κ → ε} {shared : κ → Prop} {count more : Nat}

theorem few_of_events_nil (noEvents : code.events = []) : Few label shared count code := by
  refine ⟨∅, Nat.zero_le _, fun event member => ?_⟩
  rw [noEvents] at member
  exact absurd member List.not_mem_nil

theorem few_pure {value : α} : Few label shared count (pure value : Traced ε α) :=
  few_of_events_nil rfl

theorem Few.mono (few : Few label shared count code) (le : count ≤ more) :
    Few label shared more code := by
  obtain ⟨others, card, member⟩ := few
  exact ⟨others, card.trans le, member⟩

/-- The events of a sequence are those of its parts. -/
theorem Few.bind [DecidableEq κ] (first : Few label shared count code)
    (second : ∀ value, code.value = some value → Few label shared more (rest value)) :
    Few label shared (count + more) (code >>= rest) := by
  obtain ⟨others, card, member⟩ := first
  cases isValue : code.value with
  | none =>
    refine ⟨others, card.trans (Nat.le_add_right _ _), fun event isEvent => ?_⟩
    rw [events_bind, isValue, Option.elim_none, List.append_nil] at isEvent
    exact member event isEvent
  | some value =>
    obtain ⟨later, laterCard, laterMember⟩ := second value isValue
    refine ⟨others ∪ later, (Finset.card_union_le _ _).trans (Nat.add_le_add card laterCard),
      fun event isEvent => ?_⟩
    rw [events_bind, isValue, Option.elim_some, List.mem_append] at isEvent
    simp only [Finset.mem_union]
    rcases isEvent with early | late
    · grind
    · grind

end Few

end Traced

end Xv6
