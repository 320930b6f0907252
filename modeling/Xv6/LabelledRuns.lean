import Mathlib.Data.List.Basic

/-!
# Runs of labelled transition systems

A partial step function executes one labelled action, or refuses it.  A run
records, oldest first, the state every action was executed in together with its
label.  An invariant kept by every step that meets a guard holds throughout every
run whose steps all meet the guard, and a run splits at every position of its
trace.
-/

namespace Xv6

namespace LabelledRun

variable {State Label : Type*}

/-- `Run step start trace finish` executes the labels of `trace` from `start`
to `finish`; every entry carries the state its label was executed in. -/
inductive Run (step : State → Label → Option State) (start : State) :
    List (State × Label) → State → Prop
  | nil : Run step start [] start
  | snoc {trace : List (State × Label)} {current next : State} {label : Label} :
      Run step start trace current → step current label = some next →
        Run step start (trace ++ [(current, label)]) next

/-- Every state visited by a run, its last one included, satisfies `property`. -/
def Throughout (property : State → Prop) (trace : List (State × Label))
    (finish : State) : Prop :=
  (∀ entry ∈ trace, property entry.1) ∧ property finish

/-- Execute a list of labels and record the trace, refusing as soon as one of
them is refused. -/
def execute (step : State → Label → Option State) :
    State → List Label → Option (List (State × Label) × State)
  | state, [] => some ([], state)
  | state, label :: labels =>
    (step state label).bind fun next =>
      (execute step next labels).map fun rest => ((state, label) :: rest.1, rest.2)

variable {step : State → Label → Option State} {start finish : State}
  {trace : List (State × Label)}

theorem Run.append {middle : State} {second : List (State × Label)}
    (first : Run step start trace middle) (rest : Run step middle second finish) :
    Run step start (trace ++ second) finish := by
  induction rest with
  | nil => simpa using first
  | snoc rest edge ih =>
    rw [← List.append_assoc]
    exact .snoc ih edge

theorem Run.single {next : State} {label : Label} (edge : step start label = some next) :
    Run step start [(start, label)] next := by
  simpa using Run.snoc Run.nil edge

/-- A run splits at every position of its trace. -/
theorem Run.split {first second : List (State × Label)}
    (run : Run step start (first ++ second) finish) :
    ∃ middle, Run step start first middle ∧ Run step middle second finish := by
  generalize whole : first ++ second = trace at run
  induction run generalizing second with
  | nil =>
    obtain ⟨rfl, rfl⟩ := List.append_eq_nil_iff.mp whole
    exact ⟨start, .nil, .nil⟩
  | @snoc trace current next label run edge ih =>
    rcases List.eq_nil_or_concat second with rfl | ⟨second, last, rfl⟩
    · rw [List.append_nil] at whole
      subst whole
      exact ⟨next, .snoc run edge, .nil⟩
    · rw [List.concat_eq_append, ← List.append_assoc] at whole
      obtain ⟨prefixEq, lastEq⟩ := List.append_inj' whole rfl
      obtain ⟨middle, before, after⟩ := ih prefixEq
      obtain rfl : last = (current, label) := by simpa using lastEq
      exact ⟨middle, before, by rw [List.concat_eq_append]; exact .snoc after edge⟩

theorem Run.eq_of_nil (run : Run step start [] finish) : finish = start := by
  generalize empty : [] = trace at run
  cases run with
  | nil => rfl
  | snoc run edge => simp at empty

theorem Run.head {entry : State × Label}
    (run : Run step start (entry :: trace) finish) :
    entry.1 = start ∧ ∃ next, step start entry.2 = some next ∧ Run step next trace finish := by
  have splitting : Run step start ([entry] ++ trace) finish := run
  obtain ⟨next, first, rest⟩ := splitting.split
  generalize single : [entry] = trace at first
  cases first with
  | nil => simp at single
  | @snoc trace current _ label before edge =>
    obtain ⟨rfl, rfl⟩ : trace = [] ∧ entry = (current, label) := by
      rcases trace with _ | ⟨head, tail⟩ <;> simp_all
    obtain rfl := before.eq_of_nil
    exact ⟨rfl, next, edge, rest⟩

/-- An invariant of the past and the present, kept by every step that meets
`guard`, holds at the end of a run all of whose steps meet it. -/
theorem Run.traced_invariant (invariant : List (State × Label) → State → Prop)
    (guard : State → Label → Prop) (initial : invariant [] start)
    (preserved : ∀ {trace state label next}, Run step start trace state →
      invariant trace state → guard state label → step state label = some next →
        invariant (trace ++ [(state, label)]) next)
    (run : Run step start trace finish)
    (guarded : ∀ entry ∈ trace, guard entry.1 entry.2) :
    invariant trace finish := by
  induction run with
  | nil => exact initial
  | @snoc trace current next label run edge ih =>
    simp_all

theorem Run.invariant (invariant : State → Prop) (guard : State → Label → Prop)
    (initial : invariant start)
    (preserved : ∀ {state label next}, invariant state → guard state label →
      step state label = some next → invariant next)
    (run : Run step start trace finish)
    (guarded : ∀ entry ∈ trace, guard entry.1 entry.2) :
    Throughout invariant trace finish := by
  refine run.traced_invariant (Throughout invariant) guard ⟨by simp, initial⟩ ?_ guarded
  rintro trace current label next - ⟨earlier, last⟩ meets edge
  refine ⟨?_, preserved last meets edge⟩
  intro entry member
  rcases List.mem_append.mp member with old | new
  · exact earlier entry old
  · grind

theorem Run.always (invariant : State → Prop) (initial : invariant start)
    (preserved : ∀ {state label next}, invariant state →
      step state label = some next → invariant next)
    (run : Run step start trace finish) :
    Throughout invariant trace finish :=
  run.invariant invariant (fun _ _ => True) initial
    (fun holds _ edge => preserved holds edge) (fun _ _ => trivial)

theorem Run.throughout_iff_of_allowed (invariant property : State → Prop)
    (allowed guard : State → Label → Prop) (initially : invariant start)
    (initial : property start)
    (preserved : ∀ {state label next}, invariant state → allowed state label →
      step state label = some next → invariant next)
    (exact_guard : ∀ {state label next}, invariant state → property state →
      allowed state label → step state label = some next → (property next ↔ guard state label))
    (run : Run step start trace finish) (all : ∀ entry ∈ trace, allowed entry.1 entry.2) :
    Throughout property trace finish ↔ ∀ entry ∈ trace, guard entry.1 entry.2 := by
  induction run with
  | nil => simp [Throughout, initial]
  | @snoc trace current next label run edge ih =>
    have earlierAll : ∀ entry ∈ trace, allowed entry.1 entry.2 :=
      fun entry member => all entry (List.mem_append_left _ member)
    have lastAllowed : allowed current label := all (current, label) (by simp)
    have reached := (run.invariant invariant allowed initially preserved earlierAll).2
    constructor
    · rintro ⟨visited, last⟩ entry member
      have currentHolds : property current := visited (current, label) (by simp)
      rcases List.mem_append.mp member with old | new
      · exact (ih earlierAll).mp ⟨fun entry member =>
          visited entry (List.mem_append_left _ member), currentHolds⟩ entry old
      · grind
    · intro guarded
      obtain ⟨visited, currentHolds⟩ := (ih earlierAll).mpr fun entry member =>
        guarded entry (List.mem_append_left _ member)
      refine ⟨?_, (exact_guard reached currentHolds lastAllowed edge).mpr
        (guarded (current, label) (by simp))⟩
      intro entry member
      rcases List.mem_append.mp member with old | new
      · exact visited entry old
      · grind

theorem Run.throughout_iff (invariant property : State → Prop) (guard : State → Label → Prop)
    (initially : invariant start) (initial : property start)
    (preserved : ∀ {state label next}, invariant state →
      step state label = some next → invariant next)
    (exact_guard : ∀ {state label next}, invariant state → property state →
      step state label = some next → (property next ↔ guard state label))
    (run : Run step start trace finish) :
    Throughout property trace finish ↔ ∀ entry ∈ trace, guard entry.1 entry.2 :=
  run.throughout_iff_of_allowed invariant property (fun _ _ => True) guard initially initial
    (fun holds _ edge => preserved holds edge)
    (fun holds last _ edge => exact_guard holds last edge) (fun _ _ => trivial)

theorem Run.step_entry {entry : State × Label}
    (run : Run step start trace finish) (member : entry ∈ trace) :
    ∃ next, step entry.1 entry.2 = some next := by
  obtain ⟨first, second, rfl⟩ := List.append_of_mem member
  obtain ⟨middle, _, after⟩ := run.split
  obtain ⟨same, next, edge, _⟩ := after.head
  exact ⟨next, by rw [same]; exact edge⟩

theorem run_of_execute {labels : List Label}
    (executes : execute step start labels = some (trace, finish)) :
    Run step start trace finish ∧ trace.map Prod.snd = labels := by
  induction labels generalizing start trace with
  | nil =>
    obtain ⟨rfl, rfl⟩ : [] = trace ∧ start = finish := by simpa [execute] using executes
    exact ⟨.nil, rfl⟩
  | cons label labels ih =>
    obtain ⟨next, edge, rest⟩ := Option.bind_eq_some_iff.mp executes
    obtain ⟨⟨later, last⟩, remaining, same⟩ := Option.map_eq_some_iff.mp rest
    cases same
    obtain ⟨run, labelsEq⟩ := ih remaining
    exact ⟨(Run.single edge).append run, by simp [labelsEq]⟩

/-- A run with given labels has what follows from a test that its execution passes. -/
theorem exists_run_of_test {labels : List Label} {goal : List (State × Label) → State → Prop}
    (test : List (State × Label) → State → Prop) [∀ trace finish, Decidable (test trace finish)]
    (passes : (execute step start labels).any
      (fun result => decide (test result.1 result.2)) = true)
    (follows : ∀ trace finish, Run step start trace finish → trace.map Prod.snd = labels →
      test trace finish → goal trace finish) :
    ∃ trace finish, Run step start trace finish ∧ trace.map Prod.snd = labels ∧
      goal trace finish := by
  obtain ⟨⟨trace, finish⟩, executes, holds⟩ := (Option.any_eq_true _ _).mp passes
  obtain ⟨run, labelsEq⟩ := run_of_execute executes
  exact ⟨trace, finish, run, labelsEq,
    follows trace finish run labelsEq (of_decide_eq_true holds)⟩

theorem exists_run_of_decide {labels : List Label} {goal : List (State × Label) → State → Prop}
    [∀ trace finish, Decidable (goal trace finish)]
    (passes : (execute step start labels).any
      (fun result => decide (goal result.1 result.2)) = true) :
    ∃ trace finish, Run step start trace finish ∧ trace.map Prod.snd = labels ∧
      goal trace finish :=
  exists_run_of_test goal passes fun _ _ _ _ holds => holds

/-- The form of `exists_run_of_test` for two executions compared with each
other. -/
theorem exists_runs_of_test {firstLabels secondLabels : List Label} {goal : State → State → Prop}
    (test : State → State → Prop) [∀ first second, Decidable (test first second)]
    (passes : (execute step start firstLabels).any (fun first =>
      (execute step start secondLabels).any fun second => decide (test first.2 second.2)) = true)
    (follows : ∀ {firstTrace secondTrace first second}, Run step start firstTrace first →
      Run step start secondTrace second → test first second → goal first second) :
    ∃ firstTrace secondTrace first second, Run step start firstTrace first ∧
      Run step start secondTrace second ∧ firstTrace.map Prod.snd = firstLabels ∧
      secondTrace.map Prod.snd = secondLabels ∧ goal first second := by
  obtain ⟨⟨firstTrace, first⟩, firstExecutes, passes⟩ := (Option.any_eq_true _ _).mp passes
  obtain ⟨⟨secondTrace, second⟩, secondExecutes, holds⟩ := (Option.any_eq_true _ _).mp passes
  obtain ⟨firstRun, firstLabelsEq⟩ := run_of_execute firstExecutes
  obtain ⟨secondRun, secondLabelsEq⟩ := run_of_execute secondExecutes
  exact ⟨firstTrace, secondTrace, first, second, firstRun, secondRun, firstLabelsEq,
    secondLabelsEq, follows firstRun secondRun (of_decide_eq_true holds)⟩

end LabelledRun

end Xv6
