import Xv6.ConsoleInput

/-!
# Committed lines are read as they are

Typing and editing leave the committed characters alone, because the cell of the
edit index is never one of theirs; a commit appends the edited characters, and a
read takes characters from the front.  A `^D` that ends a read with characters is
put back, so it is still the first committed character.
-/

namespace Xv6

namespace Console

open LabelledRun RingBuffer

namespace Input

/-- `r`, `w` and `e` follow each other within one turn of the ring. -/
def Ordered (input : Input) : Prop :=
  distance input.r input.w + distance input.w input.e ≤ inputBuf

def line (input : Input) : List UInt8 :=
  slice input.buf input.r (distance input.r input.w)

variable {input : Input}

theorem Ordered.bound (ordered : input.Ordered) :
    distance input.r input.w + distance input.w input.e ≤ 128 :=
  ordered

theorem Ordered.distance_eq (ordered : input.Ordered) :
    distance input.r input.e = distance input.r input.w + distance input.w input.e := by
  apply distance_trans
  have bound := ordered.bound
  omega

end Input

/-! ## Typing -/

/-- Characters are committed behind the line, and nothing else happens to it. -/
structure Types (before after : Input) (added : List UInt8) : Prop where
  ordered : after.Ordered
  r : after.r = before.r
  line : after.line = before.line ++ added

theorem Types.of_edit {input : Input} {e : BitVec 32}
    (ordered : ({ input with e := e } : Input).Ordered) : Types input { input with e := e } [] :=
  ⟨ordered, rfl, (List.append_nil _).symm⟩

theorem Types.trans {first second third : Input} {added more : List UInt8}
    (earlier : Types first second added) (later : Types second third more) :
    Types first third (added ++ more) :=
  ⟨later.ordered, later.r.trans earlier.r, by rw [later.line, earlier.line, List.append_assoc]⟩

section Typing

variable {input : Input} (ordered : input.Ordered)

include ordered

theorem types_backspace (edited : input.e ≠ input.w) :
    Types input { input with e := input.e - 1 } [] := by
  have positive : 0 < distance input.w input.e :=
    Nat.pos_of_ne_zero fun zero => edited (distance_eq_zero_iff.mp zero).symm
  have back : distance input.w (input.e - 1) = distance input.w input.e - 1 :=
    distance_pred_right positive
  have bound := ordered.bound
  apply Types.of_edit
  change distance input.r input.w + distance input.w (input.e - 1) ≤ 128
  omega

omit ordered in
theorem types_killLine {fuel : Nat} (ordered : input.Ordered) :
    Types input (killLine fuel input) [] := by
  induction fuel generalizing input with
  | zero => exact ⟨ordered, rfl, (List.append_nil _).symm⟩
  | succ fuel ih =>
    rw [killLine]
    split
    · rename_i edited
      have back := types_backspace ordered edited.1
      exact back.trans (ih back.ordered)
    · exact ⟨ordered, rfl, (List.append_nil _).symm⟩

theorem distance_store (c : UInt8) :
    distance input.w (input.store c).e = distance input.w input.e + 1 := by
  have bound := ordered.bound
  apply distance_succ_right
  omega

variable (room : distance input.r input.e < inputBuf) (c : UInt8)

include room

/-- The stored character lies behind the line, less than one turn from its start. -/
theorem types_store : Types input (input.store c) [] := by
  have total := ordered.distance_eq
  have small : distance input.r input.e < 128 := room
  refine ⟨?_, rfl, ?_⟩
  · change distance input.r input.w + distance input.w (input.store c).e ≤ 128
    rw [distance_store ordered]
    omega
  · rw [List.append_nil]
    change slice (put input.buf input.e c) input.r (distance input.r input.w) = _
    conv_lhs => rw [← add_distance input.r input.e]
    exact slice_put (by decide) (by omega) room input.buf c

theorem types_commit :
    Types input { input.store c with w := (input.store c).e }
      (slice (input.store c).buf input.w (distance input.w (input.store c).e)) := by
  have stored := types_store ordered room c
  have total := stored.ordered.distance_eq
  refine ⟨?_, rfl, ?_⟩
  · change distance (input.store c).r (input.store c).e +
      distance (input.store c).e (input.store c).e ≤ 128
    rw [distance_self, total]
    exact stored.ordered
  · change slice (input.store c).buf (input.store c).r
      (distance (input.store c).r (input.store c).e) = _
    rw [total, slice_add, add_distance]
    congr 1
    exact stored.line.trans (List.append_nil _)

end Typing

theorem types_typeChar (c : UInt8) {input : Input} (ordered : input.Ordered) :
    Types input (typeChar c input).1
      (if (typeChar c input).2 then
        slice (typeChar c input).1.buf input.w (distance input.w (typeChar c input).1.e)
      else []) := by
  have same : Types input input [] := ⟨ordered, rfl, (List.append_nil _).symm⟩
  unfold typeChar
  split
  · exact same
  split
  · exact types_killLine ordered
  split
  · split
    · rename_i edited
      exact types_backspace ordered edited
    · exact same
  split
  · grind [types_commit, types_store]
  · exact same

variable {Proc : Type}

theorem types_consoleintr (typed : List UInt8) {state : State Proc}
    (ordered : state.input.Ordered) :
    Types state.input (State.consoleintr typed state).1.input
      (State.consoleintr typed state).2 := by
  induction typed generalizing state with
  | nil => exact ⟨ordered, rfl, (List.append_nil _).symm⟩
  | cons c typed ih =>
    have first := types_typeChar c ordered
    rw [State.consoleintr]
    generalize typeChar c state.input = result at first
    obtain ⟨input, commits⟩ := result
    have next : input.Ordered := first.ordered
    cases commits with
    | true => exact first.trans (@ih (State.wakeup { state with input := input }) next)
    | false => exact first.trans (@ih { state with input := input } next)

theorem frame?_consoleintr (typed : List UInt8) (state : State Proc) (process : Proc) :
    ((State.consoleintr typed state).1.proc process).frame? = (state.proc process).frame? := by
  induction typed generalizing state with
  | nil => rfl
  | cons c typed ih =>
    rw [State.consoleintr]
    rw [ih]
    split
    · exact CallState.frame?_wakeup1
    · rfl

/-! ## Reading -/

theorem line_eq_cons {input : Input} (some : input.r ≠ input.w) :
    input.line = input.buf (cell inputBuf input.r) ::
      ({ input with r := input.r + 1 } : Input).line := by
  have positive : 0 < distance input.r input.w :=
    Nat.pos_of_ne_zero fun zero => some (distance_eq_zero_iff.mp zero)
  have next : distance (input.r + 1) input.w = distance input.r input.w - 1 :=
    distance_succ_left positive
  change slice _ _ _ = _ :: slice input.buf (input.r + 1) (distance (input.r + 1) input.w)
  rw [next, ← slice_succ_left, Nat.sub_add_cancel positive]

theorem ordered_succ {input : Input} (ordered : input.Ordered) (some : input.r ≠ input.w) :
    ({ input with r := input.r + 1 } : Input).Ordered := by
  have positive : 0 < distance input.r input.w :=
    Nat.pos_of_ne_zero fun zero => some (distance_eq_zero_iff.mp zero)
  have next : distance (input.r + 1) input.w = distance input.r input.w - 1 :=
    distance_succ_left positive
  have bound := ordered.bound
  change distance (input.r + 1) input.w + distance input.w input.e ≤ 128
  omega

/-- The characters that are consumed are stored, or they are a `^D` that is met before
any other character. -/
def Stores (got consumed stored : List UInt8) : Prop :=
  stored = got ++ consumed ∨ (got = [] ∧ stored = [] ∧ consumed = [ctrlD])

/-- A read that goes on has got all characters so far, none of which ends it. -/
structure Frame.Open (frame : Frame) : Prop where
  count : frame.got.length + frame.n = frame.target
  noEof : ctrlD ∉ frame.got
  noNewline : newline ∉ frame.got

structure Ends (target : Nat) (got : List UInt8) (consumed : List UInt8) (line : List UInt8) :
    Prop where
  noEof : ctrlD ∉ got
  firstNewline : newline ∉ got.dropLast
  reason : got.length = target ∨ got.getLast? = some newline ∨
    (got ≠ [] ∧ line.head? = some ctrlD) ∨ (got = [] ∧ consumed = [ctrlD])

/-- What the loop of `consoleread` does. -/
structure Progresses (input : Input) (target : Nat) (got : List UInt8) (progress : Progress) :
    Prop where
  ordered : progress.input.Ordered
  flow : progress.consumed ++ progress.input.line = input.line
  count : progress.got.length + progress.n = target
  taken : Stores got progress.consumed progress.got
  waits : progress.waits = true →
    Frame.Open ⟨progress.n, target, progress.got⟩ ∧ progress.got = got ++ progress.consumed
  ends : progress.waits = false →
    Ends target progress.got progress.consumed progress.input.line

theorem Frame.Open.ends {n target : Nat} {got consumed line : List UInt8}
    (isOpen : Frame.Open ⟨n, target, got⟩)
    (reason : got.length = target ∨ (got ≠ [] ∧ line.head? = some ctrlD) ∨
      (got = [] ∧ consumed = [ctrlD])) : Ends target got consumed line := by
  refine ⟨isOpen.noEof, fun member => isOpen.noNewline (List.mem_of_mem_dropLast member), ?_⟩
  rcases reason with all | stopped
  · exact .inl all
  · exact .inr (.inr stopped)

theorem Frame.Open.push {n target : Nat} {got : List UInt8} {c : UInt8}
    (isOpen : Frame.Open ⟨n + 1, target, got⟩) (notEof : c ≠ ctrlD) (notNewline : c ≠ newline) :
    Frame.Open ⟨n, target, got ++ [c]⟩ := by
  have count : got.length + (n + 1) = target := isOpen.count
  refine ⟨?_, ?_, ?_⟩
  · grind
  · rw [List.mem_append, List.mem_singleton]
    rintro (member | same)
    · exact isOpen.noEof member
    · exact notEof same.symm
  · rw [List.mem_append, List.mem_singleton]
    rintro (member | same)
    · exact isOpen.noNewline member
    · exact notNewline same.symm

theorem Frame.Open.endLine {n target : Nat} {got consumed line : List UInt8}
    (isOpen : Frame.Open ⟨n + 1, target, got⟩) :
    Ends target (got ++ [newline]) consumed line := by
  refine ⟨?_, ?_, .inr (.inl List.getLast?_concat)⟩
  · rw [List.mem_append, List.mem_singleton]
    rintro (member | same)
    · exact isOpen.noEof member
    · cases same
  · rw [List.dropLast_concat]
    exact isOpen.noNewline

theorem readLoop_spec {target n : Nat} {got : List UInt8} {input : Input}
    (ordered : input.Ordered) (isOpen : Frame.Open ⟨n, target, got⟩) :
    Progresses input target got (readLoop target n got input) := by
  induction n generalizing got input with
  | zero =>
    exact ⟨ordered, rfl, isOpen.count, .inl (List.append_nil _).symm,
      fun waits => Bool.noConfusion waits, fun _ => isOpen.ends (.inl isOpen.count)⟩
  | succ n ih =>
    have count : got.length + (n + 1) = target := isOpen.count
    rw [readLoop]
    split
    · have none : got = got ++ [] := (List.append_nil _).symm
      exact ⟨ordered, rfl, count, .inl none, fun _ => ⟨isOpen, none⟩,
        fun done => Bool.noConfusion done⟩
    rename_i some
    have front := line_eq_cons some
    have next := ordered_succ ordered some
    generalize input.buf (cell inputBuf input.r) = c at front
    dsimp only
    split
    · rename_i eof
      subst eof
      split
      · have putBack : input.r + 1 - 1 = input.r := by simp
        have nonempty : got ≠ [] := by
          grind
        rw [putBack]
        exact ⟨ordered, rfl, count, .inl (List.append_nil _).symm,
          fun waits => Bool.noConfusion waits,
          fun _ => isOpen.ends (.inr (.inl ⟨nonempty, congrArg List.head? front⟩))⟩
      · have none : got = [] := List.eq_nil_of_length_eq_zero (by omega)
        exact ⟨next, front.symm, count, .inr ⟨none, none, rfl⟩,
          fun waits => Bool.noConfusion waits,
          fun _ => isOpen.ends (.inr (.inr ⟨none, rfl⟩))⟩
    rename_i notEof
    split
    · rename_i isNewline
      subst isNewline
      refine ⟨next, front.symm, ?_, .inl rfl, fun waits => Bool.noConfusion waits,
        fun _ => isOpen.endLine⟩
      change (got ++ [newline]).length + n = target
      rw [List.length_append, List.length_singleton]
      omega
    · rename_i notNewline
      have later := ih next (isOpen.push notEof notNewline)
      -- The read has a character now, so a `^D` that follows is not consumed.
      have stored : got ++ [c] ≠ [] := List.append_ne_nil_of_right_ne_nil _ (List.cons_ne_nil c [])
      have taken : (readLoop target n (got ++ [c]) { input with r := input.r + 1 }).got =
          got ++ (c :: (readLoop target n (got ++ [c])
            { input with r := input.r + 1 }).consumed) := by
        rw [later.taken.resolve_right fun met => stored met.1, List.append_assoc,
          List.singleton_append]
      refine ⟨later.ordered, ?_, later.count, .inl taken,
        fun waits => ⟨(later.waits waits).1, taken⟩, fun done => ?_⟩
      · rw [front, ← later.flow]
        rfl
      · have ends := later.ends done
        refine ⟨ends.noEof, ends.firstNewline, ?_⟩
        rcases ends.reason with all | line | stopped | ⟨none, -⟩
        · exact .inl all
        · exact .inr (.inl line)
        · exact .inr (.inr (.inl stopped))
        · rw [taken] at none
          exact absurd (List.append_eq_nil_iff.mp none).2 (List.cons_ne_nil _ _)

/-! ## Runs -/

variable [DecidableEq Proc]

def consumedBy (entry : State Proc × Label Proc) : List UInt8 :=
  ((transition entry.1 entry.2).map Outcome.consumed).getD []

/-- The last read of a process after one more step: the count it asked for and
the characters it has consumed. -/
def extendCall (process : Proc) (call : Nat × List UInt8) (entry : State Proc × Label Proc) :
    Nat × List UInt8 :=
  match entry.2 with
  | .read reader n => if reader = process then (n, consumedBy entry) else call
  | .resume reader =>
    if reader = process then (call.1, call.2 ++ consumedBy entry) else call
  | _ => call

def lastCall (process : Proc) (trace : List (State Proc × Label Proc)) : Nat × List UInt8 :=
  trace.foldl (extendCall process) (0, [])

theorem lastCall_snoc (process : Proc) (trace : List (State Proc × Label Proc))
    (entry : State Proc × Label Proc) :
    lastCall process (trace ++ [entry]) = extendCall process (lastCall process trace) entry :=
  List.foldl_concat _ _ _ _

/-- The frame agrees with the count and the characters of the call. -/
structure Frame.Records (frame : Frame) (call : Nat × List UInt8) : Prop where
  isOpen : frame.Open
  target : frame.target = call.1
  got : frame.got = call.2

structure Keeps (trace : List (State Proc × Label Proc)) (state : State Proc) : Prop where
  ordered : state.input.Ordered
  flow : committed trace = consumed trace ++ state.input.line
  calls : ∀ process frame, (state.proc process).frame? = some frame →
    frame.Records (lastCall process trace)

/-- How a read that returns `code` leaves: `killed`, or for one of the reasons of
`Ends`. -/
structure Returns (target : Nat) (killed : Bool) (code : Int) (outcome : Outcome Proc) : Prop where
  length_le : outcome.got.length ≤ target
  code : (code = -1 ∧ killed = true) ∨
    (code = outcome.got.length ∧
      Ends target outcome.got outcome.consumed outcome.state.input.line)

structure Segment (state : State Proc) (process : Proc) (frame : Frame) (outcome : Outcome Proc) :
    Prop where
  ordered : outcome.state.input.Ordered
  flow : outcome.consumed ++ outcome.state.input.line = state.input.line
  committed : outcome.committed = []
  others : ∀ other, other ≠ process → outcome.state.proc other = state.proc other
  sleeps : outcome.code = none → ∃ next, outcome.state.proc process = .sleeping () next ∧
    next.Open ∧ next.target = frame.target ∧ next.got = frame.got ++ outcome.consumed
  returns : ∀ code, outcome.code = some code →
    outcome.state.proc process = state.proc process ∧
      Stores frame.got outcome.consumed outcome.got ∧
        Returns frame.target (state.killed process) code outcome

theorem consoleread_spec {state : State Proc} (process : Proc) {frame : Frame}
    (ordered : state.input.Ordered) (isOpen : frame.Open) :
    Segment state process frame (state.consoleread process frame) := by
  have spec := readLoop_spec ordered isOpen
  have count := spec.count
  rw [State.consoleread]
  generalize readLoop frame.target frame.n frame.got state.input = progress at spec count
  split
  · rename_i waits
    split
    · rename_i killed
      refine ⟨spec.ordered, spec.flow, rfl, fun _ _ => rfl,
        fun none => absurd none (Option.some_ne_none _), ?_⟩
      rintro code same
      cases same
      exact ⟨rfl, spec.taken, Nat.le.intro count, .inl ⟨rfl, killed⟩⟩
    · refine ⟨spec.ordered, spec.flow, rfl, fun other different => ?_, fun _ => ?_,
        fun code some => absurd some.symm (Option.some_ne_none _)⟩
      · exact State.setProc_proc_of_ne _ _ different
      · obtain ⟨stillOpen, taken⟩ := spec.waits waits
        exact ⟨_, State.setProc_proc_self _ _ _, stillOpen, rfl, taken⟩
  · rename_i awake
    refine ⟨spec.ordered, spec.flow, rfl, fun _ _ => rfl,
      fun none => absurd none (Option.some_ne_none _), ?_⟩
    rintro code same
    cases same
    refine ⟨rfl, spec.taken, Nat.le.intro count, .inr ⟨?_, spec.ends (by simpa using awake)⟩⟩
    change (frame.target : Int) - progress.n = progress.got.length
    omega

theorem committed_snoc {trace : List (State Proc × Label Proc)} {state : State Proc}
    {label : Label Proc} {outcome : Outcome Proc} (moved : transition state label = some outcome) :
    committed (trace ++ [(state, label)]) = committed trace ++ outcome.committed := by
  simp [committed, moved]

theorem consumed_snoc {trace : List (State Proc × Label Proc)} {state : State Proc}
    {label : Label Proc} {outcome : Outcome Proc} (moved : transition state label = some outcome) :
    consumed (trace ++ [(state, label)]) = consumed trace ++ outcome.consumed := by
  simp [consumed, moved]

theorem outcome_of_reads {state : State Proc} {label : Label Proc} {outcome : Outcome Proc}
    {process : Proc} {frame : Frame} (moved : transition state label = some outcome)
    (reads : Reads state label process frame) :
    outcome = (state.setProc process .user).consoleread process frame := by
  cases reads with
  | start n here =>
    rw [State.setProc_eq_self here]
    simpa only [transition, here, Option.some.injEq, eq_comm] using moved
  | resume here => simpa only [transition, here, Option.some.injEq, eq_comm] using moved

variable {trace : List (State Proc × Label Proc)} {state : State Proc} {label : Label Proc}
  {outcome : Outcome Proc} {process : Proc} {frame : Frame}

/-- The frame of a segment records the call that it belongs to. -/
theorem Keeps.reads (keeps : Keeps trace state) (moved : transition state label = some outcome)
    (reads : Reads state label process frame) :
    frame.Open ∧ (lastCall process (trace ++ [(state, label)])).1 = frame.target ∧
      (lastCall process (trace ++ [(state, label)])).2 = frame.got ++ outcome.consumed := by
  cases reads with
  | start n here =>
    have call : lastCall process (trace ++ [(state, .read process n)]) =
        (n, outcome.consumed) := by
      simp [lastCall_snoc, extendCall, consumedBy, moved]
    rw [call]
    exact ⟨⟨Nat.zero_add n, List.not_mem_nil, List.not_mem_nil⟩, rfl, rfl⟩
  | resume here =>
    have records := keeps.calls process frame (by rw [here]; rfl)
    have call : lastCall process (trace ++ [(state, .resume process)]) =
        ((lastCall process trace).1, (lastCall process trace).2 ++ outcome.consumed) := by
      simp [lastCall_snoc, extendCall, consumedBy, moved]
    rw [call]
    exact ⟨records.isOpen, records.target.symm, by rw [records.got]⟩

theorem Keeps.segment (keeps : Keeps trace state)
    (moved : transition state label = some outcome) (reads : Reads state label process frame) :
    Segment (state.setProc process .user) process frame outcome := by
  rw [outcome_of_reads moved reads]
  exact consoleread_spec process keeps.ordered (keeps.reads moved reads).1

theorem lastCall_of_reads_ne {other : Proc} (reads : Reads state label process frame)
    (different : other ≠ process) :
    lastCall other (trace ++ [(state, label)]) = lastCall other trace := by
  rw [lastCall_snoc]
  cases reads with
  | start n here => exact if_neg fun same => different same.symm
  | resume here => exact if_neg fun same => different same.symm

theorem Keeps.step (keeps : Keeps trace state) (moved : transition state label = some outcome) :
    Keeps (trace ++ [(state, label)]) outcome.state := by
  have flow : outcome.consumed ++ outcome.state.input.line =
      state.input.line ++ outcome.committed → committed (trace ++ [(state, label)]) =
        consumed (trace ++ [(state, label)]) ++ outcome.state.input.line := by
    intro same
    rw [committed_snoc moved, consumed_snoc moved, keeps.flow, List.append_assoc, ← same,
      List.append_assoc]
  cases moves_of_transition moved with
  | intr typed =>
    have types := types_consoleintr typed keeps.ordered
    refine ⟨types.ordered, flow types.line, fun process frame here => ?_⟩
    rw [frame?_consoleintr] at here
    rw [lastCall_snoc]
    exact keeps.calls process frame here
  | @segment _ process frame reads =>
    have segment := keeps.segment moved reads
    refine ⟨segment.ordered, flow ?_, fun other otherFrame here => ?_⟩
    · rw [segment.committed, List.append_nil]
      exact segment.flow
    by_cases same : other = process
    · subst same
      obtain ⟨-, target, got⟩ := keeps.reads moved reads
      cases code : ((state.setProc other .user).consoleread other frame).code with
      | none =>
        obtain ⟨next, asleep, isOpen, nextTarget, nextGot⟩ := segment.sleeps code
        rw [asleep] at here
        cases here
        exact ⟨isOpen, nextTarget.trans target.symm, nextGot.trans got.symm⟩
      | some code =>
        obtain ⟨user, -⟩ := segment.returns _ code
        rw [user, State.setProc_proc_self] at here
        cases here
    · rw [segment.others other same, State.setProc_proc_of_ne _ _ same] at here
      rw [lastCall_of_reads_ne reads same]
      exact keeps.calls other otherFrame here
  | kill process early =>
    refine ⟨keeps.ordered, flow (List.append_nil _).symm, fun other frame here => ?_⟩
    rw [lastCall_snoc]
    apply keeps.calls other frame
    rw [← here]
    change _ = ((state.setProc process _).proc other).frame?
    by_cases same : other = process
    · subst same
      rw [State.setProc_proc_self]
      split
      · rfl
      · exact CallState.frame?_rouse.symm
    · rw [State.setProc_proc_of_ne _ _ same]

theorem keeps_of_run {finish : State Proc} (run : ConsoleRun trace finish) :
    Keeps trace finish := by
  refine run.traced_invariant Keeps (fun _ _ => True) ?_ ?_ fun _ _ => trivial
  · have start : (State.initial : State Proc).input.Ordered := by
      change distance 0 0 + distance 0 0 ≤ 128
      decide
    have empty : (State.initial : State Proc).input.line = [] := by
      change slice _ 0 (distance 0 0) = []
      rw [distance_self, slice_zero]
    refine ⟨start, empty.symm, fun process frame here => ?_⟩
    cases here
  · intro trace state label next _ keeps _ stepped
    obtain ⟨outcome, moved, -, rfl⟩ := moves_of_step stepped
    exact keeps.step moved

theorem line_kept_of_intr {finish next : State Proc} {typed : List UInt8}
    (run : ConsoleRun trace finish) (stepped : step finish (.intr typed) = some next) :
    next.input.r = finish.input.r ∧ finish.input.line <+: next.input.line := by
  cases stepped
  have types := types_consoleintr typed (keeps_of_run run).ordered
  exact ⟨types.r, ⟨_, types.line.symm⟩⟩

/-- The line discipline of the console.  The indices stay in order within one
turn of the ring, typing leaves the committed characters alone, reads consume
the committed characters in order, and a read that returns has stored at most
the characters asked for, up to the first newline or before the first `^D`.  It has
consumed just these, or a `^D` alone. -/
theorem console_reads_lines {finish : State Proc} (run : ConsoleRun trace finish) :
    Throughout (fun state =>
        (state.input.w - state.input.r).toNat + (state.input.e - state.input.w).toNat =
            (state.input.e - state.input.r).toNat ∧
          (state.input.e - state.input.r).toNat ≤ inputBuf) trace finish ∧
      (∀ before state typed after next, trace = before ++ (state, .intr typed) :: after →
        step state (.intr typed) = some next →
          next.input.r = state.input.r ∧ state.input.line <+: next.input.line) ∧
      consumed trace <+: committed trace ∧
      ∀ before state label after outcome process frame code,
        trace = before ++ (state, label) :: after → transition state label = some outcome →
          Reads state label process frame → outcome.code = some code →
            Stores [] (lastCall process (before ++ [(state, label)])).2 outcome.got ∧
              Returns (lastCall process (before ++ [(state, label)])).1 (state.killed process)
                code outcome := by
  refine ⟨?_, ?_, ⟨finish.input.line, (keeps_of_run run).flow.symm⟩, ?_⟩
  · have indices : ∀ {trace} {state : State Proc}, ConsoleRun trace state →
        (state.input.w - state.input.r).toNat + (state.input.e - state.input.w).toNat =
            (state.input.e - state.input.r).toNat ∧
          (state.input.e - state.input.r).toNat ≤ inputBuf := by
      intro trace state run
      have ordered := (keeps_of_run run).ordered
      exact ⟨ordered.distance_eq.symm, ordered.distance_eq.trans_le ordered⟩
    refine ⟨fun entry member => ?_, indices run⟩
    obtain ⟨before, after, rfl⟩ := List.append_of_mem member
    obtain ⟨middle, first, rest⟩ := run.split
    obtain ⟨rfl, -⟩ := rest.head
    exact indices first
  · rintro before state typed after next rfl stepped
    obtain ⟨middle, first, rest⟩ := run.split
    obtain ⟨rfl, -⟩ := rest.head
    exact line_kept_of_intr first stepped
  · rintro before state label after outcome process frame code rfl moved reads returned
    obtain ⟨middle, first, rest⟩ := run.split
    obtain ⟨rfl, -⟩ := rest.head
    have keeps := keeps_of_run first
    obtain ⟨-, target, got⟩ := keeps.reads moved reads
    obtain ⟨-, stored, returns⟩ := (keeps.segment moved reads).returns code returned
    rw [target, got]
    refine ⟨stored.imp id ?_, returns⟩
    rintro ⟨none, isEmpty, met⟩
    exact ⟨rfl, isEmpty, by rw [none, met, List.nil_append]⟩

/-- A reader waits; a line with a corrected character and an end of file are
typed.  One read takes the line, one stops before the end of file, and the next
one meets it. -/
def typedLine (first second : Proc) : List (Label Proc) :=
  [.read first 10, .intr [97, 98, 8, 99], .intr [13, 100, 4], .resume first, .read second 10,
    .read second 10]

theorem console_reads_typedLine :
    ∃ (trace : List (State (Fin 2) × Label (Fin 2))) (finish : State (Fin 2)),
      ConsoleRun trace finish ∧ trace.map Prod.snd = typedLine 0 1 ∧
        consumed trace = [97, 99, 10, 100, 4] ∧ consumed trace <+: committed trace := by
  refine exists_run_of_test (fun trace _ => consumed trace = [97, 99, 10, 100, 4])
    (by decide +kernel) ?_
  exact fun _ _ run _ read => ⟨read, (console_reads_lines run).2.2.1⟩

end Console

end Xv6
