import Xv6.BlockingCalls
import Xv6.LabelledRuns
import Xv6.RingBuffers

/-!
# The line discipline of the console

The console keeps typed characters in a ring with three free-running 32-bit
indices: `e` is where the next character goes, the characters from `w` to `e` can
still be edited, and those from `r` to `w` are committed and wait to be read.
`consoleintr` types and edits; `consoleread` takes committed characters and sleeps
when there are none.  Both run under `cons.lock`, so a read is a sequence of atomic
segments between its sleeps.
-/

namespace Xv6

namespace Console

open LabelledRun RingBuffer

abbrev inputBuf : Nat := 128

scoped instance : NeZero inputBuf := ⟨by decide⟩

/-- `C('D')`, the end of file. -/
abbrev ctrlD : UInt8 := 4

abbrev newline : UInt8 := 10

structure Input where
  buf : Fin inputBuf → UInt8
  r : BitVec 32
  w : BitVec 32
  e : BitVec 32

/-- What `consoleread` keeps across its `sleep`: the count left, the count asked
for, and the characters stored at `dst` so far. -/
structure Frame where
  n : Nat
  target : Nat
  got : List UInt8

/-- The console and the processes.  All sleepers wait on the address of `r`. -/
structure State (Proc : Type) where
  input : Input
  proc : Proc → CallState Unit Frame
  killed : Proc → Bool

/-- The result of a segment: the code of a read that returns, with the characters
it has stored, and the characters committed and consumed. -/
structure Outcome (Proc : Type) where
  state : State Proc
  code : Option Int
  got : List UInt8
  committed : List UInt8
  consumed : List UInt8

/-! ## Typing -/

/-- The loop of `C('U')`, over the characters that can be edited. -/
def killLine : Nat → Input → Input
  | 0, input => input
  | fuel + 1, input =>
    if input.e ≠ input.w ∧ input.buf (cell inputBuf (input.e - 1)) ≠ newline then
      killLine fuel { input with e := input.e - 1 }
    else input

def Input.store (input : Input) (c : UInt8) : Input :=
  { input with buf := put input.buf input.e c, e := input.e + 1 }

/-- One iteration of `consoleintr`: the input, and whether the line is committed.
The listing of `C('P')` is printed after the loop. -/
def typeChar (c : UInt8) (input : Input) : Input × Bool :=
  if c = 16 then (input, false)
  else if c = 21 then (killLine (distance input.w input.e) input, false)
  else if c = 8 ∨ c = 127 then
    if input.e ≠ input.w then ({ input with e := input.e - 1 }, false) else (input, false)
  else if c ≠ 0 ∧ distance input.r input.e < inputBuf then
    let c := if c = 13 then newline else c
    let stored := input.store c
    if c = newline ∨ c = ctrlD ∨ stored.e = stored.r + BitVec.ofNat 32 inputBuf then
      ({ stored with w := stored.e }, true)
    else (stored, false)
  else (input, false)

variable {Proc : Type}

def State.wakeup (state : State Proc) : State Proc :=
  { state with proc := fun process => (state.proc process).wakeup1 () }

/-- The loop of `consoleintr` over the characters that `getc` returns, with the
characters committed. -/
def State.consoleintr : List UInt8 → State Proc → State Proc × List UInt8
  | [], state => (state, [])
  | c :: typed, state =>
    let result := typeChar c state.input
    let after := { state with input := result.1 }
    let line := slice result.1.buf state.input.w (distance state.input.w result.1.e)
    let rest := State.consoleintr typed (if result.2 then after.wakeup else after)
    (rest.1, (if result.2 then line else []) ++ rest.2)

/-! ## Reading -/

structure Progress where
  input : Input
  consumed : List UInt8
  got : List UInt8
  n : Nat
  waits : Bool

/-- The loop of `consoleread` up to an empty buffer or to its end. -/
def readLoop (target : Nat) : Nat → List UInt8 → Input → Progress
  | 0, got, input => ⟨input, [], got, 0, false⟩
  | n + 1, got, input =>
    if input.r = input.w then ⟨input, [], got, n + 1, true⟩
    else
      let c := input.buf (cell inputBuf input.r)
      let next := { input with r := input.r + 1 }
      if c = ctrlD then
        if n + 1 < target then ⟨{ next with r := next.r - 1 }, [], got, n + 1, false⟩
        else ⟨next, [c], got, n + 1, false⟩
      else if c = newline then ⟨next, [c], got ++ [c], n, false⟩
      else
        let rest := readLoop target n (got ++ [c]) next
        { rest with consumed := c :: rest.consumed }

variable [DecidableEq Proc]

def State.setProc (state : State Proc) (process : Proc) (next : CallState Unit Frame) :
    State Proc :=
  { state with proc := Function.update state.proc process next }

def State.consoleread (state : State Proc) (process : Proc) (frame : Frame) : Outcome Proc :=
  let progress := readLoop frame.target frame.n frame.got state.input
  let after := { state with input := progress.input }
  if progress.waits then
    if state.killed process then
      { state := after, code := some (-1), got := progress.got
        committed := [], consumed := progress.consumed }
    else
      { state := after.setProc process
          (.sleeping () ⟨progress.n, frame.target, progress.got⟩)
        code := none, got := [], committed := [], consumed := progress.consumed }
  else
    { state := after, code := some ((frame.target : Int) - progress.n), got := progress.got
      committed := [], consumed := progress.consumed }

/-- What `kill` does to a process that reads the console.  It does not wake a
process that it finds on its way to `sleep`. -/
def State.kill (state : State Proc) (process : Proc) (early : Bool) : State Proc :=
  let next := if early then state.proc process else (state.proc process).rouse
  { state.setProc process next with killed := Function.update state.killed process true }

/-! ## Runs -/

/-- What happens next: an interrupt with the characters typed, a read, the
continuation of one after a wakeup, or a `kill`. -/
inductive Label (Proc : Type)
  | intr (typed : List UInt8)
  | read (process : Proc) (n : Nat)
  | resume (process : Proc)
  | kill (process : Proc) (early : Bool)

def transition (state : State Proc) : Label Proc → Option (Outcome Proc)
  | .intr typed =>
    some
      { state := (State.consoleintr typed state).1, code := none, got := []
        committed := (State.consoleintr typed state).2, consumed := [] }
  | .read process n =>
    match state.proc process with
    | .user => some (state.consoleread process ⟨n, n, []⟩)
    | _ => none
  | .resume process =>
    match state.proc process with
    | .runnable frame => some ((state.setProc process .user).consoleread process frame)
    | _ => none
  | .kill process early =>
    some
      { state := state.kill process early, code := none, got := []
        committed := [], consumed := [] }

def step (state : State Proc) (label : Label Proc) : Option (State Proc) :=
  (transition state label).map Outcome.state

def State.initial : State Proc where
  input := { buf := fun _ => 0, r := 0, w := 0, e := 0 }
  proc _ := .user
  killed _ := false

abbrev ConsoleRun (trace : List (State Proc × Label Proc)) (finish : State Proc) : Prop :=
  Run step State.initial trace finish

def committed (trace : List (State Proc × Label Proc)) : List UInt8 :=
  trace.flatMap fun entry => ((transition entry.1 entry.2).map Outcome.committed).getD []

def consumed (trace : List (State Proc × Label Proc)) : List UInt8 :=
  trace.flatMap fun entry => ((transition entry.1 entry.2).map Outcome.consumed).getD []

/-- The process runs a segment of a read with these local variables. -/
inductive Reads (state : State Proc) : Label Proc → Proc → Frame → Prop
  | start {process : Proc} (n : Nat) :
      state.proc process = .user → Reads state (.read process n) process ⟨n, n, []⟩
  | resume {process : Proc} {frame : Frame} :
      state.proc process = .runnable frame → Reads state (.resume process) process frame

inductive Moves (state : State Proc) : Label Proc → Outcome Proc → Prop
  | intr (typed : List UInt8) :
      Moves state (.intr typed)
        { state := (State.consoleintr typed state).1, code := none, got := []
          committed := (State.consoleintr typed state).2, consumed := [] }
  | segment {label : Label Proc} {process : Proc} {frame : Frame} :
      Reads state label process frame →
        Moves state label ((state.setProc process .user).consoleread process frame)
  | kill (process : Proc) (early : Bool) :
      Moves state (.kill process early)
        { state := state.kill process early, code := none, got := []
          committed := [], consumed := [] }

theorem State.setProc_eq_self {state : State Proc} {process : Proc} {next : CallState Unit Frame}
    (same : state.proc process = next) : state.setProc process next = state := by
  simp [State.setProc, ← same]

@[simp]
theorem State.setProc_proc_self (state : State Proc) (process : Proc)
    (next : CallState Unit Frame) : (state.setProc process next).proc process = next := by
  simp [State.setProc]

theorem State.setProc_proc_of_ne (state : State Proc) {process other : Proc}
    (next : CallState Unit Frame) (different : other ≠ process) :
    (state.setProc process next).proc other = state.proc other := by
  simp [State.setProc, different]

theorem moves_of_transition {state : State Proc} {label : Label Proc} {outcome : Outcome Proc}
    (moved : transition state label = some outcome) : Moves state label outcome := by
  cases label with
  | intr typed =>
    cases moved
    exact .intr typed
  | read process n =>
    cases here : state.proc process with
    | user =>
      simp only [transition, here, Option.some.injEq] at moved
      have segment : Moves state (.read process n) _ := .segment (.start n here)
      rw [State.setProc_eq_self here, moved] at segment
      exact segment
    | sleeping chan frame => simp [transition, here] at moved
    | runnable frame => simp [transition, here] at moved
  | resume process =>
    cases here : state.proc process with
    | user => simp [transition, here] at moved
    | sleeping chan frame => simp [transition, here] at moved
    | runnable frame =>
      simp only [transition, here, Option.some.injEq] at moved
      rw [← moved]
      exact .segment (.resume here)
  | kill process early =>
    cases moved
    exact .kill process early

theorem moves_of_step {state next : State Proc} {label : Label Proc}
    (stepped : step state label = some next) :
    ∃ outcome, transition state label = some outcome ∧ Moves state label outcome ∧
      outcome.state = next := by
  obtain ⟨outcome, moved, same⟩ := Option.map_eq_some_iff.mp stepped
  exact ⟨outcome, moved, moves_of_transition moved, same⟩

end Console

end Xv6
