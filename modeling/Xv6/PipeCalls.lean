import Xv6.BlockingCalls
import Xv6.LabelledRuns
import Xv6.RingBuffers

/-!
# Pipes

A pipe is a ring of `PIPESIZE` bytes with two free-running 32-bit counters.
`pipewrite` and `piperead` run under the lock of the pipe and give it up only
in `sleep`, so each call is a sequence of atomic segments: from its start or
from a wakeup to the next `sleep` or to its return.  A state is one in which
the lock is free.

Writers sleep on the address of `nwrite` and readers on that of `nread`.  A
segment tests the `killed` flag of its process at most once, after its last
store.  A `kill` during the segment therefore has the effect of one before it
if it comes before the test, and of one after it if it comes after the test;
but then it does not find the process asleep and does not wake it.  When both
ends are closed the pipe is freed, and there is no further step.
-/

namespace Xv6

namespace Pipes

open LabelledRun RingBuffer

abbrev pipesize : Nat := 512

scoped instance : NeZero pipesize := ⟨by decide⟩

/-- `struct pipe`, without its lock. -/
structure Pipe where
  data : Fin pipesize → UInt8
  nread : BitVec 32
  nwrite : BitVec 32
  readopen : Bool
  writeopen : Bool

inductive Chan
  | nread
  | nwrite
  deriving DecidableEq

/-- What a call keeps across its `sleep`: `pipewrite` its length and the bytes
from `addr[i]` on, `piperead` its length. -/
inductive Frame
  | write (n : Nat) (rest : List UInt8)
  | read (n : Nat)

/-- Where a process stands with respect to the pipe. -/
abbrev ProcState : Type :=
  CallState Chan Frame

variable {Proc : Type}

structure State (Proc : Type) where
  pipe : Pipe
  proc : Proc → ProcState
  killed : Proc → Bool

/-- The result of a segment.  There is no code when the process sleeps. -/
structure Outcome (Proc : Type) where
  state : State Proc
  code : Option Int
  stored : List UInt8
  returned : List UInt8

/-! ## The loops -/

def Pipe.Full (p : Pipe) : Prop :=
  p.nwrite = p.nread + BitVec.ofNat 32 pipesize

instance (p : Pipe) : Decidable p.Full :=
  inferInstanceAs (Decidable (_ = _))

def Pipe.put (p : Pipe) (byte : UInt8) : Pipe :=
  { p with data := RingBuffer.put p.data p.nwrite byte, nwrite := p.nwrite + 1 }

/-- The loop of `pipewrite` up to a full ring or to its end, with the bytes left. -/
def writeLoop : List UInt8 → Pipe → Pipe × List UInt8
  | [], p => (p, [])
  | byte :: rest, p => if p.Full then (p, byte :: rest) else writeLoop rest (p.put byte)

/-- The loop of `piperead`, with the bytes read. -/
def readLoop : Nat → Pipe → Pipe × List UInt8
  | 0, p => (p, [])
  | n + 1, p =>
    if p.nread = p.nwrite then (p, [])
    else
      let rest := readLoop n { p with nread := p.nread + 1 }
      (rest.1, p.data (cell pipesize p.nread) :: rest.2)

/-! ## The calls -/

namespace State

def wakeup (state : State Proc) (chan : Chan) : State Proc :=
  { state with proc := fun process => (state.proc process).wakeup1 chan }

variable [DecidableEq Proc]

def setProc (state : State Proc) (process : Proc) (next : ProcState) : State Proc :=
  { state with proc := Function.update state.proc process next }

@[simp]
theorem setProc_proc_self (state : State Proc) (process : Proc) (next : ProcState) :
    (state.setProc process next).proc process = next := by
  simp [setProc]

theorem setProc_proc_of_ne (state : State Proc) {process other : Proc} (next : ProcState)
    (different : other ≠ process) :
    (state.setProc process next).proc other = state.proc other := by
  simp [setProc, different]

/-- A segment of `pipewrite` with the bytes `rest` left.  The exit for a killed
writer or a closed read end wakes no reader. -/
def pipewrite (state : State Proc) (process : Proc) (n : Nat) (rest : List UInt8) :
    Outcome Proc :=
  let result := writeLoop rest state.pipe
  let stored := rest.take (rest.length - result.2.length)
  let after := { state with pipe := result.1 }
  if result.2 = [] then
    { state := after.wakeup .nread, code := some n, stored := stored, returned := [] }
  else if result.1.readopen = false ∨ state.killed process then
    { state := after, code := some (-1), stored := stored, returned := [] }
  else
    { state := (after.wakeup .nread).setProc process (.sleeping .nwrite (.write n result.2))
      code := none, stored := stored, returned := [] }

def piperead (state : State Proc) (process : Proc) (n : Nat) : Outcome Proc :=
  if state.pipe.nread = state.pipe.nwrite ∧ state.pipe.writeopen = true then
    if state.killed process then
      { state := state, code := some (-1), stored := [], returned := [] }
    else
      { state := state.setProc process (.sleeping .nread (.read n))
        code := none, stored := [], returned := [] }
  else
    let result := readLoop n state.pipe
    { state := { state with pipe := result.1 }.wakeup .nwrite
      code := some result.2.length, stored := [], returned := result.2 }

omit [DecidableEq Proc] in
def pipeclose (state : State Proc) (writable : Bool) : State Proc :=
  if writable then
    { state with pipe := { state.pipe with writeopen := false } }.wakeup .nread
  else
    { state with pipe := { state.pipe with readopen := false } }.wakeup .nwrite

/-- What `kill` does to a process that uses the pipe.  It does not wake a
process that it finds on its way to `sleep`. -/
def kill (state : State Proc) (process : Proc) (early : Bool) : State Proc :=
  let next := if early then state.proc process else (state.proc process).rouse
  { state.setProc process next with killed := Function.update state.killed process true }

end State

/-! ## Runs -/

inductive Call
  | write (bytes : List UInt8)
  | read (n : Nat)

/-- What happens next: a call, the continuation of one after a wakeup, a `kill`,
or the last `close` of an end. -/
inductive Label (Proc : Type)
  | call (process : Proc) (call : Call)
  | resume (process : Proc)
  | kill (process : Proc) (early : Bool)
  | close (writable : Bool)

variable [DecidableEq Proc]

def Call.frame : Call → Frame
  | .write bytes => .write bytes.length bytes
  | .read n => .read n

/-- A segment, from the start of a call or after a `sleep`. -/
def Frame.run (process : Proc) (state : State Proc) : Frame → Outcome Proc
  | .write n rest => state.pipewrite process n rest
  | .read n => state.piperead process n

def transition (state : State Proc) (label : Label Proc) : Option (Outcome Proc) :=
  if state.pipe.readopen = false ∧ state.pipe.writeopen = false then none
  else
    match label with
    | .call process call =>
      match state.proc process with
      | .user => some (call.frame.run process state)
      | _ => none
    | .resume process =>
      match state.proc process with
      | .runnable frame => some (frame.run process (state.setProc process .user))
      | _ => none
    | .kill process early =>
      some { state := state.kill process early, code := none, stored := [], returned := [] }
    | .close writable =>
      some { state := state.pipeclose writable, code := none, stored := [], returned := [] }

def step (state : State Proc) (label : Label Proc) : Option (State Proc) :=
  (transition state label).map Outcome.state

inductive Runs (state : State Proc) : Label Proc → Proc → Frame → Prop
  | call {process : Proc} (call : Call) :
      state.proc process = .user → Runs state (.call process call) process call.frame
  | resume {process : Proc} {frame : Frame} :
      state.proc process = .runnable frame → Runs state (.resume process) process frame

inductive Moves (state : State Proc) : Label Proc → Outcome Proc → Prop
  | segment {label : Label Proc} {process : Proc} {frame : Frame} :
      Runs state label process frame →
        Moves state label (frame.run process (state.setProc process .user))
  | kill (process : Proc) (early : Bool) :
      Moves state (.kill process early)
        { state := state.kill process early, code := none, stored := [], returned := [] }
  | close (writable : Bool) :
      Moves state (.close writable)
        { state := state.pipeclose writable, code := none, stored := [], returned := [] }

theorem State.setProc_eq_self {state : State Proc} {process : Proc} {next : ProcState}
    (same : state.proc process = next) : state.setProc process next = state := by
  simp [State.setProc, ← same]

theorem moves_of_transition {state : State Proc} {label : Label Proc} {outcome : Outcome Proc}
    (moved : transition state label = some outcome) : Moves state label outcome := by
  unfold transition at moved
  split at moved
  · cases moved
  cases label with
  | call process call =>
    cases here : state.proc process with
    | user =>
      simp only [here, Option.some.injEq] at moved
      have segment : Moves state (.call process call) _ := .segment (.call call here)
      rw [State.setProc_eq_self here, moved] at segment
      exact segment
    | sleeping chan frame => simp [here] at moved
    | runnable frame => simp [here] at moved
  | resume process =>
    cases here : state.proc process with
    | user => simp [here] at moved
    | sleeping chan frame => simp [here] at moved
    | runnable frame =>
      simp only [here, Option.some.injEq] at moved
      rw [← moved]
      exact .segment (.resume here)
  | kill process early =>
    cases moved
    exact .kill process early
  | close writable =>
    cases moved
    exact .close writable

theorem moves_of_step {state next : State Proc} {label : Label Proc}
    (stepped : step state label = some next) :
    ∃ outcome, transition state label = some outcome ∧ Moves state label outcome ∧
      outcome.state = next := by
  obtain ⟨outcome, moved, same⟩ := Option.map_eq_some_iff.mp stepped
  exact ⟨outcome, moved, moves_of_transition moved, same⟩

/-- The pipe of `pipealloc`, in a page with any contents. -/
def State.initial (data : Fin pipesize → UInt8) : State Proc where
  pipe := { data := data, nread := 0, nwrite := 0, readopen := true, writeopen := true }
  proc _ := .user
  killed _ := false

abbrev PipeRun (data : Fin pipesize → UInt8) (trace : List (State Proc × Label Proc))
    (finish : State Proc) : Prop :=
  Run step (State.initial data) trace finish

def stored (trace : List (State Proc × Label Proc)) : List UInt8 :=
  trace.flatMap fun entry => ((transition entry.1 entry.2).map Outcome.stored).getD []

def returned (trace : List (State Proc × Label Proc)) : List UInt8 :=
  trace.flatMap fun entry => ((transition entry.1 entry.2).map Outcome.returned).getD []

end Pipes

end Xv6
