import Xv6.KernelRoutines
import Xv6.LabelledRuns

/-!
# The process table

`fork` takes a slot in two sections under `ptable.lock`, with the allocation of
memory and the assignment of the parent between them; `exit` passes its children
on and leaves a zombie; `wait` frees the slot of a zombie or sleeps; `kill` marks
the first slot with a given process id.  A step is one such section, or what a
process does to its own table entry between two of them.  The scheduler, `yield`
and the sleeps of other calls complete the states of a process.

Process ids are 32-bit words.  Nobody owns a socket here, so `closeprocsocks`
does nothing.
-/

namespace Xv6

namespace ProcTable

open LabelledRun Socket
open KernelLock (Proc nproc Procstate Chan)

/-- `struct proc`, as far as the table is concerned. -/
structure Entry where
  state : Procstate
  pid : BitVec 32
  parent : Option Proc
  chan : Option Chan
  killed : Bool

/-- What a process has begun in the kernel: nothing, `fork` with the slot it has
allocated and whether its parent is set, `wait` from its first sleep on, or
another call from its sleep on. -/
inductive Activity
  | user
  | forking (np : Proc) (linked : Bool)
  | waiting
  | asleep
  deriving DecidableEq

/-- The process table, the next process id, and the activities of the
processes. -/
structure State where
  ptable : Proc → Entry
  nextpid : BitVec 32
  initproc : Proc
  activity : Proc → Activity

structure Outcome where
  state : State
  code : Option (BitVec 32)

namespace State

def setEntry (state : State) (process : Proc) (change : Entry → Entry) : State :=
  { state with ptable := Function.update state.ptable process (change (state.ptable process)) }

def setState (state : State) (process : Proc) (procstate : Procstate) : State :=
  state.setEntry process fun entry => { entry with state := procstate }

def setActivity (state : State) (process : Proc) (activity : Activity) : State :=
  { state with activity := Function.update state.activity process activity }

def Runs (state : State) (process : Proc) (activity : Activity) : Prop :=
  (state.ptable process).state = .running ∧ state.activity process = activity

instance (state : State) (process : Proc) (activity : Activity) :
    Decidable (state.Runs process activity) :=
  inferInstanceAs (Decidable (_ ∧ _))

/-- After `userinit`: the first process can run and every other slot is unused. -/
def initial (initproc : Proc) : State where
  ptable process :=
    if process = initproc then
      { state := .runnable, pid := 1, parent := none, chan := none, killed := false }
    else { state := .unused, pid := 0, parent := none, chan := none, killed := false }
  nextpid := 2
  initproc := initproc
  activity _ := .user

end State

def Entry.wakeup1 (chan : Option Chan) (entry : Entry) : Entry :=
  if entry.state = .sleeping ∧ entry.chan = chan then { entry with state := .runnable } else entry

def Entry.reap (entry : Entry) : Entry :=
  { entry with pid := 0, parent := none, killed := false, state := .unused }

def Entry.kill (entry : Entry) : Entry :=
  { entry with
    killed := true
    state := if entry.state = .sleeping then .runnable else entry.state }

namespace State

def wakeup1 (chan : Option Chan) (state : State) : State :=
  { state with ptable := fun process => (state.ptable process).wakeup1 chan }

/-! ## `fork` -/

/-- The section of `allocproc`: the first unused slot becomes an embryo. -/
def allocproc (state : State) (curproc : Proc) : Outcome :=
  match firstIndex fun process => decide ((state.ptable process).state = .unused) with
  | none => { state := state, code := some (-1) }
  | some np =>
    { state :=
        ({ state with nextpid := state.nextpid + 1 }.setEntry np fun entry =>
          { entry with state := .embryo, pid := state.nextpid }).setActivity curproc
            (.forking np false)
      code := none }

/-- `fork` gives the slot back when `kalloc` or `copyuvm` fails. -/
def forkFails (state : State) (curproc np : Proc) : Outcome where
  state := (state.setState np .unused).setActivity curproc .user
  code := some (-1)

def linkParent (state : State) (curproc np : Proc) : Outcome where
  state :=
    (state.setEntry np fun entry => { entry with parent := some curproc }).setActivity curproc
      (.forking np true)
  code := none

def forkEnds (state : State) (curproc np : Proc) : Outcome where
  state := (state.setState np .runnable).setActivity curproc .user
  code := some (state.ptable np).pid

/-! ## `exit` and `wait` -/

/-- The loop of `exit` on one process: pass an abandoned child to init. -/
def passChild (curproc : Proc) (state : State) (process : Proc) : State :=
  if (state.ptable process).parent = some curproc then
    let passed := state.setEntry process fun entry =>
      { entry with parent := some state.initproc }
    if (passed.ptable process).state = .zombie then
      passed.wakeup1 (some (.proc state.initproc))
    else passed
  else state

def exit (state : State) (curproc : Proc) : State :=
  let woken := state.wakeup1 ((state.ptable curproc).parent.map .proc)
  ((List.finRange nproc).foldl (passChild curproc) woken).setState curproc .zombie

def findZombie (state : State) (curproc : Proc) : Option Proc :=
  firstIndex fun process =>
    decide ((state.ptable process).parent = some curproc ∧
      (state.ptable process).state = .zombie)

def haveKids (state : State) (curproc : Proc) : Bool :=
  (firstIndex fun process => decide ((state.ptable process).parent = some curproc)).isSome

/-- One round of the loop of `wait`. -/
def wait (state : State) (curproc : Proc) : Outcome :=
  match state.findZombie curproc with
  | some child =>
    { state := (state.setEntry child Entry.reap).setActivity curproc .user
      code := some (state.ptable child).pid }
  | none =>
    if ¬ state.haveKids curproc ∨ (state.ptable curproc).killed then
      { state := state.setActivity curproc .user, code := some (-1) }
    else
      { state :=
          (state.setEntry curproc fun entry =>
            { entry with state := .sleeping, chan := some (.proc curproc) }).setActivity
              curproc .waiting
        code := none }

/-! ## Other calls -/

def sleep (state : State) (process : Proc) (address : Nat) : State :=
  (state.setEntry process fun entry =>
    { entry with state := .sleeping, chan := some (.other address) }).setActivity process .asleep

/-- The assignment of `sleep` after it has been woken. -/
def tidyUp (state : State) (process : Proc) : State :=
  state.setEntry process fun entry => { entry with chan := none }

/-- The slot that `kill` finds. -/
def findPid (state : State) (pid : BitVec 32) : Option Proc :=
  firstIndex fun process => decide ((state.ptable process).pid = pid)

def kill (state : State) (pid : BitVec 32) : Outcome :=
  match state.findPid pid with
  | none => { state := state, code := some (-1) }
  | some process => { state := state.setEntry process Entry.kill, code := some 0 }

end State

/-! ## Runs -/

inductive Label
  | schedule (process : Proc)
  | yield (process : Proc)
  | allocproc (process : Proc)
  | forkFails (process : Proc)
  | linkParent (process : Proc)
  | forkEnds (process : Proc)
  | exit (process : Proc)
  | wait (process : Proc)
  | resumeWait (process : Proc)
  | sleep (process : Proc) (address : Nat)
  | resume (process : Proc)
  | wakeup (address : Nat)
  | kill (process : Proc) (pid : BitVec 32)
  deriving DecidableEq

/-- A step that needs its process to run with a given activity. -/
def whenRuns (state : State) (process : Proc) (activity : Activity) (outcome : Outcome) :
    Option Outcome :=
  if state.Runs process activity then some outcome else none

/-- A step of a process in `fork`, on the slot it has allocated. -/
def whenForking (state : State) (process : Proc) (linked : Bool) (outcome : Proc → Outcome) :
    Option Outcome :=
  match state.activity process with
  | .forking np isLinked =>
    if isLinked = linked ∧ (state.ptable process).state = .running then some (outcome np)
    else none
  | _ => none

/-- One step.  `exit` of the initial process panics. -/
def transition (state : State) : Label → Option Outcome
  | .schedule process =>
    if (state.ptable process).state = .runnable then
      some { state := state.setState process .running, code := none }
    else none
  | .yield process =>
    if (state.ptable process).state = .running then
      some { state := state.setState process .runnable, code := none }
    else none
  | .allocproc process => whenRuns state process .user (state.allocproc process)
  | .forkFails process => whenForking state process false (state.forkFails process)
  | .linkParent process => whenForking state process false (state.linkParent process)
  | .forkEnds process => whenForking state process true (state.forkEnds process)
  | .exit process =>
    if process = state.initproc then none
    else whenRuns state process .user { state := state.exit process, code := none }
  | .wait process => whenRuns state process .user (state.wait process)
  | .resumeWait process => whenRuns state process .waiting ((state.tidyUp process).wait process)
  | .sleep process address =>
    whenRuns state process .user { state := state.sleep process address, code := none }
  | .resume process =>
    whenRuns state process .asleep
      { state := (state.tidyUp process).setActivity process .user, code := none }
  | .wakeup address =>
    some { state := state.wakeup1 (some (.other address)), code := none }
  | .kill process pid => whenRuns state process .user (state.kill pid)

def step (state : State) (label : Label) : Option State :=
  (transition state label).map Outcome.state

def code (state : State) (label : Label) : Option (BitVec 32) :=
  (transition state label).bind Outcome.code

abbrev ProcessRun (initproc : Proc) (trace : List (State × Label)) (finish : State) : Prop :=
  Run step (State.initial initproc) trace finish

/-! ## What a step does -/

/-- The effects of the steps, with the tests passed on the way to each. -/
inductive Moves (state : State) : Label → Outcome → Prop
  | scheduled {process : Proc} : (state.ptable process).state = .runnable →
      Moves state (.schedule process)
        { state := state.setState process .running, code := none }
  | yielded {process : Proc} : (state.ptable process).state = .running →
      Moves state (.yield process) { state := state.setState process .runnable, code := none }
  | full {process : Proc} : state.Runs process .user →
      Moves state (.allocproc process) { state := state, code := some (-1) }
  | allocated {process np : Proc} : state.Runs process .user →
      (state.ptable np).state = .unused →
      Moves state (.allocproc process)
        { state :=
            ({ state with nextpid := state.nextpid + 1 }.setEntry np fun entry =>
              { entry with state := .embryo, pid := state.nextpid }).setActivity process
                (.forking np false)
          code := none }
  | forkFailed {process np : Proc} : state.Runs process (.forking np false) →
      Moves state (.forkFails process) (state.forkFails process np)
  | linked {process np : Proc} : state.Runs process (.forking np false) →
      Moves state (.linkParent process) (state.linkParent process np)
  | forked {process np : Proc} : state.Runs process (.forking np true) →
      Moves state (.forkEnds process) (state.forkEnds process np)
  | exited {process : Proc} : state.Runs process .user → process ≠ state.initproc →
      Moves state (.exit process) { state := state.exit process, code := none }
  | waited {process : Proc} : state.Runs process .user →
      Moves state (.wait process) (state.wait process)
  | waitedAgain {process : Proc} : state.Runs process .waiting →
      Moves state (.resumeWait process) ((state.tidyUp process).wait process)
  | slept {process : Proc} {address : Nat} : state.Runs process .user →
      Moves state (.sleep process address)
        { state := state.sleep process address, code := none }
  | resumed {process : Proc} : state.Runs process .asleep →
      Moves state (.resume process)
        { state := (state.tidyUp process).setActivity process .user, code := none }
  | wokeUp {address : Nat} :
      Moves state (.wakeup address)
        { state := state.wakeup1 (some (.other address)), code := none }
  | killed {process : Proc} {pid : BitVec 32} : state.Runs process .user →
      Moves state (.kill process pid) (state.kill pid)

variable {state : State} {process : Proc} {outcome : Outcome}

theorem whenRuns_eq_some {activity : Activity} {result : Outcome}
    (moved : whenRuns state process activity result = some outcome) :
    state.Runs process activity ∧ result = outcome := by
  grind [whenRuns]

theorem whenForking_eq_some {linked : Bool} {result : Proc → Outcome}
    (moved : whenForking state process linked result = some outcome) :
    ∃ np, state.Runs process (.forking np linked) ∧ result np = outcome := by
  rw [whenForking] at moved
  split at moved
  · rename_i np isLinked forking
    split at moved
    · rename_i runs
      obtain ⟨rfl, running⟩ := runs
      exact ⟨np, ⟨running, forking⟩, Option.some.inj moved⟩
    · cases moved
  · cases moved

theorem moves_allocproc (runs : state.Runs process .user) :
    Moves state (.allocproc process) (state.allocproc process) := by
  rw [State.allocproc]
  split
  · exact .full runs
  · rename_i np found
    exact .allocated runs (of_decide_eq_true (firstIndex_eq_some found))

theorem moves_of_transition {label : Label} (moved : transition state label = some outcome) :
    Moves state label outcome := by
  cases label with
  | schedule process =>
    rw [transition] at moved
    split at moved
    · rename_i runnable
      cases moved
      exact .scheduled runnable
    · cases moved
  | yield process =>
    rw [transition] at moved
    split at moved
    · rename_i running
      cases moved
      exact .yielded running
    · cases moved
  | allocproc process =>
    obtain ⟨runs, rfl⟩ := whenRuns_eq_some moved
    exact moves_allocproc runs
  | forkFails process =>
    obtain ⟨np, runs, rfl⟩ := whenForking_eq_some moved
    exact .forkFailed runs
  | linkParent process =>
    obtain ⟨np, runs, rfl⟩ := whenForking_eq_some moved
    exact .linked runs
  | forkEnds process =>
    obtain ⟨np, runs, rfl⟩ := whenForking_eq_some moved
    exact .forked runs
  | exit process =>
    rw [transition] at moved
    split at moved
    · cases moved
    · rename_i notInit
      obtain ⟨runs, rfl⟩ := whenRuns_eq_some moved
      exact .exited runs notInit
  | wait process =>
    obtain ⟨runs, rfl⟩ := whenRuns_eq_some moved
    exact .waited runs
  | resumeWait process =>
    obtain ⟨runs, rfl⟩ := whenRuns_eq_some moved
    exact .waitedAgain runs
  | sleep process address =>
    obtain ⟨runs, rfl⟩ := whenRuns_eq_some moved
    exact .slept runs
  | resume process =>
    obtain ⟨runs, rfl⟩ := whenRuns_eq_some moved
    exact .resumed runs
  | wakeup address =>
    cases moved
    exact .wokeUp
  | kill process pid =>
    obtain ⟨runs, rfl⟩ := whenRuns_eq_some moved
    exact .killed runs

theorem moves_of_step {next : State} {label : Label} (stepped : step state label = some next) :
    ∃ outcome, transition state label = some outcome ∧ Moves state label outcome ∧
      outcome.state = next := by
  obtain ⟨outcome, moved, same⟩ := Option.map_eq_some_iff.mp stepped
  exact ⟨outcome, moved, moves_of_transition moved, same⟩

end ProcTable

end Xv6
