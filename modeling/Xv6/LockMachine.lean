import Mathlib.Data.Finset.Card
import Xv6.LabelledRuns

/-!
# Threads, processors and spinlocks

Kernel code is run by threads on several processors.  A spinlock is held by a
processor, and one of the locks, the switch lock, is handed from the thread that
gives up the processor to the scheduler and from there to the next thread.  Code is
a list of instructions; a call of a routine is replaced by the routine's body, which
may depend on the data and change them.

A discipline gives every lock a rank and every routine a contract: the locks held
before and after it, and whether the thread is marked as running.  If the bodies
keep their contracts, then no run ever acquires a lock against the ranks, and none
of the checks in the lock routines fails.
-/

namespace Xv6

namespace LockMachine

open LabelledRun

inductive Instr (Lock Routine : Type)
  | acquire (lock : Lock)
  | release (lock : Lock)
  | sched
  | call (routine : Routine)

/-- A kernel: the bodies of its routines, the routines that user code and
interrupts may start, and what its scheduler looks at.  A thread that may be
dispatched is not marked as running, and dispatching marks only that thread. -/
structure Kernel (Lock Thread Data Routine : Type) where
  switchLock : Lock
  body : Thread → Data → Routine → Option (Data × List (Instr Lock Routine))
  systemCall : Routine → Bool
  interrupt : Routine → Bool
  active : Data → Thread → Bool
  runnable : Data → Thread → Bool
  select : Data → Thread → Data
  inactive_of_runnable : ∀ {data thread}, runnable data thread = true → active data thread = false
  active_select : ∀ data thread, active (select data thread) thread = true
  active_select_of_ne : ∀ data {thread other}, other ≠ thread →
    active (select data thread) other = active data other

/-- The locks and their holders, the number of locks each processor holds, the
threads on the processors, the code every thread still has to run, and the
data. -/
structure State (Lock Cpu Thread Data Routine : Type) where
  owner : Lock → Option Cpu
  ncli : Cpu → Nat
  running : Cpu → Option Thread
  code : Thread → List (Instr Lock Routine)
  data : Data

/-- A processor executes an instruction of its thread, takes a system call or
an interrupt, or moves in its scheduler. -/
inductive Move (Cpu Thread Routine : Type)
  | exec (cpu : Cpu)
  | enter (cpu : Cpu) (routine : Routine)
  | lockScheduler (cpu : Cpu)
  | dispatch (cpu : Cpu) (thread : Thread)
  | unlockScheduler (cpu : Cpu)

variable {Lock Cpu Thread Data Routine : Type} [DecidableEq Lock] [DecidableEq Cpu]
  [DecidableEq Thread]

namespace State

def take (state : State Lock Cpu Thread Data Routine) (cpu : Cpu) (lock : Lock) :
    State Lock Cpu Thread Data Routine :=
  { state with
    owner := Function.update state.owner lock (some cpu)
    ncli := Function.update state.ncli cpu (state.ncli cpu + 1) }

def drop (state : State Lock Cpu Thread Data Routine) (cpu : Cpu) (lock : Lock) :
    State Lock Cpu Thread Data Routine :=
  { state with
    owner := Function.update state.owner lock none
    ncli := Function.update state.ncli cpu (state.ncli cpu - 1) }

def goto (state : State Lock Cpu Thread Data Routine) (thread : Thread)
    (code : List (Instr Lock Routine)) : State Lock Cpu Thread Data Routine :=
  { state with code := Function.update state.code thread code }

def switch (state : State Lock Cpu Thread Data Routine) (cpu : Cpu) (thread : Option Thread) :
    State Lock Cpu Thread Data Routine :=
  { state with running := Function.update state.running cpu thread }

section Fields

variable (state : State Lock Cpu Thread Data Routine)

omit [DecidableEq Thread]

@[simp]
theorem take_data (cpu : Cpu) (lock : Lock) : (state.take cpu lock).data = state.data :=
  rfl

@[simp]
theorem take_running (cpu : Cpu) (lock : Lock) : (state.take cpu lock).running = state.running :=
  rfl

@[simp]
theorem take_code (cpu : Cpu) (lock : Lock) : (state.take cpu lock).code = state.code :=
  rfl

@[simp]
theorem drop_data (cpu : Cpu) (lock : Lock) : (state.drop cpu lock).data = state.data :=
  rfl

@[simp]
theorem drop_running (cpu : Cpu) (lock : Lock) : (state.drop cpu lock).running = state.running :=
  rfl

@[simp]
theorem drop_code (cpu : Cpu) (lock : Lock) : (state.drop cpu lock).code = state.code :=
  rfl

omit [DecidableEq Lock]

@[simp]
theorem switch_data (cpu : Cpu) (thread : Option Thread) :
    (state.switch cpu thread).data = state.data :=
  rfl

@[simp]
theorem switch_code (cpu : Cpu) (thread : Option Thread) :
    (state.switch cpu thread).code = state.code :=
  rfl

@[simp]
theorem switch_running_self (cpu : Cpu) (thread : Option Thread) :
    (state.switch cpu thread).running cpu = thread := by
  simp [switch]

theorem switch_running_of_ne {cpu other : Cpu} (thread : Option Thread)
    (different : other ≠ cpu) :
    (state.switch cpu thread).running other = state.running other := by
  simp [switch, different]

omit [DecidableEq Cpu]

variable [DecidableEq Thread]

@[simp]
theorem goto_data (thread : Thread) (code : List (Instr Lock Routine)) :
    (state.goto thread code).data = state.data :=
  rfl

@[simp]
theorem goto_running (thread : Thread) (code : List (Instr Lock Routine)) :
    (state.goto thread code).running = state.running :=
  rfl

@[simp]
theorem goto_code_self (thread : Thread) (code : List (Instr Lock Routine)) :
    (state.goto thread code).code thread = code := by
  simp [goto]

theorem goto_code_of_ne {thread other : Thread} (code : List (Instr Lock Routine))
    (different : other ≠ thread) : (state.goto thread code).code other = state.code other := by
  simp [goto, different]

end Fields

end State

/-- One instruction of a thread.  An `acquire` waits until the lock is free; no
instruction is executed when one of the checks fails. -/
def execute (kernel : Kernel Lock Thread Data Routine)
    (state : State Lock Cpu Thread Data Routine) (cpu : Cpu) (thread : Thread) :
    List (Instr Lock Routine) → Option (State Lock Cpu Thread Data Routine)
  | [] => none
  | .acquire lock :: rest =>
    if state.owner lock = none then some ((state.take cpu lock).goto thread rest) else none
  | .release lock :: rest =>
    if state.owner lock = some cpu then some ((state.drop cpu lock).goto thread rest) else none
  | .sched :: rest =>
    if state.owner kernel.switchLock = some cpu ∧ state.ncli cpu = 1 ∧
        kernel.active state.data thread = false then
      some ((state.switch cpu none).goto thread rest)
    else none
  | .call routine :: rest =>
    (kernel.body thread state.data routine).map fun result =>
      { state with data := result.1 }.goto thread (result.2 ++ rest)

def step (kernel : Kernel Lock Thread Data Routine)
    (state : State Lock Cpu Thread Data Routine) :
    Move Cpu Thread Routine → Option (State Lock Cpu Thread Data Routine)
  | .exec cpu =>
    (state.running cpu).bind fun thread => execute kernel state cpu thread (state.code thread)
  | .enter cpu routine =>
    (state.running cpu).bind fun thread =>
      if (state.code thread).isEmpty ∧ kernel.systemCall routine ∨
          kernel.interrupt routine ∧ state.ncli cpu = 0 then
        some (state.goto thread (.call routine :: state.code thread))
      else none
  | .lockScheduler cpu =>
    if (state.running cpu).isNone ∧ state.owner kernel.switchLock = none then
      some (state.take cpu kernel.switchLock)
    else none
  | .dispatch cpu thread =>
    if (state.running cpu).isNone ∧ state.owner kernel.switchLock = some cpu ∧
        kernel.runnable state.data thread then
      some ({ state with data := kernel.select state.data thread }.switch cpu (some thread))
    else none
  | .unlockScheduler cpu =>
    if (state.running cpu).isNone ∧ state.owner kernel.switchLock = some cpu then
      some (state.drop cpu kernel.switchLock)
    else none

def boot (code : Thread → List (Instr Lock Routine)) (data : Data) :
    State Lock Cpu Thread Data Routine where
  owner _ := none
  ncli _ := 0
  running _ := none
  code := code
  data := data

/-- The next instruction of the processor fails a check of the lock routines:
it acquires a lock the processor holds, releases one it does not hold, or gives
up the processor without holding just the switch lock. -/
def panics (kernel : Kernel Lock Thread Data Routine)
    (state : State Lock Cpu Thread Data Routine) (cpu : Cpu) : Bool :=
  (state.running cpu).any fun thread =>
    match state.code thread with
    | .acquire lock :: _ => state.owner lock = some cpu
    | .release lock :: _ => state.owner lock ≠ some cpu
    | .sched :: _ =>
      ¬ (state.owner kernel.switchLock = some cpu ∧ state.ncli cpu = 1 ∧
        kernel.active state.data thread = false)
    | _ => false

/-- The lock that the next instruction of the processor acquires. -/
def wants (state : State Lock Cpu Thread Data Routine) (cpu : Cpu) : Option Lock :=
  (state.running cpu).bind fun thread =>
    match state.code thread with
    | .acquire lock :: _ => some lock
    | _ => none

/-- The processor holds `held` and its next instruction acquires `wanted`. -/
def Acquires (state : State Lock Cpu Thread Data Routine) (cpu : Cpu) (held wanted : Lock) :
    Prop :=
  state.owner held = some cpu ∧ wants state cpu = some wanted

instance (state : State Lock Cpu Thread Data Routine) (cpu : Cpu) (held wanted : Lock) :
    Decidable (Acquires state cpu held wanted) :=
  inferInstanceAs (Decidable (_ ∧ _))

/-! ## Code that respects the ranks -/

/-- The contract of a routine: the locks held and the mark of the thread
before, and the same after. -/
abbrev Contract (Lock Routine : Type) : Type :=
  Routine → Finset Lock → Bool → Finset Lock → Bool → Prop

/-- Code that starts with the locks `held` and the mark `marked`, acquires
locks in the order of their ranks, calls routines under their contracts, gives
up the processor with just the switch lock, unmarked, and has the switch lock
back, marked, afterwards. -/
inductive Locked (switchLock : Lock) (rank : Lock → Nat) (contract : Contract Lock Routine) :
    Finset Lock → Bool → List (Instr Lock Routine) → Finset Lock → Bool → Prop
  | nil {held : Finset Lock} {marked : Bool} :
      Locked switchLock rank contract held marked [] held marked
  | acquire {held grown final : Finset Lock} {marked last : Bool} {lock : Lock}
      {rest : List (Instr Lock Routine)} :
      (∀ other ∈ held, rank other < rank lock) → insert lock held = grown →
      Locked switchLock rank contract grown marked rest final last →
        Locked switchLock rank contract held marked (.acquire lock :: rest) final last
  | release {held shrunk final : Finset Lock} {marked last : Bool} {lock : Lock}
      {rest : List (Instr Lock Routine)} :
      lock ∈ held → (lock = switchLock → marked = true) → held.erase lock = shrunk →
      Locked switchLock rank contract shrunk marked rest final last →
        Locked switchLock rank contract held marked (.release lock :: rest) final last
  | sched {final : Finset Lock} {last : Bool} {rest : List (Instr Lock Routine)} :
      Locked switchLock rank contract {switchLock} true rest final last →
        Locked switchLock rank contract {switchLock} false (.sched :: rest) final last
  | call {held middle final : Finset Lock} {marked between last : Bool} {routine : Routine}
      {rest : List (Instr Lock Routine)} :
      contract routine held marked middle between →
      Locked switchLock rank contract middle between rest final last →
        Locked switchLock rank contract held marked (.call routine :: rest) final last

theorem Locked.append {switchLock : Lock} {rank : Lock → Nat} {contract : Contract Lock Routine}
    {held middle final : Finset Lock} {marked between last : Bool}
    {first second : List (Instr Lock Routine)}
    (before : Locked switchLock rank contract held marked first middle between)
    (after : Locked switchLock rank contract middle between second final last) :
    Locked switchLock rank contract held marked (first ++ second) final last := by
  induction before with
  | nil => exact after
  | acquire ordered grown _ ih => exact .acquire ordered grown (ih after)
  | release member marked shrunk _ ih => exact .release member marked shrunk (ih after)
  | sched _ ih => exact .sched (ih after)
  | call kept _ ih => exact .call kept (ih after)

section Inversion

variable {switchLock lock : Lock} {rank : Lock → Nat} {contract : Contract Lock Routine}
  {held final : Finset Lock} {marked last : Bool} {rest : List (Instr Lock Routine)}

theorem Locked.of_nil (code : Locked switchLock rank contract held marked [] final last) :
    held = final ∧ marked = last := by
  cases code with
  | nil => exact ⟨rfl, rfl⟩

theorem Locked.of_acquire
    (code : Locked switchLock rank contract held marked (.acquire lock :: rest) final last) :
    (∀ other ∈ held, rank other < rank lock) ∧
      Locked switchLock rank contract (insert lock held) marked rest final last := by
  cases code with
  | acquire ordered grown later => exact ⟨ordered, grown ▸ later⟩

theorem Locked.of_release
    (code : Locked switchLock rank contract held marked (.release lock :: rest) final last) :
    lock ∈ held ∧ (lock = switchLock → marked = true) ∧
      Locked switchLock rank contract (held.erase lock) marked rest final last := by
  cases code with
  | release member marked shrunk later => exact ⟨member, marked, shrunk ▸ later⟩

theorem Locked.of_sched
    (code : Locked switchLock rank contract held marked (.sched :: rest) final last) :
    held = {switchLock} ∧ marked = false ∧
      Locked switchLock rank contract {switchLock} true rest final last := by
  cases code with
  | sched later => exact ⟨rfl, rfl, later⟩

theorem Locked.of_call {routine : Routine}
    (code : Locked switchLock rank contract held marked (.call routine :: rest) final last) :
    ∃ middle between, contract routine held marked middle between ∧
      Locked switchLock rank contract middle between rest final last := by
  cases code with
  | call kept later => exact ⟨_, _, kept, later⟩

end Inversion

/-- A lock discipline of a kernel.  Under `guard`, the body of every routine
keeps the routine's contract; it removes the mark of its thread only with the
switch lock held, and never changes the mark of another thread. -/
structure Discipline (kernel : Kernel Lock Thread Data Routine) where
  rank : Lock → Nat
  contract : Contract Lock Routine
  guard : Thread → Data → Routine → Prop
  systemCall : ∀ {routine}, kernel.systemCall routine = true → contract routine ∅ true ∅ true
  interrupt : ∀ {routine}, kernel.interrupt routine = true → contract routine ∅ true ∅ true
  sound : ∀ {thread data routine held middle between next body},
    contract routine held (kernel.active data thread) middle between →
    guard thread data routine → kernel.body thread data routine = some (next, body) →
      Locked kernel.switchLock rank contract held (kernel.active next thread) body middle between
  unmarks : ∀ {thread data routine held middle between next body},
    contract routine held (kernel.active data thread) middle between →
    kernel.body thread data routine = some (next, body) →
    kernel.active data thread = true → kernel.active next thread = false →
      kernel.switchLock ∈ held
  others : ∀ {thread other data routine next body},
    kernel.body thread data routine = some (next, body) → other ≠ thread →
      kernel.active next other = kernel.active data other

/-! ## The locks of a processor -/

/-- The processor holds exactly these locks, and counts them. -/
def State.HeldBy (state : State Lock Cpu Thread Data Routine) (cpu : Cpu)
    (held : Finset Lock) : Prop :=
  (∀ lock, state.owner lock = some cpu ↔ lock ∈ held) ∧ state.ncli cpu = held.card

namespace State.HeldBy

variable {state : State Lock Cpu Thread Data Routine} {cpu other : Cpu} {held : Finset Lock}
  {lock : Lock}

omit [DecidableEq Cpu] [DecidableEq Lock] [DecidableEq Thread] in
theorem mem (holds : state.HeldBy cpu held) (owned : state.owner lock = some cpu) :
    lock ∈ held :=
  (holds.1 lock).mp owned

omit [DecidableEq Thread] in
theorem take (holds : state.HeldBy cpu held) (free : state.owner lock = none) :
    (state.take cpu lock).HeldBy cpu (insert lock held) := by
  have absent : lock ∉ held := by
    intro member
    rw [(holds.1 lock).mpr member] at free
    cases free
  constructor
  · intro query
    by_cases same : query = lock
    · simp [State.take, same]
    · simp [State.take, same, holds.1 query]
  · rw [Finset.card_insert_of_notMem absent, ← holds.2]
    simp [State.take]

omit [DecidableEq Thread] in
theorem take_of_ne (holds : state.HeldBy other held) (free : state.owner lock = none)
    (different : other ≠ cpu) : (state.take cpu lock).HeldBy other held := by
  constructor
  · intro query
    rw [← holds.1 query]
    by_cases same : query = lock
    · simp [State.take, same, free, Ne.symm different]
    · simp [State.take, same]
  · rw [← holds.2]
    simp [State.take, different]

omit [DecidableEq Thread] in
theorem drop (holds : state.HeldBy cpu held) (owned : state.owner lock = some cpu) :
    (state.drop cpu lock).HeldBy cpu (held.erase lock) := by
  constructor
  · intro query
    by_cases same : query = lock
    · simp [State.drop, same]
    · simp [State.drop, same, holds.1 query]
  · rw [Finset.card_erase_of_mem (holds.mem owned), ← holds.2]
    simp [State.drop]

omit [DecidableEq Thread] in
theorem drop_of_ne (holds : state.HeldBy other held) (owned : state.owner lock = some cpu)
    (different : other ≠ cpu) : (state.drop cpu lock).HeldBy other held := by
  constructor
  · intro query
    rw [← holds.1 query]
    by_cases same : query = lock
    · simp [State.drop, same, owned, Ne.symm different]
    · simp [State.drop, same]
  · rw [← holds.2]
    simp [State.drop, different]

end State.HeldBy

/-! ## The invariant -/

section Invariant

variable {kernel : Kernel Lock Thread Data Routine}

/-- The code of a thread respects the ranks when started with the given locks
and mark, and ends without locks. -/
abbrev Discipline.Respects (discipline : Discipline kernel) (held : Finset Lock) (marked : Bool)
    (code : List (Instr Lock Routine)) : Prop :=
  Locked kernel.switchLock discipline.rank discipline.contract held marked code ∅ true

/-- Every thread is on at most one processor, and its remaining code respects
the ranks; a thread that is not running gets the switch lock when it is
dispatched. -/
structure Disciplined (discipline : Discipline kernel)
    (state : State Lock Cpu Thread Data Routine) : Prop where
  single : ∀ {cpu other thread}, state.running cpu = some thread →
    state.running other = some thread → cpu = other
  active : ∀ {cpu thread}, state.running cpu = some thread →
    ∃ held, state.HeldBy cpu held ∧
      discipline.Respects held (kernel.active state.data thread) (state.code thread) ∧
      (kernel.active state.data thread = false → kernel.switchLock ∈ held)
  idle : ∀ {cpu}, state.running cpu = none →
    state.HeldBy cpu ∅ ∨ state.HeldBy cpu {kernel.switchLock}
  waiting : ∀ {thread}, (∀ cpu, state.running cpu ≠ some thread) →
    discipline.Respects {kernel.switchLock} true (state.code thread)

variable {discipline : Discipline kernel} {state next : State Lock Cpu Thread Data Routine}
  {cpu : Cpu} {thread : Thread}

omit [DecidableEq Cpu] [DecidableEq Thread] in
/-- A move of one thread that leaves the other processors and threads alone. -/
theorem Disciplined.advance (holds : Disciplined discipline state)
    (on : state.running cpu = some thread) (sameRunning : next.running = state.running)
    (sameHeld : ∀ {other held}, other ≠ cpu → state.HeldBy other held → next.HeldBy other held)
    (sameCode : ∀ {other}, other ≠ thread → next.code other = state.code other)
    (sameMark : ∀ {other}, other ≠ thread →
      kernel.active next.data other = kernel.active state.data other)
    (self : ∃ held, next.HeldBy cpu held ∧
      discipline.Respects held (kernel.active next.data thread) (next.code thread) ∧
      (kernel.active next.data thread = false → kernel.switchLock ∈ held)) :
    Disciplined discipline next := by
  constructor
  · intro first second mover firstOn secondOn
    rw [sameRunning] at firstOn secondOn
    exact holds.single firstOn secondOn
  · intro other mover moverOn
    rw [sameRunning] at moverOn
    by_cases same : mover = thread
    · subst same
      obtain rfl := holds.single moverOn on
      exact self
    · have differentCpu : other ≠ cpu := by
        rintro rfl
        exact same (Option.some.inj (moverOn.symm.trans on))
      obtain ⟨held, heldBy, respects, unmarked⟩ := holds.active moverOn
      rw [sameCode same, sameMark same]
      exact ⟨held, sameHeld differentCpu heldBy, respects, unmarked⟩
  · intro other otherIdle
    rw [sameRunning] at otherIdle
    have differentCpu : other ≠ cpu := by
      grind
    exact (holds.idle otherIdle).imp (sameHeld differentCpu) (sameHeld differentCpu)
  · intro mover notRunning
    rw [sameRunning] at notRunning
    have different : mover ≠ thread := by
      rintro rfl
      exact notRunning cpu on
    rw [sameCode different]
    exact holds.waiting notRunning

variable {rest : List (Instr Lock Routine)}

theorem Disciplined.acquire (holds : Disciplined discipline state)
    (on : state.running cpu = some thread) {lock : Lock}
    (code : state.code thread = .acquire lock :: rest) (free : state.owner lock = none) :
    Disciplined discipline ((state.take cpu lock).goto thread rest) := by
  obtain ⟨held, heldBy, respects, unmarked⟩ := holds.active on
  rw [code] at respects
  refine holds.advance on rfl ?_ ?_ ?_ ⟨insert lock held, heldBy.take free, ?_, ?_⟩
  · intro other otherHeld different otherHolds
    exact otherHolds.take_of_ne free different
  · intro other different
    exact State.goto_code_of_ne _ rest different
  · intro other _
    rfl
  · simpa using respects.of_acquire.2
  · simp_all

theorem Disciplined.release (holds : Disciplined discipline state)
    (on : state.running cpu = some thread) {lock : Lock}
    (code : state.code thread = .release lock :: rest) (owned : state.owner lock = some cpu) :
    Disciplined discipline ((state.drop cpu lock).goto thread rest) := by
  obtain ⟨held, heldBy, respects, unmarked⟩ := holds.active on
  rw [code] at respects
  obtain ⟨-, marked, later⟩ := respects.of_release
  refine holds.advance on rfl ?_ ?_ ?_ ⟨held.erase lock, heldBy.drop owned, ?_, ?_⟩
  · intro other otherHeld different otherHolds
    exact otherHolds.drop_of_ne owned different
  · intro other different
    exact State.goto_code_of_ne _ rest different
  · intro other _
    rfl
  · simpa using later
  · intro mark
    refine Finset.mem_erase.mpr ⟨?_, unmarked mark⟩
    rintro rfl
    exact Bool.false_ne_true (mark.symm.trans (marked rfl))

omit [DecidableEq Cpu] in
theorem Disciplined.call (holds : Disciplined discipline state)
    (on : state.running cpu = some thread) {routine : Routine} {body : List (Instr Lock Routine)}
    {data : Data} (code : state.code thread = .call routine :: rest)
    (guarded : discipline.guard thread state.data routine)
    (called : kernel.body thread state.data routine = some (data, body)) :
    Disciplined discipline ({ state with data := data }.goto thread (body ++ rest)) := by
  obtain ⟨held, heldBy, respects, unmarked⟩ := holds.active on
  rw [code] at respects
  obtain ⟨middle, between, kept, later⟩ := respects.of_call
  refine holds.advance on rfl ?_ ?_ ?_ ⟨held, heldBy, ?_, ?_⟩
  · intro other otherHeld _ otherHolds
    exact otherHolds
  · intro other different
    exact State.goto_code_of_ne _ _ different
  · intro other different
    exact discipline.others called different
  · simpa using (discipline.sound kept guarded called).append later
  · intro mark
    cases before : kernel.active state.data thread with
    | true => exact discipline.unmarks kept called before mark
    | false => exact unmarked before

omit [DecidableEq Cpu] in
theorem Disciplined.enter (holds : Disciplined discipline state)
    (on : state.running cpu = some thread) {routine : Routine}
    (allowed : (state.code thread).isEmpty ∧ kernel.systemCall routine ∨
      kernel.interrupt routine ∧ state.ncli cpu = 0) :
    Disciplined discipline (state.goto thread (.call routine :: state.code thread)) := by
  obtain ⟨held, heldBy, respects, unmarked⟩ := holds.active on
  have unlocked : held = ∅ := by
    rcases allowed with ⟨user, -⟩ | ⟨-, none⟩
    · rw [List.isEmpty_iff.mp user] at respects
      exact respects.of_nil.1
    · exact Finset.card_eq_zero.mp (heldBy.2.symm.trans none)
  subst unlocked
  have marked : kernel.active state.data thread = true := by
    grind
  have kept : discipline.contract routine ∅ true ∅ true := by
    rcases allowed with ⟨-, entry⟩ | ⟨entry, -⟩
    · exact discipline.systemCall entry
    · exact discipline.interrupt entry
  refine holds.advance on rfl ?_ ?_ ?_ ⟨∅, heldBy, ?_, unmarked⟩
  · intro other otherHeld _ otherHolds
    exact otherHolds
  · intro other different
    exact State.goto_code_of_ne _ _ different
  · intro other _
    rfl
  · rw [marked] at respects
    simpa [marked] using Locked.call kept respects

/-- A thread gives up its processor to the scheduler. -/
theorem Disciplined.sched (holds : Disciplined discipline state)
    (on : state.running cpu = some thread) (code : state.code thread = .sched :: rest) :
    Disciplined discipline ((state.switch cpu none).goto thread rest) := by
  obtain ⟨held, heldBy, respects, unmarked⟩ := holds.active on
  rw [code] at respects
  obtain ⟨rfl, -, later⟩ := respects.of_sched
  have elsewhere : ∀ {other mover}, (state.switch cpu none).running other = some mover →
      state.running other = some mover ∧ other ≠ cpu := by
    intro other mover moverOn
    by_cases same : other = cpu
    · simp [same] at moverOn
    · exact ⟨(state.switch_running_of_ne none same).symm.trans moverOn, same⟩
  constructor
  · intro first second mover firstOn secondOn
    exact holds.single (elsewhere firstOn).1 (elsewhere secondOn).1
  · intro other mover moverOn
    obtain ⟨before, differentCpu⟩ := elsewhere moverOn
    have different : mover ≠ thread := by
      rintro rfl
      exact differentCpu (holds.single before on)
    rw [State.goto_code_of_ne _ rest different]
    exact holds.active before
  · intro other otherIdle
    by_cases same : other = cpu
    · subst same
      exact .inr heldBy
    · exact holds.idle ((state.switch_running_of_ne none same).symm.trans otherIdle)
  · intro mover notRunning
    by_cases same : mover = thread
    · subst same
      simpa using later
    · have stillWaiting : ∀ other, state.running other ≠ some mover := by
        intro other moverOn
        by_cases sameCpu : other = cpu
        · grind
        · exact notRunning other ((state.switch_running_of_ne none sameCpu).trans moverOn)
      rw [State.goto_code_of_ne _ rest same]
      exact holds.waiting stillWaiting

omit [DecidableEq Thread] in
/-- A move of the scheduler of a processor on the switch lock. -/
theorem Disciplined.reschedule (holds : Disciplined discipline state)
    (sameRunning : next.running = state.running) (sameCode : next.code = state.code)
    (sameData : next.data = state.data)
    (sameHeld : ∀ {other held}, other ≠ cpu → state.HeldBy other held → next.HeldBy other held)
    (idle : state.running cpu = none)
    (self : next.HeldBy cpu ∅ ∨ next.HeldBy cpu {kernel.switchLock}) :
    Disciplined discipline next := by
  constructor
  · intro first second mover firstOn secondOn
    rw [sameRunning] at firstOn secondOn
    exact holds.single firstOn secondOn
  · intro other mover moverOn
    rw [sameRunning] at moverOn
    have different : other ≠ cpu := by
      grind
    obtain ⟨held, heldBy, respects, unmarked⟩ := holds.active moverOn
    rw [sameCode, sameData]
    exact ⟨held, sameHeld different heldBy, respects, unmarked⟩
  · intro other otherIdle
    rw [sameRunning] at otherIdle
    by_cases same : other = cpu
    · subst same
      exact self
    · exact (holds.idle otherIdle).imp (sameHeld same) (sameHeld same)
  · intro mover notRunning
    rw [sameRunning] at notRunning
    rw [sameCode]
    exact holds.waiting notRunning

omit [DecidableEq Cpu] [DecidableEq Thread] in
theorem Disciplined.idle_owner (holds : Disciplined discipline state)
    (idle : state.running cpu = none) (owned : state.owner kernel.switchLock = some cpu) :
    state.HeldBy cpu {kernel.switchLock} := by
  rcases holds.idle idle with none | just
  · exact absurd (none.mem owned) (Finset.notMem_empty _)
  · exact just

omit [DecidableEq Thread] in
/-- A scheduler puts a thread on its processor.  The thread is on no other
processor: there it would be marked, or its processor would hold the switch
lock. -/
theorem Disciplined.dispatch (holds : Disciplined discipline state)
    (idle : state.running cpu = none) (owned : state.owner kernel.switchLock = some cpu)
    (runnable : kernel.runnable state.data thread = true) :
    Disciplined discipline
      ({ state with data := kernel.select state.data thread }.switch cpu (some thread)) := by
  have notRunning : ∀ other, state.running other ≠ some thread := by
    intro other on
    obtain ⟨held, heldBy, -, unmarked⟩ := holds.active on
    have member := unmarked (kernel.inactive_of_runnable runnable)
    have same := ((heldBy.1 _).mpr member).symm.trans owned
    cases same
    rw [idle] at on
    cases on
  have elsewhere : ∀ {other mover}, other ≠ cpu →
      ({ state with data := kernel.select state.data thread }.switch cpu
        (some thread)).running other = some mover →
          state.running other = some mover ∧ mover ≠ thread := by
    intro other mover different moverOn
    rw [State.switch_running_of_ne _ _ different] at moverOn
    refine ⟨moverOn, ?_⟩
    rintro rfl
    exact notRunning other moverOn
  constructor
  · intro first second mover firstOn secondOn
    by_cases sameFirst : first = cpu
    · grind [State.switch_running_self]
    · by_cases sameSecond : second = cpu
      · grind [State.switch_running_self]
      · exact holds.single (elsewhere sameFirst firstOn).1 (elsewhere sameSecond secondOn).1
  · intro other mover moverOn
    by_cases same : other = cpu
    · subst same
      rw [State.switch_running_self] at moverOn
      cases moverOn
      have marked := kernel.active_select state.data thread
      refine ⟨{kernel.switchLock}, holds.idle_owner idle owned, ?_, ?_⟩
      · simpa [marked] using holds.waiting notRunning
      · exact fun _ => Finset.mem_singleton_self _
    · obtain ⟨before, different⟩ := elsewhere same moverOn
      have sameMark := kernel.active_select_of_ne state.data different
      obtain ⟨held, heldBy, respects, unmarked⟩ := holds.active before
      exact ⟨held, heldBy, by simpa [sameMark] using respects, by simpa [sameMark] using unmarked⟩
  · intro other otherIdle
    have different : other ≠ cpu := by
      rintro rfl
      simp at otherIdle
    rw [State.switch_running_of_ne _ _ different] at otherIdle
    exact holds.idle otherIdle
  · intro mover moverWaits
    apply holds.waiting
    intro other moverOn
    by_cases same : other = cpu
    · grind
    · exact moverWaits other ((State.switch_running_of_ne _ _ same).trans moverOn)

/-- The routine that a move is about to call meets the guard. -/
def Discipline.Guards (discipline : Discipline kernel)
    (state : State Lock Cpu Thread Data Routine) (move : Move Cpu Thread Routine) : Prop :=
  ∀ cpu thread routine rest, move = .exec cpu → state.running cpu = some thread →
    state.code thread = .call routine :: rest → discipline.guard thread state.data routine

theorem Disciplined.step (holds : Disciplined discipline state) {move : Move Cpu Thread Routine}
    (guarded : discipline.Guards state move)
    (stepped : LockMachine.step kernel state move = some next) : Disciplined discipline next := by
  cases move with
  | exec cpu =>
    obtain ⟨thread, on, executes⟩ := Option.bind_eq_some_iff.mp stepped
    cases code : state.code thread with
    | nil =>
      rw [code] at executes
      cases executes
    | cons instr rest =>
      rw [code] at executes
      cases instr with
      | acquire lock =>
        obtain ⟨free, result⟩ := Option.ite_none_right_eq_some.mp executes
        cases result
        exact holds.acquire on code free
      | release lock =>
        obtain ⟨owned, result⟩ := Option.ite_none_right_eq_some.mp executes
        cases result
        exact holds.release on code owned
      | sched =>
        obtain ⟨-, result⟩ := Option.ite_none_right_eq_some.mp executes
        cases result
        exact holds.sched on code
      | call routine =>
        obtain ⟨⟨data, body⟩, called, rfl⟩ := Option.map_eq_some_iff.mp executes
        exact holds.call on code (guarded cpu thread routine rest rfl on code) called
  | enter cpu routine =>
    obtain ⟨thread, on, entered⟩ := Option.bind_eq_some_iff.mp stepped
    obtain ⟨allowed, result⟩ := Option.ite_none_right_eq_some.mp entered
    cases result
    exact holds.enter on allowed
  | lockScheduler cpu =>
    obtain ⟨⟨idle, free⟩, result⟩ := Option.ite_none_right_eq_some.mp stepped
    cases result
    have idle := Option.isNone_iff_eq_none.mp idle
    refine holds.reschedule rfl rfl rfl (fun different heldBy => heldBy.take_of_ne free different)
      idle ?_
    rcases holds.idle idle with none | just
    · exact .inr (none.take free)
    · have owned := (just.1 kernel.switchLock).mpr (Finset.mem_singleton_self _)
      rw [free] at owned
      cases owned
  | dispatch cpu thread =>
    obtain ⟨⟨idle, owned, runnable⟩, result⟩ := Option.ite_none_right_eq_some.mp stepped
    cases result
    exact holds.dispatch (Option.isNone_iff_eq_none.mp idle) owned runnable
  | unlockScheduler cpu =>
    obtain ⟨⟨idle, owned⟩, result⟩ := Option.ite_none_right_eq_some.mp stepped
    cases result
    have idle := Option.isNone_iff_eq_none.mp idle
    refine holds.reschedule rfl rfl rfl
      (fun different heldBy => heldBy.drop_of_ne owned different) idle (.inl ?_)
    simpa using (holds.idle_owner idle owned).drop owned

omit [DecidableEq Thread] in
/-- In a disciplined state the next instruction of no processor fails a check. -/
theorem Disciplined.not_panics (holds : Disciplined discipline state) (cpu : Cpu) :
    panics kernel state cpu = false := by
  cases on : state.running cpu with
  | none => simp [panics, on]
  | some thread =>
    obtain ⟨held, heldBy, respects, -⟩ := holds.active on
    cases code : state.code thread with
    | nil => simp [panics, on, code]
    | cons instr rest =>
      rw [code] at respects
      cases instr with
      | acquire lock =>
        have absent : state.owner lock ≠ some cpu := by
          intro owned
          exact lt_irrefl _ (respects.of_acquire.1 lock (heldBy.mem owned))
        simp [panics, on, code, absent]
      | release lock =>
        simp [panics, on, code, (heldBy.1 lock).mpr respects.of_release.1]
      | sched =>
        obtain ⟨rfl, unmarked, -⟩ := respects.of_sched
        have owned := (heldBy.1 kernel.switchLock).mpr (Finset.mem_singleton_self _)
        simp [panics, on, code, owned, heldBy.2, unmarked]
      | call routine => simp [panics, on, code]

omit [DecidableEq Cpu] [DecidableEq Thread] in
theorem Disciplined.rank_lt (holds : Disciplined discipline state) {held wanted : Lock}
    (acquires : Acquires state cpu held wanted) :
    discipline.rank held < discipline.rank wanted := by
  obtain ⟨owned, wants⟩ := acquires
  obtain ⟨thread, on, next⟩ := Option.bind_eq_some_iff.mp wants
  obtain ⟨locks, heldBy, respects, -⟩ := holds.active on
  split at next
  case h_1 lock rest code =>
      cases next
      rw [code] at respects
      exact respects.of_acquire.1 held (heldBy.mem owned)
  case h_2 => cases next

omit [DecidableEq Cpu] [DecidableEq Thread] in
theorem disciplined_boot {code : Thread → List (Instr Lock Routine)}
    (starts : ∀ thread, discipline.Respects {kernel.switchLock} true (code thread)) (data : Data) :
    Disciplined discipline (boot code data : State Lock Cpu Thread Data Routine) := by
  constructor
  · intro cpu other thread on
    cases on
  · intro cpu thread on
    cases on
  · intro cpu _
    left
    exact ⟨fun lock => by simp [boot], rfl⟩
  · intro thread _
    exact starts thread

theorem disciplined_throughout {start finish : State Lock Cpu Thread Data Routine}
    {trace : List (State Lock Cpu Thread Data Routine × Move Cpu Thread Routine)}
    (initially : Disciplined discipline start)
    (run : Run (LockMachine.step kernel) start trace finish)
    (guarded : ∀ entry ∈ trace, discipline.Guards entry.1 entry.2) :
    Throughout (Disciplined discipline) trace finish :=
  run.invariant (Disciplined discipline) discipline.Guards initially
    (fun holds meets stepped => holds.step meets stepped) guarded

end Invariant

end LockMachine

end Xv6
