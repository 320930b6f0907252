import Xv6.ProcessTable

/-!
# Slots, parents and forks in progress

However the sections of `fork`, `exit`, `wait` and `kill` of different processes
are interleaved, a process, dead or alive, has a live parent; an embryo belongs to
one `fork`; and a process that sleeps in `wait` has children, none of them a zombie.
-/

namespace Xv6

namespace ProcTable

open LabelledRun Socket
open KernelLock (Proc nproc Procstate Chan)

def Live (procstate : Procstate) : Prop :=
  procstate = .sleeping ∨ procstate = .runnable ∨ procstate = .running

@[grind .]
theorem live_sleeping : Live .sleeping :=
  .inl rfl

@[grind .]
theorem live_runnable : Live .runnable :=
  .inr (.inl rfl)

@[grind .]
theorem live_running : Live .running :=
  .inr (.inr rfl)

@[grind .]
theorem not_live_unused : ¬ Live .unused := by
  simp [Live]

@[grind .]
theorem not_live_embryo : ¬ Live .embryo := by
  simp [Live]

@[grind .]
theorem not_live_zombie : ¬ Live .zombie := by
  simp [Live]

namespace State

variable (state : State) (process other : Proc)

@[grind =]
theorem setEntry_ptable (change : Entry → Entry) :
    (state.setEntry process change).ptable other =
      if other = process then change (state.ptable process) else state.ptable other := by
  by_cases same : other = process
  · subst same
    simp [setEntry]
  · simp [setEntry, same]

@[grind =]
theorem setState_ptable (procstate : Procstate) :
    (state.setState process procstate).ptable other =
      if other = process then { state.ptable process with state := procstate }
      else state.ptable other :=
  setEntry_ptable state process other _

@[grind =]
theorem setActivity_activity (activity : Activity) :
    (state.setActivity process activity).activity other =
      if other = process then activity else state.activity other :=
  Function.update_apply state.activity process activity other

@[grind =]
theorem setActivity_ptable (activity : Activity) :
    (state.setActivity process activity).ptable other = state.ptable other :=
  rfl

@[grind =]
theorem setEntry_activity (change : Entry → Entry) :
    (state.setEntry process change).activity other = state.activity other :=
  rfl

@[grind =]
theorem setState_activity (procstate : Procstate) :
    (state.setState process procstate).activity other = state.activity other :=
  rfl

@[grind =]
theorem setEntry_initproc (change : Entry → Entry) :
    (state.setEntry process change).initproc = state.initproc :=
  rfl

@[grind =]
theorem setState_initproc (procstate : Procstate) :
    (state.setState process procstate).initproc = state.initproc :=
  rfl

@[grind =]
theorem setEntry_nextpid (change : Entry → Entry) :
    (state.setEntry process change).nextpid = state.nextpid :=
  rfl

@[grind =]
theorem setState_nextpid (procstate : Procstate) :
    (state.setState process procstate).nextpid = state.nextpid :=
  rfl

@[grind =]
theorem setActivity_nextpid (activity : Activity) :
    (state.setActivity process activity).nextpid = state.nextpid :=
  rfl

@[grind =]
theorem setActivity_initproc (activity : Activity) :
    (state.setActivity process activity).initproc = state.initproc :=
  rfl

end State

/-! ## Passing children on -/

/-- Only states and parents of slots change. -/
structure Keeps (before after : State) : Prop where
  initproc : after.initproc = before.initproc
  nextpid : after.nextpid = before.nextpid
  activity : after.activity = before.activity
  pid : ∀ slot, (after.ptable slot).pid = (before.ptable slot).pid
  chan : ∀ slot, (after.ptable slot).chan = (before.ptable slot).chan
  killed : ∀ slot, (after.ptable slot).killed = (before.ptable slot).killed

theorem Keeps.refl (state : State) : Keeps state state := by
  constructor <;> simp

theorem Keeps.trans {before middle after : State} (earlier : Keeps before middle)
    (later : Keeps middle after) : Keeps before after := by
  obtain ⟨initproc, nextpid, activity, pid, chan, killed⟩ := earlier
  obtain ⟨initproc', nextpid', activity', pid', chan', killed'⟩ := later
  constructor <;> grind

theorem Keeps.setState (state : State) (process : Proc) (procstate : Procstate) :
    Keeps state (state.setState process procstate) := by
  constructor <;> grind [State.setState, State.setEntry]

theorem Keeps.setParent (state : State) (process : Proc) (parent : Option Proc) :
    Keeps state (state.setEntry process fun entry => { entry with parent := parent }) := by
  constructor <;> grind [State.setEntry]

structure Woken (channel : Option Chan) (before after : State) : Prop
    extends Keeps before after where
  parent : ∀ slot, (after.ptable slot).parent = (before.ptable slot).parent
  state : ∀ slot, (after.ptable slot).state = (before.ptable slot).state ∨
    ((before.ptable slot).state = .sleeping ∧ (after.ptable slot).state = .runnable)
  asleep : ∀ slot, (after.ptable slot).state = .sleeping → (after.ptable slot).chan ≠ channel

theorem wakeup1_spec (chan : Option Chan) (state : State) :
    Woken chan state (state.wakeup1 chan) where
  toKeeps := by constructor <;> grind [State.wakeup1, Entry.wakeup1]
  parent := by grind [State.wakeup1, Entry.wakeup1]
  state := by grind [State.wakeup1, Entry.wakeup1]
  asleep := by grind [State.wakeup1, Entry.wakeup1]

/-- What the loop of `exit` has done after some of the slots. -/
structure Passed (curproc : Proc) (scanned : List Proc) (before after : State) : Prop
    extends Keeps before after where
  parent : ∀ slot, (after.ptable slot).parent =
    if slot ∈ scanned ∧ (before.ptable slot).parent = some curproc then some before.initproc
    else (before.ptable slot).parent
  state : ∀ slot, (after.ptable slot).state = (before.ptable slot).state ∨
    ((before.ptable slot).state = .sleeping ∧ (after.ptable slot).state = .runnable)
  woken : ∀ child ∈ scanned, (before.ptable child).parent = some curproc →
    (before.ptable child).state = .zombie → ∀ slot, (after.ptable slot).state = .sleeping →
      (after.ptable slot).chan ≠ some (.proc before.initproc)

theorem Passed.refl (curproc : Proc) (state : State) : Passed curproc [] state state where
  toKeeps := Keeps.refl state
  parent := by simp
  state := by simp
  woken := by simp

theorem passChild_spec (curproc process : Proc) (state : State) :
    Passed curproc [process] state (state.passChild curproc process) := by
  by_cases child : (state.ptable process).parent = some curproc
  · have linked := Keeps.setParent state process (some state.initproc)
    by_cases zombie : (state.ptable process).state = .zombie
    · have passes : state.passChild curproc process =
          (state.setEntry process fun entry => { entry with parent := some state.initproc }).wakeup1
            (some (.proc state.initproc)) := by
        simp [State.passChild, child, zombie, State.setEntry_ptable]
      have wakes := wakeup1_spec (some (.proc state.initproc))
        (state.setEntry process fun entry => { entry with parent := some state.initproc })
      rw [passes]
      refine ⟨linked.trans wakes.toKeeps, ?_, ?_, ?_⟩
      all_goals grind [wakes.parent, wakes.state, wakes.asleep]
    · have passes : state.passChild curproc process =
          state.setEntry process fun entry => { entry with parent := some state.initproc } := by
        simp [State.passChild, child, zombie, State.setEntry_ptable]
      rw [passes]
      refine ⟨linked, ?_, ?_, ?_⟩ <;> grind
  · have passes : state.passChild curproc process = state := by
      simp [State.passChild, child]
    rw [passes]
    refine ⟨Keeps.refl state, ?_, ?_, ?_⟩ <;> grind

theorem Passed.trans {curproc : Proc} {first second : List Proc} {before middle after : State}
    (notInit : curproc ≠ before.initproc)
    (earlier : Passed curproc first before middle) (later : Passed curproc second middle after) :
    Passed curproc (first ++ second) before after := by
  obtain ⟨keeps, parent, state, woken⟩ := earlier
  obtain ⟨keeps', parent', state', woken'⟩ := later
  have initproc := keeps.initproc
  have chan := keeps'.chan
  refine ⟨keeps.trans keeps', ?_, ?_, ?_⟩ <;> grind

theorem foldl_passChild_spec {curproc : Proc} (slots : List Proc) {state : State}
    (notInit : curproc ≠ state.initproc) :
    Passed curproc slots state (slots.foldl (State.passChild curproc) state) := by
  induction slots generalizing state with
  | nil => exact Passed.refl curproc state
  | cons slot slots ih =>
    have first := passChild_spec curproc slot state
    have later := @ih (state.passChild curproc slot) (by rwa [first.initproc])
    exact first.trans notInit later

structure Exited (curproc : Proc) (before after : State) : Prop
    extends Keeps before after where
  parent : ∀ slot, (after.ptable slot).parent =
    if (before.ptable slot).parent = some curproc then some before.initproc
    else (before.ptable slot).parent
  self : (after.ptable curproc).state = .zombie
  others : ∀ slot, slot ≠ curproc → (after.ptable slot).state = (before.ptable slot).state ∨
    ((before.ptable slot).state = .sleeping ∧ (after.ptable slot).state = .runnable)
  wokenParent : ∀ slot, (after.ptable slot).state = .sleeping →
    (after.ptable slot).chan ≠ (before.ptable curproc).parent.map .proc
  wokenInit : ∀ child, (before.ptable child).parent = some curproc →
    (before.ptable child).state = .zombie → ∀ slot, (after.ptable slot).state = .sleeping →
      (after.ptable slot).chan ≠ some (.proc before.initproc)

theorem exit_spec {curproc : Proc} {state : State} (notInit : curproc ≠ state.initproc) :
    Exited curproc state (state.exit curproc) := by
  have exits : state.exit curproc = ((List.finRange nproc).foldl (State.passChild curproc)
      (state.wakeup1 ((state.ptable curproc).parent.map .proc))).setState curproc .zombie := rfl
  have wakes := wakeup1_spec ((state.ptable curproc).parent.map .proc) state
  have passes := @foldl_passChild_spec curproc (List.finRange nproc)
    (state.wakeup1 ((state.ptable curproc).parent.map .proc)) notInit
  rw [exits]
  generalize state.wakeup1 ((state.ptable curproc).parent.map .proc) = woken at *
  generalize (List.finRange nproc).foldl (State.passChild curproc) woken = passed at *
  have scanned : ∀ slot : Proc, slot ∈ List.finRange nproc := List.mem_finRange
  obtain ⟨keeps, parent, moved, asleep⟩ := wakes
  obtain ⟨keeps', parent', moved', asleep'⟩ := passes
  have dies := Keeps.setState passed curproc .zombie
  have initproc := keeps.initproc
  have chan := keeps'.chan
  refine ⟨(keeps.trans keeps').trans dies, ?_, ?_, ?_, ?_, ?_⟩ <;> grind

/-! ## The invariant -/

/-- A process that sleeps in `wait` has children, and none of them is a zombie. -/
def Awaited (state : State) (process : Proc) : Prop :=
  (state.ptable process).chan = some (.proc process) ∧
    (∃ child, (state.ptable child).parent = some process) ∧
      ∀ child, (state.ptable child).parent = some process → (state.ptable child).state ≠ .zombie

structure Valid (state : State) : Prop where
  initLive : Live (state.ptable state.initproc).state
  initParent : (state.ptable state.initproc).parent = none
  notOwnParent : ∀ process, (state.ptable process).parent ≠ some process
  parents : ∀ process, process ≠ state.initproc →
    Live (state.ptable process).state ∨ (state.ptable process).state = .zombie →
      ∃ parent, (state.ptable process).parent = some parent ∧ Live (state.ptable parent).state
  unusedParent : ∀ process, (state.ptable process).state = .unused →
    (state.ptable process).parent = none
  idle : ∀ process, ¬ Live (state.ptable process).state → state.activity process = .user
  forking : ∀ process np linked, state.activity process = .forking np linked →
    (state.ptable np).state = .embryo
  forkOnce : ∀ process other np linked otherLinked,
    state.activity process = .forking np linked → state.activity other = .forking np otherLinked →
      process = other
  linked : ∀ process np, state.activity process = .forking np true →
    (state.ptable np).parent = some process
  embryoParent : ∀ process np, (state.ptable np).state = .embryo →
    (state.ptable np).parent = some process → state.activity process = .forking np true
  awaited : ∀ process, (state.ptable process).state = .sleeping →
    state.activity process = .waiting → Awaited state process

theorem valid_initial (initproc : Proc) : Valid (State.initial initproc) := by
  constructor <;> grind [State.initial]

/-- Live processes stay alive, and the others keep their parents or get a live
one. -/
theorem Valid.parents_kept {before after : State} (valid : Valid before)
    (live : ∀ slot, Live (before.ptable slot).state → Live (after.ptable slot).state)
    (kept : ∀ slot, Live (after.ptable slot).state ∨ (after.ptable slot).state = .zombie →
      (Live (before.ptable slot).state ∨ (before.ptable slot).state = .zombie) ∧
          (after.ptable slot).parent = (before.ptable slot).parent ∨
        ∃ parent, (after.ptable slot).parent = some parent ∧ Live (before.ptable parent).state)
    {process : Proc} (notInit : process ≠ before.initproc)
    (isProcess : Live (after.ptable process).state ∨ (after.ptable process).state = .zombie) :
    ∃ parent, (after.ptable process).parent = some parent ∧ Live (after.ptable parent).state := by
  rcases kept process isProcess with ⟨wasProcess, same⟩ | ⟨parent, isParent, alive⟩
  · obtain ⟨parent, isParent, alive⟩ := valid.parents process notInit wasProcess
    exact ⟨parent, same.trans isParent, live parent alive⟩
  · exact ⟨parent, isParent, live parent alive⟩

/-- Who sleeps in `wait` slept there before, with the same children, and none of
them has become a zombie. -/
theorem Valid.awaited_kept {before after : State} (valid : Valid before)
    (asleep : ∀ process, (after.ptable process).state = .sleeping →
      after.activity process = .waiting → (before.ptable process).state = .sleeping ∧
        before.activity process = .waiting ∧
          (after.ptable process).chan = (before.ptable process).chan)
    (children : ∀ process child, before.activity process = .waiting →
      (before.ptable process).state = .sleeping → (before.ptable child).parent = some process →
        (after.ptable child).parent = some process)
    (zombies : ∀ process child, (after.ptable process).state = .sleeping →
      (after.ptable process).chan = some (.proc process) → after.activity process = .waiting →
        (after.ptable child).parent = some process → (after.ptable child).state = .zombie →
          (before.ptable child).parent = some process ∧ (before.ptable child).state = .zombie)
    {process : Proc} (sleeping : (after.ptable process).state = .sleeping)
    (waiting : after.activity process = .waiting) : Awaited after process := by
  obtain ⟨wasSleeping, wasWaiting, sameChan⟩ := asleep process sleeping waiting
  obtain ⟨chan, ⟨child, isChild⟩, noZombie⟩ := valid.awaited process wasSleeping wasWaiting
  refine ⟨sameChan.trans chan, ⟨child, children process child wasWaiting wasSleeping isChild⟩, ?_⟩
  intro other otherChild zombie
  obtain ⟨wasChild, wasZombie⟩ :=
    zombies process other sleeping (sameChan.trans chan) waiting otherChild zombie
  exact noZombie other wasChild wasZombie

/-- Steps after which the same slots hold live processes, with the same parents,
and the same forks are in progress. -/
structure Quiet (before after : State) : Prop where
  initproc : after.initproc = before.initproc
  parent : ∀ slot, (after.ptable slot).parent = (before.ptable slot).parent
  live : ∀ slot, Live (after.ptable slot).state ↔ Live (before.ptable slot).state
  dead : ∀ slot, ¬ Live (before.ptable slot).state →
    (after.ptable slot).state = (before.ptable slot).state ∧
      after.activity slot = before.activity slot
  forking : ∀ slot np linked, after.activity slot = .forking np linked ↔
    before.activity slot = .forking np linked

theorem Valid.quiet {before after : State} (valid : Valid before) (quiet : Quiet before after)
    (awaited : ∀ process, (after.ptable process).state = .sleeping →
      after.activity process = .waiting → Awaited after process) : Valid after := by
  obtain ⟨initproc, parent, live, dead, forking⟩ := quiet
  obtain ⟨initLive, initParent, notOwnParent, parents, unusedParent, idle, isForking, forkOnce,
    linked, embryoParent, -⟩ := valid
  constructor
  case awaited => exact awaited
  all_goals grind

theorem Valid.quiet_of_asleep {before after : State} (valid : Valid before)
    (quiet : Quiet before after)
    (asleep : ∀ process, (after.ptable process).state = .sleeping →
      after.activity process = .waiting → (before.ptable process).state = .sleeping ∧
        before.activity process = .waiting ∧
          (after.ptable process).chan = (before.ptable process).chan) : Valid after := by
  obtain ⟨initproc, parent, live, dead, forking⟩ := quiet
  exact valid.quiet ⟨initproc, parent, live, dead, forking⟩
    fun _ => valid.awaited_kept asleep (by grind) (by grind)

section Steps

variable {state : State} {process np : Proc}

theorem Valid.setState (valid : Valid state) (live : Live (state.ptable process).state)
    {procstate : Procstate} (awake : procstate = .runnable ∨ procstate = .running) :
    Valid (state.setState process procstate) := by
  apply valid.quiet_of_asleep
  · constructor <;> grind
  · grind

theorem Valid.tidyUp (valid : Valid state) (running : (state.ptable process).state = .running) :
    Valid (state.tidyUp process) := by
  unfold State.tidyUp
  apply valid.quiet_of_asleep
  · constructor <;> grind
  · grind

theorem State.Runs.tidyUp {activity : Activity} (runs : state.Runs process activity) :
    (state.tidyUp process).Runs process activity := by
  unfold State.tidyUp
  exact ⟨by grind [runs.1], runs.2⟩

theorem Valid.setUser (valid : Valid state)
    (notForking : ∀ np linked, state.activity process ≠ .forking np linked) :
    Valid (state.setActivity process .user) := by
  apply valid.quiet_of_asleep
  · constructor <;> grind [valid.idle]
  · grind

theorem Valid.sleep (valid : Valid state) (runs : state.Runs process .user) (address : Nat) :
    Valid (state.sleep process address) := by
  obtain ⟨running, idle⟩ := runs
  unfold State.sleep
  apply valid.quiet_of_asleep
  · constructor <;> grind
  · grind

theorem Valid.wakeup1 (valid : Valid state) (chan : Option Chan) : Valid (state.wakeup1 chan) := by
  obtain ⟨keeps, parent, moved, asleep⟩ := wakeup1_spec chan state
  have sameActivity := congrFun keeps.activity
  have sameChan := keeps.chan
  apply valid.quiet_of_asleep
  · refine ⟨keeps.initproc, parent, ?_, ?_, ?_⟩ <;> grind
  · grind

theorem Valid.kill (valid : Valid state) (pid : BitVec 32) : Valid (state.kill pid).state := by
  rw [State.kill]
  split
  · exact valid
  · apply valid.quiet_of_asleep
    · constructor <;> grind [Entry.kill]
    · grind [Entry.kill]

theorem Valid.allocated (valid : Valid state) (runs : state.Runs process .user)
    (unused : (state.ptable np).state = .unused) :
    Valid (({ state with nextpid := state.nextpid + 1 }.setEntry np fun entry =>
      { entry with state := .embryo, pid := state.nextpid }).setActivity process
        (.forking np false)) := by
  obtain ⟨running, idle⟩ := runs
  constructor
  case parents => exact fun _ => valid.parents_kept (by grind) (by grind)
  case awaited => exact fun _ => valid.awaited_kept (by grind) (by grind) (by grind)
  all_goals
    obtain ⟨initLive, initParent, notOwnParent, -, unusedParent, idles, forking, forkOnce, linked,
      embryoParent, -⟩ := valid
    grind

theorem Valid.unlinked (valid : Valid state)
    (begun : state.activity process = .forking np false) : (state.ptable np).parent = none := by
  by_contra some
  obtain ⟨parent, isParent⟩ := Option.ne_none_iff_exists'.mp some
  have other := valid.embryoParent parent np (valid.forking process np false begun) isParent
  obtain rfl := valid.forkOnce process parent np false true begun other
  rw [begun] at other
  cases other

theorem Valid.forkFails (valid : Valid state) (runs : state.Runs process (.forking np false)) :
    Valid (state.forkFails process np).state := by
  obtain ⟨running, begun⟩ := runs
  have embryo := valid.forking process np false begun
  have noParent := valid.unlinked begun
  unfold State.forkFails
  constructor
  case parents => exact fun _ => valid.parents_kept (by grind) (by grind)
  case awaited => exact fun _ => valid.awaited_kept (by grind) (by grind) (by grind)
  all_goals
    obtain ⟨initLive, initParent, notOwnParent, -, unusedParent, idles, forking, forkOnce, linked,
      embryoParent, -⟩ := valid
    grind

theorem Valid.linkParent (valid : Valid state) (runs : state.Runs process (.forking np false)) :
    Valid (state.linkParent process np).state := by
  obtain ⟨running, begun⟩ := runs
  have noParent := valid.unlinked begun
  unfold State.linkParent
  constructor
  case parents => exact fun _ => valid.parents_kept (by grind) (by grind)
  case awaited => exact fun _ => valid.awaited_kept (by grind) (by grind) (by grind)
  all_goals
    obtain ⟨initLive, initParent, notOwnParent, -, unusedParent, idles, forking, forkOnce, linked,
      embryoParent, -⟩ := valid
    grind

theorem Valid.forkEnds (valid : Valid state) (runs : state.Runs process (.forking np true)) :
    Valid (state.forkEnds process np).state := by
  obtain ⟨running, begun⟩ := runs
  have child := valid.linked process np begun
  unfold State.forkEnds
  constructor
  case parents => exact fun _ => valid.parents_kept (by grind) (by grind)
  case awaited => exact fun _ => valid.awaited_kept (by grind) (by grind) (by grind)
  all_goals
    obtain ⟨initLive, initParent, notOwnParent, -, unusedParent, idles, forking, forkOnce, linked,
      embryoParent, -⟩ := valid
    grind

theorem Valid.exit (valid : Valid state) (runs : state.Runs process .user)
    (notInit : process ≠ state.initproc) : Valid (state.exit process) := by
  obtain ⟨running, idle⟩ := runs
  obtain ⟨keeps, parent, self, others, wokenParent, wokenInit⟩ := exit_spec notInit
  have sameChan := keeps.chan
  have sameInit := keeps.initproc
  have sameActivity := congrFun keeps.activity
  constructor
  case parents =>
    intro slot otherInit isProcess
    have live : ∀ other, other ≠ process → Live (state.ptable other).state →
        Live ((state.exit process).ptable other).state := by grind
    have was : Live (state.ptable slot).state ∨ (state.ptable slot).state = .zombie := by grind
    obtain ⟨father, isFather, alive⟩ := valid.parents slot (sameInit ▸ otherInit) was
    rw [parent slot]
    by_cases exits : father = process
    · -- the child of the process that exits goes to init
      subst exits
      exact ⟨state.initproc, if_pos isFather, live _ notInit.symm valid.initLive⟩
    · have kept : (state.ptable slot).parent ≠ some process := by simpa [isFather] using exits
      exact ⟨father, (if_neg kept).trans isFather, live father exits alive⟩
  case awaited =>
    intro waiter
    apply valid.awaited_kept
    · grind
    · grind
    · intro father child asleep chan waiting isChild zombie
      have notOwn := valid.notOwnParent process
      by_cases same : child = process
      · -- the parent has just been woken
        subst same
        have isParent : (state.ptable child).parent = some father := by grind
        exact absurd chan (by simpa [isParent] using wokenParent father asleep)
      · have wasZombie : (state.ptable child).state = .zombie := by grind
        by_cases passed : (state.ptable child).parent = some process
        · -- init has been woken for the zombie it is given
          have isInit : father = state.initproc := by grind
          exact absurd chan (by simpa [isInit] using wokenInit child passed wasZombie father asleep)
        · exact ⟨by grind, wasZombie⟩
  all_goals
    obtain ⟨initLive, initParent, notOwnParent, -, unusedParent, idles, forking, forkOnce, linked,
      embryoParent, -⟩ := valid
    grind

theorem Valid.reaped (valid : Valid state) {child : Proc}
    (running : (state.ptable process).state = .running)
    (isChild : (state.ptable child).parent = some process)
    (zombie : (state.ptable child).state = .zombie) :
    Valid (state.setEntry child Entry.reap) := by
  constructor
  case parents => exact fun _ => valid.parents_kept (by grind [Entry.reap]) (by grind [Entry.reap])
  case awaited =>
    exact fun _ => valid.awaited_kept (by grind [Entry.reap]) (by grind [Entry.reap])
      (by grind [Entry.reap])
  all_goals
    obtain ⟨initLive, initParent, notOwnParent, -, unusedParent, idles, forking, forkOnce, linked,
      embryoParent, -⟩ := valid
    grind [Entry.reap]

/-- A round of `wait` that goes to sleep has seen a child and no zombie. -/
theorem Valid.waits (valid : Valid state) (running : (state.ptable process).state = .running)
    (notForking : ∀ np linked, state.activity process ≠ .forking np linked)
    (noZombie : state.findZombie process = none) (kids : state.haveKids process = true) :
    Valid ((state.setEntry process fun entry =>
      { entry with state := .sleeping, chan := some (.proc process) }).setActivity
        process .waiting) := by
  rw [State.findZombie, firstIndex_eq_none_iff] at noZombie
  obtain ⟨child, found⟩ := Option.isSome_iff_exists.mp kids
  have isChild := of_decide_eq_true (firstIndex_eq_some found)
  apply valid.quiet
  · constructor <;> grind
  · intro waiter sleeping waiting
    by_cases same : waiter = process
    · refine ⟨by grind, ⟨child, by grind⟩, ?_⟩
      intro other otherChild zombie
      grind
    · obtain ⟨chan, ⟨waitedFor, isWaitedFor⟩, none⟩ := valid.awaited waiter (by grind) (by grind)
      exact ⟨by grind, ⟨waitedFor, by grind⟩, by grind⟩

theorem Valid.wait (valid : Valid state) (running : (state.ptable process).state = .running)
    (notForking : ∀ np linked, state.activity process ≠ .forking np linked) :
    Valid (state.wait process).state := by
  rw [State.wait]
  split
  · rename_i child found
    obtain ⟨isChild, zombie⟩ := of_decide_eq_true (firstIndex_eq_some found)
    exact (valid.reaped running isChild zombie).setUser notForking
  · rename_i noZombie
    split
    · exact valid.setUser notForking
    · rename_i stays
      exact valid.waits running notForking noZombie (by simpa using (not_or.mp stays).1)

end Steps

theorem Moves.valid {state : State} {label : Label} {outcome : Outcome}
    (moves : Moves state label outcome) (valid : Valid state) : Valid outcome.state := by
  cases moves with
  | scheduled runnable => exact valid.setState (by rw [runnable]; exact live_runnable) (.inr rfl)
  | yielded running => exact valid.setState (by rw [running]; exact live_running) (.inl rfl)
  | full runs => exact valid
  | allocated runs unused => exact valid.allocated runs unused
  | forkFailed runs => exact valid.forkFails runs
  | linked runs => exact valid.linkParent runs
  | forked runs => exact valid.forkEnds runs
  | exited runs notInit => exact valid.exit runs notInit
  | waited runs => exact valid.wait runs.1 (by simp [runs.2])
  | waitedAgain runs => exact (valid.tidyUp runs.1).wait runs.tidyUp.1 (by simp [runs.tidyUp.2])
  | slept runs => exact valid.sleep runs _
  | resumed runs => exact (valid.tidyUp runs.1).setUser (by simp [runs.tidyUp.2])
  | wokeUp => exact valid.wakeup1 _
  | killed runs => exact valid.kill _

theorem valid_throughout {initproc : Proc} {trace : List (State × Label)} {finish : State}
    (run : ProcessRun initproc trace finish) : Throughout Valid trace finish := by
  apply run.always Valid (valid_initial initproc)
  intro state label next valid stepped
  obtain ⟨outcome, -, moves, rfl⟩ := moves_of_step stepped
  exact moves.valid valid

end ProcTable

end Xv6
