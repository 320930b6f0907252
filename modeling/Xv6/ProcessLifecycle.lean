import Xv6.SocketSleepers

/-!
# Sockets and the life of processes

The owner of a socket is a pointer into the process table, whose slots are used
again: `fork` turns an unused slot into an embryo and then into a process, `exit`
closes the sockets of the process and leaves a zombie, and `wait` frees the slot.
These steps run together with the segments of the socket calls.  `SLEEPING`,
`RUNNABLE` and `RUNNING` are one case here; what the process is doing tells them
apart.
-/

namespace Xv6

namespace Lifecycle

open LabelledRun Socket
open Function (update update_apply update_of_ne)

inductive Activity (nproc : Nat)
  | running
  | forking (np : Fin nproc)
  | exiting
  | waiting (asleep : Bool)
  deriving DecidableEq

/-- The state of a process table slot.  A process in `exit` is `exiting` from
the end of `closeprocsocks` on. -/
inductive Life (nproc : Nat)
  | unused
  | embryo
  | live (activity : Activity nproc)
  | zombie
  deriving DecidableEq

/-- `struct proc`, as far as `fork`, `exit` and `wait` use it for the life of the
process. -/
structure Entry (nproc : Nat) where
  life : Life nproc
  pid : Int
  parent : Option (Fin nproc)

/-- The process table together with the socket table and the state of the
socket calls. -/
structure System (nproc : Nat) where
  world : World (Fin nproc)
  ptable : Fin nproc → Entry nproc
  nextpid : Int
  initproc : Fin nproc

/-- A step of a process: a segment of a socket call, where the call `exit` is
the part of `exit` up to the end of `closeprocsocks`, or a section of `fork`,
`exit` or `wait` under `ptable.lock`. -/
inductive Move (nproc : Nat)
  | socket (label : Label (Fin nproc))
  | allocproc (process : Fin nproc)
  | forkFails (process : Fin nproc)
  | forkEnds (process : Fin nproc)
  | becomeZombie (process : Fin nproc)
  | wait (process : Fin nproc)

variable {nproc : Nat}

namespace System

def life (system : System nproc) (process : Fin nproc) : Life nproc :=
  (system.ptable process).life

def setEntry (system : System nproc) (process : Fin nproc)
    (change : Entry nproc → Entry nproc) : System nproc :=
  { system with
    ptable := update system.ptable process (change (system.ptable process)) }

def setLife (system : System nproc) (process : Fin nproc) (life : Life nproc) : System nproc :=
  system.setEntry process fun entry => { entry with life := life }

/-- After `userinit`: the first process runs and every other slot is unused. -/
def initial (initproc : Fin nproc) : System nproc where
  world := .initial
  ptable process :=
    if process = initproc then { life := .live .running, pid := 1, parent := none }
    else { life := .unused, pid := 0, parent := none }
  nextpid := 2
  initproc := initproc

def InUser (system : System nproc) (process : Fin nproc) : Prop :=
  system.life process = .live .running ∧ system.world.proc process = .user

/-- `wakeup1` on a process pointer: the process asleep in its `wait`. -/
def wakeup1 (system : System nproc) (chan : Option (Fin nproc)) : System nproc :=
  { system with
    ptable := fun process =>
      if some process = chan ∧ system.life process = .live (.waiting true) then
        { system.ptable process with life := .live (.waiting false) }
      else system.ptable process }

/-- The section of `allocproc`, called by `fork`: the first unused slot becomes
an embryo with the next process id. -/
def allocproc (system : System nproc) (process : Fin nproc) : System nproc × Option Int :=
  match firstIndex fun candidate => decide (system.life candidate = .unused) with
  | none => (system, some (-1))
  | some np =>
    (({ system with nextpid := system.nextpid + 1 }.setEntry np fun entry =>
        { entry with life := .embryo, pid := system.nextpid }).setLife process
          (.live (.forking np)),
      none)

/-- The end of `fork`: the embryo becomes a process in user code. -/
def forkEnds (system : System nproc) (process np : Fin nproc) : System nproc × Option Int :=
  (({ system with world := system.world.setProc np .user }.setEntry np fun entry =>
      { entry with life := .live .running, parent := some process }).setLife process
        (.live .running),
    some (system.ptable np).pid)

/-- Pass abandoned children to `init`, which may be waiting for a zombie. -/
def passChildren (system : System nproc) (process : Fin nproc) : System nproc :=
  let passed : System nproc :=
    { system with
      ptable := fun child =>
        if (system.ptable child).parent = some process then
          { system.ptable child with parent := some system.initproc }
        else system.ptable child }
  if ∃ child, (system.ptable child).parent = some process ∧ system.life child = .zombie then
    passed.wakeup1 (some system.initproc)
  else passed

/-- The section of `exit` after `closeprocsocks`. -/
def becomeZombie (system : System nproc) (process : Fin nproc) : System nproc :=
  ((system.wakeup1 (system.ptable process).parent).passChildren process).setLife process .zombie

/-- One round of the loop of `wait`: free the slot of the first zombie child,
give up without children, or sleep. -/
def wait (system : System nproc) (process : Fin nproc) : System nproc × Option Int :=
  match firstIndex fun child =>
      decide ((system.ptable child).parent = some process ∧ system.life child = .zombie) with
  | some child =>
    ((system.setEntry child fun _ =>
        { life := .unused, pid := 0, parent := none }).setLife process (.live .running),
      some (system.ptable child).pid)
  | none =>
    if ∃ child, (system.ptable child).parent = some process then
      (system.setLife process (.live (.waiting true)), none)
    else (system.setLife process (.live .running), some (-1))

/-- One step.  `exit` of the first process panics. -/
def transition (system : System nproc) : Move nproc → Option (System nproc × Option Int)
  | .socket label =>
    if system.life label.actor = .live .running then
      (Socket.transition system.world label).bind fun outcome =>
        match label with
        | .call process .exit =>
          if process = system.initproc then none
          else some ({ system with world := outcome.world }.setLife process
            (.live .exiting), none)
        | _ => some ({ system with world := outcome.world }, outcome.code)
    else none
  | .allocproc process =>
    if system.life process = .live .running then
      match system.world.proc process with
      | .user => some (system.allocproc process)
      | _ => none
    else none
  | .forkFails process =>
    match system.life process with
    | .live (.forking np) =>
      some ((system.setLife np .unused).setLife process (.live .running), some (-1))
    | _ => none
  | .forkEnds process =>
    match system.life process with
    | .live (.forking np) => some (system.forkEnds process np)
    | _ => none
  | .becomeZombie process =>
    if system.life process = .live .exiting then some (system.becomeZombie process, none)
    else none
  | .wait process =>
    match system.life process, system.world.proc process with
    | .live .running, .user | .live (.waiting false), _ => some (system.wait process)
    | _, _ => none

def step (system : System nproc) (move : Move nproc) : Option (System nproc) :=
  (system.transition move).map Prod.fst

end System

/-! ## What a step does -/

/-- The effects of a step, with the tests passed on the way to each. -/
inductive Change (system : System nproc) : System nproc → Prop
  | segment {label : Label (Fin nproc)} {world : World (Fin nproc)} :
      system.life label.actor = .live .running → (∀ process, label ≠ .call process .exit) →
      Socket.step system.world label = some world → Change system { system with world := world }
  | closed {process : Fin nproc} : system.InUser process → process ≠ system.initproc →
      Change system ({ system with
        world := (system.world.closeprocsocks process).1 }.setLife process (.live .exiting))
  | refused : Change system system
  | allocated {process np : Fin nproc} : system.InUser process → system.life np = .unused →
      Change system
        (({ system with nextpid := system.nextpid + 1 }.setEntry np fun entry =>
            { entry with life := .embryo, pid := system.nextpid }).setLife process
              (.live (.forking np)))
  | forkFailed {process np : Fin nproc} : system.life process = .live (.forking np) →
      Change system ((system.setLife np .unused).setLife process (.live .running))
  | forked {process np : Fin nproc} : system.life process = .live (.forking np) →
      Change system (system.forkEnds process np).1
  | died {process : Fin nproc} : system.life process = .live .exiting →
      Change system (system.becomeZombie process)
  | reaped {process child : Fin nproc} :
      system.InUser process ∨ system.life process = .live (.waiting false) →
      system.life child = .zombie →
      Change system ((system.setEntry child fun _ =>
        { life := .unused, pid := 0, parent := none }).setLife process (.live .running))
  | waits {process : Fin nproc} :
      system.InUser process ∨ system.life process = .live (.waiting false) →
      Change system (system.setLife process (.live (.waiting true)))
  | childless {process : Fin nproc} :
      system.InUser process ∨ system.life process = .live (.waiting false) →
      Change system (system.setLife process (.live .running))

variable {system next : System nproc} {process : Fin nproc}

theorem System.allocproc_change (inUser : system.InUser process) :
    Change system (system.allocproc process).1 := by
  unfold allocproc
  split
  · exact .refused
  · rename_i np found
    have unused : system.life np = .unused := of_decide_eq_true (firstIndex_eq_some found)
    exact .allocated inUser unused

theorem System.wait_change
    (awake : system.InUser process ∨ system.life process = .live (.waiting false)) :
    Change system (system.wait process).1 := by
  unfold wait
  split
  · rename_i child found
    have zombie := of_decide_eq_true (firstIndex_eq_some found)
    exact .reaped awake zombie.2
  · split
    · exact .waits awake
    · exact .childless awake

theorem System.socket_change {label : Label (Fin nproc)}
    (stepped : system.step (.socket label) = some next) : Change system next := by
  obtain ⟨⟨after, code⟩, moved, rfl⟩ := Option.map_eq_some_iff.mp stepped
  simp only [transition] at moved
  split at moved
  · rename_i running
    obtain ⟨outcome, ran, rest⟩ := Option.bind_eq_some_iff.mp moved
    split at rest
    · split at rest
      · cases rest
      · rename_i notInit
        obtain ⟨rfl, -⟩ := Prod.mk.inj (Option.some.inj rest)
        obtain ⟨idle, rfl⟩ := transition_call_iff.mp ran
        exact .closed ⟨running, idle⟩ notInit
    · rename_i notExit
      obtain ⟨rfl, -⟩ := Prod.mk.inj (Option.some.inj rest)
      refine .segment running (fun process same => notExit process same) ?_
      rw [Socket.step, ran, Option.map_some]
  · cases moved

theorem System.change_of_step {move : Move nproc} (stepped : system.step move = some next) :
    Change system next := by
  cases move with
  | socket label => exact socket_change stepped
  | allocproc process =>
    obtain ⟨⟨after, code⟩, moved, rfl⟩ := Option.map_eq_some_iff.mp stepped
    simp only [transition] at moved
    split at moved
    · rename_i running
      split at moved
      · rename_i idle
        rw [← Option.some.inj moved]
        exact allocproc_change ⟨running, idle⟩
      · cases moved
    · cases moved
  | forkFails process =>
    obtain ⟨⟨after, code⟩, moved, rfl⟩ := Option.map_eq_some_iff.mp stepped
    simp only [transition] at moved
    split at moved
    · rename_i np forking
      obtain ⟨rfl, -⟩ := Prod.mk.inj (Option.some.inj moved)
      exact .forkFailed forking
    · cases moved
  | forkEnds process =>
    obtain ⟨⟨after, code⟩, moved, rfl⟩ := Option.map_eq_some_iff.mp stepped
    simp only [transition] at moved
    split at moved
    · rename_i np forking
      rw [← Option.some.inj moved]
      exact .forked forking
    · cases moved
  | becomeZombie process =>
    obtain ⟨⟨after, code⟩, moved, rfl⟩ := Option.map_eq_some_iff.mp stepped
    simp only [transition] at moved
    split at moved
    · rename_i exiting
      obtain ⟨rfl, -⟩ := Prod.mk.inj (Option.some.inj moved)
      exact .died exiting
    · cases moved
  | wait process =>
    obtain ⟨⟨after, code⟩, moved, rfl⟩ := Option.map_eq_some_iff.mp stepped
    simp only [transition] at moved
    split at moved
    · rename_i running idle
      rw [← Option.some.inj moved]
      exact wait_change (.inl ⟨running, idle⟩)
    · rename_i woken
      rw [← Option.some.inj moved]
      exact wait_change (.inr woken)
    · cases moved

/-! ## The states of the slots after a step -/

/-- The slot holds a process that has not finished `closeprocsocks` in
`exit`. -/
def Life.MayOwn : Life nproc → Prop
  | .live .exiting => False
  | .live _ => True
  | _ => False

/-- Every process in `fork` has an embryo of its own. -/
structure ForksEmbryos (life : Fin nproc → Life nproc) : Prop where
  embryo : ∀ process np, life process = .live (.forking np) → life np = .embryo
  single : ∀ process other np, life process = .live (.forking np) →
    life other = .live (.forking np) → process = other

@[simp]
theorem System.life_setEntry (system : System nproc) (process : Fin nproc)
    (change : Entry nproc → Entry nproc) :
    (system.setEntry process change).life =
      update system.life process (change (system.ptable process)).life := by
  funext other
  by_cases same : other = process
  · subst same
    simp [life, setEntry]
  · simp [life, setEntry, same]

@[simp]
theorem System.life_setLife (system : System nproc) (process : Fin nproc) (life : Life nproc) :
    (system.setLife process life).life = update system.life process life :=
  system.life_setEntry process _

@[simp]
theorem System.setLife_world (system : System nproc) (process : Fin nproc) (life : Life nproc) :
    (system.setLife process life).world = system.world :=
  rfl

/-- A process pointer as a channel wakes at most a process asleep in `wait`. -/
theorem System.life_wakeup1 (system : System nproc) (chan : Option (Fin nproc))
    (process : Fin nproc) :
    (system.wakeup1 chan).life process = system.life process ∨
      system.life process = .live (.waiting true) ∧
        (system.wakeup1 chan).life process = .live (.waiting false) := by
  have entry : (system.wakeup1 chan).ptable process =
      if some process = chan ∧ system.life process = .live (.waiting true) then
        { system.ptable process with life := .live (.waiting false) }
      else system.ptable process :=
    rfl
  by_cases woken : some process = chan ∧ system.life process = .live (.waiting true)
  · refine .inr ⟨woken.2, ?_⟩
    rw [life, entry, if_pos woken]
  · refine .inl ?_
    rw [life, entry, if_neg woken, life]

theorem System.life_passChildren (system : System nproc) (process other : Fin nproc) :
    (system.passChildren process).life other = system.life other ∨
      system.life other = .live (.waiting true) ∧
        (system.passChildren process).life other = .live (.waiting false) := by
  let passed : System nproc :=
    { system with
      ptable := fun child =>
        if (system.ptable child).parent = some process then
          { system.ptable child with parent := some system.initproc }
        else system.ptable child }
  have same : passed.life other = system.life other := by
    simp only [passed, life]
    split <;> rfl
  have step : system.passChildren process =
      if ∃ child, (system.ptable child).parent = some process ∧ system.life child = .zombie then
        passed.wakeup1 (some system.initproc)
      else passed :=
    rfl
  rw [step]
  split
  · rw [← same]
    exact passed.life_wakeup1 _ _
  · exact .inl same

theorem System.wakeup1_world (system : System nproc) (chan : Option (Fin nproc)) :
    (system.wakeup1 chan).world = system.world :=
  rfl

theorem System.passChildren_world (system : System nproc) (process : Fin nproc) :
    (system.passChildren process).world = system.world := by
  unfold passChildren
  split <;> rfl

theorem System.becomeZombie_world (system : System nproc) (process : Fin nproc) :
    (system.becomeZombie process).world = system.world := by
  rw [becomeZombie, setLife_world, passChildren_world, wakeup1_world]

theorem System.life_becomeZombie (system : System nproc) (process other : Fin nproc) :
    (system.becomeZombie process).life other =
        update system.life process .zombie other ∨
      system.life other = .live (.waiting true) ∧
        (system.becomeZombie process).life other = .live (.waiting false) := by
  rw [becomeZombie, life_setLife]
  by_cases same : other = process
  · subst same
    exact .inl (by simp)
  · rw [update_of_ne same, update_of_ne same]
    rcases system.life_wakeup1 (system.ptable process).parent other with kept | ⟨asleep, woken⟩
    · rw [← kept]
      exact (system.wakeup1 _).life_passChildren process other
    · refine .inr ⟨asleep, ?_⟩
      rcases (system.wakeup1 (system.ptable process).parent).life_passChildren process other with
        kept | ⟨stillAsleep, -⟩
      · rw [kept, woken]
      · grind

/-! ## Owners are alive -/

/-- Every open socket belongs to a process that has not finished
`closeprocsocks` in `exit`. -/
def OwnersAlive (system : System nproc) : Prop :=
  ∀ slot, system.world.stable.IsOpen slot →
    ∃ process, (system.world.stable.sock slot).owner = some process ∧
      (system.life process).MayOwn

structure Sound (system : System nproc) : Prop where
  consistent : Consistent system.world
  idle : ∀ process, system.life process ≠ .live .running → system.world.proc process = .user
  forks : ForksEmbryos system.life
  owners : OwnersAlive system

theorem Sound.of_life (sound : Sound system) (sameWorld : next.world = system.world)
    {life : Fin nproc → Life nproc} (lives : next.life = life)
    (mayOwn : ∀ process, (system.life process).MayOwn → (life process).MayOwn)
    (idle : ∀ process, life process ≠ .live .running →
      system.life process ≠ .live .running ∨ system.world.proc process = .user)
    (forks : ForksEmbryos life) : Sound next := by
  subst lives
  refine ⟨sameWorld ▸ sound.consistent, ?_, forks, ?_⟩
  · intro process notRunning
    rw [sameWorld]
    rcases idle process notRunning with before | inUser
    · exact sound.idle process before
    · exact inUser
  · intro slot isOpen
    rw [sameWorld] at isOpen ⊢
    obtain ⟨process, owned, alive⟩ := sound.owners slot isOpen
    exact ⟨process, owned, mayOwn process alive⟩

theorem Sound.segment (sound : Sound system) {label : Label (Fin nproc)}
    {world : World (Fin nproc)} (running : system.life label.actor = .live .running)
    (stepped : Socket.step system.world label = some world) :
    Sound { system with world := world } := by
  obtain ⟨outcome, moved, rfl⟩ := transition_of_step stepped
  have effect := effect_of_transition moved
  refine ⟨effect.consistent sound.consistent, ?_, sound.forks, ?_⟩
  · intro process notRunning
    have other : process ≠ label.actor := by
      rintro rfl
      exact notRunning running
    have idle := sound.idle process notRunning
    cases after : outcome.world.proc process with
    | user => rfl
    | sleeping chan frame =>
      have before := (effect.accounted.asleep process chan frame other after).1
      cases idle.symm.trans before
    | runnable frame =>
      rcases effect.accounted.woken process frame other after with before | ⟨_, _, before, -⟩
      · cases idle.symm.trans before
      · cases idle.symm.trans before
  · intro slot isOpen
    rcases effect.owner_of_open isOpen with ⟨wasOpen, same⟩ | opened
    · obtain ⟨process, owned, alive⟩ := sound.owners slot wasOpen
      exact ⟨process, same.trans owned, alive⟩
    · refine ⟨label.actor, opened, ?_⟩
      change (system.life label.actor).MayOwn
      rw [running]
      trivial

theorem Sound.close (sound : Sound system) (inUser : system.InUser process) :
    Sound ({ system with
      world := (system.world.closeprocsocks process).1 }.setLife process (.live .exiting)) := by
  have closes : Socket.step system.world (.call process .exit) =
      some (system.world.closeprocsocks process).1 := by
    rw [Socket.step, transition_call_iff.mpr ⟨inUser.2, rfl⟩]
    rfl
  have after := @Sound.segment _ _ sound (.call process .exit) _ inUser.1 closes
  have none := system.world.closeprocsocks_complete process
  rw [SockTable.getprocsock_eq_none_iff] at none
  refine ⟨after.consistent, ?_, ?_, ?_⟩
  · intro other notRunning
    by_cases same : other = process
    · subst same
      have idle := sound.consistent.exit_invariant inUser.2
        (fun current => current.proc other = .user)
        (fun _ idle _ _ _ => ProcState.wakeup1_eq_user.mpr idle) inUser.2
      exact idle.2
    · rw [System.life_setLife, update_of_ne same] at notRunning
      exact after.idle other notRunning
  · rw [System.life_setLife]
    have forks := sound.forks
    have running := inUser.1
    change ForksEmbryos (update system.life process _)
    constructor
    · intro parent np
      have embryo := forks.embryo parent np
      grind
    · intro first second np
      have single := forks.single first second np
      grind
  · intro slot isOpen
    obtain ⟨owner, owned, alive⟩ := after.owners slot isOpen
    have different : owner ≠ process := by
      rintro rfl
      have member : slot ∈ (system.world.closeprocsocks owner).1.stable.procSlots owner :=
        SockTable.mem_procSlots.mpr ⟨isOpen, owned⟩
      rw [none] at member
      cases member
    refine ⟨owner, owned, ?_⟩
    rw [System.life_setLife, update_of_ne different]
    exact alive

theorem Change.sound (change : Change system next) (sound : Sound system) : Sound next := by
  have embryo := sound.forks.embryo
  have single := sound.forks.single
  cases change with
  | segment running _ stepped => exact sound.segment running stepped
  | closed inUser _ => exact sound.close inUser
  | refused => exact sound
  | @allocated process np inUser unused =>
    obtain ⟨running, idle⟩ := inUser
    have lives : (({ system with nextpid := system.nextpid + 1 }.setEntry np fun entry =>
        { entry with life := .embryo, pid := system.nextpid }).setLife process
          (.live (.forking np))).life =
        update (update system.life np .embryo) process
          (.live (.forking np)) := by
      rw [System.life_setLife, System.life_setEntry]
      rfl
    refine sound.of_life rfl lives ?_ ?_ ⟨?_, ?_⟩
    all_goals
      grind [Life.MayOwn]
  | @forkFailed process np forking =>
    refine sound.of_life rfl ((System.life_setLife _ _ _).trans
      (by rw [System.life_setLife])) ?_ ?_ ⟨?_, ?_⟩
    all_goals
      grind [Life.MayOwn]
  | @forked process np forking =>
    have idle : system.world.setProc np .user = system.world := by
      apply World.setProc_eq_self
      apply sound.idle
      rw [embryo process np forking]
      simp
    have lives : (system.forkEnds process np).1.life =
        update (update system.life np (.live .running)) process
          (.live .running) := by
      rw [System.forkEnds, System.life_setLife, System.life_setEntry]
      rfl
    refine sound.of_life idle lives ?_ ?_ ⟨?_, ?_⟩
    all_goals
      grind [Life.MayOwn]
  | @died process exiting =>
    have lives := system.life_becomeZombie process
    refine sound.of_life (system.becomeZombie_world process) rfl ?_ ?_ ⟨?_, ?_⟩
    all_goals
      grind [Life.MayOwn]
  | @reaped process child awake zombie =>
    refine sound.of_life rfl ((System.life_setLife _ _ _).trans
      (by rw [System.life_setEntry])) ?_ ?_ ⟨?_, ?_⟩
    all_goals
      grind [Life.MayOwn, System.InUser]
  | @waits process awake =>
    refine sound.of_life rfl (System.life_setLife _ _ _) ?_ ?_ ⟨?_, ?_⟩
    all_goals
      grind [Life.MayOwn, System.InUser]
  | @childless process awake =>
    refine sound.of_life rfl (System.life_setLife _ _ _) ?_ ?_ ⟨?_, ?_⟩
    all_goals
      grind [Life.MayOwn, System.InUser]

theorem sound_initial (initproc : Fin nproc) : Sound (System.initial initproc) := by
  refine ⟨consistent_initial, fun _ _ => rfl, ⟨?_, ?_⟩, ?_⟩
  · grind [System.life, System.initial]
  · grind [System.life, System.initial]
  · intro slot isOpen
    exact absurd rfl isOpen

theorem sound_throughout {initproc : Fin nproc} {trace : List (System nproc × Move nproc)}
    {finish : System nproc} (run : Run System.step (System.initial initproc) trace finish) :
    Throughout Sound trace finish :=
  run.always Sound (sound_initial initproc)
    fun sound stepped => (System.change_of_step stepped).sound sound

def Life.IsLive : Life nproc → Prop
  | .live _ => True
  | _ => False

theorem Life.MayOwn.isLive {life : Life nproc} (mayOwn : life.MayOwn) : life.IsLive := by
  match life, mayOwn with
  | .live _, _ => trivial

/-- Only `fork` makes a slot live, and it leaves the socket table alone. -/
theorem Change.stable_of_born (change : Change system next)
    (before : ¬ (system.life process).IsLive) (after : (next.life process).IsLive) :
    next.world.stable = system.world.stable := by
  cases change with
  | segment => exact absurd after before
  | @closed exiting inUser _ =>
    rw [System.life_setLife] at after
    by_cases same : process = exiting
    · subst same
      rw [inUser.1] at before
      exact absurd trivial before
    · rw [update_of_ne same] at after
      exact absurd after before
  | died => rw [System.becomeZombie_world]
  | refused | allocated | forkFailed | forked | reaped | waits | childless => rfl

/-- What `closeprocsocks` does to a world: its loop terminates, it resets the
open sockets of the process and no other slot, it lowers the count by their
number, and nobody is left asleep on them. -/
structure ClosesProcsocks {Proc : Type} [DecidableEq Proc] (process : Proc)
    (world after : World Proc) : Prop where
  terminates : World.ClosesSocks process world after
  slots : ∀ slot, after.stable.sock slot =
    if world.stable.IsOpen slot ∧ (world.stable.sock slot).owner = some process then
      resetsock (world.stable.sock slot)
    else world.stable.sock slot
  count : after.stable.countSock =
    world.stable.countSock - (world.stable.procSlots process).card
  wakes : ∀ slot, world.stable.IsOpen slot → (world.stable.sock slot).owner = some process →
    ∀ other frame, after.proc other ≠ .sleeping slot frame

theorem closesProcsocks {Proc : Type} [DecidableEq Proc] (process : Proc) (world : World Proc) :
    ClosesProcsocks process world (world.closeprocsocks process).1 := by
  have enough := world.stable.card_procSlots_le process
  obtain ⟨slots, count⟩ := World.closeprocsocksLoop_stable enough
  refine ⟨World.closesSocks_closeprocsocksLoop enough, ?_, count, ?_⟩
  · intro slot
    rw [World.closeprocsocks, slots slot]
    simp only [SockTable.mem_procSlots]
  · intro slot isOpen owned other frame
    exact World.closeprocsocksLoop_wakes enough (SockTable.mem_procSlots.mpr ⟨isOpen, owned⟩)
      other frame

/-- No socket outlives its owner.  In every state of every run an open socket
belongs to a process that has not finished `closeprocsocks` in `exit`, and
everybody asleep in a socket call sleeps on an open slot; a process that comes
to life owns no socket; and `closeprocsocks` does its work in every state. -/
theorem sockets_never_outlive_owner {initproc : Fin nproc}
    {trace : List (System nproc × Move nproc)} {finish : System nproc}
    (run : Run System.step (System.initial initproc) trace finish) :
    Throughout (fun system : System nproc => OwnersAlive system ∧
        ∀ process chan frame, system.world.proc process = .sleeping chan frame →
          system.world.stable.IsOpen chan) trace finish ∧
      (∀ entry ∈ trace, ∀ next, entry.1.step entry.2 = some next → ∀ process,
        ¬ (entry.1.life process).IsLive → (next.life process).IsLive →
          ∀ slot, next.world.stable.IsOpen slot →
            (next.world.stable.sock slot).owner ≠ some process) ∧
      ∀ process (world : World (Fin nproc)),
        ClosesProcsocks process world (world.closeprocsocks process).1 := by
  obtain ⟨visited, last⟩ := sound_throughout run
  refine ⟨⟨?_, ?_⟩, ?_, closesProcsocks⟩
  · intro entry member
    exact ⟨(visited entry member).owners,
      fun _ _ _ => (visited entry member).consistent.isOpen_of_sleeping⟩
  · exact ⟨last.owners, fun _ _ _ => last.consistent.isOpen_of_sleeping⟩
  · intro entry member next stepped process before after slot isOpen owned
    rw [(System.change_of_step stepped).stable_of_born before after] at isOpen owned
    obtain ⟨owner, ownedBy, mayOwn⟩ := (visited entry member).owners slot isOpen
    obtain rfl := Option.some.inj (ownedBy.symm.trans owned)
    exact before mayOwn.isLive

/-- A process forks a child, which listens at port 10; the parent connects, the
child exits and is waited for, and the next child takes its slot. -/
def childServes (parent child : Fin nproc) : List (Move nproc) :=
  [.allocproc parent, .forkEnds parent, .socket (.call child (.listen 10)),
    .socket (.call parent (.connect 10 localHost)), .socket (.resume child),
    .socket (.call child .exit), .becomeZombie child, .wait parent, .allocproc parent,
    .forkEnds parent]

theorem child_slot_reused :
    ∃ (trace : List (System 3 × Move 3)) (finish : System 3),
      Run System.step (System.initial 0) trace finish ∧ trace.map Prod.snd = childServes 0 1 ∧
        finish.life 1 = .live .running ∧ finish.world.stable.IsOpen 1 ∧ OwnersAlive finish := by
  refine exists_run_of_test (fun _ finish => finish.life 1 = .live .running ∧
    finish.world.stable.IsOpen 1) (by decide +kernel) ?_
  rintro _ _ run - ⟨reborn, isOpen⟩
  exact ⟨reborn, isOpen, (sockets_never_outlive_owner run).1.2.1⟩

end Lifecycle

end Xv6
