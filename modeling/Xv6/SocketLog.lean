import Xv6.SocketConsistency

/-!
# What the log of a segment accounts for

The log of a segment tells which slots were opened, paired, filled, emptied and
removed.  `Accounted` says that nothing else happened to flags, buffers, links and
ports, and that a blocked process is woken only on a channel that a logged event
signals.  Properties of `send` and `recv` are proved from the log and need not go
through the calls again.
-/

namespace Xv6

namespace Socket

open LabelledRun

variable {Proc : Type}

/-! ## Reading the log -/

/-- What an event leaves in the flag `hasfullbuffer` of a slot, if it sets the
flag. -/
def Event.fills (slot : Slot) : Event → Option Bool
  | .alloc opened _ => if opened = slot then some false else none
  | .pair listener client _ => if listener = slot ∨ client = slot then some false else none
  | .store _ rem => if rem = slot then some true else none
  | .deliver loc => if loc = slot then some false else none
  | .remove removed _ => if removed = slot then some false else none

def Event.signals : Event → Option Slot
  | .alloc _ _ => none
  | .pair listener _ _ => some listener
  | .store loc _ => some loc
  | .deliver loc => some loc
  | .remove slot _ => some slot

/-- The flag of a slot after the events of a log. -/
def filled (slot : Slot) (flag : Bool) (log : List Event) : Bool :=
  log.foldl (fun flag event => (event.fills slot).getD flag) flag

theorem filled_append (slot : Slot) (flag : Bool) (log later : List Event) :
    filled slot flag (log ++ later) = filled slot (filled slot flag log) later :=
  List.foldl_append

theorem filled_cons (slot : Slot) (flag : Bool) (event : Event) (log : List Event) :
    filled slot flag (event :: log) = filled slot ((event.fills slot).getD flag) log :=
  rfl

variable {slot loc : Slot} {log : List Event} {event : Event} {actor process : Proc}
  {world : World Proc} {port : Int} {label : Label Proc} {outcome : Outcome Proc}
  {state : SockState}

theorem filled_of_untouched (flag : Bool) (untouched : ∀ event ∈ log, event.fills slot = none) :
    filled slot flag log = flag := by
  induction log with
  | nil => rfl
  | cons event log ih =>
    grind [filled_cons]

/-- A flag is set when some event sets it and none after that touches it, or
when it was set and nothing touches it. -/
theorem filled_eq_true {flag : Bool} (full : filled slot flag log = true) :
    (∃ before event after, log = before ++ event :: after ∧ event.fills slot = some true ∧
        ∀ later ∈ after, later.fills slot = none) ∨
      flag = true ∧ ∀ event ∈ log, event.fills slot = none := by
  induction log generalizing flag with
  | nil => exact .inr ⟨full, by simp⟩
  | cons event log ih =>
    rw [filled_cons] at full
    rcases ih full with ⟨before, store, after, rfl, sets, quiet⟩ | ⟨kept, quiet⟩
    · exact .inl ⟨event :: before, store, after, rfl, sets, quiet⟩
    · cases sets : event.fills slot with
      | none =>
        grind
      | some value =>
        rw [sets] at kept
        obtain rfl : value = true := kept
        exact .inl ⟨[], event, log, rfl, sets, quiet⟩

theorem filled_true_of_never_cleared (never : ∀ event ∈ log, event.fills slot ≠ some false) :
    filled slot true log = true := by
  induction log with
  | nil => rfl
  | cons event log ih =>
    have kept : (event.fills slot).getD true = true := by
      cases sets : event.fills slot with
      | none => rfl
      | some value =>
        grind
    rw [filled_cons, kept]
    exact ih fun event member => never event (by simp [member])

theorem Event.fills_eq_true (sets : event.fills slot = some true) :
    ∃ loc, event = .store loc slot := by
  cases event with
  | store loc rem =>
    obtain rfl : rem = slot := by simpa [fills] using sets
    exact ⟨loc, rfl⟩
  | alloc => simp [fills] at sets
  | pair => simp [fills] at sets
  | deliver => simp [fills] at sets
  | remove => simp [fills] at sets

/-! ## The accounts of single updates -/

def SockTable.Unused (table : SockTable Proc) (port : Int) : Prop :=
  ∀ slot, table.IsOpen slot → (table.sock slot).lPort ≠ port

/-- The log accounts for the difference between two worlds, up to what the
moving process does next. -/
structure Accounted (actor : Proc) (world : World Proc) (log : List Event)
    (next : World Proc) : Prop where
  flag : ∀ slot, (next.stable.sock slot).hasfullbuffer =
    filled slot (world.stable.sock slot).hasfullbuffer log
  buffer : ∀ slot, (∀ event ∈ log, event.fills slot = none) →
    (next.stable.sock slot).recvbuffer = (world.stable.sock slot).recvbuffer
  link : ∀ slot, world.stable.IsOpen slot → (∀ client port, .pair slot client port ∉ log) →
    (∀ state, .remove slot state ∉ log) →
      SameLink (next.stable.sock slot) (world.stable.sock slot)
  opened : ∀ slot, next.stable.IsOpen slot →
    world.stable.IsOpen slot ∧ (next.stable.sock slot).lPort = (world.stable.sock slot).lPort ∨
      .alloc slot (next.stable.sock slot).lPort ∈ log
  removed : ∀ slot state, .remove slot state ∈ log → ¬ next.stable.IsOpen slot
  woken : ∀ process frame, process ≠ actor → next.proc process = .runnable frame →
    world.proc process = .runnable frame ∨
      ∃ chan event, world.proc process = .sleeping chan frame ∧ event ∈ log ∧
        event.signals = some chan
  asleep : ∀ process chan frame, process ≠ actor → next.proc process = .sleeping chan frame →
    world.proc process = .sleeping chan frame ∧ ∀ event ∈ log, event.signals ≠ some chan

/-- A port comes into use only by an allocation. -/
theorem Accounted.unused {next : World Proc} (accounted : Accounted actor world log next)
    (unused : world.stable.Unused port) (notOpened : ∀ slot, .alloc slot port ∉ log) :
    next.stable.Unused port := by
  intro slot isOpen atPort
  rcases accounted.opened slot isOpen with ⟨wasOpen, samePort⟩ | opened
  · exact unused slot wasOpen (samePort.symm.trans atPort)
  · exact notOpened slot (atPort ▸ opened)

theorem Accounted.quiet {next : World Proc} (sameTable : next.stable = world.stable)
    (sameProcs : ∀ process, process ≠ actor → next.proc process = world.proc process) :
    Accounted actor world [] next := by
  constructor
  · intro slot
    rw [sameTable]
    rfl
  · intro slot _
    rw [sameTable]
  · intro slot _ _ _
    exact .of_eq (by rw [sameTable])
  · grind
  · simp
  · grind
  · grind

theorem filled_single_of_none (flag : Bool) (quiet : event.fills slot = none) :
    filled slot flag [event] = flag := by
  simp [filled, quiet]

theorem filled_single_of_some {value : Bool} (flag : Bool) (sets : event.fills slot = some value) :
    filled slot flag [event] = value := by
  simp [filled, sets]

theorem Accounted.remove {start : World Proc} (accounted : Accounted actor start log world)
    (slot : Slot) (state : SockState) :
    Accounted actor start (log ++ [.remove slot state]) (world.removesock slot) := by
  have closed : ¬ (world.stable.dropsock slot).IsOpen slot := by
    simp [SockTable.IsOpen, resetsock, setsockvalue]
  constructor
  · intro other
    rw [filled_append, ← accounted.flag]
    by_cases same : other = slot
    · subst same
      simp [filled, Event.fills, resetsock, setsockvalue]
    · rw [filled_single_of_none _ (by simp [Event.fills, Ne.symm same])]
      simp [world.stable.dropsock_sock_of_ne same]
  · intro other untouched
    have different : other ≠ slot := by
      rintro rfl
      simpa [Event.fills] using untouched (.remove other state) (by simp)
    rw [World.removesock_stable, world.stable.dropsock_sock_of_ne different]
    exact accounted.buffer other fun event member => untouched event (by simp [member])
  · intro other isOpen notPaired notRemoved
    have different : other ≠ slot := by
      grind
    rw [World.removesock_stable, world.stable.dropsock_sock_of_ne different]
    exact accounted.link other isOpen
      (fun client port member => notPaired client port (by simp [member]))
      (fun state member => notRemoved state (by simp [member]))
  · intro other isOpen
    have different : other ≠ slot := by
      rintro rfl
      exact closed isOpen
    rw [World.removesock_stable, SockTable.IsOpen,
      world.stable.dropsock_sock_of_ne different] at isOpen
    rw [World.removesock_stable, world.stable.dropsock_sock_of_ne different]
    rcases accounted.opened other isOpen with old | new
    · exact .inl old
    · exact .inr (by simp [new])
  · intro other otherState removed isOpen
    have different : other ≠ slot := by
      rintro rfl
      exact closed isOpen
    have earlier : .remove other otherState ∈ log := by simpa [different] using removed
    rw [World.removesock_stable, SockTable.IsOpen,
      world.stable.dropsock_sock_of_ne different] at isOpen
    exact accounted.removed other otherState earlier isOpen
  · intro process frame other woken
    rw [World.removesock_proc, ProcState.wakeup1_eq_runnable] at woken
    rcases woken with already | asleep
    · rcases accounted.woken process frame other already with old | ⟨chan, event, old, member, on⟩
      · exact .inl old
      · exact .inr ⟨chan, event, old, by simp [member], on⟩
    · exact .inr ⟨slot, .remove slot state, (accounted.asleep process slot frame other asleep).1,
        by simp, rfl⟩
  · intro process chan frame other asleep
    rw [World.removesock_proc, ProcState.wakeup1_eq_sleeping] at asleep
    obtain ⟨before, notSignalled⟩ := accounted.asleep process chan frame other asleep.1
    refine ⟨before, ?_⟩
    intro event member on
    rcases List.mem_append.mp member with old | new
    · exact notSignalled event old on
    · obtain rfl := List.mem_singleton.mp new
      exact asleep.2 (Option.some.inj on).symm

/-- A change of one buffer together with a wakeup. -/
theorem Accounted.signal {procs : Proc → ProcState} {chan : Slot} {change : Sock Proc → Sock Proc}
    {value : Bool} (keeps : ∀ socket, SameLink (change socket) socket)
    (sets : ∀ socket, (change socket).hasfullbuffer = value)
    (logged : ∀ other, event.fills other = if slot = other then some value else none)
    (signalled : event.signals = some chan)
    (notRemove : ∀ removed state, event ≠ .remove removed state)
    (sameProcs : ∀ process, process ≠ actor → procs process = world.proc process) :
    Accounted actor world [event]
      (World.wakeup ⟨world.stable.modify slot change, procs⟩ chan) := by
  have links : ∀ other, SameLink ((world.stable.modify slot change).sock other)
      (world.stable.sock other) :=
    sameLink_modify keeps
  constructor
  · intro other
    by_cases same : other = slot
    · simp_all [filled_single_of_some]
    · rw [filled_single_of_none _ (by rw [logged, if_neg (Ne.symm same)])]
      simp [world.stable.modify_sock_of_ne change same]
  · intro other untouched
    have different : other ≠ slot := by
      rintro rfl
      simpa [logged] using untouched event (by simp)
    rw [World.wakeup_stable, world.stable.modify_sock_of_ne change different]
  · intro other _ _ _
    exact links other
  · intro other isOpen
    rw [World.wakeup_stable, SockTable.IsOpen, (links other).1] at isOpen
    exact .inl ⟨isOpen, (links other).2.2.1⟩
  · grind
  · grind [World.wakeup_proc, ProcState.wakeup1_eq_runnable]
  · grind [World.wakeup_proc, ProcState.wakeup1_eq_sleeping]

/-- A new client, paired with a listener that is woken. -/
theorem Accounted.connect (world : World Proc) (process : Proc) (lport : Int) {rem : Slot}
    (free : ¬ world.stable.IsOpen loc) (listening : (world.stable.sock rem).state = .listening) :
    Accounted process world [.alloc loc lport, .pair rem loc lport]
      ({ world with stable := world.stable.connectTable process lport loc rem }.wakeup rem) := by
  have different := listener_ne_client listening free
  have client := world.stable.connectTable_sock_client process lport different
  have listener := world.stable.connectTable_sock_listener process lport different
  have elsewhere : ∀ other, other ≠ loc → other ≠ rem →
      (world.stable.connectTable process lport loc rem).sock other = world.stable.sock other :=
    fun other notClient notListener =>
      world.stable.connectTable_sock_of_ne process lport notClient notListener
  constructor
  · intro other
    rw [World.wakeup_stable]
    by_cases isClient : other = loc
    · subst isClient
      rw [client]
      simp [filled, Event.fills, setsockvalue]
    · by_cases isListener : other = rem
      · subst isListener
        rw [listener]
        simp [filled, Event.fills]
      · simp_all [filled, Event.fills, Ne.symm]
  · intro other untouched
    have notPaired := untouched (.pair rem loc lport) (by simp)
    have apart : rem ≠ other ∧ loc ≠ other := by simpa [Event.fills] using notPaired
    rw [World.wakeup_stable, elsewhere other apart.2.symm apart.1.symm]
  · intro other isOpen notPaired _
    have notClient : other ≠ loc := by
      rintro rfl
      exact free isOpen
    have notListener : other ≠ rem := by
      grind
    exact .of_eq (elsewhere other notClient notListener)
  · intro other isOpen
    rw [World.wakeup_stable] at isOpen ⊢
    by_cases isClient : other = loc
    · subst isClient
      rw [client]
      exact .inr (by simp [setsockvalue])
    · grind [SockTable.IsOpen]
  · simp
  · intro other frame _ woken
    simp only [World.wakeup_proc, ProcState.wakeup1_eq_runnable] at woken
    rcases woken with already | asleep
    · exact .inl already
    · exact .inr ⟨rem, .pair rem loc lport, asleep, by simp, rfl⟩
  · grind [World.wakeup_proc, ProcState.wakeup1_eq_sleeping, Event.signals]

variable [DecidableEq Proc]

/-- A new listener, asleep on its slot. -/
theorem Accounted.listen (world : World Proc) (process : Proc) (lport : Int)
    (free : ¬ world.stable.IsOpen slot) :
    Accounted process world [.alloc slot lport]
      ({ world with stable := world.stable.listenTable process lport slot }.sleep process slot
        (.listen lport slot)) := by
  have here := world.stable.listenTable_sock_self process lport slot
  have elsewhere : ∀ other, other ≠ slot →
      (world.stable.listenTable process lport slot).sock other = world.stable.sock other :=
    fun other different => world.stable.listenTable_sock_of_ne process lport different
  constructor
  · grind [filled, Event.fills, setsockvalue, filled_single_of_none, World.sleep_stable]
  · intro other untouched
    have different : other ≠ slot := by
      rintro rfl
      simpa [Event.fills] using untouched (.alloc other lport) (by simp)
    rw [World.sleep_stable, elsewhere other different]
  · intro other isOpen _ _
    have different : other ≠ slot := by
      rintro rfl
      exact free isOpen
    exact .of_eq (elsewhere other different)
  · grind [setsockvalue, World.sleep_stable, SockTable.IsOpen]
  · simp
  · grind [World.sleep_proc_of_ne]
  · grind [World.sleep_proc_of_ne, Event.signals]

theorem Accounted.closeprocsocksLoop {start : World Proc}
    (accounted : Accounted actor start log world) (fuel : Nat) :
    Accounted actor start (log ++ (World.closeprocsocksLoop process fuel world).2)
      (World.closeprocsocksLoop process fuel world).1 := by
  induction fuel generalizing world log with
  | zero => simpa [World.closeprocsocksLoop] using accounted
  | succ fuel ih =>
    rw [World.closeprocsocksLoop_succ]
    split
    · simpa using accounted
    · rename_i slot found
      simpa using ih (accounted.remove slot (world.stable.sock slot).state)

theorem World.entered_proc_other (world : World Proc) (label : Label Proc) :
    ∀ process, process ≠ label.actor →
      (world.entered label).proc process = world.proc process :=
  fun _ different => world.entered_proc_of_ne different

theorem Effect.accounted (effect : Effect world label outcome) :
    Accounted label.actor world outcome.events outcome.world := by
  cases effect with
  | refused => exact .quiet rfl fun _ _ => rfl
  | listened _ _ _ free => exact .listen world _ _ free
  | accepted => exact .quiet rfl (world.entered_proc_other _)
  | connected _ _ listening _ _ free => exact .connect world _ _ free listening
  | sendBlocked => exact .quiet rfl fun _ different => world.sleep_proc_of_ne _ _ different
  | recvBlocked => exact .quiet rfl fun _ different => world.sleep_proc_of_ne _ _ different
  | @stored _ loc rem _ data n _ _ =>
    exact .signal (sameLink_storeData data n) (fun _ => rfl) (fun _ => rfl) rfl (by simp)
      (world.entered_proc_other label)
  | @sendReset _ loc _ _ _ _ _ =>
    have entered : Accounted label.actor world [] (world.entered label) :=
      .quiet rfl (world.entered_proc_other label)
    exact entered.remove loc _
  | @delivered _ loc _ _ _ _ =>
    exact .signal sameLink_emptyBuffer (fun _ => rfl) (fun _ => rfl) rfl (by simp)
      (world.entered_proc_other label)
  | @recvReset _ loc _ _ _ =>
    have emptied : Accounted label.actor world [.deliver loc]
        ({ world.entered label with
          stable := world.stable.modify loc emptyBuffer }.wakeup loc) :=
      .signal sameLink_emptyBuffer (fun _ => rfl) (fun _ => rfl) rfl (by simp)
        (world.entered_proc_other label)
    exact emptied.remove loc _
  | disconnected => exact Accounted.remove (.quiet rfl fun _ _ => rfl) _ _
  | exited => exact Accounted.closeprocsocksLoop (.quiet rfl fun _ _ => rfl) _

/-! ## What the events tell about the segment -/

theorem Effect.of_store (effect : Effect world label outcome) {rem : Slot}
    (logged : .store loc rem ∈ outcome.events) :
    outcome.events = [.store loc rem] ∧ outcome.code = some 0 ∧
      (∃ found, world.stable.getsock (world.stable.sock loc).rPort = some found) ∧
        ∃ data n, SendReady world label loc rem data n ∧
          outcome.world.stable = world.stable.modify rem (storeData data n) := by
  cases effect with
  | @stored _ loc rem found data n ready peer =>
    obtain ⟨rfl, rfl⟩ := by simpa using logged
    exact ⟨rfl, rfl, ⟨found, peer⟩, data, n, ready, rfl⟩
  | refused | accepted => simp [retsockfunc] at logged
  | exited =>
    obtain ⟨_, _, removal, _⟩ := World.closeprocsocksLoop_events _ logged
    cases removal
  | listened | connected | sendBlocked | recvBlocked | sendReset | delivered | recvReset
  | disconnected => simp at logged

theorem Effect.of_deliver (effect : Effect world label outcome)
    (logged : .deliver loc ∈ outcome.events) :
    (∃ n, RecvReady world label loc n ∧
      outcome.out = deliveredBytes (world.stable.sock loc) n) ∧
      (outcome.code = some 0 →
        ∃ found, world.stable.getsock (world.stable.sock loc).rPort = some found) := by
  cases effect with
  | @delivered _ loc found n ready peer =>
    grind
  | @recvReset _ loc n ready _ =>
    obtain rfl := by simpa using logged
    refine ⟨⟨n, ready, rfl⟩, ?_⟩
    intro zero
    cases zero
  | refused | accepted => simp [retsockfunc] at logged
  | exited =>
    obtain ⟨_, _, removal, _⟩ := World.closeprocsocksLoop_events _ logged
    cases removal
  | listened | connected | sendBlocked | recvBlocked | stored | sendReset | disconnected =>
    simp at logged

/-- Sockets are opened in closed slots, and nothing is removed meanwhile. -/
theorem Effect.of_alloc (effect : Effect world label outcome)
    (logged : .alloc slot port ∈ outcome.events) :
    ¬ world.stable.IsOpen slot ∧ ∀ removed state, .remove removed state ∉ outcome.events := by
  cases effect with
  | listened _ _ _ free =>
    grind
  | connected _ _ _ _ _ free =>
    grind
  | refused | accepted => simp [retsockfunc] at logged
  | exited =>
    obtain ⟨_, _, removal, _⟩ := World.closeprocsocksLoop_events _ logged
    cases removal
  | sendBlocked | recvBlocked | stored | sendReset | delivered | recvReset | disconnected =>
    simp at logged

theorem Effect.of_pair (effect : Effect world label outcome) {listener client : Slot}
    (logged : .pair listener client port ∈ outcome.events) :
    (world.stable.sock listener).state = .listening ∧ ¬ world.stable.IsOpen client := by
  cases effect with
  | connected _ _ listening _ _ free =>
    grind
  | refused | accepted => simp [retsockfunc] at logged
  | exited =>
    obtain ⟨_, _, removal, _⟩ := World.closeprocsocksLoop_events _ logged
    cases removal
  | listened | sendBlocked | recvBlocked | stored | sendReset | delivered | recvReset
  | disconnected => simp at logged

theorem World.closeprocsocksLoop_removed (fuel : Nat)
    (logged : .remove slot state ∈ (closeprocsocksLoop process fuel world).2) :
    world.stable.IsOpen slot ∧ (world.stable.sock slot).owner = some process := by
  induction fuel generalizing world with
  | zero => cases logged
  | succ fuel ih =>
    rw [closeprocsocksLoop_succ] at logged
    split at logged
    · simp at logged
    · rename_i first found
      rcases List.mem_cons.mp logged with same | later
      · obtain ⟨rfl, -⟩ := Event.remove.inj same
        exact SockTable.getprocsock_spec found
      · have mine := ih later
        rw [World.removesock_stable, ← SockTable.mem_procSlots, SockTable.procSlots_dropsock,
          Finset.mem_erase] at mine
        exact SockTable.mem_procSlots.mp mine.2

/-- Only the owner of a socket closes it. -/
theorem Effect.of_remove (effect : Effect world label outcome) (consistent : Consistent world)
    (logged : .remove slot state ∈ outcome.events) :
    world.stable.IsOpen slot ∧ (world.stable.sock slot).owner = some label.actor := by
  cases effect with
  | sendReset ready _ =>
    obtain ⟨rfl, -⟩ := by simpa using logged
    exact ⟨(ready.holds consistent).isOpen, (ready.holds consistent).1⟩
  | recvReset ready _ =>
    obtain ⟨rfl, -⟩ := by simpa using logged
    exact ⟨(ready.holds consistent).isOpen, (ready.holds consistent).1⟩
  | disconnected _ found owned =>
    obtain ⟨rfl, -⟩ := by simpa using logged
    exact ⟨(SockTable.getsock_spec found).2.1, owned⟩
  | exited => exact World.closeprocsocksLoop_removed _ logged
  | refused | accepted => simp [retsockfunc] at logged
  | listened | connected | sendBlocked | recvBlocked | stored | delivered => simp at logged

/-! ## What a segment leaves to the other processes -/

theorem Effect.actor_not_runnable (effect : Effect world label outcome)
    (consistent : Consistent world) (frame : Frame) :
    outcome.world.proc label.actor ≠ .runnable frame := by
  cases effect with
  | refused idle _ => simp [retsockfunc, Label.actor, idle]
  | listened => simp [Label.actor]
  | accepted => simp [retsockfunc]
  | connected idle => simp [Label.actor, idle, ProcState.wakeup1]
  | sendBlocked => simp [Label.actor]
  | recvBlocked => simp [Label.actor]
  | stored => simp [ProcState.wakeup1]
  | sendReset => simp [ProcState.wakeup1]
  | delivered => simp [ProcState.wakeup1]
  | recvReset => simp [ProcState.wakeup1]
  | disconnected idle => simp [Label.actor, idle, ProcState.wakeup1]
  | @exited process idle =>
    have stillIdle := consistent.exit_invariant idle
      (fun current => current.proc process = .user)
      (fun _ idle _ _ _ => ProcState.wakeup1_eq_user.mpr idle) idle
    simp [Label.actor, exit, stillIdle.2]

/-- A connected socket of another process keeps its link. -/
theorem Effect.link_of_holds (effect : Effect world label outcome) (consistent : Consistent world)
    (other : process ≠ label.actor) (held : world.stable.Holds process slot) :
    SameLink (outcome.world.stable.sock slot) (world.stable.sock slot) := by
  apply effect.accounted.link slot held.isOpen
  · intro client port paired
    exact held.not_listening (effect.of_pair paired).1
  · intro state removed
    have owned := (effect.of_remove consistent removed).2
    exact other (Option.some.inj (held.1.symm.trans owned))

/-- A full buffer of another process is not emptied. -/
theorem Effect.flag_of_holds (effect : Effect world label outcome) (consistent : Consistent world)
    (other : process ≠ label.actor) (held : world.stable.Holds process slot)
    (full : (world.stable.sock slot).hasfullbuffer = true) :
    (outcome.world.stable.sock slot).hasfullbuffer = true := by
  have never : ∀ event ∈ outcome.events, event.fills slot ≠ some false := by
    intro event member cleared
    cases event with
    | alloc opened port =>
      obtain rfl : opened = slot := by simpa [Event.fills] using cleared
      exact (effect.of_alloc member).1 held.isOpen
    | pair listener client port =>
      have touched : listener = slot ∨ client = slot := by
        by_contra apart
        simp [Event.fills, apart] at cleared
      rcases touched with rfl | rfl
      · exact held.not_listening (effect.of_pair member).1
      · exact (effect.of_pair member).2 held.isOpen
    | store loc rem => simp [Event.fills] at cleared
    | deliver loc =>
      obtain rfl : loc = slot := by simpa [Event.fills] using cleared
      obtain ⟨⟨n, ready, -⟩, -⟩ := effect.of_deliver member
      exact other (Option.some.inj (held.1.symm.trans (ready.holds consistent).1))
    | remove removed state =>
      obtain rfl : removed = slot := by simpa [Event.fills] using cleared
      have owned := (effect.of_remove consistent member).2
      exact other (Option.some.inj (held.1.symm.trans owned))
  rw [effect.accounted.flag slot, full]
  exact filled_true_of_never_cleared never

theorem Effect.unused_of_remove (effect : Effect world label outcome)
    (consistent : Consistent world) (logged : .remove slot state ∈ outcome.events) :
    outcome.world.stable.Unused (world.stable.sock slot).lPort := by
  intro other isOpen atPort
  rcases effect.accounted.opened other isOpen with ⟨wasOpen, samePort⟩ | opened
  · obtain rfl := consistent.table.distinct other slot wasOpen
      (effect.of_remove consistent logged).1 (samePort.symm.trans atPort)
    exact effect.accounted.removed other state logged isOpen
  · exact (effect.of_alloc opened).2 slot state logged

omit [DecidableEq Proc] in
theorem SockTable.isOpen_dropsock {table : SockTable Proc} {other : Slot}
    (isOpen : (table.dropsock slot).IsOpen other) : other ≠ slot ∧ table.IsOpen other := by
  have different : other ≠ slot := by
    rintro rfl
    simp [IsOpen, resetsock, setsockvalue] at isOpen
  rw [IsOpen, table.dropsock_sock_of_ne different] at isOpen
  exact ⟨different, isOpen⟩

/-- The owner of a socket that is open after a segment is the same as before,
or the process that opened the socket. -/
theorem Effect.owner_of_open (effect : Effect world label outcome)
    (isOpen : outcome.world.stable.IsOpen slot) :
    world.stable.IsOpen slot ∧
        (outcome.world.stable.sock slot).owner = (world.stable.sock slot).owner ∨
      (outcome.world.stable.sock slot).owner = some label.actor := by
  have links {next : SockTable Proc} (same : SameLink (next.sock slot) (world.stable.sock slot))
      (isOpen : next.IsOpen slot) : world.stable.IsOpen slot ∧
        (next.sock slot).owner = (world.stable.sock slot).owner := by
    rw [SockTable.IsOpen, same.1] at isOpen
    exact ⟨isOpen, same.2.1⟩
  cases effect with
  | refused | accepted | sendBlocked | recvBlocked => exact .inl ⟨isOpen, rfl⟩
  | @listened process lport opened =>
    by_cases same : slot = opened
    · subst same
      exact .inr (by simp [setsockvalue, Label.actor])
    · exact .inl (links (.of_eq (world.stable.listenTable_sock_of_ne process lport same)) isOpen)
  | @connected process _ _ loc rem _ _ listening _ _ free =>
    have different := listener_ne_client listening free
    have client := world.stable.connectTable_sock_client process
      world.stable.getfreeport different
    have listener := world.stable.connectTable_sock_listener process
      world.stable.getfreeport different
    by_cases isClient : slot = loc
    · subst isClient
      exact .inr (by simp [client, setsockvalue, Label.actor])
    · by_cases isListener : slot = rem
      · simp_all [SockTable.IsOpen]
      · exact .inl (links (.of_eq (world.stable.connectTable_sock_of_ne process _ isClient
          isListener)) isOpen)
  | stored => exact .inl (links (sameLink_modify (sameLink_storeData _ _) slot) isOpen)
  | delivered => exact .inl (links (sameLink_modify sameLink_emptyBuffer slot) isOpen)
  | sendReset =>
    obtain ⟨different, wasOpen⟩ := SockTable.isOpen_dropsock isOpen
    exact .inl ⟨wasOpen, congrArg Sock.owner (world.stable.dropsock_sock_of_ne different)⟩
  | disconnected =>
    obtain ⟨different, wasOpen⟩ := SockTable.isOpen_dropsock isOpen
    exact .inl ⟨wasOpen, congrArg Sock.owner (world.stable.dropsock_sock_of_ne different)⟩
  | recvReset =>
    obtain ⟨different, wasOpen⟩ := SockTable.isOpen_dropsock isOpen
    have same := links (sameLink_modify sameLink_emptyBuffer slot) wasOpen
    exact .inl ⟨same.1, by
      rw [World.removesock_stable, SockTable.dropsock_sock_of_ne _ different]
      exact same.2⟩
  | @exited process idle =>
    refine .inl (World.closeprocsocksLoop_invariant (fun current : World Proc =>
      current.stable.IsOpen slot → world.stable.IsOpen slot ∧
        (current.stable.sock slot).owner = (world.stable.sock slot).owner) ?_ nsock
      (fun isOpen => ⟨isOpen, rfl⟩) isOpen)
    intro current removed kept _ _ stillOpen
    obtain ⟨different, wasOpen⟩ := SockTable.isOpen_dropsock stillOpen
    rw [World.removesock_stable, SockTable.dropsock_sock_of_ne _ different]
    exact kept wasOpen

/-! ## The flag over a whole run -/

/-- The flag of every slot is what the log of the run says. -/
theorem hasfullbuffer_of_run {trace : List (World Proc × Label Proc)} {finish : World Proc}
    (run : SockRun trace finish) (slot : Slot) :
    (finish.stable.sock slot).hasfullbuffer = filled slot false (history trace) := by
  induction run with
  | nil => rfl
  | @snoc trace current next label run stepped ih =>
    obtain ⟨outcome, moved, rfl⟩ := transition_of_step stepped
    rw [history_snoc, filled_append, ← ih, events_eq moved]
    exact (effect_of_transition moved).accounted.flag slot

end Socket

end Xv6
