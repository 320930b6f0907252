import Xv6.SocketConsistency

/-!
# The rendezvous of `listen` and `connect`

A `listen` returns zero after any wakeup, without looking at its socket again.
Only the wakeup of the pairing `connect` can reach a listening slot, and nobody
else changes the slot before the listener runs.  Since its allocation a listening
slot has seen no completed connect, and the slot of a woken listener exactly one,
from its remote port.
-/

namespace Xv6

namespace Socket

open LabelledRun

variable {Proc : Type}

/-- One log entry seen by a slot: an allocation forgets the past, and a
completed `connect` adds the port it returns. -/
def recordPair (slot : Slot) (ports : List Int) : Event → List Int
  | .alloc other _ => if other = slot then [] else ports
  | .pair listener _ port => if listener = slot then ports ++ [port] else ports
  | _ => ports

/-- The ports returned by the connects completed on `slot` since it was last
allocated. -/
def pairedPorts (slot : Slot) (log : List Event) : List Int :=
  log.foldl (recordPair slot) []

theorem pairedPorts_append (slot : Slot) (log later : List Event) :
    pairedPorts slot (log ++ later) = later.foldl (recordPair slot) (pairedPorts slot log) := by
  rw [pairedPorts, List.foldl_append]
  rfl

variable {later log : List Event} {world : World Proc} {process : Proc} {lport : Int}
  {slot : Slot}

theorem foldl_recordPair_removals (slot : Slot) (ports : List Int)
    (removals : ∀ event ∈ later, ∃ removed state, event = .remove removed state) :
    later.foldl (recordPair slot) ports = ports := by
  induction later with
  | nil => rfl
  | cons event later ih =>
    obtain ⟨removed, state, rfl⟩ := removals event (by simp)
    exact ih fun event member => removals event (by simp [member])

/-- The invariant that relates the log to listening slots and to the frames of
listeners. -/
structure PairingInvariant (log : List Event) (world : World Proc) : Prop where
  listening : ∀ slot, (world.stable.sock slot).state = .listening → pairedPorts slot log = []
  once : ∀ slot, (pairedPorts slot log).length ≤ 1
  accepted : ∀ process lport slot, world.proc process = .runnable (.listen lport slot) →
    pairedPorts slot log = [(world.stable.sock slot).rPort]

theorem pairingInvariant_initial : PairingInvariant [] (World.initial : World Proc) := by
  constructor
  · intro slot listening
    rfl
  · intro slot
    simp [pairedPorts]
  · intro process lport slot woken
    simp [World.initial] at woken

theorem PairingInvariant.frame {next : World Proc} (holds : PairingInvariant log world)
    (quiet : ∀ slot ports, later.foldl (recordPair slot) ports = ports)
    (listening : ∀ slot, (next.stable.sock slot).state = .listening →
      (world.stable.sock slot).state = .listening)
    (accepted : ∀ process lport slot, next.proc process = .runnable (.listen lport slot) →
      world.proc process = .runnable (.listen lport slot) ∧
        (next.stable.sock slot).rPort = (world.stable.sock slot).rPort) :
    PairingInvariant (log ++ later) next := by
  constructor
  · intro slot isListening
    rw [pairedPorts_append, quiet]
    exact holds.listening slot (listening slot isListening)
  · intro slot
    rw [pairedPorts_append, quiet]
    exact holds.once slot
  · intro process lport slot woken
    obtain ⟨wasWoken, samePort⟩ := accepted process lport slot woken
    rw [pairedPorts_append, quiet, samePort]
    exact holds.accepted process lport slot wasWoken

theorem Consistent.wakeup_listener (consistent : Consistent world) {chan : Slot}
    (notListening : (world.stable.sock chan).state ≠ .listening)
    (woken : (world.proc process).wakeup1 chan = .runnable (.listen lport slot)) :
    world.proc process = .runnable (.listen lport slot) := by
  rcases ProcState.wakeup1_eq_runnable.mp woken with already | asleep
  · exact already
  · have frame := consistent.frames process
    rw [asleep] at frame
    obtain ⟨rfl, -, listening, -⟩ := frame
    exact absurd listening notListening

/-- Closing a socket of a process in user code wakes no listener and touches
the slot of none. -/
theorem PairingInvariant.remove (holds : PairingInvariant log world)
    (consistent : Consistent world) (idle : world.proc process = .user)
    (owned : (world.stable.sock slot).owner = some process) :
    PairingInvariant log (world.removesock slot) := by
  have notMine : ∀ other frame, world.proc other = .sleeping slot frame ∨
      world.proc other = .runnable frame → other ≠ process := by
    rintro other frame blocked rfl
    rw [idle] at blocked
    rcases blocked with asleep | woken
    · cases asleep
    · cases woken
  rw [← List.append_nil log]
  apply holds.frame (fun _ _ => rfl)
  · intro other listening
    by_cases same : other = slot
    · simp [same, resetsock, setsockvalue] at listening
    · simpa only [World.removesock_stable, world.stable.dropsock_sock_of_ne same] using listening
  · intro other lport held woken
    have frame := consistent.frames other
    have different : (world.stable.sock slot).owner ≠ some other := by
      rw [owned]
      rcases ProcState.wakeup1_eq_runnable.mp woken with already | asleep
      · simpa using Ne.symm (notMine other _ (Or.inr already))
      · simpa using Ne.symm (notMine other _ (Or.inl asleep))
    rcases ProcState.wakeup1_eq_runnable.mp woken with already | asleep
    · refine ⟨already, ?_⟩
      rw [already] at frame
      have elsewhere : held ≠ slot := by
        rintro rfl
        exact different frame.1.1
      rw [World.removesock_stable, world.stable.dropsock_sock_of_ne elsewhere]
    · rw [asleep] at frame
      obtain ⟨rfl, ownedByOther, -⟩ := frame
      exact absurd ownedByOther different

theorem PairingInvariant.signal (holds : PairingInvariant log world)
    (consistent : Consistent world) {next : SockTable Proc} {chan : Slot}
    (quiet : ∀ slot ports, later.foldl (recordPair slot) ports = ports)
    (links : ∀ slot, SameLink (next.sock slot) (world.stable.sock slot))
    (notListening : (world.stable.sock chan).state ≠ .listening) :
    PairingInvariant (log ++ later) ({ world with stable := next }.wakeup chan) := by
  apply holds.frame quiet
  · intro slot listening
    exact (links slot).1.symm.trans listening
  · intro process lport slot woken
    exact ⟨consistent.wakeup_listener notListening woken, (links slot).2.2.2⟩

theorem PairingInvariant.connect (holds : PairingInvariant log world)
    (consistent : Consistent world) (process : Proc) {loc rem : Slot}
    (free : ¬ world.stable.IsOpen loc) (listening : (world.stable.sock rem).state = .listening) :
    PairingInvariant (log ++ [.alloc loc lport, .pair rem loc lport])
      ({ world with stable := world.stable.connectTable process lport loc rem }.wakeup rem) := by
  have different := listener_ne_client listening free
  have listener := world.stable.connectTable_sock_listener process lport different
  have portsLoc : pairedPorts loc (log ++ [.alloc loc lport, .pair rem loc lport]) = [] := by
    simp [pairedPorts_append, recordPair, different]
  have portsRem :
      pairedPorts rem (log ++ [.alloc loc lport, .pair rem loc lport]) = [lport] := by
    simp [pairedPorts_append, recordPair, different.symm, holds.listening rem listening]
  have portsElse : ∀ slot, slot ≠ loc → slot ≠ rem →
      pairedPorts slot (log ++ [.alloc loc lport, .pair rem loc lport]) =
        pairedPorts slot log := by
    intro slot notClient notListener
    simp [pairedPorts_append, recordPair, notClient.symm, notListener.symm]
  constructor
  · intro slot stillListening
    by_cases isClient : slot = loc
    · subst isClient
      exact portsLoc
    · by_cases isListener : slot = rem
      · simp [isListener, listener] at stillListening
      · rw [portsElse slot isClient isListener]
        rw [World.wakeup_stable,
          world.stable.connectTable_sock_of_ne process lport isClient isListener] at stillListening
        exact holds.listening slot stillListening
  · intro slot
    by_cases isClient : slot = loc
    · simp [isClient, portsLoc]
    · by_cases isListener : slot = rem
      · simp [isListener, portsRem]
      · rw [portsElse slot isClient isListener]
        exact holds.once slot
  · intro other port slot woken
    have frame := consistent.frames other
    rcases ProcState.wakeup1_eq_runnable.mp woken with already | asleep
    · -- a listener woken earlier holds a connected slot, so neither `loc` nor `rem`
      rw [already] at frame
      have notClient : slot ≠ loc := by
        rintro rfl
        exact free frame.1.isOpen
      have notListener : slot ≠ rem := by
        rintro rfl
        exact frame.1.not_listening listening
      rw [portsElse slot notClient notListener, World.wakeup_stable,
        world.stable.connectTable_sock_of_ne process lport notClient notListener]
      exact holds.accepted other port slot already
    · rw [asleep] at frame
      obtain ⟨rfl, -⟩ := frame
      rw [portsRem, World.wakeup_stable, listener]

variable [DecidableEq Proc]

theorem PairingInvariant.setProc (holds : PairingInvariant log world) (process : Proc)
    {state : ProcState} (notWoken : ∀ frame, state ≠ .runnable frame) :
    PairingInvariant log (world.setProc process state) := by
  rw [← List.append_nil log]
  apply holds.frame (fun _ _ => rfl)
  · intro slot listening
    exact listening
  · intro other lport slot woken
    have different : other ≠ process := by
      rintro rfl
      rw [World.setProc_proc_self] at woken
      exact notWoken _ woken
    rw [world.setProc_proc_of_ne state different] at woken
    exact ⟨woken, rfl⟩

theorem PairingInvariant.listen (holds : PairingInvariant log world)
    (consistent : Consistent world) (process : Proc) (free : ¬ world.stable.IsOpen slot) :
    PairingInvariant (log ++ [.alloc slot lport])
      ({ world with stable := world.stable.listenTable process lport slot }.sleep
        process slot (.listen lport slot)) := by
  have portsNew : pairedPorts slot (log ++ [.alloc slot lport]) = [] := by
    simp [pairedPorts_append, recordPair]
  have portsElse : ∀ other, other ≠ slot →
      pairedPorts other (log ++ [.alloc slot lport]) = pairedPorts other log := by
    intro other different
    simp [pairedPorts_append, recordPair, different.symm]
  constructor
  · intro other listening
    by_cases same : other = slot
    · subst same
      exact portsNew
    · rw [portsElse other same]
      rw [World.sleep_stable, world.stable.listenTable_sock_of_ne process lport same] at listening
      exact holds.listening other listening
  · intro other
    by_cases same : other = slot
    · simp [same, portsNew]
    · rw [portsElse other same]
      exact holds.once other
  · intro other port held woken
    have different : other ≠ process := by
      rintro rfl
      rw [World.sleep_proc_self] at woken
      cases woken
    rw [World.sleep_proc_of_ne _ _ _ different] at woken
    have frame := consistent.frames other
    rw [woken] at frame
    have elsewhere : held ≠ slot := by
      rintro rfl
      exact free frame.1.isOpen
    rw [portsElse held elsewhere, World.sleep_stable,
      world.stable.listenTable_sock_of_ne process lport elsewhere]
    exact holds.accepted other port held woken

omit [DecidableEq Proc] in
theorem PairingInvariant.removals (holds : PairingInvariant log world)
    (removals : ∀ event ∈ later, ∃ removed state, event = .remove removed state) :
    PairingInvariant (log ++ later) world :=
  holds.frame (fun slot ports => foldl_recordPair_removals slot ports removals)
    (fun _ listening => listening) fun _ _ _ woken => ⟨woken, rfl⟩

theorem PairingInvariant.exit (holds : PairingInvariant log world) (consistent : Consistent world)
    (idle : world.proc process = .user) :
    PairingInvariant (log ++ (world.closeprocsocks process).2)
      (world.closeprocsocks process).1 := by
  have closed : PairingInvariant log (world.closeprocsocks process).1 :=
    (consistent.exit_invariant idle (PairingInvariant log)
      (fun currentConsistent currentIdle pairing _ owned =>
        pairing.remove currentConsistent currentIdle owned) holds).2
  apply closed.removals
  intro event member
  obtain ⟨slot, state, rfl, -⟩ := World.closeprocsocksLoop_events _ member
  exact ⟨slot, state, rfl⟩

theorem Effect.pairing {label : Label Proc} {outcome : Outcome Proc}
    (effect : Effect world label outcome) (consistent : Consistent world)
    (holds : PairingInvariant log world) :
    PairingInvariant (log ++ outcome.events) outcome.world := by
  have running : PairingInvariant log (world.entered label) :=
    holds.setProc label.actor (by simp)
  cases effect with
  | refused => simpa [retsockfunc] using holds
  | @listened process lport slot _ _ _ free => exact holds.listen consistent process free
  | accepted => simpa [retsockfunc] using running
  | @connected process _ _ _ _ _ _ listening _ _ free =>
    exact holds.connect consistent process free listening
  | @sendBlocked process _ _ _ _ _ _ _ _ =>
    rw [List.append_nil]
    exact holds.setProc process (by simp)
  | @recvBlocked process _ _ _ _ _ _ _ =>
    rw [List.append_nil]
    exact holds.setProc process (by simp)
  | @stored _ loc rem _ data n ready _ =>
    exact running.signal (consistent.enter ready.awake) (fun _ _ => rfl)
      (sameLink_modify (sameLink_storeData data n)) (ready.holds consistent).not_listening
  | @sendReset _ loc _ _ _ ready _ =>
    have held := ready.holds consistent
    refine (running.remove (consistent.enter ready.awake) (world.entered_proc_self label)
      held.1).removals ?_
    simp
  | @delivered _ loc _ _ ready _ =>
    exact running.signal (consistent.enter ready.awake) (fun _ _ => rfl)
      (sameLink_modify sameLink_emptyBuffer) (ready.holds consistent).not_listening
  | @recvReset _ loc _ ready _ =>
    have held := ready.holds consistent
    have links : ∀ slot, SameLink ((world.stable.modify loc emptyBuffer).sock slot)
        (world.stable.sock slot) :=
      sameLink_modify sameLink_emptyBuffer
    have entered := consistent.enter ready.awake
    have emptied := running.signal entered (fun _ _ => rfl : ∀ slot ports,
      [Event.deliver loc].foldl (recordPair slot) ports = ports) links held.not_listening
    have heldAfter : (world.stable.modify loc emptyBuffer).Holds label.actor loc :=
      held.of_sameLink (links loc)
    have removed := emptied.remove (entered.signal links rfl held.not_listening)
      (by rw [World.wakeup_proc, ProcState.wakeup1_eq_user]; exact world.entered_proc_self label)
      heldAfter.1
    simpa using removed.removals (by simp)
  | @disconnected process _ loc idle _ owned =>
    exact (holds.remove consistent idle owned).removals (by simp)
  | exited idle => exact holds.exit consistent idle

theorem pairingInvariant_of_run {trace : List (World Proc × Label Proc)} {finish : World Proc}
    (run : SockRun trace finish) : PairingInvariant (history trace) finish := by
  induction run with
  | nil => exact pairingInvariant_initial
  | @snoc trace current next label run stepped ih =>
    obtain ⟨outcome, moved, rfl⟩ := transition_of_step stepped
    rw [history_snoc, events_eq moved]
    exact (effect_of_transition moved).pairing (consistent_of_run run) ih

/-- How `listen` and `connect` meet in a world with a given past: no `listen`
returns zero before it has slept; one that does return zero finds its slot
connected by exactly one `connect` since it was allocated; a successful
`connect` turns exactly one listening socket to connected and makes its
listener runnable; and no slot is connected twice. -/
structure Rendezvous (past : List Event) (world : World Proc) : Prop where
  listen_sleeps : ∀ process lport outcome,
    transition world (.call process (.listen lport)) = some outcome → outcome.code ≠ some 0
  listen_returns : ∀ process lport slot outcome,
    world.proc process = .runnable (.listen lport slot) →
    transition world (.resume process) = some outcome →
      outcome.code = some 0 ∧ outcome.world.stable.getsock lport = some slot ∧
        outcome.world.stable.Holds process slot ∧
        pairedPorts slot past = [(outcome.world.stable.sock slot).rPort]
  connect_pairs : ∀ process rport host outcome port,
    transition world (.call process (.connect rport host)) = some outcome →
    outcome.code = some port → 0 ≤ port →
      ∃ slot client listener, world.stable.getsock rport = some slot ∧
        (∀ other, (world.stable.sock other).state = .listening ∧
          (outcome.world.stable.sock other).state = .connected ↔ other = slot) ∧
        outcome.events = [.alloc client port, .pair slot client port] ∧
        (outcome.world.stable.sock slot).rPort = port ∧
        world.proc listener = .sleeping slot (.listen rport slot) ∧
        outcome.world.proc listener = .runnable (.listen rport slot)
  paired_once : ∀ slot, (pairedPorts slot past).length ≤ 1

omit [DecidableEq Proc] in
theorem Consistent.listen_returns (consistent : Consistent world)
    (woken : world.proc process = .runnable (.listen lport slot)) :
    world.stable.getsock lport = some slot ∧ world.stable.Holds process slot := by
  have frame := consistent.frames process
  rw [woken] at frame
  obtain ⟨held, atPort⟩ := frame
  have valid : ValidPort lport := atPort ▸ consistent.table.local_valid slot held.isOpen
  exact ⟨(SockTable.getsock_eq_some_iff consistent.table.distinct valid).mpr
    ⟨held.isOpen, atPort⟩, held⟩

omit [DecidableEq Proc] in
/-- The listener behind a listening socket is asleep in `listen` at the port
the socket is found at. -/
theorem Consistent.listener_at (consistent : Consistent world) {rport : Int}
    (found : world.stable.getsock rport = some slot)
    (listening : (world.stable.sock slot).state = .listening) :
    ∃ listener, world.proc listener = .sleeping slot (.listen rport slot) := by
  obtain ⟨listener, lport, -, asleep⟩ := consistent.listener slot listening
  have frame := consistent.frames listener
  rw [asleep] at frame
  obtain ⟨-, -, -, atPort⟩ := frame
  have samePort : lport = rport := atPort.symm.trans (SockTable.getsock_spec found).2.2
  exact ⟨listener, samePort ▸ asleep⟩

omit [DecidableEq Proc] in
theorem connectTable_turns {table : SockTable Proc} (process : Proc) (lport : Int)
    {loc rem : Slot} (free : ¬ table.IsOpen loc)
    (listening : (table.sock rem).state = .listening) (other : Slot) :
    (table.sock other).state = .listening ∧
      ((table.connectTable process lport loc rem).sock other).state = .connected ↔
        other = rem := by
  have different := listener_ne_client listening free
  constructor
  · rintro ⟨wasListening, isConnected⟩
    by_contra notListener
    have notClient : other ≠ loc := by
      rintro rfl
      exact free (by simp [SockTable.IsOpen, wasListening])
    rw [table.connectTable_sock_of_ne process lport notClient notListener,
      wasListening] at isConnected
    cases isConnected
  · rintro rfl
    simp [listening, table.connectTable_sock_listener process lport different]

/-- Listens and connects match one to one in every run. -/
theorem rendezvous_of_run {trace : List (World Proc × Label Proc)} {finish : World Proc}
    (run : SockRun trace finish) : Rendezvous (history trace) finish := by
  have consistent := consistent_of_run run
  have pairing := pairingInvariant_of_run run
  constructor
  · intro process lport outcome moved returnsZero
    cases effect_of_transition moved with
    | refused _ negative =>
      obtain rfl := Option.some.inj returnsZero
      exact lt_irrefl _ negative
    | listened => cases returnsZero
    | stored ready => cases ready
    | sendReset ready => cases ready
    | delivered ready => cases ready
    | recvReset ready => cases ready
  · intro process lport slot outcome woken moved
    obtain ⟨found, held⟩ := consistent.listen_returns woken
    cases effect_of_transition moved with
    | accepted => exact ⟨rfl, found, held, pairing.accepted process lport slot woken⟩
    | stored ready =>
      cases ready with
      | resumed sending => rw [woken] at sending; cases sending
    | sendReset ready =>
      cases ready with
      | resumed sending => rw [woken] at sending; cases sending
    | delivered ready =>
      cases ready with
      | resumed receiving => rw [woken] at receiving; cases receiving
    | recvReset ready =>
      cases ready with
      | resumed receiving => rw [woken] at receiving; cases receiving
  · intro process rport host outcome port moved returned nonneg
    cases effect_of_transition moved with
    | refused _ negative =>
      obtain rfl := Option.some.inj returned
      exact absurd negative (not_lt.mpr nonneg)
    | @connected _ _ _ loc rem _ found listening _ _ free =>
      obtain rfl := Option.some.inj returned
      obtain ⟨listener, asleep⟩ := consistent.listener_at found listening
      refine ⟨rem, loc, listener, found,
        connectTable_turns process _ free listening, rfl, ?_, asleep, ?_⟩
      · rw [World.wakeup_stable, finish.stable.connectTable_sock_listener process _
          (listener_ne_client listening free)]
      · rw [World.wakeup_proc]
        exact ProcState.wakeup1_eq_runnable.mpr (Or.inr asleep)
    | stored ready => cases ready
    | sendReset ready => cases ready
    | delivered ready => cases ready
    | recvReset ready => cases ready
  · exact pairing.once

theorem rendezvous_handshake :
    ∃ (trace : List (World (Fin 3) × Label (Fin 3))) (finish : World (Fin 3)),
      SockRun trace finish ∧ trace.map Prod.snd = handshake.take 2 ∧
        history trace = [.alloc 0 10, .alloc 1 127, .pair 0 1 127] ∧
        pairedPorts 0 (history trace) = [127] ∧ Rendezvous (history trace) finish := by
  refine exists_run_of_test (fun trace _ =>
    history trace = [.alloc 0 10, .alloc 1 127, .pair 0 1 127]) (by decide +kernel) ?_
  exact fun _ _ run _ log => ⟨log, by rw [log]; decide, rendezvous_of_run run⟩

end Socket

end Xv6
