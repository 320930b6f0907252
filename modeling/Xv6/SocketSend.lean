import Xv6.SocketLog

/-!
# Where `send` writes

A blocked `send` keeps its pointer to the peer and tests the peer's buffer only
once, before it sleeps.  It is woken when the buffer has been read, but also
when the peer itself sends, and when the peer is removed; what happens before its
next segment goes unnoticed, as long as some socket exists at the remote port.

If nobody stores from a socket towards which a `send` sleeps, or into a socket
for which a woken `send` is on its way, then every store finds an empty buffer.
If nobody opens a socket at the remote port of a woken `send`, then every store
goes to the live peer.
-/

namespace Xv6

namespace Socket

open LabelledRun

variable {Proc : Type}

/-- The process is asleep in a `send` on the channel. -/
def ProcState.AsleepInSend (chan : Slot) : ProcState → Prop
  | .sleeping sleepChan (.send _ _ _ _) => sleepChan = chan
  | _ => False

/-- The process has been woken in a `send` to the slot. -/
def ProcState.WokenInSend (target : Slot) : ProcState → Prop
  | .runnable (.send _ rem _ _) => rem = target
  | _ => False

instance (chan : Slot) : DecidablePred (ProcState.AsleepInSend chan)
  | .sleeping _ (.send _ _ _ _) => inferInstanceAs (Decidable (_ = _))
  | .sleeping _ (.listen _ _) | .sleeping _ (.recv _ _ _) | .user | .runnable _ => .isFalse id

instance (target : Slot) : DecidablePred (ProcState.WokenInSend target)
  | .runnable (.send _ _ _ _) => inferInstanceAs (Decidable (_ = _))
  | .runnable (.listen _ _) | .runnable (.recv _ _ _) | .user | .sleeping _ _ => .isFalse id

/-! ## Unread data -/

/-- A store finds no `send` asleep towards its own socket, and no other process
woken in a `send` to the same target. -/
def Event.Uncontended (world : World Proc) (actor : Proc) : Event → Prop
  | .store loc rem =>
    (∀ process, ¬ (world.proc process).AsleepInSend loc) ∧
      ∀ process, process ≠ actor → ¬ (world.proc process).WokenInSend rem
  | _ => True

/-- Whoever has been woken in a `send` will find the buffer empty. -/
def WokenSendersFindRoom (world : World Proc) : Prop :=
  ∀ process loc rem data n, world.proc process = .runnable (.send loc rem data n) →
    (world.stable.sock rem).hasfullbuffer = false

variable [DecidableEq Proc]

/-- The stores of a segment are uncontended in the state before it. -/
def StoresUncontended (world : World Proc) (label : Label Proc) : Prop :=
  ∀ event ∈ events world label, event.Uncontended world label.actor

variable {world : World Proc} {label : Label Proc} {outcome : Outcome Proc}

/-- One uncontended segment.  A wakeup that reaches a sleeping sender comes
from the reader of its target or from the removal of the target, and both
leave the target empty. -/
theorem Effect.woken_senders_find_room (effect : Effect world label outcome)
    (consistent : Consistent world) (room : WokenSendersFindRoom world)
    (uncontended : ∀ event ∈ outcome.events, event.Uncontended world label.actor) :
    WokenSendersFindRoom outcome.world := by
  intro process loc rem data n woken
  have other : process ≠ label.actor := by
    rintro rfl
    exact effect.actor_not_runnable consistent _ woken
  by_contra full
  have cause := effect.accounted.woken process _ other woken
  rw [effect.accounted.flag rem, Bool.not_eq_false] at full
  rcases filled_eq_true full with ⟨before, event, after, split, sets, -⟩ | ⟨wasFull, untouched⟩
  · obtain ⟨source, rfl⟩ := Event.fills_eq_true sets
    have stored : .store source rem ∈ outcome.events := by simp [split]
    obtain ⟨noSleeper, noneWoken⟩ := uncontended _ stored
    rcases cause with already | ⟨chan, event, asleep, member, signalled⟩
    · exact noneWoken process other (by rw [already]; rfl)
    · rw [(effect.of_store stored).1, List.mem_singleton] at member
      subst member
      cases signalled
      exact noSleeper process (by rw [asleep]; rfl)
  · rcases cause with already | ⟨chan, event, asleep, member, signalled⟩
    · rw [room process loc rem data n already] at wasFull
      cases wasFull
    · have frame := consistent.frames process
      rw [asleep] at frame
      obtain rfl := frame.1
      have quiet := untouched event member
      cases event with
      | alloc => cases signalled
      | store source target =>
        cases signalled
        exact (uncontended _ member).1 process (by rw [asleep]; rfl)
      | pair | deliver | remove =>
        cases signalled
        simp [Event.fills] at quiet

/-- After a run of uncontended segments every store finds the buffer empty:
whatever was stored there before has been delivered or discarded since. -/
theorem store_finds_empty_buffer {trace : List (World Proc × Label Proc)} {world : World Proc}
    (run : SockRun trace world)
    (uncontended : ∀ entry ∈ trace, StoresUncontended entry.1 entry.2)
    {label : Label Proc} {loc rem : Slot} (stores : .store loc rem ∈ events world label) :
    (world.stable.sock rem).hasfullbuffer = false ∧
      ∀ earlier source later, history trace = earlier ++ .store source rem :: later →
        ∃ event ∈ later, event.fills rem = some false := by
  have room : WokenSendersFindRoom world := by
    refine (run.invariant (fun world => Consistent world ∧ WokenSendersFindRoom world)
      StoresUncontended ⟨consistent_initial, ?_⟩ ?_ uncontended).2.2
    · intro process loc rem data n woken
      cases woken
    · rintro current next label ⟨consistent, room⟩ guarded stepped
      obtain ⟨outcome, moved, rfl⟩ := transition_of_step stepped
      rw [StoresUncontended, events_eq moved] at guarded
      have effect := effect_of_transition moved
      exact ⟨effect.consistent consistent,
        effect.woken_senders_find_room consistent room guarded⟩
  have empty : (world.stable.sock rem).hasfullbuffer = false := by
    obtain ⟨outcome, moved, logged⟩ := outcome_of_event stores
    obtain ⟨-, -, -, data, n, ready, -⟩ := (effect_of_transition moved).of_store logged
    cases ready with
    | direct _ _ empty => exact empty
    | resumed woken => exact room _ _ _ _ _ woken
  refine ⟨empty, ?_⟩
  intro earlier source later split
  by_contra never
  have stillFull : filled rem true later = true :=
    filled_true_of_never_cleared fun event member cleared => never ⟨event, member, cleared⟩
  rw [hasfullbuffer_of_run run, split, filled_append, filled_cons] at empty
  simp [Event.fills, stillFull] at empty

instance [Fintype Proc] (world : World Proc) (actor : Proc) :
    DecidablePred (Event.Uncontended world actor)
  | .store _ _ => inferInstanceAs (Decidable (_ ∧ _))
  | .alloc _ _ | .pair _ _ _ | .deliver _ | .remove _ _ => .isTrue trivial

instance [Fintype Proc] (world : World Proc) (label : Label Proc) :
    Decidable (StoresUncontended world label) :=
  inferInstanceAs (Decidable (∀ event ∈ _, _))

def messageA : CStr :=
  ⟨[65], by decide⟩

/-- The client fills the server's buffer, blocks in its second `send`, and is
woken by the server's `recv`. -/
theorem store_finds_empty_buffer_after_recv :
    ∃ (trace : List (World (Fin 3) × Label (Fin 3))) (world : World (Fin 3)),
      SockRun trace world ∧
        trace.map Prod.snd = handshake ++ [.call 1 (.send 127 messageA 2),
          .call 1 (.send 127 messageA 2), .call 0 (.recv 10 2)] ∧
        (∀ entry ∈ trace, StoresUncontended entry.1 entry.2) ∧
        .store 1 0 ∈ events world (.resume 1) ∧
        (world.stable.sock 0).hasfullbuffer = false := by
  refine exists_run_of_test (fun trace world =>
    (∀ entry ∈ trace, StoresUncontended entry.1 entry.2) ∧
      .store 1 0 ∈ events world (.resume 1)) (by decide +kernel) ?_
  rintro _ _ run - ⟨uncontended, stores⟩
  exact ⟨uncontended, stores, (store_finds_empty_buffer run uncontended stores).1⟩

/-- The client is blocked in its second `send` when the server sends as well.
The server's `send` wakes it, and it overwrites the unread first message. -/
theorem send_overwrites_unread_message :
    ∃ (trace : List (World (Fin 3) × Label (Fin 3))) (world : World (Fin 3)),
      SockRun trace world ∧
        trace.map Prod.snd = handshake ++ [.call 1 (.send 127 messageA 2),
          .call 1 (.send 127 messageA 2), .call 0 (.send 10 messageA 2)] ∧
        .store 1 0 ∈ events world (.resume 1) ∧
        (world.stable.sock 0).hasfullbuffer = true :=
  exists_run_of_decide (by decide +kernel)

/-! ## The live peer -/

/-- The process has been woken in a `send` from a socket with the remote port. -/
def ProcState.WokenInSendTo (table : SockTable Proc) (port : Int) : ProcState → Prop
  | .runnable (.send loc _ _ _) => (table.sock loc).rPort = port
  | _ => False

omit [DecidableEq Proc] in
instance (table : SockTable Proc) (port : Int) : DecidablePred (ProcState.WokenInSendTo table port)
  | .runnable (.send _ _ _ _) => inferInstanceAs (Decidable (_ = _))
  | .runnable (.listen _ _) | .runnable (.recv _ _ _) | .user | .sleeping _ _ => .isFalse id

/-- A socket is not opened at the remote port of a woken `send`. -/
def Event.SparesWokenSenders (world : World Proc) : Event → Prop
  | .alloc _ port => ∀ process, ¬ (world.proc process).WokenInSendTo world.stable port
  | _ => True

/-- The segment opens no socket at the remote port of a woken `send`. -/
def OpensSparing (world : World Proc) (label : Label Proc) : Prop :=
  ∀ event ∈ events world label, event.SparesWokenSenders world

def openedSlots (log : List Event) : List Slot :=
  log.filterMap fun
    | .alloc slot _ => some slot
    | _ => none

/-- One segment seen by a process: its own segments forget the past. -/
def recordOpened (process : Proc) (opened : List Slot) (entry : World Proc × Label Proc) :
    List Slot :=
  if entry.2.actor = process then [] else opened ++ openedSlots (events entry.1 entry.2)

/-- The slots opened since the process last moved; for a blocked process, since
it entered its call. -/
def openedSinceMove (process : Proc) (trace : List (World Proc × Label Proc)) : List Slot :=
  trace.foldl (recordOpened process) []

/-- The slot is the connected socket at the remote port of `loc`. -/
def SockTable.LivePeer (table : SockTable Proc) (loc rem : Slot) : Prop :=
  (table.sock rem).state = .connected ∧ (table.sock rem).lPort = (table.sock loc).rPort

omit [DecidableEq Proc] in
theorem SockTable.LivePeer.getsock {table : SockTable Proc} {loc rem : Slot}
    (live : table.LivePeer loc rem) (distinct : table.PortsDistinct)
    (valid : ValidPort (table.sock loc).rPort) :
    table.getsock (table.sock loc).rPort = some rem :=
  (SockTable.getsock_eq_some_iff distinct valid).mpr ⟨by simp [SockTable.IsOpen, live.1], live.2⟩

/-- What is known of the target of a blocked `send`: it is not opened while
the sender sleeps, and once the sender has been woken it is still the live
peer, or the remote port is unused. -/
structure SendTargets (trace : List (World Proc × Label Proc)) (world : World Proc) : Prop where
  asleep : ∀ process chan loc rem data n,
    world.proc process = .sleeping chan (.send loc rem data n) →
      rem ∉ openedSinceMove process trace
  woken : ∀ process loc rem data n, world.proc process = .runnable (.send loc rem data n) →
    world.stable.LivePeer loc rem ∧ rem ∉ openedSinceMove process trace ∨
      world.stable.Unused (world.stable.sock loc).rPort

theorem mem_openedSlots {slot : Slot} {log : List Event} :
    slot ∈ openedSlots log ↔ ∃ port, .alloc slot port ∈ log := by
  rw [openedSlots, List.mem_filterMap]
  constructor
  · grind
  · grind

theorem openedSinceMove_snoc (process : Proc) (trace : List (World Proc × Label Proc))
    (entry : World Proc × Label Proc) :
    openedSinceMove process (trace ++ [entry]) =
      recordOpened process (openedSinceMove process trace) entry := by
  simp [openedSinceMove]

theorem not_opened_snoc (moved : transition world label = some outcome) {process : Proc}
    {slot : Slot} {trace : List (World Proc × Label Proc)} (isOpen : world.stable.IsOpen slot)
    (before : slot ∉ openedSinceMove process trace) :
    slot ∉ openedSinceMove process (trace ++ [(world, label)]) := by
  rw [openedSinceMove_snoc, recordOpened]
  split
  · simp
  · rw [events_eq moved, List.mem_append, not_or]
    refine ⟨before, ?_⟩
    intro opened
    obtain ⟨port, logged⟩ := mem_openedSlots.mp opened
    exact ((effect_of_transition moved).of_alloc logged).1 isOpen

theorem Effect.live_peer (effect : Effect world label outcome) (consistent : Consistent world)
    {process : Proc} (other : process ≠ label.actor) {loc rem : Slot}
    (held : world.stable.Holds process loc) (live : world.stable.LivePeer loc rem) :
    outcome.world.stable.LivePeer loc rem ∨
      outcome.world.stable.Unused (outcome.world.stable.sock loc).rPort := by
  have sameLoc := effect.link_of_holds consistent other held
  by_cases removal : ∃ state, .remove rem state ∈ outcome.events
  · obtain ⟨state, removed⟩ := removal
    rw [sameLoc.2.2.2, ← live.2]
    exact .inr (effect.unused_of_remove consistent removed)
  · have sameRem : SameLink (outcome.world.stable.sock rem) (world.stable.sock rem) := by
      apply effect.accounted.link rem (by simp [SockTable.IsOpen, live.1])
      · intro client port paired
        have listening := (effect.of_pair paired).1
        rw [live.1] at listening
        cases listening
      · exact fun state removed => removal ⟨state, removed⟩
    refine .inl ⟨sameRem.1.trans live.1, ?_⟩
    rw [sameRem.2.2.1, sameLoc.2.2.2]
    exact live.2

/-- One segment that opens no socket at the remote port of a woken `send`. -/
theorem SendTargets.step {trace : List (World Proc × Label Proc)}
    (targets : SendTargets trace world) (consistent : Consistent world)
    (moved : transition world label = some outcome) (sparing : OpensSparing world label) :
    SendTargets (trace ++ [(world, label)]) outcome.world := by
  have effect := effect_of_transition moved
  rw [OpensSparing, events_eq moved] at sparing
  constructor
  · intro process chan loc rem data n asleep
    by_cases moving : process = label.actor
    · simp [openedSinceMove_snoc, recordOpened, moving]
    · have before := (effect.accounted.asleep process _ _ moving asleep).1
      have frame := consistent.frames process
      rw [before] at frame
      exact not_opened_snoc moved frame.isOpen (targets.asleep process _ _ _ _ _ before)
  · intro process loc rem data n woken
    have other : process ≠ label.actor := by
      rintro rfl
      exact effect.actor_not_runnable consistent _ woken
    have frame := consistent.frames process
    -- a live peer before the segment, whether or not the segment wakes the sender
    have fromLive : world.stable.Holds process loc → world.stable.LivePeer loc rem →
        rem ∉ openedSinceMove process trace →
          outcome.world.stable.LivePeer loc rem ∧
              rem ∉ openedSinceMove process (trace ++ [(world, label)]) ∨
            outcome.world.stable.Unused (outcome.world.stable.sock loc).rPort := by
      intro held live notOpened
      have isOpen : world.stable.IsOpen rem := by simp [SockTable.IsOpen, live.1]
      exact (effect.live_peer consistent other held live).imp_left fun stillLive =>
        ⟨stillLive, not_opened_snoc moved isOpen notOpened⟩
    rcases effect.accounted.woken process _ other woken with already | ⟨chan, event, before, -, -⟩
    · rw [already] at frame
      rcases targets.woken process loc rem data n already with ⟨live, notOpened⟩ | unused
      · exact fromLive frame live notOpened
      · right
        rw [(effect.link_of_holds consistent other frame).2.2.2]
        apply effect.accounted.unused unused
        intro slot opened
        exact sparing _ opened process (by rw [already]; rfl)
    · rw [before] at frame
      exact fromLive frame.2.1 frame.2.2 (targets.asleep process _ _ _ _ _ before)

/-- After a run in which no socket is opened at the remote port of a woken
`send`, every store goes to the connected socket at the remote port, and for a
resumed `send` to the one it found before it slept. -/
theorem store_reaches_live_peer {trace : List (World Proc × Label Proc)} {world : World Proc}
    (run : SockRun trace world) (sparing : ∀ entry ∈ trace, OpensSparing entry.1 entry.2)
    {label : Label Proc} {loc rem : Slot} (stores : .store loc rem ∈ events world label) :
    (world.stable.sock rem).state = .connected ∧
      world.stable.getsock (world.stable.sock loc).rPort = some rem ∧
      ∀ process, label = .resume process → rem ∉ openedSinceMove process trace := by
  have targets : SendTargets trace world := by
    refine run.traced_invariant SendTargets OpensSparing ⟨?_, ?_⟩ ?_ sparing
    · intro process chan loc rem data n asleep
      cases asleep
    · intro process loc rem data n woken
      cases woken
    · intro earlier current label next before targets guarded stepped
      obtain ⟨outcome, moved, rfl⟩ := transition_of_step stepped
      exact targets.step (consistent_of_run before) moved guarded
  have consistent := consistent_of_run run
  obtain ⟨outcome, moved, logged⟩ := outcome_of_event stores
  obtain ⟨-, -, ⟨found, peer⟩, data, n, ready, -⟩ :=
    (effect_of_transition moved).of_store logged
  cases ready with
  | direct _ passed _ =>
    obtain ⟨-, -, -, live, connected⟩ := checkPair_spec passed
    refine ⟨connected, live, ?_⟩
    intro process resumed
    cases resumed
  | @resumed process _ _ _ _ woken =>
    rcases targets.woken process loc rem data n woken with ⟨live, notOpened⟩ | unused
    · refine ⟨live.1,
        live.getsock consistent.table.distinct (SockTable.getsock_spec peer).1, ?_⟩
      rintro other ⟨⟩
      exact notOpened
    · obtain ⟨-, isOpen, atPort⟩ := SockTable.getsock_spec peer
      exact absurd atPort (unused found isOpen)

instance [Fintype Proc] (world : World Proc) :
    DecidablePred (Event.SparesWokenSenders world)
  | .alloc _ _ => inferInstanceAs (Decidable (∀ _, _))
  | .pair _ _ _ | .store _ _ | .deliver _ | .remove _ _ => .isTrue trivial

instance [Fintype Proc] (world : World Proc) (label : Label Proc) :
    Decidable (OpensSparing world label) :=
  inferInstanceAs (Decidable (∀ event ∈ _, _))

/-- The blocked client is woken by the server's `recv` and stores into the
server's socket. -/
theorem store_reaches_live_peer_after_recv :
    ∃ (trace : List (World (Fin 3) × Label (Fin 3))) (world : World (Fin 3)),
      SockRun trace world ∧
        trace.map Prod.snd = handshake ++ [.call 1 (.send 127 messageA 2),
          .call 1 (.send 127 messageA 2), .call 2 (.listen 20), .call 0 (.recv 10 2)] ∧
        (∀ entry ∈ trace, OpensSparing entry.1 entry.2) ∧
        .store 1 0 ∈ events world (.resume 1) ∧
        (world.stable.sock 0).state = .connected ∧ 0 ∉ openedSinceMove 1 trace := by
  refine exists_run_of_test (fun trace world => (∀ entry ∈ trace, OpensSparing entry.1 entry.2) ∧
    .store 1 0 ∈ events world (.resume 1)) (by decide +kernel) ?_
  rintro _ _ run - ⟨sparing, stores⟩
  obtain ⟨connected, -, notOpened⟩ := store_reaches_live_peer run sparing stores
  exact ⟨sparing, stores, connected, notOpened 1 rfl⟩

/-- The server closes its socket while the client is blocked in `send`, and a
third process listens at the same port before the client runs again.  The
client then stores into the listening socket. -/
theorem send_writes_into_listening_socket :
    ∃ (trace : List (World (Fin 3) × Label (Fin 3))) (world : World (Fin 3)),
      SockRun trace world ∧
        trace.map Prod.snd = handshake ++ [.call 1 (.send 127 messageA 2),
          .call 1 (.send 127 messageA 2), .call 0 (.disconnect 10), .call 2 (.listen 10)] ∧
        .store 1 0 ∈ events world (.resume 1) ∧
        (world.stable.sock 0).state = .listening ∧ (world.stable.sock 0).owner = some 2 :=
  exists_run_of_decide (by decide +kernel)

end Socket

end Xv6
