import Xv6.SocketSend

/-!
# What `recv` delivers

A blocked `recv` sleeps on the peer's slot and copies its buffer out as soon as
it runs again, whether or not anything has been stored: the peer's `recv` signals
the same channel as its `send`.  Unless a woken `recv` finds its buffer empty,
every successful `recv` delivers a message that was stored and not delivered
before.  A `recv` after the peer has closed reaches an unread message exactly when
some connected socket has taken the peer's port.
-/

namespace Xv6

namespace Socket

open LabelledRun

variable {Proc : Type}

/-- The process is asleep in a `recv` on the channel, from a socket other than
`target`. -/
def ProcState.AsleepInRecv (chan : Slot) (target : Option Slot) : ProcState → Prop
  | .sleeping sleepChan (.recv loc _ _) => sleepChan = chan ∧ some loc ≠ target
  | _ => False

/-- The process has been woken in a `recv` with an empty buffer, on a socket
with the remote port. -/
def ProcState.WokenEmptyInRecv (table : SockTable Proc) (port : Int) : ProcState → Prop
  | .runnable (.recv loc _ _) =>
    (table.sock loc).hasfullbuffer = false ∧ (table.sock loc).rPort = port
  | _ => False

instance (chan : Slot) (target : Option Slot) :
    DecidablePred (ProcState.AsleepInRecv chan target)
  | .sleeping _ (.recv _ _ _) => inferInstanceAs (Decidable (_ ∧ _))
  | .sleeping _ (.listen _ _) | .sleeping _ (.send _ _ _ _) | .user | .runnable _ => .isFalse id

instance (table : SockTable Proc) (port : Int) :
    DecidablePred (ProcState.WokenEmptyInRecv table port)
  | .runnable (.recv _ _ _) => inferInstanceAs (Decidable (_ ∧ _))
  | .runnable (.listen _ _) | .runnable (.send _ _ _ _) | .user | .sleeping _ _ => .isFalse id

/-- The event does not mislead a `recv`.  No `recv` sleeps on the channel of a
`recv`; whoever sleeps in `recv` on the channel of a `send` waits for this very
message; and no socket is opened at the remote port of a `recv` that has been
woken without data. -/
def Event.SparesReceivers (world : World Proc) : Event → Prop
  | .deliver loc => ∀ process, ¬ (world.proc process).AsleepInRecv loc none
  | .store loc rem => ∀ process, ¬ (world.proc process).AsleepInRecv loc (some rem)
  | .alloc _ port => ∀ process, ¬ (world.proc process).WokenEmptyInRecv world.stable port
  | .pair _ _ _ | .remove _ _ => True

/-- Whoever has been woken in a `recv` has data, or will see that the peer is
gone. -/
def WokenReceiversServed (world : World Proc) : Prop :=
  ∀ process loc rem n, world.proc process = .runnable (.recv loc rem n) →
    (world.stable.sock loc).hasfullbuffer = true ∨
      world.stable.Unused (world.stable.sock loc).rPort

variable [DecidableEq Proc]

/-- The events of the segment mislead no `recv`. -/
def ReceiversSpared (world : World Proc) (label : Label Proc) : Prop :=
  ∀ event ∈ events world label, event.SparesReceivers world

variable {world : World Proc} {loc : Slot}

/-- One segment that misleads no `recv`. -/
theorem Effect.woken_receivers_served {label : Label Proc} {outcome : Outcome Proc}
    (effect : Effect world label outcome) (consistent : Consistent world)
    (served : WokenReceiversServed world)
    (spared : ∀ event ∈ outcome.events, event.SparesReceivers world) :
    WokenReceiversServed outcome.world := by
  intro process loc rem n woken
  have other : process ≠ label.actor := by
    rintro rfl
    exact effect.actor_not_runnable consistent _ woken
  have frame := consistent.frames process
  rcases effect.accounted.woken process _ other woken with
    already | ⟨chan, event, asleep, member, signalled⟩
  · rw [already] at frame
    rw [(effect.link_of_holds consistent other frame).2.2.2]
    cases full : (world.stable.sock loc).hasfullbuffer with
    | true => exact .inl (effect.flag_of_holds consistent other frame full)
    | false =>
      have unused := (served process loc rem n already).resolve_left (by simp [full])
      refine .inr (effect.accounted.unused unused ?_)
      intro slot opened
      exact spared _ opened process (by rw [already]; exact ⟨full, rfl⟩)
  · rw [asleep] at frame
    obtain ⟨rfl, held, connected, points⟩ := frame
    cases event with
    | alloc => cases signalled
    | deliver source =>
      cases signalled
      exact absurd (by rw [asleep]; exact ⟨rfl, by simp⟩) (spared _ member process)
    | store source target =>
      cases signalled
      have mine : loc = target := by
        by_contra different
        exact spared _ member process (by rw [asleep]; exact ⟨rfl, by simpa using different⟩)
      subst mine
      left
      rw [effect.accounted.flag, (effect.of_store member).1]
      simp [filled, Event.fills]
    | pair listener client port =>
      cases signalled
      have listening := (effect.of_pair member).1
      rw [connected] at listening
      cases listening
    | remove removed state =>
      cases signalled
      rw [(effect.link_of_holds consistent other held).2.2.2, ← points]
      exact .inr (effect.unused_of_remove consistent member)

/-- After a run in which no `recv` is misled, every `recv` that returns zero
copies a full buffer: the last event on its slot is the store of a message that
was neither delivered nor discarded since. -/
theorem recv_delivers_stored_message {trace : List (World Proc × Label Proc)}
    {world : World Proc} (run : SockRun trace world)
    (spared : ∀ entry ∈ trace, ReceiversSpared entry.1 entry.2)
    {label : Label Proc} {outcome : Outcome Proc}
    (moved : transition world label = some outcome) {loc : Slot}
    (delivers : .deliver loc ∈ outcome.events) (returnsZero : outcome.code = some 0) :
    (world.stable.sock loc).hasfullbuffer = true ∧
      ∃ earlier source later, history trace = earlier ++ .store source loc :: later ∧
        ∀ event ∈ later, event.fills loc = none := by
  have served : WokenReceiversServed world := by
    refine (run.invariant (fun world => Consistent world ∧ WokenReceiversServed world)
      ReceiversSpared ⟨consistent_initial, ?_⟩ ?_ spared).2.2
    · intro process loc rem n woken
      cases woken
    · rintro current label next ⟨consistent, served⟩ guarded stepped
      obtain ⟨outcome, moved, rfl⟩ := transition_of_step stepped
      rw [ReceiversSpared, events_eq moved] at guarded
      have effect := effect_of_transition moved
      exact ⟨effect.consistent consistent, effect.woken_receivers_served consistent served guarded⟩
  obtain ⟨⟨n, ready, -⟩, peer⟩ := (effect_of_transition moved).of_deliver delivers
  obtain ⟨found, peer⟩ := peer returnsZero
  have full : (world.stable.sock loc).hasfullbuffer = true := by
    cases ready with
    | direct _ _ full => exact full
    | resumed woken =>
      refine (served _ _ _ _ woken).resolve_right ?_
      intro unused
      obtain ⟨-, isOpen, atPort⟩ := SockTable.getsock_spec peer
      exact unused found isOpen atPort
  refine ⟨full, ?_⟩
  rw [hasfullbuffer_of_run run] at full
  rcases filled_eq_true full with ⟨earlier, event, later, split, sets, quiet⟩ | ⟨absurdFlag, -⟩
  · obtain ⟨source, rfl⟩ := Event.fills_eq_true sets
    exact ⟨earlier, source, later, split, quiet⟩
  · cases absurdFlag

instance [Fintype Proc] (world : World Proc) : DecidablePred (Event.SparesReceivers world)
  | .deliver _ | .store _ _ | .alloc _ _ => inferInstanceAs (Decidable (∀ _, _))
  | .pair _ _ _ | .remove _ _ => .isTrue trivial

instance [Fintype Proc] (world : World Proc) (label : Label Proc) :
    Decidable (ReceiversSpared world label) :=
  inferInstanceAs (Decidable (∀ event ∈ _, _))

/-- The server blocks in `recv` and is woken by the client's `send`. -/
theorem recv_delivers_awaited_message :
    ∃ (trace : List (World (Fin 3) × Label (Fin 3))) (world : World (Fin 3)),
      SockRun trace world ∧
        trace.map Prod.snd =
          handshake ++ [.call 0 (.recv 10 4), .call 1 (.send 127 messageA 2)] ∧
        (∀ entry ∈ trace, ReceiversSpared entry.1 entry.2) ∧
        ∃ outcome, transition world (.resume 0) = some outcome ∧
          .deliver 0 ∈ outcome.events ∧ outcome.code = some 0 ∧ outcome.out = [65, 0, 0, 0] ∧
          (world.stable.sock 0).hasfullbuffer = true := by
  refine exists_run_of_test (fun trace world =>
    (∀ entry ∈ trace, ReceiversSpared entry.1 entry.2) ∧
      (transition world (.resume 0)).any fun outcome => decide (.deliver 0 ∈ outcome.events ∧
        outcome.code = some 0 ∧ outcome.out = [65, 0, 0, 0])) (by decide +kernel) ?_
  rintro _ _ run - ⟨spared, outcomeTest⟩
  obtain ⟨outcome, moved, passed⟩ := (Option.any_eq_true _ _).mp outcomeTest
  obtain ⟨delivers, returnsZero, bytes⟩ := of_decide_eq_true passed
  exact ⟨spared, outcome, moved, delivers, returnsZero, bytes,
    (recv_delivers_stored_message run spared moved delivers returnsZero).1⟩

/-- The client sends a request and waits in `recv` for the reply.  The server's
`recv` of the request wakes it, and it returns zero with an empty buffer. -/
theorem recv_returns_phantom_message :
    ∃ (trace : List (World (Fin 3) × Label (Fin 3))) (world : World (Fin 3)),
      SockRun trace world ∧
        trace.map Prod.snd = handshake ++ [.call 1 (.send 127 messageA 2),
          .call 1 (.recv 127 4), .call 0 (.recv 10 4)] ∧
        ∃ outcome, transition world (.resume 1) = some outcome ∧
          .deliver 1 ∈ outcome.events ∧ outcome.code = some 0 ∧
          (world.stable.sock 1).hasfullbuffer = false ∧
          ∀ source, .store source 1 ∉ history trace := by
  refine exists_run_of_test (fun trace world =>
    (transition world (.resume 1)).any fun outcome => decide (.deliver 1 ∈ outcome.events ∧
      outcome.code = some 0 ∧ (world.stable.sock 1).hasfullbuffer = false ∧
      ∀ source : Slot, .store source 1 ∉ history trace)) (by decide +kernel) ?_
  intro _ _ _ _ tested
  obtain ⟨outcome, moved, passed⟩ := (Option.any_eq_true _ _).mp tested
  exact ⟨outcome, moved, of_decide_eq_true passed⟩

/-! ## Data left by a closed peer -/

/-- Each of the two slots is the live peer of the other. -/
def SockTable.Peers (table : SockTable Proc) (first second : Slot) : Prop :=
  table.LivePeer first second ∧ table.LivePeer second first

/-- A slot that no event of a run touches keeps its buffer and its link. -/
theorem untouched_of_run {first last : World Proc} {trace : List (World Proc × Label Proc)}
    (run : Run step first trace last) {slot : Slot}
    (untouched : ∀ event ∈ history trace, event.fills slot = none) :
    (last.stable.sock slot).hasfullbuffer = (first.stable.sock slot).hasfullbuffer ∧
      (last.stable.sock slot).recvbuffer = (first.stable.sock slot).recvbuffer ∧
      (first.stable.IsOpen slot →
        SameLink (last.stable.sock slot) (first.stable.sock slot)) := by
  induction run with
  | nil => exact ⟨rfl, rfl, fun _ => .refl _⟩
  | @snoc trace current next label run stepped ih =>
    obtain ⟨outcome, moved, rfl⟩ := transition_of_step stepped
    have accounted := (effect_of_transition moved).accounted
    rw [history_snoc, events_eq moved] at untouched
    have quiet : ∀ event ∈ outcome.events, event.fills slot = none :=
      fun event member => untouched event (by simp [member])
    obtain ⟨flag, buffer, link⟩ := ih fun event member => untouched event (by simp [member])
    refine ⟨?_, (accounted.buffer slot quiet).trans buffer, ?_⟩
    · rw [accounted.flag, filled_of_untouched _ quiet, flag]
    · intro isOpen
      have before := link isOpen
      have after := accounted.link slot (by rw [SockTable.IsOpen, before.1]; exact isOpen)
        (fun client port paired => by simpa [Event.fills] using quiet _ paired)
        (fun state removed => by simpa [Event.fills] using quiet _ removed)
      exact after.trans before

/-- Once a connected socket has been removed, whoever is found at its port was
opened there since. -/
theorem port_reopened_of_run {first last : World Proc} {trace : List (World Proc × Label Proc)}
    (consistent : Consistent first) (run : Run step first trace last) {slot : Slot}
    (connected : (first.stable.sock slot).state = .connected)
    (closed : ∃ state, .remove slot state ∈ history trace) {other : Slot}
    (isOpen : last.stable.IsOpen other)
    (atPort : (last.stable.sock other).lPort = (first.stable.sock slot).lPort) :
    .alloc other (first.stable.sock slot).lPort ∈ history trace := by
  -- before the removal the socket keeps its link, after it the port is unused
  have reopened : (∀ state, .remove slot state ∉ history trace) ∧
        SameLink (last.stable.sock slot) (first.stable.sock slot) ∨
      ∀ other, last.stable.IsOpen other →
        (last.stable.sock other).lPort = (first.stable.sock slot).lPort →
          .alloc other (first.stable.sock slot).lPort ∈ history trace := by
    clear closed isOpen atPort
    induction run with
    | nil => exact .inl ⟨by simp [history], .refl _⟩
    | @snoc trace current next label run stepped ih =>
      obtain ⟨outcome, moved, rfl⟩ := transition_of_step stepped
      have effect := effect_of_transition moved
      have reached := (run.always Consistent consistent consistent_step).2
      rw [history_snoc, events_eq moved]
      rcases ih with ⟨notRemoved, link⟩ | opened
      · have nowConnected := link.1.trans connected
        by_cases removal : ∃ state, .remove slot state ∈ outcome.events
        · obtain ⟨state, removed⟩ := removal
          right
          intro other isOpen atPort
          rw [← link.2.2.1] at atPort
          exact absurd atPort (effect.unused_of_remove reached removed other isOpen)
        · have kept : ∀ state, .remove slot state ∉ outcome.events :=
            fun state removed => removal ⟨state, removed⟩
          refine .inl ⟨fun state => by simp [notRemoved, kept], ?_⟩
          refine (effect.accounted.link slot (by simp [SockTable.IsOpen, nowConnected]) ?_
            kept).trans link
          intro client port paired
          have listening := (effect.of_pair paired).1
          rw [nowConnected] at listening
          cases listening
      · right
        intro other isOpen atPort
        rcases effect.accounted.opened other isOpen with ⟨wasOpen, samePort⟩ | new
        · exact List.mem_append_left _ (opened other wasOpen (samePort.symm.trans atPort))
        · exact List.mem_append_right _ (atPort ▸ new)
  obtain ⟨state, removed⟩ := closed
  rcases reopened with ⟨notRemoved, -⟩ | opened
  · exact absurd removed (notRemoved state)
  · exact opened other isOpen atPort

/-- The checks of `recv` for the owner of a connected socket come down to the
search for the peer. -/
theorem checkPair_of_holds (consistent : Consistent world) {process : Proc}
    (held : world.stable.Holds process loc) :
    checkPair process (world.stable.sock loc).lPort world.stable =
      (world.stable.getsock (world.stable.sock loc).rPort).elim (.error eNotfound) fun rem =>
        if (world.stable.sock rem).state ≠ .connected then .error eWrongState
        else .ok (loc, rem) := by
  have valid := consistent.table.local_valid loc held.isOpen
  have found : world.stable.getsock (world.stable.sock loc).lPort = some loc :=
    (SockTable.getsock_eq_some_iff consistent.table.distinct valid).mpr ⟨held.isOpen, rfl⟩
  rw [checkPair, if_neg (not_not.mpr valid), found]
  dsimp only
  rw [if_neg (not_not.mpr held.1), if_neg (not_not.mpr held.2)]
  cases world.stable.getsock (world.stable.sock loc).rPort with
  | none => rfl
  | some rem => rfl

omit [DecidableEq Proc] in
/-- While a socket is found at the remote port, the end of `recv` returns zero
and the bytes of the buffer. -/
theorem recvResume_of_peer {found : Slot} (n : Int)
    (peer : world.stable.getsock (world.stable.sock loc).rPort = some found) :
    (recvResume loc n world).code = some 0 ∧
      (recvResume loc n world).out = deliveredBytes (world.stable.sock loc) n := by
  have emptied : (world.stable.modify loc emptyBuffer).getsock
      (emptyBuffer (world.stable.sock loc)).rPort = some found := by
    rw [getsock_modify_emptyBuffer]
    exact peer
  simp [recvResume, emptied]

/-- With data in the buffer, `recv` by the owner copies it when a connected
socket is found at the remote port, and is refused otherwise. -/
theorem recv_of_full (consistent : Consistent world) {process : Proc}
    (held : world.stable.Holds process loc) (full : (world.stable.sock loc).hasfullbuffer = true)
    (n : Int) :
    let outcome := recv process (world.stable.sock loc).lPort n world
    (∃ peer, world.stable.LivePeer loc peer) ∧ outcome.code = some 0 ∧
        outcome.out = deliveredBytes (world.stable.sock loc) n ∨
      (¬ ∃ peer, world.stable.LivePeer loc peer) ∧
        (outcome = retsockfunc world eNotfound ∨ outcome = retsockfunc world eWrongState) := by
  have found_of_live : ∀ peer, world.stable.LivePeer loc peer →
      world.stable.getsock (world.stable.sock loc).rPort = some peer :=
    fun peer live =>
      live.getsock consistent.table.distinct (consistent.table.remote_valid loc held.2)
  rw [recv]
  cases found : world.stable.getsock (world.stable.sock loc).rPort with
  | none =>
    grind [checkPair_of_holds]
  | some rem =>
    by_cases connected : (world.stable.sock rem).state = .connected
    · have passed : checkPair process (world.stable.sock loc).lPort world.stable =
          .ok (loc, rem) := by
        rw [checkPair_of_holds consistent held, found, Option.elim_some,
          if_neg (not_not.mpr connected)]
      rw [passed]
      dsimp only
      rw [if_neg (not_not.mpr full)]
      have atPort := (SockTable.getsock_spec found).2.2
      exact .inl ⟨⟨rem, connected, atPort⟩, recvResume_of_peer n found⟩
    · have failed : checkPair process (world.stable.sock loc).lPort world.stable =
          .error eWrongState := by
        rw [checkPair_of_holds consistent held, found, Option.elim_some, if_pos connected]
      rw [failed]
      refine .inr ⟨?_, .inr rfl⟩
      rintro ⟨peer, live⟩
      rw [found_of_live peer live] at found
      cases found
      exact connected live.1

/-- A segment of the trace opened a socket at `port`, and that socket is now
the live peer of `loc`. -/
def PortTaken (trace : List (World Proc × Label Proc)) (port : Int) (loc : Slot)
    (world : World Proc) : Prop :=
  ∃ peer, .alloc peer port ∈ history trace ∧ world.stable.LivePeer loc peer

/-- A message is stored by `r` into its peer `l`, and `r` is closed while the
message is unread.  A later `recv` of the owner of `l` copies the message
exactly when the port of `r` has been opened again and the socket there is
connected; otherwise it is refused and the message stays. -/
theorem recv_after_close_iff {before between : List (World Proc × Label Proc)}
    {stored : World Proc × Label Proc} {after world : World Proc}
    (run : SockRun (before ++ stored :: between) world)
    (stepped : step stored.1 stored.2 = some after) {r l : Slot}
    (stores : .store r l ∈ events stored.1 stored.2) (peers : stored.1.stable.Peers r l)
    (closed : ∃ state, .remove r state ∈ history between)
    (unread : ∀ event ∈ history between, event.fills l = none) {process : Proc}
    (owned : (world.stable.sock l).owner = some process) (n : Int) {outcome : Outcome Proc}
    (called : transition world (.call process (.recv (world.stable.sock l).lPort n)) =
      some outcome) :
    (outcome.out = deliveredBytes (after.stable.sock l) n ∧
        (outcome.code = some 0 ∨ outcome.code = some eConnectionResetByRemote) ↔
          PortTaken between (stored.1.stable.sock r).lPort l world) ∧
      (¬ PortTaken between (stored.1.stable.sock r).lPort l world →
        outcome = retsockfunc world eNotfound ∨ outcome = retsockfunc world eWrongState) := by
  obtain ⟨middle, head, rest⟩ := run.split
  obtain ⟨rfl, next, edge, later⟩ := rest.head
  obtain rfl := Option.some.inj (edge.symm.trans stepped)
  have consistent := consistent_of_run run
  obtain ⟨storing, moved, rfl⟩ := transition_of_step edge
  have effect := effect_of_transition moved
  rw [events_eq moved] at stores
  obtain ⟨-, -, -, data, size, -, table⟩ := effect.of_store stores
  -- the store changes no link, and afterwards nothing touches `l`
  have links : ∀ slot, SameLink (storing.world.stable.sock slot) (stored.1.stable.sock slot) := by
    rw [table]
    exact sameLink_modify (sameLink_storeData data size)
  have connected := (links l).1.trans peers.1.1
  obtain ⟨flag, buffer, link⟩ := untouched_of_run later unread
  have same := link (by simp [SockTable.IsOpen, connected])
  have held : world.stable.Holds process l := ⟨owned, same.1.trans connected⟩
  have full : (world.stable.sock l).hasfullbuffer = true := by
    rw [flag, table, SockTable.modify_sock_self]
    rfl
  have bytes : deliveredBytes (world.stable.sock l) n =
      deliveredBytes (storing.world.stable.sock l) n := by
    rw [deliveredBytes, deliveredBytes, buffer]
  have remotePort : (world.stable.sock l).rPort = (stored.1.stable.sock r).lPort :=
    (same.2.2.2.trans (links l).2.2.2).trans peers.2.2.symm
  have reopened : ∀ peer, world.stable.LivePeer l peer →
      .alloc peer (stored.1.stable.sock r).lPort ∈ history between := by
    intro peer live
    rw [← (links r).2.2.1]
    apply port_reopened_of_run (effect.consistent (consistent_of_run head)) later
      ((links r).1.trans peers.2.1) closed (by simp [SockTable.IsOpen, live.1])
    rw [live.2, remotePort, (links r).2.2.1]
  have taken_iff : PortTaken between (stored.1.stable.sock r).lPort l world ↔
      ∃ peer, world.stable.LivePeer l peer :=
    exists_congr fun peer => and_iff_right_of_imp (reopened peer)
  have result : outcome = recv process (world.stable.sock l).lPort n world :=
    (transition_call_iff.mp called).2
  rw [taken_iff]
  rcases recv_of_full consistent held full n with ⟨live, zero, out⟩ | ⟨dead, refused⟩
  · rw [← result] at zero out
    exact ⟨⟨fun _ => live, fun _ => ⟨out.trans bytes, .inl zero⟩⟩, fun none => absurd live none⟩
  · rw [← result] at refused
    refine ⟨⟨?_, fun live => absurd live dead⟩, fun _ => refused⟩
    rintro ⟨-, success⟩
    rcases refused with rfl | rfl
    · rcases success with zero | reset
      · cases zero
      · cases reset
    · rcases success with zero | reset
      · cases zero
      · cases reset

instance (table : SockTable Proc) (first second : Slot) :
    Decidable (table.LivePeer first second) :=
  inferInstanceAs (Decidable (_ ∧ _))

instance (table : SockTable Proc) (first second : Slot) : Decidable (table.Peers first second) :=
  inferInstanceAs (Decidable (_ ∧ _))

/-- The client sends and closes, and before the server reads, a connection
between two other processes takes the client's port. -/
theorem recv_after_port_taken :
    ∃ (before between : List (World (Fin 3) × Label (Fin 3)))
      (stored : World (Fin 3) × Label (Fin 3)) (world : World (Fin 3)),
      SockRun (before ++ stored :: between) world ∧
        (before ++ stored :: between).map Prod.snd =
          handshake ++ [.call 1 (.send 127 messageA 2), .call 1 (.disconnect 127),
            .call 1 (.listen 20), .call 2 (.connect 20 localHost)] ∧
        .store 1 0 ∈ events stored.1 stored.2 ∧ stored.1.stable.Peers 1 0 ∧
        ∃ outcome, transition world (.call 0 (.recv 10 4)) = some outcome ∧
          outcome.code = some 0 ∧ outcome.out = [65, 0, 0, 0] ∧
          PortTaken between 127 0 world := by
  obtain ⟨trace, world, run, labels, tested⟩ := @exists_run_of_decide _ _ step World.initial
    (handshake ++ [.call 1 (.send 127 messageA 2), .call 1 (.disconnect 127), .call 1 (.listen 20),
      .call 2 (.connect 20 localHost)])
    (fun trace (world : World (Fin 3)) =>
      (match trace.drop 3 with
      | stored :: between =>
        decide (.store 1 0 ∈ events stored.1 stored.2 ∧ stored.1.stable.Peers 1 0 ∧
          .remove 1 .connected ∈ history between ∧
          (∀ event ∈ history between, event.fills 0 = none) ∧
          (world.stable.sock 0).owner = some 0 ∧ (world.stable.sock 0).lPort = 10 ∧
          (stored.1.stable.sock 1).lPort = 127) &&
        (transition world (.call 0 (.recv 10 4))).any fun (outcome : Outcome (Fin 3)) =>
          decide (outcome.code = some 0 ∧ outcome.out = [65, 0, 0, 0])
      | [] => false) = true) _ (by decide +kernel)
  cases rest : trace.drop 3 with
  | nil => simp [rest] at tested
  | cons stored between =>
    have whole : trace = trace.take 3 ++ stored :: between := by
      rw [← rest, List.take_append_drop]
    rw [whole] at run labels
    simp only [rest] at tested
    obtain ⟨states, outcomeTest⟩ := Bool.and_eq_true_iff.mp tested
    obtain ⟨outcome, called, passed⟩ := (Option.any_eq_true _ _).mp outcomeTest
    obtain ⟨zero, bytes⟩ := of_decide_eq_true passed
    obtain ⟨stores, peers, closed, unread, owned, atPort, clientPort⟩ :=
      of_decide_eq_true states
    obtain ⟨after, stepped⟩ := run.step_entry (List.mem_append_right _ List.mem_cons_self)
    have calledAt : transition world
        (.call 0 (.recv (world.stable.sock 0).lPort 4)) = some outcome := by
      rw [atPort]
      exact called
    have result := recv_after_close_iff run stepped stores peers ⟨_, closed⟩ unread owned 4
      calledAt
    rw [clientPort] at result
    have taken : PortTaken between 127 0 world := by
      by_contra free
      rcases result.2 free with rfl | rfl
      · cases zero
      · cases zero
    exact ⟨_, between, stored, world, run, labels, stores, peers, outcome, called, zero, bytes,
      taken⟩

/-- The client sends and closes; the server's `recv` is refused and the message
stays unread. -/
theorem recv_refused_after_close :
    ∃ (trace : List (World (Fin 3) × Label (Fin 3))) (world : World (Fin 3)),
      SockRun trace world ∧
        trace.map Prod.snd =
          handshake ++ [.call 1 (.send 127 messageA 2), .call 1 (.disconnect 127)] ∧
        (world.stable.sock 0).hasfullbuffer = true ∧
        ∃ outcome, transition world (.call 0 (.recv 10 4)) = some outcome ∧
          outcome.code = some eNotfound ∧ outcome.out = [] ∧
          (outcome.world.stable.sock 0).hasfullbuffer = true := by
  refine exists_run_of_test (fun _ world => (world.stable.sock 0).hasfullbuffer = true ∧
    (transition world (.call 0 (.recv 10 4))).any fun outcome =>
      decide (outcome.code = some eNotfound ∧ outcome.out = [] ∧
        (outcome.world.stable.sock 0).hasfullbuffer = true)) (by decide +kernel) ?_
  rintro _ _ - - ⟨full, outcomeTest⟩
  obtain ⟨outcome, called, passed⟩ := (Option.any_eq_true _ _).mp outcomeTest
  exact ⟨full, outcome, called, of_decide_eq_true passed⟩

end Socket

end Xv6
