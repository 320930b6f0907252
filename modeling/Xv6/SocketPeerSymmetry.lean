import Xv6.SocketConsistency

/-!
# Peer symmetry

A connection is only a pair of port numbers.  `connect` sets both sides, but a
close removes one side and leaves the other pointing to a port that may be given
to a new socket.  The peer found through a remote port points back throughout a
run exactly if no `listen` or `connect` of the run opens a socket at a port that a
connected socket still names as its remote port.
-/

namespace Xv6

namespace Socket

open LabelledRun

variable {Proc : Type}

namespace SockTable

/-- Whatever socket a connected socket finds at its remote port is connected
back to it. -/
def PeerSymmetric (table : SockTable Proc) : Prop :=
  ∀ slot peer, (table.sock slot).state = .connected →
    table.getsock (table.sock slot).rPort = some peer →
      (table.sock peer).state = .connected ∧
        (table.sock peer).rPort = (table.sock slot).lPort

/-- No connected socket names `port` as its remote port. -/
def Unreferenced (table : SockTable Proc) (port : Int) : Prop :=
  ∀ slot, (table.sock slot).state = .connected → (table.sock slot).rPort ≠ port

end SockTable

variable {table : SockTable Proc}

/-- In a valid table the lookup may be replaced by any socket at the port. -/
theorem TableInvariant.peerSymmetric_iff (holds : TableInvariant table) :
    table.PeerSymmetric ↔
      ∀ slot peer, (table.sock slot).state = .connected → table.IsOpen peer →
        (table.sock peer).lPort = (table.sock slot).rPort →
          (table.sock peer).state = .connected ∧
            (table.sock peer).rPort = (table.sock slot).lPort := by
  constructor
  · intro symmetric slot peer connected isOpen atPort
    exact symmetric slot peer connected
      ((SockTable.getsock_eq_some_iff holds.distinct (holds.remote_valid slot connected)).mpr
        ⟨isOpen, atPort⟩)
  · intro agree slot peer connected found
    obtain ⟨-, isOpen, atPort⟩ := SockTable.getsock_spec found
    exact agree slot peer connected isOpen atPort

theorem SockTable.PeerSymmetric.congr {next : SockTable Proc} (symmetric : table.PeerSymmetric)
    (links : ∀ slot, SameLink (next.sock slot) (table.sock slot)) : next.PeerSymmetric := by
  intro slot peer connected found
  rw [SockTable.getsock_congr (fun slot => (links slot).1) (fun slot => (links slot).2.2.1),
    (links slot).2.2.2] at found
  rw [(links peer).1, (links peer).2.2.2, (links slot).2.2.1]
  exact symmetric slot peer ((links slot).1.symm.trans connected) found

theorem SockTable.PeerSymmetric.drop (symmetric : table.PeerSymmetric)
    (holds : TableInvariant table) {slot : Slot} (isOpen : table.IsOpen slot) :
    (table.dropsock slot).PeerSymmetric := by
  have elsewhere : ∀ other, (table.dropsock slot).IsOpen other →
      (table.dropsock slot).sock other = table.sock other := by
    intro other stillOpen
    apply table.dropsock_sock_of_ne
    rintro rfl
    simp [SockTable.IsOpen, resetsock, setsockvalue] at stillOpen
  rw [(holds.drop isOpen).peerSymmetric_iff]
  rw [holds.peerSymmetric_iff] at symmetric
  intro first second connected secondOpen atPort
  have firstSame := elsewhere first (by simp [SockTable.IsOpen, connected])
  have secondSame := elsewhere second secondOpen
  rw [SockTable.IsOpen, secondSame] at secondOpen
  rw [firstSame] at connected
  rw [firstSame, secondSame] at atPort ⊢
  exact symmetric first second connected secondOpen atPort

/-- A new listener keeps the symmetry exactly when nobody points to its port. -/
theorem SockTable.PeerSymmetric.listen_iff (symmetric : table.PeerSymmetric)
    (holds : TableInvariant table) (process : Proc) {lport : Int} {slot : Slot}
    (valid : ValidPort lport) (unused : table.getsock lport = none) (free : ¬ table.IsOpen slot) :
    (table.listenTable process lport slot).PeerSymmetric ↔ table.Unreferenced lport := by
  rw [(holds.listen process valid unused free).peerSymmetric_iff]
  rw [holds.peerSymmetric_iff] at symmetric
  have elsewhere : ∀ other, other ≠ slot →
      (table.listenTable process lport slot).sock other = table.sock other :=
    fun other different => table.listenTable_sock_of_ne process lport different
  have here := table.listenTable_sock_self process lport slot
  constructor
  · intro agree other connected points
    have different : other ≠ slot := by
      rintro rfl
      exact free (by simp [SockTable.IsOpen, connected])
    have back := agree other slot (by rw [elsewhere other different]; exact connected)
      (by simp [SockTable.IsOpen, setsockvalue])
      (by rw [here, elsewhere other different, points]; rfl)
    rw [here] at back
    cases back.1
  · intro unreferenced first second connected secondOpen atPort
    have firstOld : first ≠ slot := by
      rintro rfl
      rw [here] at connected
      cases connected
    rw [elsewhere first firstOld] at connected atPort ⊢
    have secondOld : second ≠ slot := by
      rintro rfl
      rw [here] at atPort
      exact unreferenced first connected atPort.symm
    rw [SockTable.IsOpen, elsewhere second secondOld] at secondOpen
    rw [elsewhere second secondOld] at atPort ⊢
    exact symmetric first second connected secondOpen atPort

theorem SockTable.PeerSymmetric.connect_iff (symmetric : table.PeerSymmetric)
    (holds : TableInvariant table) (process : Proc) {lport : Int} {loc rem : Slot}
    (valid : ValidPort lport) (unused : table.getsock lport = none) (free : ¬ table.IsOpen loc)
    (listening : (table.sock rem).state = .listening) :
    (table.connectTable process lport loc rem).PeerSymmetric ↔ table.Unreferenced lport := by
  rw [(holds.connect process valid unused free listening).peerSymmetric_iff]
  rw [holds.peerSymmetric_iff] at symmetric
  have different := listener_ne_client listening free
  have remOpen : table.IsOpen rem := by simp [SockTable.IsOpen, listening]
  have client := table.connectTable_sock_client process lport different
  have listener := table.connectTable_sock_listener process lport different
  have elsewhere : ∀ other, other ≠ loc → other ≠ rem →
      (table.connectTable process lport loc rem).sock other = table.sock other :=
    fun other notClient notListener =>
      table.connectTable_sock_of_ne process lport notClient notListener
  have unusedPort := (SockTable.getsock_eq_none_iff valid).mp unused
  have connectedOld : ∀ other, (table.sock other).state = .connected →
      other ≠ loc ∧ other ≠ rem := by
    intro other connected
    constructor
    · rintro rfl
      exact free (by simp [SockTable.IsOpen, connected])
    · grind
  constructor
  · intro agree other connected points
    obtain ⟨notClient, notListener⟩ := connectedOld other connected
    have back := agree other loc (by rw [elsewhere other notClient notListener]; exact connected)
      (by simp [SockTable.IsOpen, client, setsockvalue])
      (by rw [client, elsewhere other notClient notListener, points]; rfl)
    rw [client, elsewhere other notClient notListener] at back
    -- the new client points to the listener, whose port no other socket has
    have samePort : (table.sock rem).lPort = (table.sock other).lPort := back.2
    exact notListener (holds.distinct other rem (by simp [SockTable.IsOpen, connected]) remOpen
      samePort.symm)
  · intro unreferenced first second connected secondOpen atPort
    by_cases firstClient : first = loc
    · subst firstClient
      by_cases secondListener : second = rem
      · subst secondListener
        simp [client, listener, setsockvalue]
      · by_cases secondClient : second = first
        · grind
        · have secondSame := elsewhere second secondClient secondListener
          rw [SockTable.IsOpen, secondSame] at secondOpen
          rw [secondSame, client] at atPort
          exact absurd (holds.distinct second rem secondOpen remOpen atPort) secondListener
    · by_cases firstListener : first = rem
      · subst firstListener
        have port : ((table.connectTable process lport loc first).sock first).rPort = lport := by
          simp [listener]
        rw [port] at atPort
        by_cases secondClient : second = loc
        · subst secondClient
          simp [client, listener, setsockvalue]
        · grind [SockTable.IsOpen]
      · have firstSame := elsewhere first firstClient firstListener
        rw [firstSame] at connected atPort ⊢
        have secondNotClient : second ≠ loc := by
          rintro rfl
          rw [client] at atPort
          exact unreferenced first connected atPort.symm
        have secondNotListener : second ≠ rem := by
          grind
        have secondSame := elsewhere second secondNotClient secondNotListener
        rw [SockTable.IsOpen, secondSame] at secondOpen
        rw [secondSame] at atPort ⊢
        exact symmetric first second connected secondOpen atPort

variable [DecidableEq Proc]

/-- If the segment opens a socket, then at a port no connected socket names as
its remote port. -/
def OpensUnreferenced (world : World Proc) (label : Label Proc) : Prop :=
  ∀ slot port, Event.alloc slot port ∈ events world label → world.stable.Unreferenced port

/-- Every other segment keeps the symmetry; one that opens a socket keeps it
exactly when nobody points to the port. -/
theorem Effect.peerSymmetric_iff {world : World Proc} {label : Label Proc}
    {outcome : Outcome Proc} (effect : Effect world label outcome) (consistent : Consistent world)
    (symmetric : world.stable.PeerSymmetric) :
    outcome.world.stable.PeerSymmetric ↔
      ∀ slot port, Event.alloc slot port ∈ outcome.events → world.stable.Unreferenced port := by
  have table := consistent.table
  cases effect with
  | refused | accepted => simpa [retsockfunc] using symmetric
  | sendBlocked | recvBlocked => simpa using symmetric
  | listened _ valid unused free => simpa using symmetric.listen_iff table _ valid unused free
  | connected _ _ listening valid unused free =>
    simpa using symmetric.connect_iff table _ valid unused free listening
  | stored => simpa using symmetric.congr (sameLink_modify (sameLink_storeData _ _))
  | delivered => simpa using symmetric.congr (sameLink_modify sameLink_emptyBuffer)
  | sendReset ready _ => simpa using symmetric.drop table (ready.holds consistent).isOpen
  | @recvReset _ loc _ ready _ =>
    have links : ∀ slot, SameLink ((world.stable.modify loc emptyBuffer).sock slot)
        (world.stable.sock slot) :=
      sameLink_modify sameLink_emptyBuffer
    have held := (ready.holds consistent).of_sameLink (links loc)
    simpa using (symmetric.congr links).drop (table.congr links rfl) held.isOpen
  | disconnected _ found _ =>
    simpa using symmetric.drop table (SockTable.getsock_spec found).2.1
  | @exited process idle =>
    have closed := consistent.exit_invariant idle (fun world => world.stable.PeerSymmetric)
      (fun current _ symmetric isOpen _ => symmetric.drop current.table isOpen) symmetric
    constructor
    · intro _ slot port opened
      obtain ⟨_, _, removal, _⟩ := World.closeprocsocksLoop_events _ opened
      cases removal
    · exact fun _ => closed.2

/-- Peer symmetry holds throughout a run exactly if no segment of the run opens
a socket at a port that a connected socket names as its remote port. -/
theorem peerSymmetric_throughout_iff {trace : List (World Proc × Label Proc)}
    {finish : World Proc} (run : SockRun trace finish) :
    Throughout (fun world : World Proc => world.stable.PeerSymmetric) trace finish ↔
      ∀ entry ∈ trace, OpensUnreferenced entry.1 entry.2 := by
  apply run.throughout_iff Consistent _ OpensUnreferenced consistent_initial
  · intro slot peer connected
    simp [World.initial, SockTable.initial] at connected
  · exact consistent_step
  · intro world label next consistent symmetric stepped
    obtain ⟨outcome, moved, rfl⟩ := transition_of_step stepped
    rw [OpensUnreferenced, events_eq moved]
    exact (effect_of_transition moved).peerSymmetric_iff consistent symmetric

omit [DecidableEq Proc] in
instance (table : SockTable Proc) : Decidable table.PeerSymmetric :=
  inferInstanceAs (Decidable (∀ _ _, _ → _))

/-- After a close, a third process opens a socket at an unrelated port. -/
theorem peerSymmetric_after_close :
    ∃ (trace : List (World (Fin 3) × Label (Fin 3))) (finish : World (Fin 3)),
      SockRun trace finish ∧
        trace.map Prod.snd =
          handshake ++ [.call 1 (.disconnect 127), .call 2 (.listen 20)] ∧
        (∀ entry ∈ trace, OpensUnreferenced entry.1 entry.2) ∧
        finish.stable.PeerSymmetric := by
  refine exists_run_of_test (fun trace finish =>
    (∀ entry ∈ trace, entry.1.stable.PeerSymmetric) ∧ finish.stable.PeerSymmetric)
    (by decide +kernel) ?_
  exact fun _ _ run _ symmetric =>
    ⟨(peerSymmetric_throughout_iff run).mp symmetric, symmetric.2⟩

/-- The client at port 127 closes while the server still points to it, and a
third process listens at port 127: the server's peer is now a stranger. -/
theorem peerSymmetric_broken_by_reuse :
    ∃ (trace : List (World (Fin 3) × Label (Fin 3))) (finish : World (Fin 3)),
      SockRun trace finish ∧
        trace.map Prod.snd =
          handshake ++ [.call 1 (.disconnect 127), .call 2 (.listen 127)] ∧
        (finish.stable.sock 0).state = .connected ∧
        finish.stable.getsock (finish.stable.sock 0).rPort = some 1 ∧
        (finish.stable.sock 1).state = .listening ∧
        ¬ finish.stable.PeerSymmetric := by
  refine exists_run_of_test (fun _ finish => (finish.stable.sock 0).state = .connected ∧
    finish.stable.getsock (finish.stable.sock 0).rPort = some 1 ∧
    (finish.stable.sock 1).state = .listening) (by decide +kernel) ?_
  rintro _ _ - - ⟨connected, found, listening⟩
  refine ⟨connected, found, listening, ?_⟩
  intro symmetric
  have back := (symmetric 0 1 connected found).1
  rw [listening] at back
  cases back

end Socket

end Xv6
