import Xv6.SocketSend

/-!
# What the blocked calls wait for

One channel per slot serves the listener of the slot, the senders that wait for
room in it and the receivers that wait for a message from it.  Every event that
clears the flag of an open slot wakes its sleepers, so no `send` is stranded.  A
`recv` sleeps on the peer it looked up, while a `send` wakes the slot it sends
from, and the two need not be the same socket.
-/

namespace Xv6

namespace Socket

open LabelledRun

variable {Proc : Type}

/-- The senders asleep on a slot find its flag set. -/
def SendersAwaitFull (world : World Proc) : Prop :=
  ∀ process chan, (world.proc process).AsleepInSend chan →
    (world.stable.sock chan).hasfullbuffer = true

/-- Every process asleep in a call sleeps on an open slot; in `listen` this is
its own listening socket, and in `send` a socket with a full buffer. -/
structure SleepersAwaited (world : World Proc) : Prop where
  isOpen : ∀ process chan frame, world.proc process = .sleeping chan frame →
    world.stable.IsOpen chan
  listens : ∀ process chan lport slot,
    world.proc process = .sleeping chan (.listen lport slot) →
      chan = slot ∧ (world.stable.sock chan).owner = some process ∧
        (world.stable.sock chan).state = .listening
  full : SendersAwaitFull world

/-- The process is asleep in a `recv` on its socket `loc`. -/
def ProcState.AwaitsData (loc : Slot) : ProcState → Prop
  | .sleeping _ (.recv waiting _ _) => waiting = loc
  | _ => False

/-- The receivers that are asleep have an empty buffer. -/
def ReceiversAwaitData (world : World Proc) : Prop :=
  ∀ process loc, (world.proc process).AwaitsData loc →
    (world.stable.sock loc).hasfullbuffer = false

instance (loc : Slot) : DecidablePred (ProcState.AwaitsData loc)
  | .sleeping _ (.recv _ _ _) => inferInstanceAs (Decidable (_ = _))
  | .sleeping _ (.listen _ _) | .sleeping _ (.send _ _ _ _) | .user | .runnable _ => .isFalse id

instance [Fintype Proc] (world : World Proc) : Decidable (ReceiversAwaitData world) :=
  inferInstanceAs (Decidable (∀ _ _, _ → _))

variable {chan : Slot} {world : World Proc} {process : Proc} {frame : Frame} {label : Label Proc}
  {outcome : Outcome Proc}

theorem ProcState.asleepInSend_iff {state : ProcState} :
    state.AsleepInSend chan ↔
      ∃ loc rem data n, state = .sleeping chan (.send loc rem data n) := by
  constructor
  · intro asleep
    match state, asleep with
    | .sleeping _ (.send loc rem data n), same =>
      obtain rfl : _ = chan := same
      exact ⟨loc, rem, data, n, rfl⟩
  · rintro ⟨loc, rem, data, n, rfl⟩
    rfl

theorem ProcState.awaitsData_iff {loc : Slot} {state : ProcState} :
    state.AwaitsData loc ↔ ∃ chan rem n, state = .sleeping chan (.recv loc rem n) := by
  constructor
  · intro asleep
    match state, asleep with
    | .sleeping chan (.recv _ rem n), same =>
      obtain rfl : _ = loc := same
      exact ⟨chan, rem, n, rfl⟩
  · rintro ⟨chan, rem, n, rfl⟩
    rfl

theorem Consistent.isOpen_of_sleeping (consistent : Consistent world)
    (asleep : world.proc process = .sleeping chan frame) : world.stable.IsOpen chan := by
  have owed := consistent.frames process
  rw [asleep] at owed
  cases frame with
  | listen lport slot =>
    obtain ⟨rfl, -, listening, -⟩ := owed
    simp [SockTable.IsOpen, listening]
  | send loc rem data n =>
    obtain ⟨rfl, -, connected, -⟩ := owed
    simp [SockTable.IsOpen, connected]
  | recv loc rem n =>
    obtain ⟨rfl, -, connected, -⟩ := owed
    simp [SockTable.IsOpen, connected]

variable [DecidableEq Proc]

theorem Effect.awake (effect : Effect world label outcome) : world.Awake label.actor := by
  intro chan frame asleep
  cases effect with
  | stored ready | sendReset ready => exact ready.awake chan frame asleep
  | delivered ready | recvReset ready => exact ready.awake chan frame asleep
  | accepted woken => simp [Label.actor, woken] at asleep
  | refused idle | listened idle | connected idle | sendBlocked idle | recvBlocked idle
  | disconnected idle | exited idle => simp [Label.actor, idle] at asleep

theorem Effect.user_of_user (effect : Effect world label outcome) (other : process ≠ label.actor)
    (idle : outcome.world.proc process = .user) : world.proc process = .user := by
  have entered := world.entered_proc_of_ne other
  cases effect with
  | refused => exact idle
  | listened => exact (World.sleep_proc_of_ne _ _ _ other).symm.trans idle
  | sendBlocked | recvBlocked => exact (world.sleep_proc_of_ne _ _ other).symm.trans idle
  | accepted => exact entered.symm.trans idle
  | connected => exact ProcState.wakeup1_eq_user.mp idle
  | stored | delivered =>
    rw [← entered]
    exact ProcState.wakeup1_eq_user.mp idle
  | sendReset =>
    rw [← entered]
    exact ProcState.wakeup1_eq_user.mp idle
  | recvReset =>
    rw [← entered]
    exact ProcState.wakeup1_eq_user.mp (ProcState.wakeup1_eq_user.mp idle)
  | disconnected => exact ProcState.wakeup1_eq_user.mp idle
  | exited =>
    by_contra busy
    refine World.closeprocsocksLoop_invariant (fun current => current.proc process ≠ .user)
      ?_ nsock busy idle
    intro current slot stillBusy _ _ woken
    exact stillBusy (ProcState.wakeup1_eq_user.mp woken)

theorem Effect.sleeper_after (effect : Effect world label outcome)
    (asleep : world.proc process = .sleeping chan frame) :
    outcome.world.proc process = .sleeping chan frame ∧
        (∀ event ∈ outcome.events, event.signals ≠ some chan) ∨
      outcome.world.proc process = .runnable frame := by
  have other : process ≠ label.actor := by
    rintro rfl
    exact effect.awake chan frame asleep
  cases after : outcome.world.proc process with
  | user =>
    rw [effect.user_of_user other after] at asleep
    cases asleep
  | sleeping afterChan afterFrame =>
    obtain ⟨before, quiet⟩ := effect.accounted.asleep process _ _ other after
    obtain ⟨rfl, rfl⟩ := ProcState.sleeping.inj (before.symm.trans asleep)
    exact .inl ⟨rfl, quiet⟩
  | runnable afterFrame =>
    rcases effect.accounted.woken process _ other after with
      already | ⟨wokenChan, event, before, -⟩
    · cases already.symm.trans asleep
    · grind

/-- Whatever clears the flag of a connected socket wakes its sleepers. -/
theorem Effect.signals_of_clears (effect : Effect world label outcome) {slot : Slot}
    (isOpen : world.stable.IsOpen slot) {event : Event} (logged : event ∈ outcome.events)
    (clears : event.fills slot = some false) : event.signals = some slot := by
  cases event with
  | alloc opened port =>
    obtain rfl : opened = slot := by simpa [Event.fills] using clears
    exact absurd isOpen (effect.of_alloc logged).1
  | pair listener client port =>
    have touched : listener = slot ∨ client = slot := by
      by_contra apart
      simp [Event.fills, apart] at clears
    rcases touched with rfl | rfl
    · rfl
    · exact absurd isOpen (effect.of_pair logged).2
  | store loc rem => simp [Event.fills] at clears
  | deliver loc =>
    obtain rfl : loc = slot := by simpa [Event.fills] using clears
    rfl
  | remove removed state =>
    obtain rfl : removed = slot := by simpa [Event.fills] using clears
    rfl

/-- How the moving process can end up asleep: it listens, it found the buffer
it wants to fill full, or its own buffer empty. -/
theorem Effect.actor_asleep (effect : Effect world label outcome) (consistent : Consistent world)
    (asleep : outcome.world.proc label.actor = .sleeping chan frame) :
    (∃ lport, frame = .listen lport chan) ∨
      (∃ loc data n, frame = .send loc chan data n ∧
        (outcome.world.stable.sock chan).hasfullbuffer = true) ∨
      ∃ loc n, frame = .recv loc chan n ∧
        (outcome.world.stable.sock loc).hasfullbuffer = false := by
  cases effect with
  | listened =>
    obtain ⟨rfl, rfl⟩ := by simpa [Label.actor] using asleep
    exact .inl ⟨_, rfl⟩
  | sendBlocked _ _ full =>
    obtain ⟨rfl, rfl⟩ := by simpa [Label.actor] using asleep
    exact .inr (.inl ⟨_, _, _, rfl, full⟩)
  | recvBlocked _ _ empty =>
    obtain ⟨rfl, rfl⟩ := by simpa [Label.actor] using asleep
    exact .inr (.inr ⟨_, _, rfl, empty⟩)
  | refused idle => simp [retsockfunc, Label.actor, idle] at asleep
  | accepted => simp [retsockfunc] at asleep
  | connected idle | disconnected idle => simp [Label.actor, idle, ProcState.wakeup1] at asleep
  | stored | sendReset | delivered | recvReset => simp [ProcState.wakeup1] at asleep
  | @exited process idle =>
    have stillIdle := consistent.exit_invariant idle
      (fun current => current.proc process = .user)
      (fun _ idle _ _ _ => ProcState.wakeup1_eq_user.mpr idle) idle
    simp [Label.actor, exit, stillIdle.2] at asleep

/-! ## Senders and listeners -/

/-- A sender falls asleep on a full buffer, and as long as it sleeps nothing
clears the flag. -/
theorem Effect.senders_await_full (effect : Effect world label outcome)
    (consistent : Consistent world) (awaited : SendersAwaitFull world) :
    SendersAwaitFull outcome.world := by
  intro process chan inSend
  obtain ⟨loc, rem, data, n, asleep⟩ := ProcState.asleepInSend_iff.mp inSend
  by_cases actor : process = label.actor
  · subst actor
    rcases effect.actor_asleep consistent asleep with
      ⟨lport, same⟩ | ⟨_, _, _, -, full⟩ | ⟨_, _, same, -⟩
    · cases same
    · exact full
    · cases same
  · obtain ⟨before, quiet⟩ := effect.accounted.asleep process _ _ actor asleep
    have full : (world.stable.sock chan).hasfullbuffer = true :=
      awaited process chan (ProcState.asleepInSend_iff.mpr ⟨loc, rem, data, n, before⟩)
    rw [effect.accounted.flag chan, full]
    apply filled_true_of_never_cleared
    intro event logged clears
    exact quiet event logged
      (effect.signals_of_clears (consistent.isOpen_of_sleeping before) logged clears)

/-- Every state of every run: sleepers sleep on open slots, listeners on their
own listening socket, senders on a socket with a full buffer. -/
theorem sleepers_awaited_throughout {trace : List (World Proc × Label Proc)}
    {finish : World Proc} (run : SockRun trace finish) :
    Throughout SleepersAwaited trace finish := by
  have kept := run.always (fun world : World Proc => Consistent world ∧ SendersAwaitFull world)
    ⟨consistent_initial, fun _ _ asleep => asleep.elim⟩ (by
      rintro world label next ⟨consistent, awaited⟩ stepped
      obtain ⟨outcome, moved, rfl⟩ := transition_of_step stepped
      have effect := effect_of_transition moved
      exact ⟨effect.consistent consistent, effect.senders_await_full consistent awaited⟩)
  have awaited : ∀ world : World Proc, Consistent world ∧ SendersAwaitFull world →
      SleepersAwaited world := by
    rintro world ⟨consistent, full⟩
    refine ⟨fun process chan frame => consistent.isOpen_of_sleeping, ?_, full⟩
    intro process chan lport slot asleep
    have owed := consistent.frames process
    rw [asleep] at owed
    obtain ⟨rfl, owned, listening, -⟩ := owed
    exact ⟨rfl, owned, listening⟩
  exact ⟨fun entry member => awaited _ (kept.1 entry member), awaited _ kept.2⟩

/-- No blocked call is stranded: sleepers wait for something that has not
happened yet, and whoever drains or closes a socket makes every process asleep
on it runnable. -/
theorem blocked_calls_never_stranded {trace : List (World Proc × Label Proc)}
    {finish : World Proc} (run : SockRun trace finish) :
    Throughout SleepersAwaited trace finish ∧
      ∀ entry ∈ trace, ∀ next, step entry.1 entry.2 = some next → ∀ slot,
        (.deliver slot ∈ events entry.1 entry.2 ∨
          ∃ state, .remove slot state ∈ events entry.1 entry.2) →
        ∀ process frame, entry.1.proc process = .sleeping slot frame →
          next.proc process = .runnable frame := by
  refine ⟨sleepers_awaited_throughout run, ?_⟩
  rintro ⟨world, label⟩ member next stepped slot drained process frame asleep
  obtain ⟨outcome, moved, rfl⟩ := transition_of_step stepped
  simp only [events_eq moved] at drained
  rcases (effect_of_transition moved).sleeper_after asleep with ⟨-, quiet⟩ | woken
  · rcases drained with delivered | ⟨state, removed⟩
    · exact absurd rfl (quiet _ delivered)
    · exact absurd rfl (quiet _ removed)
  · exact woken

/-- The client blocks in its second `send`, on the full buffer of the server. -/
theorem blocked_send_awaits_room :
    ∃ (trace : List (World (Fin 3) × Label (Fin 3))) (finish : World (Fin 3)),
      SockRun trace finish ∧
        trace.map Prod.snd = handshake ++ [.call 1 (.send 127 messageA 2),
          .call 1 (.send 127 messageA 2)] ∧
        (finish.proc 1).AsleepInSend 0 ∧ (finish.stable.sock 0).hasfullbuffer = true := by
  refine exists_run_of_test (fun _ finish => (finish.proc 1).AsleepInSend 0) (by decide +kernel) ?_
  exact fun _ _ run _ asleep => ⟨asleep, (blocked_calls_never_stranded run).1.2.full 1 0 asleep⟩

/-! ## Receivers -/

/-- If the segment is a `send` that copies into a socket, then a receiver
asleep on that socket waits for the port of the sender. -/
def StoresReachReceiver (world : World Proc) (label : Label Proc) : Prop :=
  ∀ loc rem data n, SendReady world label loc rem data n →
    world.stable.getsock (world.stable.sock loc).rPort ≠ none →
      ∀ process, (world.proc process).AwaitsData rem →
        (world.stable.sock rem).rPort = (world.stable.sock loc).lPort

/-- A `send` that goes on and still finds a socket at its remote port stores. -/
theorem SendReady.stores {loc rem : Slot} {data : CStr} {n : Int}
    (ready : SendReady world label loc rem data n)
    (found : world.stable.getsock (world.stable.sock loc).rPort ≠ none) :
    events world label = [.store loc rem] := by
  obtain ⟨peer, found⟩ := Option.ne_none_iff_exists'.mp found
  cases ready with
  | direct idle passed empty =>
    simp [events, transition, idle, Call.run, send, passed, empty, sendResume, found]
  | resumed woken =>
    simp [events, transition, woken, Frame.run, sendResume, found]

/-- The receivers keep waiting for data exactly when the segment does not
store past a receiver that waits for somebody else. -/
theorem Effect.receivers_await_data_iff (effect : Effect world label outcome)
    (moved : transition world label = some outcome) (consistent : Consistent world)
    (awaited : ReceiversAwaitData world) :
    ReceiversAwaitData outcome.world ↔ StoresReachReceiver world label := by
  have points : ∀ {process chan loc rem n},
      world.proc process = .sleeping chan (.recv loc rem n) →
        world.stable.IsOpen chan ∧ (world.stable.sock chan).lPort =
          (world.stable.sock loc).rPort := by
    intro process chan loc rem n asleep
    have owed := consistent.frames process
    rw [asleep] at owed
    obtain ⟨rfl, -, -, atPort⟩ := owed
    exact ⟨consistent.isOpen_of_sleeping asleep, atPort⟩
  constructor
  · intro stillAwaited loc rem data n ready found process waiting
    obtain ⟨chan, peer, m, asleep⟩ := ProcState.awaitsData_iff.mp waiting
    have logged : .store loc rem ∈ outcome.events := by
      rw [← events_eq moved, ready.stores found]
      exact List.mem_singleton_self _
    have filledNow : (outcome.world.stable.sock rem).hasfullbuffer = true := by
      obtain ⟨-, -, -, data, n, -, stored⟩ := effect.of_store logged
      rw [stored, SockTable.modify_sock_self]
      rfl
    -- The receiver cannot still be asleep, so the store has signalled its channel.
    rcases effect.sleeper_after asleep with ⟨after, -⟩ | woken
    · have empty := stillAwaited process rem (ProcState.awaitsData_iff.mpr ⟨_, _, _, after⟩)
      rw [filledNow] at empty
      cases empty
    · have other : process ≠ label.actor := by
        rintro rfl
        exact effect.awake _ _ asleep
      rcases effect.accounted.woken process _ other woken with
        already | ⟨wokenChan, event, before, member, on⟩
      · cases already.symm.trans asleep
      · obtain ⟨rfl, -⟩ := ProcState.sleeping.inj (before.symm.trans asleep)
        rw [(effect.of_store logged).1, List.mem_singleton] at member
        subst member
        obtain rfl : loc = wokenChan := Option.some.inj on
        exact (points asleep).2.symm
  · intro reach process loc waiting
    obtain ⟨chan, rem, n, asleep⟩ := ProcState.awaitsData_iff.mp waiting
    by_cases actor : process = label.actor
    · subst actor
      rcases effect.actor_asleep consistent asleep with
        ⟨lport, same⟩ | ⟨_, _, _, same, -⟩ | ⟨_, _, same, empty⟩
      · cases same
      · cases same
      · grind
    · obtain ⟨before, quiet⟩ := effect.accounted.asleep process _ _ actor asleep
      have waited := ProcState.awaitsData_iff.mpr ⟨chan, rem, n, before⟩
      rw [effect.accounted.flag loc, awaited process loc waited]
      by_contra full
      rcases filled_eq_true (Bool.not_eq_false _ ▸ full) with
        ⟨earlier, event, later, split, sets, -⟩ | ⟨contra, -⟩
      · obtain ⟨sender, rfl⟩ := Event.fills_eq_true sets
        have logged : .store sender loc ∈ outcome.events := by simp [split]
        obtain ⟨-, -, ⟨found, peer⟩, data, m, ready, -⟩ := effect.of_store logged
        have fromPeer := reach sender loc data m ready (by simp [peer]) process waited
        have senderOpen := (ready.holds consistent).isOpen
        have same : chan = sender := consistent.table.distinct chan sender (points before).1
          senderOpen ((points before).2.trans fromPeer)
        exact quiet _ logged (same ▸ rfl)
      · cases contra

/-- In all states of a run the receivers that are asleep have an empty buffer,
exactly if every `send` that fills the buffer of a waiting receiver comes from
the port this receiver waits for. -/
theorem receivers_await_data_throughout_iff {trace : List (World Proc × Label Proc)}
    {finish : World Proc} (run : SockRun trace finish) :
    Throughout ReceiversAwaitData trace finish ↔
      ∀ entry ∈ trace, StoresReachReceiver entry.1 entry.2 := by
  apply run.throughout_iff Consistent _ StoresReachReceiver consistent_initial
  · intro process loc waiting
    exact waiting.elim
  · exact consistent_step
  · intro world label next consistent awaited stepped
    obtain ⟨outcome, moved, rfl⟩ := transition_of_step stepped
    exact (effect_of_transition moved).receivers_await_data_iff moved consistent awaited

/-- The server waits in `recv`, and its client sends. -/
theorem receiver_woken_by_peer :
    ∃ (trace : List (World (Fin 3) × Label (Fin 3))) (finish : World (Fin 3)),
      SockRun trace finish ∧
        trace.map Prod.snd =
          handshake ++ [.call 0 (.recv 10 4), .call 1 (.send 127 messageA 2)] ∧
        (∀ entry ∈ trace, StoresReachReceiver entry.1 entry.2) ∧
        (finish.stable.sock 0).hasfullbuffer = true ∧ ¬ (finish.proc 0).AwaitsData 0 := by
  refine exists_run_of_test (fun trace finish =>
    ((∀ entry ∈ trace, ReceiversAwaitData entry.1) ∧ ReceiversAwaitData finish) ∧
      (finish.stable.sock 0).hasfullbuffer = true ∧ ¬ (finish.proc 0).AwaitsData 0)
    (by decide +kernel) ?_
  rintro _ _ run - ⟨awaited, rest⟩
  exact ⟨(receivers_await_data_throughout_iff run).mp awaited, rest⟩

/-- The server of port 10 closes, and a new pair meets at this port.  The old
client still points to it: its `send` fills the buffer of the new server, which
goes on sleeping on its own client. -/
theorem receiver_sleeps_on_full_buffer :
    ∃ (trace : List (World (Fin 3) × Label (Fin 3))) (finish : World (Fin 3)),
      SockRun trace finish ∧
        trace.map Prod.snd = handshake ++ [.call 0 (.disconnect 10), .call 2 (.listen 10),
          .call 0 (.connect 10 localHost), .resume 2, .call 2 (.recv 10 4),
          .call 1 (.send 127 messageA 2)] ∧
        (finish.proc 2).AwaitsData 0 ∧ (finish.stable.sock 0).hasfullbuffer = true :=
  exists_run_of_decide (by decide +kernel)

end Socket

end Xv6
