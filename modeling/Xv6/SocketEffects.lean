import Xv6.SocketCalls

/-!
# The effects of one segment

Every segment of the socket calls has one of a few effects on the world.
`Effect` lists them with the tests the code has passed on the way, and
`effect_of_transition` shows that the list is complete.  Invariants are proved
effect by effect and never unfold the calls.
-/

namespace Xv6

namespace Socket

variable {Proc : Type}

namespace SockTable

/-- The table after `listen` has opened `slot`. -/
def listenTable (table : SockTable Proc) (myproc : Proc) (lport : Int) (slot : Slot) :
    SockTable Proc :=
  (table.opensock myproc lport slot).modify slot fun socket =>
    { socket with state := .listening }

/-- The table after `connect` has opened `loc` and paired it with `rem`. -/
def connectTable (table : SockTable Proc) (myproc : Proc) (lport : Int) (loc rem : Slot) :
    SockTable Proc :=
  pairsocks (table.opensock myproc lport loc) loc rem

@[simp]
theorem listenTable_sock_self (table : SockTable Proc) (myproc : Proc) (lport : Int)
    (slot : Slot) :
    (table.listenTable myproc lport slot).sock slot =
      setsockvalue table.nextsid .listening (some myproc) lport invPort false [] true
        (table.sock slot) := by
  simp [listenTable, setsockvalue]

theorem listenTable_sock_of_ne (table : SockTable Proc) (myproc : Proc) (lport : Int)
    {slot other : Slot} (different : other ≠ slot) :
    (table.listenTable myproc lport slot).sock other = table.sock other := by
  rw [listenTable, modify_sock_of_ne _ _ different, opensock_sock_of_ne _ _ _ different]

variable {loc rem : Slot}

theorem connectTable_sock_client (table : SockTable Proc) (myproc : Proc) (lport : Int)
    (different : rem ≠ loc) :
    (table.connectTable myproc lport loc rem).sock loc =
      setsockvalue table.nextsid .connected (some myproc) lport (table.sock rem).lPort false []
        true (table.sock loc) := by
  rw [connectTable, pairsocks, modify_sock_of_ne _ _ different.symm, modify_sock_self,
    opensock_sock_of_ne _ _ _ different, opensock_sock_self]
  simp [setsockvalue]

theorem connectTable_sock_listener (table : SockTable Proc) (myproc : Proc) (lport : Int)
    (different : rem ≠ loc) :
    (table.connectTable myproc lport loc rem).sock rem =
      { table.sock rem with state := .connected, rPort := lport, hasfullbuffer := false } := by
  rw [connectTable, pairsocks, modify_sock_self, modify_sock_of_ne _ _ different,
    opensock_sock_of_ne _ _ _ different, opensock_sock_self]
  simp [setsockvalue]

theorem connectTable_sock_of_ne (table : SockTable Proc) (myproc : Proc) (lport : Int)
    {other : Slot} (notClient : other ≠ loc) (notListener : other ≠ rem) :
    (table.connectTable myproc lport loc rem).sock other = table.sock other := by
  rw [connectTable, pairsocks, modify_sock_of_ne _ _ notListener,
    modify_sock_of_ne _ _ notClient, opensock_sock_of_ne _ _ _ notClient]

end SockTable

theorem getsock_modify_emptyBuffer (table : SockTable Proc) (loc : Slot) (port : Int) :
    (table.modify loc emptyBuffer).getsock port = table.getsock port := by
  apply SockTable.getsock_congr <;> intro slot <;> by_cases same : slot = loc
  all_goals simp [SockTable.modify, same, emptyBuffer]

variable [DecidableEq Proc]

variable {world : World Proc} {process : Proc} {loc : Slot} {label : Label Proc}
  {outcome : Outcome Proc}

theorem World.setProc_eq_self {state : ProcState} (same : world.proc process = state) :
    world.setProc process state = world := by
  simp [World.setProc, ← same]

/-- What the checks of `send` and `recv` establish. -/
theorem checkPair_spec {myproc : Proc} {lport : Int} {table : SockTable Proc} {rem : Slot}
    (passed : checkPair myproc lport table = .ok (loc, rem)) :
    table.getsock lport = some loc ∧
      (table.sock loc).owner = some myproc ∧
      (table.sock loc).state = .connected ∧
      table.getsock (table.sock loc).rPort = some rem ∧
      (table.sock rem).state = .connected := by
  unfold checkPair at passed
  split at passed
  · simp at passed
  split at passed
  · simp at passed
  rename_i here found
  split at passed
  · simp at passed
  rename_i owned
  split at passed
  · simp at passed
  rename_i linked
  split at passed
  · simp at passed
  rename_i there peer
  split at passed
  · simp at passed
  rename_i peerLinked
  obtain ⟨rfl, rfl⟩ := passed
  exact ⟨found, not_not.mp owned, not_not.mp linked, peer, not_not.mp peerLinked⟩

theorem checkPair_error_neg {myproc : Proc} {lport : Int} {table : SockTable Proc} {code : Int}
    (failed : checkPair myproc lport table = .error code) : code < 0 := by
  unfold checkPair at failed
  repeat' split at failed
  all_goals first
    | (obtain rfl := Except.error.inj failed; decide)
    | cases failed

/-- The process is about to execute the part of `send` after its `sleep`,
without having slept or after having been woken. -/
inductive SendReady (world : World Proc) :
    Label Proc → Slot → Slot → CStr → Int → Prop
  | direct {process : Proc} {lport n : Int} {data : CStr} {loc rem : Slot} :
      world.proc process = .user → checkPair process lport world.stable = .ok (loc, rem) →
      (world.stable.sock rem).hasfullbuffer = false →
        SendReady world (.call process (.send lport data n)) loc rem data lport
  | resumed {process : Proc} {loc rem : Slot} {data : CStr} {n : Int} :
      world.proc process = .runnable (.send loc rem data n) →
        SendReady world (.resume process) loc rem data n

/-- The process is about to execute the part of `recv` after its `sleep`. -/
inductive RecvReady (world : World Proc) : Label Proc → Slot → Int → Prop
  | direct {process : Proc} {lport n : Int} {loc rem : Slot} :
      world.proc process = .user → checkPair process lport world.stable = .ok (loc, rem) →
      (world.stable.sock loc).hasfullbuffer = true →
        RecvReady world (.call process (.recv lport n)) loc n
  | resumed {process : Proc} {loc rem : Slot} {n : Int} :
      world.proc process = .runnable (.recv loc rem n) →
        RecvReady world (.resume process) loc n

/-- The world in which the moving process runs its segment. -/
def World.entered (world : World Proc) (label : Label Proc) : World Proc :=
  world.setProc label.actor .user

@[simp]
theorem World.entered_stable (world : World Proc) (label : Label Proc) :
    (world.entered label).stable = world.stable :=
  rfl

@[simp]
theorem World.entered_proc_self (world : World Proc) (label : Label Proc) :
    (world.entered label).proc label.actor = .user :=
  world.setProc_proc_self _ _

theorem World.entered_proc_of_ne (world : World Proc) (different : process ≠ label.actor) :
    (world.entered label).proc process = world.proc process :=
  world.setProc_proc_of_ne _ different

/-- The effects of a segment, with the tests passed on the way to each. -/
inductive Effect (world : World Proc) : Label Proc → Outcome Proc → Prop
  | refused {process : Proc} {call : Call} {code : Int} :
      world.proc process = .user → code < 0 →
        Effect world (.call process call) (retsockfunc world code)
  | listened {process : Proc} {lport : Int} {slot : Slot} :
      world.proc process = .user → ValidPort lport → world.stable.getsock lport = none →
      ¬ world.stable.IsOpen slot →
        Effect world (.call process (.listen lport))
          { world :=
              { world with
                stable := world.stable.listenTable process lport slot }.sleep
                  process slot (.listen lport slot)
            code := none, out := [], events := [.alloc slot lport] }
  | accepted {process : Proc} {lport : Int} {slot : Slot} :
      world.proc process = .runnable (.listen lport slot) →
        Effect world (.resume process) (retsockfunc (world.entered (.resume process)) 0)
  | connected {process : Proc} {rport : Int} {host : CStr} {loc rem : Slot} :
      world.proc process = .user → world.stable.getsock rport = some rem →
      (world.stable.sock rem).state = .listening →
      ValidPort world.stable.getfreeport →
      world.stable.getsock world.stable.getfreeport = none → ¬ world.stable.IsOpen loc →
        Effect world (.call process (.connect rport host))
          { world :=
              { world with
                stable := world.stable.connectTable process world.stable.getfreeport loc
                  rem }.wakeup rem
            code := some world.stable.getfreeport
            out := []
            events := [.alloc loc world.stable.getfreeport,
              .pair rem loc world.stable.getfreeport] }
  | sendBlocked {process : Proc} {lport n : Int} {data : CStr} {loc rem : Slot} :
      world.proc process = .user → checkPair process lport world.stable = .ok (loc, rem) →
      (world.stable.sock rem).hasfullbuffer = true →
        Effect world (.call process (.send lport data n))
          { world := world.sleep process rem (.send loc rem data lport)
            code := none, out := [], events := [] }
  | recvBlocked {process : Proc} {lport n : Int} {loc rem : Slot} :
      world.proc process = .user → checkPair process lport world.stable = .ok (loc, rem) →
      (world.stable.sock loc).hasfullbuffer = false →
        Effect world (.call process (.recv lport n))
          { world := world.sleep process rem (.recv loc rem n)
            code := none, out := [], events := [] }
  | stored {label : Label Proc} {loc rem found : Slot} {data : CStr} {n : Int} :
      SendReady world label loc rem data n →
      world.stable.getsock (world.stable.sock loc).rPort = some found →
        Effect world label
          { world :=
              { world.entered label with
                stable := world.stable.modify rem (storeData data n) }.wakeup loc
            code := some 0, out := [], events := [.store loc rem] }
  | sendReset {label : Label Proc} {loc rem : Slot} {data : CStr} {n : Int} :
      SendReady world label loc rem data n →
      world.stable.getsock (world.stable.sock loc).rPort = none →
        Effect world label
          { world := (world.entered label).removesock loc
            code := some eConnectionResetByRemote
            out := []
            events := [.remove loc (world.stable.sock loc).state] }
  | delivered {label : Label Proc} {loc found : Slot} {n : Int} :
      RecvReady world label loc n →
      world.stable.getsock (world.stable.sock loc).rPort = some found →
        Effect world label
          { world :=
              { world.entered label with
                stable := world.stable.modify loc emptyBuffer }.wakeup loc
            code := some 0
            out := deliveredBytes (world.stable.sock loc) n
            events := [.deliver loc] }
  | recvReset {label : Label Proc} {loc : Slot} {n : Int} :
      RecvReady world label loc n →
      world.stable.getsock (world.stable.sock loc).rPort = none →
        Effect world label
          { world :=
              ({ world.entered label with
                stable := world.stable.modify loc emptyBuffer }.wakeup loc).removesock loc
            code := some eConnectionResetByRemote
            out := deliveredBytes (world.stable.sock loc) n
            events := [.deliver loc, .remove loc (world.stable.sock loc).state] }
  | disconnected {process : Proc} {lport : Int} {loc : Slot} :
      world.proc process = .user → world.stable.getsock lport = some loc →
      (world.stable.sock loc).owner = some process →
        Effect world (.call process (.disconnect lport))
          { world := world.removesock loc
            code := some 0
            out := []
            events := [.remove loc (world.stable.sock loc).state] }
  | exited {process : Proc} :
      world.proc process = .user →
        Effect world (.call process .exit) (exit process world)

theorem World.entered_call {call : Call} (idle : world.proc process = .user) :
    world.entered (.call process call) = world :=
  World.setProc_eq_self idle

theorem listen_effect (lport : Int) (idle : world.proc process = .user) :
    Effect world (.call process (.listen lport)) (listen process lport world) := by
  unfold listen
  split
  · exact .refused idle (by decide)
  rename_i valid
  split
  · exact .refused idle (by decide)
  split
  · exact .refused idle (by decide)
  · rename_i slot table allocated
    obtain ⟨-, unused, free, rfl⟩ := SockTable.allocsock_spec allocated
    exact .listened idle (not_not.mp valid) unused free

theorem connect_effect (rport : Int) (host : CStr) (idle : world.proc process = .user) :
    Effect world (.call process (.connect rport host)) (connect process rport host world) := by
  unfold connect
  split
  · exact .refused idle (by decide)
  split
  · exact .refused idle (by decide)
  dsimp only
  split
  · exact .refused idle (by decide)
  split
  · exact .refused idle (by decide)
  rename_i rem found
  split
  · exact .refused idle (by decide)
  rename_i listening
  split
  · exact .refused idle (by decide)
  · rename_i loc table allocated
    obtain ⟨valid, unused, free, rfl⟩ := SockTable.allocsock_spec allocated
    exact .connected idle found (not_not.mp listening) valid unused free

theorem sendResume_effect {rem : Slot} {data : CStr} {n : Int}
    (ready : SendReady world label loc rem data n) :
    Effect world label (sendResume loc rem data n (world.entered label)) := by
  unfold sendResume
  simp only [World.entered_stable]
  cases found : world.stable.getsock (world.stable.sock loc).rPort with
  | none => exact .sendReset ready found
  | some peer => exact .stored ready found

theorem recvResume_effect {n : Int} (ready : RecvReady world label loc n) :
    Effect world label (recvResume loc n (world.entered label)) := by
  have remotePort : ((world.stable.modify loc emptyBuffer).sock loc).rPort =
      (world.stable.sock loc).rPort := by
    simp [emptyBuffer]
  have localState : ((world.stable.modify loc emptyBuffer).sock loc).state =
      (world.stable.sock loc).state := by
    simp [emptyBuffer]
  unfold recvResume
  simp only [World.entered_stable, World.wakeup, getsock_modify_emptyBuffer, remotePort,
    localState]
  cases found : world.stable.getsock (world.stable.sock loc).rPort with
  | none => exact .recvReset ready found
  | some peer => exact .delivered ready found

theorem send_effect (lport n : Int) (data : CStr) (idle : world.proc process = .user) :
    Effect world (.call process (.send lport data n)) (send process lport data lport world) := by
  unfold send
  split
  · rename_i code failed
    exact .refused idle (checkPair_error_neg failed)
  · rename_i loc rem passed
    split
    · rename_i full
      exact .sendBlocked idle passed full
    · rename_i empty
      have ready : SendReady world (.call process (.send lport data n)) loc rem data lport :=
        .direct idle passed (Bool.not_eq_true _ ▸ empty)
      simpa only [World.entered_call idle] using sendResume_effect ready

theorem recv_effect (lport n : Int) (idle : world.proc process = .user) :
    Effect world (.call process (.recv lport n)) (recv process lport n world) := by
  unfold recv
  split
  · rename_i code failed
    exact .refused idle (checkPair_error_neg failed)
  · rename_i loc rem passed
    split
    · rename_i empty
      exact .recvBlocked idle passed (Bool.not_eq_true _ ▸ empty)
    · rename_i full
      have ready : RecvReady world (.call process (.recv lport n)) loc n :=
        .direct idle passed (not_not.mp full)
      simpa only [World.entered_call idle] using recvResume_effect ready

theorem disconnect_effect (lport : Int) (idle : world.proc process = .user) :
    Effect world (.call process (.disconnect lport)) (disconnect process lport world) := by
  unfold disconnect
  split
  · exact .refused idle (by decide)
  split
  · exact .refused idle (by decide)
  rename_i loc found
  split
  · exact .refused idle (by decide)
  · rename_i owned
    exact .disconnected idle found (not_not.mp owned)

theorem call_effect (call : Call) (idle : world.proc process = .user) :
    Effect world (.call process call) (call.run process world) := by
  cases call with
  | listen lport => exact listen_effect lport idle
  | connect rport host => exact connect_effect rport host idle
  | send lport buf n => exact send_effect lport n buf idle
  | recv lport n => exact recv_effect lport n idle
  | disconnect lport => exact disconnect_effect lport idle
  | exit => exact .exited idle

theorem frame_effect {frame : Frame} (woken : world.proc process = .runnable frame) :
    Effect world (.resume process) (frame.run (world.entered (.resume process))) := by
  cases frame with
  | listen lport slot => exact .accepted woken
  | send loc rem data n => exact sendResume_effect (.resumed woken)
  | recv loc rem n => exact recvResume_effect (.resumed woken)

theorem transition_call_iff {call : Call} :
    transition world (.call process call) = some outcome ↔
      world.proc process = .user ∧ outcome = call.run process world := by
  grind [transition]

theorem transition_resume_iff :
    transition world (.resume process) = some outcome ↔
      ∃ frame, world.proc process = .runnable frame ∧
        outcome = frame.run (world.setProc process .user) := by
  grind [transition]

theorem effect_of_transition (moved : transition world label = some outcome) :
    Effect world label outcome := by
  cases label with
  | call process call =>
    obtain ⟨idle, rfl⟩ := transition_call_iff.mp moved
    exact call_effect call idle
  | resume process =>
    obtain ⟨frame, woken, rfl⟩ := transition_resume_iff.mp moved
    exact frame_effect woken

theorem transition_of_step {next : World Proc} (stepped : step world label = some next) :
    ∃ outcome, transition world label = some outcome ∧ outcome.world = next := by
  simpa [step] using stepped

theorem events_eq (moved : transition world label = some outcome) :
    events world label = outcome.events := by
  simp [events, moved]

theorem outcome_of_event {event : Event} (logged : event ∈ events world label) :
    ∃ outcome, transition world label = some outcome ∧ event ∈ outcome.events := by
  cases moved : transition world label with
  | none => simp [events, moved] at logged
  | some outcome =>
    rw [events_eq moved] at logged
    exact ⟨outcome, rfl, logged⟩

theorem history_snoc (trace : List (World Proc × Label Proc)) (world : World Proc)
    (label : Label Proc) :
    history (trace ++ [(world, label)]) = history trace ++ events world label := by
  simp [history]

end Socket

end Xv6
