import Xv6.SocketTableInvariant

/-!
# Consistency of the socket table and the blocked processes

`Consistent` ties the table to the processes: a blocked call still owns the slot
it started from, a call that is still asleep sleeps on the slot it is waiting for,
and every listening socket has its listener asleep on it.  Only the owner of a
slot closes it, and a blocked owner does nothing.
-/

namespace Xv6

namespace Socket

open LabelledRun

variable {Proc : Type}

def SockTable.Holds (table : SockTable Proc) (process : Proc) (slot : Slot) : Prop :=
  (table.sock slot).owner = some process ∧ (table.sock slot).state = .connected

/-- A process asleep in `send` or `recv` on its socket `loc` waits on the
connected socket `rem` that `loc` points to. -/
def SockTable.AwaitsPeer (table : SockTable Proc) (process : Proc) (chan loc rem : Slot) :
    Prop :=
  chan = rem ∧ table.Holds process loc ∧ (table.sock rem).state = .connected ∧
    (table.sock rem).lPort = (table.sock loc).rPort

/-- What the table owes to a process in a given state. -/
def FrameInvariant (table : SockTable Proc) (process : Proc) : ProcState → Prop
  | .user => True
  | .sleeping chan (.listen lport slot) =>
    chan = slot ∧ (table.sock slot).owner = some process ∧
      (table.sock slot).state = .listening ∧ (table.sock slot).lPort = lport
  | .runnable (.listen lport slot) =>
    table.Holds process slot ∧ (table.sock slot).lPort = lport
  | .sleeping chan (.send loc rem _ _) | .sleeping chan (.recv loc rem _) =>
    table.AwaitsPeer process chan loc rem
  | .runnable (.send loc _ _ _) | .runnable (.recv loc _ _) =>
    table.Holds process loc

structure Consistent (world : World Proc) : Prop where
  table : TableInvariant world.stable
  frames : ∀ process, FrameInvariant world.stable process (world.proc process)
  listener : ∀ slot, (world.stable.sock slot).state = .listening →
    ∃ process lport, (world.stable.sock slot).owner = some process ∧
      world.proc process = .sleeping slot (.listen lport slot)

/-! ## The frames under table updates and wakeups -/

variable {table next : SockTable Proc} {process : Proc} {slot chan loc rem : Slot}
  {state : ProcState} {world : World Proc} {label : Label Proc} {lport n : Int} {fuel : Nat}

theorem SockTable.Holds.isOpen (held : table.Holds process slot) : table.IsOpen slot := by
  simp [SockTable.IsOpen, held.2]

theorem SockTable.Holds.not_listening (held : table.Holds process slot) :
    (table.sock slot).state ≠ .listening := by
  simp [held.2]

theorem SockTable.Holds.of_sameLink (held : table.Holds process slot)
    (same : SameLink (next.sock slot) (table.sock slot)) : next.Holds process slot :=
  ⟨same.2.1.trans held.1, same.1.trans held.2⟩

theorem SockTable.AwaitsPeer.isOpen (awaits : table.AwaitsPeer process chan loc rem) :
    table.IsOpen rem := by
  simp [SockTable.IsOpen, awaits.2.2.1]

theorem SockTable.AwaitsPeer.of_sameLink (awaits : table.AwaitsPeer process chan loc rem)
    (sameLoc : SameLink (next.sock loc) (table.sock loc))
    (sameRem : SameLink (next.sock rem) (table.sock rem)) :
    next.AwaitsPeer process chan loc rem := by
  obtain ⟨onPeer, held, connected, points⟩ := awaits
  exact ⟨onPeer, held.of_sameLink sameLoc, sameRem.1.trans connected,
    (sameRem.2.2.1.trans points).trans sameLoc.2.2.2.symm⟩

theorem FrameInvariant.of_agree (holds : FrameInvariant table process state)
    (agree : ∀ slot, table.IsOpen slot → SameLink (next.sock slot) (table.sock slot)) :
    FrameInvariant next process state := by
  cases state with
  | user => trivial
  | sleeping chan frame =>
    cases frame with
    | listen lport slot =>
      obtain ⟨onSlot, owned, listening, atPort⟩ := holds
      have same := agree slot (by simp [SockTable.IsOpen, listening])
      exact ⟨onSlot, same.2.1.trans owned, same.1.trans listening, same.2.2.1.trans atPort⟩
    | send loc rem data n =>
      exact holds.of_sameLink (agree loc holds.2.1.isOpen) (agree rem holds.isOpen)
    | recv loc rem n =>
      exact holds.of_sameLink (agree loc holds.2.1.isOpen) (agree rem holds.isOpen)
  | runnable frame =>
    cases frame with
    | listen lport slot =>
      have same := agree slot holds.1.isOpen
      exact ⟨holds.1.of_sameLink same, same.2.2.1.trans holds.2⟩
    | send loc rem data n => exact holds.of_sameLink (agree loc holds.isOpen)
    | recv loc rem n => exact holds.of_sameLink (agree loc holds.isOpen)

/-- A wakeup on `chan` while the table changes at `chan`.  The process must not
hold `chan`, unless it is the listener there and finds itself connected. -/
theorem FrameInvariant.wake_change (holds : FrameInvariant table process state)
    (agree : ∀ slot, table.IsOpen slot → slot ≠ chan →
      SameLink (next.sock slot) (table.sock slot))
    (spared : ∀ slot, table.Holds process slot → slot ≠ chan)
    (accepts : (table.sock chan).owner = some process → (table.sock chan).state = .listening →
      next.Holds process chan ∧ (next.sock chan).lPort = (table.sock chan).lPort) :
    FrameInvariant next process (state.wakeup1 chan) := by
  have keep : ∀ slot, table.Holds process slot → next.Holds process slot :=
    fun slot held => held.of_sameLink (agree slot held.isOpen (spared slot held))
  cases state with
  | user => trivial
  | sleeping sleepChan frame =>
    by_cases woken : sleepChan = chan
    · subst woken
      simp only [ProcState.wakeup1, if_true]
      cases frame with
      | listen lport slot =>
        obtain ⟨rfl, owned, listening, atPort⟩ := holds
        obtain ⟨held, samePort⟩ := accepts owned listening
        exact ⟨held, samePort.trans atPort⟩
      | send loc rem data n => exact keep loc holds.2.1
      | recv loc rem n => exact keep loc holds.2.1
    · simp only [ProcState.wakeup1, woken, if_false]
      cases frame with
      | listen lport slot =>
        obtain ⟨rfl, owned, listening, atPort⟩ := holds
        have same := agree sleepChan (by simp [SockTable.IsOpen, listening]) woken
        exact ⟨rfl, same.2.1.trans owned, same.1.trans listening,
          same.2.2.1.trans atPort⟩
      | send loc rem data n =>
        exact holds.of_sameLink (agree loc holds.2.1.isOpen (spared loc holds.2.1))
          (agree rem holds.isOpen (holds.1 ▸ woken))
      | recv loc rem n =>
        exact holds.of_sameLink (agree loc holds.2.1.isOpen (spared loc holds.2.1))
          (agree rem holds.isOpen (holds.1 ▸ woken))
  | runnable frame =>
    cases frame with
    | listen lport slot =>
      have same := agree slot holds.1.isOpen (spared slot holds.1)
      exact ⟨keep slot holds.1, same.2.2.1.trans holds.2⟩
    | send loc rem data n => exact keep loc holds
    | recv loc rem n => exact keep loc holds

theorem FrameInvariant.wake (holds : FrameInvariant table process state)
    (notListening : (table.sock chan).state ≠ .listening) :
    FrameInvariant table process (state.wakeup1 chan) := by
  cases state with
  | user => trivial
  | runnable frame => exact holds
  | sleeping sleepChan frame =>
    by_cases woken : sleepChan = chan
    · subst woken
      simp only [ProcState.wakeup1, if_true]
      cases frame with
      | listen lport slot =>
        obtain ⟨rfl, -, listening, -⟩ := holds
        exact absurd listening notListening
      | send loc rem data n => exact holds.2.1
      | recv loc rem n => exact holds.2.1
    · simpa only [ProcState.wakeup1, woken, if_false] using holds

/-! ## Preservation by the effects -/

theorem consistent_initial : Consistent (World.initial : World Proc) := by
  constructor
  · have closed : ∀ slot, ¬ (World.initial : World Proc).stable.IsOpen slot := fun slot => by
      simp [SockTable.IsOpen, World.initial, SockTable.initial]
    constructor
    · rfl
    · intro first second firstOpen
      exact absurd firstOpen (closed first)
    · grind
    · grind
    all_goals simp [World.initial, SockTable.initial]
  · intro process
    trivial
  · simp [World.initial, SockTable.initial]

/-- A change of buffers together with a wakeup on a slot nobody listens on. -/
theorem Consistent.signal (holds : Consistent world)
    (links : ∀ slot, SameLink (next.sock slot) (world.stable.sock slot))
    (counted : next.countSock = world.stable.countSock)
    (notListening : (world.stable.sock chan).state ≠ .listening) :
    Consistent ({ world with stable := next }.wakeup chan) := by
  constructor
  · exact holds.table.congr links counted
  · intro process
    apply FrameInvariant.wake
    · exact (holds.frames process).of_agree fun slot _ => links slot
    · rw [World.wakeup_stable, (links chan).1]
      exact notListening
  · intro slot listening
    have wasListening : (world.stable.sock slot).state = .listening :=
      (links slot).1.symm.trans listening
    obtain ⟨process, lport, owned, asleep⟩ := holds.listener slot wasListening
    refine ⟨process, lport, (links slot).2.1.trans owned, ?_⟩
    have different : slot ≠ chan := by
      grind
    simp [World.wakeup, asleep, ProcState.wakeup1, different]

/-- A process in user code closes one of its sockets. -/
theorem Consistent.remove (holds : Consistent world) (idle : world.proc process = .user)
    (isOpen : world.stable.IsOpen slot) (owned : (world.stable.sock slot).owner = some process) :
    Consistent (world.removesock slot) := by
  constructor
  · exact holds.table.drop isOpen
  · intro other
    by_cases same : other = process
    · subst same
      simp [World.removesock, World.wakeup, idle, ProcState.wakeup1, FrameInvariant]
    · have notOwner : (world.stable.sock slot).owner ≠ some other := by
        rw [owned]
        simpa using Ne.symm same
      refine (holds.frames other).wake_change ?_ ?_ ?_
      · intro survivor _ different
        exact .of_eq (world.stable.dropsock_sock_of_ne different)
      · rintro held ⟨heldOwner, -⟩ rfl
        exact notOwner heldOwner
      · grind
  · intro other listening
    have different : other ≠ slot := by
      rintro rfl
      simp [World.removesock, resetsock, setsockvalue] at listening
    have sameSock : (world.removesock slot).stable.sock other = world.stable.sock other :=
      world.stable.dropsock_sock_of_ne different
    rw [sameSock] at listening ⊢
    obtain ⟨listener, lport, listenerOwns, asleep⟩ := holds.listener other listening
    exact ⟨listener, lport, listenerOwns, by
      simp [World.removesock, World.wakeup, asleep, ProcState.wakeup1, different]⟩

variable [DecidableEq Proc]

def World.Awake (world : World Proc) (process : Proc) : Prop :=
  ∀ chan frame, world.proc process ≠ .sleeping chan frame

theorem Consistent.enter (holds : Consistent world) (awake : world.Awake label.actor) :
    Consistent (world.entered label) := by
  constructor
  · exact holds.table
  · intro process
    by_cases same : process = label.actor
    · subst same
      simp [World.entered, World.setProc, FrameInvariant]
    · simpa [World.entered, World.setProc, same] using holds.frames process
  · intro slot listening
    obtain ⟨process, lport, owned, asleep⟩ := holds.listener slot listening
    have different : process ≠ label.actor := by
      rintro rfl
      exact awake _ _ asleep
    exact ⟨process, lport, owned, by simp [World.entered, World.setProc, different, asleep]⟩

theorem Consistent.block (holds : Consistent world) {frame : Frame}
    (idle : world.proc process = .user)
    (frameHolds : FrameInvariant world.stable process (.sleeping chan frame)) :
    Consistent (world.sleep process chan frame) := by
  constructor
  · exact holds.table
  · intro other
    by_cases same : other = process
    · simp_all
    · simpa [World.sleep, World.setProc, same] using holds.frames other
  · intro slot listening
    obtain ⟨listener, lport, owned, asleep⟩ := holds.listener slot listening
    have different : listener ≠ process := by
      grind
    exact ⟨listener, lport, owned, by simp [World.sleep, World.setProc, different, asleep]⟩

theorem Consistent.awaitsPeer (passed : checkPair process lport world.stable = .ok (loc, rem)) :
    world.stable.AwaitsPeer process rem loc rem := by
  obtain ⟨-, owned, connected, peer, peerConnected⟩ := checkPair_spec passed
  exact ⟨rfl, ⟨owned, connected⟩, peerConnected, (SockTable.getsock_spec peer).2.2⟩

theorem Consistent.listen (holds : Consistent world) (idle : world.proc process = .user)
    (valid : ValidPort lport) (unused : world.stable.getsock lport = none)
    (free : ¬ world.stable.IsOpen slot) :
    Consistent ({ world with
      stable := world.stable.listenTable process lport slot }.sleep
        process slot (.listen lport slot)) := by
  have agree : ∀ other, world.stable.IsOpen other →
      (world.stable.listenTable process lport slot).sock other = world.stable.sock other := by
    intro other isOpen
    apply SockTable.listenTable_sock_of_ne
    rintro rfl
    exact free isOpen
  constructor
  · exact holds.table.listen process valid unused free
  · intro other
    by_cases same : other = process
    · subst same
      simp [World.sleep, World.setProc, FrameInvariant, setsockvalue]
    · simp only [World.sleep, World.setProc, Function.update_of_ne same]
      exact (holds.frames other).of_agree fun open_ isOpen => .of_eq (agree open_ isOpen)
  · intro other listening
    by_cases same : other = slot
    · simp_all [World.sleep, World.setProc, setsockvalue]
    · have sameSock := world.stable.listenTable_sock_of_ne process lport same
      simp only [World.sleep, World.setProc] at listening ⊢
      rw [sameSock] at listening ⊢
      obtain ⟨listener, port, owned, asleep⟩ := holds.listener other listening
      have different : listener ≠ process := by
        grind
      exact ⟨listener, port, owned, by simp [different, asleep]⟩

omit [DecidableEq Proc] in
/-- A process in user code opens a socket and pairs it with a listener. -/
theorem Consistent.connect (holds : Consistent world) (valid : ValidPort lport)
    (unused : world.stable.getsock lport = none) (free : ¬ world.stable.IsOpen loc)
    (listening : (world.stable.sock rem).state = .listening) :
    Consistent ({ world with
      stable := world.stable.connectTable process lport loc rem }.wakeup rem) := by
  have different := listener_ne_client listening free
  have listener := world.stable.connectTable_sock_listener process lport different
  have agree : ∀ other, world.stable.IsOpen other → other ≠ rem →
      (world.stable.connectTable process lport loc rem).sock other =
        world.stable.sock other := by
    intro other isOpen notListener
    refine world.stable.connectTable_sock_of_ne process lport ?_ notListener
    rintro rfl
    exact free isOpen
  constructor
  · exact holds.table.connect process valid unused free listening
  · intro other
    refine (holds.frames other).wake_change ?_ ?_ ?_
    · intro slot isOpen notListener
      exact .of_eq (agree slot isOpen notListener)
    · rintro slot ⟨-, connected⟩ rfl
      rw [listening] at connected
      cases connected
    · intro owned _
      simp [SockTable.Holds, listener, owned]
  · intro other stillListening
    have notListener : other ≠ rem := by
      rintro rfl
      simp [World.wakeup, listener] at stillListening
    have notClient : other ≠ loc := by
      rintro rfl
      simp [World.wakeup, world.stable.connectTable_sock_client process lport different,
        setsockvalue] at stillListening
    have sameSock := world.stable.connectTable_sock_of_ne process lport notClient notListener
    simp only [World.wakeup] at stillListening ⊢
    rw [sameSock] at stillListening ⊢
    obtain ⟨owner, port, owned, asleep⟩ := holds.listener other stillListening
    exact ⟨owner, port, owned, by simp [asleep, ProcState.wakeup1, notListener]⟩

/-! ## The loop of `closeprocsocks` -/

/-- What every removal of an open socket of the process keeps, the loop keeps. -/
theorem World.closeprocsocksLoop_invariant (invariant : World Proc → Prop)
    (preserved : ∀ {world : World Proc} {slot : Slot}, invariant world →
      world.stable.IsOpen slot → (world.stable.sock slot).owner = some process →
        invariant (world.removesock slot))
    (fuel : Nat) (holds : invariant world) :
    invariant (closeprocsocksLoop process fuel world).1 := by
  induction fuel generalizing world with
  | zero => exact holds
  | succ fuel ih =>
    rw [closeprocsocksLoop_succ]
    split
    · exact holds
    · rename_i slot found
      obtain ⟨isOpen, owned⟩ := SockTable.getprocsock_spec found
      exact ih (preserved holds isOpen owned)

theorem World.closeprocsocksLoop_events (fuel : Nat) {event : Event}
    (member : event ∈ (closeprocsocksLoop process fuel world).2) :
    ∃ slot state, event = .remove slot state ∧ state ≠ .closed := by
  induction fuel generalizing world with
  | zero => cases member
  | succ fuel ih =>
    rw [closeprocsocksLoop_succ] at member
    split at member
    · simp at member
    · rename_i slot found
      rcases List.mem_cons.mp member with rfl | later
      · exact ⟨slot, _, rfl, (SockTable.getprocsock_spec found).1⟩
      · exact ih later

def SockTable.procSlots (table : SockTable Proc) (process : Proc) : Finset Slot :=
  Finset.univ.filter fun slot =>
    table.IsOpen slot ∧ (table.sock slot).owner = some process

theorem SockTable.mem_procSlots :
    slot ∈ table.procSlots process ↔
      table.IsOpen slot ∧ (table.sock slot).owner = some process := by
  rw [procSlots, Finset.mem_filter]
  exact and_iff_right (Finset.mem_univ slot)

theorem SockTable.procSlots_dropsock :
    (table.dropsock slot).procSlots process = (table.procSlots process).erase slot := by
  ext other
  rw [mem_procSlots, Finset.mem_erase, mem_procSlots]
  by_cases same : other = slot
  · subst same
    simp [IsOpen, resetsock, setsockvalue]
  · simp [IsOpen, table.dropsock_sock_of_ne same, same]

theorem SockTable.getprocsock_eq_none_iff :
    table.getprocsock process = none ↔ table.procSlots process = ∅ := by
  rw [getprocsock, firstIndex_eq_none_iff, Finset.eq_empty_iff_forall_notMem]
  apply forall_congr'
  intro slot
  rw [mem_procSlots, decide_eq_false_iff_not, IsOpen]

theorem SockTable.mem_procSlots_of_getprocsock (found : table.getprocsock process = some slot) :
    slot ∈ table.procSlots process :=
  mem_procSlots.mpr (getprocsock_spec found)

/-- An iteration of the loop leaves one socket less to close. -/
theorem World.card_procSlots_removesock (found : world.stable.getprocsock process = some slot)
    (enough : (world.stable.procSlots process).card ≤ fuel + 1) :
    ((world.removesock slot).stable.procSlots process).card ≤ fuel := by
  rw [World.removesock_stable, SockTable.procSlots_dropsock,
    Finset.card_erase_of_mem (SockTable.mem_procSlots_of_getprocsock found)]
  omega

/-- Every iteration closes a socket of the process, so as many iterations as
it has sockets end the loop. -/
theorem World.closeprocsocksLoop_complete (enough : (world.stable.procSlots process).card ≤ fuel) :
    (closeprocsocksLoop process fuel world).1.stable.getprocsock process = none := by
  induction fuel generalizing world with
  | zero =>
    apply SockTable.getprocsock_eq_none_iff.mpr
    exact Finset.card_eq_zero.mp (Nat.le_zero.mp enough)
  | succ fuel ih =>
    rw [closeprocsocksLoop_succ]
    split
    · assumption
    · rename_i slot found
      exact ih (card_procSlots_removesock found enough)

theorem SockTable.card_procSlots_le (table : SockTable Proc) (process : Proc) :
    (table.procSlots process).card ≤ nsock :=
  (Finset.card_le_univ _).trans (Fintype.card_fin nsock).le

/-- `closeprocsocks` leaves the process without sockets. -/
theorem World.closeprocsocks_complete (process : Proc) (world : World Proc) :
    (world.closeprocsocks process).1.stable.getprocsock process = none :=
  closeprocsocksLoop_complete (world.stable.card_procSlots_le process)

/-- The loop resets the sockets of the process, leaves every other slot alone,
and lowers the count by the number of sockets it has closed. -/
theorem World.closeprocsocksLoop_stable (enough : (world.stable.procSlots process).card ≤ fuel) :
    (∀ slot, (closeprocsocksLoop process fuel world).1.stable.sock slot =
        if slot ∈ world.stable.procSlots process then resetsock (world.stable.sock slot)
        else world.stable.sock slot) ∧
      (closeprocsocksLoop process fuel world).1.stable.countSock =
        world.stable.countSock - (world.stable.procSlots process).card := by
  induction fuel generalizing world with
  | zero =>
    grind [closeprocsocksLoop]
  | succ fuel ih =>
    rw [closeprocsocksLoop_succ]
    cases found : world.stable.getprocsock process with
    | none => simp [SockTable.getprocsock_eq_none_iff.mp found]
    | some first =>
      have member := SockTable.mem_procSlots_of_getprocsock found
      have card := Finset.card_erase_of_mem member
      have positive := Finset.card_pos.mpr ⟨first, member⟩
      obtain ⟨slots, count⟩ := ih (card_procSlots_removesock found enough)
      rw [World.removesock_stable, SockTable.procSlots_dropsock] at slots count
      constructor
      · intro slot
        refine (slots slot).trans ?_
        by_cases same : slot = first
        · subst same
          simp [member]
        · simp [same, world.stable.dropsock_sock_of_ne same]
      · refine count.trans ?_
        change world.stable.countSock - 1 - _ = _
        omega

/-- The iterations of the loop of `closeprocsocks`, from a state to the state in
which its test fails. -/
inductive World.ClosesSocks (process : Proc) : World Proc → World Proc → Prop
  | done {world : World Proc} : world.stable.getprocsock process = none →
      ClosesSocks process world world
  | next {world finish : World Proc} {slot : Slot} :
      world.stable.getprocsock process = some slot →
      ClosesSocks process (world.removesock slot) finish → ClosesSocks process world finish

/-- The loop of `closeprocsocks` terminates from every state. -/
theorem World.closesSocks_closeprocsocksLoop
    (enough : (world.stable.procSlots process).card ≤ fuel) :
    ClosesSocks process world (closeprocsocksLoop process fuel world).1 := by
  induction fuel generalizing world with
  | zero => exact .done (closeprocsocksLoop_complete enough)
  | succ fuel ih =>
    rw [closeprocsocksLoop_succ]
    cases found : world.stable.getprocsock process with
    | none => exact .done found
    | some slot => exact .next found (ih (card_procSlots_removesock found enough))

theorem World.closeprocsocksLoop_not_sleeping {other : Proc}
    (awake : ∀ frame, world.proc other ≠ .sleeping chan frame) (frame : Frame) :
    (closeprocsocksLoop process fuel world).1.proc other ≠ .sleeping chan frame := by
  refine closeprocsocksLoop_invariant
    (fun current : World Proc => ∀ frame, current.proc other ≠ .sleeping chan frame)
    ?_ fuel awake frame
  intro current slot stillAwake _ _ frame asleep
  rw [World.removesock_proc, ProcState.wakeup1_eq_sleeping] at asleep
  exact stillAwake frame asleep.1

/-- Whoever slept on a socket of the process is awake after the loop. -/
theorem World.closeprocsocksLoop_wakes (enough : (world.stable.procSlots process).card ≤ fuel)
    (mine : slot ∈ world.stable.procSlots process) (other : Proc) (frame : Frame) :
    (closeprocsocksLoop process fuel world).1.proc other ≠ .sleeping slot frame := by
  induction fuel generalizing world with
  | zero =>
    grind
  | succ fuel ih =>
    rw [closeprocsocksLoop_succ]
    cases found : world.stable.getprocsock process with
    | none =>
      rw [SockTable.getprocsock_eq_none_iff.mp found] at mine
      cases mine
    | some first =>
      by_cases same : slot = first
      · subst same
        apply closeprocsocksLoop_not_sleeping
        intro frame asleep
        rw [World.removesock_proc, ProcState.wakeup1_eq_sleeping] at asleep
        exact asleep.2 rfl
      · apply ih (card_procSlots_removesock found enough)
        rw [World.removesock_stable, SockTable.procSlots_dropsock, Finset.mem_erase]
        exact ⟨same, mine⟩

theorem Consistent.exit_invariant (holds : Consistent world) (idle : world.proc process = .user)
    (invariant : World Proc → Prop)
    (preserved : ∀ {current : World Proc} {slot : Slot}, Consistent current →
      current.proc process = .user → invariant current → current.stable.IsOpen slot →
      (current.stable.sock slot).owner = some process → invariant (current.removesock slot))
    (initially : invariant world) :
    Consistent (world.closeprocsocks process).1 ∧ invariant (world.closeprocsocks process).1 := by
  have all : Consistent (world.closeprocsocks process).1 ∧
      (world.closeprocsocks process).1.proc process = .user ∧
      invariant (world.closeprocsocks process).1 := by
    apply World.closeprocsocksLoop_invariant (fun current : World Proc =>
      Consistent current ∧ current.proc process = .user ∧ invariant current)
    · rintro current slot ⟨consistent, currentIdle, kept⟩ isOpen owned
      refine ⟨consistent.remove currentIdle isOpen owned, ?_,
        preserved consistent currentIdle kept isOpen owned⟩
      rw [World.removesock_proc, ProcState.wakeup1_eq_user]
      exact currentIdle
    · exact ⟨holds, idle, initially⟩
  exact ⟨all.1, all.2.2⟩

theorem Consistent.exit (holds : Consistent world) (idle : world.proc process = .user) :
    Consistent (world.closeprocsocks process).1 :=
  (holds.exit_invariant idle (fun _ => True) (fun _ _ _ _ _ => trivial) trivial).1

/-! ## Preservation by every segment -/

theorem SendReady.awake {data : CStr} (ready : SendReady world label loc rem data n) :
    world.Awake label.actor := by
  intro chan frame asleep
  cases ready with
  | direct idle _ _ => simp [Label.actor, idle] at asleep
  | resumed woken => simp [Label.actor, woken] at asleep

theorem RecvReady.awake (ready : RecvReady world label loc n) : world.Awake label.actor := by
  intro chan frame asleep
  cases ready with
  | direct idle _ _ => simp [Label.actor, idle] at asleep
  | resumed woken => simp [Label.actor, woken] at asleep

/-- The pointer `local` of a `send` that is about to go on is still the
caller's connected socket. -/
theorem SendReady.holds (consistent : Consistent world) {data : CStr}
    (ready : SendReady world label loc rem data n) : world.stable.Holds label.actor loc := by
  cases ready with
  | direct _ passed _ =>
    obtain ⟨-, owned, connected, -⟩ := checkPair_spec passed
    exact ⟨owned, connected⟩
  | @resumed process _ _ _ _ woken =>
    have frame := consistent.frames process
    rw [woken] at frame
    exact frame

theorem RecvReady.holds (consistent : Consistent world) (ready : RecvReady world label loc n) :
    world.stable.Holds label.actor loc := by
  cases ready with
  | direct _ passed _ =>
    obtain ⟨-, owned, connected, -⟩ := checkPair_spec passed
    exact ⟨owned, connected⟩
  | @resumed process _ _ _ woken =>
    have frame := consistent.frames process
    rw [woken] at frame
    exact frame

theorem Effect.consistent {outcome : Outcome Proc} (effect : Effect world label outcome)
    (holds : Consistent world) : Consistent outcome.world := by
  cases effect with
  | refused => exact holds
  | listened idle valid unused free => exact holds.listen idle valid unused free
  | accepted woken =>
    apply holds.enter
    intro chan frame asleep
    simp [Label.actor, woken] at asleep
  | connected _ _ listening valid unused free => exact holds.connect valid unused free listening
  | sendBlocked idle passed _ => exact holds.block idle (Consistent.awaitsPeer passed)
  | recvBlocked idle passed _ => exact holds.block idle (Consistent.awaitsPeer passed)
  | @stored _ loc rem _ data n ready _ =>
    exact (holds.enter ready.awake).signal (sameLink_modify (sameLink_storeData data n)) rfl
      (ready.holds holds).not_listening
  | @sendReset _ loc _ _ _ ready _ =>
    have held := ready.holds holds
    exact (holds.enter ready.awake).remove (world.entered_proc_self label) held.isOpen held.1
  | @delivered _ loc _ _ ready _ =>
    exact (holds.enter ready.awake).signal (sameLink_modify sameLink_emptyBuffer) rfl
      (ready.holds holds).not_listening
  | @recvReset _ loc _ ready _ =>
    have held := ready.holds holds
    have links : ∀ slot, SameLink ((world.stable.modify loc emptyBuffer).sock slot)
        (world.stable.sock slot) :=
      sameLink_modify sameLink_emptyBuffer
    have emptied := (holds.enter ready.awake).signal links rfl held.not_listening
    have heldAfter : (world.stable.modify loc emptyBuffer).Holds label.actor loc :=
      held.of_sameLink (links loc)
    refine emptied.remove ?_ heldAfter.isOpen heldAfter.1
    change ((world.entered label).proc label.actor).wakeup1 loc = .user
    rw [World.entered_proc_self]
    rfl
  | disconnected idle found owned =>
    exact holds.remove idle (SockTable.getsock_spec found).2.1 owned
  | exited idle => exact holds.exit idle

theorem consistent_step {next : World Proc} (holds : Consistent world)
    (stepped : step world label = some next) : Consistent next := by
  obtain ⟨outcome, moved, rfl⟩ := transition_of_step stepped
  exact (effect_of_transition moved).consistent holds

theorem consistent_throughout {trace : List (World Proc × Label Proc)} {finish : World Proc}
    (run : SockRun trace finish) : Throughout Consistent trace finish :=
  run.always Consistent consistent_initial consistent_step

theorem consistent_of_run {trace : List (World Proc × Label Proc)} {finish : World Proc}
    (run : SockRun trace finish) : Consistent finish :=
  (consistent_throughout run).2

/-- `removesock` is only called on open slots. -/
theorem Effect.removed_open {outcome : Outcome Proc} (effect : Effect world label outcome)
    (holds : Consistent world) {state : SockState}
    (removed : Event.remove slot state ∈ outcome.events) : state ≠ .closed := by
  cases effect with
  | refused => simp [retsockfunc] at removed
  | listened | connected | sendBlocked | recvBlocked | stored | delivered => simp at removed
  | accepted => simp [retsockfunc] at removed
  | sendReset ready _ =>
    obtain ⟨rfl, rfl⟩ : slot = _ ∧ state = _ := by simpa using removed
    exact (ready.holds holds).isOpen
  | recvReset ready _ =>
    obtain ⟨rfl, rfl⟩ : slot = _ ∧ state = _ := by simpa using removed
    exact (ready.holds holds).isOpen
  | disconnected _ found _ =>
    obtain ⟨rfl, rfl⟩ : slot = _ ∧ state = _ := by simpa using removed
    exact (SockTable.getsock_spec found).2.1
  | exited =>
    obtain ⟨_, _, same, isOpen⟩ := World.closeprocsocksLoop_events _ removed
    obtain ⟨rfl, rfl⟩ := Event.remove.inj same
    exact isOpen

/-- In every state of every run the count agrees with the slots, open sockets
have distinct valid ports and are listening or connected with a matching
remote port, and no slot is ever removed twice. -/
theorem table_invariant_throughout {trace : List (World Proc × Label Proc)}
    {finish : World Proc} (run : SockRun trace finish) :
    Throughout
        (fun world : World Proc => TableInvariant world.stable ∧
          0 ≤ world.stable.countSock ∧ world.stable.countSock ≤ nsock) trace finish ∧
      ∀ entry ∈ trace, ∀ slot state,
        Event.remove slot state ∈ events entry.1 entry.2 → state ≠ .closed := by
  obtain ⟨earlier, last⟩ := consistent_throughout run
  refine ⟨⟨?_, last.table, last.table.count_bounds⟩, ?_⟩
  · intro entry member
    exact ⟨(earlier entry member).table, (earlier entry member).table.count_bounds⟩
  · intro entry member slot state removed
    obtain ⟨next, stepped⟩ := run.step_entry member
    obtain ⟨outcome, moved, -⟩ := transition_of_step stepped
    rw [events_eq moved] at removed
    exact (effect_of_transition moved).removed_open (earlier entry member) removed

/-- Process 0 listens at port 10, process 1 connects and gets port 127, and
process 0 returns from its `listen`. -/
def handshake : List (Label (Fin 3)) :=
  [.call 0 (.listen 10), .call 1 (.connect 10 localHost), .resume 0]

theorem table_invariant_handshake :
    ∃ (trace : List (World (Fin 3) × Label (Fin 3))) (finish : World (Fin 3)),
      SockRun trace finish ∧ trace.map Prod.snd = handshake ++ [.call 1 (.disconnect 127)] ∧
        finish.stable.countSock = 1 ∧ TableInvariant finish.stable := by
  refine exists_run_of_test (fun _ finish => finish.stable.countSock = 1) (by decide +kernel) ?_
  exact fun _ _ run _ counted => ⟨counted, (table_invariant_throughout run).1.2.1⟩

end Socket

end Xv6
