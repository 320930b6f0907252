import Mathlib.Data.Fintype.Pigeonhole
import Xv6.SocketConsistency

/-!
# The error codes of the socket calls

`listen` decides from `countSock` whether the table is full, and `connect` from
the slots; `countSock` counts the open ones, so both agree.  There are more ports
than slots, so `connect` always finds a free port.  With that, each code of the
two calls is returned in exactly one situation.  A call that returns an error
leaves everything as it was, except for a connection reset.
-/

namespace Xv6

namespace Socket

open LabelledRun

variable {Proc : Type}

namespace SockTable

def Full (table : SockTable Proc) : Prop :=
  ∀ slot, table.IsOpen slot

def InUse (table : SockTable Proc) (port : Int) : Prop :=
  ∃ slot, table.IsOpen slot ∧ (table.sock slot).lPort = port

variable {table : SockTable Proc}

theorem getsock_eq_none_iff_not_inUse {port : Int} (valid : ValidPort port) :
    table.getsock port = none ↔ ¬ table.InUse port := by
  rw [getsock_eq_none_iff valid, InUse]
  push Not
  rfl

theorem closedSlot_eq_none_iff : table.closedSlot = none ↔ table.Full := by
  rw [closedSlot, firstIndex_eq_none_iff]
  simp [Full, IsOpen]

/-- `allocsock` fails for one of two reasons. -/
theorem allocsock_eq_none_iff {myproc : Proc} {lport : Int} (valid : ValidPort lport) :
    table.allocsock myproc lport = none ↔ table.InUse lport ∨ table.Full := by
  have inRange : ¬ (lport < 0) ∧ ¬ (nport ≤ lport) := ⟨not_lt.mpr valid.1, not_le.mpr valid.2⟩
  rw [allocsock, ← closedSlot_eq_none_iff]
  by_cases used : table.InUse lport
  · simp_all [Option.isSome_iff_ne_none, getsock_eq_none_iff_not_inUse]
  · have free : table.getsock lport = none := (getsock_eq_none_iff_not_inUse valid).mpr used
    rw [if_neg (by simp [inRange, free])]
    cases table.closedSlot with
    | none => simp
    | some slot => simp [used]

/-! ## Free ports -/

theorem inUse_of_getfreeportFrom {start : Nat} (below : start < nport)
    (failed : table.getfreeportFrom start = invPort) {port : Nat} (positive : 0 < port)
    (passed : port ≤ start) : table.InUse port := by
  induction start with
  | zero => omega
  | succ start ih =>
    have valid : ValidPort (start + 1 : Nat) := ⟨by omega, below⟩
    rw [getfreeportFrom] at failed
    split at failed
    · exact absurd failed (by simp [invPort]; omega)
    · rename_i found
      by_cases last : port = start + 1
      · subst last
        by_contra unused
        exact found ((getsock_eq_none_iff_not_inUse valid).mpr unused)
      · exact ih (by omega) failed (by omega)

/-- There are more ports than slots. -/
theorem getfreeport_ne_invPort (table : SockTable Proc) : table.getfreeport ≠ invPort := by
  intro failed
  have used : ∀ index : Fin 127, table.InUse (index.val + 1 : Nat) := by
    intro index
    exact inUse_of_getfreeportFrom (by decide) failed (Nat.succ_pos _) (by
      change index.val + 1 ≤ 127
      omega)
  choose slot _ atPort using used
  obtain ⟨first, second, different, same⟩ :=
    Fintype.exists_ne_map_eq_of_card_lt slot (by
      rw [Fintype.card_fin, Fintype.card_fin]
      decide)
  have samePort := (atPort first).symm.trans (same ▸ atPort second)
  exact different (Fin.ext (by omega))

theorem getfreeportFrom_spec {start : Nat} (below : start < nport)
    (found : table.getfreeportFrom start ≠ invPort) :
    0 < table.getfreeportFrom start ∧ ValidPort (table.getfreeportFrom start) ∧
      ¬ table.InUse (table.getfreeportFrom start) := by
  induction start with
  | zero => exact absurd rfl found
  | succ start ih =>
    have valid : ValidPort (start + 1 : Nat) := ⟨by omega, below⟩
    rw [getfreeportFrom] at found ⊢
    split
    · rename_i free
      exact ⟨by omega, valid, (getsock_eq_none_iff_not_inUse valid).mp free⟩
    · grind

theorem getfreeport_spec (table : SockTable Proc) :
    0 < table.getfreeport ∧ ValidPort table.getfreeport ∧ ¬ table.InUse table.getfreeport :=
  getfreeportFrom_spec (by decide) table.getfreeport_ne_invPort

end SockTable

/-- The count of open sockets reaches the number of slots exactly when no slot
is closed. -/
theorem TableInvariant.countSock_eq_iff {table : SockTable Proc} (holds : TableInvariant table) :
    table.countSock = nsock ↔ table.Full := by
  rw [holds.count]
  constructor
  · intro count slot
    have all : Finset.univ.filter table.IsOpen = Finset.univ := by
      apply Finset.eq_univ_of_card
      exact_mod_cast count
    have member := Finset.mem_univ slot
    rw [← all] at member
    exact (Finset.mem_filter.mp member).2
  · intro full
    rw [Finset.filter_true_of_mem fun slot _ => full slot, Finset.card_univ, Fintype.card_fin]

variable [DecidableEq Proc]

/-! ## The codes of `listen` and `connect` -/

/-- When `listen` returns which error, and what it does otherwise. -/
structure ListenExact (process : Proc) (port : Int) (world : World Proc) : Prop where
  full : (listen process port world).code = some eFail ↔ world.stable.Full
  used : ¬ world.stable.Full →
    ((listen process port world).code = some eAccessDenied ↔ world.stable.InUse port)
  allocates : ¬ world.stable.Full → ¬ world.stable.InUse port →
    ∃ slot, ¬ world.stable.IsOpen slot ∧
      listen process port world =
        { world :=
            { world with stable := world.stable.listenTable process port slot }.sleep
              process slot (.listen port slot)
          code := none, out := [], events := [.alloc slot port] }

/-- When `connect` returns which error, and what it does otherwise. -/
structure ConnectExact (process : Proc) (port : Int) (host : CStr) (world : World Proc) :
    Prop where
  unused : (connect process port host world).code = some eNotfound ↔ ¬ world.stable.InUse port
  state : ∀ rem, world.stable.IsOpen rem → (world.stable.sock rem).lPort = port →
    ((connect process port host world).code = some eWrongState ↔
      (world.stable.sock rem).state ≠ .listening)
  full : ∀ rem, (world.stable.sock rem).state = .listening → (world.stable.sock rem).lPort = port →
    ((connect process port host world).code = some eFail ↔ world.stable.Full)
  succeeds : ∀ rem, (world.stable.sock rem).state = .listening →
    (world.stable.sock rem).lPort = port → ¬ world.stable.Full →
      ∃ loc lport, ¬ world.stable.IsOpen loc ∧ 0 < lport ∧ ¬ world.stable.InUse lport ∧
        connect process port host world =
          { world :=
              { world with
                stable := world.stable.connectTable process lport loc rem }.wakeup rem
            code := some lport
            out := []
            events := [.alloc loc lport, .pair rem loc lport] }

section Listen

variable {world : World Proc} (holds : TableInvariant world.stable) (process : Proc) {port : Int}
  (valid : ValidPort port)

include holds valid

theorem listen_of_full (full : world.stable.Full) :
    listen process port world = retsockfunc world eFail := by
  rw [listen, if_neg (not_not.mpr valid), if_pos (holds.countSock_eq_iff.mpr full)]

theorem listen_of_inUse (room : ¬ world.stable.Full) (used : world.stable.InUse port) :
    listen process port world = retsockfunc world eAccessDenied := by
  rw [listen, if_neg (not_not.mpr valid),
    if_neg (fun count => room (holds.countSock_eq_iff.mp count)),
    (SockTable.allocsock_eq_none_iff valid).mpr (.inl used)]

theorem listen_of_room (room : ¬ world.stable.Full) (unused : ¬ world.stable.InUse port) :
    ∃ slot, ¬ world.stable.IsOpen slot ∧
      listen process port world =
        { world :=
            { world with stable := world.stable.listenTable process port slot }.sleep
              process slot (.listen port slot)
          code := none, out := [], events := [.alloc slot port] } := by
  rw [listen, if_neg (not_not.mpr valid),
    if_neg (fun count => room (holds.countSock_eq_iff.mp count))]
  cases allocated : world.stable.allocsock process port with
  | none =>
    rcases (SockTable.allocsock_eq_none_iff valid).mp allocated with used | full
    · exact absurd used unused
    · exact absurd full room
  | some pair =>
    obtain ⟨-, -, closed, table⟩ := SockTable.allocsock_spec allocated
    refine ⟨pair.1, closed, ?_⟩
    dsimp only
    rw [table]
    rfl

theorem listenExact : ListenExact process port world := by
  by_cases full : world.stable.Full
  · refine ⟨iff_of_true ?_ full, fun room => absurd full room, fun room => absurd full room⟩
    rw [listen_of_full holds process valid full]
    rfl
  by_cases used : world.stable.InUse port
  · have denied := listen_of_inUse holds process valid full used
    rw [retsockfunc] at denied
    refine ⟨iff_of_false ?_ full, fun _ => iff_of_true ?_ used, fun _ free => absurd used free⟩
    · rw [denied]
      simp [eFail, eAccessDenied]
    · rw [denied]
  · have allocated := listen_of_room holds process valid full used
    obtain ⟨slot, -, result⟩ := allocated
    refine ⟨iff_of_false ?_ full, fun _ => iff_of_false ?_ used,
      fun _ _ => listen_of_room holds process valid full used⟩
    · rw [result]
      simp
    · rw [result]
      simp

end Listen

section Connect

omit [DecidableEq Proc]

variable {world : World Proc} (process : Proc) {port : Int} {host : CStr}
  (valid : ValidPort port) (accepted : HostAccepted host)

include valid accepted

theorem connect_of_unused (unused : ¬ world.stable.InUse port) :
    connect process port host world = retsockfunc world eNotfound := by
  have missing := (SockTable.getsock_eq_none_iff_not_inUse valid).mpr unused
  rw [connect, if_neg (not_not.mpr valid), if_neg (not_not.mpr accepted)]
  rw [if_neg world.stable.getfreeport_ne_invPort, missing]

variable {rem : Slot} (found : world.stable.getsock port = some rem)

include found

theorem connect_of_not_listening (other : (world.stable.sock rem).state ≠ .listening) :
    connect process port host world = retsockfunc world eWrongState := by
  rw [connect, if_neg (not_not.mpr valid), if_neg (not_not.mpr accepted)]
  rw [if_neg world.stable.getfreeport_ne_invPort, found]
  dsimp only
  rw [if_pos other]

variable (listening : (world.stable.sock rem).state = .listening)

include listening

theorem connect_of_full (full : world.stable.Full) :
    connect process port host world = retsockfunc world eFail := by
  obtain ⟨-, portValid, -⟩ := world.stable.getfreeport_spec
  rw [connect, if_neg (not_not.mpr valid), if_neg (not_not.mpr accepted)]
  rw [if_neg world.stable.getfreeport_ne_invPort, found]
  dsimp only
  rw [if_neg (not_not.mpr listening), (SockTable.allocsock_eq_none_iff portValid).mpr (.inr full)]

theorem connect_of_room (room : ¬ world.stable.Full) :
    ∃ loc, ¬ world.stable.IsOpen loc ∧
      connect process port host world =
        { world :=
            { world with
              stable := world.stable.connectTable process world.stable.getfreeport loc
                rem }.wakeup rem
          code := some world.stable.getfreeport
          out := []
          events := [.alloc loc world.stable.getfreeport,
            .pair rem loc world.stable.getfreeport] } := by
  obtain ⟨-, portValid, free⟩ := world.stable.getfreeport_spec
  rw [connect, if_neg (not_not.mpr valid), if_neg (not_not.mpr accepted)]
  rw [if_neg world.stable.getfreeport_ne_invPort, found]
  dsimp only
  rw [if_neg (not_not.mpr listening)]
  cases allocated : world.stable.allocsock process world.stable.getfreeport with
  | none =>
    rcases (SockTable.allocsock_eq_none_iff portValid).mp allocated with used | full
    · exact absurd used free
    · exact absurd full room
  | some pair =>
    obtain ⟨-, -, closed, table⟩ := SockTable.allocsock_spec allocated
    refine ⟨pair.1, closed, ?_⟩
    dsimp only
    rw [table]
    rfl

end Connect

omit [DecidableEq Proc] in
theorem connectExact {world : World Proc} (holds : TableInvariant world.stable) (process : Proc)
    {port : Int} (valid : ValidPort port) {host : CStr} (accepted : HostAccepted host) :
    ConnectExact process port host world := by
  obtain ⟨positive, -, free⟩ := world.stable.getfreeport_spec
  have lookup : ∀ {rem}, world.stable.IsOpen rem → (world.stable.sock rem).lPort = port →
      world.stable.getsock port = some rem := fun isOpen atPort =>
    (SockTable.getsock_eq_some_iff holds.distinct valid).mpr ⟨isOpen, atPort⟩
  have isOpen : ∀ {rem}, (world.stable.sock rem).state = .listening →
      world.stable.IsOpen rem := by
    intro rem listening
    rw [SockTable.IsOpen, listening]
    decide
  refine { unused := ?_, state := ?_, full := ?_, succeeds := ?_ }
  · by_cases used : world.stable.InUse port
    · obtain ⟨rem, isOpen, atPort⟩ := used
      refine iff_of_false ?_ (not_not.mpr ⟨rem, isOpen, atPort⟩)
      by_cases listening : (world.stable.sock rem).state = .listening
      · by_cases full : world.stable.Full
        · grind [connect_of_full, retsockfunc, eFail, eNotfound]
        · obtain ⟨loc, -, result⟩ :=
            connect_of_room process valid accepted (lookup isOpen atPort) listening full
          rw [result]
          simp only [Option.some.injEq, eNotfound]
          omega
      · grind [connect_of_not_listening, retsockfunc, eWrongState, eNotfound]
    · refine iff_of_true ?_ used
      rw [connect_of_unused process valid accepted used]
      rfl
  · intro rem remOpen atPort
    have found := lookup remOpen atPort
    by_cases listening : (world.stable.sock rem).state = .listening
    · refine iff_of_false ?_ (not_not.mpr listening)
      by_cases full : world.stable.Full
      · rw [connect_of_full process valid accepted found listening full]
        simp [retsockfunc, eFail, eWrongState]
      · obtain ⟨loc, -, result⟩ :=
          connect_of_room process valid accepted found listening full
        rw [result]
        simp only [Option.some.injEq, eWrongState]
        omega
    · refine iff_of_true ?_ listening
      rw [connect_of_not_listening process valid accepted found listening]
      rfl
  · intro rem listening atPort
    have found := lookup (isOpen listening) atPort
    by_cases full : world.stable.Full
    · refine iff_of_true ?_ full
      rw [connect_of_full process valid accepted found listening full]
      rfl
    · refine iff_of_false ?_ full
      obtain ⟨loc, -, result⟩ :=
        connect_of_room process valid accepted found listening full
      rw [result]
      simp only [Option.some.injEq, eFail]
      omega
  · intro rem listening atPort room
    obtain ⟨loc, closed, result⟩ :=
      connect_of_room process valid accepted (lookup (isOpen listening) atPort) listening room
    exact ⟨loc, world.stable.getfreeport, closed, positive, free, result⟩

/-! ## Errors change nothing -/

/-- An error other than a reset leaves the world as it was. -/
def ErrorAtomic (world : World Proc) (outcome : Outcome Proc) : Prop :=
  ∀ code, outcome.code = some code → code < 0 → code ≠ eConnectionResetByRemote →
    outcome.world = world

section Atomic

variable (world : World Proc) (process : Proc)

omit [DecidableEq Proc] in
theorem errorAtomic_retsockfunc (code : Int) : ErrorAtomic world (retsockfunc world code) :=
  fun _ _ _ _ => rfl

omit [DecidableEq Proc] in
theorem ErrorAtomic.of_code {outcome : Outcome Proc}
    (other : ∀ code, outcome.code = some code → 0 ≤ code ∨ code = eConnectionResetByRemote) :
    ErrorAtomic world outcome := by
  intro code returns negative notReset
  rcases other code returns with positive | reset
  · omega
  · exact absurd reset notReset

theorem errorAtomic_listen (port : Int) : ErrorAtomic world (listen process port world) := by
  grind [listen, errorAtomic_retsockfunc, ErrorAtomic.of_code]

omit [DecidableEq Proc] in
theorem errorAtomic_connect (port : Int) (host : CStr) :
    ErrorAtomic world (connect process port host world) := by
  rw [connect]
  split
  · exact errorAtomic_retsockfunc world _
  split
  · exact errorAtomic_retsockfunc world _
  dsimp only
  split
  · exact errorAtomic_retsockfunc world _
  split
  · exact errorAtomic_retsockfunc world _
  split
  · exact errorAtomic_retsockfunc world _
  split
  · exact errorAtomic_retsockfunc world _
  · apply ErrorAtomic.of_code
    intro code returns
    cases returns
    exact .inl world.stable.getfreeport_spec.1.le

omit [DecidableEq Proc] in
theorem code_sendResume (loc rem : Slot) (data : CStr) (n : Int) (code : Int)
    (returns : (sendResume loc rem data n world).code = some code) :
    0 ≤ code ∨ code = eConnectionResetByRemote := by
  grind [sendResume]

omit [DecidableEq Proc] in
theorem code_recvResume (loc : Slot) (n : Int) (code : Int)
    (returns : (recvResume loc n world).code = some code) :
    0 ≤ code ∨ code = eConnectionResetByRemote := by
  grind [recvResume]

theorem errorAtomic_send (port : Int) (data : CStr) (n : Int) :
    ErrorAtomic world (send process port data n world) := by
  rw [send]
  split
  · exact errorAtomic_retsockfunc world _
  · split
    · apply ErrorAtomic.of_code
      intro code returns
      cases returns
    · exact ErrorAtomic.of_code world (code_sendResume world _ _ _ _)

theorem errorAtomic_recv (port : Int) (n : Int) :
    ErrorAtomic world (recv process port n world) := by
  rw [recv]
  split
  · exact errorAtomic_retsockfunc world _
  · split
    · apply ErrorAtomic.of_code
      intro code returns
      cases returns
    · exact ErrorAtomic.of_code world (code_recvResume world _ _)

theorem errorAtomic_disconnect (port : Int) :
    ErrorAtomic world (disconnect process port world) := by
  grind [disconnect, ErrorAtomic.of_code, errorAtomic_retsockfunc]

omit [DecidableEq Proc] in
/-- A call that has slept returns zero or a reset. -/
theorem code_frame (frame : Frame) (code : Int) (returns : (frame.run world).code = some code) :
    0 ≤ code ∨ code = eConnectionResetByRemote := by
  cases frame with
  | listen lport slot => exact .inl (Option.some.inj returns).le
  | send loc rem data n => exact code_sendResume world loc rem data n code returns
  | recv loc rem n => exact code_recvResume world loc n code returns

end Atomic

/-- In every reachable state, each error of `listen` and `connect` is returned
in exactly the situation it is for, and a call that returns an error other than
a reset has changed neither the table nor what any process does.  A call that
has slept returns no such error. -/
theorem socket_errors_exact {trace : List (World Proc × Label Proc)} {world : World Proc}
    (run : SockRun trace world) (process : Proc) :
    (∀ port, ValidPort port → ListenExact process port world) ∧
      (∀ port host, ValidPort port → HostAccepted host →
        ConnectExact process port host world) ∧
      (∀ port, ErrorAtomic world (listen process port world)) ∧
      (∀ port host, ErrorAtomic world (connect process port host world)) ∧
      (∀ port data n, ErrorAtomic world (send process port data n world)) ∧
      (∀ port n, ErrorAtomic world (recv process port n world)) ∧
      (∀ port, ErrorAtomic world (disconnect process port world)) ∧
      ∀ (frame : Frame) (later : World Proc) (code : Int), (frame.run later).code = some code →
        code < 0 → code = eConnectionResetByRemote := by
  have holds := (consistent_of_run run).table
  refine ⟨fun port valid => listenExact holds process valid,
    fun port host valid accepted => connectExact holds process valid accepted,
    errorAtomic_listen world process, errorAtomic_connect world process,
    errorAtomic_send world process, errorAtomic_recv world process,
    errorAtomic_disconnect world process, ?_⟩
  intro frame later code returns negative
  rcases code_frame later frame code returns with positive | reset
  · omega
  · exact reset

/-- After a handshake at port 10, a second `listen` there is refused, and so is
a `connect`. -/
theorem socket_errors_after_handshake :
    ∃ (trace : List (World (Fin 3) × Label (Fin 3))) (world : World (Fin 3)),
      SockRun trace world ∧ trace.map Prod.snd = handshake ∧
        (listen 2 10 world).code = some eAccessDenied ∧
        (connect 2 10 localHost world).code = some eWrongState ∧
        (listen 2 10 world).world = world := by
  refine exists_run_of_test (fun _ world => (world.stable.sock 0).state = .connected ∧
    (world.stable.sock 0).lPort = 10 ∧ (world.stable.sock 5).state = .closed)
    (by decide +kernel) ?_
  rintro _ world run - ⟨connected, atPort, closed⟩
  obtain ⟨listens, connects, atomic, -⟩ := socket_errors_exact run 2
  have isOpen : world.stable.IsOpen 0 := by
    rw [SockTable.IsOpen, connected]
    decide
  have room : ¬ world.stable.Full := fun full => full 5 closed
  have denied := ((listens 10 (by decide)).used room).mpr ⟨0, isOpen, atPort⟩
  refine ⟨denied, ?_, ?_⟩
  · apply ((connects 10 localHost (by decide) (by decide)).state 0 isOpen atPort).mpr
    rw [connected]
    decide
  · exact atomic 10 eAccessDenied denied (by decide) (by decide)

end Socket

end Xv6
