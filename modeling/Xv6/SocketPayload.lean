import Xv6.SocketRecv
import Xv6.SystemCallArguments

/-!
# The bytes that travel through a connection

`send` copies at most its length of the message into the peer's buffer, and
`recv` copies the buffer out up to the first NUL.  A message that is cut before
its NUL is therefore continued by whatever an earlier message left in the
buffer.  `sys_send` uses the port number as the length.
-/

namespace Xv6

namespace Socket

open CString LabelledRun

variable {Proc : Type} [DecidableEq Proc]

/-! ## A `send` followed by a `recv` -/

variable {world : World Proc} {process : Proc} {loc rem l r : Slot}

/-- The owner's `send` passes its checks while the peer is alive. -/
theorem checkPair_of_live (consistent : Consistent world) (held : world.stable.Holds process loc)
    (live : world.stable.LivePeer loc rem) :
    checkPair process (world.stable.sock loc).lPort world.stable = .ok (loc, rem) := by
  rw [checkPair_of_holds consistent held,
    live.getsock consistent.table.distinct (consistent.table.remote_valid loc held.2),
    Option.elim_some, if_neg (not_not.mpr live.1)]

theorem send_of_empty (consistent : Consistent world) (held : world.stable.Holds process loc)
    (live : world.stable.LivePeer loc rem) (empty : (world.stable.sock rem).hasfullbuffer = false)
    (data : CStr) (n : Int) :
    send process (world.stable.sock loc).lPort data n world =
      { world := { world with stable := world.stable.modify rem (storeData data n) }.wakeup loc
        code := some 0, out := [], events := [.store loc rem] } := by
  rw [send, checkPair_of_live consistent held live]
  dsimp only
  rw [if_neg (by simp [empty]), sendResume,
    live.getsock consistent.table.distinct (consistent.table.remote_valid loc held.2)]

theorem send_of_full (consistent : Consistent world) (held : world.stable.Holds process loc)
    (live : world.stable.LivePeer loc rem) (full : (world.stable.sock rem).hasfullbuffer = true)
    (data : CStr) (n : Int) :
    send process (world.stable.sock loc).lPort data n world =
      { world := world.sleep process rem (.send loc rem data n)
        code := none, out := [], events := [] } := by
  rw [send, checkPair_of_live consistent held live]
  dsimp only
  rw [if_pos full]

theorem recv_of_live (consistent : Consistent world) (held : world.stable.Holds process loc)
    (live : world.stable.LivePeer loc rem) (full : (world.stable.sock loc).hasfullbuffer = true)
    (n : Int) :
    (recv process (world.stable.sock loc).lPort n world).code = some 0 ∧
      (recv process (world.stable.sock loc).lPort n world).out =
        deliveredBytes (world.stable.sock loc) n := by
  rcases recv_of_full consistent held full n with ⟨-, result⟩ | ⟨dead, -⟩
  · exact result
  · exact absurd ⟨rem, live⟩ dead

omit [DecidableEq Proc] in
theorem recvResume_out (loc : Slot) (n : Int) (world : World Proc) :
    (recvResume loc n world).out = deliveredBytes (world.stable.sock loc) n := by
  simp only [recvResume]
  split <;> rfl

theorem recv_out_congr (process : Proc) (lport n : Int) {first second : World Proc}
    (same : first.stable = second.stable) :
    (recv process lport n first).out = (recv process lport n second).out := by
  have samePair : checkPair process lport first.stable = checkPair process lport second.stable := by
    simp only [checkPair, same]
  rw [recv, recv, samePair]
  cases checkPair process lport second.stable with
  | error code => rfl
  | ok pair =>
    grind [recvResume_out]

theorem recv_after_send (consistent : Consistent world) {sender receiver : Proc}
    (peers : world.stable.Peers l r) (sends : (world.stable.sock l).owner = some sender)
    (receives : (world.stable.sock r).owner = some receiver)
    (empty : (world.stable.sock r).hasfullbuffer = false) (data : CStr) (n m : Int) :
    let sent := send sender (world.stable.sock l).lPort data n world
    let received := recv receiver (world.stable.sock r).lPort m sent.world
    sent.code = some 0 ∧ received.code = some 0 ∧
      received.out =
        strncpyBytes (List.ofFn (strncpy (world.stable.sock r).recvbuffer data n)) m.toNat := by
  have held : world.stable.Holds sender l := ⟨sends, peers.2.1⟩
  rw [send_of_empty consistent held peers.1 empty data n]
  have links : ∀ slot, SameLink ((world.stable.modify r (storeData data n)).sock slot)
      (world.stable.sock slot) :=
    sameLink_modify (sameLink_storeData data n)
  have after : Consistent
      ({ world with stable := world.stable.modify r (storeData data n) }.wakeup l) :=
    consistent.signal links rfl held.not_listening
  have heldAfter : (world.stable.modify r (storeData data n)).Holds receiver r :=
    SockTable.Holds.of_sameLink ⟨receives, peers.1.1⟩ (links r)
  have liveAfter : (world.stable.modify r (storeData data n)).LivePeer r l :=
    ⟨(links l).1.trans peers.2.1, by rw [(links l).2.2.1, (links r).2.2.2]; exact peers.2.2⟩
  have result := recv_of_live after heldAfter liveAfter (by simp [storeData]) m
  rw [World.wakeup_stable, (links r).2.2.1] at result
  refine ⟨rfl, result.1, result.2.trans ?_⟩
  rw [deliveredBytes, SockTable.modify_sock_self]
  rfl

/-! ## The system calls -/

def sysListen (myproc : Proc) (user : UserMemory) (world : World Proc) : Outcome Proc :=
  match user.argint 0 with
  | some port => listen myproc port.toInt world
  | none => retsockfunc world eMissingArg

def sysConnect (myproc : Proc) (user : UserMemory) (world : World Proc) : Outcome Proc :=
  match user.argint 0, user.argstr 1 with
  | some port, some host => connect myproc port.toInt host world
  | _, _ => retsockfunc world eMissingArg

/-- `sys_send`: the length is fetched from argument 0. -/
def sysSend (myproc : Proc) (user : UserMemory) (world : World Proc) : Outcome Proc :=
  match user.argint 0, user.argstr 1, user.argint 0 with
  | some port, some buf, some n => send myproc port.toInt buf n.toInt world
  | _, _, _ => retsockfunc world eMissingArg

def sysRecv (myproc : Proc) (user : UserMemory) (world : World Proc) : Outcome Proc :=
  match user.argint 0, user.argptr 1 4, user.argint 2 with
  | some port, some _, some n => recv myproc port.toInt n.toInt world
  | _, _, _ => retsockfunc world eMissingArg

def sysDisconnect (myproc : Proc) (user : UserMemory) (world : World Proc) : Outcome Proc :=
  match user.argint 0 with
  | some port => disconnect myproc port.toInt world
  | none => retsockfunc world eMissingArg

omit [DecidableEq Proc] in
/-- The user memory after a `recv` has stored its bytes through the pointer. -/
def recvMemory (user : UserMemory) (outcome : Outcome Proc) : UserMemory :=
  match user.argptr 1 4 with
  | some pointer => { user with memory := user.memory.writeBytes pointer outcome.out }
  | none => user

/-- The user stack holds the arguments of `send(lport, buf, n)`. -/
structure SendStack (user : UserMemory) (lport : Int) (buf : CStr) (n : Int) : Prop where
  port : (user.argint 0).map BitVec.toInt = some lport
  text : user.argstr 1 = some buf
  length : (user.argint 2).map BitVec.toInt = some n

/-- The user stack holds the arguments of `recv(rport, out, m)`. -/
structure RecvStack (user : UserMemory) (rport : Int) (out : BitVec 32) (m : Int) : Prop where
  port : (user.argint 0).map BitVec.toInt = some rport
  pointer : user.argptr 1 4 = some out
  length : (user.argint 2).map BitVec.toInt = some m

/-- `sys_send` calls `send` with the port in place of the length. -/
theorem SendStack.sysSend_eq {user : UserMemory} {lport n : Int} {buf : CStr}
    (stack : SendStack user lport buf n) (process : Proc) (world : World Proc) :
    sysSend process user world = send process lport buf lport world := by
  obtain ⟨port, found, rfl⟩ := Option.map_eq_some_iff.mp stack.port
  rw [sysSend, found, stack.text]

theorem RecvStack.sysRecv_eq {user : UserMemory} {rport m : Int} {out : BitVec 32}
    (stack : RecvStack user rport out m) (process : Proc) (world : World Proc) :
    sysRecv process user world = recv process rport m world := by
  obtain ⟨port, found, rfl⟩ := Option.map_eq_some_iff.mp stack.port
  obtain ⟨length, fetched, rfl⟩ := Option.map_eq_some_iff.mp stack.length
  rw [sysRecv, found, stack.pointer, fetched]

/-- A message sent and received through the system calls over a connection with
an empty buffer.  Both calls return zero, and the receiver finds the message
with its NUL exactly when it is shorter than the sender's port number, or the
bytes already in the buffer continue it from there on. -/
theorem payload_round_trip_iff {trace : List (World Proc × Label Proc)} {world : World Proc}
    (run : SockRun trace world) {sender receiver : Proc} {l r : Slot}
    (peers : world.stable.Peers l r) (sends : (world.stable.sock l).owner = some sender)
    (receives : (world.stable.sock r).owner = some receiver)
    (empty : (world.stable.sock r).hasfullbuffer = false) {source target : UserMemory}
    {buf : CStr} {out : BitVec 32} {n m : Int}
    (sendStack : SendStack source (world.stable.sock l).lPort buf n)
    (recvStack : RecvStack target (world.stable.sock r).lPort out m)
    (shorter : (strlen buf.val : Int) < n) (covered : n ≤ m) (bounded : m ≤ sbuffsize)
    {sent received : Outcome Proc} (sending : sysSend sender source world = sent)
    (receiving : sysRecv receiver target sent.world = received) :
    sent.code = some 0 ∧ received.code = some 0 ∧
      ((recvMemory target received).memory.readBytes out (strlen buf.val + 1) = buf.val ++ [0] ↔
        ∀ index : Fin sbuffsize, (world.stable.sock l).lPort ≤ index.val →
          index.val ≤ strlen buf.val →
            (world.stable.sock r).recvbuffer index = buf.val[index.val]?.getD 0) := by
  have length : strlen buf.val = buf.val.length := strlen_eq_length buf.property
  rw [length] at shorter ⊢
  rw [sendStack.sysSend_eq] at sending
  rw [recvStack.sysRecv_eq, ← sending] at receiving
  obtain ⟨sentZero, receivedZero, bytes⟩ := recv_after_send (consistent_of_run run) peers sends
    receives empty buf (world.stable.sock l).lPort m
  rw [sending] at sentZero
  rw [receiving] at receivedZero bytes
  refine ⟨sentZero, receivedZero, ?_⟩
  rw [recvMemory, recvStack.pointer]
  dsimp only
  rw [bytes]
  have small : m.toNat ≤ 128 := by
    change m ≤ 128 at bounded
    omega
  have room : buf.val.length < m.toNat := by omega
  have inside : buf.val.length < sbuffsize := lt_of_lt_of_le room small
  rw [ByteMemory.readBytes_writeBytes _ _ (by rw [strncpyBytes_length]; omega)
      (by rw [strncpyBytes_length]; omega),
    ← startsWith_strncpy_iff buf.property inside,
    ← startsWith_strncpyBytes_iff buf.property room (by rw [List.length_ofFn]; exact inside),
    StartsWith,
    List.prefix_iff_eq_take, List.length_append, List.length_singleton]
  exact eq_comm

/-- A small process image: a stack of three argument words above the saved
program counter, followed by a text at address 16. -/
def argumentImage (first second third : UInt8) (text : List UInt8) : UserMemory where
  sz := 64
  esp := 0
  memory addr :=
    ([0, 0, 0, 0, first, 0, 0, 0, second, 0, 0, 0, third, 0, 0, 0] ++ text).getD addr.toNat 0

def messageAbc : CStr :=
  ⟨[97, 98, 99], by decide⟩

instance (user : UserMemory) (lport n : Int) (buf : CStr) :
    Decidable (SendStack user lport buf n) :=
  decidable_of_iff ((user.argint 0).map BitVec.toInt = some lport ∧ user.argstr 1 = some buf ∧
    (user.argint 2).map BitVec.toInt = some n)
    ⟨fun ⟨port, text, length⟩ => ⟨port, text, length⟩,
      fun ⟨port, text, length⟩ => ⟨port, text, length⟩⟩

instance (user : UserMemory) (rport m : Int) (out : BitVec 32) :
    Decidable (RecvStack user rport out m) :=
  decidable_of_iff ((user.argint 0).map BitVec.toInt = some rport ∧
    user.argptr 1 4 = some out ∧ (user.argint 2).map BitVec.toInt = some m)
    ⟨fun ⟨port, pointer, length⟩ => ⟨port, pointer, length⟩,
      fun ⟨port, pointer, length⟩ => ⟨port, pointer, length⟩⟩

/-- The client at port 127 sends `"abc"` with length 8, and the server receives
it at address 32. -/
theorem payload_round_trip_from_client :
    ∃ (trace : List (World (Fin 3) × Label (Fin 3))) (world : World (Fin 3)),
      SockRun trace world ∧ trace.map Prod.snd = handshake ∧
        SendStack (argumentImage 127 16 8 [97, 98, 99]) 127 messageAbc 8 ∧
        RecvStack (argumentImage 10 32 8 []) 10 32 8 ∧
        (recvMemory (argumentImage 10 32 8 []) (sysRecv 0 (argumentImage 10 32 8 [])
          (sysSend 1 (argumentImage 127 16 8 [97, 98, 99]) world).world)).memory.readBytes 32 4 =
            [97, 98, 99, 0] := by
  refine exists_run_of_test (fun _ world => world.stable.Peers 1 0 ∧
    (world.stable.sock 1).owner = some 1 ∧ (world.stable.sock 0).owner = some 0 ∧
    (world.stable.sock 0).hasfullbuffer = false ∧ (world.stable.sock 1).lPort = 127 ∧
    (world.stable.sock 0).lPort = 10) (by decide +kernel) ?_
  rintro _ world run - ⟨peers, sends, receives, empty, clientPort, serverPort⟩
  have sendStack : SendStack (argumentImage 127 16 8 [97, 98, 99]) 127 messageAbc 8 := by
    decide +kernel
  have recvStack : RecvStack (argumentImage 10 32 8 []) 10 32 8 := by
    decide +kernel
  obtain ⟨-, -, intact⟩ := payload_round_trip_iff run peers sends receives empty
    (clientPort ▸ sendStack) (serverPort ▸ recvStack) (by decide) (by decide) (by decide) rfl rfl
  refine ⟨sendStack, recvStack, intact.mpr ?_⟩
  intro index beyond short
  rw [clientPort] at beyond
  have short : index.val ≤ 3 := short
  omega

/-- The server listens at port 2 and sends `"abc"` with length 8.  Both calls
return zero, but the client receives `"ab"`. -/
theorem payload_cut_by_port :
    ∃ (trace : List (World (Fin 3) × Label (Fin 3))) (world : World (Fin 3)),
      SockRun trace world ∧
        trace.map Prod.snd =
          [.call 0 (.listen 2), .call 1 (.connect 2 localHost), .resume 0] ∧
        world.stable.Peers 0 1 ∧ (world.stable.sock 0).owner = some 0 ∧
        (world.stable.sock 1).owner = some 1 ∧ (world.stable.sock 1).hasfullbuffer = false ∧
        (world.stable.sock 0).lPort = 2 ∧ (world.stable.sock 1).lPort = 127 ∧
        SendStack (argumentImage 2 16 8 [97, 98, 99]) 2 messageAbc 8 ∧
        RecvStack (argumentImage 127 32 8 []) 127 32 8 ∧
        (sysSend 0 (argumentImage 2 16 8 [97, 98, 99]) world).code = some 0 ∧
        (recvMemory (argumentImage 127 32 8 []) (sysRecv 1 (argumentImage 127 32 8 [])
          (sysSend 0 (argumentImage 2 16 8 [97, 98, 99]) world).world)).memory.readBytes 32 4 =
            [97, 98, 0, 0] :=
  exists_run_of_decide (by decide +kernel)

/-! ## Residue of earlier messages -/

/-- The tables differ only in the buffers of slots without unread data. -/
structure SameButResidue (first second : SockTable Proc) : Prop where
  link : ∀ slot, SameLink (first.sock slot) (second.sock slot)
  sid : ∀ slot, (first.sock slot).sid = (second.sock slot).sid
  flag : ∀ slot, (first.sock slot).hasfullbuffer = (second.sock slot).hasfullbuffer
  unread : ∀ slot, (first.sock slot).hasfullbuffer = true →
    (first.sock slot).recvbuffer = (second.sock slot).recvbuffer
  countSock : first.countSock = second.countSock
  nextsid : first.nextsid = second.nextsid

omit [DecidableEq Proc] in
/-- The bytes that stand beyond the first `stored` bytes of a buffer, as a copy
of `copied` bytes reads them. -/
def residue (socket : Sock Proc) (stored copied : Nat) : List UInt8 :=
  strncpyBytes ((List.ofFn socket.recvbuffer).drop stored) (copied - stored)

omit [DecidableEq Proc] in
theorem SockTable.Peers.congr {first second : SockTable Proc} (peers : first.Peers l r)
    (same : SameButResidue first second) : second.Peers l r := by
  have sameL := same.link l
  have sameR := same.link r
  refine ⟨⟨sameR.1.symm.trans peers.1.1, ?_⟩, ⟨sameL.1.symm.trans peers.2.1, ?_⟩⟩
  · rw [← sameR.2.2.1, ← sameL.2.2.2]
    exact peers.1.2
  · rw [← sameL.2.2.1, ← sameR.2.2.2]
    exact peers.2.2

/-- A `recv` after a `send` that sleeps on a full buffer delivers the unread
message. -/
theorem recv_after_blocked_send (consistent : Consistent world) {sender receiver : Proc}
    (peers : world.stable.Peers l r) (sends : (world.stable.sock l).owner = some sender)
    (receives : (world.stable.sock r).owner = some receiver)
    (full : (world.stable.sock r).hasfullbuffer = true) (data : CStr) (n m : Int) :
    (recv receiver (world.stable.sock r).lPort m
      (send sender (world.stable.sock l).lPort data n world).world).out =
        deliveredBytes (world.stable.sock r) m := by
  have held : world.stable.Holds sender l := ⟨sends, peers.2.1⟩
  have heldRecv : world.stable.Holds receiver r := ⟨receives, peers.1.1⟩
  have sameTable : (send sender (world.stable.sock l).lPort data n world).world.stable =
      world.stable := by
    rw [send_of_full consistent held peers.1 full data n]
    rfl
  rw [recv_out_congr receiver _ _ sameTable]
  exact (recv_of_live consistent heldRecv peers.2 full m).2

/-- What a `recv` delivers after a `send` in two tables that differ only in
residue.  With unread data in the buffer it is the same; otherwise it is the
same exactly when the message was stored with its NUL, or the residue beyond
the stored bytes reads the same. -/
theorem residue_unobserved_iff {firstTrace secondTrace : List (World Proc × Label Proc)}
    {first second : World Proc} (firstRun : SockRun firstTrace first)
    (secondRun : SockRun secondTrace second)
    (same : SameButResidue first.stable second.stable) {sender receiver : Proc} {l r : Slot}
    (peers : first.stable.Peers l r) (sends : (first.stable.sock l).owner = some sender)
    (receives : (first.stable.sock r).owner = some receiver) (data : CStr)
    (n m : Fin (sbuffsize + 1)) {lport rport : Int} (fromPort : (first.stable.sock l).lPort = lport)
    (toPort : (first.stable.sock r).lPort = rport) :
    (recv receiver rport m.val (send sender lport data n.val first).world).out =
        (recv receiver rport m.val (send sender lport data n.val second).world).out ↔
      ((first.stable.sock r).hasfullbuffer = false →
        strlen data.val < n.val ∨
          residue (first.stable.sock r) n.val m.val =
            residue (second.stable.sock r) n.val m.val) := by
  have firstConsistent := consistent_of_run firstRun
  have secondConsistent := consistent_of_run secondRun
  have secondPeers := peers.congr same
  have secondSends := (same.link l).2.1.symm.trans sends
  have secondReceives := (same.link r).2.1.symm.trans receives
  have secondFrom := (same.link l).2.2.1.symm.trans fromPort
  have secondTo := (same.link r).2.2.1.symm.trans toPort
  cases full : (first.stable.sock r).hasfullbuffer with
  | true =>
    -- both senders block, and both receivers read the same unread message
    have secondFull := (same.flag r).symm.trans full
    have firstOut := recv_after_blocked_send firstConsistent peers sends receives full data
      n.val m.val
    have secondOut := recv_after_blocked_send secondConsistent secondPeers secondSends
      secondReceives secondFull data n.val m.val
    rw [fromPort, toPort] at firstOut
    rw [secondFrom, secondTo] at secondOut
    rw [firstOut, secondOut, deliveredBytes, deliveredBytes, same.unread r full]
    constructor
    · intro _ empty
      cases empty
    · intro _
      rfl
  | false =>
    have secondEmpty := (same.flag r).symm.trans full
    obtain ⟨-, -, firstOut⟩ := recv_after_send firstConsistent peers sends receives full data
      n.val m.val
    obtain ⟨-, -, secondOut⟩ := recv_after_send secondConsistent secondPeers secondSends
      secondReceives secondEmpty data n.val m.val
    rw [fromPort, toPort] at firstOut
    rw [secondFrom, secondTo] at secondOut
    rw [firstOut, secondOut, Int.toNat_natCast,
      strncpyBytes_strncpy_eq_iff data.property (Nat.lt_succ_iff.mp n.isLt),
      strlen_eq_length data.property]
    exact ⟨fun agree _ => agree, fun agree => agree rfl⟩

instance (first second : Sock Proc) : Decidable (SameLink first second) :=
  inferInstanceAs (Decidable (_ ∧ _))

instance (first second : SockTable Proc) : Decidable (SameButResidue first second) :=
  decidable_of_iff
    ((∀ slot, SameLink (first.sock slot) (second.sock slot)) ∧
      (∀ slot, (first.sock slot).sid = (second.sock slot).sid) ∧
      (∀ slot, (first.sock slot).hasfullbuffer = (second.sock slot).hasfullbuffer) ∧
      (∀ slot, (first.sock slot).hasfullbuffer = true →
        (first.sock slot).recvbuffer = (second.sock slot).recvbuffer) ∧
      first.countSock = second.countSock ∧ first.nextsid = second.nextsid)
    ⟨fun ⟨link, sid, flag, unread, countSock, nextsid⟩ =>
        ⟨link, sid, flag, unread, countSock, nextsid⟩,
      fun ⟨link, sid, flag, unread, countSock, nextsid⟩ =>
        ⟨link, sid, flag, unread, countSock, nextsid⟩⟩

/-- The client at port 127 sends a message and the server at port 10 reads it. -/
def exchange (client server : Proc) (message : CStr) : List (Label Proc) :=
  [.call client (.send 127 message 4), .call server (.recv 10 4)]

def messageAb : CStr :=
  ⟨[65, 66], by decide⟩

def messageAc : CStr :=
  ⟨[65, 67], by decide⟩

/-- After different exchanges, a message that is stored with its NUL is
delivered alike. -/
theorem residue_unobserved_after_exchange :
    ∃ (firstTrace secondTrace : List (World (Fin 3) × Label (Fin 3)))
      (first second : World (Fin 3)),
      SockRun firstTrace first ∧ SockRun secondTrace second ∧
        firstTrace.map Prod.snd = handshake ++ exchange 1 0 messageAb ∧
        secondTrace.map Prod.snd = handshake ++ exchange 1 0 messageAc ∧
        SameButResidue first.stable second.stable ∧
        (recv 0 10 4 (send 1 127 messageA 2 first).world).out =
          (recv 0 10 4 (send 1 127 messageA 2 second).world).out := by
  refine exists_runs_of_test (fun first second => SameButResidue first.stable second.stable ∧
    first.stable.Peers 1 0 ∧ (first.stable.sock 1).owner = some 1 ∧
    (first.stable.sock 0).owner = some 0 ∧ (first.stable.sock 1).lPort = 127 ∧
    (first.stable.sock 0).lPort = 10) (by decide +kernel) ?_
  rintro _ _ _ _ firstRun secondRun ⟨same, peers, sends, receives, clientPort, serverPort⟩
  refine ⟨same, ?_⟩
  refine (residue_unobserved_iff firstRun secondRun same peers sends receives messageA 2 4
    clientPort serverPort).mpr ?_
  exact fun _ => .inl (by decide)

/-- The server at port 10 sends a message and the client reads it.  Both disconnect, and
the same processes connect at port 1. -/
def reconnection (server client : Proc) (message : CStr) : List (Label Proc) :=
  [.call server (.send 10 message 10), .call client (.recv 127 4), .call client (.disconnect 127),
    .call server (.disconnect 10), .call server (.listen 1), .call client (.connect 1 localHost),
    .resume server]

/-- After different exchanges, a message that is cut before its NUL is followed
by what the earlier messages left.  The counts are the ports, as `sys_send` passes them. -/
theorem residue_observed_after_exchange :
    ∃ (firstTrace secondTrace : List (World (Fin 3) × Label (Fin 3)))
      (first second : World (Fin 3)),
      SockRun firstTrace first ∧ SockRun secondTrace second ∧
        firstTrace.map Prod.snd = handshake ++ reconnection 0 1 messageAb ∧
        secondTrace.map Prod.snd = handshake ++ reconnection 0 1 messageAc ∧
        SameButResidue first.stable second.stable ∧ first.stable.Peers 0 1 ∧
        (recv 1 127 4 (send 0 1 messageA 1 first).world).out = [65, 66, 0, 0] ∧
        (recv 1 127 4 (send 0 1 messageA 1 second).world).out = [65, 67, 0, 0] :=
  exists_runs_of_test _ (by decide +kernel) fun _ _ observed => observed

end Socket

end Xv6
