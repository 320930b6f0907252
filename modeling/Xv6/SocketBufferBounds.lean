import Xv6.SocketPayload

/-!
# Accesses to the receive buffers

Neither `send` nor `recv` compares its length with the size of a receive buffer.
`sys_send` passes the port number as the length, which is below the size, so no
`send` ever touches the last byte of a buffer.  That byte is NUL and stops the
copy of every `recv`.  A process enters one of the five system calls with an
arbitrary memory image, from which the arguments are fetched, or goes on after
having been woken.
-/

namespace Xv6

namespace Socket

open CString LabelledRun

variable {Proc : Type}

/-! ## Runs of the system calls -/

inductive SystemCall
  | listen
  | connect
  | send
  | recv
  | disconnect
  deriving DecidableEq

/-- A process enters a system call with its memory, or continues a call. -/
inductive SysLabel (Proc : Type)
  | enter (process : Proc) (systemCall : SystemCall) (user : UserMemory)
  | resume (process : Proc)

/-- The call a system call makes with the arguments it fetches, if it can fetch
them. -/
def SystemCall.fetch (user : UserMemory) : SystemCall → Option Call
  | .listen => (user.argint 0).map fun port => .listen port.toInt
  | .connect =>
    (user.argint 0).bind fun port =>
      (user.argstr 1).map fun host => .connect port.toInt host
  | .send =>
    (user.argint 0).bind fun port =>
      (user.argstr 1).map fun buf => .send port.toInt buf port.toInt
  | .recv =>
    (user.argint 0).bind fun port =>
      (user.argptr 1 4).bind fun _ =>
        (user.argint 2).map fun n => .recv port.toInt n.toInt
  | .disconnect => (user.argint 0).map fun port => .disconnect port.toInt

/-- The segment of a label of the calls, if the arguments can be fetched. -/
def SysLabel.label : SysLabel Proc → Option (Label Proc)
  | .enter process systemCall user => (systemCall.fetch user).map (.call process)
  | .resume process => some (.resume process)

variable [DecidableEq Proc]

def SystemCall.run (myproc : Proc) (user : UserMemory) : SystemCall → World Proc → Outcome Proc
  | .listen => sysListen myproc user
  | .connect => sysConnect myproc user
  | .send => sysSend myproc user
  | .recv => sysRecv myproc user
  | .disconnect => sysDisconnect myproc user

def sysTransition (world : World Proc) : SysLabel Proc → Option (Outcome Proc)
  | .enter process systemCall user =>
    match world.proc process with
    | .user => some (systemCall.run process user world)
    | _ => none
  | .resume process => transition world (.resume process)

def sysStep (world : World Proc) (label : SysLabel Proc) : Option (World Proc) :=
  (sysTransition world label).map Outcome.world

/-- Runs of the system calls by any number of processes, from the empty
table. -/
abbrev SysRun (trace : List (World Proc × SysLabel Proc)) (finish : World Proc) : Prop :=
  Run sysStep World.initial trace finish

theorem SystemCall.run_eq (systemCall : SystemCall) (myproc : Proc) (user : UserMemory)
    (world : World Proc) :
    systemCall.run myproc user world =
      (systemCall.fetch user).elim (retsockfunc world eMissingArg)
        fun call => call.run myproc world := by
  cases systemCall with
  | listen =>
    change sysListen myproc user world = _
    rw [sysListen, fetch]
    cases user.argint 0 <;> rfl
  | connect =>
    change sysConnect myproc user world = _
    rw [sysConnect, fetch]
    cases user.argint 0 <;> cases user.argstr 1 <;> rfl
  | send =>
    change sysSend myproc user world = _
    rw [sysSend, fetch]
    cases user.argint 0 <;> cases user.argstr 1 <;> rfl
  | recv =>
    change sysRecv myproc user world = _
    rw [sysRecv, fetch]
    cases user.argint 0 <;> cases user.argptr 1 4 <;> cases user.argint 2 <;> rfl
  | disconnect =>
    change sysDisconnect myproc user world = _
    rw [sysDisconnect, fetch]
    cases user.argint 0 <;> rfl

variable {world : World Proc} {slot loc rem : Slot} {label : Label Proc}

/-- A segment of a system call leaves the world as it is or is a segment of
the call it makes. -/
theorem sysStep_cases {next : World Proc} {sysLabel : SysLabel Proc}
    (stepped : sysStep world sysLabel = some next) :
    next = world ∨ ∃ label, sysLabel.label = some label ∧ step world label = some next := by
  cases sysLabel with
  | resume process => exact .inr ⟨.resume process, rfl, stepped⟩
  | enter process systemCall user =>
    cases state : world.proc process with
    | sleeping chan frame => simp [sysStep, sysTransition, state] at stepped
    | runnable frame => simp [sysStep, sysTransition, state] at stepped
    | user =>
      have ran : (systemCall.run process user world).world = next := by
        simpa [sysStep, sysTransition, state] using stepped
      rw [SystemCall.run_eq] at ran
      cases fetched : systemCall.fetch user with
      | none =>
        rw [fetched] at ran
        exact .inl ran.symm
      | some call =>
        rw [fetched] at ran
        refine .inr ⟨.call process call, by rw [SysLabel.label, fetched]; rfl, ?_⟩
        rw [step, transition_call_iff.mpr ⟨state, rfl⟩]
        exact congrArg some ran

/-! ## The last byte of every buffer -/

omit [DecidableEq Proc] in
def lastIndex : Fin sbuffsize :=
  ⟨sbuffsize - 1, by decide⟩

/-- The length a blocked `send` has kept on its stack, if the process is in
one. -/
def ProcState.sendLength : ProcState → Option Int
  | .sleeping _ (.send _ _ _ n) | .runnable (.send _ _ _ n) => some n
  | _ => none

/-- The last byte of every buffer is NUL, and a blocked `send` has a port number
as its length. -/
structure BuffersTerminated (world : World Proc) : Prop where
  last : ∀ slot, (world.stable.sock slot).recvbuffer lastIndex = 0
  length : ∀ process n, (world.proc process).sendLength = some n → ValidPort n

omit [DecidableEq Proc] in
@[simp]
theorem ProcState.sendLength_wakeup1 (state : ProcState) (chan : Slot) :
    (state.wakeup1 chan).sendLength = state.sendLength := by
  cases state with
  | user => rfl
  | runnable frame => rfl
  | sleeping sleepChan frame =>
    by_cases woken : sleepChan = chan
    · cases frame <;> simp [wakeup1, woken, sendLength]
    · simp [wakeup1, woken]

omit [DecidableEq Proc] in
theorem setsockvalue_lastIndex (sid : Int) (state : SockState) (owner : Option Proc)
    (lPort rPort : Int) (hasfullbuffer : Bool) (socket : Sock Proc) :
    (setsockvalue sid state owner lPort rPort hasfullbuffer [] true socket).recvbuffer lastIndex =
      socket.recvbuffer lastIndex := by
  change strncpy socket.recvbuffer [] 1 lastIndex = _
  apply strncpy_apply_of_le
  decide

omit [DecidableEq Proc] in
theorem storeData_lastIndex {n : Int} (valid : ValidPort n) (data : CStr) (socket : Sock Proc) :
    (storeData data n socket).recvbuffer lastIndex = socket.recvbuffer lastIndex := by
  apply strncpy_apply_of_le
  have below : n < 128 := valid.2
  change n ≤ 127
  omega

omit [DecidableEq Proc] in
theorem emptyBuffer_lastIndex (socket : Sock Proc) :
    (emptyBuffer socket).recvbuffer lastIndex = socket.recvbuffer lastIndex := by
  change Function.update socket.recvbuffer 0 0 lastIndex = _
  apply Function.update_of_ne
  decide

omit [DecidableEq Proc] in
theorem modify_lastIndex {table : SockTable Proc} {change : Sock Proc → Sock Proc}
    (keeps : (change (table.sock slot)).recvbuffer lastIndex =
      (table.sock slot).recvbuffer lastIndex)
    (other : Slot) :
    ((table.modify slot change).sock other).recvbuffer lastIndex =
      (table.sock other).recvbuffer lastIndex := by
  grind [SockTable.modify_sock_self, SockTable.modify_sock_of_ne]

omit [DecidableEq Proc] in
theorem dropsock_lastIndex (table : SockTable Proc) (slot other : Slot) :
    ((table.dropsock slot).sock other).recvbuffer lastIndex =
      (table.sock other).recvbuffer lastIndex :=
  modify_lastIndex (setsockvalue_lastIndex ..) other

omit [DecidableEq Proc] in
theorem listenTable_lastIndex (table : SockTable Proc) (process : Proc) (lport : Int)
    (slot other : Slot) :
    ((table.listenTable process lport slot).sock other).recvbuffer lastIndex =
      (table.sock other).recvbuffer lastIndex := by
  by_cases same : other = slot
  · subst same
    rw [SockTable.listenTable_sock_self, setsockvalue_lastIndex]
  · rw [table.listenTable_sock_of_ne process lport same]

omit [DecidableEq Proc] in
theorem connectTable_lastIndex (table : SockTable Proc) (process : Proc) (lport : Int)
    (different : rem ≠ loc) (other : Slot) :
    ((table.connectTable process lport loc rem).sock other).recvbuffer lastIndex =
      (table.sock other).recvbuffer lastIndex := by
  by_cases isClient : other = loc
  · subst isClient
    rw [table.connectTable_sock_client process lport different]
    exact setsockvalue_lastIndex ..
  · by_cases isListener : other = rem
    · subst isListener
      rw [table.connectTable_sock_listener process lport different]
    · rw [table.connectTable_sock_of_ne process lport isClient isListener]

omit [DecidableEq Proc] in
theorem BuffersTerminated.of_keeps {next : World Proc} (holds : BuffersTerminated world)
    (lasts : ∀ slot, (next.stable.sock slot).recvbuffer lastIndex =
      (world.stable.sock slot).recvbuffer lastIndex)
    (lengths : ∀ process n, (next.proc process).sendLength = some n →
      (world.proc process).sendLength = some n ∨ ValidPort n) :
    BuffersTerminated next := by
  constructor
  · intro slot
    rw [lasts slot, holds.last slot]
  · intro process n inSend
    rcases lengths process n inSend with before | valid
    · exact holds.length process n before
    · exact valid

omit [DecidableEq Proc] in
theorem BuffersTerminated.remove (holds : BuffersTerminated world) (slot : Slot) :
    BuffersTerminated (world.removesock slot) := by
  apply holds.of_keeps (dropsock_lastIndex world.stable slot)
  intro process n inSend
  rw [World.removesock_proc, ProcState.sendLength_wakeup1] at inSend
  exact .inl inSend

omit [DecidableEq Proc] in
theorem BuffersTerminated.signal (holds : BuffersTerminated world)
    {change : Sock Proc → Sock Proc}
    (keeps : (change (world.stable.sock slot)).recvbuffer lastIndex =
      (world.stable.sock slot).recvbuffer lastIndex)
    (chan : Slot) :
    BuffersTerminated ({ world with stable := world.stable.modify slot change }.wakeup chan) := by
  apply holds.of_keeps (modify_lastIndex keeps)
  intro process n inSend
  rw [World.wakeup_proc, ProcState.sendLength_wakeup1] at inSend
  exact .inl inSend

theorem BuffersTerminated.setProc (holds : BuffersTerminated world) {process : Proc}
    {state : ProcState} (length : ∀ n, state.sendLength = some n → ValidPort n) :
    BuffersTerminated (world.setProc process state) := by
  apply holds.of_keeps
  · intro slot
    rfl
  intro other n inSend
  by_cases same : other = process
  · simp_all
  · rw [World.setProc_proc_of_ne _ _ same] at inSend
    exact .inl inSend

theorem validPort_of_checkPair {myproc : Proc} {lport : Int} {table : SockTable Proc}
    (passed : checkPair myproc lport table = .ok (loc, rem)) : ValidPort lport :=
  (SockTable.getsock_spec (checkPair_spec passed).1).1

theorem SendReady.validPort (holds : BuffersTerminated world) {data : CStr} {n : Int}
    (ready : SendReady world label loc rem data n) : ValidPort n := by
  cases ready with
  | direct _ passed _ => exact validPort_of_checkPair passed
  | @resumed process _ _ _ _ woken => exact holds.length process n (by rw [woken]; rfl)

/-- Every segment keeps the last byte of every buffer. -/
theorem Effect.buffers_terminated {outcome : Outcome Proc} (effect : Effect world label outcome)
    (holds : BuffersTerminated world) : BuffersTerminated outcome.world := by
  have entered : BuffersTerminated (world.entered label) := holds.setProc nofun
  cases effect with
  | refused => exact holds
  | accepted => exact entered
  | @listened process lport slot _ _ _ free =>
    have opened : BuffersTerminated
        { world with stable := world.stable.listenTable process lport slot } :=
      holds.of_keeps (listenTable_lastIndex world.stable process lport slot)
        fun _ _ inSend => .inl inSend
    exact opened.setProc nofun
  | @connected process _ _ loc rem _ _ listening _ _ free =>
    apply holds.of_keeps (connectTable_lastIndex world.stable process _
      (listener_ne_client listening free))
    intro other n inSend
    rw [World.wakeup_proc, ProcState.sendLength_wakeup1] at inSend
    exact .inl inSend
  | sendBlocked _ passed _ =>
    apply holds.setProc
    intro n inSend
    cases inSend
    exact validPort_of_checkPair passed
  | recvBlocked => exact holds.setProc nofun
  | @stored _ loc rem _ data n ready _ =>
    exact entered.signal (storeData_lastIndex (ready.validPort holds) data _) loc
  | sendReset => exact entered.remove _
  | @delivered _ loc _ n ready _ => exact entered.signal (emptyBuffer_lastIndex _) loc
  | @recvReset _ loc n ready _ => exact (entered.signal (emptyBuffer_lastIndex _) loc).remove loc
  | disconnected => exact holds.remove _
  | exited => exact World.closeprocsocksLoop_invariant _ (fun holds _ _ => holds.remove _) _ holds

theorem buffers_terminated_throughout {trace : List (World Proc × SysLabel Proc)}
    {finish : World Proc} (run : SysRun trace finish) :
    Throughout BuffersTerminated trace finish := by
  apply run.always BuffersTerminated
  · exact ⟨fun _ => rfl, fun _ _ inSend => by cases inSend⟩
  · intro world sysLabel next holds stepped
    rcases sysStep_cases stepped with rfl | ⟨label, -, stepped⟩
    · exact holds
    · obtain ⟨outcome, moved, rfl⟩ := transition_of_step stepped
      exact (effect_of_transition moved).buffers_terminated holds

/-! ## The accesses of a segment -/

/-- The accesses of a segment to the receive buffers.  The copy of `send` runs
on the memory of the user's string, that of `recv` on the memory of the buffer
and whatever follows it.  A buffer is cleared by storing its first byte. -/
inductive BufferAccess (world : World Proc) (label : Label Proc) : Slot → CopyAccess → Prop
  | sent {loc rem : Slot} {data : CStr} {n : Int} {source : Nat → UInt8} {index : Nat}
      {byte : UInt8} :
      SendReady world label loc rem data n →
      world.stable.getsock (world.stable.sock loc).rPort ≠ none →
      HoldsString source data.val → .store index byte ∈ strncpyAccesses source 0 n.toNat →
        BufferAccess world label rem (.store index byte)
  | received {loc : Slot} {n : Int} {source : Nat → UInt8} {index : Nat} :
      RecvReady world label loc n →
      (∀ index : Fin sbuffsize, source index = (world.stable.sock loc).recvbuffer index) →
      .load index ∈ strncpyAccesses source 0 n.toNat →
        BufferAccess world label loc (.load index)
  | emptied {loc : Slot} {n : Int} :
      RecvReady world label loc n → BufferAccess world label loc (.store 0 0)
  | cleared {slot : Slot} {event : Event} {access : CopyAccess} :
      event ∈ events world label →
      (∃ port, event = .alloc slot port) ∨ (∃ state, event = .remove slot state) →
      access ∈ padAccesses 0 1 → BufferAccess world label slot access

theorem BufferAccess.index_lt {access : CopyAccess} (holds : BuffersTerminated world)
    (accesses : BufferAccess world label slot access) : access.index < sbuffsize := by
  cases accesses with
  | @sent loc rem data n source index byte ready found string member =>
    have inside := strncpyAccesses_index_lt member
    have valid : n < 128 := (ready.validPort holds).2
    change index < 128
    change index < 0 + n.toNat at inside
    omega
  | @received loc n source index ready agrees member =>
    have nul : source lastIndex = 0 := by rw [agrees lastIndex, holds.last slot]
    exact Nat.lt_succ_of_le (strncpyAccesses_load_le nul (Nat.zero_le _) member)
  | emptied => decide
  | cleared logged kind member => exact (padAccesses_index_lt member).trans (by decide)

/-- In every run of the socket system calls, with whatever arguments, every
receive buffer holds a NUL and every access to a buffer stays inside it. -/
theorem buffer_accesses_in_bounds {trace : List (World Proc × SysLabel Proc)}
    {finish : World Proc} (run : SysRun trace finish) :
    Throughout (fun world : World Proc => ∀ slot, ∃ index : Fin sbuffsize,
        (world.stable.sock slot).recvbuffer index = 0) trace finish ∧
      ∀ entry ∈ trace, ∀ label slot access, entry.2.label = some label →
        BufferAccess entry.1 label slot access → access.index < sbuffsize := by
  obtain ⟨visited, last⟩ := buffers_terminated_throughout run
  refine ⟨⟨fun entry member slot => ⟨lastIndex, (visited entry member).last slot⟩,
    fun slot => ⟨lastIndex, last.last slot⟩⟩, ?_⟩
  intro entry member label slot access _ accesses
  exact accesses.index_lt (visited entry member)

omit [DecidableEq Proc] in
/-- A server listens at port 10, its client sends `"abc"` from port 127, and the
server asks for 120 bytes. -/
def exchangeCalls (server client : Proc) : List (SysLabel Proc) :=
  [.enter server .listen (argumentImage 10 0 0 []),
    .enter client .connect (argumentImage 10 16 0 localhost), .resume server,
    .enter client .send (argumentImage 127 16 8 [97, 98, 99]),
    .enter server .recv (argumentImage 10 32 120 [])]

theorem buffer_accesses_of_exchange :
    ∃ (trace : List (World (Fin 3) × SysLabel (Fin 3))) (finish : World (Fin 3)),
      SysRun trace finish ∧ trace.map Prod.snd = exchangeCalls 0 1 ∧
        (finish.stable.sock 0).recvbuffer 1 = 98 ∧
        ∀ entry ∈ trace, ∀ label slot access, entry.2.label = some label →
          BufferAccess entry.1 label slot access → access.index < sbuffsize := by
  refine exists_run_of_test (fun _ finish => (finish.stable.sock 0).recvbuffer 1 = 98)
    (by decide +kernel) ?_
  exact fun _ _ run _ stored => ⟨stored, (buffer_accesses_in_bounds run).2⟩

end Socket

end Xv6
