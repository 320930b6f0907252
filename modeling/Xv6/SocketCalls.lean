import Xv6.LabelledRuns
import Xv6.SocketTable

/-!
# The socket calls as atomic segments

`listen`, `connect`, `send`, `recv`, `disconnect` and the socket part of
`exit` run under `stable.lock`; only `sleep` gives the lock up.  Each call is
therefore one atomic segment, or two when it sleeps: the code up to the
`sleep`, and the code after it, which runs with the pointers taken before.

The state pairs the socket table with what every process is doing.  A step is
labelled by the process that moves and by the call it makes, and reports the
returned code, the bytes `recv` stores through the user's pointer, and a log
of what happened to the slots.
-/

namespace Xv6

namespace Socket

open CString LabelledRun

/-- The local variables a call keeps across its `sleep`. -/
inductive Frame
  | listen (lport : Int) (slot : Slot)
  | send (loc rem : Slot) (data : CStr) (n : Int)
  | recv (loc rem : Slot) (n : Int)

/-- Where a process stands with respect to the socket calls.  A process whose
slot is recycled after `exit` starts again in `user`. -/
inductive ProcState
  | user
  | sleeping (chan : Slot) (frame : Frame)
  | runnable (frame : Frame)

def ProcState.wakeup1 (chan : Slot) : ProcState → ProcState
  | .sleeping sleepChan frame =>
    if sleepChan = chan then .runnable frame else .sleeping sleepChan frame
  | other => other

theorem ProcState.wakeup1_eq_runnable {chan : Slot} {state : ProcState} {frame : Frame} :
    state.wakeup1 chan = .runnable frame ↔
      state = .runnable frame ∨ state = .sleeping chan frame := by
  cases state with
  | user => simp [wakeup1]
  | runnable other => simp [wakeup1]
  | sleeping sleepChan other =>
    by_cases same : sleepChan = chan <;> simp [wakeup1, same]

theorem ProcState.wakeup1_eq_sleeping {chan sleepChan : Slot} {state : ProcState}
    {frame : Frame} :
    state.wakeup1 chan = .sleeping sleepChan frame ↔
      state = .sleeping sleepChan frame ∧ sleepChan ≠ chan := by
  cases state with
  | user => simp [wakeup1]
  | runnable other => simp [wakeup1]
  | sleeping otherChan other =>
    grind [wakeup1, ProcState.sleeping.injEq]

theorem ProcState.wakeup1_eq_user {chan : Slot} {state : ProcState} :
    state.wakeup1 chan = .user ↔ state = .user := by
  cases state with
  | user => simp [wakeup1]
  | runnable other => simp [wakeup1]
  | sleeping sleepChan other =>
    by_cases same : sleepChan = chan <;> simp [wakeup1, same]

structure World (Proc : Type) where
  stable : SockTable Proc
  proc : Proc → ProcState

/-- What a segment does to the slots, in program order.  `remove` carries the
state the slot has when `removesock` is called. -/
inductive Event
  | alloc (slot : Slot) (port : Int)
  | pair (listener client : Slot) (port : Int)
  | store (loc rem : Slot)
  | deliver (loc : Slot)
  | remove (slot : Slot) (state : SockState)
  deriving DecidableEq

/-- The result of a segment.  There is no code when the process sleeps or
exits. -/
structure Outcome (Proc : Type) where
  world : World Proc
  code : Option Int
  out : List UInt8
  events : List Event

variable {Proc : Type}

/-- `retsockfunc`: release the lock and return a code. -/
def retsockfunc (world : World Proc) (code : Int) : Outcome Proc :=
  { world := world, code := some code, out := [], events := [] }

namespace World

def initial : World Proc where
  stable := .initial
  proc _ := .user

/-- `wakeup`: make every process sleeping on `chan` runnable. -/
def wakeup (world : World Proc) (chan : Slot) : World Proc :=
  { world with proc := fun process => (world.proc process).wakeup1 chan }

/-- `removesock`: wake the sleepers of the slot and close it. -/
def removesock (world : World Proc) (slot : Slot) : World Proc :=
  { world.wakeup slot with stable := world.stable.dropsock slot }

variable [DecidableEq Proc]

def setProc (world : World Proc) (process : Proc) (state : ProcState) : World Proc :=
  { world with proc := Function.update world.proc process state }

/-- `sleep`: release the lock and wait on `chan`. -/
def sleep (world : World Proc) (myproc : Proc) (chan : Slot) (frame : Frame) : World Proc :=
  world.setProc myproc (.sleeping chan frame)

/-- The loop of `closeprocsocks`, for at most `fuel` sockets. -/
def closeprocsocksLoop (process : Proc) : Nat → World Proc → World Proc × List Event
  | 0, world => (world, [])
  | fuel + 1, world =>
    match world.stable.getprocsock process with
    | none => (world, [])
    | some slot =>
      let rest := closeprocsocksLoop process fuel (world.removesock slot)
      (rest.1, .remove slot (world.stable.sock slot).state :: rest.2)

theorem closeprocsocksLoop_succ (process : Proc) (fuel : Nat) (world : World Proc) :
    closeprocsocksLoop process (fuel + 1) world =
      match world.stable.getprocsock process with
      | none => (world, [])
      | some slot =>
        ((closeprocsocksLoop process fuel (world.removesock slot)).1,
          .remove slot (world.stable.sock slot).state ::
            (closeprocsocksLoop process fuel (world.removesock slot)).2) :=
  rfl

/-- `closeprocsocks`: every iteration closes a slot, so `nsock` of them reach
the end of the loop. -/
def closeprocsocks (process : Proc) (world : World Proc) : World Proc × List Event :=
  closeprocsocksLoop process nsock world

/-! ## Fields after the world updates -/

section Fields

omit [DecidableEq Proc]

@[simp]
theorem wakeup_stable (world : World Proc) (chan : Slot) :
    (world.wakeup chan).stable = world.stable :=
  rfl

@[simp]
theorem wakeup_proc (world : World Proc) (chan : Slot) (process : Proc) :
    (world.wakeup chan).proc process = (world.proc process).wakeup1 chan :=
  rfl

@[simp]
theorem removesock_stable (world : World Proc) (slot : Slot) :
    (world.removesock slot).stable = world.stable.dropsock slot :=
  rfl

@[simp]
theorem removesock_proc (world : World Proc) (slot : Slot) (process : Proc) :
    (world.removesock slot).proc process = (world.proc process).wakeup1 slot :=
  rfl

end Fields

@[simp]
theorem setProc_stable (world : World Proc) (process : Proc) (state : ProcState) :
    (world.setProc process state).stable = world.stable :=
  rfl

@[simp]
theorem setProc_proc_self (world : World Proc) (process : Proc) (state : ProcState) :
    (world.setProc process state).proc process = state := by
  simp [setProc]

theorem setProc_proc_of_ne (world : World Proc) {process other : Proc} (state : ProcState)
    (different : other ≠ process) :
    (world.setProc process state).proc other = world.proc other := by
  simp [setProc, different]

@[simp]
theorem sleep_stable (world : World Proc) (process : Proc) (chan : Slot) (frame : Frame) :
    (world.sleep process chan frame).stable = world.stable :=
  rfl

@[simp]
theorem sleep_proc_self (world : World Proc) (process : Proc) (chan : Slot) (frame : Frame) :
    (world.sleep process chan frame).proc process = .sleeping chan frame :=
  world.setProc_proc_self process _

theorem sleep_proc_of_ne (world : World Proc) {process other : Proc} (chan : Slot)
    (frame : Frame) (different : other ≠ process) :
    (world.sleep process chan frame).proc other = world.proc other :=
  world.setProc_proc_of_ne _ different

end World

def localhost : List UInt8 := [108, 111, 99, 97, 108, 104, 111, 115, 116]

def localHost : CStr :=
  ⟨localhost, by decide⟩

def loopback : List UInt8 := [49, 50, 55, 46, 48, 46, 48, 46, 49]

/-- The host test of `connect`, bounded by the length of the user's string. -/
def HostAccepted (host : CStr) : Prop :=
  strncmp host localhost (strlen host) = 0 ∨ strncmp host loopback (strlen host) = 0

instance (host : CStr) : Decidable (HostAccepted host) :=
  inferInstanceAs (Decidable (_ ∨ _))

/-- The assignments of `connect` to the new socket and to the listener. -/
def pairsocks (table : SockTable Proc) (loc rem : Slot) : SockTable Proc :=
  (table.modify loc fun socket =>
    { socket with
      state := .connected, rPort := (table.sock rem).lPort, hasfullbuffer := false }).modify
    rem fun socket =>
    { socket with
      state := .connected, rPort := (table.sock loc).lPort, hasfullbuffer := false }

/-- The copy of `send` into the peer's buffer. -/
def storeData (data : CStr) (n : Int) (socket : Sock Proc) : Sock Proc :=
  { socket with recvbuffer := strncpy socket.recvbuffer data n, hasfullbuffer := true }

/-- `recv` empties its buffer by clearing the first byte. -/
def emptyBuffer (socket : Sock Proc) : Sock Proc :=
  { socket with recvbuffer := Function.update socket.recvbuffer 0 0, hasfullbuffer := false }

/-- The bytes `recv` copies to the user. -/
def deliveredBytes (socket : Sock Proc) (n : Int) : List UInt8 :=
  strncpyBytes (List.ofFn socket.recvbuffer) n.toNat

/-- `send` after the full buffer has been waited for. -/
def sendResume (loc rem : Slot) (data : CStr) (n : Int) (world : World Proc) : Outcome Proc :=
  match world.stable.getsock (world.stable.sock loc).rPort with
  | none =>
    { world := world.removesock loc
      code := some eConnectionResetByRemote
      out := []
      events := [.remove loc (world.stable.sock loc).state] }
  | some _ =>
    { world := { world with stable := world.stable.modify rem (storeData data n) }.wakeup loc
      code := some 0
      out := []
      events := [.store loc rem] }

/-- `recv` after the empty buffer has been waited for. -/
def recvResume (loc : Slot) (n : Int) (world : World Proc) : Outcome Proc :=
  let emptied := { world with stable := world.stable.modify loc emptyBuffer }.wakeup loc
  let out := deliveredBytes (world.stable.sock loc) n
  match emptied.stable.getsock (emptied.stable.sock loc).rPort with
  | none =>
    { world := emptied.removesock loc
      code := some eConnectionResetByRemote
      out := out
      events := [.deliver loc, .remove loc (emptied.stable.sock loc).state] }
  | some _ =>
    { world := emptied, code := some 0, out := out, events := [.deliver loc] }

variable [DecidableEq Proc]

/-- `listen`, up to its `sleep`. -/
def listen (myproc : Proc) (lport : Int) (world : World Proc) : Outcome Proc :=
  if ¬ ValidPort lport then retsockfunc world eInvalidArg
  else if world.stable.countSock = nsock then retsockfunc world eFail
  else
    match world.stable.allocsock myproc lport with
    | none => retsockfunc world eAccessDenied
    | some (slot, table) =>
      { world :=
          { world with
            stable := table.modify slot fun socket =>
              { socket with state := .listening } }.sleep myproc slot (.listen lport slot)
        code := none
        out := []
        events := [.alloc slot lport] }

def connect (myproc : Proc) (rport : Int) (host : CStr) (world : World Proc) : Outcome Proc :=
  if ¬ ValidPort rport then retsockfunc world eInvalidArg
  else if ¬ HostAccepted host then retsockfunc world eInvalidArg
  else
    let lport := world.stable.getfreeport
    if lport = invPort then retsockfunc world eFail
    else
      match world.stable.getsock rport with
      | none => retsockfunc world eNotfound
      | some rem =>
        if (world.stable.sock rem).state ≠ .listening then retsockfunc world eWrongState
        else
          match world.stable.allocsock myproc lport with
          | none => retsockfunc world eFail
          | some (loc, table) =>
            { world := { world with stable := pairsocks table loc rem }.wakeup rem
              code := some lport
              out := []
              events := [.alloc loc lport, .pair rem loc lport] }

/-- The checks `send` and `recv` share: the caller's connected socket at the
port and its connected peer. -/
def checkPair (myproc : Proc) (lport : Int) (table : SockTable Proc) : Except Int (Slot × Slot) :=
  if ¬ ValidPort lport then .error eInvalidArg
  else
    match table.getsock lport with
    | none => .error eNotfound
    | some loc =>
      if (table.sock loc).owner ≠ some myproc then .error eAccessDenied
      else if (table.sock loc).state ≠ .connected then .error eWrongState
      else
        match table.getsock (table.sock loc).rPort with
        | none => .error eNotfound
        | some rem =>
          if (table.sock rem).state ≠ .connected then .error eWrongState
          else .ok (loc, rem)

/-- `send`, up to its `sleep` or to its end. -/
def send (myproc : Proc) (lport : Int) (data : CStr) (n : Int) (world : World Proc) :
    Outcome Proc :=
  match checkPair myproc lport world.stable with
  | .error code => retsockfunc world code
  | .ok (loc, rem) =>
    if (world.stable.sock rem).hasfullbuffer then
      { world := world.sleep myproc rem (.send loc rem data n)
        code := none, out := [], events := [] }
    else
      sendResume loc rem data n world

/-- `recv`, up to its `sleep` or to its end. -/
def recv (myproc : Proc) (lport : Int) (n : Int) (world : World Proc) : Outcome Proc :=
  match checkPair myproc lport world.stable with
  | .error code => retsockfunc world code
  | .ok (loc, rem) =>
    if ¬ (world.stable.sock loc).hasfullbuffer then
      { world := world.sleep myproc rem (.recv loc rem n)
        code := none, out := [], events := [] }
    else
      recvResume loc n world

def disconnect (myproc : Proc) (lport : Int) (world : World Proc) : Outcome Proc :=
  if ¬ ValidPort lport then retsockfunc world eInvalidArg
  else
    match world.stable.getsock lport with
    | none => retsockfunc world eNotfound
    | some loc =>
      if (world.stable.sock loc).owner ≠ some myproc then retsockfunc world eAccessDenied
      else
        { world := world.removesock loc
          code := some 0
          out := []
          events := [.remove loc (world.stable.sock loc).state] }

def exit (myproc : Proc) (world : World Proc) : Outcome Proc :=
  { world := (world.closeprocsocks myproc).1
    code := none
    out := []
    events := (world.closeprocsocks myproc).2 }

inductive Call
  | listen (lport : Int)
  | connect (rport : Int) (host : CStr)
  | send (lport : Int) (buf : CStr) (n : Int)
  | recv (lport : Int) (n : Int)
  | disconnect (lport : Int)
  | exit

/-- Dispatch of a system call.  `sys_send` fetches its argument 0 a second
time where the length is meant, so `send` gets the port as its length. -/
def Call.run (myproc : Proc) : Call → World Proc → Outcome Proc
  | .listen lport => Socket.listen myproc lport
  | .connect rport host => Socket.connect myproc rport host
  | .send lport buf _ => Socket.send myproc lport buf lport
  | .recv lport n => Socket.recv myproc lport n
  | .disconnect lport => Socket.disconnect myproc lport
  | .exit => Socket.exit myproc

def Frame.run : Frame → World Proc → Outcome Proc
  | .listen _ _ => fun world => retsockfunc world 0
  | .send loc rem data n => sendResume loc rem data n
  | .recv loc _ n => recvResume loc n

/-- A process enters a system call, or takes the lock again after having been
woken. -/
inductive Label (Proc : Type)
  | call (process : Proc) (call : Call)
  | resume (process : Proc)

def Label.actor : Label Proc → Proc
  | .call process _ => process
  | .resume process => process

/-- One atomic segment.  Only a process in user code makes a call, and only a
runnable one resumes. -/
def transition (world : World Proc) : Label Proc → Option (Outcome Proc)
  | .call process call =>
    match world.proc process with
    | .user => some (call.run process world)
    | _ => none
  | .resume process =>
    match world.proc process with
    | .runnable frame => some (frame.run (world.setProc process .user))
    | _ => none

def step (world : World Proc) (label : Label Proc) : Option (World Proc) :=
  (transition world label).map Outcome.world

def events (world : World Proc) (label : Label Proc) : List Event :=
  ((transition world label).map Outcome.events).getD []

abbrev SockRun (trace : List (World Proc × Label Proc)) (finish : World Proc) : Prop :=
  Run step World.initial trace finish

def history (trace : List (World Proc × Label Proc)) : List Event :=
  trace.flatMap fun entry => events entry.1 entry.2

end Socket

end Xv6
