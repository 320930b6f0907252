import Xv6.LockMachine
import Xv6.SocketCalls

/-!
# Kernel routines between lock operations

The routines of `proc.c` and `sock.c` with every `acquire`, `release` and
`sched` written out.  What a routine does between two lock operations is one
change of the kernel data; the instructions after it depend on what it found.
The socket helpers are those of the socket table.

The rest of the kernel takes part only with its locks.  `exit` closes files
and other system calls and interrupts use the file system, the console and the
clock; their code is a list of sections under one lock each, in which they may
sleep and wake others.
-/

namespace Xv6

namespace KernelLock

open CString LockMachine Socket

abbrev nproc : Nat := 64

/-- A pointer into `ptable.proc`. -/
abbrev Proc : Type := Fin nproc

/-- The spinlocks: `stable.lock`, `ptable.lock`, `kmem.lock`, and those of the
file system, the console, the clock and the devices. -/
inductive Lock
  | other (index : Nat)
  | stable
  | ptable
  | kmem
  deriving DecidableEq

inductive Chan
  | sock (slot : Slot)
  | proc (process : Proc)
  | other (index : Nat)
  deriving DecidableEq

inductive Procstate
  | unused
  | embryo
  | sleeping
  | runnable
  | running
  | zombie
  deriving DecidableEq

/-- `struct proc`: of its page table the number of pages it maps, of its trap
frame the register with the result of a system call, and of its memory the
bytes that `recv` stored last. -/
structure ProcEntry where
  state : Procstate
  pid : Int
  parent : Option Proc
  chan : Option Chan
  killed : Bool
  pages : Nat
  eax : Int
  out : List UInt8

structure KernelData where
  stable : SockTable Proc
  ptable : Proc → ProcEntry
  initproc : Proc

namespace KernelData

def setProc (data : KernelData) (process : Proc) (change : ProcEntry → ProcEntry) : KernelData :=
  { data with ptable := Function.update data.ptable process (change (data.ptable process)) }

def setState (data : KernelData) (process : Proc) (state : Procstate) : KernelData :=
  data.setProc process fun entry => { entry with state := state }

def isRunning (data : KernelData) (process : Proc) : Bool :=
  (data.ptable process).state = .running

end KernelData

def ProcEntry.wakeup1 (chan : Option Chan) (entry : ProcEntry) : ProcEntry :=
  if entry.state = .sleeping ∧ entry.chan = chan then { entry with state := .runnable } else entry

/-- What the rest of the kernel does under one of its locks. -/
inductive Action
  | sleep (chan : Nat)
  | wakeup (chan : Nat)

/-- A section of the rest of the kernel: code under one lock, or the allocation
or release of a page. -/
inductive Section
  | locked (index : Nat) (actions : List Action)
  | page

/-- The routines.  Those of `proc.c` and `sock.c` are split where they read or
change the data. -/
inductive Routine
  | ret (code : Int)
  | wakeup (chan : Option Chan)
  | wakeup1 (chan : Option Chan)
  | sleep (chan : Chan) (lk : Lock)
  | block (chan : Chan)
  | tidyUp
  | yield
  | setRunnable
  | kill (pid : Int)
  | killScan (pid : Int)
  | wakeKilled (process : Proc)
  | exit (files : List Section)
  | passChildren
  | zombieExit
  | wait
  | waitScan
  | kfree
  | removesock (socket : Slot)
  | dropsock (socket : Slot)
  | closeprocsocks (process : Proc)
  | closeLoop (process : Proc)
  | listen (lport : Int)
  | listenLocked (lport : Int)
  | connect (rport : Int) (host : CStr)
  | connectLocked (rport : Int)
  | send (lport : Int) (data : CStr) (n : Int)
  | sendLocked (lport : Int) (data : CStr) (n : Int)
  | sendAwake (loc rem : Slot) (data : CStr) (n : Int)
  | recv (lport : Int) (n : Int)
  | recvLocked (lport : Int) (n : Int)
  | recvAwake (loc : Slot) (n : Int)
  | recvEnd (loc : Slot)
  | disconnect (lport : Int)
  | disconnectLocked (lport : Int)
  | sections (files : List Section)

abbrev Code : Type :=
  List (Instr Lock Routine)

/-! ## Sleeping and waking -/

def wakeup (chan : Option Chan) : Code :=
  [.acquire .ptable, .call (.wakeup1 chan), .release .ptable]

def wakeup1 (chan : Option Chan) (data : KernelData) : KernelData :=
  { data with ptable := fun process => (data.ptable process).wakeup1 chan }

def sleep (chan : Chan) (lk : Lock) : Code :=
  (if lk ≠ .ptable then [.acquire .ptable, .release lk] else []) ++
    [.call (.block chan), .sched, .call .tidyUp] ++
    (if lk ≠ .ptable then [.release .ptable, .acquire lk] else [])

/-- The assignments of `sleep` before it calls `sched`. -/
def block (process : Proc) (chan : Chan) (data : KernelData) : KernelData :=
  data.setProc process fun entry => { entry with chan := some chan, state := .sleeping }

/-- The assignment of `sleep` after it has been woken. -/
def tidyUp (process : Proc) (data : KernelData) : KernelData :=
  data.setProc process fun entry => { entry with chan := none }

def yield : Code :=
  [.acquire .ptable, .call .setRunnable, .sched, .release .ptable]

/-- `forkret`: where a process starts, with `ptable.lock` from the scheduler. -/
def forkret : Code :=
  [.release .ptable]

/-! ## Other kernel code -/

/-- `kfree`, and `kalloc` as far as locks are concerned. -/
def kfree : Code :=
  [.acquire .kmem, .release .kmem]

def Action.code (index : Nat) : Action → Instr Lock Routine
  | .sleep chan => .call (.sleep (.other chan) (.other index))
  | .wakeup chan => .call (.wakeup (some (.other chan)))

def Section.code : Section → Code
  | .locked index actions =>
    .acquire (.other index) :: actions.map (Action.code index) ++ [.release (.other index)]
  | .page => [.call .kfree]

def sections (files : List Section) : Code :=
  files.flatMap Section.code

/-! ## Closing sockets -/

def retsockfunc (code : Int) : Code :=
  [.release .stable, .call (.ret code)]

def removesock (socket : Slot) : Code :=
  [.call (.wakeup (some (.sock socket))), .call (.dropsock socket)]

def closeprocsocks (process : Proc) : Code :=
  [.acquire .stable, .call (.closeLoop process), .release .stable]

def closeLoop (process : Proc) (data : KernelData) : Code :=
  match data.stable.getprocsock process with
  | none => []
  | some socket => [.call (.removesock socket), .call (.closeLoop process)]

/-! ## Processes -/

def kill (pid : Int) : Code :=
  [.acquire .ptable, .call (.killScan pid)]

def findPid (data : KernelData) (pid : Int) : Option Proc :=
  firstIndex fun process => (data.ptable process).pid = pid

def killScan (pid : Int) (data : KernelData) : KernelData × Code :=
  match findPid data pid with
  | none => (data, [.release .ptable, .call (.ret (-1))])
  | some process =>
    (data.setProc process fun entry => { entry with killed := true },
      [.call (.closeprocsocks process), .call (.wakeKilled process), .release .ptable,
        .call (.ret 0)])

/-- `kill` wakes the process from sleep if necessary. -/
def wakeKilled (process : Proc) (data : KernelData) : KernelData :=
  if (data.ptable process).state = .sleeping then data.setState process .runnable else data

/-- `exit`; the initial process must not call it. -/
def exit (curproc : Proc) (files : List Section) (data : KernelData) : Option Code :=
  if curproc = data.initproc then none
  else
    some (sections files ++
      [.call (.closeprocsocks curproc), .acquire .ptable, .call .passChildren, .sched,
        .call .zombieExit])

/-- The loop of `exit` on one process: pass an abandoned child to init. -/
def passChild (curproc : Proc) (data : KernelData) (process : Proc) : KernelData :=
  if (data.ptable process).parent = some curproc then
    let passed := data.setProc process fun entry => { entry with parent := some data.initproc }
    if (passed.ptable process).state = .zombie then
      wakeup1 (some (.proc data.initproc)) passed
    else passed
  else data

/-- What `exit` does under `ptable.lock` before it calls `sched`. -/
def passChildren (curproc : Proc) (data : KernelData) : KernelData :=
  let woken := wakeup1 ((data.ptable curproc).parent.map .proc) data
  ((List.finRange nproc).foldl (passChild curproc) woken).setState curproc .zombie

def wait : Code :=
  [.acquire .ptable, .call .waitScan]

def findZombie (data : KernelData) (curproc : Proc) : Option Proc :=
  firstIndex fun process =>
    (data.ptable process).parent = some curproc ∧ (data.ptable process).state = .zombie

def haveKids (data : KernelData) (curproc : Proc) : Bool :=
  (firstIndex fun process => decide ((data.ptable process).parent = some curproc)).isSome

/-- The assignments of `wait` to the child it found. -/
def reap (entry : ProcEntry) : ProcEntry :=
  { entry with pid := 0, parent := none, killed := false, state := .unused }

/-- The loop of `wait`.  The child is cleared at once: its entry cannot be seen
before `ptable.lock` is released, after its stack and pages are freed. -/
def waitScan (curproc : Proc) (data : KernelData) : KernelData × Code :=
  match findZombie data curproc with
  | some process =>
    (data.setProc process reap,
      List.replicate ((data.ptable process).pages + 1) (.call .kfree) ++
        [.release .ptable, .call (.ret (data.ptable process).pid)])
  | none =>
    if ¬ haveKids data curproc ∨ (data.ptable curproc).killed then
      (data, [.release .ptable, .call (.ret (-1))])
    else
      (data, [.call (.sleep (.proc curproc) .ptable), .call .waitScan])

/-! ## The socket calls -/

def listen (lport : Int) : Code :=
  if ¬ ValidPort lport then [.call (.ret eInvalidArg)]
  else [.acquire .stable, .call (.listenLocked lport)]

def listenLocked (myproc : Proc) (lport : Int) (data : KernelData) : KernelData × Code :=
  if data.stable.countSock = nsock then (data, retsockfunc eFail)
  else
    match data.stable.allocsock myproc lport with
    | none => (data, retsockfunc eAccessDenied)
    | some (slot, table) =>
      ({ data with
          stable := table.modify slot fun socket => { socket with state := .listening } },
        .call (.sleep (.sock slot) .stable) :: retsockfunc 0)

def connect (rport : Int) (host : CStr) : Code :=
  if ¬ ValidPort rport then [.call (.ret eInvalidArg)]
  else if ¬ HostAccepted host then [.call (.ret eInvalidArg)]
  else [.acquire .stable, .call (.connectLocked rport)]

def connectLocked (myproc : Proc) (rport : Int) (data : KernelData) : KernelData × Code :=
  let lport := data.stable.getfreeport
  if lport = invPort then (data, retsockfunc eFail)
  else
    match data.stable.getsock rport with
    | none => (data, retsockfunc eNotfound)
    | some rem =>
      if (data.stable.sock rem).state ≠ .listening then (data, retsockfunc eWrongState)
      else
        match data.stable.allocsock myproc lport with
        | none => (data, retsockfunc eFail)
        | some (loc, table) =>
          ({ data with stable := pairsocks table loc rem },
            .call (.wakeup (some (.sock rem))) :: retsockfunc lport)

def send (lport : Int) (text : CStr) (n : Int) : Code :=
  if ¬ ValidPort lport then [.call (.ret eInvalidArg)]
  else [.acquire .stable, .call (.sendLocked lport text n)]

/-- `send` with `stable.lock` held, up to its `sleep`. -/
def sendLocked (myproc : Proc) (lport : Int) (text : CStr) (n : Int) (data : KernelData) : Code :=
  match checkPair myproc lport data.stable with
  | .error code => retsockfunc code
  | .ok (loc, rem) =>
    (if (data.stable.sock rem).hasfullbuffer then
      [.call (.sleep (.sock rem) .stable)] else []) ++
      [.call (.sendAwake loc rem text n)]

def sendAwake (loc rem : Slot) (text : CStr) (n : Int) (data : KernelData) : KernelData × Code :=
  match data.stable.getsock (data.stable.sock loc).rPort with
  | none => (data, .call (.removesock loc) :: retsockfunc eConnectionResetByRemote)
  | some _ =>
    ({ data with stable := data.stable.modify rem (storeData text n) },
      .call (.wakeup (some (.sock loc))) :: retsockfunc 0)

def recv (lport : Int) (n : Int) : Code :=
  if ¬ ValidPort lport then [.call (.ret eInvalidArg)]
  else [.acquire .stable, .call (.recvLocked lport n)]

/-- `recv` with `stable.lock` held, up to its `sleep`. -/
def recvLocked (myproc : Proc) (lport : Int) (n : Int) (data : KernelData) : Code :=
  match checkPair myproc lport data.stable with
  | .error code => retsockfunc code
  | .ok (loc, rem) =>
    (if ¬ (data.stable.sock loc).hasfullbuffer then
      [.call (.sleep (.sock rem) .stable)] else []) ++
      [.call (.recvAwake loc n)]

def recvAwake (myproc : Proc) (loc : Slot) (n : Int) (data : KernelData) : KernelData × Code :=
  ({ data with stable := data.stable.modify loc emptyBuffer }.setProc myproc fun entry =>
      { entry with out := deliveredBytes (data.stable.sock loc) n },
    [.call (.wakeup (some (.sock loc))), .call (.recvEnd loc)])

/-- `recv` checks whether the connection is reset. -/
def recvEnd (loc : Slot) (data : KernelData) : Code :=
  match data.stable.getsock (data.stable.sock loc).rPort with
  | none => .call (.removesock loc) :: retsockfunc eConnectionResetByRemote
  | some _ => retsockfunc 0

def disconnect (lport : Int) : Code :=
  if ¬ ValidPort lport then [.call (.ret eInvalidArg)]
  else [.acquire .stable, .call (.disconnectLocked lport)]

def disconnectLocked (myproc : Proc) (lport : Int) (data : KernelData) : Code :=
  match data.stable.getsock lport with
  | none => retsockfunc eNotfound
  | some loc =>
    if (data.stable.sock loc).owner ≠ some myproc then retsockfunc eAccessDenied
    else .call (.removesock loc) :: retsockfunc 0

/-! ## The kernel -/

/-- The body of a routine, called by a process.  There is none where the source
calls `panic`. -/
def body (process : Proc) (data : KernelData) : Routine → Option (KernelData × Code)
  | .ret code => some (data.setProc process fun entry => { entry with eax := code }, [])
  | .wakeup chan => some (data, wakeup chan)
  | .wakeup1 chan => some (wakeup1 chan data, [])
  | .sleep chan lk => some (data, sleep chan lk)
  | .block chan => some (block process chan data, [])
  | .tidyUp => some (tidyUp process data, [])
  | .yield => some (data, yield)
  | .setRunnable => some (data.setState process .runnable, [])
  | .kill pid => some (data, kill pid)
  | .killScan pid => some (killScan pid data)
  | .wakeKilled killed => some (wakeKilled killed data, [])
  | .exit files => (exit process files data).map fun code => (data, code)
  | .passChildren => some (passChildren process data, [])
  | .zombieExit => none
  | .wait => some (data, wait)
  | .waitScan => some (waitScan process data)
  | .kfree => some (data, kfree)
  | .removesock socket => some (data, removesock socket)
  | .dropsock socket => some ({ data with stable := data.stable.dropsock socket }, [])
  | .closeprocsocks owner => some (data, closeprocsocks owner)
  | .closeLoop owner => some (data, closeLoop owner data)
  | .listen lport => some (data, listen lport)
  | .listenLocked lport => some (listenLocked process lport data)
  | .connect rport host => some (data, connect rport host)
  | .connectLocked rport => some (connectLocked process rport data)
  | .send lport text n => some (data, send lport text n)
  | .sendLocked lport text n => some (data, sendLocked process lport text n data)
  | .sendAwake loc rem text n => some (sendAwake loc rem text n data)
  | .recv lport n => some (data, recv lport n)
  | .recvLocked lport n => some (data, recvLocked process lport n data)
  | .recvAwake loc n => some (recvAwake process loc n data)
  | .recvEnd loc => some (data, recvEnd loc data)
  | .disconnect lport => some (data, disconnect lport)
  | .disconnectLocked lport => some (data, disconnectLocked process lport data)
  | .sections files => some (data, sections files)

def systemCall : Routine → Bool
  | .kill _ | .exit _ | .wait | .listen _ | .connect _ _ | .send _ _ _ | .recv _ _
  | .disconnect _ | .sections _ => true
  | _ => false

/-- An interrupt runs a section of a device, the console or the clock, and the
clock makes the process yield. -/
def interrupt : Routine → Bool
  | .sections _ | .yield => true
  | _ => false

namespace KernelData

theorem isRunning_setProc (data : KernelData) (process other : Proc)
    (change : ProcEntry → ProcEntry) :
    (data.setProc process change).isRunning other =
      if other = process then decide ((change (data.ptable process)).state = .running)
      else data.isRunning other := by
  by_cases same : other = process
  · subst same
    simp [setProc, isRunning]
  · simp [setProc, isRunning, same]

theorem isRunning_setState (data : KernelData) (process other : Proc) (state : Procstate) :
    (data.setState process state).isRunning other =
      if other = process then decide (state = .running) else data.isRunning other :=
  data.isRunning_setProc process other _

end KernelData

/-- The kernel: `ptable.lock` is passed through the scheduler, which runs the
processes whose state is `RUNNABLE`. -/
def xv6 : Kernel Lock Proc KernelData Routine where
  switchLock := .ptable
  body := body
  systemCall := systemCall
  interrupt := interrupt
  active := KernelData.isRunning
  runnable data process := (data.ptable process).state = .runnable
  select data process := data.setState process .running
  inactive_of_runnable := by
    intro data process runnable
    have state : (data.ptable process).state = .runnable := of_decide_eq_true runnable
    simp [KernelData.isRunning, state]
  active_select := by
    intro data process
    simp [KernelData.isRunning_setState]
  active_select_of_ne := by
    intro data process other different
    simp [KernelData.isRunning_setState, different]

abbrev KernelState (Cpu : Type) : Type :=
  State Lock Cpu Proc KernelData Routine

abbrev KernelMove (Cpu : Type) : Type :=
  Move Cpu Proc Routine

end KernelLock

end Xv6
