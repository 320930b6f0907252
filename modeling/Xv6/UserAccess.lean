import Xv6.OpenFiles
import Xv6.SocketPayload
import Xv6.TracedCode

/-!
# The user addresses that system calls touch

System calls fetch their arguments from user memory and hand user pointers to
the code below them, which copies through the pointers without checking them
again.  Here the calls are embedded with the list of the user bytes that they
load and store, in order.  How far a call gets depends on the rest of the
kernel as well: on the open files, on what is typed or waits in a pipe, on the
path names that exist, and on the sockets.  All of that is a parameter.

A call that returns an error, panics, or waits for ever has no value, but its
accesses up to there are listed.  Memory does not change between the checks
and the copies: the process runs no user code until the call returns.
-/

namespace Xv6

namespace UserAccess

open CString DiskBlock Traced

inductive Access
  | load (addr : BitVec 32)
  | store (addr : BitVec 32) (byte : UInt8)
  deriving DecidableEq

def Access.addr : Access → BitVec 32
  | .load addr => addr
  | .store addr _ => addr

abbrev Code : Type → Type :=
  Traced Access

/-! ## Loads and stores -/

section Memory

variable (user : UserMemory)

def load (addr : BitVec 32) : Code UInt8 := do
  emit [.load addr]
  pure (user.memory addr)

/-- Load bytes from a pointer on, as `memmove` does from the process. -/
def loadBytes : BitVec 32 → Nat → Code (List UInt8)
  | _, 0 => pure []
  | addr, count + 1 => do
    let byte ← load user addr
    let rest ← loadBytes (addr + 1) count
    pure (byte :: rest)

/-- Store bytes from a pointer on, as `memmove` does to the process. -/
def storeBytes : BitVec 32 → List UInt8 → Code Unit
  | _, [] => pure ()
  | addr, byte :: rest => do
    emit [.store addr byte]
    storeBytes (addr + 1) rest

def intBytes (size value : Nat) : List UInt8 :=
  (List.range size).map fun k => UInt8.ofNat (value / 256 ^ k)

/-! ## Fetching arguments -/

def fetchint (addr : BitVec 32) : Code (BitVec 32) :=
  if addr ≥ user.sz ∨ addr + 4 > user.sz then fail
  else do
    let _ ← loadBytes user addr 4
    pure (user.word addr)

/-- The loop of `fetchstr`, over the addresses left below the process size. -/
def fetchstrLoop : Nat → BitVec 32 → Code Unit
  | 0, _ => fail
  | left + 1, s => do
    let byte ← load user s
    if byte = 0 then pure () else fetchstrLoop left (s + 1)

/-- `fetchstr`, with the pointer that it sets. -/
def fetchstr (addr : BitVec 32) : Code (BitVec 32) :=
  if addr ≥ user.sz then fail
  else do
    fetchstrLoop user (user.sz - addr).toNat addr
    pure addr

def argint (n : Nat) : Code (BitVec 32) :=
  fetchint user (user.esp + 4 + 4 * BitVec.ofNat 32 n)

def argptr (n : Nat) (size : Int) : Code (BitVec 32) := do
  let i ← argint user n
  if size < 0 ∨ i ≥ user.sz ∨ i + BitVec.ofInt 32 size > user.sz then fail
  else pure i

/-- `argstr`, with the pointer that it sets. -/
def argstr (n : Nat) : Code (BitVec 32) := do
  let addr ← argint user n
  fetchstr user addr

/-! ## Strings -/

/-- Number of addresses: a loop that takes as many steps has been everywhere and
goes on for ever. -/
abbrev addressSpace : Nat := 2 ^ 32

def advance (passes : UInt8 → Bool) : Nat → BitVec 32 → Code (BitVec 32)
  | 0, _ => fail
  | fuel + 1, p => do
    let byte ← load user p
    if passes byte then advance passes fuel (p + 1) else pure p

def strlen (s : BitVec 32) : Code Nat := do
  let stop ← advance user (· ≠ 0) addressSpace s
  pure (stop - s).toNat

/-- `strncmp` of a user string with a kernel string. -/
def strncmp : BitVec 32 → List UInt8 → Nat → Code Int
  | _, _, 0 => pure 0
  | p, q, n + 1 => do
    let byte ← load user p
    if byte ≠ 0 ∧ byte = q.headD 0 then strncmp (p + 1) q.tail n
    else pure (byte.toNat - (q.headD 0).toNat)

/-- The loop of `safestrcpy` from a user string, with room for `n` bytes before
the NUL. -/
def safestrcpy : BitVec 32 → Nat → Code (List UInt8)
  | _, 0 => pure []
  | t, n + 1 => do
    let byte ← load user t
    if byte = 0 then pure []
    else do
      let rest ← safestrcpy (t + 1) n
      pure (byte :: rest)

end Memory

/-- The accesses of `strncpy` for a 32-bit count.  For a count below one the
first loop stops at once, and the second loop finds the count decremented. -/
def copyAccesses (source : Nat → UInt8) (n : BitVec 32) : List CopyAccess :=
  if 0 < n.toInt then strncpyAccesses source 0 n.toNat else padAccesses 0 (n - 1).toInt.toNat

def fromUser (source : BitVec 32) : CopyAccess → Option Access
  | .load index => some (.load (source + BitVec.ofNat 32 index))
  | .store _ _ => none

def toUser (target : BitVec 32) : CopyAccess → Option Access
  | .load _ => none
  | .store index byte => some (.store (target + BitVec.ofNat 32 index) byte)

/-! ## The rest of the kernel -/

/-- What a call finds in a pipe: the bytes to read, unless the reader is killed
while it waits for some, and the number of bytes that a writer can add before
it is killed or finds the read end closed. -/
structure Pipe where
  unread : Option (List UInt8)
  room : Nat

structure Inode where
  dev : BitVec 32
  inum : BitVec 32
  type : BitVec 16
  major : BitVec 16
  nlink : BitVec 16
  size : BitVec 32
  data : Nat → UInt8

/-- What an open file refers to.  Other processes may change an inode and a
shared offset between the transactions of a call, so both are given for each
transaction. -/
inductive FileObject
  | none
  | pipe (pipe : Pipe)
  | inode (ip : Nat → Inode) (off : Nat → BitVec 32)

structure File where
  readable : Bool
  writable : Bool
  object : FileObject

/-- The rest of the kernel, as a call finds it.

* `typed`: the characters a reader of the console gets until it is killed.
* `pipealloc`: the files of a new pipe.
* `found`: whether the path name of these elements leads to an inode.
* `image`: the size of the new image, when `exec` can load the program.
* `present`: the user pages of the new image, by address.
* `woken`: the sockets when a call that sleeps is woken. -/
structure Kernel (Proc : Type) where
  ofile : Nat → Option File
  typed : List UInt8
  pipealloc : Option (File × File)
  found : List (List UInt8) → Bool
  image : Option (BitVec 32)
  present : BitVec 32 → Bool
  myproc : Proc
  world : Socket.World Proc
  woken : Option (Socket.World Proc)

abbrev nofile : Nat := 16

/-- `fdalloc`: the first free descriptor. -/
def fdalloc (ofile : Nat → Option File) : Option Nat :=
  (List.range nofile).find? fun fd => (ofile fd).isNone

variable {Proc : Type}

/-- The sockets when a call continues after a `sleep` that it may have needed. -/
def Kernel.resumed (kernel : Kernel Proc) (sleeps : Bool) : Option (Socket.World Proc) :=
  if sleeps then kernel.woken else some kernel.world

section Calls

variable (user : UserMemory) (kernel : Kernel Proc)

/-! ## Files -/

def argfd (n : Nat) : Code File := do
  let fd ← argint user n
  if fd.toInt < 0 ∨ nofile ≤ fd.toInt then fail
  else
    match kernel.ofile fd.toNat with
    | none => fail
    | some f => pure f

def piperead (p : Pipe) (addr n : BitVec 32) : Code Nat :=
  match p.unread with
  | none => fail
  | some bytes => do
    let copied := bytes.take n.toInt.toNat
    storeBytes addr copied
    pure copied.length

def pipewrite (p : Pipe) (addr n : BitVec 32) : Code Nat := do
  let count := n.toInt.toNat
  let _ ← loadBytes user addr (min count p.room)
  if p.room < count then fail else pure count

/-- The loop of `consoleread`, with the count that it leaves. -/
def consolereadLoop : List UInt8 → BitVec 32 → Nat → Code Nat
  | _, _, 0 => pure 0
  | [], _, _ + 1 => fail
  | c :: typed, dst, n + 1 =>
    -- 4 is `C('D')` and 10 is `'\n'`.
    if c = 4 then pure (n + 1)
    else do
      emit [.store dst c]
      if c = 10 then pure n else consolereadLoop typed (dst + 1) n

def consoleread (dst n : BitVec 32) : Code Nat := do
  let target := n.toInt.toNat
  let left ← consolereadLoop kernel.typed dst target
  pure (target - left)

def consolewrite (buf n : BitVec 32) : Code Nat := do
  let count := n.toInt.toNat
  let _ ← loadBytes user buf count
  pure count

/-- The test of `readi` and `writei` for a device with functions: only the
console, device 1, has them. -/
def Inode.isConsole (ip : Inode) : Bool :=
  ¬ (ip.major.toInt < 0 ∨ Fs.ndev ≤ ip.major.toInt) ∧ ip.major = 1

def readiLoop (ip : Inode) : Nat → BitVec 32 → Nat → Nat → Code Unit
  | 0, _, _, _ => pure ()
  | fuel + 1, dst, off, left =>
    if left = 0 then pure ()
    else do
      let m := min left (bsize - off % bsize)
      storeBytes dst ((List.range m).map fun k => ip.data (off + k))
      readiLoop ip fuel (dst + BitVec.ofNat 32 m) (off + m) (left - m)

/-- `readi` to a user pointer.  3 is `T_DEV`. -/
def readi (ip : Inode) (dst off n : BitVec 32) : Code Nat :=
  if ip.type = 3 then
    if ip.isConsole then consoleread kernel dst n else fail
  else if off > ip.size ∨ off + n < off then fail
  else do
    let n := if off + n > ip.size then ip.size - off else n
    readiLoop ip n.toNat dst off.toNat n.toNat
    pure n.toNat

def writeiLoop : Nat → BitVec 32 → Nat → Nat → Code Unit
  | 0, _, _, _ => pure ()
  | fuel + 1, src, off, left =>
    if left = 0 then pure ()
    else do
      let m := min left (bsize - off % bsize)
      let _ ← loadBytes user src m
      writeiLoop fuel (src + BitVec.ofNat 32 m) (off + m) (left - m)

/-- `writei` from a user pointer. -/
def writei (ip : Inode) (src off n : BitVec 32) : Code Nat :=
  if ip.type = 3 then
    if ip.isConsole then consolewrite user src n else fail
  else if off > ip.size ∨ off + n < off then fail
  else if off + n > BitVec.ofNat 32 (Fs.maxfile * bsize) then fail
  else do
    writeiLoop user n.toNat src off.toNat n.toNat
    pure n.toNat

def fileread (f : File) (addr n : BitVec 32) : Code Nat :=
  if f.readable = false then fail
  else
    match f.object with
    | .none => fail
    | .pipe p => piperead p addr n
    | .inode ip off => readi kernel (ip 0) addr (off 0) n

/-- The loop of `filewrite` from transaction `round` on, with `i` bytes written. -/
def filewriteLoop (ip : Nat → Inode) (off : Nat → BitVec 32) (addr : BitVec 32) (n : Nat) :
    Nat → Nat → Nat → Code Nat
  | 0, _, i => pure i
  | fuel + 1, round, i =>
    if n ≤ i then pure i
    else do
      let n1 := min (n - i) Fs.maxWrite
      let r ← writei user (ip round) (addr + BitVec.ofNat 32 i) (off round) (BitVec.ofNat 32 n1)
      if r ≠ n1 then fail else filewriteLoop ip off addr n fuel (round + 1) (i + r)

def filewrite (f : File) (addr n : BitVec 32) : Code Nat :=
  if f.writable = false then fail
  else
    match f.object with
    | .none => fail
    | .pipe p => pipewrite user p addr n
    | .inode ip off => filewriteLoop user ip off addr n.toInt.toNat n.toInt.toNat 0 0

/-- `stati` to a user pointer. -/
def stati (ip : Inode) (st : BitVec 32) : Code Unit := do
  storeBytes (st + 4) (intBytes 4 ip.dev.toNat)
  storeBytes (st + 8) (intBytes 4 ip.inum.toNat)
  storeBytes st (intBytes 2 ip.type.toNat)
  storeBytes (st + 12) (intBytes 2 ip.nlink.toNat)
  storeBytes (st + 16) (intBytes 4 ip.size.toNat)

def filestat (f : File) (st : BitVec 32) : Code Unit :=
  match f.object with
  | .inode ip _ => stati (ip 0) st
  | _ => fail

def sysRead : Code Nat := do
  let f ← argfd user kernel 0
  let n ← argint user 2
  let p ← argptr user 1 n.toInt
  fileread kernel f p n

def sysWrite : Code Nat := do
  let f ← argfd user kernel 0
  let n ← argint user 2
  let p ← argptr user 1 n.toInt
  filewrite user f p n

/-- `sys_fstat`.  A `struct stat` has 20 bytes. -/
def sysFstat : Code Unit := do
  let f ← argfd user kernel 0
  let st ← argptr user 1 20
  filestat f st

def sysPipe : Code Unit := do
  let fd ← argptr user 0 8
  match kernel.pipealloc with
  | none => fail
  | some (rf, _) =>
    match fdalloc kernel.ofile with
    | none => fail
    | some fd0 =>
      match fdalloc (Function.update kernel.ofile fd0 (some rf)) with
      | none => fail
      | some fd1 => do
        storeBytes fd (intBytes 4 fd0)
        storeBytes (fd + 4) (intBytes 4 fd1)

/-! ## Programs -/

abbrev slash : UInt8 := 47

/-- `skipelem`: the next element of the path, and the pointer behind it. -/
def skipelem (path : BitVec 32) : Code (Option (List UInt8 × BitVec 32)) := do
  let s ← advance user (· = slash) addressSpace path
  let byte ← load user s
  if byte = 0 then pure none
  else do
    let path ← advance user (fun byte => byte ≠ slash ∧ byte ≠ 0) addressSpace s
    let len := (path - s).toNat
    let name ← loadBytes user s (min len 14)
    let path ← advance user (· = slash) addressSpace path
    pure (some (name, path))

/-- The loop of `namex`, below the elements walked so far. -/
def namexLoop : Nat → BitVec 32 → List (List UInt8) → Code Unit
  | 0, _, _ => fail
  | fuel + 1, path, walked => do
    let element ← skipelem user path
    match element with
    | none => pure ()
    | some (name, path) =>
      if kernel.found (walked ++ [name]) then namexLoop fuel path (walked ++ [name])
      else fail

def namei (path : BitVec 32) : Code Unit := do
  let _ ← load user path
  namexLoop user kernel addressSpace path []

/-- `copyout` to the new image; `move` copies from the source. -/
def copyout (move : BitVec 32 → Nat → Code Unit) : Nat → BitVec 32 → BitVec 32 → Nat → Code Unit
  | 0, _, _, _ => pure ()
  | fuel + 1, va, buf, len =>
    if len = 0 then pure ()
    else
      let va0 := va &&& ~~~4095
      if kernel.present va0 = false then fail
      else do
        let n := min (4096 - (va - va0).toNat) len
        move buf n
        copyout move fuel (va0 + 4096) (buf + BitVec.ofNat 32 n) (len - n)

/-- The loop of `exec` that pushes the argument strings, with the stack pointer. -/
def pushStrings : List (BitVec 32) → Nat → BitVec 32 → Code (BitVec 32)
  | [], _, sp => pure sp
  | arg :: argv, argc, sp =>
    -- 32 is `MAXARG`.
    if 32 ≤ argc then fail
    else do
      let len ← strlen user arg
      let sp := (sp - BitVec.ofNat 32 (len + 1)) &&& ~~~3
      let len ← strlen user arg
      copyout kernel (fun buf n => do let _ ← loadBytes user buf n; pure ()) (len + 1) sp arg
        (len + 1)
      pushStrings argv (argc + 1) sp

/-- The loop of `exec` that finds the last element of the path. -/
def lastElement : Nat → BitVec 32 → BitVec 32 → Code (BitVec 32)
  | 0, _, _ => fail
  | fuel + 1, s, last => do
    let byte ← load user s
    if byte = 0 then pure last
    else if byte = slash then lastElement fuel (s + 1) (s + 1)
    else lastElement fuel (s + 1) last

/-- `exec`: its value is the name of the program. -/
def exec (path : BitVec 32) (argv : List (BitVec 32)) : Code (List UInt8) := do
  namei user kernel path
  match kernel.image with
  | none => fail
  | some sz => do
    let sp ← pushStrings user kernel argv 0 sz
    let size := (3 + argv.length + 1) * 4
    -- The words of `ustack` come from the kernel stack.
    copyout kernel (fun _ _ => pure ()) size (sp - BitVec.ofNat 32 size) 0 size
    let last ← lastElement user addressSpace path path
    safestrcpy user last 15

/-- The loop of `sys_exec` from argument `i` on, with the pointers that it sets. -/
def fetchArguments (uargv : BitVec 32) : Nat → Nat → Code (List (BitVec 32))
  | 0, _ => fail
  | left + 1, i => do
    let uarg ← fetchint user (uargv + 4 * BitVec.ofNat 32 i)
    if uarg = 0 then pure []
    else do
      let arg ← fetchstr user uarg
      let rest ← fetchArguments uargv left (i + 1)
      pure (arg :: rest)

def sysExec : Code (List UInt8) := do
  let path ← argstr user 0
  let uargv ← argint user 1
  let argv ← fetchArguments user uargv 32 0
  exec user kernel path argv

/-! ## Sockets -/

/-- `connect`, up to the acquisition of the lock.  No user pointer is used
after it. -/
def connect (rport : Int) (host : BitVec 32) : Code Unit :=
  if ¬ Socket.ValidPort rport then fail
  else do
    let len ← strlen user host
    let first ← strncmp user host Socket.localhost len
    if first = 0 then pure ()
    else do
      let len ← strlen user host
      let second ← strncmp user host Socket.loopback len
      if second = 0 then pure () else fail

variable [DecidableEq Proc]

/-- `send`, with a sleep on a full buffer. -/
def send (lport : Int) (data n : BitVec 32) : Code Unit :=
  match Socket.checkPair kernel.myproc lport kernel.world.stable with
  | .error _ => fail
  | .ok (loc, rem) =>
    match kernel.resumed (kernel.world.stable.sock rem).hasfullbuffer with
    | none => fail
    | some world =>
      match world.stable.getsock (world.stable.sock loc).rPort with
      | none => fail
      | some _ =>
        emit ((copyAccesses (fun index => user.memory (data + BitVec.ofNat 32 index))
          n).filterMap (fromUser data))

/-- `recv`, with a sleep on an empty buffer.  The buffer is read as if followed
by NULs. -/
def recv (lport : Int) (data n : BitVec 32) : Code Unit :=
  match Socket.checkPair kernel.myproc lport kernel.world.stable with
  | .error _ => fail
  | .ok (loc, _) =>
    match kernel.resumed (! (kernel.world.stable.sock loc).hasfullbuffer) with
    | none => fail
    | some world =>
      emit ((copyAccesses (fun index =>
        (List.ofFn (world.stable.sock loc).recvbuffer)[index]?.getD 0) n).filterMap
          (toUser data))

def sysConnect : Code Unit := do
  let port ← argint user 0
  let host ← argstr user 1
  connect user port.toInt host

/-- `sys_send`: the length is fetched from argument 0. -/
def sysSend : Code Unit := do
  let port ← argint user 0
  let buf ← argstr user 1
  let n ← argint user 0
  send user kernel port.toInt buf n

/-- `sys_recv`: the pointer is checked for the size of a pointer. -/
def sysRecv : Code Unit := do
  let port ← argint user 0
  let buf ← argptr user 1 4
  let n ← argint user 2
  recv kernel port.toInt buf n

inductive Call
  | read
  | write
  | fstat
  | pipe
  | exec
  | connect
  | send
  | recv
  deriving DecidableEq

def Call.accesses : Call → List Access
  | .read => (sysRead user kernel).events
  | .write => (sysWrite user kernel).events
  | .fstat => (sysFstat user kernel).events
  | .pipe => (sysPipe user kernel).events
  | .exec => (sysExec user kernel).events
  | .connect => (sysConnect user).events
  | .send => (sysSend user kernel).events
  | .recv => (sysRecv user kernel).events

end Calls

end UserAccess

end Xv6
