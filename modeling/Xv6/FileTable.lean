import Xv6.AnsweredCode
import Xv6.DirectoryCalls
import Xv6.SocketTable
import Xv6.TableSums

/-!
# System calls and the tables of files and inodes

The file table, the inode cache and the descriptors and current directories of
the processes refer to each other by pointers, here indices, and count the
references.  The calls of `sysfile.c`, `exec.c` and `proc.c` take and drop
references on many paths; every path is followed.

What the calls read from inodes, directories, user memory and the ELF file, and
whether an allocation of memory succeeds, is asked from the environment.  An
entry of a directory is asked for by its inode number, where 0 stands for no
entry.  Panics that do not concern the tables are left out, so there are more
runs than in the kernel.  A call returns whether it succeeded.
-/

namespace Xv6

namespace FileRefs

open Answered
open Dirs (ninode nfile nofile nproc rootino slash dot dotdot Name skipelem creates)
open Fs (FileType)
open LabelledRun
open Socket (firstIndex)

structure Inode where
  dev : Nat
  inum : Nat
  ref : Int

def Inode.addRef (inode : Inode) (change : Int) : Inode :=
  { inode with ref := inode.ref + change }

/-- `type` of a `struct file`, with `ip` if it is `FD_INODE`. -/
inductive Target
  | none
  | pipe
  | inode (ip : Fin ninode)
  deriving DecidableEq

structure File where
  ref : Int
  target : Target

def File.addRef (file : File) (change : Int) : File :=
  { file with ref := file.ref + change }

def File.setRef (file : File) (ref : Int) : File :=
  { file with ref := ref }

def File.setTarget (file : File) (target : Target) : File :=
  { file with target := target }

/-- The states of a process, where `alive` stands for all states of a process that
has not exited. -/
inductive Procstate
  | unused
  | embryo
  | alive
  | zombie
  deriving DecidableEq

structure Proc where
  state : Procstate
  parent : Option (Fin nproc)
  ofile : Fin nofile → Option (Fin nfile)
  cwd : Option (Fin ninode)

namespace Proc

variable (proc : Proc)

def setOfile (fd : Fin nofile) (file : Option (Fin nfile)) : Proc :=
  { proc with ofile := Function.update proc.ofile fd file }

def setCwd (ip : Option (Fin ninode)) : Proc :=
  { proc with cwd := ip }

def setState (state : Procstate) : Proc :=
  { proc with state := state }

def setParent (parent : Option (Fin nproc)) : Proc :=
  { proc with parent := parent }

end Proc

structure State where
  inode : Fin ninode → Inode
  file : Fin nfile → File
  proc : Fin nproc → Proc
  initproc : Fin nproc

abbrev rootdev : Nat := 1

namespace State

def setInode (state : State) (ip : Fin ninode) (inode : Inode) : State :=
  { state with inode := Function.update state.inode ip inode }

def setFile (state : State) (f : Fin nfile) (file : File) : State :=
  { state with file := Function.update state.file f file }

def setProc (state : State) (p : Fin nproc) (proc : Proc) : State :=
  { state with proc := Function.update state.proc p proc }

def onInode (state : State) (ip : Fin ninode) (change : Inode → Inode) : State :=
  state.setInode ip (change (state.inode ip))

def onFile (state : State) (f : Fin nfile) (change : File → File) : State :=
  state.setFile f (change (state.file f))

def onProc (state : State) (p : Fin nproc) (change : Proc → Proc) : State :=
  state.setProc p (change (state.proc p))

/-- The tables after `userinit`, with the root directory in some entry of the
cache. -/
def initial (initproc : Fin nproc) (root : Fin ninode) : State where
  inode ip := if ip = root then ⟨rootdev, rootino, 1⟩ else ⟨0, 0, 0⟩
  file _ := ⟨0, .none⟩
  proc p :=
    if p = initproc then ⟨.alive, none, fun _ => none, some root⟩
    else ⟨.unused, none, fun _ => none, none⟩
  initproc := initproc

end State

abbrev Code : Type → Type :=
  Answered State

/-! ## The inode cache -/

def idup (ip : Fin ninode) : Code Unit :=
  modify fun state => state.onInode ip (.addRef · 1)

def iput (ip : Fin ninode) : Code Unit :=
  modify fun state => state.onInode ip (.addRef · (-1))

/-- The entry that `iget` finds. -/
def State.cached (state : State) (dev inum : Nat) : Option (Fin ninode) :=
  firstIndex fun ip => decide (0 < (state.inode ip).ref ∧ (state.inode ip).dev = dev ∧
    (state.inode ip).inum = inum)

/-- The empty entry that `iget` remembers. -/
def State.empty (state : State) : Option (Fin ninode) :=
  firstIndex fun ip => decide ((state.inode ip).ref = 0)

def iget (dev inum : Nat) : Code (Fin ninode) := do
  let state ← get
  match state.cached dev inum with
  | some ip => do
    idup ip
    pure ip
  | none =>
    match state.empty with
    | some ip => do
      modify fun state => state.setInode ip ⟨dev, inum, 1⟩
      pure ip
    | none => stop

/-- The check of `ilock` and `iunlock`. -/
def checkRef (ip : Fin ninode) : Code Unit := do
  let state ← get
  if (state.inode ip).ref < 1 then stop else pure ()

def ilock (ip : Fin ninode) : Code Unit :=
  checkRef ip

def iunlock (ip : Fin ninode) : Code Unit :=
  checkRef ip

def iunlockput (ip : Fin ninode) : Code Unit := do
  iunlock ip
  iput ip

def ialloc (dev : Nat) : Code (Fin ninode) := do
  let inum ← answer
  iget dev inum

def dirlookup (dp : Fin ninode) : Code (Option (Fin ninode)) := do
  let inum ← answer
  if inum = 0 then pure none
  else do
    let state ← get
    let ip ← iget (state.inode dp).dev inum
    pure (some ip)

/-- `dirlink` without the sleep locks: it also returns if the entry found names `dp`, where
`iput` waits in the kernel for a lock that its own process holds. -/
def dirlink (dp : Fin ninode) : Code Bool := do
  match ← dirlookup dp with
  | some ip => do
    iput ip
    pure false
  | none => pure true

/-! ## Paths -/

/-- The end of `namex`, after the last element. -/
def namexEnd (nameiparent : Bool) (ip : Fin ninode) : Code (Option (Fin ninode × Name)) :=
  if nameiparent then do
    iput ip
    pure none
  else pure (some (ip, []))

/-- The loop of `namex`: the inode, and the last element when the parent is
asked for. -/
def namexLoop (nameiparent : Bool) :
    Nat → Fin ninode → List UInt8 → Code (Option (Fin ninode × Name))
  | 0, ip, _ => namexEnd nameiparent ip
  | fuel + 1, ip, path =>
    match skipelem path with
    | none => namexEnd nameiparent ip
    | some (name, path) => do
      ilock ip
      if ← asks then do
        -- not a directory
        iunlockput ip
        pure none
      else if nameiparent = true ∧ path = [] then do
        iunlock ip
        pure (some (ip, name))
      else do
        match ← dirlookup ip with
        | none => do
          iunlockput ip
          pure none
        | some next => do
          iunlockput ip
          namexLoop nameiparent fuel next path

/-- `p->cwd`, which is not null. -/
def curdir (p : Fin nproc) : Code (Fin ninode) := do
  let state ← get
  match (state.proc p).cwd with
  | some ip => pure ip
  | none => stop

def namex (p : Fin nproc) (nameiparent : Bool) (path : List UInt8) :
    Code (Option (Fin ninode × Name)) :=
  if path.head? = some slash then do
    let ip ← iget rootdev rootino
    namexLoop nameiparent (path.length + 1) ip path
  else do
    let ip ← curdir p
    idup ip
    namexLoop nameiparent (path.length + 1) ip path

/-! ## Files -/

def filealloc : Code (Option (Fin nfile)) := do
  let state ← get
  match firstIndex fun f => decide ((state.file f).ref = 0) with
  | some f => do
    modify fun state => state.onFile f (.setRef · 1)
    pure (some f)
  | none => pure none

def filedup (f : Fin nfile) : Code Unit := do
  let state ← get
  if (state.file f).ref < 1 then stop else modify fun state => state.onFile f (.addRef · 1)

/-- `fileclose`.  The pipe itself is not represented. -/
def fileclose (f : Fin nfile) : Code Unit := do
  let state ← get
  if (state.file f).ref < 1 then stop
  else if 0 < (state.file f).ref - 1 then modify fun state => state.onFile f (.addRef · (-1))
  else do
    let target := (state.file f).target
    modify fun state => state.setFile f ⟨0, .none⟩
    match target with
    | .inode ip => iput ip
    | _ => pure ()

def fdalloc (p : Fin nproc) (f : Fin nfile) : Code (Option (Fin nofile)) := do
  let state ← get
  match firstIndex fun fd => ((state.proc p).ofile fd).isNone with
  | some fd => do
    modify fun state => state.onProc p (.setOfile · fd (some f))
    pure (some fd)
  | none => pure none

/-- `argfd`: the descriptor and the file, if the number is a descriptor in use. -/
def argfd (p : Fin nproc) (number : Int) : Code (Option (Fin nofile × Fin nfile)) := do
  let state ← get
  if inside : 0 ≤ number ∧ number.toNat < nofile then
    pure (((state.proc p).ofile ⟨number.toNat, inside.2⟩).map fun f =>
      (⟨number.toNat, inside.2⟩, f))
  else pure none

/-! ## System calls -/

def createDots (type : FileType) (ip : Fin ninode) : Code Unit :=
  if type = .dir then do
    if ← dirlink ip then
      if ← dirlink ip then pure () else stop
    else stop
  else pure ()

def createNew (dp : Fin ninode) (type : FileType) : Code (Option (Fin ninode)) := do
  let state ← get
  let ip ← ialloc (state.inode dp).dev
  ilock ip
  createDots type ip
  if ← dirlink dp then do
    iunlockput dp
    pure (some ip)
  else stop

def create (p : Fin nproc) (path : List UInt8) (type : FileType) : Code (Option (Fin ninode)) := do
  match ← namex p true path with
  | none => pure none
  | some (dp, _) => do
    ilock dp
    match ← dirlookup dp with
    | some ip => do
      iunlockput dp
      ilock ip
      let isFile ← asks
      if type = .file ∧ isFile = true then pure (some ip)
      else do
        iunlockput ip
        pure none
    | none => createNew dp type

/-- The end of `sys_open`: `filealloc` and `fdalloc`. -/
def openFile (p : Fin nproc) (ip : Fin ninode) : Code Bool := do
  match ← filealloc with
  | none => do
    iunlockput ip
    pure false
  | some f =>
    match ← fdalloc p f with
    | none => do
      fileclose f
      iunlockput ip
      pure false
    | some _ => do
      iunlock ip
      modify fun state => state.onFile f (.setTarget · (.inode ip))
      pure true

def sysOpen (p : Fin nproc) (path : List UInt8) (omode : BitVec 32) : Code Bool := do
  if ← asks then pure false
  else if creates omode then do
    match ← create p path .file with
    | none => pure false
    | some ip => openFile p ip
  else do
    match ← namex p false path with
    | none => pure false
    | some (ip, _) => do
      ilock ip
      let isDir ← asks
      if isDir = true ∧ omode ≠ 0 then do
        iunlockput ip
        pure false
      else openFile p ip

/-- `sys_mkdir`, and `sys_mknod` with the type `T_DEV`. -/
def makeNode (p : Fin nproc) (path : List UInt8) (type : FileType) : Code Bool := do
  if ← asks then pure false
  else do
    match ← create p path type with
    | none => pure false
    | some ip => do
      iunlockput ip
      pure true

def sysMkdir (p : Fin nproc) (path : List UInt8) : Code Bool :=
  makeNode p path .dir

def sysMknod (p : Fin nproc) (path : List UInt8) : Code Bool :=
  makeNode p path .dev

def linkBad (ip : Fin ninode) : Code Bool := do
  ilock ip
  iunlockput ip
  pure false

def sysLink (p : Fin nproc) (old new : List UInt8) : Code Bool := do
  if ← asks then pure false
  else do
    match ← namex p false old with
    | none => pure false
    | some (ip, _) => do
      ilock ip
      if ← asks then do
        -- a directory
        iunlockput ip
        pure false
      else do
        iunlock ip
        match ← namex p true new with
        | none => linkBad ip
        | some (dp, _) => do
          ilock dp
          let state ← get
          if (state.inode dp).dev ≠ (state.inode ip).dev then do
            iunlockput dp
            linkBad ip
          else if ← dirlink dp then do
            iunlockput dp
            iput ip
            pure true
          else do
            iunlockput dp
            linkBad ip

def sysUnlink (p : Fin nproc) (path : List UInt8) : Code Bool := do
  if ← asks then pure false
  else do
    match ← namex p true path with
    | none => pure false
    | some (dp, name) => do
      ilock dp
      if name = dot ∨ name = dotdot then do
        iunlockput dp
        pure false
      else do
        match ← dirlookup dp with
        | none => do
          iunlockput dp
          pure false
        | some ip => do
          ilock ip
          if ← asks then do
            -- a directory that is not empty
            iunlockput ip
            iunlockput dp
            pure false
          else do
            iunlockput dp
            iunlockput ip
            pure true

def sysChdir (p : Fin nproc) (path : List UInt8) : Code Bool := do
  if ← asks then pure false
  else do
    match ← namex p false path with
    | none => pure false
    | some (ip, _) => do
      ilock ip
      if ← asks then do
        -- not a directory
        iunlockput ip
        pure false
      else do
        iunlock ip
        let cwd ← curdir p
        iput cwd
        modify fun state => state.onProc p (.setCwd · (some ip))
        pure true

def sysDup (p : Fin nproc) (fd : Int) : Code Bool := do
  match ← argfd p fd with
  | none => pure false
  | some (_, f) =>
    match ← fdalloc p f with
    | none => pure false
    | some _ => do
      filedup f
      pure true

def sysClose (p : Fin nproc) (fd : Int) : Code Bool := do
  match ← argfd p fd with
  | none => pure false
  | some (fd, f) => do
    modify fun state => state.onProc p (.setOfile · fd none)
    fileclose f
    pure true

def pipealloc : Code (Option (Fin nfile × Fin nfile)) := do
  match ← filealloc with
  | none => pure none
  | some f0 =>
    match ← filealloc with
    | none => do
      fileclose f0
      pure none
    | some f1 =>
      if ← asks then do
        -- no memory for the pipe
        fileclose f0
        fileclose f1
        pure none
      else do
        modify fun state => state.onFile f0 (.setTarget · .pipe)
        modify fun state => state.onFile f1 (.setTarget · .pipe)
        pure (some (f0, f1))

def sysPipe (p : Fin nproc) : Code Bool := do
  if ← asks then pure false
  else do
    match ← pipealloc with
    | none => pure false
    | some (rf, wf) =>
      match ← fdalloc p rf with
      | none => do
        fileclose rf
        fileclose wf
        pure false
      | some fd0 =>
        match ← fdalloc p wf with
        | none => do
          modify fun state => state.onProc p (.setOfile · fd0 none)
          fileclose rf
          fileclose wf
          pure false
        | some _ => pure true

/-- The loop of `exec` over the program headers, and whether it gets to its end. -/
def loadSegments : Nat → Code Bool
  | 0 => pure true
  | count + 1 => do
    if ← asks then pure false
    else if ← asks then
      -- not a segment to load
      loadSegments count
    else if ← asksAny 5 then pure false
    else loadSegments count

def sysExec (p : Fin nproc) (path : List UInt8) : Code Bool := do
  if ← asks then pure false
  else do
    match ← namex p false path with
    | none => pure false
    | some (ip, _) => do
      ilock ip
      if ← asksAny 3 then do
        -- the header, its magic number, `setupkvm`
        iunlockput ip
        pure false
      else do
        let phnum ← answer
        if ← loadSegments phnum then do
          iunlockput ip
          -- the stack and the arguments
          let failed ← asks
          pure !failed
        else do
          iunlockput ip
          pure false

def forkFile (p np : Fin nproc) (fd : Fin nofile) : Code Unit := do
  let state ← get
  match (state.proc p).ofile fd with
  | some f => do
    filedup f
    modify fun state => state.onProc np (.setOfile · fd (some f))
  | none => pure ()

def forkFiles (p np : Fin nproc) : List (Fin nofile) → Code Unit
  | [] => pure ()
  | fd :: rest => do
    forkFile p np fd
    forkFiles p np rest

def sysFork (p : Fin nproc) : Code Bool := do
  let state ← get
  match firstIndex fun q => decide ((state.proc q).state = .unused) with
  | none => pure false
  | some np => do
    modify fun state => state.onProc np (.setState · .embryo)
    if ← asksAny 2 then do
      -- the kernel stack, `copyuvm`
      modify fun state => state.onProc np (.setState · .unused)
      pure false
    else do
      modify fun state => state.onProc np (.setParent · (some p))
      forkFiles p np (List.finRange nofile)
      let cwd ← curdir p
      idup cwd
      modify fun state => state.onProc np (.setCwd · (some cwd))
      modify fun state => state.onProc np (.setState · .alive)
      pure true

def closeFile (p : Fin nproc) (fd : Fin nofile) : Code Unit := do
  let state ← get
  match (state.proc p).ofile fd with
  | some f => do
    fileclose f
    modify fun state => state.onProc p (.setOfile · fd none)
  | none => pure ()

def closeFiles (p : Fin nproc) : List (Fin nofile) → Code Unit
  | [] => pure ()
  | fd :: rest => do
    closeFile p fd
    closeFiles p rest

/-- `exit` passes its children to the first process. -/
def State.abandon (state : State) (p : Fin nproc) : State :=
  { state with proc := fun q =>
      if (state.proc q).parent = some p then (state.proc q).setParent (some state.initproc)
      else state.proc q }

def sysExit (p : Fin nproc) : Code Bool := do
  let state ← get
  if p = state.initproc then stop
  else do
    closeFiles p (List.finRange nofile)
    let cwd ← curdir p
    iput cwd
    modify fun state => state.onProc p (.setCwd · none)
    modify fun state => state.abandon p
    modify fun state => state.onProc p (.setState · .zombie)
    pure true

/-- `wait`, which does not return while there are children and none has exited. -/
def sysWait (p : Fin nproc) : Code Bool := do
  let state ← get
  match firstIndex fun q =>
      decide ((state.proc q).parent = some p ∧ (state.proc q).state = .zombie) with
  | some q => do
    modify fun state => state.onProc q fun proc => (proc.setParent none).setState .unused
    pure true
  | none =>
    if (firstIndex fun q => decide ((state.proc q).parent = some p)).isNone then pure false
    else if ← asks then
      -- killed
      pure false
    else stop

inductive Call
  | open (path : List UInt8) (omode : BitVec 32)
  | mkdir (path : List UInt8)
  | mknod (path : List UInt8)
  | link (old new : List UInt8)
  | unlink (path : List UInt8)
  | chdir (path : List UInt8)
  | dup (fd : Int)
  | pipe
  | close (fd : Int)
  | fork
  | exec (path : List UInt8)
  | exit
  | wait

def call (p : Fin nproc) : Call → Code Bool
  | .open path omode => sysOpen p path omode
  | .mkdir path => sysMkdir p path
  | .mknod path => sysMknod p path
  | .link old new => sysLink p old new
  | .unlink path => sysUnlink p path
  | .chdir path => sysChdir p path
  | .dup fd => sysDup p fd
  | .pipe => sysPipe p
  | .close fd => sysClose p fd
  | .fork => sysFork p
  | .exec path => sysExec p path
  | .exit => sysExit p
  | .wait => sysWait p

/-- A completed call: the process, the call and what it was answered. -/
structure Label where
  process : Fin nproc
  call : Call
  answers : List Nat

def State.step (state : State) (label : Label) : Option State :=
  if (state.proc label.process).state = .alive then
    (call label.process label.call label.answers state).map fun result => result.2.2
  else none

abbrev CallRun (initproc : Fin nproc) (root : Fin ninode) :
    List (State × Label) → State → Prop :=
  Run State.step (State.initial initproc root)

/-! ## The references -/

def State.descriptors (state : State) (f : Fin nfile) : Nat :=
  ∑ p, ∑ fd, if (state.proc p).ofile fd = some f then 1 else 0

def State.opened (state : State) (ip : Fin ninode) : Nat :=
  ∑ f, if 0 < (state.file f).ref ∧ (state.file f).target = .inode ip then 1 else 0

def State.directories (state : State) (ip : Fin ninode) : Nat :=
  ∑ p, if (state.proc p).cwd = some ip then 1 else 0

structure Exact (state : State) : Prop where
  files : ∀ f, (state.file f).ref = state.descriptors f
  inodes : ∀ ip, (state.inode ip).ref = state.opened ip + state.directories ip
  unique : ∀ ip other, 0 < (state.inode ip).ref → 0 < (state.inode other).ref →
    (state.inode ip).dev = (state.inode other).dev →
      (state.inode ip).inum = (state.inode other).inum → ip = other

end FileRefs

end Xv6
