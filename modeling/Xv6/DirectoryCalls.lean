import Xv6.FileSystem
import Xv6.LabelledRuns

/-!
# System calls on directories

The directory layer of `fs.c` and the calls of `sysfile.c` on it: path lookup,
`create`, `link`, `unlink`, `open`, `mkdir`, `mknod`, `chdir` and `close`, with
`exit` of `proc.c`.  A directory is the array of its entries, which `readi` and
`writei` read and write one at a time; the references of the inode cache are
counted, and giving back the last one frees an inode without links.
-/

namespace Xv6

namespace Dirs

open LabelledRun
open Function (update)
open Fs (FileType maxfile)

abbrev rootino : Nat := 1
abbrev dirsiz : Nat := 14
abbrev ninode : Nat := 50
abbrev nfile : Nat := 100
abbrev nofile : Nat := 16
abbrev nproc : Nat := 64

/-- The entries that fit into the largest file, at 16 bytes each. -/
abbrev maxEntries : Nat := maxfile * DiskBlock.bsize / 16

/-- A name, without the NUL bytes that fill it up. -/
abbrev Name : Type := List UInt8

def slash : UInt8 := 47
def dot : Name := [46]
def dotdot : Name := [46, 46]

/-- `struct dirent`.  An entry whose `inum` is 0 is unused. -/
structure Dirent where
  inum : Nat
  name : Name
  deriving DecidableEq

structure Inode where
  type : FileType
  major : Int
  minor : Int
  nlink : Int
  entries : List Dirent
  deriving DecidableEq

/-- An entry of the inode cache, in use if `ref` is positive. -/
structure Cached where
  ref : Nat
  valid : Bool
  deriving DecidableEq

/-- `struct file` of type `FD_INODE`, without the offset. -/
structure File where
  inum : Nat
  readable : Bool
  writable : Bool

structure Proc where
  cwd : Nat
  ofile : Nat → Option File

structure State where
  inode : Nat → Inode
  icache : Nat → Cached
  proc : Nat → Option Proc

inductive Panic
  | igetNoInodes
  | iallocNoInodes
  | ilock
  | ilockNoType
  | dirlookupNotDir
  | dirlink
  | unlinkNlink
  | createDots
  | createDirlink
  | initExiting
  | noProcess
  deriving DecidableEq

abbrev Result (α : Type) : Type :=
  Except Panic α

/-- The value of an `int` stored in a `short`. -/
def short (value : Int) : Int :=
  value.bmod (2 ^ 16)

def State.setInode (state : State) (inum : Nat) (node : Inode) : State :=
  { state with inode := update state.inode inum node }

def State.setCached (state : State) (inum : Nat) (cached : Cached) : State :=
  { state with icache := update state.icache inum cached }

def State.setProc (state : State) (pid : Nat) (proc : Option Proc) : State :=
  { state with proc := update state.proc pid proc }

section Fields

variable (state : State) (inum pid : Nat) (node : Inode) (cached : Cached) (proc : Option Proc)

@[simp]
theorem setInode_inode :
    (state.setInode inum node).inode = update state.inode inum node := rfl

@[simp]
theorem setInode_icache : (state.setInode inum node).icache = state.icache := rfl

@[simp]
theorem setInode_proc : (state.setInode inum node).proc = state.proc := rfl

@[simp]
theorem setCached_inode : (state.setCached inum cached).inode = state.inode := rfl

@[simp]
theorem setCached_icache :
    (state.setCached inum cached).icache = update state.icache inum cached := rfl

@[simp]
theorem setCached_proc : (state.setCached inum cached).proc = state.proc := rfl

@[simp]
theorem setProc_inode : (state.setProc pid proc).inode = state.inode := rfl

@[simp]
theorem setProc_icache : (state.setProc pid proc).icache = state.icache := rfl

@[simp]
theorem setProc_proc :
    (state.setProc pid proc).proc = update state.proc pid proc := rfl

end Fields

/-- Change the link count of an inode, as `ip->nlink++` and `ip->nlink--` do. -/
def State.addLink (state : State) (inum : Nat) (change : Int) : State :=
  state.setInode inum
    { state.inode inum with nlink := short ((state.inode inum).nlink + change) }

/-! ## The inode cache -/

def State.inUse (ninodes : Nat) (state : State) : Nat :=
  (List.range ninodes).countP fun inum => 0 < (state.icache inum).ref

def iget (ninodes inum : Nat) (state : State) : Result State :=
  if 0 < (state.icache inum).ref then
    .ok (state.setCached inum { state.icache inum with ref := (state.icache inum).ref + 1 })
  else if ninode ≤ state.inUse ninodes then .error .igetNoInodes
  else .ok (state.setCached inum ⟨1, false⟩)

def idup (inum : Nat) (state : State) : State :=
  state.setCached inum { state.icache inum with ref := (state.icache inum).ref + 1 }

def ilock (inum : Nat) (state : State) : Result State :=
  if (state.icache inum).ref < 1 then .error .ilock
  else if (state.icache inum).valid then .ok state
  else if (state.inode inum).type = .free then .error .ilockNoType
  else .ok (state.setCached inum { state.icache inum with valid := true })

/-- `iput`.  `itrunc` empties the inode. -/
def iput (inum : Nat) (state : State) : State :=
  let cached := state.icache inum
  if cached.valid = true ∧ (state.inode inum).nlink = 0 ∧ cached.ref = 1 then
    (state.setInode inum { state.inode inum with type := .free, entries := [] }).setCached inum
      ⟨cached.ref - 1, false⟩
  else state.setCached inum { cached with ref := cached.ref - 1 }

def ialloc (ninodes : Nat) (type : FileType) (state : State) : Result (Nat × State) :=
  match (List.range' 1 (ninodes - 1)).find? fun inum => (state.inode inum).type = .free with
  | some inum => do
    let state ← iget ninodes inum (state.setInode inum ⟨type, 0, 0, 0, []⟩)
    .ok (inum, state)
  | none => .error .iallocNoInodes

/-! ## Directories -/

/-- The loop of `dirlookup`: the inode number and the offset, counted in entries. -/
def scan (name : Name) : Nat → List Dirent → Option (Nat × Nat)
  | _, [] => none
  | off, de :: rest =>
    if de.inum = 0 then scan name (off + 1) rest
    else if name = de.name then some (de.inum, off)
    else scan name (off + 1) rest

def dirlookup (ninodes dp : Nat) (name : Name) (state : State) :
    Result (Option (Nat × Nat) × State) :=
  if (state.inode dp).type ≠ .dir then .error .dirlookupNotDir
  else
    match scan name 0 (state.inode dp).entries with
    | none => .ok (none, state)
    | some (inum, off) => do
      let state ← iget ninodes inum state
      .ok (some (inum, off), state)

/-- `writei` of one entry. -/
def writeEntry (entries : List Dirent) (off : Nat) (de : Dirent) : List Dirent :=
  if off < entries.length then entries.set off de else entries ++ [de]

/-- `dirlink` without the sleep locks.  If the entry found names `dp`, `iput` waits in the
kernel for a lock that its own process holds, and here the call returns. -/
def dirlink (ninodes dp : Nat) (name : Name) (inum : Nat) (state : State) :
    Result (Int × State) := do
  let (ip, state) ← dirlookup ninodes dp name state
  match ip with
  | some (ip, _) => .ok (-1, iput ip state)
  | none =>
    let node := state.inode dp
    let off := node.entries.findIdx fun de => de.inum = 0
    if maxEntries ≤ off then .error .dirlink
    else .ok (0, state.setInode dp
      { node with entries := writeEntry node.entries off ⟨inum % 2 ^ 16, name⟩ })

def isdirempty (node : Inode) : Bool :=
  (node.entries.drop 2).all fun de => de.inum = 0

/-! ## Paths -/

/-- `skipelem`: the next element of a path, cut to `DIRSIZ` bytes, and the path
after it. -/
def skipelem (path : List UInt8) : Option (Name × List UInt8) :=
  let path := path.dropWhile (· = slash)
  if path = [] then none
  else
    some ((path.takeWhile (· ≠ slash)).take dirsiz,
      (path.dropWhile (· ≠ slash)).dropWhile (· = slash))

/-- The end of `namex`, after the last element. -/
def namexEnd (nameiparent : Bool) (ip : Nat) (state : State) : Option (Nat × Name) × State :=
  if nameiparent then (none, iput ip state) else (some (ip, []), state)

/-- The loop of `namex`: the inode, and the last element when the parent is
asked for. -/
def namexLoop (ninodes : Nat) (nameiparent : Bool) :
    Nat → Nat → List UInt8 → State → Result (Option (Nat × Name) × State)
  | 0, ip, _, state => .ok (namexEnd nameiparent ip state)
  | fuel + 1, ip, path, state =>
    match skipelem path with
    | none => .ok (namexEnd nameiparent ip state)
    | some (name, path) => do
      let state ← ilock ip state
      if (state.inode ip).type ≠ .dir then .ok (none, iput ip state)
      else if nameiparent = true ∧ path = [] then .ok (some (ip, name), state)
      else do
        let (next, state) ← dirlookup ninodes ip name state
        match next with
        | none => .ok (none, iput ip state)
        | some (next, _) => namexLoop ninodes nameiparent fuel next path (iput ip state)

theorem length_lt_of_skipelem {path rest : List UInt8} {name : Name}
    (element : skipelem path = some (name, rest)) : rest.length < path.length := by
  have shorter := (List.dropWhile_sublist (l := path) (· = slash)).length_le
  rw [skipelem] at element
  split at element
  · cases element
  · rename_i nonempty
    cases trimmed : path.dropWhile (· = slash) with
    | nil => exact absurd trimmed nonempty
    | cons first others =>
      have notSlash : first ≠ slash := by
        have head := List.head?_dropWhile_not (fun c => decide (c = slash)) path
        rw [trimmed] at head
        simpa using head
      rw [trimmed] at element shorter
      cases element
      have atMost := ((List.dropWhile_sublist (· = slash)).trans
        (List.dropWhile_sublist (l := others) (· ≠ slash))).length_le
      rw [List.dropWhile_cons_of_pos (by simpa using notSlash)]
      rw [List.length_cons] at shorter
      omega

/-- `namex`, for a process with the current directory `cwd`. -/
def namex (ninodes : Nat) (nameiparent : Bool) (cwd : Nat) (path : List UInt8) (state : State) :
    Result (Option (Nat × Name) × State) :=
  if path.head? = some slash then do
    let state ← iget ninodes rootino state
    namexLoop ninodes nameiparent (path.length + 1) rootino path state
  else namexLoop ninodes nameiparent (path.length + 1) cwd path (idup cwd state)

/-! ## System calls -/

def createDots (ninodes ip dp : Nat) (state : State) : Result State := do
  let (r, state) ← dirlink ninodes ip dot ip state
  if r < 0 then .error .createDots
  else do
    let (r, state) ← dirlink ninodes ip dotdot dp state
    if r < 0 then .error .createDots else .ok state

def createNew (ninodes dp : Nat) (name : Name) (type : FileType) (major minor : Int)
    (state : State) : Result (Option Nat × State) := do
  let (ip, state) ← ialloc ninodes type state
  let state ← ilock ip state
  let state := state.setInode ip
    { state.inode ip with major := short major, minor := short minor, nlink := 1 }
  let state ← if type = .dir then createDots ninodes ip dp (state.addLink dp 1) else .ok state
  let (r, state) ← dirlink ninodes dp name ip state
  if r < 0 then .error .createDirlink else .ok (some ip, iput dp state)

def create (ninodes cwd : Nat) (path : List UInt8) (type : FileType) (major minor : Int)
    (state : State) : Result (Option Nat × State) := do
  let (found, state) ← namex ninodes true cwd path state
  match found with
  | none => .ok (none, state)
  | some (dp, name) => do
    let state ← ilock dp state
    let (ip, state) ← dirlookup ninodes dp name state
    match ip with
    | some (ip, _) => do
      let state ← ilock ip (iput dp state)
      if type = .file ∧ (state.inode ip).type = .file then .ok (some ip, state)
      else .ok (none, iput ip state)
    | none => createNew ninodes dp name type major minor state

def State.openFiles (state : State) : Nat :=
  ((List.range nproc).map fun pid =>
    (state.proc pid).elim 0 fun p => (List.range nofile).countP fun fd => (p.ofile fd).isSome).sum

/-- The end of `sys_open`: `filealloc` and `fdalloc`. -/
def openFile (pid : Nat) (p : Proc) (ip : Nat) (omode : BitVec 32) (state : State) :
    Int × State :=
  if nfile ≤ state.openFiles then (-1, iput ip state)
  else
    match (List.range nofile).find? fun fd => (p.ofile fd).isNone with
    | none => (-1, iput ip state)
    | some fd =>
      let file := ⟨ip, decide (omode &&& 1 = 0), decide (omode &&& 1 ≠ 0 ∨ omode &&& 2 ≠ 0)⟩
      (fd, state.setProc pid (some { p with ofile := update p.ofile fd (some file) }))

def creates (omode : BitVec 32) : Bool :=
  omode &&& 0x200 ≠ 0

def sysOpen (ninodes pid : Nat) (p : Proc) (path : List UInt8) (omode : BitVec 32)
    (state : State) : Result (Int × State) :=
  if creates omode then do
    let (ip, state) ← create ninodes p.cwd path .file 0 0 state
    match ip with
    | none => .ok (-1, state)
    | some ip => .ok (openFile pid p ip omode state)
  else do
    let (ip, state) ← namex ninodes false p.cwd path state
    match ip with
    | none => .ok (-1, state)
    | some (ip, _) => do
      let state ← ilock ip state
      if (state.inode ip).type = .dir ∧ omode ≠ 0 then .ok (-1, iput ip state)
      else .ok (openFile pid p ip omode state)

/-- `sys_mkdir`, and `sys_mknod` with the type `T_DEV`. -/
def makeNode (ninodes : Nat) (p : Proc) (path : List UInt8) (type : FileType) (major minor : Int)
    (state : State) : Result (Int × State) := do
  let (ip, state) ← create ninodes p.cwd path type major minor state
  match ip with
  | none => .ok (-1, state)
  | some ip => .ok (0, iput ip state)

def sysMkdir (ninodes : Nat) (p : Proc) (path : List UInt8) (state : State) :
    Result (Int × State) :=
  makeNode ninodes p path .dir 0 0 state

def sysMknod (ninodes : Nat) (p : Proc) (path : List UInt8) (major minor : Int) (state : State) :
    Result (Int × State) :=
  makeNode ninodes p path .dev major minor state

def linkBad (ip : Nat) (state : State) : Result (Int × State) := do
  let state ← ilock ip state
  .ok (-1, iput ip (state.addLink ip (-1)))

/-- The part of `sys_link` after `ip->nlink++`. -/
def linkNew (ninodes : Nat) (p : Proc) (ip : Nat) (new : List UInt8) (state : State) :
    Result (Int × State) := do
  let (dp, state) ← namex ninodes true p.cwd new state
  match dp with
  | none => linkBad ip state
  | some (dp, name) => do
    let state ← ilock dp state
    let (r, state) ← dirlink ninodes dp name ip state
    if r < 0 then linkBad ip (iput dp state)
    else .ok (0, iput ip (iput dp state))

def sysLink (ninodes : Nat) (p : Proc) (old new : List UInt8) (state : State) :
    Result (Int × State) := do
  let (ip, state) ← namex ninodes false p.cwd old state
  match ip with
  | none => .ok (-1, state)
  | some (ip, _) => do
    let state ← ilock ip state
    if (state.inode ip).type = .dir then .ok (-1, iput ip state)
    else linkNew ninodes p ip new (state.addLink ip 1)

def clearEntry (node : Inode) (off : Nat) : Inode :=
  { node with entries := writeEntry node.entries off ⟨0, []⟩ }

/-- The part of `sys_unlink` after its checks. -/
def removeEntry (dp ip off : Nat) (state : State) : State :=
  let state := state.setInode dp (clearEntry (state.inode dp) off)
  let state := if (state.inode ip).type = .dir then state.addLink dp (-1) else state
  let state := iput dp state
  iput ip (state.addLink ip (-1))

def sysUnlink (ninodes : Nat) (p : Proc) (path : List UInt8) (state : State) :
    Result (Int × State) := do
  let (dp, state) ← namex ninodes true p.cwd path state
  match dp with
  | none => .ok (-1, state)
  | some (dp, name) => do
    let state ← ilock dp state
    if name = dot ∨ name = dotdot then .ok (-1, iput dp state)
    else do
      let (ip, state) ← dirlookup ninodes dp name state
      match ip with
      | none => .ok (-1, iput dp state)
      | some (ip, off) => do
        let state ← ilock ip state
        if (state.inode ip).nlink < 1 then .error .unlinkNlink
        else if (state.inode ip).type = .dir ∧ isdirempty (state.inode ip) = false then
          .ok (-1, iput dp (iput ip state))
        else .ok (0, removeEntry dp ip off state)

def sysChdir (ninodes pid : Nat) (p : Proc) (path : List UInt8) (state : State) :
    Result (Int × State) := do
  let (ip, state) ← namex ninodes false p.cwd path state
  match ip with
  | none => .ok (-1, state)
  | some (ip, _) => do
    let state ← ilock ip state
    if (state.inode ip).type ≠ .dir then .ok (-1, iput ip state)
    else .ok (0, (iput p.cwd state).setProc pid (some { p with cwd := ip }))

def sysClose (pid : Nat) (p : Proc) (fd : Nat) (state : State) : Int × State :=
  if nofile ≤ fd then (-1, state)
  else
    match p.ofile fd with
    | none => (-1, state)
    | some f =>
      (0, iput f.inum
        (state.setProc pid (some { p with ofile := update p.ofile fd none })))

/-- The loop of `exit` over the open files. -/
def closeFiles (pid : Nat) : List Nat → Proc → State → Proc × State
  | [], p, state => (p, state)
  | fd :: rest, p, state =>
    match p.ofile fd with
    | none => closeFiles pid rest p state
    | some f =>
      let p' := { p with ofile := update p.ofile fd none }
      closeFiles pid rest p' (iput f.inum (state.setProc pid (some p')))

/-- `exit`, where process 0 is `initproc`. -/
def sysExit (pid : Nat) (p : Proc) (state : State) : Result State :=
  if pid = 0 then .error .initExiting
  else
    let (p, state) := closeFiles pid (List.range nofile) p state
    .ok ((iput p.cwd state).setProc pid none)

inductive Call
  | open (path : List UInt8) (omode : BitVec 32)
  | mkdir (path : List UInt8)
  | mknod (path : List UInt8) (major minor : Int)
  | link (old new : List UInt8)
  | unlink (path : List UInt8)
  | chdir (path : List UInt8)
  | close (fd : Nat)
  | exit

/-- A system call of a process: the number it returns, and the state after it. -/
def State.call (ninodes pid : Nat) (state : State) (call : Call) : Result (Int × State) :=
  match state.proc pid with
  | none => .error .noProcess
  | some p =>
    match call with
    | .open path omode => sysOpen ninodes pid p path omode state
    | .mkdir path => sysMkdir ninodes p path state
    | .mknod path major minor => sysMknod ninodes p path major minor state
    | .link old new => sysLink ninodes p old new state
    | .unlink path => sysUnlink ninodes p path state
    | .chdir path => sysChdir ninodes pid p path state
    | .close fd => .ok (sysClose pid p fd state)
    | .exit => do
      let state ← sysExit pid p state
      .ok (0, state)

def State.step (ninodes : Nat) (state : State) (label : Nat × Call) : Option State :=
  (state.call ninodes label.1 label.2).toOption.map Prod.snd

abbrev DirsRun (ninodes : Nat) (start : State) (trace : List (State × (Nat × Call)))
    (finish : State) : Prop :=
  Run (State.step ninodes) start trace finish

end Dirs

end Xv6
