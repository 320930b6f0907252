import Xv6.CircularLists
import Xv6.LabelledRuns

/-!
# The buffer cache

`bread` looks for the block in the list of buffers, and takes the least recently
used buffer that is neither referenced nor dirty if there is none; the caller
then waits for the sleep lock of the buffer and reads the disk if the buffer is
not valid.  `brelse` gives the lock back, drops the reference, and moves the
buffer to the front when nobody else wants it.  The log pins a buffer by
`B_DIRTY`, which `bwrite` clears.

A step is what a process does under `bcache.lock`, or with a buffer whose sleep
lock it has.  `install_trans` and the other parts of a commit consist of such
steps.  The disk returns what was last written to a block, so `iderw` is one
action.  A panic refuses the step.
-/

namespace Xv6

namespace BufferCache

open CircularList LabelledRun

abbrev nbuf : Nat := 30

abbrev Block : Type := BitVec 32 × BitVec 32

/-- `struct buf` without its links, and with the process that has the sleep
lock.  `valid` and `dirty` are the flags. -/
structure Buf (Proc Data : Type) where
  valid : Bool
  dirty : Bool
  dev : BitVec 32
  blockno : BitVec 32
  holder : Option Proc
  refcnt : Nat
  data : Data

/-- What a process is about to do: in `bread`, with the block that was asked for,
or in `brelse`. -/
inductive Activity
  | idle
  | locking (block : Block) (b : Fin nbuf)
  | releasing (b : Fin nbuf)
  deriving DecidableEq

/-- The cache, whose list head is the node `none`, the disk, and the processes. -/
structure State (Proc Data : Type) where
  buf : Fin nbuf → Buf Proc Data
  links : Links (Option (Fin nbuf))
  disk : Block → Data
  activity : Proc → Activity

inductive Label (Proc Data : Type)
  | bget (process : Proc) (dev blockno : BitVec 32)
  | acquiresleep (process : Proc)
  | modify (process : Proc) (b : Fin nbuf) (data : Data)
  | logWrite (process : Proc) (b : Fin nbuf)
  | bwrite (process : Proc) (b : Fin nbuf)
  | brelse (process : Proc) (b : Fin nbuf)
  | unref (process : Proc)

variable {Proc Data : Type}

def Buf.block (buf : Buf Proc Data) : Block :=
  (buf.dev, buf.blockno)

namespace Buf

variable (buf : Buf Proc Data)

def ref : Buf Proc Data :=
  { buf with refcnt := buf.refcnt + 1 }

def unref : Buf Proc Data :=
  { buf with refcnt := buf.refcnt - 1 }

def assign (dev blockno : BitVec 32) : Buf Proc Data :=
  { buf with dev := dev, blockno := blockno, valid := false, dirty := false, refcnt := 1 }

def setHolder (holder : Option Proc) : Buf Proc Data :=
  { buf with holder := holder }

def setData (data : Data) : Buf Proc Data :=
  { buf with data := data }

def setDirty : Buf Proc Data :=
  { buf with dirty := true }

/-- `ideintr` sets `B_VALID` and clears `B_DIRTY`. -/
def sync : Buf Proc Data :=
  { buf with valid := true, dirty := false }

end Buf

def binit : Links (Option (Fin nbuf)) :=
  (List.finRange nbuf).foldl (fun links b => links.push none (some b))
    ⟨fun _ => none, fun _ => none⟩

/-- The cache after `binit`; the data of unused buffers are arbitrary. -/
def State.initial (disk : Block → Data) (unread : Data) : State Proc Data where
  buf _ := ⟨false, false, 0, 0, none, 0, unread⟩
  links := binit
  disk := disk
  activity _ := .idle

namespace State

variable [DecidableEq Proc]

def setBuf (state : State Proc Data) (b : Fin nbuf) (change : Buf Proc Data → Buf Proc Data) :
    State Proc Data :=
  { state with buf := Function.update state.buf b (change (state.buf b)) }

def setActivity (state : State Proc Data) (process : Proc) (activity : Activity) :
    State Proc Data :=
  { state with activity := Function.update state.activity process activity }

/-- The first loop of `bget`. -/
def cached (state : State Proc Data) (dev blockno : BitVec 32) : Option (Fin nbuf) :=
  (search state.links.next none
    (fun node => node.any fun b =>
      (state.buf b).dev == dev && (state.buf b).blockno == blockno)
    (nbuf + 1) (state.links.next none)).join

/-- The second loop of `bget`. -/
def recyclable (state : State Proc Data) : Option (Fin nbuf) :=
  (search state.links.prev none
    (fun node => node.any fun b => (state.buf b).refcnt == 0 && !(state.buf b).dirty)
    (nbuf + 1) (state.links.prev none)).join

/-- `bget` up to `acquiresleep`. -/
def bget (state : State Proc Data) (process : Proc) (dev blockno : BitVec 32) :
    Option (State Proc Data) :=
  match state.cached dev blockno with
  | some b => some ((state.setBuf b .ref).setActivity process (.locking (dev, blockno) b))
  | none =>
    match state.recyclable with
    | some b =>
      some ((state.setBuf b (.assign · dev blockno)).setActivity process
        (.locking (dev, blockno) b))
    | none => none

def readDisk (state : State Proc Data) (b : Fin nbuf) : State Proc Data :=
  state.setBuf b fun buf => (buf.setData (state.disk buf.block)).sync

def writeDisk (state : State Proc Data) (b : Fin nbuf) : State Proc Data :=
  { state.setBuf b .sync with
    disk := Function.update state.disk (state.buf b).block (state.buf b).data }

/-- `iderw`: a dirty buffer is written, another one is read if it is not valid. -/
def iderw (state : State Proc Data) (b : Fin nbuf) : Option (State Proc Data) :=
  if (state.buf b).dirty then some (state.writeDisk b)
  else if (state.buf b).valid then none
  else some (state.readDisk b)

def take (state : State Proc Data) (process : Proc) (b : Fin nbuf) : State Proc Data :=
  (state.setBuf b (.setHolder · (some process))).setActivity process .idle

/-- `bread` from `acquiresleep` on. -/
def bread (state : State Proc Data) (process : Proc) (b : Fin nbuf) : Option (State Proc Data) :=
  if ((state.take process b).buf b).valid then some (state.take process b)
  else (state.take process b).iderw b

def bwrite (state : State Proc Data) (b : Fin nbuf) : Option (State Proc Data) :=
  (state.setBuf b .setDirty).iderw b

/-- `brelse` up to `releasesleep`. -/
def releasesleep (state : State Proc Data) (process : Proc) (b : Fin nbuf) : State Proc Data :=
  (state.setBuf b (.setHolder · none)).setActivity process (.releasing b)

def unref (state : State Proc Data) (process : Proc) (b : Fin nbuf) : State Proc Data :=
  let state := (state.setBuf b .unref).setActivity process .idle
  if (state.buf b).refcnt = 0 then
    { state with links := (state.links.unlink (some b)).push none (some b) }
  else state

/-- The process has the sleep lock and is in none of the functions. -/
abbrev Holds (state : State Proc Data) (process : Proc) (b : Fin nbuf) : Prop :=
  state.activity process = .idle ∧ (state.buf b).holder = some process

end State

section Transitions

variable [DecidableEq Proc]

/-- The steps.  `bwrite` and `brelse` panic without the sleep lock, and only a held
buffer is modified or given to the log. -/
def transition (state : State Proc Data) : Label Proc Data → Option (State Proc Data)
  | .bget process dev blockno =>
    if state.activity process = .idle then state.bget process dev blockno else none
  | .acquiresleep process =>
    match state.activity process with
    | .locking _ b => if (state.buf b).holder = none then state.bread process b else none
    | _ => none
  | .modify process b data =>
    if state.Holds process b then some (state.setBuf b (.setData · data)) else none
  | .logWrite process b =>
    if state.Holds process b then some (state.setBuf b .setDirty) else none
  | .bwrite process b => if state.Holds process b then state.bwrite b else none
  | .brelse process b => if state.Holds process b then some (state.releasesleep process b) else none
  | .unref process =>
    match state.activity process with
    | .releasing b => some (state.unref process b)
    | _ => none

def CacheRun (disk : Block → Data) (unread : Data) :
    List (State Proc Data × Label Proc Data) → State Proc Data → Prop :=
  Run transition (State.initial disk unread)

end Transitions

/-! ## What a user of the cache sees -/

section Observations

variable [DecidableEq Proc]

/-- The block that `bread` was asked for and the contents it returns. -/
def returned (state : State Proc Data) : Label Proc Data → Option (Block × Data)
  | .acquiresleep process =>
    match state.activity process with
    | .locking block b =>
      (transition state (.acquiresleep process)).map fun next => (block, (next.buf b).data)
    | _ => none
  | _ => none

/-- A `brelse` records the contents of the block. -/
def release (contents : Block → Data) (entry : State Proc Data × Label Proc Data) : Block → Data :=
  match entry.2 with
  | .brelse _ b => Function.update contents (entry.1.buf b).block (entry.1.buf b).data
  | _ => contents

/-- The contents of every block at its last `brelse`, and those of the disk before. -/
def contents (disk : Block → Data) (trace : List (State Proc Data × Label Proc Data)) :
    Block → Data :=
  trace.foldl release disk

/-- Whether a buffer has modifications that neither the log nor the disk has. -/
def mark (b : Fin nbuf) (pending : Bool) (entry : State Proc Data × Label Proc Data) : Bool :=
  match entry.2 with
  | .modify _ other _ => if other = b then true else pending
  | .logWrite _ other => if other = b then false else pending
  | .bwrite _ other => if other = b then false else pending
  | _ => pending

def pending (trace : List (State Proc Data × Label Proc Data)) (b : Fin nbuf) : Bool :=
  trace.foldl (mark b) false

/-- Every modification is followed by `log_write` or `bwrite` before `brelse`. -/
def Logged (trace : List (State Proc Data × Label Proc Data)) : Prop :=
  ∀ before state process b after, trace = before ++ (state, .brelse process b) :: after →
    pending before b = false

def Label.OnDevice : Label Proc Data → Prop
  | .bget _ dev _ => dev ≠ 0
  | _ => True

end Observations

/-- No two buffers have the same block, apart from those never used. -/
def Unique (state : State Proc Data) : Prop :=
  ∀ b other, (state.buf b).dev ≠ 0 → (state.buf b).block = (state.buf other).block → b = other

def Linked (state : State Proc Data) : Prop :=
  ∃ order : List (Fin nbuf), Circular state.links none (order.map some) ∧ ∀ b, b ∈ order

end BufferCache

end Xv6
