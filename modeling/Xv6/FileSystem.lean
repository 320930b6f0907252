import Xv6.DiskBlock
import Xv6.LabelledRuns

/-!
# Blocks and inodes of the file system

The block allocator and the inode layer of `fs.c`: `balloc` and `bfree` over
the bitmap on the disk, `bmap` and `itrunc` over direct and indirect addresses,
`readi` and `writei`, and the life of an inode from `ialloc` to the `iput` that
frees it.  The contents of blocks are those the buffer cache shows; a
`log_write` puts the changed contents in their place.  The inode blocks are
represented as a table of inodes, and the inode cache by what it holds for each
inode number.  A call that panics is an error and changes nothing.
-/

namespace Xv6

namespace Fs

open DiskBlock LabelledRun

/-- `BPB`: bits of the bitmap in a block. -/
abbrev bpb : Nat := bitCount

abbrev ndirect : Nat := 12

abbrev nindirect : Nat := wordCount

/-- `MAXFILE`: blocks of the largest file. -/
abbrev maxfile : Nat := ndirect + nindirect

/-- `NINODE`: entries of the inode cache. -/
abbrev ninode : Nat := 50

/-- `NDEV`: entries of the device table. -/
abbrev ndev : Nat := 10

/-- The layout of the disk: the super block, with the number `nmeta` of blocks
that `mkfs` puts before the data blocks.  The bitmap is among them. -/
structure SuperBlock where
  size : Nat
  ninodes : Nat
  bmapstart : Nat
  nmeta : Nat
  bitmap_before : ∀ b < size, b / bpb + bmapstart < nmeta
  nmeta_le : nmeta ≤ size
  positive : 0 < nmeta
  addressable : size ≤ 2 ^ 31

/-- `BBLOCK`: the block of the bitmap with the bit of block `b`. -/
def SuperBlock.bblock (sb : SuperBlock) (b : Nat) : Nat :=
  b / bpb + sb.bmapstart

/-- The panics of these functions, under their texts; `unreferenced` stands for a
call with a pointer that holds no reference. -/
inductive Panic
  | outOfBlocks
  | freeingFreeBlock
  | bmapOutOfRange
  | iallocNoInodes
  | igetNoInodes
  | ilockNoType
  | shortFilewrite
  | unreferenced
  deriving DecidableEq

/-- The type of an inode; `free` is zero. -/
inductive FileType
  | free
  | dir
  | file
  | dev
  deriving DecidableEq

structure Inode where
  type : FileType
  major : Int
  minor : Int
  nlink : Int
  size : Nat
  addrs : Nat → Nat

def Inode.zero : Inode where
  type := .free
  major := 0
  minor := 0
  nlink := 0
  size := 0
  addrs _ := 0

structure Entry where
  ref : Nat
  valid : Bool
  copy : Inode

structure State where
  block : Nat → Data
  dinode : Nat → Inode
  icache : Nat → Option Entry

abbrev Result (α : Type) : Type :=
  Except Panic α

theorem bind_eq_ok {α β : Type} {first : Result α} {rest : α → Result β} {result : β} :
    first >>= rest = .ok result ↔ ∃ value, first = .ok value ∧ rest value = .ok result := by
  cases first with
  | error panic => simp [bind, Except.bind]
  | ok value => simp [bind, Except.bind]

/-- Change the contents of a buffer and call `log_write`. -/
def State.logWrite (state : State) (b : Nat) (data : Data) : State :=
  { state with block := Function.update state.block b data }

def State.bzero (state : State) (b : Nat) : State :=
  state.logWrite b fun _ => 0

/-! ## Blocks -/

/-- The loops of `balloc`: the first clear bit, as the number of the block that
the bitmap block starts with and the index of the bit. -/
def State.findFree (sb : SuperBlock) (state : State) : Option (Nat × Nat) :=
  (List.range ((sb.size + bpb - 1) / bpb)).findSome? fun group =>
    let b := group * bpb
    ((List.range (min bpb (sb.size - b))).find? fun bi =>
      bitClear (state.block (sb.bblock b)) bi).map fun bi => (b, bi)

def balloc (sb : SuperBlock) (state : State) : Result (Nat × State) :=
  match state.findFree sb with
  | some (b, bi) =>
    let marked := state.logWrite (sb.bblock b) (setBit (state.block (sb.bblock b)) bi)
    .ok (b + bi, marked.bzero (b + bi))
  | none => .error .outOfBlocks

def bfree (sb : SuperBlock) (b : Nat) (state : State) : Result State :=
  let data := state.block (sb.bblock b)
  let bi := b % bpb
  if bitClear data bi then .error .freeingFreeBlock
  else .ok (state.logWrite (sb.bblock b) (clearBit data bi))

/-! ## Addresses of an inode -/

def Inode.setAddr (ip : Inode) (index addr : Nat) : Inode :=
  { ip with addrs := Function.update ip.addrs index addr }

/-- The address in `addrs[index]`, allocated when there is none. -/
def bmapAddr (sb : SuperBlock) (ip : Inode) (index : Nat) (state : State) :
    Result (Inode × State) :=
  if ip.addrs index = 0 then do
    let (addr, state) ← balloc sb state
    .ok (ip.setAddr index addr, state)
  else .ok (ip, state)

def bmap (sb : SuperBlock) (ip : Inode) (bn : Nat) (state : State) :
    Result (Nat × Inode × State) :=
  if bn < ndirect then do
    let (ip, state) ← bmapAddr sb ip bn state
    .ok (ip.addrs bn, ip, state)
  else if bn - ndirect < nindirect then do
    let (ip, state) ← bmapAddr sb ip ndirect state
    let indirect := ip.addrs ndirect
    let entry := word (state.block indirect) (bn - ndirect)
    if entry = 0 then do
      let (addr, state) ← balloc sb state
      .ok (addr, ip, state.logWrite indirect
        (setWord (state.block indirect) (bn - ndirect) (BitVec.ofNat 32 addr)))
    else .ok (entry.toNat, ip, state)
  else .error .bmapOutOfRange

def State.iupdate (state : State) (inum : Nat) (ip : Inode) : State :=
  { state with dinode := Function.update state.dinode inum ip }

/-- The first loop of `itrunc`, over the direct addresses. -/
def truncDirect (sb : SuperBlock) : List Nat → Inode → State → Result (Inode × State)
  | [], ip, state => .ok (ip, state)
  | index :: rest, ip, state =>
    if ip.addrs index ≠ 0 then do
      let state ← bfree sb (ip.addrs index) state
      truncDirect sb rest (ip.setAddr index 0) state
    else truncDirect sb rest ip state

/-- The second loop of `itrunc`, over the entries of the indirect block. -/
def truncEntries (sb : SuperBlock) (indirect : Data) : List Nat → State → Result State
  | [], state => .ok state
  | index :: rest, state =>
    if word indirect index ≠ 0 then do
      let state ← bfree sb (word indirect index).toNat state
      truncEntries sb indirect rest state
    else truncEntries sb indirect rest state

/-- The part of `itrunc` about the indirect block. -/
def truncIndirect (sb : SuperBlock) (ip : Inode) (state : State) : Result (Inode × State) :=
  if ip.addrs ndirect ≠ 0 then do
    let state ← truncEntries sb (state.block (ip.addrs ndirect)) (List.range nindirect) state
    let state ← bfree sb (ip.addrs ndirect) state
    .ok (ip.setAddr ndirect 0, state)
  else .ok (ip, state)

def itrunc (sb : SuperBlock) (inum : Nat) (ip : Inode) (state : State) :
    Result (Inode × State) := do
  let (ip, state) ← truncDirect sb (List.range ndirect) ip state
  let (ip, state) ← truncIndirect sb ip state
  let ip := { ip with size := 0 }
  .ok (ip, state.iupdate inum ip)

/-! ## Reading and writing -/

/-- An entry of `devsw`.  A null pointer is `none`. -/
structure Device where
  read : Option (Nat → Int × List UInt8)
  write : Option (List UInt8 → Int)

def readiLoop (sb : SuperBlock) :
    Nat → Inode → Nat → Nat → State → Result (List UInt8 × Inode × State)
  | 0, ip, _, _, state => .ok ([], ip, state)
  | fuel + 1, ip, off, n, state =>
    if n = 0 then .ok ([], ip, state)
    else do
      let (addr, ip, state) ← bmap sb ip (off / bsize) state
      let m := min n (bsize - off % bsize)
      let copied := bytes (state.block addr) (off % bsize) m
      let (rest, ip, state) ← readiLoop sb fuel ip (off + m) (n - m) state
      .ok (copied ++ rest, ip, state)

/-- `readi`, with the number it returns and the bytes it stores. -/
def readi (sb : SuperBlock) (devsw : Nat → Device) (ip : Inode) (off n : Nat) (state : State) :
    Result (Int × List UInt8 × Inode × State) :=
  if ip.type = .dev then
    if ip.major < 0 ∨ ndev ≤ ip.major then .ok (-1, [], ip, state)
    else
      match (devsw ip.major.toNat).read with
      | none => .ok (-1, [], ip, state)
      | some read => .ok ((read n).1, (read n).2, ip, state)
  else if ip.size < off ∨ (off + n) % 2 ^ 32 < off then .ok (-1, [], ip, state)
  else do
    let n := if ip.size < (off + n) % 2 ^ 32 then ip.size - off else n
    let (copied, ip, state) ← readiLoop sb n ip off n state
    .ok (n, copied, ip, state)

def writeiLoop (sb : SuperBlock) :
    Nat → Inode → Nat → List UInt8 → State → Result (Nat × Inode × State)
  | 0, ip, off, _, state => .ok (off, ip, state)
  | fuel + 1, ip, off, src, state =>
    if src.length = 0 then .ok (off, ip, state)
    else do
      let (addr, ip, state) ← bmap sb ip (off / bsize) state
      let m := min src.length (bsize - off % bsize)
      let data := setBytes (state.block addr) (off % bsize) (src.take m)
      writeiLoop sb fuel ip (off + m) (src.drop m) (state.logWrite addr data)

/-- `writei` of the bytes in `src`. -/
def writei (sb : SuperBlock) (devsw : Nat → Device) (inum : Nat) (ip : Inode) (off : Nat)
    (src : List UInt8) (state : State) : Result (Int × Inode × State) :=
  if ip.type = .dev then
    if ip.major < 0 ∨ ndev ≤ ip.major then .ok (-1, ip, state)
    else
      match (devsw ip.major.toNat).write with
      | none => .ok (-1, ip, state)
      | some write => .ok (write src, ip, state)
  else if ip.size < off ∨ (off + src.length) % 2 ^ 32 < off then .ok (-1, ip, state)
  else if maxfile * bsize < (off + src.length) % 2 ^ 32 then .ok (-1, ip, state)
  else do
    let (off, ip, state) ← writeiLoop sb src.length ip off src state
    if 0 < src.length ∧ ip.size < off then
      let ip := { ip with size := off }
      .ok (src.length, ip, state.iupdate inum ip)
    else .ok (src.length, ip, state)

/-! ## The inode cache -/

def State.entries (sb : SuperBlock) (state : State) : Nat :=
  (List.range sb.ninodes).countP fun inum => (state.icache inum).isSome

def State.setEntry (state : State) (inum : Nat) (entry : Option Entry) : State :=
  { state with icache := Function.update state.icache inum entry }

def iget (sb : SuperBlock) (inum : Nat) (state : State) : Result State :=
  match state.icache inum with
  | some entry => .ok (state.setEntry inum (some { entry with ref := entry.ref + 1 }))
  | none =>
    if ninode ≤ state.entries sb then .error .igetNoInodes
    else .ok (state.setEntry inum (some ⟨1, false, .zero⟩))

def ialloc (sb : SuperBlock) (type : FileType) (state : State) : Result (Nat × State) :=
  match (List.range' 1 (sb.ninodes - 1)).find? fun inum => (state.dinode inum).type = .free with
  | some inum => do
    let state ← iget sb inum (state.iupdate inum { Inode.zero with type := type })
    .ok (inum, state)
  | none => .error .iallocNoInodes

/-- `ilock`: the inode as it is in memory. -/
def ilock (inum : Nat) (state : State) : Result (Inode × State) :=
  match state.icache inum with
  | none => .error .unreferenced
  | some entry =>
    if entry.valid then .ok (entry.copy, state)
    else
      let ip := state.dinode inum
      if ip.type = .free then .error .ilockNoType
      else .ok (ip, state.setEntry inum (some { entry with valid := true, copy := ip }))

/-- The inode in memory after it was changed. -/
def State.setCopy (state : State) (inum : Nat) (ip : Inode) : State :=
  { state with
    icache := Function.update state.icache inum
      ((state.icache inum).map fun entry => { entry with copy := ip }) }

/-- The end of `iput`: one reference less. -/
def State.dropRef (state : State) (inum : Nat) (entry : Entry) : State :=
  state.setEntry inum (if entry.ref - 1 = 0 then none else some { entry with ref := entry.ref - 1 })

def iput (sb : SuperBlock) (inum : Nat) (state : State) : Result State :=
  match state.icache inum with
  | none => .error .unreferenced
  | some entry =>
    if entry.valid = true ∧ entry.copy.nlink = 0 ∧ entry.ref = 1 then do
      let (ip, state) ← itrunc sb inum entry.copy state
      let ip := { ip with type := .free }
      .ok ((state.iupdate inum ip).dropRef inum { entry with copy := ip, valid := false })
    else .ok (state.dropRef inum entry)

/-! ## Operations on inodes -/

/-- The operations: allocate an inode, take another reference to one, lock an
inode and change its link count and device numbers as the system calls do, read
it, write it, and give a reference back. -/
inductive Op
  | ialloc (type : FileType)
  | iget (inum : Nat)
  | iupdate (inum : Nat) (major minor nlink : Int)
  | readi (inum : Nat) (off n : UInt32)
  | writei (inum : Nat) (off : UInt32) (src : List UInt8)
  | iput (inum : Nat)

def perform (sb : SuperBlock) (devsw : Nat → Device) (state : State) : Op → Result State
  | .ialloc type => do
    let (_, state) ← ialloc sb type state
    .ok state
  | .iget inum => iget sb inum state
  | .iupdate inum major minor nlink => do
    let (ip, state) ← ilock inum state
    let ip := { ip with major := major, minor := minor, nlink := nlink }
    .ok ((state.iupdate inum ip).setCopy inum ip)
  | .readi inum off n => do
    let (ip, state) ← ilock inum state
    let (_, _, ip, state) ← readi sb devsw ip off.toNat n.toNat state
    .ok (state.setCopy inum ip)
  | .writei inum off src => do
    let (ip, state) ← ilock inum state
    let (_, ip, state) ← writei sb devsw inum ip off.toNat src state
    .ok (state.setCopy inum ip)
  | .iput inum => iput sb inum state

def step (sb : SuperBlock) (devsw : Nat → Device) (state : State) (op : Op) : Option State :=
  (perform sb devsw state op).toOption

abbrev FsRun (sb : SuperBlock) (devsw : Nat → Device) (image : State)
    (trace : List (State × Op)) (finish : State) : Prop :=
  Run (step sb devsw) image trace finish

end Fs

end Xv6
