import Xv6.CStrings
import Xv6.BlockOwnership

/-!
# The image that `mkfs` builds

`mkfs` allocates blocks by counting upwards, appends to inodes with its own code
for direct and indirect addresses, and writes the bitmap at the very end.  The
root directory gets one entry for itself, one for its parent and one for every
file; its size is then rounded up to whole blocks.

The inode blocks are a table of inodes, as in the model of the kernel.  A failed
assertion gives no image.  The bytes of a file come in the pieces that `read`
returns.
-/

namespace Xv6

namespace Mkfs

open DiskBlock
open Fs (Inode FileType SuperBlock ndirect nindirect maxfile)

/-- `FSSIZE`: blocks of the image. -/
abbrev fssize : Nat := 1000

abbrev ninodes : Nat := 200

abbrev nlog : Nat := 30

/-- Inode blocks, of `IPB` inodes each. -/
abbrev ninodeblocks : Nat := ninodes / 8 + 1

abbrev nbitmap : Nat := fssize / (bsize * 8) + 1

abbrev nmeta : Nat := 2 + nlog + ninodeblocks + nbitmap

abbrev bmapstart : Nat := 2 + nlog + ninodeblocks

def superblock : SuperBlock where
  size := fssize
  ninodes := ninodes
  bmapstart := bmapstart
  nmeta := nmeta
  bitmap_before b below := by
    simp only [Fs.bpb, bitCount, fssize, bmapstart, nmeta, nbitmap, bsize] at below ⊢
    omega
  nmeta_le := by decide
  positive := by decide
  addressable := by decide

abbrev rootino : Nat := 1

abbrev dirsiz : Nat := 14

/-- The image on the disk, with `freeinode` and `freeblock`. -/
structure Image where
  block : Nat → Data
  dinode : Nat → Inode
  freeinode : Nat
  freeblock : Nat

def Image.blank : Image where
  block _ _ := 0
  dinode _ := .zero
  freeinode := 1
  freeblock := nmeta

def Image.wsect (image : Image) (sec : Nat) (data : Data) : Image :=
  { image with block := Function.update image.block sec data }

def Image.winode (image : Image) (inum : Nat) (din : Inode) : Image :=
  { image with dinode := Function.update image.dinode inum din }

def Image.takeBlock (image : Image) : Image :=
  { image with freeblock := image.freeblock + 1 }

def ialloc (type : FileType) (image : Image) : Nat × Image :=
  (image.freeinode,
    { image with freeinode := image.freeinode + 1 }.winode image.freeinode
      { Inode.zero with type := type, nlink := 1 })

/-- The buffer that `balloc` writes: the bits of the first blocks. -/
def bitmap (used : Nat) : Data :=
  (List.range used).foldl setBit fun _ => 0

def balloc (image : Image) : Option Image :=
  if image.freeblock < bsize * 8 then
    some (image.wsect bmapstart (bitmap image.freeblock))
  else none

/-- `iappend` gives a block to an index of `addrs` that has none. -/
def appendAddr (din : Inode) (index : Nat) (image : Image) : Inode × Image :=
  if din.addrs index = 0 then (din.setAddr index image.freeblock, image.takeBlock)
  else (din, image)

/-- The entry of the indirect block, given a block if it has none. -/
def appendEntry (indirect index : Nat) (image : Image) : Image :=
  if word (image.block indirect) index = 0 then
    image.takeBlock.wsect indirect
      (setWord (image.block indirect) index (BitVec.ofNat 32 image.freeblock))
  else image

/-- The block `fbn` of the file in `iappend`. -/
def appendBlock (din : Inode) (fbn : Nat) (image : Image) : Nat × Inode × Image :=
  if fbn < ndirect then
    let result := appendAddr din fbn image
    (result.1.addrs fbn, result)
  else
    let result := appendAddr din ndirect image
    let indirect := result.1.addrs ndirect
    let after := appendEntry indirect (fbn - ndirect) result.2
    ((word (after.block indirect) (fbn - ndirect)).toNat, result.1, after)

def appendLoop : Nat → Inode → Nat → List UInt8 → Image → Option (Nat × Inode × Image)
  | 0, din, off, _, image => some (off, din, image)
  | fuel + 1, din, off, src, image =>
    if src.length = 0 then some (off, din, image)
    else
      let fbn := off / bsize
      if fbn < maxfile then
        let (x, din, image) := appendBlock din fbn image
        let n1 := min src.length ((fbn + 1) * bsize - off)
        let data := setBytes (image.block x) (off - fbn * bsize) (src.take n1)
        appendLoop fuel din (off + n1) (src.drop n1) (image.wsect x data)
      else none

def iappend (inum : Nat) (src : List UInt8) (image : Image) : Option Image := do
  let din := image.dinode inum
  let (off, din, image) ← appendLoop src.length din din.size src image
  some (image.winode inum { din with size := off })

def dirent (inum : Nat) (name : List UInt8) : List UInt8 :=
  UInt8.ofNat inum :: UInt8.ofNat (inum / 256) :: CString.strncpyBytes name dirsiz

/-- A file on the command line, with what `read` returns for it until the end. -/
structure File where
  argument : List UInt8
  reads : List (List UInt8)

/-- The name of the file in the image: a leading `_` is skipped. -/
def File.name (file : File) : List UInt8 :=
  if file.argument.head? = some 95 then file.argument.tail else file.argument

def File.bytes (file : File) : List UInt8 :=
  file.reads.flatten

/-- The body of the loop of `main` over the files. -/
def addFile (image : Image) (file : File) : Option Image :=
  if 47 ∈ file.argument then none
  else do
    let (inum, image) := ialloc .file image
    let image ← iappend rootino (dirent inum file.name) image
    file.reads.foldlM (fun image piece => iappend inum piece image) image

def fixRoot (image : Image) : Image :=
  let din := image.dinode rootino
  image.winode rootino { din with size := (din.size / bsize + 1) * bsize }

/-- `main` up to the loop over the files. -/
def makeRoot : Option Image := do
  let (inum, image) := ialloc .dir .blank
  let image ← iappend inum (dirent inum [46]) image
  iappend inum (dirent inum [46, 46]) image

def mkfs (files : List File) : Option Image := do
  let image ← makeRoot
  let image ← files.foldlM addFile image
  balloc (fixRoot image)

end Mkfs

end Xv6
