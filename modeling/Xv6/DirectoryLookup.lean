import Xv6.CStrings
import Xv6.InodeContents

/-!
# Looking up a name in a directory

`dirlookup` reads a directory as a sequence of records of 16 bytes, an inode
number and a name padded with NUL, and returns the first one in use whose name
agrees.  Where the blocks of the records have addresses it only reads.  A panic
gives no result; the reference that `dirlookup` takes on the inode is not
represented.
-/

namespace Xv6

namespace Fs

open CString DiskBlock

abbrev dirsiz : Nat := 14

abbrev direntSize : Nat := 16

/-- The field `inum` of the bytes of a `struct dirent`. -/
def direntInum (de : List UInt8) : Nat :=
  (de.getD 0 0).toNat + 256 * (de.getD 1 0).toNat

def direntName (de : List UInt8) : List UInt8 :=
  de.drop 2

/-- The loop of `dirlookup`: the inode number and the offset of the record. -/
def dirlookupLoop (sb : SuperBlock) (devsw : Nat → Device) (name : List UInt8) :
    Nat → Nat → Inode → State → Option (Option (Nat × Nat) × Inode × State)
  | 0, _, ip, state => some (none, ip, state)
  | fuel + 1, off, ip, state =>
    if off < ip.size then do
      let (n, de, ip, state) ← (readi sb devsw ip off direntSize state).toOption
      if n ≠ direntSize then none
      else if direntInum de = 0 then
        dirlookupLoop sb devsw name fuel (off + direntSize) ip state
      else if strncmp name (direntName de) dirsiz = 0 then
        some (some (direntInum de, off), ip, state)
      else dirlookupLoop sb devsw name fuel (off + direntSize) ip state
    else some (none, ip, state)

def dirlookup (sb : SuperBlock) (devsw : Nat → Device) (name : List UInt8) (ip : Inode)
    (state : State) : Option (Option (Nat × Nat) × Inode × State) :=
  if ip.type ≠ .dir then none
  else dirlookupLoop sb devsw name ip.size 0 ip state

structure Record where
  inum : Nat
  name : List UInt8

def Record.bytes (record : Record) : List UInt8 :=
  UInt8.ofNat record.inum :: UInt8.ofNat (record.inum / 256) :: strncpyBytes record.name dirsiz

/-- The record is in use, and its name fits. -/
structure Record.Fits (record : Record) : Prop where
  positive : 0 < record.inum
  small : record.inum < 2 ^ 16
  length_le : record.name.length ≤ dirsiz
  free : 0 ∉ record.name

section Records

variable {record : Record}

theorem Record.bytes_length : record.bytes.length = direntSize := by
  simp [Record.bytes]

theorem direntInum_bytes (small : record.inum < 2 ^ 16) :
    direntInum record.bytes = record.inum := by
  simp only [direntInum, Record.bytes, List.getD_cons_zero, List.getD_cons_succ,
    UInt8.toNat_ofNat']
  omega

/-- Records have the same length, so each is found by its index. -/
theorem getElem?_flatMap_bytes {records : List Record} {index k : Nat}
    (here : records[index]? = some record) (inside : k < direntSize) :
    (records.flatMap Record.bytes)[direntSize * index + k]? = some (record.bytes.getD k 0) := by
  induction records generalizing index with
  | nil => simp at here
  | cons first records ih =>
    have length : first.bytes.length = 16 := Record.bytes_length
    rw [List.flatMap_cons]
    cases index with
    | zero =>
      grind
    | succ index =>
      grind

theorem direntName_bytes : direntName record.bytes = strncpyBytes record.name dirsiz :=
  rfl

end Records

theorem strncmp_strncpyBytes {name other : List UInt8} {count : Nat} (free : 0 ∉ name)
    (otherFree : 0 ∉ other) (length_le : name.length ≤ count)
    (otherLength_le : other.length ≤ count) :
    strncmp name (strncpyBytes other count) count = 0 ↔ name = other := by
  rw [strncmp_eq_zero_iff, ofBytes_strncpyBytes, ofBytes_eq_self free, ofBytes_eq_self otherFree,
    List.take_take, Nat.min_self, List.take_of_length_le length_le,
    List.take_of_length_le otherLength_le]

/-- The records are the first contents of a directory, and their blocks have
addresses. -/
structure Lists (records : List Record) (inum : Nat) (ip : Inode) (state : State) : Prop where
  fits : ∀ record ∈ records, record.Fits
  isDir : ip.type = .dir
  size : direntSize * records.length ≤ ip.size
  addressable : ip.size < 2 ^ 32
  covered : ∀ k < direntSize * records.length,
    state.refs inum ip (inum, blockSlot (k / bsize)) ≠ 0
  bytes : ∀ index record, records[index]? = some record → ∀ k < direntSize,
    byteAt state.block (state.refs inum ip) inum (direntSize * index + k) =
      record.bytes.getD k 0

section Lookup

variable {sb : SuperBlock} {devsw : Nat → Device} {records : List Record} {inum : Nat} {ip : Inode}
  {state : State}

theorem Lists.readi (lists : Lists records inum ip state) {index : Nat} {record : Record}
    (here : records[index]? = some record) :
    Fs.readi sb devsw ip (direntSize * index) direntSize state =
      .ok (direntSize, record.bytes, ip, state) := by
  have live : ip.type ≠ .free := by simp [lists.isDir]
  have notDev : ip.type ≠ .dev := by simp [lists.isDir]
  have size := lists.size
  have addressable := lists.addressable
  have inside := (List.getElem?_eq_some_iff.mp here).1
  have next : direntSize * index + direntSize ≤ direntSize * records.length := by
    grind
  have total : (direntSize * index + direntSize) % 2 ^ 32 = direntSize * index + direntSize :=
    Nat.mod_eq_of_lt (by omega)
  have loop := @readiLoop_eq sb inum (direntSize * index) ip state direntSize direntSize live le_rfl
    (fun k below => lists.covered _ (by omega))
  have copied : (List.range direntSize).map (fun k => byteAt state.block (state.refs inum ip) inum
      (direntSize * index + k)) = record.bytes := by
    apply List.ext_getElem
    · simp [Record.bytes_length]
    · intro k below _
      have small : k < direntSize := by simpa using below
      rw [List.getElem_map, List.getElem_range, lists.bytes index record here k small]
      exact List.getD_eq_getElem _ _ _
  rw [Fs.readi, if_neg notDev, total, if_neg (by omega), if_neg (by omega)]
  dsimp only
  rw [loop, copied]
  rfl

theorem Lists.dirlookupLoop_eq (lists : Lists records inum ip state) {name : List UInt8}
    (free : 0 ∉ name) (length_le : name.length ≤ dirsiz) {found : Nat} {record : Record}
    (here : records[found]? = some record) (same : record.name = name)
    (first : ∀ index < found, ∀ other, records[index]? = some other → other.name ≠ name)
    {fuel index : Nat} (enough : found < index + fuel) (behind : index ≤ found) :
    dirlookupLoop sb devsw name fuel (direntSize * index) ip state =
      some (some (record.inum, direntSize * found), ip, state) := by
  induction fuel generalizing index with
  | zero => omega
  | succ fuel ih =>
    have inside := (List.getElem?_eq_some_iff.mp here).1
    obtain ⟨other, isOther⟩ : ∃ other, records[index]? = some other :=
      ⟨_, List.getElem?_eq_getElem (by omega)⟩
    have fits := lists.fits other (List.mem_of_getElem? isOther)
    have inum := direntInum_bytes fits.small
    have within : direntSize * index < ip.size := by
      have := lists.size
      change 16 * records.length ≤ _ at this
      change 16 * index < _
      omega
    have compared := strncmp_strncpyBytes free fits.free length_le fits.length_le
    have unfolds : dirlookupLoop sb devsw name (fuel + 1) (direntSize * index) ip state =
        if strncmp name (strncpyBytes other.name dirsiz) dirsiz = 0 then
          some (some (other.inum, direntSize * index), ip, state)
        else dirlookupLoop sb devsw name fuel (direntSize * index + direntSize) ip state := by
      rw [dirlookupLoop, if_pos within, lists.readi isOther]
      simp only [Except.toOption, Option.bind_eq_bind, Option.bind_some, ne_eq, not_true,
        if_false, inum, fits.positive.ne', direntName_bytes]
    rw [unfolds]
    by_cases arrived : index = found
    · grind
    · grind

theorem Lists.dirlookup_eq (lists : Lists records inum ip state) {name : List UInt8}
    (free : 0 ∉ name) (length_le : name.length ≤ dirsiz) {found : Nat} {record : Record}
    (here : records[found]? = some record) (same : record.name = name)
    (first : ∀ index < found, ∀ other, records[index]? = some other → other.name ≠ name) :
    dirlookup sb devsw name ip state =
      some (some (record.inum, direntSize * found), ip, state) := by
  have inside := (List.getElem?_eq_some_iff.mp here).1
  have size := lists.size
  rw [dirlookup, if_neg (by simp [lists.isDir])]
  have loop := @Lists.dirlookupLoop_eq sb devsw _ _ _ _ lists _ free length_le _ _ here same first
    ip.size 0 (by change 16 * records.length ≤ _ at size; omega) (Nat.zero_le _)
  rwa [Nat.mul_zero] at loop

end Lookup

end Fs

end Xv6
