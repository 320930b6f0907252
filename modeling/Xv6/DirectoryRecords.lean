import Xv6.DirectoryLookup
import Xv6.InodeReferences
import Xv6.OpenFiles

/-!
# Directories as files of records

`dirlink` and the part of `sys_unlink` that erases an entry, over `readi` and `writei`:
a directory is a file of records of 16 bytes, and an erased record is used again by the
next name.  What the file holds is a list of entries, and the functions do to it what
they do to a finite map from names to inode numbers.
-/

namespace Xv6

namespace Fs

open CString DiskBlock LabelledRun
open Dirs (Dirent Name scan writeEntry)

/-- The loop of `dirlink`: the offset of the first unused record, or the end. -/
def freeRecordLoop (sb : SuperBlock) (devsw : Nat → Device) :
    Nat → Nat → Inode → State → Option (Nat × Inode × State)
  | 0, off, ip, state => some (off, ip, state)
  | fuel + 1, off, ip, state =>
    if off < ip.size then do
      let (n, de, ip, state) ← (readi sb devsw ip off direntSize state).toOption
      if n ≠ direntSize then none
      else if direntInum de = 0 then some (off, ip, state)
      else freeRecordLoop sb devsw fuel (off + direntSize) ip state
    else some (off, ip, state)

/-- `writei` of a record, which panics when it is cut short. -/
def writeRecord (sb : SuperBlock) (devsw : Nat → Device) (dp off : Nat) (de : List UInt8)
    (ip : Inode) (state : State) : Option (Inode × State) := do
  let (n, ip, state) ← (writei sb devsw dp ip off de state).toOption
  if n ≠ direntSize then none else some (ip, state)

/-- `dirlink` on a directory that the caller has locked: what it returns, or `none` if it
never returns.  The reference that `dirlookup` takes is given back by `iput`, which acquires
the lock of the inode and so sleeps forever if that is the directory. -/
def dirlink (sb : SuperBlock) (devsw : Nat → Device) (dp : Nat) (name : List UInt8) (inum : Nat)
    (ip : Inode) (state : State) : Option (Option Int × Inode × State) := do
  let (found, ip, state) ← dirlookup sb devsw name ip state
  match found with
  | some (other, _) => do
    let state ← (iget sb other state).toOption
    if other = dp then some (none, ip, state)
    else do
      let state ← (iput sb other state).toOption
      some (some (-1), ip, state)
  | none => do
    let (off, ip, state) ← freeRecordLoop sb devsw ip.size 0 ip state
    let (ip, state) ← writeRecord sb devsw dp off (Record.bytes ⟨inum, name⟩) ip state
    some (some 0, ip, state)

/-- The part of `sys_unlink` that erases the entry. -/
def eraseEntry (sb : SuperBlock) (devsw : Nat → Device) (dp : Nat) (name : List UInt8)
    (ip : Inode) (state : State) : Option (Option Int × Inode × State) := do
  let (found, ip, state) ← dirlookup sb devsw name ip state
  match found with
  | some (_, off) => do
    let (ip, state) ← writeRecord sb devsw dp off (List.replicate direntSize 0) ip state
    some (some 0, ip, state)
  | none => some (some (-1), ip, state)

inductive DirOp
  | link (name : List UInt8) (inum : Nat)
  | unlink (name : List UInt8)

def DirOp.apply (sb : SuperBlock) (devsw : Nat → Device) (dp : Nat) (ip : Inode) (state : State) :
    DirOp → Option (Option Int × Inode × State)
  | .link name inum => dirlink sb devsw dp name inum ip state
  | .unlink name => eraseEntry sb devsw dp name ip state

/-- Lock the directory and perform an operation: its result and the state. -/
def DirOp.perform (sb : SuperBlock) (devsw : Nat → Device) (dp : Nat) (state : State)
    (op : DirOp) : Option (Option Int × State) := do
  let (ip, state) ← (ilock dp state).toOption
  let (result, ip, state) ← op.apply sb devsw dp ip state
  some (result, state.setCopy dp ip)

/-- An operation that returns. -/
def DirOp.step (sb : SuperBlock) (devsw : Nat → Device) (dp : Nat) (state : State) (op : DirOp) :
    Option State :=
  (op.perform sb devsw dp state).bind fun done => done.1.map fun _ => done.2

abbrev DirRun (sb : SuperBlock) (devsw : Nat → Device) (dp : Nat) (image : State)
    (trace : List (State × DirOp)) (finish : State) : Prop :=
  Run (DirOp.step sb devsw dp) image trace finish

/-! ## The entries in the bytes of a directory -/

/-- The string that a directory stores for a name. -/
def cut (name : List UInt8) : Name :=
  (ofBytes name).take dirsiz

def dirent (de : List UInt8) : Dirent :=
  ⟨direntInum de, ofBytes (direntName de)⟩

def recordAt (bytes : List UInt8) (index : Nat) : List UInt8 :=
  (bytes.drop (direntSize * index)).take direntSize

def dirents (bytes : List UInt8) : List Dirent :=
  (List.range (bytes.length / direntSize)).map fun index => dirent (recordAt bytes index)

section Entries

variable {bytes de : List UInt8} {index : Nat}

theorem length_dirents (bytes : List UInt8) :
    (dirents bytes).length = bytes.length / direntSize := by
  rw [dirents, List.length_map, List.length_range]

theorem getElem?_dirents (inside : index < bytes.length / direntSize) :
    (dirents bytes)[index]? = some (dirent (recordAt bytes index)) := by
  rw [dirents, List.getElem?_map, List.getElem?_range inside]
  rfl

theorem length_recordAt (inside : index < bytes.length / direntSize) :
    (recordAt bytes index).length = direntSize := by
  grind [recordAt, List.length_take, List.length_drop]

theorem getElem?_recordAt (bytes : List UInt8) (index k : Nat) :
    (recordAt bytes index)[k]? =
      if k < direntSize then bytes[direntSize * index + k]? else none := by
  rw [recordAt]
  split
  · grind
  · exact List.getElem?_eq_none (by rw [List.length_take]; omega)

theorem recordAt_splice (isRecord : de.length = direntSize)
    (inside : index ≤ bytes.length / direntSize) (other : Nat) :
    recordAt (splice bytes (direntSize * index) de) other =
      if other = index then de else recordAt bytes other := by
  have start : direntSize * index ≤ bytes.length := by
    grind
  apply List.ext_getElem?
  intro k
  rw [getElem?_recordAt, getElem?_splice start]
  by_cases small : k < direntSize
  · grind [Nat.add_sub_cancel_left, getElem?_recordAt]
  · grind [getElem?_recordAt, List.getElem?_eq_none]

theorem getElem?_writeEntry {entries : List Dirent} (within : index ≤ entries.length)
    (entry : Dirent) (other : Nat) : (writeEntry entries index entry)[other]? =
      if other = index then some entry else entries[other]? := by
  unfold writeEntry
  by_cases replaces : index < entries.length
  · grind
  · grind

theorem dirents_splice (isRecord : de.length = direntSize)
    (inside : index ≤ bytes.length / direntSize) :
    dirents (splice bytes (direntSize * index) de) =
      writeEntry (dirents bytes) index (dirent de) := by
  have start : direntSize * index ≤ bytes.length := by
    grind
  have count : (splice bytes (direntSize * index) de).length / direntSize =
      max (bytes.length / direntSize) (index + 1) := by
    rw [length_splice start, isRecord]
    change max bytes.length (16 * index + 16) / 16 = max (bytes.length / 16) (index + 1)
    omega
  apply List.ext_getElem?
  intro other
  rw [getElem?_writeEntry (by rwa [length_dirents])]
  by_cases below : other < max (bytes.length / direntSize) (index + 1)
  · grind [getElem?_dirents, recordAt_splice]
  · rw [List.getElem?_eq_none (by rw [length_dirents, count]; omega), if_neg (by omega),
      List.getElem?_eq_none (by rw [length_dirents]; omega)]

theorem dirent_bytes (inum : Nat) (name : List UInt8) :
    dirent (Record.bytes ⟨inum, name⟩) = ⟨inum % 2 ^ 16, cut name⟩ := by
  rw [dirent, direntName_bytes, ofBytes_strncpyBytes]
  congr 1
  simp only [direntInum, Record.bytes, List.getD_cons_zero, List.getD_cons_succ,
    UInt8.toNat_ofNat']
  omega

theorem dirent_zeros : dirent (List.replicate direntSize 0) = ⟨0, []⟩ :=
  rfl

end Entries

/-! ## What the functions do to the entries -/

/-- A directory whose size is that of whole records. -/
structure IsDirectory (sb : SuperBlock) (dp : Nat) (state : State) : Prop where
  wellFormed : WellFormed sb state
  isDir : (state.dinode dp).type = .dir
  whole : direntSize ∣ (state.dinode dp).size

def State.dirents (state : State) (dp : Nat) : List Dirent :=
  Fs.dirents (contents state dp)

section Functions

variable {sb : SuperBlock} {devsw : Nat → Device} {dp index : Nat} {state next : State}
  {ip : Inode} {name de : List UInt8}

theorem IsDirectory.live (directory : IsDirectory sb dp state) :
    (state.dinode dp).type ≠ .free := by
  rw [directory.isDir]
  decide

theorem IsDirectory.notDevice (directory : IsDirectory sb dp state) :
    (state.dinode dp).type ≠ .dev := by
  rw [directory.isDir]
  decide

theorem IsDirectory.small (directory : IsDirectory sb dp state) :
    (state.dinode dp).size ≤ 71680 :=
  directory.wellFormed.small dp directory.live

theorem IsDirectory.length (directory : IsDirectory sb dp state) :
    (state.dirents dp).length = (state.dinode dp).size / direntSize := by
  rw [State.dirents, length_dirents, length_contents directory.live]

theorem IsDirectory.size_eq (directory : IsDirectory sb dp state) :
    (state.dinode dp).size = 16 * (state.dirents dp).length := by
  rw [directory.length]
  exact (Nat.mul_div_cancel' directory.whole).symm

theorem IsDirectory.readi (directory : IsDirectory sb dp state)
    (inside : index < (state.dirents dp).length) :
    Fs.readi sb devsw (state.dinode dp) (direntSize * index) direntSize state =
      .ok (direntSize, recordAt (contents state dp) index, state.dinode dp, state) := by
  have size := directory.size_eq
  have small := directory.small
  have fits : min direntSize ((state.dinode dp).size - direntSize * index) = direntSize := by
    grind
  have within : direntSize * index + direntSize ≤ (state.dinode dp).size := by
    change 16 * index + 16 ≤ _
    omega
  rw [readi_eq directory.wellFormed directory.live directory.notDevice (by omega) (by omega), fits,
    fileBytes_eq directory.live within]
  rfl

theorem drop_dirents (inside : index < (state.dirents dp).length) :
    (state.dirents dp).drop index =
      dirent (recordAt (contents state dp) index) :: (state.dirents dp).drop (index + 1) := by
  have isEntry : (state.dirents dp)[index]? = some (dirent (recordAt (contents state dp) index)) :=
    getElem?_dirents (by rwa [← length_dirents])
  rw [List.drop_eq_getElem_cons inside]
  rw [List.getElem?_eq_getElem inside] at isEntry
  rw [Option.some.inj isEntry]

theorem namecmp_record (isRecord : de.length = direntSize) :
    strncmp name (direntName de) dirsiz = 0 ↔ cut name = (dirent de).name := by
  have short : (ofBytes (direntName de)).length ≤ dirsiz := by
    refine (length_ofBytes_le _).trans ?_
    rw [direntName, List.length_drop, isRecord]
    exact le_rfl
  rw [strncmp_eq_zero_iff, List.take_of_length_le short]
  rfl

/-- An entry that was found, with its offset in bytes. -/
def inBytes (found : Nat × Nat) : Nat × Nat :=
  (found.1, direntSize * found.2)

theorem IsDirectory.dirlookupLoop_eq (directory : IsDirectory sb dp state) {fuel : Nat}
    (enough : (state.dirents dp).length ≤ index + fuel) :
    dirlookupLoop sb devsw name fuel (direntSize * index) (state.dinode dp) state =
      some ((scan (cut name) index ((state.dirents dp).drop index)).map inBytes,
        state.dinode dp, state) := by
  have size := directory.size_eq
  induction fuel generalizing index with
  | zero =>
    rw [List.drop_eq_nil_of_le (by omega)]
    rfl
  | succ fuel continues =>
    rw [dirlookupLoop]
    by_cases inside : index < (state.dirents dp).length
    · have compares := @namecmp_record name _ (length_recordAt (by rwa [← length_dirents]))
      have later := @continues (index + 1) (by omega)
      rw [if_pos (by change 16 * index < _; omega), directory.readi inside,
        drop_dirents inside, scan]
      simp only [Except.toOption, Option.bind_eq_bind, Option.bind_some, ne_eq, not_true,
        if_false]
      rw [← Nat.mul_succ, later]
      by_cases unused : direntInum (recordAt (contents state dp) index) = 0
      · rw [if_pos unused, if_pos (show (dirent _).inum = 0 from unused)]
      · rw [if_neg unused, if_neg (show ¬ (dirent _).inum = 0 from unused)]
        by_cases same : cut name = (dirent (recordAt (contents state dp) index)).name
        · rw [if_pos same, if_pos (compares.mpr same)]
          rfl
        · rw [if_neg same, if_neg (mt compares.mp same)]
    · rw [if_neg (by change ¬ 16 * index < _; omega), List.drop_eq_nil_of_le (by omega)]
      rfl

/-- `dirlookup` finds the first entry with the name, and only reads. -/
theorem IsDirectory.dirlookup_eq (directory : IsDirectory sb dp state) :
    dirlookup sb devsw name (state.dinode dp) state =
      some ((scan (cut name) 0 (state.dirents dp)).map inBytes, state.dinode dp, state) := by
  have size := directory.size_eq
  rw [dirlookup, if_neg (not_not.mpr directory.isDir)]
  exact @IsDirectory.dirlookupLoop_eq sb devsw dp 0 state name directory (state.dinode dp).size
    (by omega)

/-- The loop of `dirlink` finds the first unused entry, or the end. -/
theorem IsDirectory.freeRecordLoop_eq (directory : IsDirectory sb dp state) {fuel : Nat}
    (enough : (state.dirents dp).length ≤ index + fuel)
    (within : index ≤ (state.dirents dp).length) :
    freeRecordLoop sb devsw fuel (direntSize * index) (state.dinode dp) state =
      some (direntSize * (index + ((state.dirents dp).drop index).findIdx fun de => de.inum = 0),
        state.dinode dp, state) := by
  have size := directory.size_eq
  induction fuel generalizing index with
  | zero =>
    rw [List.drop_eq_nil_of_le (by omega)]
    rfl
  | succ fuel continues =>
    rw [freeRecordLoop]
    by_cases inside : index < (state.dirents dp).length
    · have later := @continues (index + 1) (by omega) (by omega)
      rw [if_pos (by change 16 * index < _; omega), directory.readi inside,
        drop_dirents inside, List.findIdx_cons]
      simp only [Except.toOption, Option.bind_eq_bind, Option.bind_some, ne_eq, not_true,
        if_false]
      rw [← Nat.mul_succ, later]
      by_cases unused : direntInum (recordAt (contents state dp) index) = 0
      · rw [if_pos unused, decide_eq_true (show (dirent _).inum = 0 from unused)]
        rfl
      · rw [if_neg unused, decide_eq_false (show ¬ (dirent _).inum = 0 from unused), cond_false,
          Nat.add_assoc, Nat.add_comm 1]
    · grind

theorem IsDirectory.writeRecord_stores (directory : IsDirectory sb dp state)
    (locked : Locked state dp) (isRecord : de.length = direntSize)
    (within : index ≤ (state.dirents dp).length)
    (wrote : writeRecord sb devsw dp (direntSize * index) de (state.dinode dp) state =
      some (ip, next)) :
    index < Dirs.maxEntries ∧
      Stored sb dp (direntSize * index) de state (next.setCopy dp ip) ∧
      next.icache = state.icache := by
  have size := directory.size_eq
  have small := directory.small
  have start : direntSize * index ≤ (state.dinode dp).size := by
    change 16 * index ≤ _
    omega
  have total : (direntSize * index + de.length) % 2 ^ 32 = direntSize * index + de.length := by
    grind
  unfold writeRecord at wrote
  cases isWritten : writei sb devsw dp (state.dinode dp) (direntSize * index) de state with
  | error panic =>
    rw [isWritten] at wrote
    cases wrote
  | ok result =>
    obtain ⟨n, after, last⟩ := result
    rw [isWritten] at wrote
    change (if n ≠ direntSize then none else some (after, last)) = some (ip, next) at wrote
    split at wrote
    · cases wrote
    · rename_i isWhole
      cases wrote
      have inRange : ¬ maxfile * bsize < (direntSize * index + de.length) % 2 ^ 32 := by
        intro full
        rw [writei, if_neg directory.notDevice, if_neg (by omega), if_pos full] at isWritten
        have isMinus := (Prod.mk.inj (Except.ok.inj isWritten)).1
        rw [← isMinus] at isWhole
        exact isWhole (by decide)
      obtain ⟨middleNode, middle, stores, -, rfl, rfl, limit⟩ := writei_stores
        directory.wellFormed directory.live directory.notDevice start (by omega) inRange isWritten
      refine ⟨?_, stored_of_wrote directory.wellFormed locked directory.live start limit stores,
        stores.icache⟩
      rw [total, isRecord] at inRange
      change ¬ 71680 < 16 * index + 16 at inRange
      change index < 4480
      omega

def Referenced (state : State) : Prop :=
  ∀ inum entry, state.icache inum = some entry → 0 < entry.ref

theorem setEntry_setEntry (state : State) (inum : Nat) (first second : Option Entry) :
    (state.setEntry inum first).setEntry inum second = state.setEntry inum second := by
  simp only [State.setEntry, Function.update_idem]

theorem setEntry_self {inum : Nat} {entry : Option Entry} (isEntry : state.icache inum = entry) :
    state.setEntry inum entry = state := by
  rw [State.setEntry, ← isEntry, Function.update_eq_self]

theorem iput_of_iget {inum : Nat} {middle : State} (referenced : Referenced state)
    (isGot : iget sb inum state = .ok middle) (isPut : iput sb inum middle = .ok next) :
    next = state := by
  have held : ∀ entry, (state.setEntry inum (some entry)).icache inum = some entry := fun entry =>
    show Function.update state.icache inum (some entry) inum = _ from Function.update_self ..
  unfold iget at isGot
  split at isGot
  · rename_i entry isEntry
    cases isGot
    have positive := referenced inum entry isEntry
    unfold iput at isPut
    rw [held] at isPut
    dsimp only at isPut
    rw [if_neg (by omega)] at isPut
    cases isPut
    rw [State.dropRef, if_neg (by dsimp only; omega), setEntry_setEntry]
    exact setEntry_self isEntry
  · grind [State.dropRef, setEntry_setEntry, iput, setEntry_self]

def freeIndex (entries : List Dirent) : Nat :=
  entries.findIdx fun de => de.inum = 0

/-- A name that is not there is written at the first unused entry or the end. -/
theorem IsDirectory.dirlink_of_missing (directory : IsDirectory sb dp state) {inum : Nat}
    (missing : scan (cut name) 0 (state.dirents dp) = none) :
    dirlink sb devsw dp name inum (state.dinode dp) state =
      (writeRecord sb devsw dp (direntSize * freeIndex (state.dirents dp))
        (Record.bytes ⟨inum, name⟩) (state.dinode dp) state).bind
          fun after => some (some 0, after.1, after.2) := by
  have loop := @IsDirectory.freeRecordLoop_eq sb devsw dp 0 state directory
    (state.dinode dp).size (by have := directory.size_eq; omega) (Nat.zero_le _)
  rw [Nat.mul_zero, Nat.zero_add, List.drop_zero] at loop
  unfold dirlink
  rw [directory.dirlookup_eq, missing]
  change ((freeRecordLoop sb devsw (state.dinode dp).size 0 (state.dinode dp) state).bind
    fun free => (writeRecord sb devsw dp free.1 (Record.bytes ⟨inum, name⟩) free.2.1
      free.2.2).bind fun after => some (some 0, after.1, after.2)) = _
  rw [loop]
  rfl

/-- What `dirlink` does: nothing when the name is there, if it returns at all, and otherwise
it writes a record at the first unused entry or the end. -/
theorem IsDirectory.dirlink_cases (directory : IsDirectory sb dp state)
    (referenced : Referenced state) (locked : Locked state dp) {inum : Nat}
    {result : Option Int}
    (isResult : dirlink sb devsw dp name inum (state.dinode dp) state = some (result, ip, next)) :
    (∃ found, scan (cut name) 0 (state.dirents dp) = some found ∧ (result = none ↔ found.1 = dp) ∧
        (found.1 ≠ dp → result = some (-1) ∧ ip = state.dinode dp ∧ next = state)) ∨
      (scan (cut name) 0 (state.dirents dp) = none ∧ result = some 0 ∧
        freeIndex (state.dirents dp) < Dirs.maxEntries ∧
        Stored sb dp (direntSize * freeIndex (state.dirents dp)) (Record.bytes ⟨inum, name⟩) state
          (next.setCopy dp ip) ∧ next.icache = state.icache) := by
  cases isScan : scan (cut name) 0 (state.dirents dp) with
  | some found =>
    left
    unfold dirlink at isResult
    rw [directory.dirlookup_eq, isScan] at isResult
    change ((iget sb found.1 state).toOption.bind fun middle =>
      if found.1 = dp then some (none, state.dinode dp, middle)
      else (iput sb found.1 middle).toOption.bind fun last =>
        some (some (-1), state.dinode dp, last)) = some (result, ip, next) at isResult
    obtain ⟨middle, isGot, isResult⟩ := Option.bind_eq_some_iff.mp isResult
    split at isResult
    · rename_i itself
      cases isResult
      exact ⟨found, rfl, iff_of_true rfl itself, fun other => absurd itself other⟩
    · rename_i other
      obtain ⟨last, isPut, isResult⟩ := Option.bind_eq_some_iff.mp isResult
      cases isResult
      exact ⟨found, rfl, iff_of_false (Option.some_ne_none _) other, fun _ => ⟨rfl, rfl,
        iput_of_iget referenced (Fallible.ok_of_toOption isGot) (Fallible.ok_of_toOption isPut)⟩⟩
  | none =>
    right
    rw [directory.dirlink_of_missing isScan] at isResult
    obtain ⟨after, wrote, isResult⟩ := Option.bind_eq_some_iff.mp isResult
    obtain ⟨rfl, isRest⟩ := Prod.mk.inj (Option.some.inj isResult)
    cases isRest
    exact ⟨rfl, rfl, directory.writeRecord_stores locked Record.bytes_length
      List.findIdx_le_length wrote⟩

/-- What the erasure does: nothing when there is no entry with the name, and otherwise
it writes zeros over the entry. -/
theorem IsDirectory.eraseEntry_cases (directory : IsDirectory sb dp state)
    (locked : Locked state dp) {result : Option Int}
    (isResult : eraseEntry sb devsw dp name (state.dinode dp) state = some (result, ip, next)) :
    (scan (cut name) 0 (state.dirents dp) = none ∧ result = some (-1) ∧
        ip = state.dinode dp ∧ next = state) ∨
      ∃ inum off, scan (cut name) 0 (state.dirents dp) = some (inum, off) ∧ result = some 0 ∧
        Stored sb dp (direntSize * off) (List.replicate direntSize 0) state
          (next.setCopy dp ip) ∧ next.icache = state.icache := by
  unfold eraseEntry at isResult
  rw [directory.dirlookup_eq] at isResult
  cases isScan : scan (cut name) 0 (state.dirents dp) with
  | none =>
    grind
  | some found =>
    right
    rw [isScan] at isResult
    change ((writeRecord sb devsw dp (direntSize * found.2) (List.replicate direntSize 0)
      (state.dinode dp) state).bind fun after => some (some 0, after.1, after.2)) =
        some (result, ip, next) at isResult
    obtain ⟨after, wrote, isResult⟩ := Option.bind_eq_some_iff.mp isResult
    obtain ⟨rfl, isRest⟩ := Prod.mk.inj (Option.some.inj isResult)
    cases isRest
    obtain ⟨-, -, isEntry⟩ := Dirs.scan_eq_some isScan
    have inside := (List.getElem?_eq_some_iff.mp isEntry).1
    exact ⟨found.1, found.2, rfl, rfl, (directory.writeRecord_stores locked
      List.length_replicate inside.le wrote).2⟩

end Functions

end Fs

end Xv6
