import Xv6.DirectoryRecords

/-!
# Directories as finite maps

Over any sequence of `dirlink` and erasures on a directory that starts empty, the names
in use are distinct and `dirlookup` finds the inode number that was linked last.  A
`dirlink` of a name whose entry names the directory itself, like ".", never returns.
-/

namespace Xv6

namespace Fs

open CString DiskBlock LabelledRun
open Function (update update_of_ne update_self)
open Dirs (Dirent Name scan writeEntry)

/-! ## Lists of entries -/

def Distinct (entries : List Dirent) : Prop :=
  ∀ (i j : Nat) (first second : Dirent), entries[i]? = some first → entries[j]? = some second →
    first.inum ≠ 0 → second.inum ≠ 0 → first.name = second.name → i = j

def Present (entries : List Dirent) (name : Name) : Prop :=
  ∃ de ∈ entries, de.inum ≠ 0 ∧ de.name = name

section Lists

variable {entries : List Dirent} {index : Nat} {de : Dirent} {name : Name}

theorem present_iff : Present entries name ↔ ∃ found, scan name 0 entries = some found := by
  constructor
  · rintro ⟨de, member, used, isName⟩
    cases isScan : scan name 0 entries with
    | none => exact absurd isName (Dirs.scan_eq_none isScan member used)
    | some found => exact ⟨found, rfl⟩
  · rintro ⟨⟨inum, off⟩, isScan⟩
    obtain ⟨used, -, isEntry⟩ := Dirs.scan_eq_some isScan
    exact ⟨_, List.mem_of_getElem? isEntry, used, rfl⟩

/-- In a list with distinct names, every entry in use is found. -/
theorem Distinct.scan_iff (distinct : Distinct entries) {inum off : Nat} :
    scan name 0 entries = some (inum, off) ↔ inum ≠ 0 ∧ entries[off]? = some ⟨inum, name⟩ := by
  constructor
  · intro isScan
    obtain ⟨used, -, isEntry⟩ := Dirs.scan_eq_some isScan
    exact ⟨used, isEntry⟩
  · rintro ⟨used, isEntry⟩
    obtain ⟨⟨other, place⟩, isScan⟩ :=
      present_iff.mp ⟨_, List.mem_of_getElem? isEntry, used, rfl⟩
    obtain ⟨otherUsed, -, isOther⟩ := Dirs.scan_eq_some isScan
    obtain rfl := distinct place off _ _ isOther isEntry otherUsed used rfl
    rw [isScan]
    have same := Option.some.inj (isOther.symm.trans isEntry)
    rw [(Dirent.mk.inj same).1]

theorem unused_of_freeIndex (isEntry : entries[freeIndex entries]? = some de) : de.inum = 0 := by
  obtain ⟨inside, rfl⟩ := List.getElem?_eq_some_iff.mp isEntry
  exact of_decide_eq_true (List.findIdx_getElem (w := inside))

/-- A list in which one entry is replaced by one whose name is not in use elsewhere. -/
theorem Distinct.writeEntry (distinct : Distinct entries) (within : index ≤ entries.length)
    (fresh : de.inum ≠ 0 → ∀ other used, other ≠ index → entries[other]? = some used →
      used.inum ≠ 0 → used.name ≠ de.name) : Distinct (writeEntry entries index de) := by
  intro i j first second isFirst isSecond firstUsed secondUsed same
  rw [getElem?_writeEntry within] at isFirst isSecond
  by_cases atFirst : i = index
  · by_cases atSecond : j = index
    · rw [atFirst, atSecond]
    · rw [if_pos atFirst] at isFirst
      rw [if_neg atSecond] at isSecond
      obtain rfl := Option.some.inj isFirst
      exact absurd same.symm (fresh firstUsed j second atSecond isSecond secondUsed)
  · rw [if_neg atFirst] at isFirst
    by_cases atSecond : j = index
    · rw [if_pos atSecond] at isSecond
      obtain rfl := Option.some.inj isSecond
      exact absurd same (fresh secondUsed i first atFirst isFirst firstUsed)
    · rw [if_neg atSecond] at isSecond
      exact distinct i j first second isFirst isSecond firstUsed secondUsed same

def inumOf (entries : List Dirent) (name : Name) : Option Nat :=
  (scan name 0 entries).map Prod.fst

theorem Distinct.inumOf_eq_some (distinct : Distinct entries) {inum : Nat} :
    inumOf entries name = some inum ↔
      inum ≠ 0 ∧ ∃ off : Nat, entries[off]? = some ⟨inum, name⟩ := by
  rw [inumOf, Option.map_eq_some_iff]
  constructor
  · rintro ⟨⟨other, off⟩, isScan, rfl⟩
    obtain ⟨used, isEntry⟩ := distinct.scan_iff.mp isScan
    exact ⟨used, off, isEntry⟩
  · rintro ⟨used, off, isEntry⟩
    exact ⟨(inum, off), distinct.scan_iff.mpr ⟨used, isEntry⟩, rfl⟩

/-- Writing an entry over one that is not in use, or at the end. -/
theorem Distinct.link (distinct : Distinct entries) (used : de.inum ≠ 0)
    (absent : ¬ Present entries de.name) :
    Distinct (Dirs.writeEntry entries (freeIndex entries) de) ∧
      ∀ key, inumOf (Dirs.writeEntry entries (freeIndex entries) de) key =
        if de.name = key then some de.inum else inumOf entries key := by
  have within : freeIndex entries ≤ entries.length := List.findIdx_le_length
  have after : Distinct (Dirs.writeEntry entries (freeIndex entries) de) :=
    distinct.writeEntry within fun _ other old _ isOld oldUsed same =>
      absent ⟨old, List.mem_of_getElem? isOld, oldUsed, same⟩
  refine ⟨after, fun key => Option.ext fun inum => ?_⟩
  rw [after.inumOf_eq_some]
  simp only [getElem?_writeEntry within]
  by_cases same : de.name = key
  · rw [if_pos same]
    constructor
    · rintro ⟨inumUsed, off, isEntry⟩
      split at isEntry
      · rw [Option.some.inj isEntry]
      · exact absurd ⟨_, List.mem_of_getElem? isEntry, inumUsed, same.symm⟩ absent
    · intro isInum
      cases isInum
      refine ⟨used, freeIndex entries, ?_⟩
      rw [if_pos rfl, ← same]
  · rw [if_neg same, distinct.inumOf_eq_some]
    refine and_congr_right fun inumUsed => exists_congr fun off => ?_
    by_cases atIndex : off = freeIndex entries
    · rw [if_pos atIndex]
      refine iff_of_false (fun isEntry => same ?_) fun isEntry => inumUsed ?_
      · rw [Option.some.inj isEntry]
      · rw [atIndex] at isEntry
        exact unused_of_freeIndex isEntry
    · rw [if_neg atIndex]

theorem Distinct.erase (distinct : Distinct entries) {inum off : Nat}
    (isScan : scan name 0 entries = some (inum, off)) :
    Distinct (Dirs.writeEntry entries off ⟨0, []⟩) ∧
      ∀ key, inumOf (Dirs.writeEntry entries off ⟨0, []⟩) key =
        if name = key then none else inumOf entries key := by
  obtain ⟨used, isEntry⟩ := distinct.scan_iff.mp isScan
  have within := ((List.getElem?_eq_some_iff.mp isEntry).1).le
  have after : Distinct (Dirs.writeEntry entries off ⟨0, []⟩) :=
    distinct.writeEntry within fun unused => absurd rfl unused
  refine ⟨after, fun key => Option.ext fun other => ?_⟩
  rw [after.inumOf_eq_some]
  simp only [getElem?_writeEntry within]
  by_cases same : name = key
  · rw [if_pos same]
    refine iff_of_false ?_ (Option.some_ne_none other).symm
    rintro ⟨otherUsed, place, isOther⟩
    split at isOther
    · exact otherUsed (Dirent.mk.inj (Option.some.inj isOther)).1.symm
    · rename_i elsewhere
      exact elsewhere (distinct place off _ _ isOther isEntry otherUsed used same.symm)
  · rw [if_neg same, distinct.inumOf_eq_some]
    refine and_congr_right fun otherUsed => exists_congr fun place => ?_
    by_cases atIndex : place = off
    · grind
    · rw [if_neg atIndex]

end Lists

/-! ## Operations -/

/-- A directory that can be locked, with a sound inode cache. -/
structure Lockable (sb : SuperBlock) (dp : Nat) (state : State) : Prop where
  directory : IsDirectory sb dp state
  referenced : Referenced state
  cached : (state.icache dp).isSome

section Operations

variable {sb : SuperBlock} {devsw : Nat → Device} {dp : Nat} {state next : State}
  {ip : Inode} {name : List UInt8} {inum : Nat} {result : Option Int}

theorem Referenced.of_refs (referenced : Referenced state)
    (same : ∀ inum entry, next.icache inum = some entry →
      ∃ old, state.icache inum = some old ∧ entry.ref = old.ref) : Referenced next := by
  intro inum entry isEntry
  obtain ⟨old, isOld, isRef⟩ := same inum entry isEntry
  rw [isRef]
  exact referenced inum old isOld

theorem Referenced.setCopy (referenced : Referenced state) (ip : Inode) :
    Referenced (state.setCopy dp ip) := by
  refine referenced.of_refs fun inum entry isEntry => ?_
  by_cases same : inum = dp
  · subst same
    change update state.icache inum _ inum = some entry at isEntry
    rw [update_self, Option.map_eq_some_iff] at isEntry
    obtain ⟨old, isOld, rfl⟩ := isEntry
    exact ⟨old, isOld, rfl⟩
  · change update state.icache dp _ inum = some entry at isEntry
    rw [update_of_ne same] at isEntry
    exact ⟨entry, isEntry, rfl⟩

theorem Referenced.ilock (referenced : Referenced state) (locks : ilock dp state = .ok (ip, next)) :
    Referenced next := by
  unfold Fs.ilock at locks
  split at locks
  · cases locks
  · rename_i entry isEntry
    split at locks
    · cases locks
      exact referenced
    · dsimp only at locks
      split at locks
      · cases locks
      · cases locks
        refine referenced.of_refs fun inum stored isStored => ?_
        by_cases same : inum = dp
        · subst same
          change update state.icache inum _ inum = some stored at isStored
          rw [update_self] at isStored
          exact ⟨entry, isEntry, by rw [← Option.some.inj isStored]⟩
        · change update state.icache dp _ inum = some stored at isStored
          rw [update_of_ne same] at isStored
          exact ⟨stored, isStored, rfl⟩

theorem isSome_of_locked (locked : Locked state dp) : (state.icache dp).isSome := by
  obtain ⟨entry, isEntry, -⟩ := locked
  rw [isEntry]
  rfl

theorem Lockable.ilock (lockable : Lockable sb dp state) (locks : ilock dp state = .ok (ip, next)) :
    Lockable sb dp next ∧ Locked next dp ∧ ip = next.dinode dp ∧ next.block = state.block ∧
      next.dinode = state.dinode := by
  obtain ⟨wellFormed, locked, isNode, sameBlock, sameNodes⟩ :=
    lockable.directory.wellFormed.ilock locks
  refine ⟨⟨⟨wellFormed, ?_, ?_⟩, lockable.referenced.ilock locks, isSome_of_locked locked⟩, locked,
    isNode, sameBlock, sameNodes⟩
  · rw [sameNodes]
    exact lockable.directory.isDir
  · rw [sameNodes]
    exact lockable.directory.whole

theorem Lockable.stored (lockable : Lockable sb dp state) {index : Nat} {de : List UInt8}
    (isRecord : de.length = direntSize) (within : index ≤ (state.dirents dp).length)
    (stored : Stored sb dp (direntSize * index) de state (next.setCopy dp ip))
    (sameCache : next.icache = state.icache) :
    Lockable sb dp (next.setCopy dp ip) ∧
      (next.setCopy dp ip).dirents dp = writeEntry (state.dirents dp) index (dirent de) := by
  have live := lockable.directory.live
  have inside : index ≤ (contents state dp).length / direntSize := by rwa [← length_dirents]
  have start : direntSize * index ≤ (contents state dp).length := by
    grind
  have isContents : contents (next.setCopy dp ip) dp =
      splice (contents state dp) (direntSize * index) de := by
    rw [stored.replaced, update_self]
  have isDir : ((next.setCopy dp ip).dinode dp).type = .dir := by
    rw [stored.keeps.type]
    exact lockable.directory.isDir
  have size : ((next.setCopy dp ip).dinode dp).size =
      max (state.dinode dp).size (direntSize * index + direntSize) := by
    rw [← length_contents (by rw [isDir]; decide), isContents, length_splice start,
      length_contents live, isRecord]
  refine ⟨⟨⟨stored.wellFormed, isDir, ?_⟩, ?_, ?_⟩, ?_⟩
  · rw [size]
    have whole := lockable.directory.whole
    rcases max_choice (state.dinode dp).size (direntSize * index + direntSize) with isMax | isMax
    · rwa [isMax]
    · grind
  · have same : Referenced next := fun inum entry isEntry => by
      rw [sameCache] at isEntry
      exact lockable.referenced inum entry isEntry
    exact same.setCopy ip
  · rw [stored.keeps.cached]
    exact lockable.cached
  · rw [State.dirents, isContents, dirents_splice isRecord inside]
    rfl

theorem Lockable.setCopy_self (lockable : Lockable sb dp state) (locked : Locked state dp) :
    Lockable sb dp (state.setCopy dp (state.dinode dp)) := by
  refine ⟨⟨lockable.directory.wellFormed.setCopy_self locked, lockable.directory.isDir,
    lockable.directory.whole⟩, lockable.referenced.setCopy _, ?_⟩
  rw [isSome_setCopy]
  exact lockable.cached

structure Untouched (state next : State) : Prop where
  block : next.block = state.block
  dinode : next.dinode = state.dinode

/-- A record is written at an index, and nothing else changes in any inode. -/
structure WritesRecord (dp index : Nat) (de : List UInt8) (state next : State) : Prop where
  contents : Fs.contents next = update (Fs.contents state) dp
    (splice (Fs.contents state dp) (direntSize * index) de)
  dirents : next.dirents dp = writeEntry (state.dirents dp) index (dirent de)

/-- An operation is performed on the directory as `ilock` finds it. -/
theorem Lockable.perform_locks (lockable : Lockable sb dp state) {op : DirOp}
    (performs : op.perform sb devsw dp state = some (result, next)) :
    ∃ locked after last, Lockable sb dp locked ∧ Locked locked dp ∧
      op.apply sb devsw dp (locked.dinode dp) locked = some (result, after, last) ∧
      next = last.setCopy dp after ∧ Untouched state locked ∧
      Fs.contents locked = Fs.contents state ∧ locked.dirents dp = state.dirents dp := by
  obtain ⟨⟨node, locked⟩, locks, performs⟩ := Option.bind_eq_some_iff.mp performs
  obtain ⟨⟨r, after, last⟩, applies, isResult⟩ := Option.bind_eq_some_iff.mp performs
  cases isResult
  obtain ⟨lockableLocked, isLocked, rfl, sameBlock, sameNodes⟩ :=
    lockable.ilock (Fallible.ok_of_toOption locks)
  have sameContents := contents_eq_of_blocks sameBlock sameNodes
  refine ⟨locked, after, last, lockableLocked, isLocked, applies, rfl, ⟨sameBlock, sameNodes⟩,
    sameContents, ?_⟩
  rw [State.dirents, sameContents]
  rfl

/-- `dirlink` does not return when the name is that of the directory itself.  Otherwise it
leaves the directory alone when the name is there, and writes a record over the first unused
one or at the end when it is not. -/
theorem Lockable.perform_link (lockable : Lockable sb dp state)
    (performs : (DirOp.link name inum).perform sb devsw dp state = some (result, next)) :
    (inumOf (state.dirents dp) (cut name) = some dp ∧ result = none) ∨
    inumOf (state.dirents dp) (cut name) ≠ some dp ∧ Lockable sb dp next ∧
      (Present (state.dirents dp) (cut name) ∧ result = some (-1) ∧ Untouched state next ∨
        ¬ Present (state.dirents dp) (cut name) ∧ result = some 0 ∧
          freeIndex (state.dirents dp) < Dirs.maxEntries ∧
          WritesRecord dp (freeIndex (state.dirents dp)) (Record.bytes ⟨inum, name⟩) state
            next) := by
  obtain ⟨locked, after, last, lockableLocked, isLocked, applies, rfl, untouched, sameContents,
    sameDirents⟩ := lockable.perform_locks performs
  rcases lockableLocked.directory.dirlink_cases lockableLocked.referenced isLocked applies with
    ⟨found, isScan, sleeps, returns⟩ | ⟨isScan, rfl, fits, stored, sameCache⟩
  · rw [sameDirents] at isScan
    have isInum : inumOf (state.dirents dp) (cut name) = some found.1 := by
      rw [inumOf, isScan, Option.map_some]
    rw [isInum, ne_eq, Option.some.injEq]
    by_cases itself : found.1 = dp
    · exact .inl ⟨itself, sleeps.mpr itself⟩
    · obtain ⟨rfl, rfl, rfl⟩ := returns itself
      exact .inr ⟨itself, lockableLocked.setCopy_self isLocked,
        .inl ⟨present_iff.mpr ⟨found, isScan⟩, rfl, untouched.block, untouched.dinode⟩⟩
  · obtain ⟨lockableLast, isDirents⟩ := lockableLocked.stored Record.bytes_length
      List.findIdx_le_length stored sameCache
    rw [sameDirents] at isScan fits isDirents
    refine .inr ⟨?_, lockableLast, .inr ⟨?_, rfl, fits, ?_, isDirents⟩⟩
    · rw [inumOf, isScan, Option.map_none]
      exact (Option.some_ne_none dp).symm
    · intro present
      obtain ⟨found, isFound⟩ := present_iff.mp present
      exact absurd (isFound.symm.trans isScan) (Option.some_ne_none found)
    · rw [stored.replaced, sameContents, sameDirents]

/-- The erasure leaves the directory alone when the name is not there, and otherwise
writes zeros over its entry. -/
theorem Lockable.perform_unlink (lockable : Lockable sb dp state)
    (performs : (DirOp.unlink name).perform sb devsw dp state = some (result, next)) :
    Lockable sb dp next ∧
      (¬ Present (state.dirents dp) (cut name) ∧ result = some (-1) ∧ Untouched state next ∨
        ∃ inum off, scan (cut name) 0 (state.dirents dp) = some (inum, off) ∧ result = some 0 ∧
          WritesRecord dp off (List.replicate direntSize 0) state next) := by
  obtain ⟨locked, after, last, lockableLocked, isLocked, applies, rfl, untouched, sameContents,
    sameDirents⟩ := lockable.perform_locks performs
  rcases lockableLocked.directory.eraseEntry_cases isLocked applies with
    ⟨isScan, rfl, rfl, rfl⟩ | ⟨inum, off, isScan, rfl, stored, sameCache⟩
  · refine ⟨lockableLocked.setCopy_self isLocked, .inl ⟨?_, rfl, untouched.block, untouched.dinode⟩⟩
    rw [← sameDirents]
    intro present
    obtain ⟨found, isFound⟩ := present_iff.mp present
    exact absurd (isFound.symm.trans isScan) (Option.some_ne_none found)
  · obtain ⟨-, -, isEntry⟩ := Dirs.scan_eq_some isScan
    have inside := (List.getElem?_eq_some_iff.mp isEntry).1
    obtain ⟨lockableLast, isDirents⟩ := lockableLocked.stored List.length_replicate
      (Nat.le_of_lt inside) stored sameCache
    rw [sameDirents] at isScan isDirents
    refine ⟨lockableLast, .inr ⟨inum, off, isScan, rfl, ?_, isDirents⟩⟩
    rw [stored.replaced, sameContents]

end Operations

/-! ## Sequences of operations -/

/-- What an operation makes of the inode number that was last linked under a name. -/
def track (sb : SuperBlock) (devsw : Nat → Device) (dp : Nat) (key : Name) (known : Option Nat)
    (entry : State × DirOp) : Option Nat :=
  match entry.2 with
  | .link name inum =>
    if cut name = key ∧ (entry.2.perform sb devsw dp entry.1).map Prod.fst = some (some 0) then
      some inum
    else known
  | .unlink name => if cut name = key then none else known

/-- The inode number of the last successful link of a name that was not erased since. -/
def lastLinked (sb : SuperBlock) (devsw : Nat → Device) (dp : Nat) (key : Name)
    (trace : List (State × DirOp)) : Option Nat :=
  trace.foldl (track sb devsw dp key) none

/-- Links are made to inode numbers that an entry can store, as it has 16 bits for them. -/
def Storable (op : DirOp) : Prop :=
  ∀ name inum, op = .link name inum → inum ≠ 0 ∧ inum < 2 ^ 16

/-- The directory is the map that the operations have made. -/
structure Tracks (sb : SuperBlock) (devsw : Nat → Device) (dp : Nat)
    (trace : List (State × DirOp)) (state : State) : Prop where
  lockable : Lockable sb dp state
  distinct : Distinct (state.dirents dp)
  last : ∀ key, inumOf (state.dirents dp) key = lastLinked sb devsw dp key trace

section Sequences

variable {sb : SuperBlock} {devsw : Nat → Device} {dp : Nat} {state next : State}
  {trace : List (State × DirOp)} {name : List UInt8} {inum : Nat}

theorem lastLinked_snoc (key : Name) (entry : State × DirOp) :
    lastLinked sb devsw dp key (trace ++ [entry]) =
      track sb devsw dp key (lastLinked sb devsw dp key trace) entry :=
  List.foldl_append

theorem Untouched.dirents (untouched : Untouched state next) :
    next.dirents dp = state.dirents dp := by
  rw [State.dirents, contents_eq_of_blocks untouched.block untouched.dinode]
  rfl

/-- A step is an operation that returns. -/
theorem perform_of_step {op : DirOp} (edge : op.step sb devsw dp state = some next) :
    ∃ result, op.perform sb devsw dp state = some (some result, next) := by
  obtain ⟨⟨result, after⟩, performs, returns⟩ := Option.bind_eq_some_iff.mp edge
  obtain ⟨code, rfl, rfl⟩ := Option.map_eq_some_iff.mp returns
  exact ⟨code, performs⟩

theorem Tracks.link (tracks : Tracks sb devsw dp trace state)
    (storable : inum ≠ 0 ∧ inum < 2 ^ 16)
    (edge : (DirOp.link name inum).step sb devsw dp state = some next) :
    Tracks sb devsw dp (trace ++ [(state, .link name inum)]) next := by
  obtain ⟨result, performs⟩ := perform_of_step edge
  have isTrack : ∀ key known, track sb devsw dp key known (state, .link name inum) =
      if cut name = key ∧ some result = some 0 then some inum else known := by
    intro key known
    rw [track, performs]
    simp
  obtain ⟨-, isNone⟩ | ⟨-, lockable, ⟨-, isCode, untouched⟩ | ⟨absent, isCode, -, writes⟩⟩ :=
    tracks.lockable.perform_link performs
  · cases isNone
  · refine ⟨lockable, ?_, fun key => ?_⟩
    · rw [untouched.dirents]
      exact tracks.distinct
    · rw [untouched.dirents, tracks.last, lastLinked_snoc, isTrack, isCode, if_neg (by simp)]
  · have isDirents := writes.dirents
    rw [dirent_bytes, Nat.mod_eq_of_lt storable.2] at isDirents
    obtain ⟨distinct, isInum⟩ :=
      @Distinct.link (state.dirents dp) ⟨inum, cut name⟩ tracks.distinct storable.1 absent
    refine ⟨lockable, ?_, fun key => ?_⟩
    · rw [isDirents]
      exact distinct
    · rw [isDirents, isInum, tracks.last, lastLinked_snoc, isTrack]
      exact if_congr (and_iff_left isCode).symm rfl rfl

theorem Tracks.unlink (tracks : Tracks sb devsw dp trace state)
    (edge : (DirOp.unlink name).step sb devsw dp state = some next) :
    Tracks sb devsw dp (trace ++ [(state, .unlink name)]) next := by
  obtain ⟨result, performs⟩ := perform_of_step edge
  have isTrack : ∀ key known, track sb devsw dp key known (state, .unlink name) =
      if cut name = key then none else known := fun _ _ => rfl
  obtain ⟨lockable, ⟨absent, -, untouched⟩ | ⟨inum, off, isScan, -, writes⟩⟩ :=
    tracks.lockable.perform_unlink performs
  · refine ⟨lockable, ?_, fun key => ?_⟩
    · rw [untouched.dirents]
      exact tracks.distinct
    · rw [untouched.dirents, lastLinked_snoc, isTrack, ← tracks.last]
      split
      · rename_i same
        cases isScan : scan key 0 (state.dirents dp) with
        | none => rw [inumOf, isScan, Option.map_none]
        | some found => exact absurd (present_iff.mpr ⟨found, by rw [same, isScan]⟩) absent
      · rfl
  · have isDirents := writes.dirents
    rw [dirent_zeros] at isDirents
    obtain ⟨distinct, isInum⟩ := tracks.distinct.erase isScan
    refine ⟨lockable, ?_, fun key => ?_⟩
    · rw [isDirents]
      exact distinct
    · rw [isDirents, isInum, tracks.last, lastLinked_snoc, isTrack]

theorem Tracks.step {op : DirOp} (tracks : Tracks sb devsw dp trace state) (storable : Storable op)
    (edge : op.step sb devsw dp state = some next) :
    Tracks sb devsw dp (trace ++ [(state, op)]) next := by
  cases op with
  | link name inum => exact tracks.link (storable name inum rfl) edge
  | unlink name => exact tracks.unlink edge

structure IsEmptyDirectory (sb : SuperBlock) (dp : Nat) (state : State) : Prop where
  wellFormed : WellFormed sb state
  isDir : (state.dinode dp).type = .dir
  isEmpty : (state.dinode dp).size = 0
  referenced : Referenced state
  cached : (state.icache dp).isSome

theorem IsEmptyDirectory.tracks (empty : IsEmptyDirectory sb dp state) :
    Tracks sb devsw dp [] state := by
  have directory : IsDirectory sb dp state := by
    refine ⟨empty.wellFormed, empty.isDir, ?_⟩
    rw [empty.isEmpty]
    exact Nat.dvd_zero _
  have isNil : state.dirents dp = [] := by
    rw [← List.length_eq_zero_iff, directory.length, empty.isEmpty, Nat.zero_div]
  refine ⟨⟨directory, empty.referenced, empty.cached⟩, ?_, fun key => ?_⟩
  · rw [isNil]
    intro i j first second isFirst
    cases isFirst
  · rw [isNil]
    rfl

/-- A directory that starts empty is the map that links and erasures make of it, as long as
no `dirlink` finds an entry that names the directory itself.  Such a call never returns. -/
theorem directories_are_maps (sb : SuperBlock) (devsw : Nat → Device) {image finish : State}
    (empty : IsEmptyDirectory sb dp image) (run : DirRun sb devsw dp image trace finish)
    (storable : ∀ entry ∈ trace, Storable entry.2) :
    Distinct (finish.dirents dp) ∧
    direntSize ∣ (finish.dinode dp).size ∧
    (∀ name, ∃ found,
      dirlookup sb devsw name (finish.dinode dp) finish =
        some (found, finish.dinode dp, finish) ∧
      found.map Prod.fst = lastLinked sb devsw dp (cut name) trace ∧
      ∀ inum off, found = some (inum, off) → ∃ index : Nat, off = direntSize * index ∧
        (finish.dirents dp)[index]? = some ⟨inum, cut name⟩) ∧
    ∀ name inum result next,
      (DirOp.link name inum).perform sb devsw dp finish = some (result, next) →
        (result = none ↔ inumOf (finish.dirents dp) (cut name) = some dp) ∧
        (inumOf (finish.dirents dp) (cut name) ≠ some dp →
          (result = some (-1) ∧ Untouched finish next ↔ Present (finish.dirents dp) (cut name)) ∧
          (¬ Present (finish.dirents dp) (cut name) → result = some 0 ∧
            WritesRecord dp (freeIndex (finish.dirents dp)) (Record.bytes ⟨inum, name⟩) finish
              next)) := by
  have tracks : Tracks sb devsw dp trace finish :=
    run.traced_invariant (Tracks sb devsw dp) (fun _ op => Storable op) empty.tracks
      (fun _ tracks storable edge => tracks.step storable edge) storable
  refine ⟨tracks.distinct, tracks.lockable.directory.whole, fun name => ?_,
    fun name inum result next performs => ?_⟩
  · refine ⟨_, tracks.lockable.directory.dirlookup_eq, ?_, fun inum off isFound => ?_⟩
    · rw [← tracks.last, inumOf, Option.map_map]
      rfl
    · obtain ⟨⟨other, index⟩, isScan, isPair⟩ := Option.map_eq_some_iff.mp isFound
      obtain ⟨rfl, rfl⟩ := Prod.mk.inj isPair
      exact ⟨index, rfl, (tracks.distinct.scan_iff.mp isScan).2⟩
  · obtain ⟨itself, rfl⟩ | ⟨other, -, ⟨present, rfl, untouched⟩ | ⟨absent, rfl, -, writes⟩⟩ :=
      tracks.lockable.perform_link performs
    · exact ⟨iff_of_true rfl itself, fun other => absurd itself other⟩
    · exact ⟨iff_of_false (Option.some_ne_none _) other, fun _ =>
        ⟨iff_of_true ⟨rfl, untouched⟩ present, fun absent => absurd present absent⟩⟩
    · exact ⟨iff_of_false (Option.some_ne_none _) other, fun _ =>
        ⟨iff_of_false (fun isMinus => absurd isMinus.1 (by decide)) absent,
          fun _ => ⟨rfl, writes⟩⟩⟩

end Sequences

def directoryImage : State :=
  (emptyImage.iupdate 1 { Inode.zero with type := .dir }).setEntry 1 (some ⟨1, false, .zero⟩)

theorem isEmptyDirectory_directoryImage : IsEmptyDirectory smallDisk 1 directoryImage where
  wellFormed := wellFormed_emptyImage.ialloc (show ialloc smallDisk .dir emptyImage =
    .ok (1, directoryImage) from rfl)
  isDir := rfl
  isEmpty := rfl
  referenced := by
    intro inum entry isEntry
    change update emptyImage.icache 1 _ inum = some entry at isEntry
    by_cases same : inum = 1
    · grind
    · rw [update_of_ne same] at isEntry
      cases isEntry
  cached := rfl

/-- The names "a", "b" and "c" are linked, "a" is erased, and "c" takes its place. -/
def linksAndErasures : List DirOp :=
  [.link [97] 5, .link [98] 6, .unlink [97], .link [99] 7, .link [98] 9]

theorem directories_are_maps_of_links : ∃ trace finish,
    DirRun smallDisk (fun _ => ⟨none, none⟩) 1 directoryImage trace finish ∧
      trace.map Prod.snd = linksAndErasures ∧ finish.dirents 1 = [⟨7, [99]⟩, ⟨6, [98]⟩] ∧
      Distinct (finish.dirents 1) := by
  refine exists_run_of_test (fun _ finish => finish.dirents 1 = [⟨7, [99]⟩, ⟨6, [98]⟩])
    (by decide +kernel) fun trace finish run isTrace isDirents => ⟨isDirents, ?_⟩
  refine (directories_are_maps smallDisk _ isEmptyDirectory_directoryImage run ?_).1
  intro entry member name inum isLink
  have isOp : entry.2 ∈ linksAndErasures := isTrace ▸ List.mem_map_of_mem member
  rw [isLink] at isOp
  simp [linksAndErasures] at isOp
  omega

/-- The directory is linked as "." in itself, and a second `dirlink` of "." never returns. -/
theorem dirlink_sleeps_forever : ∃ trace finish,
    DirRun smallDisk (fun _ => ⟨none, none⟩) 1 directoryImage trace finish ∧
      trace.map Prod.snd = [.link [46] 1] ∧ Present (finish.dirents 1) [46] ∧
      ((DirOp.link [46] 5).perform smallDisk (fun _ => ⟨none, none⟩) 1 finish).map Prod.fst =
        some none := by
  refine exists_run_of_test (fun _ finish => finish.dirents 1 = [⟨1, [46]⟩] ∧
    ((DirOp.link [46] 5).perform smallDisk (fun _ => ⟨none, none⟩) 1 finish).map Prod.fst =
      some none) (by decide +kernel) ?_
  rintro _ _ - - ⟨isDirents, sleeps⟩
  exact ⟨⟨⟨1, [46]⟩, by simp [isDirents]⟩, sleeps⟩

end Fs

end Xv6
