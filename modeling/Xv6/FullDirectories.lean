import Xv6.DirectoryMaps
import Xv6.LinkCounts

/-!
# Full directories

A directory of the largest size without an unused entry has no room for another name.
`writei` then returns -1, and `dirlink` panics instead of returning -1 to `sys_link`,
which would give the link back.
-/

namespace Xv6

namespace Dirs

open Fallible LabelledRun
open Fs (FileType Present freeIndex present_iff)

/-- `dirlink` inserts the entry, or returns -1 and leaves the directory alone, unless
the inode cache is full. -/
def LinksOrRefuses (ninodes dp : Nat) (name : Name) (inum : Nat) (state : State) : Prop :=
  Meets (· = .igetNoInodes) (dirlink ninodes dp name inum state) fun result =>
    result.1 = 0 ∧ result.2.inode dp = linkEntry (state.inode dp) name inum ∨
      result.1 = -1 ∧ result.2.inode dp = state.inode dp

/-- A new name in a full directory makes `dirlink` panic. -/
theorem linksOrRefuses_iff {ninodes dp inum : Nat} {name : Name} {state : State}
    (isDir : IsDir state.inode dp) (absent : ¬ Present (state.inode dp).entries name) :
    LinksOrRefuses ninodes dp name inum state ↔
      freeIndex (state.inode dp).entries < maxEntries := by
  have missing : scan name 0 (state.inode dp).entries = none := by
    rw [present_iff, not_exists] at absent
    exact Option.eq_none_iff_forall_ne_some.mpr absent
  rw [LinksOrRefuses, dirlink_of_missing isDir missing]
  split
  next full => exact iff_of_false (by simp [Meets]) (not_lt.mpr full)
  next room => exact iff_of_true (.inl ⟨rfl, by simp⟩) (not_le.mp room)

theorem freeIndex_lt_iff {entries : List Dirent} {limit : Nat} :
    freeIndex entries < limit ↔ ∃ off < limit, ∀ de ∈ entries[off]?, de.inum = 0 := by
  constructor
  · intro room
    refine ⟨freeIndex entries, room, fun de isEntry => ?_⟩
    obtain ⟨inside, rfl⟩ := List.getElem?_eq_some_iff.mp isEntry
    exact of_decide_eq_true (List.findIdx_getElem (w := inside))
  · rintro ⟨off, room, isFree⟩
    refine lt_of_le_of_lt ?_ room
    by_contra earlier
    have inside : off < entries.length :=
      (not_le.mp earlier).trans_le List.findIdx_le_length
    exact of_decide_eq_false (List.not_of_lt_findIdx (not_le.mp earlier))
      (isFree _ (List.getElem?_eq_getElem inside))

/-- In every state, and so after all system calls, `dirlink` inserts a new name or
returns -1 with the directory unchanged exactly if one of the entries that fit into a
directory is unused or past its end. -/
theorem dirlink_returns_iff_room {ninodes dp inum : Nat} {name : Name} {state : State}
    (isDir : IsDir state.inode dp) (absent : ¬ Present (state.inode dp).entries name) :
    LinksOrRefuses ninodes dp name inum state ↔
      ∃ off < maxEntries, ∀ de ∈ (state.inode dp).entries[off]?, de.inum = 0 := by
  rw [linksOrRefuses_iff isDir absent, freeIndex_lt_iff]

/-! ## Filling the root directory -/

def numbered (number : Nat) : Name :=
  [.ofNat (128 + number / 100), .ofNat (128 + number % 100)]

/-- The root directory with the file "f", linked under the first names. -/
def linked (count : Nat) : List Dirent :=
  [⟨rootino, dot⟩, ⟨rootino, dotdot⟩, ⟨2, [102]⟩] ++
    (List.range count).map fun number => ⟨2, numbered number⟩

structure Filled (count : Nat) (state : State) : Prop where
  directory : state.inode rootino = ⟨.dir, 0, 0, 1, linked count⟩
  file : state.inode 2 = ⟨.file, 0, 0, 1 + count, []⟩
  rootCached : state.icache rootino = ⟨2, true⟩
  fileCached : state.icache 2 = ⟨1, true⟩
  running : (state.proc 1).isSome

/-- The call `link("/f", …)` with the next name. -/
def nextLink (number : Nat) : Nat × Call :=
  (1, .link [47, 102] (slash :: numbered number))

theorem length_linked (count : Nat) : (linked count).length = count + 3 := by
  simp [linked]

theorem linked_succ (count : Nat) :
    linked (count + 1) = linked count ++ [⟨2, numbered count⟩] := by
  rw [linked, linked, List.range_succ, List.map_append, List.append_assoc]
  rfl

theorem used_of_mem_linked {count : Nat} {de : Dirent} (member : de ∈ linked count) :
    de.inum ≠ 0 := by
  simp only [linked, List.mem_append, List.mem_cons, List.not_mem_nil, or_false, List.mem_map,
    List.mem_range] at member
  rcases member with (rfl | rfl | rfl) | ⟨number, _, rfl⟩ <;> simp

theorem freeIndex_linked (count : Nat) : freeIndex (linked count) = count + 3 := by
  rw [freeIndex, ← length_linked, List.findIdx_eq_length]
  intro de member
  simpa using used_of_mem_linked member

theorem numbered_inj {first second : Nat} (firstSmall : first < 10000)
    (secondSmall : second < 10000) (same : numbered first = numbered second) :
    first = second := by
  simp only [numbered, List.cons.injEq, ← UInt8.toNat_inj, UInt8.toNat_ofNat'] at same
  omega

theorem numbered_high {number : Nat} (small : number < 10000) {byte : UInt8}
    (member : byte ∈ numbered number) : 128 ≤ byte.toNat := by
  grind [numbered, UInt8.toNat_ofNat']

theorem skipelem_numbered {number : Nat} (small : number < 10000) :
    skipelem (slash :: numbered number) = some (numbered number, []) := by
  have isElement : ∀ byte ∈ numbered number, byte ≠ slash := by
    rintro byte member rfl
    exact absurd (numbered_high small member) (by decide)
  unfold numbered at isElement ⊢
  generalize UInt8.ofNat (128 + number / 100) = first at isElement
  generalize UInt8.ofNat (128 + number % 100) = second at isElement
  have firstElement := isElement first (by simp)
  have secondElement := isElement second (by simp)
  simp [skipelem, firstElement, secondElement]

theorem not_present_numbered {count : Nat} (small : count < 10000) :
    ¬ Present (linked count) (numbered count) := by
  rintro ⟨de, member, _, isName⟩
  have other : ∀ name : Name, name ∈ [dot, dotdot, [102]] → name ≠ numbered count := by
    rintro name isOther rfl
    have low : ∀ name ∈ [dot, dotdot, [102]], ∀ byte ∈ name, byte.toNat < 128 := by
      simp [dot, dotdot]
    exact absurd (numbered_high small List.mem_cons_self)
      (not_le.mpr (low _ isOther _ List.mem_cons_self))
  simp only [linked, List.mem_append, List.mem_cons, List.not_mem_nil, or_false, List.mem_map,
    List.mem_range] at member
  rcases member with (rfl | rfl | rfl) | ⟨number, earlier, rfl⟩
  · exact other dot (by simp) isName
  · exact other dotdot (by simp) isName
  · exact other [102] (by simp) isName
  · exact absurd (numbered_inj (earlier.trans small) small isName) earlier.ne

section Filling

variable {count : Nat} {state : State}

theorem Filled.namex_file (filled : Filled count state) (cwd : Nat) :
    namex 8 false cwd [47, 102] state =
      .ok (some (2, []), ((state.setCached rootino ⟨3, true⟩).setCached 2 ⟨2, true⟩).setCached
        rootino ⟨2, true⟩) := by
  have isScan : scan [102] 0 (linked count) = some (2, 2) := rfl
  simp [namex, namexLoop, iget, filled.rootCached, filled.fileCached, filled.directory, slash,
    skipelem, ilock, dirlookup, isScan, namexEnd, iput]

theorem namex_numbered (small : count < 10000) (isRoot : state.icache rootino = ⟨2, true⟩)
    (isDir : IsDir state.inode rootino) (cwd : Nat) :
    namex 8 true cwd (slash :: numbered count) state =
      .ok (some (rootino, numbered count), state.setCached rootino ⟨3, true⟩) := by
  rw [IsDir] at isDir
  simp [namex, namexLoop, iget, isRoot, skipelem_numbered small, ilock, isDir]

/-- The state of `link` before the directory is written, with both inodes held. -/
structure Linking (count : Nat) (state : State) : Prop where
  directory : state.inode rootino = ⟨.dir, 0, 0, 1, linked count⟩
  file : state.inode 2 = ⟨.file, 0, 0, 1 + (count + 1 : Nat), []⟩
  rootCached : state.icache rootino = ⟨3, true⟩
  fileCached : state.icache 2 = ⟨2, true⟩
  running : (state.proc 1).isSome

theorem Linking.dirlink (linking : Linking count state) (small : count < 10000) :
    ∃ after, Dirs.dirlink 8 rootino (numbered count) 2 state =
        (if maxEntries ≤ count + 3 then .error .dirlink else .ok (0, after)) ∧
      Filled (count + 1) (iput 2 (iput rootino after)) := by
  have isDir : IsDir state.inode rootino := by
    rw [IsDir, linking.directory]
  have missing : scan (numbered count) 0 (state.inode rootino).entries = none := by
    rw [linking.directory]
    cases isScan : scan (numbered count) 0 (linked count) with
    | none => rfl
    | some found =>
      exact absurd (present_iff.mpr ⟨found, isScan⟩) (not_present_numbered small)
  have entered : linkEntry (state.inode rootino) (numbered count) 2 =
      ⟨.dir, 0, 0, 1, linked (count + 1)⟩ := by
    rw [linking.directory, linkEntry, linked_succ, writeEntry]
    rw [show (linked count).findIdx _ = _ from freeIndex_linked count, length_linked,
      if_neg (lt_irrefl _)]
    rfl
  refine ⟨state.setInode rootino ⟨.dir, 0, 0, 1, linked (count + 1)⟩, ?_, ?_⟩
  · rw [dirlink_of_missing isDir missing, entered, linking.directory]
    rw [show (linked count).findIdx _ = _ from freeIndex_linked count]
  · constructor <;>
      simp [iput, linking.file, linking.rootCached, linking.fileCached, linking.running]

theorem Filled.linking (filled : Filled count state) (small : count < 10000) :
    Linking count (((((state.setCached rootino ⟨3, true⟩).setCached 2 ⟨2, true⟩).setCached
      rootino ⟨2, true⟩).addLink 2 1).setCached rootino ⟨3, true⟩) := by
  have links : short (1 + (count : Int) + 1) = 1 + ((count + 1 : Nat) : Int) := by
    rw [short_eq (by omega) (by omega)]
    omega
  constructor <;> simp [State.addLink, filled.directory, filled.file, filled.running, links]

/-- One more link, or the panic when the directory is full. -/
theorem Filled.call_link (filled : Filled count state) (small : count < 10000) :
    ∃ next, Filled (count + 1) next ∧
      state.call 8 (nextLink count).1 (nextLink count).2 =
        if maxEntries ≤ count + 3 then .error .dirlink else .ok (0, next) := by
  obtain ⟨p, isProc⟩ := Option.isSome_iff_exists.mp filled.running
  obtain ⟨after, isAfter, filledAfter⟩ := (filled.linking small).dirlink small
  have parent := @namex_numbered count
    ((((state.setCached rootino ⟨3, true⟩).setCached 2 ⟨2, true⟩).setCached
      rootino ⟨2, true⟩).addLink 2 1) small (by simp [State.addLink])
    (by simp [IsDir, State.addLink, filled.directory]) p.cwd
  refine ⟨_, filledAfter, ?_⟩
  rw [nextLink, State.call, isProc]
  simp only [sysLink, filled.namex_file, ok_bind]
  by_cases full : maxEntries ≤ count + 3
  · rw [if_pos full] at isAfter ⊢
    simp [ilock, filled.file, linkNew, parent, isAfter]
    rfl
  · rw [if_neg full] at isAfter ⊢
    simp [ilock, filled.file, linkNew, parent, isAfter]

theorem Filled.run (filled : Filled 0 state) (small : count ≤ 4477) :
    ∃ trace finish, DirsRun 8 state trace finish ∧
      trace.map Prod.snd = (List.range count).map nextLink ∧ Filled count finish := by
  induction count with
  | zero => exact ⟨[], state, .nil, rfl, filled⟩
  | succ count continues =>
    obtain ⟨trace, finish, run, labels, filledFinish⟩ := continues (by omega)
    obtain ⟨next, filledNext, isNext⟩ := filledFinish.call_link (by omega)
    have room : ¬ maxEntries ≤ count + 3 := by
      change ¬ 4480 ≤ count + 3
      omega
    rw [if_neg room] at isNext
    have edge : finish.step 8 (nextLink count) = some next := by
      rw [State.step, isNext]
      rfl
    refine ⟨trace ++ [(finish, nextLink count)], next, run.snoc edge, ?_, filledNext⟩
    rw [List.map_append, labels, List.range_succ, List.map_append]
    rfl

end Filling

/-- The root directory has room after boot. -/
theorem dirlink_returns_in_bootState : LinksOrRefuses 8 rootino [97] 2 bootState := by
  have isDir : IsDir bootState.inode rootino := rfl
  have absent : ¬ Present (bootState.inode rootino).entries [97] := by
    rw [show (bootState.inode rootino).entries = [⟨rootino, dot⟩, ⟨rootino, dotdot⟩] from rfl,
      Present]
    decide
  exact (dirlink_returns_iff_room isDir absent).mpr ⟨2, by decide, fun _ isNone => nomatch isNone⟩

/-- Process 1 creates the file "/f" and links it under 4477 more names in the root
directory.  The next link panics. -/
theorem full_directory_panics :
    ∃ trace finish, DirsRun 8 bootState trace finish ∧
      trace.map Prod.snd = (1, .open [47, 102] 0x202) :: (List.range 4477).map nextLink ∧
      (finish.inode rootino).entries.length = maxEntries ∧
      panicOf (finish.call 8 1 (.link [47, 102] (slash :: numbered 4477))) = some .dirlink ∧
      ¬ LinksOrRefuses 8 rootino (numbered 4477) 2 finish := by
  obtain ⟨trace, start, opened, labels, directory, file, rootCached, fileCached, running⟩ :=
    @exists_run_of_decide _ _ (State.step 8) bootState [(1, .open [47, 102] 0x202)]
      (fun _ start => start.inode rootino = ⟨.dir, 0, 0, 1, linked 0⟩ ∧
        start.inode 2 = ⟨.file, 0, 0, 1, []⟩ ∧ start.icache rootino = ⟨2, true⟩ ∧
        start.icache 2 = ⟨1, true⟩ ∧ (start.proc 1).isSome) _ (by decide +kernel)
  have filled : Filled 0 start := ⟨directory, file, rootCached, fileCached, running⟩
  obtain ⟨links, finish, linking, linkLabels, filledFinish⟩ := filled.run (le_refl 4477)
  have size : (finish.inode rootino).entries.length = maxEntries := by
    rw [filledFinish.directory]
    exact length_linked 4477
  obtain ⟨_, _, panics⟩ := filledFinish.call_link (by decide)
  refine ⟨trace ++ links, finish, opened.append linking, ?_, size, ?_, ?_⟩
  · rw [List.map_append, labels, linkLabels]
    rfl
  · rw [if_pos (by decide)] at panics
    exact congrArg panicOf panics
  · have isDir : IsDir finish.inode rootino := by
      rw [IsDir, filledFinish.directory]
    rw [linksOrRefuses_iff isDir, filledFinish.directory, freeIndex_linked]
    · decide
    · rw [filledFinish.directory]
      exact not_present_numbered (by decide)

end Dirs

end Xv6
