import Xv6.InodeReferences

/-!
# Updates of directories

`create`, `sys_link` and `sys_unlink` change an entry and the link counts that
belong to it.  Each keeps the tree when the entry goes into a linked directory,
the link counts stay in range, and no removed directory is left below a directory
that is removed.
-/

namespace Xv6

namespace Dirs

open Fallible
open Function (update update_eq_self update_idem update_of_ne update_self)
open Fs (FileType)

/-! ## One entry -/

section Entries

variable {entries : List Dirent} {de : Dirent} {off d x c : Nat} {node new : Inode} {name : Name}

theorem writeEntry_cons (first second : Dirent) :
    writeEntry (first :: second :: entries) (off + 2) de =
      first :: second :: writeEntry entries off de := by
  grind [writeEntry, List.length_cons]

theorem mem_writeEntry {other : Dirent} (member : other ∈ writeEntry entries off de) :
    other ∈ entries ∨ other = de := by
  grind [writeEntry, List.mem_or_eq_of_mem_set]

theorem countP_writeEntry (de : Dirent) {old : Dirent} (replaced : entries[off]? = some old)
    (c : Nat) :
    (writeEntry entries off de).countP (fun de => de.inum = c) + (if old.inum = c then 1 else 0) =
      entries.countP (fun de => de.inum = c) + if de.inum = c then 1 else 0 := by
  grind [writeEntry]

theorem countP_writeEntry_free (positive : c ≠ 0) :
    (writeEntry entries (entries.findIdx fun de => de.inum = 0) de).countP
        (fun de => de.inum = c) =
      entries.countP (fun de => de.inum = c) + if de.inum = c then 1 else 0 := by
  grind [writeEntry, List.countP_singleton]

theorem grown_of_writeEntry (dots : HasDots d node) (positive : d ≠ 0)
    (parentPositive : node.parent ≠ 0) (isDir : new.type = .dir)
    (fresh : name ≠ dot ∧ name ≠ dotdot)
    (written : new.entries =
      writeEntry node.entries (node.entries.findIdx fun de => de.inum = 0) ⟨x, name⟩) :
    Grown d node new x := by
  have place : (node.entries.findIdx fun de => de.inum = 0) =
      (node.listing.findIdx fun de => de.inum = 0) + 2 := by
    rw [dots.entries]
    simp [List.findIdx_cons, positive, parentPositive]
  rw [place, dots.entries, writeEntry_cons] at written
  have parent : new.parent = node.parent := by
    rw [Inode.parent, written]
    rfl
  have listing : new.listing =
      writeEntry node.listing (node.listing.findIdx fun de => de.inum = 0) ⟨x, name⟩ := by
    rw [Inode.listing, written]
    rfl
  constructor
  · constructor
    · rw [written, parent, listing]
    · intro de member used
      rw [listing] at member
      rcases mem_writeEntry member with old | rfl
      · exact dots.named de old used
      · exact fresh
  · exact isDir
  · exact parent
  · intro de member
    rw [listing] at member
    rcases mem_writeEntry member with old | rfl
    · exact .inl old
    · exact .inr rfl
  · intro c nonzero
    rw [Inode.lists, listing, countP_writeEntry_free nonzero, Inode.lists]

theorem two_le_of_scan (dots : HasDots d node) (notDots : name ≠ dot ∧ name ≠ dotdot)
    (found : scan name 0 node.entries = some (x, off)) :
    ∃ place, off = place + 2 ∧ node.listing[place]? = some ⟨x, name⟩ := by
  obtain ⟨_, _, entry⟩ := scan_eq_some found
  rw [dots.entries, Nat.sub_zero] at entry
  cases off with
  | zero =>
    grind
  | succ off =>
    grind

theorem shrunk_of_writeEntry (dots : HasDots d node) (notDots : name ≠ dot ∧ name ≠ dotdot)
    (found : scan name 0 node.entries = some (x, off)) (isDir : new.type = .dir)
    (written : new.entries = writeEntry node.entries off ⟨0, []⟩) : Shrunk d node new x := by
  obtain ⟨place, rfl, entry⟩ := two_le_of_scan dots notDots found
  rw [dots.entries, writeEntry_cons] at written
  have parent : new.parent = node.parent := by
    rw [Inode.parent, written]
    rfl
  have listing : new.listing = writeEntry node.listing place ⟨0, []⟩ := by
    rw [Inode.listing, written]
    rfl
  constructor
  · constructor
    · rw [written, parent, listing]
    · intro de member used
      rw [listing] at member
      rcases mem_writeEntry member with old | rfl
      · exact dots.named de old used
      · exact absurd rfl used
  · exact isDir
  · exact parent
  · intro de member
    rw [listing] at member
    rcases mem_writeEntry member with old | rfl
    · exact .inl old
    · exact .inr rfl
  · intro c nonzero
    have counts := countP_writeEntry ⟨0, []⟩ entry c
    rw [if_neg (Ne.symm nonzero), Nat.add_zero] at counts
    rw [Inode.lists, Inode.lists, listing, counts]

/-- The dots are found in every directory, so another name is not theirs. -/
theorem ne_dots_of_scan (dots : HasDots d node) (positive : d ≠ 0)
    (parentPositive : node.parent ≠ 0) (missing : scan name 0 node.entries = none) :
    name ≠ dot ∧ name ≠ dotdot := by
  have self : (⟨d, dot⟩ : Dirent) ∈ node.entries := by
    rw [dots.entries]
    exact List.mem_cons_self
  have above : (⟨node.parent, dotdot⟩ : Dirent) ∈ node.entries := by
    rw [dots.entries]
    exact List.mem_cons_of_mem _ List.mem_cons_self
  exact ⟨(scan_eq_none missing self positive).symm,
    (scan_eq_none missing above parentPositive).symm⟩

end Entries

theorem short_eq {value : Int} (lower : -2 ^ 15 ≤ value) (upper : value < 2 ^ 15) :
    short value = value := by
  rw [short, Int.bmod_def]
  omega

/-! ## Creating inodes -/

section Updates

variable {ninodes dp x : Nat} {state : State} {held : List Nat} {name : Name} {type : FileType}
  {major minor : Int} {path : List UInt8} {p : Proc}

/-- The directory after `dirlink`. -/
def linkEntry (node : Inode) (name : Name) (x : Nat) : Inode :=
  { node with
    entries := writeEntry node.entries (node.entries.findIdx fun de => de.inum = 0)
      ⟨x % 2 ^ 16, name⟩ }

theorem dirlink_of_missing (isDir : IsDir state.inode dp)
    (missing : scan name 0 (state.inode dp).entries = none) :
    dirlink ninodes dp name x state =
      if maxEntries ≤ (state.inode dp).entries.findIdx (fun de => de.inum = 0) then
        .error .dirlink
      else .ok (0, state.setInode dp (linkEntry (state.inode dp) name x)) := by
  have nothing : dirlookup ninodes dp name state = .ok (none, state) := by
    rw [dirlookup, if_neg (fun notDir => notDir isDir), missing]
  rw [dirlink, nothing]
  rfl

theorem ialloc_meets (counted : Counted state held) (kind : type ≠ .free) :
    Meets Exhausted (ialloc ninodes type state) fun result =>
      0 < result.1 ∧ result.1 < ninodes ∧ ¬ Allocated state.inode result.1 ∧
        result.2.inode = update state.inode result.1 ⟨type, 0, 0, 0, []⟩ ∧
        result.2.proc = state.proc ∧ Counted result.2 (result.1 :: held) := by
  rw [ialloc]
  cases found : (List.range' 1 (ninodes - 1)).find? fun inum => (state.inode inum).type = .free with
  | none => exact .inr (.inl rfl)
  | some x =>
    have free : (state.inode x).type = .free := by simpa using List.find?_some found
    have inside := List.mem_range'_1.mp (List.mem_of_find?_eq_some found)
    have prepared : Counted (state.setInode x ⟨type, 0, 0, 0, []⟩) held := by
      apply counted.setInode
      by_cases unused : (state.icache x).ref = 0
      · exact .inl unused
      · exact absurd free (counted.used x (by omega))
    have allocated : Allocated (state.setInode x ⟨type, 0, 0, 0, []⟩).inode x := by
      rw [Allocated, setInode_inode, update_self]
      exact kind
    apply (iget_meets prepared allocated).bind
    rintro next ⟨same, after⟩
    exact ⟨by omega, by omega, not_not.mpr free, same.1, same.2, after⟩

theorem createDots_eq {node : Inode} (isNode : state.inode x = node) (isDir : node.type = .dir)
    (empty : node.entries = []) (positive : x ≠ 0) (small : x < 2 ^ 16) (dpSmall : dp < 2 ^ 16) :
    ∃ next, createDots ninodes x dp state = .ok next ∧ next.proc = state.proc ∧
      next.icache = state.icache ∧ next.inode = update state.inode x
        { node with entries := [⟨x, dot⟩, ⟨dp, dotdot⟩] } := by
  subst isNode
  have room : ¬ maxEntries ≤ 1 := by decide
  have first : dirlink ninodes x dot x state =
      .ok (0, state.setInode x { state.inode x with entries := [⟨x, dot⟩] }) := by
    rw [dirlink_of_missing isDir (by rw [empty]; rfl), empty, if_neg (by decide)]
    simp [linkEntry, empty, writeEntry, Nat.mod_eq_of_lt (show x < 65536 from small)]
  have second : dirlink ninodes x dotdot dp
      (state.setInode x { state.inode x with entries := [⟨x, dot⟩] }) =
      .ok (0, (state.setInode x { state.inode x with entries := [⟨x, dot⟩] }).setInode x
        { state.inode x with entries := [⟨x, dot⟩, ⟨dp, dotdot⟩] }) := by
    have notDot : dotdot ≠ dot := by decide
    rw [dirlink_of_missing]
    · simp [linkEntry, writeEntry, Nat.mod_eq_of_lt (show dp < 65536 from dpSmall), positive,
        List.findIdx_cons, room]
    · rw [IsDir, setInode_inode, update_self]
      exact isDir
    · simp [scan, positive, notDot]
  refine ⟨(state.setInode x { state.inode x with entries := [⟨x, dot⟩] }).setInode x
    { state.inode x with entries := [⟨x, dot⟩, ⟨dp, dotdot⟩] }, ?_, rfl, rfl, ?_⟩
  · simp_all [createDots]
  · rw [setInode_inode, setInode_inode, update_idem]

variable {inode : Nat → Inode} {ip : Nat}

theorem grown_linkEntry {node : Inode} (tree : Tree ninodes inode) (isDir : IsDir inode dp)
    (missing : scan name 0 (inode dp).entries = none)
    (sameEntries : node.entries = (inode dp).entries) (stillDir : node.type = .dir)
    (small : x < 2 ^ 16) : Grown dp (inode dp) (linkEntry node name x) x := by
  have positive := Nat.pos_iff_ne_zero.mp (tree.inside dp isDir.allocated).1
  have parentPositive :=
    Nat.pos_iff_ne_zero.mp (tree.inside _ (tree.parent dp isDir).1.allocated).1
  have dots := tree.dots dp isDir
  refine grown_of_writeEntry dots positive parentPositive stillDir
    (ne_dots_of_scan dots positive parentPositive missing) ?_
  rw [linkEntry, sameEntries, Nat.mod_eq_of_lt small]

theorem Tree.addFresh (tree : Tree ninodes inode) (linked : Linked inode dp)
    (inside : 0 < x ∧ x < ninodes) (fresh : ¬ Allocated inode x)
    (missing : scan name 0 (inode dp).entries = none) (kind : type ≠ .free ∧ type ≠ .dir) :
    Tree ninodes (update (update inode x ⟨type, major, minor, 1, []⟩) dp
      (linkEntry (inode dp) name x)) := by
  have addressable := tree.addressable
  have different : x ≠ dp := by
    rintro rfl
    exact fresh linked.1.allocated
  refine @Tree.addNode _ _ _ x dp tree linked inside (fun isDir => fresh (IsDir.allocated isDir))
    different ?_ ?_ ?_ ?_ ?_ ?_ ?_
  · grind
  · rw [Allocated, update_of_ne different, update_self]
    exact kind.1
  · rw [IsDir, update_of_ne different, update_self]
    exact kind.2
  · rw [update_of_ne different, update_self, tree.links_free fresh (by omega)]
    rfl
  · grind
  · rw [update_self]
    exact grown_linkEntry tree linked.1 missing rfl linked.1 (by omega)
  · rw [update_self]
    rfl

theorem Tree.addFreshDir {next : Nat → Inode} (tree : Tree ninodes inode)
    (linked : Linked inode dp) (inside : 0 < x ∧ x < ninodes) (fresh : ¬ Allocated inode x)
    (missing : scan name 0 (inode dp).entries = none) (room : (inode dp).nlink < 2 ^ 15 - 1)
    (atX : next x = ⟨.dir, major, minor, 1, [⟨x, dot⟩, ⟨dp, dotdot⟩]⟩)
    (atDp : next dp = linkEntry { inode dp with nlink := (inode dp).nlink + 1 } name x)
    (other : ∀ d, d ≠ x → d ≠ dp → next d = inode d) : Tree ninodes next := by
  have addressable := tree.addressable
  have different : x ≠ dp := by
    rintro rfl
    exact fresh linked.1.allocated
  have isDir : IsDir next x := by rw [IsDir, atX]
  have dots : HasDots x (next x) := by
    rw [atX]
    exact ⟨rfl, by simp [Inode.listing]⟩
  refine tree.addDir linked inside fresh different other isDir dots ?_ ?_ ?_ ?_ ?_ ?_
  · rw [atX]
    rfl
  · rw [atX]
    rfl
  · rw [atX]
  · rw [atDp]
    exact grown_linkEntry tree linked.1 missing rfl linked.1 (by omega)
  · rw [atDp]
    rfl
  · rw [atDp]
    change (inode dp).nlink + 1 < 2 ^ 15
    omega

theorem createEntry_meets (counted : Counted state [x, dp]) (isDir : IsDir state.inode dp)
    (links : (state.inode dp).nlink ≠ 0) (missing : scan name 0 (state.inode dp).entries = none)
    (tree : Tree ninodes (update state.inode dp
      (linkEntry (state.inode dp) name x))) :
    Meets Exhausted (dirlink ninodes dp name x state >>= fun result =>
        if result.1 < 0 then .error .createDirlink else .ok (some x, iput dp result.2))
      fun result => Tree ninodes result.2.inode ∧ result.2.proc = state.proc ∧
        result.1 = some x ∧ Counted result.2 [x] := by
  rw [dirlink_of_missing isDir missing]
  by_cases full : maxEntries ≤ (state.inode dp).entries.findIdx fun de => de.inum = 0
  · rw [if_pos full]
    exact .inr (.inr (.inl rfl))
  · rw [if_neg full]
    have written : Counted (state.setInode dp (linkEntry (state.inode dp) name x)) [x, dp] := by
      refine counted.setInode (.inr ⟨?_, fun _ => isDir⟩)
      exact isDir.allocated
    have steady : Steady (state.setInode dp (linkEntry (state.inode dp) name x)) dp := by
      left
      rw [setInode_inode, update_self]
      exact links
    obtain ⟨same, after⟩ := iput_steady (written.perm (.swap ..)) (.inl steady)
    refine ⟨?_, same.2, rfl, after⟩
    rw [same.1]
    exact tree

theorem createNew_meets (tree : Tree ninodes state.inode) (counted : Counted state [dp])
    (linked : Linked state.inode dp) (missing : scan name 0 (state.inode dp).entries = none)
    (kind : type ≠ .free) (room : type = .dir → (state.inode dp).nlink < 2 ^ 15 - 1) :
    Meets Exhausted (createNew ninodes dp name type major minor state) fun result =>
      Tree ninodes result.2.inode ∧ result.2.proc = state.proc ∧
        ∃ ip, result.1 = some ip ∧ Counted result.2 [ip] := by
  have addressable := tree.addressable
  have dpInside := tree.inside dp linked.1.allocated
  have dpLinks := linked.2
  apply (ialloc_meets counted kind).bind
  rintro ⟨x, first⟩ ⟨positive, inside, fresh, firstNodes, firstProc, firstCounted⟩
  have different : x ≠ dp := by
    rintro rfl
    exact fresh linked.1.allocated
  apply (ilock_meets firstCounted List.mem_cons_self).bind
  rintro second ⟨secondSame, secondCounted⟩
  have atX : second.inode x = ⟨type, 0, 0, 0, []⟩ := by
    rw [secondSame.1, firstNodes, update_self]
  rw [atX]
  obtain ⟨third, isThird⟩ : ∃ third,
      third = second.setInode x ⟨type, short major, short minor, 1, []⟩ :=
    ⟨_, rfl⟩
  have thirdNodes : third.inode =
      update state.inode x ⟨type, short major, short minor, 1, []⟩ := by
    rw [isThird, setInode_inode, secondSame.1, firstNodes, update_idem]
  have thirdProc : third.proc = state.proc := by
    rw [isThird, setInode_proc, secondSame.2, firstProc]
  have thirdCounted : Counted third [x, dp] := by
    rw [isThird]
    refine secondCounted.setInode (.inr ⟨kind, ?_⟩)
    rw [IsDir, atX]
    exact id
  have thirdDp : third.inode dp = state.inode dp := by
    rw [thirdNodes, update_of_ne different.symm]
  rw [← isThird]
  by_cases makesDir : type = .dir
  · rw [if_pos makesDir]
    have room := room makesDir
    have more : short ((state.inode dp).nlink + 1) = (state.inode dp).nlink + 1 :=
      short_eq (by omega) (by omega)
    have thirdX : (third.addLink dp 1).inode x = ⟨type, short major, short minor, 1, []⟩ := by
      rw [State.addLink, setInode_inode, update_of_ne different, thirdNodes,
        update_self]
    obtain ⟨fourth, dots, fourthProc, fourthCache, fourthNodes⟩ :=
      @createDots_eq ninodes dp x (third.addLink dp 1) _ thirdX makesDir rfl (by omega) (by omega)
        (by omega)
    rw [dots]
    have fourthX : fourth.inode x =
        ⟨.dir, short major, short minor, 1, [⟨x, dot⟩, ⟨dp, dotdot⟩]⟩ := by
      rw [fourthNodes, update_self, makesDir]
    have fourthDp : fourth.inode dp =
        { state.inode dp with nlink := (state.inode dp).nlink + 1 } := by
      rw [fourthNodes, update_of_ne different.symm, State.addLink, setInode_inode,
        update_self, thirdDp, more]
    have fourthOther : ∀ d, d ≠ x → d ≠ dp → fourth.inode d = state.inode d := by
      simp_all [update_of_ne, State.addLink, setInode_inode]
    have sameType : ∀ d, (fourth.inode d).type = (third.inode d).type := by
      intro d
      by_cases atX : d = x
      · rw [atX, fourthX, thirdNodes, update_self, makesDir]
      · by_cases atDp : d = dp
        · rw [atDp, fourthDp, thirdDp]
        · rw [fourthOther d atX atDp, thirdNodes, update_of_ne atX]
    have fourthCounted : Counted fourth [x, dp] := by
      refine thirdCounted.of_nodes fourthCache fourthProc ?_ ?_
      · intro d allocated
        rwa [Allocated, sameType]
      · intro d isDir
        rwa [IsDir, sameType]
    have entry := @createEntry_meets ninodes dp x fourth name fourthCounted
      (by rw [IsDir, fourthDp]; exact linked.1) (by rw [fourthDp]; dsimp only; omega)
      (by rw [fourthDp]; exact missing)
      (by
        refine @Tree.addFreshDir _ _ _ _ (short major) (short minor) _ _ tree linked
          ⟨positive, inside⟩ fresh missing room ?_ ?_ ?_
        · rw [update_of_ne different, fourthX]
        · rw [update_self, fourthDp]
        · intro d notX notDp
          rw [update_of_ne notDp, fourthOther d notX notDp])
    refine Meets.mono entry ?_
    rintro result ⟨isTree, sameProc, isX, after⟩
    exact ⟨isTree, (sameProc.trans fourthProc).trans thirdProc, x, isX, after⟩
  · rw [if_neg makesDir]
    have entry := @createEntry_meets ninodes dp x third name thirdCounted
      (by rw [IsDir, thirdDp]; exact linked.1) (by rw [thirdDp]; omega)
      (by rw [thirdDp]; exact missing) (by
        rw [thirdDp, thirdNodes]
        exact tree.addFresh linked ⟨positive, inside⟩ fresh missing ⟨kind, makesDir⟩)
    refine Meets.mono entry ?_
    rintro result ⟨isTree, sameProc, isX, after⟩
    exact ⟨isTree, sameProc.trans thirdProc, x, isX, after⟩

/-- The directory into which a call puts a new entry has links, and room for
another one if the entry is for a directory. -/
def Grows (state : State) (type : FileType) (cwd : Nat) (path : List UInt8) : Prop :=
  ∀ found ∈ resolve state.inode true cwd path,
    scan found.2 0 (state.inode found.1).entries = none →
      0 < (state.inode found.1).nlink ∧
        (type = .dir → (state.inode found.1).nlink < 2 ^ 15 - 1)

/-- The inode that gets another link has room for it. -/
def HasRoom (state : State) (cwd : Nat) (path : List UInt8) : Prop :=
  ∀ found ∈ resolve state.inode false cwd path, (state.inode found.1).type ≠ .dir →
    (state.inode found.1).nlink < 2 ^ 15 - 1

/-- `create` keeps the tree and leaves what it returns referenced. -/
theorem create_meets {cwd : Nat} (tree : Tree ninodes state.inode) (counted : Counted state [])
    (inUse : 0 < procRefs state.proc cwd) (kind : type ≠ .free)
    (grows : Grows state type cwd path) :
    Meets Exhausted (create ninodes cwd path type major minor state) fun result =>
      Tree ninodes result.2.inode ∧ result.2.proc = state.proc ∧
        Counted result.2 result.1.toList := by
  apply (namex_meets tree.walkable counted inUse).bind
  rintro ⟨found, first⟩ resolved
  obtain ⟨same, isResolved, firstCounted, steady, isDir⟩ := resolved
  cases found with
  | none =>
    refine ⟨?_, same.2, firstCounted⟩
    rw [same.1]
    exact tree
  | some pair =>
    obtain ⟨dp, name⟩ := pair
    have parentDir := isDir dp name rfl rfl
    apply (ilock_meets firstCounted List.mem_cons_self).bind
    rintro second ⟨secondSame, secondCounted⟩
    have sameSecond := same.trans secondSame
    rw [← sameSecond.1] at tree parentDir
    apply (dirlookup_meets tree.walkable secondCounted parentDir).bind
    rintro ⟨ip, third⟩ ⟨thirdSame, isScan, thirdCounted⟩
    have sameThird := sameSecond.trans thirdSame
    rw [← thirdSame.1] at tree parentDir isScan
    cases ip with
    | none =>
      have fits := grows (dp, name) isResolved.symm
      rw [← sameThird.1] at fits
      obtain ⟨links, room⟩ := fits isScan.symm
      refine (createNew_meets tree thirdCounted ⟨parentDir, links⟩ isScan.symm kind
        room).mono ?_
      rintro result ⟨isTree, sameProc, ip, isSome, after⟩
      refine ⟨isTree, sameProc.trans sameThird.2, ?_⟩
      rw [isSome]
      exact after
    | some pair =>
      obtain ⟨ip, off⟩ := pair
      have steadyDp := sameThird.steady (steady dp name rfl)
      obtain ⟨fourthSame, fourthCounted⟩ :=
        iput_steady (thirdCounted.perm (.swap ..)) (.inl steadyDp)
      apply (ilock_meets fourthCounted List.mem_cons_self).bind
      rintro last ⟨lastSame, lastCounted⟩
      have sameLast := (fourthSame.trans lastSame)
      rw [← sameLast.1] at tree
      split
      · exact ⟨tree, sameLast.2.trans sameThird.2, lastCounted⟩
      · obtain ⟨putTree, putCounted, putProc⟩ := iput_tree tree lastCounted
        exact ⟨putTree, (putProc.trans sameLast.2).trans sameThird.2, putCounted⟩

/-! ## Linking -/

theorem dirlink_of_found (walkable : Walkable state.inode) (counted : Counted state held)
    (isDir : IsDir state.inode dp) (member : dp ∈ held)
    (found : scan name 0 (state.inode dp).entries ≠ none) :
    Meets Exhausted (dirlink ninodes dp name x state) fun result =>
      result.1 = -1 ∧ SameNodes state result.2 ∧ Counted result.2 held := by
  apply (dirlookup_meets walkable counted isDir).bind
  rintro ⟨ip, looked⟩ ⟨same, isScan, after⟩
  cases ip with
  | none => exact absurd isScan.symm found
  | some pair =>
    obtain ⟨ip, off⟩ := pair
    obtain ⟨used, _, entry⟩ := scan_eq_some isScan.symm
    have target := (walkable.target dp isDir _ (List.mem_of_getElem? entry) used).2
    have steady : Steady looked ip ∨ ip ∈ held := by
      rcases target with self | links
      · grind
      · exact .inl (same.steady (.inl links))
    obtain ⟨putSame, putCounted⟩ := iput_steady after steady
    exact ⟨rfl, same.trans putSame, putCounted⟩

def linkNode (node : Inode) : Inode :=
  { node with nlink := node.nlink + 1 }

/-- The extra link, for which there is no entry yet, does not matter for lookup. -/
theorem Tree.walkable_linkNode (tree : Tree ninodes inode) (allocated : Allocated inode ip)
    (notDir : ¬ IsDir inode ip) : Walkable (update inode ip (linkNode (inode ip))) := by
  have walkable := tree.walkable
  have links : ∀ d, (inode d).nlink ≠ 0 →
      (update inode ip (linkNode (inode ip)) d).nlink ≠ 0 := by
    intro d some
    by_cases same : d = ip
    · subst same
      have := tree.nonneg allocated
      rw [update_self, linkNode]
      dsimp only
      omega
    · rwa [update_of_ne same]
  have types : ∀ d, (update inode ip (linkNode (inode ip)) d).type = (inode d).type := by
    intro d
    by_cases same : d = ip
    · subst same
      rw [update_self]
      rfl
    · rw [update_of_ne same]
  constructor
  · intro d isDir de member used
    rw [IsDir, types] at isDir
    have notIp : d ≠ ip := by
      rintro rfl
      exact notDir isDir
    rw [update_of_ne notIp] at member
    obtain ⟨targetAllocated, steady⟩ := walkable.target d isDir de member used
    refine ⟨by rwa [Allocated, types], steady.imp_right (links de.inum)⟩
  · exact ⟨by rw [IsDir, types]; exact walkable.root.1, links _ walkable.root.2⟩

/-- The failure of `sys_link` takes the link back. -/
theorem linkBad_meets (tree : Tree ninodes inode) (allocated : Allocated inode ip)
    (counted : Counted state [ip])
    (isNodes : state.inode = update inode ip (linkNode (inode ip))) :
    Meets Exhausted (linkBad ip state) fun result =>
      Tree ninodes result.2.inode ∧ result.2.proc = state.proc ∧ Counted result.2 [] := by
  apply (ilock_meets counted List.mem_cons_self).bind
  rintro locked ⟨same, lockedCounted⟩
  have nonneg := tree.nonneg allocated
  have small := tree.small ip allocated
  have back : (locked.addLink ip (-1)).inode = inode := by
    have restored : short ((inode ip).nlink + 1 + -1) = (inode ip).nlink := by
      rw [short_eq (by omega) (by omega)]
      omega
    rw [State.addLink, setInode_inode, same.1, isNodes, update_self,
      update_idem, linkNode]
    rw [restored, update_eq_self]
  have backCounted : Counted (locked.addLink ip (-1)) [ip] := by
    refine lockedCounted.setInode (.inr ⟨?_, id⟩)
    exact lockedCounted.allocated List.mem_cons_self
  rw [← back] at tree
  obtain ⟨putTree, putCounted, putProc⟩ := iput_tree tree backCounted
  exact ⟨putTree, putProc.trans same.2, putCounted⟩

theorem Tree.addLinked (tree : Tree ninodes inode) (linked : Linked inode dp)
    (allocated : Allocated inode ip) (notDir : ¬ IsDir inode ip)
    (missing : scan name 0 (inode dp).entries = none) (room : (inode ip).nlink < 2 ^ 15 - 1) :
    Tree ninodes (update (update inode ip (linkNode (inode ip))) dp
      (linkEntry (inode dp) name ip)) := by
  have addressable := tree.addressable
  have inside := tree.inside ip allocated
  have different : ip ≠ dp := by
    rintro rfl
    exact notDir linked.1
  refine @Tree.addNode _ _ _ ip dp tree linked inside notDir different ?_ ?_ ?_ ?_ ?_ ?_ ?_
  · grind
  · rw [Allocated, update_of_ne different, update_self]
    exact allocated
  · rw [IsDir, update_of_ne different, update_self]
    exact notDir
  · rw [update_of_ne different, update_self, ← tree.counts ip allocated]
    rfl
  · rw [update_of_ne different, update_self, linkNode]
    dsimp only
    omega
  · rw [update_self]
    exact grown_linkEntry tree linked.1 missing rfl linked.1 (by omega)
  · rw [update_self]
    rfl

/-- The second half of `sys_link`, with the extra link already counted. -/
theorem linkNew_meets {new : List UInt8} (tree : Tree ninodes inode)
    (allocated : Allocated inode ip) (notDir : ¬ IsDir inode ip)
    (room : (inode ip).nlink < 2 ^ 15 - 1) (counted : Counted state [ip])
    (isNodes : state.inode = update inode ip (linkNode (inode ip)))
    (inUse : 0 < procRefs state.proc p.cwd)
    (grows : ∀ found ∈ resolve inode true p.cwd new,
      scan found.2 0 (inode found.1).entries = none → 0 < (inode found.1).nlink ∧
        (FileType.file = .dir → (inode found.1).nlink < 2 ^ 15 - 1)) :
    Meets Exhausted (linkNew ninodes p ip new state) fun result =>
      Tree ninodes result.2.inode ∧ result.2.proc = state.proc ∧ Counted result.2 [] := by
  have walkable : Walkable state.inode := by
    rw [isNodes]
    exact tree.walkable_linkNode allocated notDir
  have sameResolve : resolve state.inode true p.cwd new = resolve inode true p.cwd new := by
    apply walk_congr
    · intro d
      rw [isNodes]
      by_cases same : d = ip
      · rw [same, update_self]
        rfl
      · rw [update_of_ne same]
    · intro d
      rw [isNodes]
      by_cases same : d = ip
      · rw [same, update_self]
        rfl
      · rw [update_of_ne same]
  apply (namex_meets walkable counted inUse).bind
  rintro ⟨found, first⟩ resolved
  obtain ⟨same, isResolved, firstCounted, steady, isDir⟩ := resolved
  rw [sameResolve] at isResolved
  have bad : ∀ last, SameNodes state last → Counted last [ip] →
      Meets Exhausted (linkBad ip last) fun result =>
        Tree ninodes result.2.inode ∧ result.2.proc = state.proc ∧ Counted result.2 [] := by
    intro last sameLast lastCounted
    refine (linkBad_meets tree allocated lastCounted (sameLast.1.trans isNodes)).mono ?_
    rintro result ⟨putTree, putProc, putCounted⟩
    exact ⟨putTree, putProc.trans sameLast.2, putCounted⟩
  cases found with
  | none => exact bad first same firstCounted
  | some pair =>
    obtain ⟨dp, name⟩ := pair
    have parentDir := isDir dp name rfl rfl
    have different : dp ≠ ip := by
      rintro rfl
      rw [IsDir, isNodes, update_self] at parentDir
      exact notDir parentDir
    have atDp : state.inode dp = inode dp := by rw [isNodes, update_of_ne different]
    apply (ilock_meets firstCounted List.mem_cons_self).bind
    rintro second ⟨secondSame, secondCounted⟩
    have sameSecond := same.trans secondSame
    rw [← sameSecond.1] at walkable parentDir atDp isNodes
    by_cases missing : scan name 0 (second.inode dp).entries = none
    · rw [dirlink_of_missing parentDir missing]
      by_cases full : maxEntries ≤ (second.inode dp).entries.findIdx fun de => de.inum = 0
      · rw [if_pos full]
        exact .inr (.inr (.inl rfl))
      rw [if_neg full]
      have linked : Linked inode dp := by
        rw [IsDir, atDp] at parentDir
        rw [atDp] at missing
        exact ⟨parentDir, (grows (dp, name) isResolved.symm missing).1⟩
      have written :
          Counted (second.setInode dp (linkEntry (second.inode dp) name ip)) [dp, ip] :=
        secondCounted.setInode (.inr ⟨parentDir.allocated, fun _ => parentDir⟩)
      have steadyDp : Steady (second.setInode dp (linkEntry (second.inode dp) name ip)) dp := by
        left
        have some := linked.2
        rw [setInode_inode, update_self, atDp, linkEntry]
        dsimp only
        omega
      obtain ⟨putSame, putCounted⟩ := iput_steady written (.inl steadyDp)
      have lastTree : Tree ninodes
          (iput dp (second.setInode dp (linkEntry (second.inode dp) name ip))).inode := by
        rw [atDp] at missing
        rw [putSame.1, setInode_inode, isNodes, update_of_ne different]
        exact tree.addLinked linked allocated notDir missing room
      obtain ⟨isTree, after, sameProc⟩ := iput_tree lastTree putCounted
      exact ⟨isTree, (sameProc.trans putSame.2).trans sameSecond.2, after⟩
    · apply (dirlink_of_found walkable secondCounted parentDir List.mem_cons_self missing).bind
      rintro ⟨r, third⟩ ⟨failed, thirdSame, thirdCounted⟩
      dsimp only at failed thirdSame thirdCounted ⊢
      have sameThird := sameSecond.trans thirdSame
      rw [failed, if_pos (by decide)]
      obtain ⟨putSame, putCounted⟩ :=
        iput_steady thirdCounted (.inl (sameThird.steady (steady dp name rfl)))
      exact bad _ (sameThird.trans putSame) putCounted

theorem sysLink_meets {old new : List UInt8} (tree : Tree ninodes state.inode)
    (counted : Counted state []) (inUse : 0 < procRefs state.proc p.cwd)
    (room : HasRoom state p.cwd old) (grows : Grows state .file p.cwd new) :
    Meets Exhausted (sysLink ninodes p old new state) fun result =>
      Tree ninodes result.2.inode ∧ result.2.proc = state.proc ∧ Counted result.2 [] := by
  apply (namex_meets tree.walkable counted inUse).bind
  rintro ⟨found, first⟩ resolved
  obtain ⟨same, isResolved, firstCounted, steady, _⟩ := resolved
  cases found with
  | none =>
    refine ⟨?_, same.2, firstCounted⟩
    rw [same.1]
    exact tree
  | some pair =>
    obtain ⟨ip, element⟩ := pair
    apply (ilock_meets firstCounted List.mem_cons_self).bind
    rintro second ⟨secondSame, secondCounted⟩
    have sameSecond := same.trans secondSame
    have allocated : Allocated second.inode ip := secondCounted.allocated List.mem_cons_self
    have secondTree := tree
    rw [← sameSecond.1] at secondTree
    by_cases isDir : (second.inode ip).type = .dir
    · rw [if_pos isDir]
      obtain ⟨putTree, putCounted, putProc⟩ := iput_tree secondTree secondCounted
      exact ⟨putTree, putProc.trans sameSecond.2, putCounted⟩
    · rw [if_neg isDir]
      have nonneg := secondTree.nonneg allocated
      have small : (second.inode ip).nlink < 2 ^ 15 - 1 := by
        have fits := room (ip, element) isResolved.symm
        rw [← sameSecond.1] at fits
        exact fits isDir
      have third : (second.addLink ip 1).inode =
          update second.inode ip (linkNode (second.inode ip)) := by
        rw [State.addLink, setInode_inode, short_eq (by omega) (by omega)]
        rfl
      have thirdCounted : Counted (second.addLink ip 1) [ip] :=
        secondCounted.setInode (.inr ⟨allocated, id⟩)
      refine (linkNew_meets secondTree allocated isDir small thirdCounted third ?_ ?_).mono ?_
      · rw [State.addLink, setInode_proc, sameSecond.2]
        exact inUse
      · rw [sameSecond.1]
        exact grows
      · rintro result ⟨isTree, sameProc, after⟩
        exact ⟨isTree, sameProc.trans sameSecond.2, after⟩

/-! ## Unlinking -/

def unlinkNode (node : Inode) : Inode :=
  { node with nlink := node.nlink - 1 }

/-- The end of `sys_unlink`: the references are given back. -/
theorem unlinkEnd_tree (counted : Counted state [ip, dp]) (links : (state.inode dp).nlink ≠ 0)
    (range : 1 ≤ (state.inode ip).nlink ∧ (state.inode ip).nlink < 2 ^ 15)
    (tree : Tree ninodes (update state.inode ip (unlinkNode (state.inode ip)))) :
    Tree ninodes (iput ip ((iput dp state).addLink ip (-1))).inode ∧
      (iput ip ((iput dp state).addLink ip (-1))).proc = state.proc ∧
      Counted (iput ip ((iput dp state).addLink ip (-1))) [] := by
  obtain ⟨putSame, putCounted⟩ := iput_steady (counted.perm (.swap ..)) (.inl (.inl links))
  have lastCounted : Counted ((iput dp state).addLink ip (-1)) [ip] := by
    refine putCounted.setInode (.inr ⟨?_, id⟩)
    exact putCounted.allocated List.mem_cons_self
  have lastTree : Tree ninodes ((iput dp state).addLink ip (-1)).inode := by
    rw [State.addLink, setInode_inode, putSame.1, short_eq (by omega) (by omega)]
    exact tree
  obtain ⟨isTree, after, sameProc⟩ := iput_tree lastTree lastCounted
  exact ⟨isTree, sameProc.trans putSame.2, after⟩

/-- An entry of a directory is cleared, with the links that belong to it.  A
directory must be empty, and no removed directory may be below it. -/
theorem removeEntry_tree {off : Nat} (tree : Tree ninodes state.inode)
    (counted : Counted state [ip, dp]) (parentDir : IsDir state.inode dp)
    (notDots : name ≠ dot ∧ name ≠ dotdot)
    (found : scan name 0 (state.inode dp).entries = some (ip, off))
    (empty : IsDir state.inode ip → ∀ de ∈ (state.inode ip).listing, de.inum = 0)
    (noneRemoved : IsDir state.inode ip → ∀ d, IsDir state.inode d → (state.inode d).nlink = 0 →
      (state.inode d).parent ≠ ip) :
    Tree ninodes (removeEntry dp ip off state).inode ∧
      (removeEntry dp ip off state).proc = state.proc ∧
      Counted (removeEntry dp ip off state) [] := by
  have allocated := counted.allocated List.mem_cons_self
  have positive := Nat.pos_iff_ne_zero.mp (tree.inside ip allocated).1
  have dots := tree.dots dp parentDir
  have lists : (state.inode dp).lists ip ≠ 0 := by
    obtain ⟨place, _, entry⟩ := two_le_of_scan dots notDots found
    exact lists_pos (List.mem_of_getElem? entry)
  have dpLinks := (tree.linked_of_lists parentDir positive lists).2
  have dpSmall := tree.small dp parentDir.allocated
  have ipLinks := tree.nlink_pos parentDir allocated lists
  have ipSmall := tree.small ip allocated
  have different : ip ≠ dp := by
    rintro rfl
    exact lists (lists_eq_zero (empty parentDir) positive)
  obtain ⟨cleared, isCleared⟩ : ∃ cleared, cleared =
    state.setInode dp (clearEntry (state.inode dp) off) := ⟨_, rfl⟩
  have clearedCounted : Counted cleared [ip, dp] := by
    rw [isCleared]
    exact counted.setInode (.inr ⟨parentDir.allocated, fun _ => parentDir⟩)
  have sameProc : cleared.proc = state.proc := by rw [isCleared, setInode_proc]
  have atIp : cleared.inode ip = state.inode ip := by
    rw [isCleared, setInode_inode, update_of_ne different]
  have atDp : cleared.inode dp = clearEntry (state.inode dp) off := by
    rw [isCleared, setInode_inode, update_self]
  have other : ∀ d, d ≠ dp → cleared.inode d = state.inode d := by
    simp_all
  have shrunk : ∀ node : Inode, node.type = .dir →
      node.entries = (clearEntry (state.inode dp) off).entries →
        Shrunk dp (state.inode dp) node ip := fun node isDir written =>
    shrunk_of_writeEntry dots notDots found isDir written
  rw [removeEntry, ← isCleared, atIp]
  by_cases isDir : (state.inode ip).type = .dir
  · rw [if_pos isDir]
    have notParent := tree.ne_parent_of_empty parentDir lists (empty isDir) (noneRemoved isDir)
      parentDir
    have more := tree.one_lt_nlink parentDir isDir lists notParent different
    have less : short ((state.inode dp).nlink + -1) = (state.inode dp).nlink - 1 :=
      short_eq (by omega) (by omega)
    have lastDp : (cleared.addLink dp (-1)).inode dp =
        { clearEntry (state.inode dp) off with nlink := (state.inode dp).nlink - 1 } := by
      rw [State.addLink, setInode_inode, update_self, atDp, clearEntry]
      rw [less]
    have lastOther : ∀ d, d ≠ dp → (cleared.addLink dp (-1)).inode d = state.inode d := by
      intro d notDp
      rw [State.addLink, setInode_inode, update_of_ne notDp, other d notDp]
    have lastCounted : Counted (cleared.addLink dp (-1)) [ip, dp] := by
      refine clearedCounted.setInode (.inr ⟨?_, id⟩)
      rw [atDp]
      exact parentDir.allocated
    rw [← sameProc]
    refine unlinkEnd_tree lastCounted (by rw [lastDp]; dsimp only; omega)
      (by rw [lastOther ip different]; omega) ?_
    rw [lastOther ip different]
    refine tree.dropDir parentDir isDir (empty isDir) (noneRemoved isDir) ?_ ?_ ?_ ?_
    · grind
    · rw [update_self]
      rfl
    · rw [update_of_ne different.symm, lastDp]
      exact shrunk _ parentDir rfl
    · rw [update_of_ne different.symm, lastDp]
  · rw [if_neg isDir, ← sameProc]
    refine unlinkEnd_tree clearedCounted (by rw [atDp, clearEntry]; dsimp only; omega)
      (by rw [atIp]; omega) ?_
    rw [atIp]
    refine tree.dropNode parentDir allocated isDir different ?_ ?_ ?_ ?_ ?_
    · grind
    · rw [update_self]
      rfl
    · rw [update_self]
      rfl
    · rw [update_of_ne different.symm, atDp]
      exact shrunk _ parentDir rfl
    · rw [update_of_ne different.symm, atDp]
      rfl

/-- No removed directory is below the directory that a call removes. -/
def NoneBelow (ninodes : Nat) (state : State) (cwd : Nat) (path : List UInt8) : Prop :=
  ∀ found ∈ resolve state.inode true cwd path,
    ∀ entry ∈ scan found.2 0 (state.inode found.1).entries, (state.inode entry.1).type = .dir →
      ∀ d < ninodes, (state.inode d).type = .dir → (state.inode d).nlink = 0 →
        (state.inode d).parent ≠ entry.1

theorem sysUnlink_meets (tree : Tree ninodes state.inode) (counted : Counted state [])
    (inUse : 0 < procRefs state.proc p.cwd) (noneBelow : NoneBelow ninodes state p.cwd path) :
    Meets Exhausted (sysUnlink ninodes p path state) fun result =>
      Tree ninodes result.2.inode ∧ result.2.proc = state.proc ∧ Counted result.2 [] := by
  apply (namex_meets tree.walkable counted inUse).bind
  rintro ⟨found, first⟩ resolved
  obtain ⟨same, isResolved, firstCounted, steady, isDir⟩ := resolved
  cases found with
  | none =>
    refine ⟨?_, same.2, firstCounted⟩
    rw [same.1]
    exact tree
  | some pair =>
    obtain ⟨dp, name⟩ := pair
    have parentDir := isDir dp name rfl rfl
    apply (ilock_meets firstCounted List.mem_cons_self).bind
    rintro second ⟨secondSame, secondCounted⟩
    have sameSecond := same.trans secondSame
    rw [← sameSecond.1] at tree parentDir
    by_cases isDots : name = dot ∨ name = dotdot
    · rw [if_pos isDots]
      obtain ⟨putTree, putCounted, putProc⟩ := iput_tree tree secondCounted
      exact ⟨putTree, putProc.trans sameSecond.2, putCounted⟩
    rw [if_neg isDots]
    apply (dirlookup_meets tree.walkable secondCounted parentDir).bind
    rintro ⟨entry, third⟩ ⟨thirdSame, isScan, thirdCounted⟩
    have sameThird := sameSecond.trans thirdSame
    rw [← thirdSame.1] at tree parentDir isScan
    cases entry with
    | none =>
      obtain ⟨putTree, putCounted, putProc⟩ := iput_tree tree thirdCounted
      exact ⟨putTree, putProc.trans sameThird.2, putCounted⟩
    | some pair =>
      obtain ⟨ip, off⟩ := pair
      apply (ilock_meets thirdCounted List.mem_cons_self).bind
      rintro last ⟨lastSame, lastCounted⟩
      have sameLast := sameThird.trans lastSame
      rw [← lastSame.1] at tree parentDir isScan
      have notDots := not_or.mp isDots
      have allocated : Allocated last.inode ip := lastCounted.allocated List.mem_cons_self
      have lists : (last.inode dp).lists ip ≠ 0 := by
        obtain ⟨place, _, entry⟩ :=
          two_le_of_scan (tree.dots dp parentDir) notDots isScan.symm
        exact lists_pos (List.mem_of_getElem? entry)
      have links := tree.nlink_pos parentDir allocated lists
      rw [if_neg (by omega)]
      by_cases full : (last.inode ip).type = .dir ∧ isdirempty (last.inode ip) = false
      · rw [if_pos full]
        obtain ⟨ipTree, ipCounted, ipProc⟩ := iput_tree tree lastCounted
        obtain ⟨dpTree, dpCounted, dpProc⟩ := iput_tree ipTree ipCounted
        exact ⟨dpTree, (dpProc.trans ipProc).trans sameLast.2, dpCounted⟩
      · rw [if_neg full]
        obtain ⟨isTree, sameProc, after⟩ := removeEntry_tree tree lastCounted parentDir notDots
          isScan.symm
          (by
            intro isDir
            have empty : isdirempty (last.inode ip) = true := by
              simpa [show (last.inode ip).type = .dir from isDir] using full
            simpa [isdirempty, Inode.listing] using empty)
          (by
            intro isDir d below unlinked
            have none := noneBelow (dp, name) isResolved.symm (ip, off)
            rw [← sameLast.1] at none
            exact none isScan.symm isDir d (tree.inside d below.allocated).2 below unlinked)
        exact ⟨isTree, sameProc.trans sameLast.2, after⟩

end Updates

end Dirs

end Xv6
