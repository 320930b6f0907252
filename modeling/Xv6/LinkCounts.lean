import Xv6.DirectoryUpdates

/-!
# Link counts and directory entries agree

Between system calls, the entries of directories name allocated inodes and the
link counts are the numbers of entries, as long as nothing is put into a directory
that was removed and no directory is removed while a removed one is still in use
below it.  Without these conditions both can fail, and lookup then panics.
-/

namespace Xv6

namespace Dirs

open Fallible LabelledRun
open Function (update update_of_ne update_self)
open Fs (FileType)

/-- Entries name allocated inodes, and link counts are numbers of entries. -/
structure Agree (ninodes : Nat) (inode : Nat → Inode) : Prop where
  entries : ∀ d, IsDir inode d → ∀ de ∈ (inode d).entries, de.inum ≠ 0 → Allocated inode de.inum
  counts : ∀ inum, Allocated inode inum → (inode inum).nlink = links ninodes inode inum

/-- The inodes form a tree, and their references are those of the processes. -/
structure WellFormed (ninodes : Nat) (state : State) : Prop where
  tree : Tree ninodes state.inode
  counted : Counted state []

theorem Tree.agree {ninodes : Nat} {inode : Nat → Inode} (tree : Tree ninodes inode) :
    Agree ninodes inode where
  entries d isDir de member used := (tree.walkable.target d isDir de member used).1
  counts := tree.counts

section Processes

variable {ninodes pid : Nat} {state : State} {held held' : List Nat} {p q : Proc}
  {path : List UInt8} {omode : BitVec 32}

theorem count_single (inum other : Nat) : [inum].count other = if inum = other then 1 else 0 := by
  simp [List.count_singleton]

theorem fileRefs_none (inum : Nat) : fileRefs none inum = 0 :=
  if_neg (by simp)

theorem fileRefs_some (f : File) (inum : Nat) : fileRefs (some f) inum = [f.inum].count inum := by
  rw [count_single, fileRefs]
  simp

theorem procRefs_update {proc : Nat → Option Proc} {new : Option Proc} (bound : pid < nproc)
    (running : proc pid = some p) (inum : Nat) :
    procRefs (update proc pid new) inum + p.refs inum =
      procRefs proc inum + new.elim 0 fun q => q.refs inum := by
  have total := @sum_update_add Nat (Option Proc) _ (Finset.range nproc) proc pid new
    (fun proc => proc.elim 0 fun q => q.refs inum) (Finset.mem_range.mpr bound)
  rw [running] at total
  exact total

theorem refs_setFile {fd : Nat} (file : Option File) (bound : fd < nofile) (inum : Nat) :
    { p with ofile := update p.ofile fd file }.refs inum + fileRefs (p.ofile fd) inum =
      p.refs inum + fileRefs file inum := by
  have total := @sum_update_add Nat (Option File) _ (Finset.range nofile) p.ofile fd file
    (fun file => fileRefs file inum) (Finset.mem_range.mpr bound)
  rw [Proc.refs, Proc.refs]
  dsimp only
  omega

theorem Counted.setProc {new : Option Proc} (counted : Counted state held)
    (running : state.proc pid = some p)
    (moved : ∀ inum, (new.elim 0 fun q => q.refs inum) + held'.count inum =
      p.refs inum + held.count inum)
    (isDir : ∀ q ∈ new, IsDir state.inode q.cwd) : Counted (state.setProc pid new) held' where
  refs inum := by
    have total := @procRefs_update pid p state.proc new (counted.cwd pid p running).1 running inum
    have before := counted.refs inum
    have move := moved inum
    rw [setProc_icache, setProc_proc]
    omega
  used := counted.used
  cwd other q isProc := by
    rw [setProc_proc] at isProc
    by_cases same : other = pid
    · subst same
      rw [update_self] at isProc
      exact ⟨(counted.cwd other p running).1, isDir q isProc⟩
    · rw [update_of_ne same] at isProc
      exact counted.cwd other q isProc

theorem iput_setProc (inum : Nat) (new : Option Proc) :
    iput inum (state.setProc pid new) = (iput inum state).setProc pid new := by
  rw [iput, iput, setProc_icache, setProc_inode]
  split
  · rfl
  · rfl

theorem wellFormed_iput {new : Option Proc} {inum : Nat} (wellFormed : WellFormed ninodes state)
    (running : state.proc pid = some p)
    (moved : ∀ other, (new.elim 0 fun q => q.refs other) + [inum].count other = p.refs other)
    (isDir : ∀ q ∈ new, IsDir state.inode q.cwd) :
    WellFormed ninodes (iput inum (state.setProc pid new)) := by
  have dropped : Counted (state.setProc pid new) [inum] :=
    wellFormed.counted.setProc running (by simpa using moved) isDir
  have tree : Tree ninodes (state.setProc pid new).inode := wellFormed.tree
  obtain ⟨putTree, putCounted, _⟩ := iput_tree tree dropped
  exact ⟨putTree, putCounted⟩

theorem wellFormed_closeFile {fd : Nat} {f : File} (wellFormed : WellFormed ninodes state)
    (running : state.proc pid = some p) (bound : fd < nofile) (isOpen : p.ofile fd = some f) :
    WellFormed ninodes (iput f.inum
      (state.setProc pid (some { p with ofile := update p.ofile fd none }))) := by
  refine wellFormed_iput wellFormed running ?_ ?_
  · intro other
    have total := @refs_setFile p fd none bound other
    rw [isOpen, fileRefs_none, fileRefs_some, Nat.add_zero] at total
    exact total
  · rintro q ⟨⟩
    exact (wellFormed.counted.cwd pid p running).2

theorem sysClose_wellFormed {fd : Nat} (wellFormed : WellFormed ninodes state)
    (running : state.proc pid = some p) : WellFormed ninodes (sysClose pid p fd state).2 := by
  grind [sysClose, wellFormed_closeFile]

theorem closeFiles_wellFormed {fds : List Nat} (inside : ∀ fd ∈ fds, fd < nofile)
    (wellFormed : WellFormed ninodes state) (running : state.proc pid = some p) :
    WellFormed ninodes (closeFiles pid fds p state).2 ∧
      (closeFiles pid fds p state).2.proc pid = some (closeFiles pid fds p state).1 ∧
      ∀ fd, fd ∈ fds ∨ p.ofile fd = none → (closeFiles pid fds p state).1.ofile fd = none := by
  induction fds generalizing p state with
  | nil =>
    refine ⟨wellFormed, running, ?_⟩
    rintro fd (member | closed)
    · cases member
    · exact closed
  | cons first rest ih =>
    have firstInside := inside first List.mem_cons_self
    have restInside : ∀ fd ∈ rest, fd < nofile := fun fd member =>
      inside fd (List.mem_cons_of_mem _ member)
    rw [closeFiles]
    cases isOpen : p.ofile first with
    | none =>
      obtain ⟨after, stillRunning, closed⟩ := ih restInside wellFormed running
      refine ⟨after, stillRunning, ?_⟩
      rintro fd (member | already)
      · grind
      · exact closed fd (.inr already)
    | some f =>
      have next := wellFormed_closeFile wellFormed running firstInside isOpen
      have nextRunning : (iput f.inum (state.setProc pid
          (some { p with ofile := update p.ofile first none }))).proc pid =
          some { p with ofile := update p.ofile first none } := by
        rw [iput_setProc, setProc_proc, update_self]
      obtain ⟨after, stillRunning, closed⟩ := ih restInside next nextRunning
      refine ⟨after, stillRunning, ?_⟩
      rintro fd (member | already)
      · grind
      · grind [update_of_ne, update_self]

theorem sysExit_meets (wellFormed : WellFormed ninodes state) (running : state.proc pid = some p) :
    Meets Exhausted (sysExit pid p state) (WellFormed ninodes) := by
  rw [sysExit]
  split
  · exact .inr (.inr (.inr (.inl rfl)))
  · obtain ⟨after, stillRunning, closed⟩ := @closeFiles_wellFormed ninodes pid state p
      (List.range nofile) (fun fd member => List.mem_range.mp member) wellFormed running
    change WellFormed ninodes ((iput (closeFiles pid (List.range nofile) p state).1.cwd
      (closeFiles pid (List.range nofile) p state).2).setProc pid none)
    rw [← iput_setProc]
    refine wellFormed_iput after stillRunning ?_ (by simp)
    intro other
    have noFiles : ∑ fd ∈ Finset.range nofile,
        fileRefs ((closeFiles pid (List.range nofile) p state).1.ofile fd) other = 0 := by
      apply Finset.sum_eq_zero
      intro fd member
      rw [closed fd (.inl (List.mem_range.mpr (Finset.mem_range.mp member))), fileRefs_none]
    rw [Proc.refs, noFiles, count_single, Option.elim_none, Nat.zero_add, Nat.add_zero]

theorem openFile_wellFormed {ip : Nat} (tree : Tree ninodes state.inode)
    (counted : Counted state [ip]) (running : state.proc pid = some p) :
    WellFormed ninodes (openFile pid p ip omode state).2 := by
  have put : WellFormed ninodes (iput ip state) := by
    obtain ⟨putTree, putCounted, _⟩ := iput_tree tree counted
    exact ⟨putTree, putCounted⟩
  rw [openFile]
  split
  · exact put
  · cases free : (List.range nofile).find? fun fd => (p.ofile fd).isNone with
    | none => exact put
    | some fd =>
      have bound := List.mem_range.mp (List.mem_of_find?_eq_some free)
      have unused : p.ofile fd = none := by simpa using List.find?_some free
      refine ⟨tree, counted.setProc running ?_ ?_⟩
      · intro inum
        have total := @refs_setFile p fd (some ⟨ip, decide (omode &&& 1 = 0),
          decide (omode &&& 1 ≠ 0 ∨ omode &&& 2 ≠ 0)⟩) bound inum
        rw [unused, fileRefs_none, fileRefs_some] at total
        exact total
      · rintro q ⟨⟩
        exact (counted.cwd pid p running).2

theorem sysChdir_meets (wellFormed : WellFormed ninodes state) (running : state.proc pid = some p) :
    Meets Exhausted (sysChdir ninodes pid p path state) fun result =>
      WellFormed ninodes result.2 := by
  have inUse := procRefs_cwd (wellFormed.counted.cwd pid p running).1 running
  apply (namex_meets wellFormed.tree.walkable wellFormed.counted inUse).bind
  rintro ⟨found, first⟩ resolved
  obtain ⟨same, isResolved, firstCounted, steady, _⟩ := resolved
  have tree := wellFormed.tree
  cases found with
  | none =>
    rw [← same.1] at tree
    exact ⟨tree, firstCounted⟩
  | some pair =>
    obtain ⟨ip, element⟩ := pair
    apply (ilock_meets firstCounted List.mem_cons_self).bind
    rintro second ⟨secondSame, secondCounted⟩
    have sameSecond := same.trans secondSame
    rw [← sameSecond.1] at tree
    rw [← sameSecond.2] at running
    by_cases isDir : (second.inode ip).type = .dir
    · rw [if_neg (not_not.mpr isDir)]
      have moved : Counted (second.setProc pid (some { p with cwd := ip })) [p.cwd] := by
        refine secondCounted.setProc running ?_ ?_
        · grind [Proc.refs, count_single]
        · rintro q ⟨⟩
          exact isDir
      have movedTree : Tree ninodes (second.setProc pid (some { p with cwd := ip })).inode := tree
      obtain ⟨putTree, putCounted, _⟩ := iput_tree movedTree moved
      rw [iput_setProc] at putTree putCounted
      exact ⟨putTree, putCounted⟩
    · rw [if_pos isDir]
      obtain ⟨putTree, putCounted, _⟩ := iput_tree tree secondCounted
      exact ⟨putTree, putCounted⟩

theorem sysOpen_meets (wellFormed : WellFormed ninodes state) (running : state.proc pid = some p)
    (grows : creates omode = true → Grows state .file p.cwd path) :
    Meets Exhausted (sysOpen ninodes pid p path omode state) fun result =>
      WellFormed ninodes result.2 := by
  have inUse := procRefs_cwd (wellFormed.counted.cwd pid p running).1 running
  rw [sysOpen]
  by_cases creating : creates omode = true
  · rw [if_pos creating]
    apply (create_meets wellFormed.tree wellFormed.counted inUse (by decide) (grows creating)).bind
    rintro ⟨ip, next⟩ ⟨tree, sameProc, counted⟩
    cases ip with
    | none => exact ⟨tree, counted⟩
    | some ip => exact openFile_wellFormed tree counted (by rw [sameProc]; exact running)
  · rw [if_neg creating]
    apply (namex_meets wellFormed.tree.walkable wellFormed.counted inUse).bind
    rintro ⟨found, first⟩ resolved
    obtain ⟨same, isResolved, firstCounted, steady, _⟩ := resolved
    have tree := wellFormed.tree
    cases found with
    | none =>
      rw [← same.1] at tree
      exact ⟨tree, firstCounted⟩
    | some pair =>
      obtain ⟨ip, element⟩ := pair
      apply (ilock_meets firstCounted List.mem_cons_self).bind
      rintro second ⟨secondSame, secondCounted⟩
      have sameSecond := same.trans secondSame
      rw [← sameSecond.1] at tree
      rw [← sameSecond.2] at running
      split
      · obtain ⟨putTree, putCounted, _⟩ := iput_tree tree secondCounted
        exact ⟨putTree, putCounted⟩
      · exact openFile_wellFormed tree secondCounted running

theorem makeNode_meets {type : FileType} {major minor : Int} (wellFormed : WellFormed ninodes state)
    (running : state.proc pid = some p) (kind : type ≠ .free)
    (grows : Grows state type p.cwd path) :
    Meets Exhausted (makeNode ninodes p path type major minor state) fun result =>
      WellFormed ninodes result.2 := by
  have inUse := procRefs_cwd (wellFormed.counted.cwd pid p running).1 running
  apply (create_meets wellFormed.tree wellFormed.counted inUse kind grows).bind
  rintro ⟨ip, next⟩ ⟨tree, sameProc, counted⟩
  cases ip with
  | none => exact ⟨tree, counted⟩
  | some ip =>
    obtain ⟨putTree, putCounted, _⟩ := iput_tree tree counted
    exact ⟨putTree, putCounted⟩

/-- What a call must meet, in the state before it, for the tree to be kept. -/
def Allowed (ninodes : Nat) (state : State) (cwd : Nat) : Call → Prop
  | .open path omode => creates omode = true → Grows state .file cwd path
  | .mkdir path => Grows state .dir cwd path
  | .mknod path _ _ => Grows state .dev cwd path
  | .link old new => HasRoom state cwd old ∧ Grows state .file cwd new
  | .unlink path => NoneBelow ninodes state cwd path
  | .chdir _ => True
  | .close _ => True
  | .exit => True

/-- The same for the call of a process. -/
def Guarded (ninodes : Nat) (state : State) (label : Nat × Call) : Prop :=
  ∀ p ∈ state.proc label.1, Allowed ninodes state p.cwd label.2

instance (state : State) (type : FileType) (cwd : Nat) (path : List UInt8) :
    Decidable (Grows state type cwd path) := by
  unfold Grows
  infer_instance

instance (state : State) (cwd : Nat) (path : List UInt8) : Decidable (HasRoom state cwd path) := by
  unfold HasRoom
  infer_instance

instance (ninodes : Nat) (state : State) (cwd : Nat) (path : List UInt8) :
    Decidable (NoneBelow ninodes state cwd path) := by
  unfold NoneBelow
  infer_instance

instance (ninodes : Nat) (state : State) (cwd : Nat) (call : Call) :
    Decidable (Allowed ninodes state cwd call) := by
  cases call <;> unfold Allowed <;> infer_instance

instance (ninodes : Nat) (state : State) (label : Nat × Call) :
    Decidable (Guarded ninodes state label) := by
  unfold Guarded
  infer_instance

/-- A call that meets its condition keeps the state well formed, and only panics
for want of resources. -/
theorem WellFormed.call {call : Call} (wellFormed : WellFormed ninodes state)
    (guarded : Guarded ninodes state (pid, call)) :
    Meets Exhausted (state.call ninodes pid call) fun result => WellFormed ninodes result.2 := by
  rw [State.call]
  cases running : state.proc pid with
  | none => exact .inr (.inr (.inr (.inr rfl)))
  | some p =>
    have allowed : Allowed ninodes state p.cwd call := guarded p running
    have inUse := procRefs_cwd (wellFormed.counted.cwd pid p running).1 running
    cases call with
    | «open» path omode => exact sysOpen_meets wellFormed running allowed
    | mkdir path => exact makeNode_meets wellFormed running (by decide) allowed
    | mknod path major minor => exact makeNode_meets wellFormed running (by decide) allowed
    | link old new =>
      have meets := sysLink_meets wellFormed.tree wellFormed.counted inUse allowed.1 allowed.2
      refine meets.mono ?_
      rintro result ⟨tree, _, counted⟩
      exact ⟨tree, counted⟩
    | unlink path =>
      refine (sysUnlink_meets wellFormed.tree wellFormed.counted inUse allowed).mono ?_
      rintro result ⟨tree, _, counted⟩
      exact ⟨tree, counted⟩
    | chdir path => exact sysChdir_meets wellFormed running
    | close fd => exact sysClose_wellFormed wellFormed running
    | exit =>
      apply (sysExit_meets wellFormed running).bind
      intro next after
      exact after

theorem WellFormed.step {next : State} {label : Nat × Call} (wellFormed : WellFormed ninodes state)
    (guarded : Guarded ninodes state label) (edge : state.step ninodes label = some next) :
    WellFormed ninodes next := by
  rw [State.step, Option.map_eq_some_iff] at edge
  obtain ⟨result, performed, rfl⟩ := edge
  exact (wellFormed.call guarded).of_ok (ok_of_toOption performed)

end Processes

/-- In every run whose calls meet their conditions, entries and link counts agree
in every state, and path lookup never locks a free inode. -/
theorem link_counts_throughout (ninodes : Nat) {start finish : State}
    {trace : List (State × (Nat × Call))} (wellFormed : WellFormed ninodes start)
    (run : DirsRun ninodes start trace finish)
    (guarded : ∀ entry ∈ trace, Guarded ninodes entry.1 entry.2) :
    Throughout (fun state => Agree ninodes state.inode ∧
      ∀ pid p path nameiparent, state.proc pid = some p →
        namex ninodes nameiparent p.cwd path state ≠ .error .ilockNoType) trace finish := by
  have derive : ∀ state, WellFormed ninodes state → Agree ninodes state.inode ∧
      ∀ pid p path nameiparent, state.proc pid = some p →
        namex ninodes nameiparent p.cwd path state ≠ .error .ilockNoType := by
    intro state holds
    refine ⟨holds.tree.agree, ?_⟩
    intro pid p path nameiparent running fails
    have inUse := procRefs_cwd (holds.counted.cwd pid p running).1 running
    have exhausted := (namex_meets holds.tree.walkable holds.counted inUse).of_error fails
    simp [Exhausted] at exhausted
  obtain ⟨visited, last⟩ := run.invariant (WellFormed ninodes) (Guarded ninodes) wellFormed
    (fun holds allowed edge => holds.step allowed edge) guarded
  exact ⟨fun entry member => derive _ (visited entry member), derive _ last⟩

/-- The state after booting an image with only the root directory and two
processes. -/
def bootState : State where
  inode inum :=
    if inum = rootino then ⟨.dir, 0, 0, 1, [⟨rootino, dot⟩, ⟨rootino, dotdot⟩]⟩
    else ⟨.free, 0, 0, 0, []⟩
  icache inum := if inum = rootino then ⟨2, false⟩ else ⟨0, false⟩
  proc pid := if pid < 2 then some ⟨rootino, fun _ => none⟩ else none

theorem eq_rootino_of_allocated {inum : Nat} (allocated : Allocated bootState.inode inum) :
    inum = rootino := by
  by_contra other
  apply allocated
  change (if inum = rootino then _ else (⟨.free, 0, 0, 0, []⟩ : Inode)).type = .free
  rw [if_neg other]

theorem tree_bootState : Tree 8 bootState.inode := by
  have isRoot : ∀ {d}, IsDir bootState.inode d → d = rootino := fun isDir =>
    eq_rootino_of_allocated (IsDir.allocated isDir)
  exact {
    addressable := by decide
    inside := by
      intro inum allocated
      rw [eq_rootino_of_allocated allocated]
      decide
    dots := by
      intro d isDir
      rw [isRoot isDir]
      exact ⟨rfl, by simp [bootState, Inode.listing]⟩
    target := by
      intro d isDir
      rw [isRoot isDir]
      simp [bootState, Inode.listing]
    parent := by
      intro d isDir
      rw [isRoot isDir]
      exact ⟨rfl, by decide⟩
    counts := by
      intro inum allocated
      rw [eq_rootino_of_allocated allocated]
      decide
    small := by
      intro inum allocated
      rw [eq_rootino_of_allocated allocated]
      decide
    child := by
      intro d c isDir
      rw [isRoot isDir]
      simp [bootState, Inode.lists, Inode.listing]
    listed := by
      intro c linked notRoot
      exact absurd (isRoot linked.1) notRoot
    root := ⟨rfl, by decide⟩
    rootParent := rfl
    rootUnlisted := by
      intro d isDir
      rw [isRoot isDir]
      rfl
    removed := by
      intro d isDir
      rw [isRoot isDir]
      simp [bootState, Inode.listing] }

theorem wellFormed_bootState : WellFormed 8 bootState := by
  have procs : ∀ pid p, bootState.proc pid = some p →
      pid < 2 ∧ p = ⟨rootino, fun _ => none⟩ := by
    intro pid p running
    by_cases bound : pid < 2
    · grind [bootState]
    · simp only [bootState, if_neg bound] at running
      cases running
  refine ⟨tree_bootState, ?_, ?_, ?_⟩
  · intro inum
    by_cases isRoot : inum = rootino
    · subst isRoot
      decide +kernel
    · have none : procRefs bootState.proc inum = 0 := by
        apply Finset.sum_eq_zero
        intro pid _
        cases running : bootState.proc pid with
        | none => rfl
        | some p =>
          rw [(procs pid p running).2, Option.elim_some, Proc.refs, if_neg (Ne.symm isRoot)]
          simp only [fileRefs_none, Finset.sum_const_zero, Nat.add_zero]
      rw [none]
      simp [bootState, isRoot]
  · grind [bootState, Allocated]
  · intro pid p running
    obtain ⟨bound, rfl⟩ := procs pid p running
    exact ⟨lt_trans bound (by decide), rfl⟩

/-- The calls of process 1, with the strings "/a", "/a/b", "/c", "/a/d" and "/". -/
def directoryLife : List (Nat × Call) :=
  [(1, .mkdir [47, 97]), (1, .mkdir [47, 97, 47, 98]), (1, .chdir [47, 97, 47, 98]),
    (1, .unlink [47, 97, 47, 98]), (1, .open [47, 99] 0x202), (1, .link [47, 99] [47, 97, 47, 100]),
    (1, .chdir [47]), (1, .unlink [47, 97, 47, 100]), (1, .unlink [47, 97]), (1, .close 0),
    (1, .exit)]

theorem link_counts_of_directoryLife :
    ∃ trace finish, DirsRun 8 bootState trace finish ∧ trace.map Prod.snd = directoryLife ∧
      Agree 8 finish.inode := by
  refine exists_run_of_test (fun trace _ => ∀ entry ∈ trace, Guarded 8 entry.1 entry.2)
    (by decide +kernel) ?_
  exact fun _ _ run _ guarded => (link_counts_throughout 8 wellFormed_bootState run guarded).2.1

def panicOf {α : Type} : Result α → Option Panic
  | .ok _ => none
  | .error panic => some panic

/-- Process 1 removes the directory above its own removed directory, which leaves
".." naming a free inode, or creates a file in its own removed directory. -/
theorem removed_directories_break_links : WellFormed 8 bootState ∧
    (∃ trace finish, DirsRun 8 bootState trace finish ∧
      trace.map Prod.snd = [(1, .mkdir [47, 97]), (1, .mkdir [47, 97, 47, 98]),
        (1, .chdir [47, 97, 47, 98]), (1, .unlink [47, 97, 47, 98]), (1, .unlink [47, 97])] ∧
      ¬ Agree 8 finish.inode ∧
      panicOf (finish.call 8 1 (.chdir dotdot)) = some .ilockNoType) ∧
    ∃ trace finish, DirsRun 8 bootState trace finish ∧
      trace.map Prod.snd = [(1, .mkdir [47, 97]), (1, .chdir [47, 97]), (1, .unlink [47, 97]),
        (1, .open [120] 0x202)] ∧ ¬ Agree 8 finish.inode := by
  refine ⟨wellFormed_bootState, ?_, ?_⟩
  · refine exists_run_of_test (fun _ finish => (finish.inode 3).type = .dir ∧
      (⟨2, dotdot⟩ : Dirent) ∈ (finish.inode 3).entries ∧ (finish.inode 2).type = .free ∧
      panicOf (finish.call 8 1 (.chdir dotdot)) = some .ilockNoType) (by decide +kernel) ?_
    rintro _ _ - - ⟨isDir, member, free, panics⟩
    refine ⟨?_, panics⟩
    intro agree
    exact agree.entries 3 isDir ⟨2, dotdot⟩ member (by decide) free
  · refine exists_run_of_test (fun _ finish => (finish.inode 3).type ≠ .free ∧
      (finish.inode 3).nlink ≠ links 8 finish.inode 3) (by decide +kernel) ?_
    rintro _ _ - - ⟨allocated, differs⟩ agree
    exact differs (agree.counts 3 allocated)

end Dirs

end Xv6
