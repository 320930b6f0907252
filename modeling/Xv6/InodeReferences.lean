import Xv6.DirectoryTree
import Xv6.FallibleCode

/-!
# References to inodes and path lookup

The references of the inode cache are those of the current directories and the
open files, and the ones that the running call holds.  Lookup only visits inodes
that have links or that some process uses, so it gives back no last reference of
an inode without links, frees nothing and never locks a free inode.
-/

namespace Xv6

namespace Dirs

open Function (update update_of_ne update_self)
open Fallible
open Fs (FileType)

def fileRefs (file : Option File) (inum : Nat) : Nat :=
  if file.map File.inum = some inum then 1 else 0

def Proc.refs (p : Proc) (inum : Nat) : Nat :=
  (if p.cwd = inum then 1 else 0) + ∑ fd ∈ Finset.range nofile, fileRefs (p.ofile fd) inum

def procRefs (proc : Nat → Option Proc) (inum : Nat) : Nat :=
  ∑ pid ∈ Finset.range nproc, (proc pid).elim 0 fun p => p.refs inum

/-- The cache counts the references of the processes and those in `held`.  Only
allocated inodes are referenced, and the current directories are directories. -/
structure Counted (state : State) (held : List Nat) : Prop where
  refs : ∀ inum, (state.icache inum).ref = procRefs state.proc inum + held.count inum
  used : ∀ inum, 0 < (state.icache inum).ref → Allocated state.inode inum
  cwd : ∀ pid p, state.proc pid = some p → pid < nproc ∧ IsDir state.inode p.cwd

/-- Panics that are about resources and not about the state of the file system. -/
def Exhausted (panic : Panic) : Prop :=
  panic = .igetNoInodes ∨ panic = .iallocNoInodes ∨ panic = .dirlink ∨ panic = .initExiting ∨
    panic = .noProcess

/-- Inodes that the processes or `held` refer to. -/
def holders (ninodes : Nat) (proc : Nat → Option Proc) (held : List Nat) : Nat :=
  (List.range ninodes).countP fun inum => 0 < procRefs proc inum + held.count inum

/-- `iget` finds no free entry of the cache, when `extra` inodes are referred to besides
those of the processes and `held`. -/
def CacheFull (ninodes extra : Nat) (proc : Nat → Option Proc) (held : List Nat) (panic : Panic) :
    Prop :=
  panic = .igetNoInodes ∧ ninode ≤ holders ninodes proc held + extra

def SameNodes (state next : State) : Prop :=
  next.inode = state.inode ∧ next.proc = state.proc

/-- Giving back a reference to the inode does not free it. -/
def Steady (state : State) (inum : Nat) : Prop :=
  (state.inode inum).nlink ≠ 0 ∨ 0 < procRefs state.proc inum

/-- The entries of directories name allocated inodes, which are steady or the
directory itself. -/
structure Walkable (inode : Nat → Inode) : Prop where
  target : ∀ d, IsDir inode d → ∀ de ∈ (inode d).entries, de.inum ≠ 0 →
    Allocated inode de.inum ∧ (de.inum = d ∨ (inode de.inum).nlink ≠ 0)
  root : IsDir inode rootino ∧ (inode rootino).nlink ≠ 0

section References

variable {ninodes inum : Nat} {state next : State} {held : List Nat} {inode : Nat → Inode}

theorem SameNodes.trans {last : State} (first : SameNodes state next)
    (second : SameNodes next last) : SameNodes state last :=
  ⟨second.1.trans first.1, second.2.trans first.2⟩

theorem SameNodes.steady (same : SameNodes state next) (steady : Steady state inum) :
    Steady next inum := by
  rwa [Steady, same.1, same.2]

theorem Counted.perm {held' : List Nat} (counted : Counted state held) (perm : held.Perm held') :
    Counted state held' where
  refs inum := by rw [counted.refs, perm.count_eq]
  used := counted.used
  cwd := counted.cwd

theorem Counted.allocated (counted : Counted state held) (member : inum ∈ held) :
    Allocated state.inode inum := by
  apply counted.used
  rw [counted.refs]
  have := List.count_pos_iff.mpr member
  omega

variable {proc : Nat → Option Proc} {ip : Nat} {name : Name} {nameiparent : Bool}
  {path : List UInt8}

theorem procRefs_cwd {pid : Nat} {p : Proc} (bound : pid < nproc) (running : proc pid = some p) :
    0 < procRefs proc p.cwd := by
  have own : ((proc pid).elim 0 fun q => q.refs p.cwd) ≤ procRefs proc p.cwd :=
    Finset.single_le_sum (f := fun pid => (proc pid).elim 0 fun q => q.refs p.cwd)
      (fun _ _ => Nat.zero_le _) (Finset.mem_range.mpr bound)
  rw [running, Option.elim_some, Proc.refs, if_pos rfl] at own
  omega

theorem Counted.setCached {held' : List Nat} {cached : Cached} (counted : Counted state held)
    (allocated : Allocated state.inode inum)
    (ref : cached.ref = procRefs state.proc inum + held'.count inum)
    (others : ∀ other ≠ inum, held'.count other = held.count other) :
    Counted (state.setCached inum cached) held' where
  refs other := by
    by_cases same : other = inum
    · simp_all
    · rw [setCached_icache, update_of_ne same, counted.refs, others other same,
        setCached_proc]
  used other positive := by
    by_cases same : other = inum
    · rw [same]
      exact allocated
    · rw [setCached_icache, update_of_ne same] at positive
      exact counted.used other positive
  cwd := counted.cwd

theorem Counted.inUse_eq (counted : Counted state held) :
    state.inUse ninodes = holders ninodes state.proc held := by
  unfold State.inUse holders
  congr 1
  funext inum
  rw [counted.refs]

theorem countP_le_add_count {test wider : Nat → Bool} {value : Nat}
    (only : ∀ other, wider other = true → test other = true ∨ other = value) (list : List Nat) :
    list.countP wider ≤ list.countP test + list.count value := by
  induction list with
  | nil => exact Nat.zero_le _
  | cons first rest continues =>
    grind

theorem holders_cons_le (ninodes : Nat) (proc : Nat → Option Proc) (held : List Nat) (ip : Nat) :
    holders ninodes proc (ip :: held) ≤ holders ninodes proc held + 1 := by
  have once : (List.range ninodes).count ip ≤ 1 :=
    List.nodup_iff_count_le_one.mp List.nodup_range ip
  refine (countP_le_add_count (fun other holds => ?_) _).trans (Nat.add_le_add_left once _)
  by_cases same : other = ip
  · exact .inr same
  · grind

theorem CacheFull.exhausted {extra : Nat} (panic : Panic)
    (full : CacheFull ninodes extra proc held panic) : Exhausted panic :=
  .inl full.1

theorem CacheFull.of_cons (panic : Panic) (full : CacheFull ninodes 0 proc (ip :: held) panic) :
    CacheFull ninodes 1 proc held panic :=
  ⟨full.1, full.2.trans (holders_cons_le ninodes proc held ip)⟩

theorem iget_bounded (counted : Counted state held) (allocated : Allocated state.inode inum) :
    Meets (CacheFull ninodes 0 state.proc held) (iget ninodes inum state) fun next =>
      SameNodes state next ∧ Counted next (inum :: held) := by
  have refs := counted.refs inum
  have others : ∀ other ≠ inum, (inum :: held).count other = held.count other := fun _ notSame =>
    List.count_cons_of_ne notSame.symm
  unfold iget
  split
  · refine ⟨⟨rfl, rfl⟩, counted.setCached allocated ?_ others⟩
    rw [List.count_cons_self, refs, Nat.add_assoc]
  · split
    · rename_i full
      rw [counted.inUse_eq] at full
      exact ⟨rfl, full⟩
    · refine ⟨⟨rfl, rfl⟩, counted.setCached allocated ?_ others⟩
      dsimp only
      rw [List.count_cons_self]
      omega

theorem iget_meets (counted : Counted state held) (allocated : Allocated state.inode inum) :
    Meets Exhausted (iget ninodes inum state) fun next =>
      SameNodes state next ∧ Counted next (inum :: held) :=
  (iget_bounded counted allocated).allow CacheFull.exhausted

theorem idup_counted (counted : Counted state held) (allocated : Allocated state.inode inum) :
    SameNodes state (idup inum state) ∧ Counted (idup inum state) (inum :: held) := by
  refine ⟨⟨rfl, rfl⟩, counted.setCached allocated ?_ fun other notSame => ?_⟩
  · rw [List.count_cons_self, counted.refs, Nat.add_assoc]
  · rw [List.count_cons_of_ne notSame.symm]

theorem ilock_meets {allowed : Panic → Prop} (counted : Counted state held)
    (member : inum ∈ held) :
    Meets allowed (ilock inum state) fun next => SameNodes state next ∧ Counted next held := by
  have refs := counted.refs inum
  have positive := List.count_pos_iff.mpr member
  have allocated := counted.allocated member
  unfold ilock
  rw [if_neg (by omega)]
  split
  · exact ⟨⟨rfl, rfl⟩, counted⟩
  · rw [if_neg allocated]
    exact ⟨⟨rfl, rfl⟩, counted.setCached allocated refs fun _ _ => rfl⟩

theorem Counted.setInode {node : Inode} (counted : Counted state held)
    (unused : (state.icache inum).ref = 0 ∨ node.type ≠ .free ∧ (IsDir state.inode inum →
      node.type = .dir)) : Counted (state.setInode inum node) held where
  refs := counted.refs
  used other positive := by
    rw [Allocated, setInode_inode]
    by_cases same : other = inum
    · grind [update_self, setInode_icache]
    · rw [update_of_ne same]
      exact counted.used other positive
  cwd pid p running := by
    obtain ⟨bound, isDir⟩ := counted.cwd pid p running
    refine ⟨bound, ?_⟩
    rw [IsDir, setInode_inode]
    by_cases same : p.cwd = inum
    · rw [same, update_self]
      rcases unused with none | some
      · have referenced := procRefs_cwd bound running
        have refs := counted.refs inum
        rw [setInode_proc, same] at referenced
        omega
      · grind
    · rw [update_of_ne same]
      exact isDir

theorem Counted.of_nodes (counted : Counted state held) (sameCache : next.icache = state.icache)
    (sameProc : next.proc = state.proc)
    (allocated : ∀ inum, Allocated state.inode inum → Allocated next.inode inum)
    (dirs : ∀ d, IsDir state.inode d → IsDir next.inode d) : Counted next held where
  refs inum := by rw [sameCache, sameProc, counted.refs]
  used inum positive := by
    rw [sameCache] at positive
    exact allocated inum (counted.used inum positive)
  cwd pid p running := by
    rw [sameProc] at running
    exact ⟨(counted.cwd pid p running).1, dirs _ (counted.cwd pid p running).2⟩

/-- A reference is given back, and the inode stays or is freed. -/
theorem iput_cases (counted : Counted state (inum :: held)) :
    Counted (iput inum state) held ∧ (iput inum state).proc = state.proc ∧
      ((iput inum state).inode = state.inode ∨
        ¬ Steady state inum ∧ inum ∉ held ∧
          (iput inum state).inode = update state.inode inum
            { state.inode inum with type := .free, entries := [] }) := by
  have refs := counted.refs inum
  rw [List.count_cons_self] at refs
  have allocated := counted.allocated List.mem_cons_self
  have others : ∀ other ≠ inum, held.count other = (inum :: held).count other :=
    fun _ notSame => (List.count_cons_of_ne notSame.symm).symm
  by_cases last : (state.icache inum).valid = true ∧ (state.inode inum).nlink = 0 ∧
      (state.icache inum).ref = 1
  · have notHeld : inum ∉ held := List.count_eq_zero.mp (by omega)
    have dropped : Counted (state.setCached inum ⟨(state.icache inum).ref - 1, false⟩) held :=
      counted.setCached allocated (by dsimp only; omega) others
    have unused : ((state.setCached inum ⟨(state.icache inum).ref - 1, false⟩).icache inum).ref =
        0 := by
      rw [setCached_icache, update_self]
      dsimp only
      omega
    rw [iput, if_pos last]
    refine ⟨dropped.setInode (.inl unused), rfl, .inr ⟨?_, notHeld, rfl⟩⟩
    rintro (some | some)
    · exact some last.2.1
    · omega
  · rw [iput, if_neg last]
    refine ⟨counted.setCached allocated ?_ others, rfl, .inl rfl⟩
    dsimp only
    omega

theorem iput_steady (counted : Counted state (inum :: held))
    (steady : Steady state inum ∨ inum ∈ held) :
    SameNodes state (iput inum state) ∧ Counted (iput inum state) held := by
  obtain ⟨after, sameProc, same | ⟨notSteady, notHeld, _⟩⟩ := iput_cases counted
  · exact ⟨⟨same, sameProc⟩, after⟩
  · exact absurd steady (by rintro (isSteady | isHeld) <;> contradiction)

theorem iput_tree (tree : Tree ninodes state.inode) (counted : Counted state (inum :: held)) :
    Tree ninodes (iput inum state).inode ∧ Counted (iput inum state) held ∧
      (iput inum state).proc = state.proc := by
  obtain ⟨after, sameProc, same | ⟨notSteady, _, freed⟩⟩ := iput_cases counted
  · grind
  · refine ⟨?_, after, sameProc⟩
    have unlinked : (state.inode inum).nlink = 0 := by
      by_contra some
      exact notSteady (.inl some)
    rw [freed]
    refine tree.free unlinked (fun d notSame => update_of_ne notSame ..) ?_
    rw [update_self]

/-! ## Lookup -/

theorem scan_eq_some {entries : List Dirent} {base off : Nat}
    (found : scan name base entries = some (inum, off)) :
    inum ≠ 0 ∧ base ≤ off ∧ entries[off - base]? = some ⟨inum, name⟩ := by
  induction entries generalizing base with
  | nil => cases found
  | cons de rest ih =>
    have later : scan name (base + 1) rest = some (inum, off) →
        inum ≠ 0 ∧ base ≤ off ∧ (de :: rest)[off - base]? = some ⟨inum, name⟩ := by
      intro behind
      obtain ⟨used, start, same⟩ := ih behind
      refine ⟨used, by omega, ?_⟩
      rw [show off - base = off - (base + 1) + 1 by omega, List.getElem?_cons_succ]
      exact same
    rw [scan] at found
    split at found
    · exact later found
    · rename_i used
      split at found
      · rename_i matching
        cases found
        subst matching
        exact ⟨used, le_rfl, by simp⟩
      · exact later found

theorem scan_eq_none {entries : List Dirent} {base : Nat} {de : Dirent}
    (missing : scan name base entries = none) (member : de ∈ entries) (used : de.inum ≠ 0) :
    de.name ≠ name := by
  induction entries generalizing base with
  | nil => cases member
  | cons first rest ih =>
    rw [scan] at missing
    split at missing
    · grind
    · grind

def walk (inode : Nat → Inode) (nameiparent : Bool) : Nat → Nat → List UInt8 → Option (Nat × Name)
  | 0, ip, _ => if nameiparent then none else some (ip, [])
  | fuel + 1, ip, path =>
    match skipelem path with
    | none => if nameiparent then none else some (ip, [])
    | some (name, path) =>
      if (inode ip).type ≠ .dir then none
      else if nameiparent = true ∧ path = [] then some (ip, name)
      else
        match scan name 0 (inode ip).entries with
        | none => none
        | some (next, _) => walk inode nameiparent fuel next path

/-- The inode that a path names from a current directory, or the directory of its
last element and that element. -/
def resolve (inode : Nat → Inode) (nameiparent : Bool) (cwd : Nat) (path : List UInt8) :
    Option (Nat × Name) :=
  walk inode nameiparent (path.length + 1) (if path.head? = some slash then rootino else cwd) path

theorem walk_congr {other : Nat → Inode} (types : ∀ d, (other d).type = (inode d).type)
    (entries : ∀ d, (other d).entries = (inode d).entries) (nameiparent : Bool) (fuel ip : Nat)
    (path : List UInt8) :
    walk other nameiparent fuel ip path = walk inode nameiparent fuel ip path := by
  induction fuel generalizing ip path with
  | zero => rfl
  | succ fuel ih => simp only [walk, types, entries, ih]

theorem dirlookup_bounded {dp : Nat} (walkable : Walkable state.inode)
    (counted : Counted state held) (isDir : IsDir state.inode dp) :
    Meets (CacheFull ninodes 0 state.proc held) (dirlookup ninodes dp name state) fun result =>
      SameNodes state result.2 ∧ result.1 = scan name 0 (state.inode dp).entries ∧
        Counted result.2 ((result.1.map Prod.fst).toList ++ held) := by
  rw [dirlookup, if_neg (fun notDir => notDir isDir)]
  cases found : scan name 0 (state.inode dp).entries with
  | none => exact ⟨⟨rfl, rfl⟩, rfl, counted⟩
  | some pair =>
    obtain ⟨inum, off⟩ := pair
    obtain ⟨used, _, same⟩ := scan_eq_some found
    have allocated := (walkable.target dp isDir _ (List.mem_of_getElem? same) used).1
    apply (iget_bounded counted allocated).bind
    rintro next ⟨sameNodes, after⟩
    exact ⟨sameNodes, rfl, after⟩

theorem dirlookup_meets {dp : Nat} (walkable : Walkable state.inode)
    (counted : Counted state held) (isDir : IsDir state.inode dp) :
    Meets Exhausted (dirlookup ninodes dp name state) fun result =>
      SameNodes state result.2 ∧ result.1 = scan name 0 (state.inode dp).entries ∧
        Counted result.2 ((result.1.map Prod.fst).toList ++ held) :=
  (dirlookup_bounded walkable counted isDir).allow CacheFull.exhausted

/-- What `namex` returns: nothing, or an inode that it leaves referenced. -/
structure Resolved (state : State) (held : List Nat) (nameiparent : Bool)
    (expected : Option (Nat × Name)) (result : Option (Nat × Name) × State) : Prop where
  same : SameNodes state result.2
  found : result.1 = expected
  counted : Counted result.2 ((result.1.map Prod.fst).toList ++ held)
  steady : ∀ ip name, result.1 = some (ip, name) → Steady state ip
  isDir : ∀ ip name, nameiparent = true → result.1 = some (ip, name) → IsDir state.inode ip

theorem Resolved.of_same {expected : Option (Nat × Name)} {result : Option (Nat × Name) × State}
    (same : SameNodes state next) (resolved : Resolved next held nameiparent expected result) :
    Resolved state held nameiparent expected result where
  same := same.trans resolved.same
  found := resolved.found
  counted := resolved.counted
  steady ip name isFound := by
    have steady := resolved.steady ip name isFound
    rwa [Steady, same.1, same.2] at steady
  isDir ip name parent isFound := by
    have isDir := resolved.isDir ip name parent isFound
    rwa [same.1] at isDir

theorem iput_resolved (counted : Counted state (ip :: held)) (steady : Steady state ip) :
    Resolved state held nameiparent none (none, iput ip state) := by
  obtain ⟨same, after⟩ := iput_steady counted (.inl steady)
  exact ⟨same, rfl, after, by simp, by simp⟩

theorem namexEnd_resolved (counted : Counted state (ip :: held)) (steady : Steady state ip) :
    Resolved state held nameiparent (if nameiparent then none else some (ip, []))
      (namexEnd nameiparent ip state) := by
  cases nameiparent with
  | false =>
    refine ⟨⟨rfl, rfl⟩, rfl, counted, ?_, by simp⟩
    rintro _ _ ⟨⟩
    exact steady
  | true => exact iput_resolved counted steady

theorem namexLoop_bounded {fuel : Nat} (walkable : Walkable state.inode)
    (counted : Counted state (ip :: held)) (steady : Steady state ip) :
    Meets (CacheFull ninodes 1 state.proc held) (namexLoop ninodes nameiparent fuel ip path state)
      (Resolved state held nameiparent (walk state.inode nameiparent fuel ip path)) := by
  induction fuel generalizing ip path state with
  | zero => exact namexEnd_resolved counted steady
  | succ fuel ih =>
    rw [namexLoop, walk]
    cases element : skipelem path with
    | none => exact namexEnd_resolved counted steady
    | some pair =>
      obtain ⟨name, path⟩ := pair
      apply (ilock_meets counted List.mem_cons_self).bind
      rintro locked ⟨sameLocked, countedLocked⟩
      have steadyLocked := sameLocked.steady steady
      dsimp only
      rw [← sameLocked.1] at walkable ⊢
      by_cases isDir : (locked.inode ip).type = .dir
      · rw [if_neg (not_not.mpr isDir), if_neg (not_not.mpr isDir)]
        by_cases last : nameiparent = true ∧ path = []
        · rw [if_pos last, if_pos last]
          refine Resolved.of_same sameLocked ⟨⟨rfl, rfl⟩, rfl, countedLocked, ?_, ?_⟩
          · grind
          · rintro _ _ _ ⟨⟩
            exact isDir
        · rw [if_neg last, if_neg last]
          rw [← sameLocked.2]
          apply ((dirlookup_bounded walkable countedLocked isDir).allow CacheFull.of_cons).bind
          rintro ⟨found, looked⟩ ⟨sameLooked, isScan, countedLooked⟩
          have sameBoth := sameLocked.trans sameLooked
          have steadyLooked := sameLooked.steady steadyLocked
          rw [← isScan]
          cases found with
          | none => exact (iput_resolved countedLooked steadyLooked).of_same sameBoth
          | some pair =>
            obtain ⟨next, off⟩ := pair
            obtain ⟨used, _, entry⟩ := scan_eq_some isScan.symm
            have target := walkable.target ip isDir _ (List.mem_of_getElem? entry) used
            have steadyNext : Steady looked next := by
              apply sameLooked.steady
              rcases target.2 with self | links
              · grind
              · exact .inl links
            obtain ⟨samePut, countedPut⟩ :=
              iput_steady (countedLooked.perm (.swap ..)) (.inl steadyLooked)
            have sameAll := sameLooked.trans samePut
            have rest := @ih (iput ip looked) next path (by rw [sameAll.1]; exact walkable)
              countedPut (samePut.steady steadyNext)
            rw [sameAll.1, sameAll.2] at rest
            exact rest.mono fun _ resolved => resolved.of_same (sameLocked.trans sameAll)
      · rw [if_pos isDir, if_pos isDir]
        exact (iput_resolved countedLocked steadyLocked).of_same sameLocked

/-- `namex` finds what the path names and leaves it referenced. -/
theorem namex_bounded {cwd : Nat} (walkable : Walkable state.inode) (counted : Counted state held)
    (inUse : 0 < procRefs state.proc cwd) :
    Meets (CacheFull ninodes 1 state.proc held) (namex ninodes nameiparent cwd path state)
      (Resolved state held nameiparent (resolve state.inode nameiparent cwd path)) := by
  rw [namex, resolve]
  by_cases absolute : path.head? = some slash
  · rw [if_pos absolute, if_pos absolute]
    have full : ∀ panic, CacheFull ninodes 0 state.proc held panic →
        CacheFull ninodes 1 state.proc held panic := fun panic full => ⟨full.1, by
      have := full.2
      omega⟩
    apply ((iget_bounded counted walkable.root.1.allocated).allow full).bind
    rintro next ⟨same, after⟩
    rw [← same.2]
    rw [← same.1] at walkable ⊢
    exact (namexLoop_bounded walkable after (.inl walkable.root.2)).mono
      fun _ resolved => resolved.of_same same
  · rw [if_neg absolute, if_neg absolute]
    have allocated : Allocated state.inode cwd := by
      apply counted.used
      rw [counted.refs]
      omega
    obtain ⟨same, after⟩ := idup_counted counted allocated
    rw [← same.1] at walkable ⊢
    exact (namexLoop_bounded walkable after (.inr inUse)).mono fun _ resolved =>
      resolved.of_same same

theorem namex_meets {cwd : Nat} (walkable : Walkable state.inode) (counted : Counted state held)
    (inUse : 0 < procRefs state.proc cwd) :
    Meets Exhausted (namex ninodes nameiparent cwd path state)
      (Resolved state held nameiparent (resolve state.inode nameiparent cwd path)) :=
  (namex_bounded walkable counted inUse).allow CacheFull.exhausted

theorem Tree.walkable (tree : Tree ninodes inode) : Walkable inode where
  target d isDir de member used := by
    have dots := tree.dots d isDir
    rw [dots.entries] at member
    rcases List.mem_cons.mp member with rfl | member
    · exact ⟨isDir.allocated, .inl rfl⟩
    · rcases List.mem_cons.mp member with rfl | member
      · have linked := tree.parent d isDir
        exact ⟨linked.1.allocated, .inr (by have := linked.2; dsimp only; omega)⟩
      · have allocated := tree.target d isDir de member used
        have := tree.nlink_pos isDir allocated (lists_pos member)
        exact ⟨allocated, .inr (by omega)⟩
  root := by
    have := tree.root.2
    exact ⟨tree.root.1, by omega⟩

end References

end Dirs

end Xv6
