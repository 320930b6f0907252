import Xv6.FileReferences

/-!
# Exact reference counts between system calls

Every system call, whether it succeeds or leaves at one of its error exits, gives
back what it took.  So after every sequence of completed calls the counts of the
file table and of the inode cache are those of the references in the tables.
-/

namespace Xv6

namespace FileRefs

open Answered
open Dirs (ninode nfile nofile nproc dot dotdot creates)
open Fs (FileType)
open LabelledRun
open Socket (firstIndex firstIndex_eq_some firstIndex_eq_none_iff)

/-! ## Calls on paths -/

section Paths

variable {p : Fin nproc} {state : State} {inodes : Fin ninode → Int} {files : Fin nfile → Int}
  {ip dp : Fin ninode}

theorem yields_createDots (held : Held p state inodes files) (type : FileType) :
    Yields (createDots type ip) state fun _ next => Held p next inodes files := by
  refine yields_ite (fun _ => ?_) fun _ => yields_pure held
  refine (yields_dirlink held ip).bind fun _ next after => ?_
  refine yields_ite (fun _ => ?_) fun _ => yields_stop
  refine (yields_dirlink after ip).bind fun _ last ended => ?_
  exact yields_ite (fun _ => yields_pure ended) fun _ => yields_stop

theorem yields_createNew (held : Held p state (inodes + one dp) files) (type : FileType) :
    Yields (createNew dp type) state fun found next =>
      Held p next (inodes + one? found) files := by
  refine yields_get_bind ((yields_ialloc held _).bind fun ip next allocated => ?_)
  refine yields_checkRef_bind ((yields_createDots allocated type).bind fun _ next dots => ?_)
  refine (yields_dirlink dots dp).bind fun _ next linked => ?_
  refine yields_ite (fun _ => ?_) fun _ => yields_stop
  rw [add_right_comm] at linked
  refine yields_iunlockput_pure linked fun last ended => ?_
  rwa [one?_some]

theorem yields_create (held : Held p state 0 0) (path : List UInt8) (type : FileType) :
    Yields (create p path type) state fun found next => Held p next (0 + one? found) 0 := by
  have failed : ∀ next, Held p next 0 0 → Held p next (0 + one? none) 0 := by
    intro next after
    rwa [one?_none, add_zero]
  refine yields_namex_bind held (fun _ => le_rfl) (fun _ after => yields_pure (failed _ after)) ?_
  intro dp name next parent
  refine yields_checkRef_bind (yields_found_bind (yields_dirlookup parent dp) ?_ ?_)
  · exact fun next absent => yields_createNew absent type
  · intro ip next found
    rw [add_right_comm] at found
    refine (yields_iunlockput found).bind fun _ next unlocked => ?_
    refine yields_checkRef_bind (yields_asks_bind fun _ => yields_ite (fun _ => ?_) fun _ => ?_)
    · rw [← one?_some] at unlocked
      exact yields_pure unlocked
    · exact yields_iunlockput_pure unlocked failed

theorem yields_openFile (held : Held p state (inodes + one ip) files) :
    Yields (openFile p ip) state fun _ next => Held p next inodes files := by
  refine (yields_filealloc held).bind ?_
  rintro (- | f) next ⟨allocated, fresh, -⟩
  · rw [one?_none, add_zero] at allocated
    exact yields_iunlockput_pure allocated fun _ => id
  · rw [one?_some] at allocated
    refine yields_fdalloc_bind allocated ?_ ?_
    · refine (yields_fileclose allocated).bind fun _ last closed => ?_
      exact yields_iunlockput_pure closed.1 fun _ => id
    · intro fd last placed _ same
      rw [add_sub_cancel_right] at placed
      obtain ⟨used, untyped⟩ := fresh f rfl
      rw [← same] at used untyped
      refine yields_checkRef_bind (yields_modify_bind (yields_pure (placed.setFile ?_ ?_ ?_ ?_)))
      · exact fun zero => absurd zero used.ne'
      · intro other
        simp [File.refersTo, File.setTarget, used, untyped, one, eq_comm]
      · simp [File.setTarget]
      · exact fun _ _ => rfl

theorem yields_sysOpen (held : Held p state 0 0) (path : List UInt8) (omode : BitVec 32) :
    Yields (sysOpen p path omode) state fun _ next => Held p next 0 0 := by
  refine yields_asks_bind fun _ => yields_ite (fun _ => yields_pure held) fun _ => ?_
  refine yields_ite (fun _ => ?_) fun _ => ?_
  · exact yields_found_bind (yields_create held path .file) (fun _ after => yields_pure after)
      fun ip next created => yields_openFile created
  · refine yields_namex_bind held (fun _ => le_rfl) (fun _ after => yields_pure after) ?_
    intro ip name next found
    refine yields_checkRef_bind (yields_asks_bind fun _ => ?_)
    exact yields_ite (fun _ => yields_iunlockput_pure found fun _ => id)
      fun _ => yields_openFile found

theorem yields_makeNode (held : Held p state 0 0) (path : List UInt8) (type : FileType) :
    Yields (makeNode p path type) state fun _ next => Held p next 0 0 := by
  refine yields_asks_bind fun _ => yields_ite (fun _ => yields_pure held) fun _ => ?_
  exact yields_found_bind (yields_create held path type) (fun _ after => yields_pure after)
    fun ip next created => yields_iunlockput_pure created fun _ => id

theorem yields_linkBad (held : Held p state (inodes + one ip) files) :
    Yields (linkBad ip) state fun _ next => Held p next inodes files :=
  yields_checkRef_bind (yields_iunlockput_pure held fun _ => id)

theorem yields_sysLink (held : Held p state 0 0) (old new : List UInt8) :
    Yields (sysLink p old new) state fun _ next => Held p next 0 0 := by
  refine yields_asks_bind fun _ => yields_ite (fun _ => yields_pure held) fun _ => ?_
  refine yields_namex_bind held (fun _ => le_rfl) (fun _ after => yields_pure after) ?_
  intro ip name next found
  refine yields_checkRef_bind (yields_asks_bind fun _ => ?_)
  refine yields_ite (fun _ => yields_iunlockput_pure found fun _ => id) fun _ => ?_
  refine yields_checkRef_bind ?_
  refine yields_namex_bind found (zero_add_one_nonneg ip) (fun _ => yields_linkBad) ?_
  intro dp name next parent
  have unlinked : ∀ {state}, Held p state (0 + one ip + one dp) 0 →
      Yields (iunlockput dp >>= fun _ => linkBad ip) state fun _ next => Held p next 0 0 :=
    fun held => (yields_iunlockput held).bind fun _ _ => yields_linkBad
  refine yields_checkRef_bind (yields_get_bind ?_)
  refine yields_ite (fun _ => unlinked parent) fun _ => ?_
  refine (yields_dirlink parent dp).bind fun _ next linked => ?_
  refine yields_ite (fun _ => ?_) fun _ => unlinked linked
  refine (yields_iunlockput linked).bind fun _ next unlocked => ?_
  exact (yields_iput unlocked).bind fun _ last ended => yields_pure ended.1

theorem yields_sysUnlink (held : Held p state 0 0) (path : List UInt8) :
    Yields (sysUnlink p path) state fun _ next => Held p next 0 0 := by
  refine yields_asks_bind fun _ => yields_ite (fun _ => yields_pure held) fun _ => ?_
  refine yields_namex_bind held (fun _ => le_rfl) (fun _ after => yields_pure after) ?_
  intro dp name next parent
  refine yields_checkRef_bind ?_
  refine yields_ite (fun _ => yields_iunlockput_pure parent fun _ => id) fun _ => ?_
  refine yields_found_bind (yields_dirlookup parent dp) ?_ ?_
  · exact fun next absent => yields_iunlockput_pure absent fun _ => id
  · intro ip next found
    refine yields_checkRef_bind (yields_asks_bind fun _ => yields_ite (fun _ => ?_) fun _ => ?_)
    · refine (yields_iunlockput found).bind fun _ next unlocked => ?_
      exact yields_iunlockput_pure unlocked fun _ => id
    · rw [add_right_comm] at found
      refine (yields_iunlockput found).bind fun _ next unlocked => ?_
      exact yields_iunlockput_pure unlocked fun _ => id

theorem yields_sysChdir (held : Held p state 0 0) (path : List UInt8) :
    Yields (sysChdir p path) state fun _ next => Held p next 0 0 := by
  refine yields_asks_bind fun _ => yields_ite (fun _ => yields_pure held) fun _ => ?_
  refine yields_namex_bind held (fun _ => le_rfl) (fun _ after => yields_pure after) ?_
  intro ip name next found
  refine yields_checkRef_bind (yields_asks_bind fun _ => ?_)
  refine yields_ite (fun _ => yields_iunlockput_pure found fun _ => id) fun _ => ?_
  refine yields_checkRef_bind ?_
  refine yields_curdir_bind found (zero_add_one_nonneg ip) fun cwd isCwd _ => ?_
  -- the old directory is given back while the process still refers to it
  rw [← sub_add_cancel (0 + one ip) (one cwd)] at found
  refine (yields_iput found).bind fun _ last released => ?_
  refine yields_modify_bind (yields_pure (released.1.setCwd ?_ ?_))
  · simp [released.1.alive]
  · intro other
    simp [released.2, isCwd, one?_some]

theorem yields_loadSegments_bind {α : Type} {rest : Bool → Code α} {goal : α → State → Prop}
    (continues : ∀ loaded, Yields (rest loaded) state goal) (count : Nat) :
    Yields (loadSegments count >>= rest) state goal := by
  refine yields_bind ?_
  induction count with
  | zero => exact yields_pure (continues true)
  | succ count ih =>
    have failed : Yields (pure false) state fun value next => Yields (rest value) next goal :=
      yields_pure (continues false)
    refine yields_asks_bind fun _ => yields_ite (fun _ => failed) fun _ => ?_
    refine yields_asks_bind fun _ => yields_ite (fun _ => ih) fun _ => ?_
    exact yields_asksAny_bind (fun _ => yields_ite (fun _ => failed) fun _ => ih) 5

theorem yields_sysExec (held : Held p state 0 0) (path : List UInt8) :
    Yields (sysExec p path) state fun _ next => Held p next 0 0 := by
  refine yields_asks_bind fun _ => yields_ite (fun _ => yields_pure held) fun _ => ?_
  refine yields_namex_bind held (fun _ => le_rfl) (fun _ after => yields_pure after) ?_
  intro ip name next found
  refine yields_checkRef_bind (yields_asksAny_bind (fun _ => ?_) 3)
  refine yields_ite (fun _ => ?_) fun _ => ?_
  · exact yields_iunlockput_pure found fun _ => id
  · refine yields_answer_bind fun phnum => yields_loadSegments_bind (fun _ => ?_) phnum
    refine yields_ite (fun _ => ?_) fun _ => yields_iunlockput_pure found fun _ => id
    refine (yields_iunlockput found).bind fun _ last unlocked => ?_
    exact yields_asks_bind fun _ => yields_pure unlocked

end Paths

/-! ## Calls on descriptors -/

section Descriptors

variable {p : Fin nproc} {state : State} {inodes : Fin ninode → Int} {files : Fin nfile → Int}
  {f : Fin nfile}

theorem yields_sysDup (held : Held p state 0 0) (fd : Int) :
    Yields (sysDup p fd) state fun _ next => Held p next 0 0 := by
  refine yields_argfd_bind (yields_pure held) fun fd f _ => ?_
  refine yields_fdalloc_bind held (yields_pure held) fun other next placed _ _ => ?_
  refine (yields_filedup placed).bind fun _ last counted => yields_pure ?_
  rw [sub_add_cancel] at counted
  exact counted.1

theorem yields_sysClose (held : Held p state 0 0) (fd : Int) :
    Yields (sysClose p fd) state fun _ next => Held p next 0 0 := by
  refine yields_argfd_bind (yields_pure held) fun fd f points => yields_modify_bind ?_
  have removed : Held p (state.onProc p (.setOfile · fd none)) 0 (0 + one f) := by
    refine held.setOfile ?_ ?_
    · simp [held.alive]
    · intro other
      simp [points, one?_some, one?_none]
  exact (yields_fileclose removed).bind fun _ next closed => yields_pure closed.1

theorem Held.setPipe (held : Held p state inodes files) (used : 0 < (state.file f).ref)
    (untyped : ∀ ip, (state.file f).target ≠ .inode ip) :
    Held p (state.onFile f (.setTarget · .pipe)) inodes files := by
  refine held.setFile ?_ ?_ ?_ fun _ _ => rfl
  · exact fun zero => absurd zero used.ne'
  · intro ip
    simp [File.refersTo, File.setTarget, untyped]
  · simp [File.setTarget]

theorem yields_pipealloc (held : Held p state 0 0) :
    Yields pipealloc state fun found next => Held p next 0
      (found.elim 0 fun ends => 0 + one ends.1 + one ends.2) := by
  refine (yields_filealloc held).bind ?_
  rintro (- | f0) next ⟨first, fresh, -⟩
  · exact yields_pure first
  · rw [one?_some] at first
    refine (yields_filealloc first).bind ?_
    rintro (- | f1) next ⟨second, secondFresh, kept⟩
    · rw [one?_none, add_zero] at second
      exact (yields_fileclose second).bind fun _ next closed => yields_pure closed.1
    · rw [one?_some] at second
      refine yields_asks_bind fun _ => yields_ite (fun _ => ?_) fun _ => ?_
      · rw [add_right_comm] at second
        refine (yields_fileclose second).bind fun _ next closed => ?_
        exact (yields_fileclose closed.1).bind fun _ next closed => yields_pure closed.1
      · have firstFresh := kept f0 (fresh f0 rfl)
        have otherFresh := secondFresh f1 rfl
        have typed := second.setPipe firstFresh.used fun ip => by simp [firstFresh.target]
        refine yields_modify_bind (yields_modify_bind (yields_pure (typed.setPipe ?_ ?_)))
        · have used := otherFresh.used
          grind
        · have target := otherFresh.target
          grind

theorem yields_sysPipe (held : Held p state 0 0) :
    Yields (sysPipe p) state fun _ next => Held p next 0 0 := by
  refine yields_asks_bind fun _ => yields_ite (fun _ => yields_pure held) fun _ => ?_
  refine (yields_pipealloc held).bind ?_
  rintro (- | ⟨rf, wf⟩) next allocated
  · exact yields_pure allocated
  · rw [Option.elim_some, add_right_comm] at allocated
    have closeBoth : ∀ {state}, Held p state 0 (0 + one wf + one rf) →
        Yields (do fileclose rf; fileclose wf; pure false) state fun _ next => Held p next 0 0 := by
      intro state held
      refine (yields_fileclose held).bind fun _ next closed => ?_
      exact (yields_fileclose closed.1).bind fun _ next closed => yields_pure closed.1
    refine yields_fdalloc_bind allocated (closeBoth allocated) fun fd0 next first points _ => ?_
    rw [add_sub_cancel_right] at first
    refine yields_fdalloc_bind first ?_ fun fd1 last second _ _ => yields_pure ?_
    · refine yields_modify_bind (closeBoth (first.setOfile ?_ ?_))
      · simp [first.alive]
      · intro other
        simp [points, one?_some, one?_none]
    · rwa [add_sub_cancel_right] at second

end Descriptors

/-! ## Calls on processes -/

section Processes

variable {p np : Fin nproc} {state next : State} {inodes : Fin ninode → Int}
  {files : Fin nfile → Int}

theorem Counted.rearrange (counted : Counted state inodes files)
    (sameInode : next.inode = state.inode) (sameFile : next.file = state.file)
    (sameOfile : ∀ q, (next.proc q).ofile = (state.proc q).ofile)
    (sameCwd : ∀ q, (next.proc q).cwd = (state.proc q).cwd)
    (idle : ∀ q, (next.proc q).state = .unused ∨ (next.proc q).state = .zombie →
      (∀ fd, (state.proc q).ofile fd = none) ∧ (state.proc q).cwd = none) :
    Counted next inodes files where
  file f := by
    have same : next.descriptors f = state.descriptors f := by
      simp only [State.descriptors, sameOfile]
    rw [same, sameFile]
    exact counted.file f
  inode ip := by
    have opened : next.opened ip = state.opened ip := by
      simp only [State.opened, sameFile]
    have directories : next.directories ip = state.directories ip := by
      simp only [State.directories, sameCwd]
    rw [opened, directories, sameInode]
    exact counted.inode ip
  unique := by
    rw [sameInode]
    exact counted.unique
  free := by
    rw [sameFile]
    exact counted.free
  idle q := by
    rw [sameOfile, sameCwd]
    exact idle q

theorem Counted.setProc (counted : Counted state inodes files) {proc : Proc}
    (sameOfile : proc.ofile = (state.proc np).ofile) (sameCwd : proc.cwd = (state.proc np).cwd)
    (idle : proc.state = .unused ∨ proc.state = .zombie →
      (∀ fd, proc.ofile fd = none) ∧ proc.cwd = none) :
    Counted (state.setProc np proc) inodes files := by
  rw [sameOfile, sameCwd] at idle
  refine counted.rearrange rfl rfl ?_ ?_ fun q => ?_
  · grind
  · grind
  · rw [proc_setProc]
    split
    case isTrue same => exact same ▸ idle
    case isFalse => exact counted.idle q

theorem Held.setProc (held : Held p state inodes files) {proc : Proc} (different : p ≠ np)
    (sameOfile : proc.ofile = (state.proc np).ofile) (sameCwd : proc.cwd = (state.proc np).cwd)
    (idle : proc.state = .unused ∨ proc.state = .zombie →
      (∀ fd, proc.ofile fd = none) ∧ proc.cwd = none) :
    Held p (state.setProc np proc) inodes files := by
  refine ⟨held.toCounted.setProc sameOfile sameCwd idle, ?_⟩
  rw [proc_setProc, if_neg different]
  exact held.alive

theorem exists_proc_abandon (state : State) (p q : Fin nproc) :
    ∃ parent, (state.abandon p).proc q = (state.proc q).setParent parent := by
  by_cases child : (state.proc q).parent = some p
  · exact ⟨_, if_pos child⟩
  · exact ⟨_, if_neg child⟩

theorem Counted.abandon (counted : Counted state inodes files) (p : Fin nproc) :
    Counted (state.abandon p) inodes files := by
  refine counted.rearrange rfl rfl (fun q => ?_) (fun q => ?_) fun q => ?_
  all_goals
    obtain ⟨parent, same⟩ := exists_proc_abandon state p q
    rw [same]
  · rfl
  · rfl
  · exact counted.idle q

/-- A child that gets its descriptors from its parent. -/
structure Forking (p np : Fin nproc) (state : State) (fds : List (Fin nofile)) : Prop where
  held : Held p state 0 0
  embryo : (state.proc np).state = .embryo
  noCwd : (state.proc np).cwd = none
  closed : ∀ fd ∈ fds, (state.proc np).ofile fd = none

theorem yields_forkFiles {fds : List (Fin nofile)} (nodup : fds.Nodup)
    (forking : Forking p np state fds) :
    Yields (forkFiles p np fds) state fun _ next => Forking p np next [] := by
  induction fds generalizing state with
  | nil => exact yields_pure forking
  | cons fd fds ih =>
    obtain ⟨notMem, nodup⟩ := List.nodup_cons.mp nodup
    refine Yields.bind ?_ fun _ next => ih nodup
    refine yields_get_bind ?_
    cases points : (state.proc p).ofile fd with
    | none =>
      exact yields_pure { forking with
        closed := fun other member => forking.closed other (List.mem_cons_of_mem fd member) }
    | some f =>
      refine (yields_filedup forking.held).bind fun _ next counted => yields_modify ?_
      obtain ⟨held, same⟩ := counted
      have embryo := forking.embryo
      have noCwd := forking.noCwd
      have closed := forking.closed
      rw [← same] at embryo noCwd closed
      refine ⟨held.setOfile ?_ ?_, ?_, ?_, ?_⟩
      · simp [embryo]
      · intro other
        simp [closed fd List.mem_cons_self, one?_some, one?_none]
      all_goals rw [proc_onProc_self]
      · exact embryo
      · exact noCwd
      · grind [ofile_setOfile]

theorem yields_sysFork (held : Held p state 0 0) :
    Yields (sysFork p) state fun _ next => Held p next 0 0 := by
  refine yields_get_bind ?_
  cases found : firstIndex fun q => decide ((state.proc q).state = .unused) with
  | none => exact yields_pure held
  | some np =>
    have unused : (state.proc np).state = .unused := of_decide_eq_true (firstIndex_eq_some found)
    obtain ⟨noFiles, noCwd⟩ := held.idle np (.inl unused)
    have different : p ≠ np := by
      rintro rfl
      rw [held.alive] at unused
      cases unused
    have begun : Held p (state.onProc np (.setState · .embryo)) 0 0 :=
      held.setProc different rfl rfl fun idle => by simp [Proc.setState] at idle
    refine yields_modify_bind (yields_asksAny_bind (fun _ => ?_) 2)
    refine yields_ite (fun _ => ?_) fun _ => ?_
    · refine yields_modify_bind (yields_pure (begun.setProc different rfl rfl fun _ => ?_))
      rw [proc_onProc_self]
      exact ⟨noFiles, noCwd⟩
    · have forking : Forking p np ((state.onProc np (.setState · .embryo)).onProc np
          (.setParent · (some p))) (List.finRange nofile) := by
        refine ⟨begun.setProc different rfl rfl ?_, ?_, ?_, ?_⟩
        · rw [proc_onProc_self]
          exact fun idle => by simp [Proc.setState, Proc.setParent] at idle
        all_goals rw [proc_onProc_self, proc_onProc_self]
        · rfl
        · exact noCwd
        · exact fun fd _ => noFiles fd
      refine yields_modify_bind ((yields_forkFiles (List.nodup_finRange nofile) forking).bind ?_)
      rintro ⟨⟩ next ⟨held, embryo, noCwd, -⟩
      refine yields_curdir_bind held (fun _ => le_rfl) fun cwd _ used => ?_
      refine (yields_idup held used).bind fun _ next counted => ?_
      obtain ⟨held, same⟩ := counted
      rw [← same] at embryo noCwd
      have placed : Held p (next.onProc np (.setCwd · (some cwd))) 0 0 := by
        refine held.setCwd (by simp [embryo]) fun other => ?_
        simp [noCwd, one?_some, one?_none]
      refine yields_modify_bind (yields_modify_bind (yields_pure ?_))
      refine placed.setProc different rfl rfl fun idle => ?_
      simp [Proc.setState] at idle

theorem yields_closeFiles (fds : List (Fin nofile)) (held : Held p state 0 0) :
    Yields (closeFiles p fds) state fun _ next => Held p next 0 0 ∧
      ∀ fd, fd ∈ fds ∨ (state.proc p).ofile fd = none → (next.proc p).ofile fd = none := by
  induction fds generalizing state with
  | nil => exact yields_pure ⟨held, fun fd closed => closed.resolve_left List.not_mem_nil⟩
  | cons fd fds ih =>
    have first : Yields (closeFile p fd) state fun _ next => Held p next 0 0 ∧
        ∀ other, other = fd ∨ (state.proc p).ofile other = none →
          (next.proc p).ofile other = none := by
      refine yields_get_bind ?_
      cases points : (state.proc p).ofile fd with
      | none => exact yields_pure ⟨held, fun other closed => by grind⟩
      | some f =>
        -- the file is given back while the descriptor still refers to it
        have before : Held p state 0 (-one f + one f) := by rwa [neg_add_cancel]
        refine (yields_fileclose before).bind fun _ next closed => yields_modify ⟨?_, ?_⟩
        · refine closed.1.setOfile (by simp [closed.1.alive]) fun other => ?_
          simp [closed.2, points, one?_some, one?_none]
        · intro other
          rw [proc_onProc_self, ofile_setOfile, closed.2]
          grind
    refine first.bind fun _ next after => (ih after.1).mono fun _ last ended => ⟨ended.1, ?_⟩
    rintro other closed
    refine ended.2 other ?_
    rcases closed with member | closed
    · grind
    · exact .inr (after.2 other (.inr closed))

theorem yields_sysExit (held : Held p state 0 0) :
    Yields (sysExit p) state fun _ next => Counted next 0 0 := by
  refine yields_get_bind (yields_ite (fun _ => yields_stop) fun _ => ?_)
  refine (yields_closeFiles _ held).bind fun _ next closed => ?_
  obtain ⟨held, closed⟩ := closed
  refine yields_curdir_bind held (fun _ => le_rfl) fun cwd isCwd _ => ?_
  have before : Held p next (-one cwd + one cwd) 0 := by rwa [neg_add_cancel]
  refine (yields_iput before).bind fun _ next released => ?_
  obtain ⟨held, same⟩ := released
  rw [← same] at isCwd closed
  have left : Held p (next.onProc p (.setCwd · none)) 0 0 := by
    refine held.setCwd (by simp [held.alive]) fun other => ?_
    simp [isCwd, one?_some, one?_none]
  refine yields_modify_bind (yields_modify_bind (yields_modify_bind (yields_pure ?_)))
  refine (left.toCounted.abandon p).setProc rfl rfl fun _ => ?_
  obtain ⟨parent, adopted⟩ := exists_proc_abandon (next.onProc p (.setCwd · none)) p p
  rw [adopted, proc_onProc_self]
  exact ⟨fun fd => closed fd (.inl (List.mem_finRange fd)), rfl⟩

theorem yields_sysWait (held : Held p state 0 0) :
    Yields (sysWait p) state fun _ next => Held p next 0 0 := by
  refine yields_get_bind ?_
  cases found : firstIndex fun q =>
      decide ((state.proc q).parent = some p ∧ (state.proc q).state = .zombie) with
  | some q =>
    obtain ⟨-, zombie⟩ := of_decide_eq_true (firstIndex_eq_some found)
    have different : p ≠ q := by
      rintro rfl
      rw [held.alive] at zombie
      cases zombie
    refine yields_modify_bind (yields_pure (held.setProc different rfl rfl fun _ => ?_))
    exact held.idle q (.inr zombie)
  | none =>
    refine yields_ite (fun _ => yields_pure held) fun _ => yields_asks_bind fun _ => ?_
    exact yields_ite (fun _ => yields_pure held) fun _ => yields_stop

end Processes

/-! ## Runs -/

theorem yields_call {p : Fin nproc} {state : State} (held : Held p state 0 0) (c : Call) :
    Yields (call p c) state fun _ next => Counted next 0 0 := by
  have counted : ∀ {code : Code Bool}, (Yields code state fun _ next => Held p next 0 0) →
      Yields code state fun _ next => Counted next 0 0 :=
    fun yields => yields.mono fun _ _ => Held.toCounted
  cases c with
  | «open» path omode => exact counted (yields_sysOpen held path omode)
  | mkdir path => exact counted (yields_makeNode held path .dir)
  | mknod path => exact counted (yields_makeNode held path .dev)
  | link old new => exact counted (yields_sysLink held old new)
  | unlink path => exact counted (yields_sysUnlink held path)
  | chdir path => exact counted (yields_sysChdir held path)
  | dup fd => exact counted (yields_sysDup held fd)
  | pipe => exact counted (yields_sysPipe held)
  | close fd => exact counted (yields_sysClose held fd)
  | fork => exact counted (yields_sysFork held)
  | exec path => exact counted (yields_sysExec held path)
  | exit => exact yields_sysExit held
  | wait => exact counted (yields_sysWait held)

theorem Counted.step {state next : State} {label : Label} (counted : Counted state 0 0)
    (edge : state.step label = some next) : Counted next 0 0 := by
  rw [State.step] at edge
  split at edge
  case isTrue alive =>
    obtain ⟨⟨value, rest, _⟩, result, rfl⟩ := Option.map_eq_some_iff.mp edge
    exact yields_call ⟨counted, alive⟩ label.call label.answers value rest _ result
  case isFalse => cases edge

theorem counted_initial (initproc : Fin nproc) (root : Fin ninode) :
    Counted (.initial initproc root) 0 0 := by
  have noFiles : ∀ p fd, ((State.initial initproc root).proc p).ofile fd = none := by
    intro p fd
    simp only [State.initial]
    split <;> rfl
  have cwd : ∀ p, ((State.initial initproc root).proc p).cwd =
      if p = initproc then some root else none := by
    intro p
    simp only [State.initial]
    split <;> rfl
  have ref : ∀ ip, ((State.initial initproc root).inode ip).ref = if ip = root then 1 else 0 := by
    intro ip
    simp only [State.initial]
    split <;> rfl
  constructor
  case file =>
    intro f
    simp only [State.descriptors, noFiles]
    simp [State.initial]
  case inode =>
    intro ip
    have opened : (State.initial initproc root).opened ip = 0 := by
      simp [State.opened, State.initial]
    have directories : (State.initial initproc root).directories ip =
        if ip = root then 1 else 0 := by
      simp only [State.directories, cwd]
      rw [Finset.sum_eq_single initproc]
      · simp [eq_comm]
      · intro p _ other
        simp [other]
      · exact fun absent => absurd (Finset.mem_univ initproc) absent
    rw [ref, opened, directories]
    split <;> rfl
  case unique =>
    intro ip other used otherUsed
    grind
  case free => exact fun _ _ => rfl
  case idle =>
    intro q idle
    refine ⟨noFiles q, ?_⟩
    rw [cwd, if_neg]
    rintro rfl
    simp [State.initial] at idle

theorem Counted.exact {state : State} (counted : Counted state 0 0) : Exact state where
  files f := (counted.file f).trans (add_zero _)
  inodes ip := (counted.inode ip).trans (add_zero _)
  unique := counted.unique

/-- After every sequence of completed calls the counts are exact. -/
theorem references_exact {initproc : Fin nproc} {root : Fin ninode}
    {trace : List (State × Label)} {finish : State} (run : CallRun initproc root trace finish) :
    Throughout Exact trace finish := by
  have counted := run.always (Counted · 0 0) (counted_initial initproc root) Counted.step
  exact ⟨fun entry member => (counted.1 entry member).exact, counted.2.exact⟩

/-- The first process creates a file and forks.  The child duplicates its descriptor,
makes a pipe and cannot open a file that does not exist, and exits. -/
def session (init child : Fin nproc) (path : List UInt8) : List Label :=
  [⟨init, .open path 0x202, [0, 0, 0, 7, 0]⟩, ⟨init, .fork, [0, 0]⟩, ⟨child, .dup 0, []⟩,
    ⟨child, .pipe, [0, 0]⟩, ⟨child, .open path 0, [0, 0, 0]⟩, ⟨init, .chdir path, [0, 0, 9, 0]⟩,
    ⟨child, .exit, []⟩, ⟨init, .wait, []⟩]

theorem references_exact_session :
    ∃ (trace : List (State × Label)) (finish : State), CallRun 0 0 trace finish ∧
      trace.map Prod.snd = session 0 1 [47, 102] ∧ (finish.file 0).ref = 1 ∧
        (finish.inode 1).ref = 1 ∧ (finish.inode 2).ref = 1 ∧ (finish.inode 0).ref = 0 ∧
          Throughout Exact trace finish := by
  refine exists_run_of_test (fun _ finish => (finish.file 0).ref = 1 ∧ (finish.inode 1).ref = 1 ∧
    (finish.inode 2).ref = 1 ∧ (finish.inode 0).ref = 0) (by decide +kernel) ?_
  rintro _ _ run - ⟨file, created, directory, root⟩
  exact ⟨file, created, directory, root, references_exact run⟩

end FileRefs

end Xv6
