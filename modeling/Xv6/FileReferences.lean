import Mathlib.Algebra.Order.BigOperators.Group.Finset
import Mathlib.Tactic.Abel
import Xv6.FileTable

/-!
# Reference counts of files and inodes

While a call runs, the counts differ from the references in the tables by what
the call holds in its variables, or has counted too early or too late.  Every
function changes this difference in a known way, and every call that completes
leaves none.
-/

namespace Xv6

namespace FileRefs

open Answered
open Dirs (ninode nfile nofile nproc rootino slash dot dotdot Name skipelem creates)
open Fs (FileType)
open LabelledRun
open Socket (firstIndex firstIndex_eq_some firstIndex_eq_none_iff)

def one {size : Nat} (index : Fin size) : Fin size → Int :=
  fun other => if other = index then 1 else 0

def one? {size : Nat} (pointer : Option (Fin size)) : Fin size → Int :=
  fun other => if pointer = some other then 1 else 0

variable {size : Nat}

theorem one?_eq_cast (pointer : Option (Fin size)) (index : Fin size) :
    one? pointer index = ((if pointer = some index then 1 else 0 : Nat) : Int) := by
  rw [one?]
  split <;> rfl

theorem one?_none : one? (none : Option (Fin size)) = 0 := by
  ext other
  simp [one?]

theorem one?_some (index : Fin size) : one? (some index) = one index := by
  ext other
  simp only [one?, one, Option.some.injEq, eq_comm]

theorem zero_add_one_nonneg (index other : Fin size) :
    0 ≤ (0 + one index : Fin size → Int) other := by
  rw [zero_add, one]
  split <;> decide

/-- The counts are those of the tables and what is held besides.  Entries that are
not in use refer to nothing. -/
structure Counted (state : State) (inodes : Fin ninode → Int) (files : Fin nfile → Int) :
    Prop where
  file : ∀ f, (state.file f).ref = state.descriptors f + files f
  inode : ∀ ip, (state.inode ip).ref = state.opened ip + state.directories ip + inodes ip
  unique : ∀ ip other, 0 < (state.inode ip).ref → 0 < (state.inode other).ref →
    (state.inode ip).dev = (state.inode other).dev →
      (state.inode ip).inum = (state.inode other).inum → ip = other
  free : ∀ f, (state.file f).ref = 0 → (state.file f).target = .none
  idle : ∀ q, (state.proc q).state = .unused ∨ (state.proc q).state = .zombie →
    (∀ fd, (state.proc q).ofile fd = none) ∧ (state.proc q).cwd = none

/-- The counts while process `p` runs. -/
structure Held (p : Fin nproc) (state : State) (inodes : Fin ninode → Int)
    (files : Fin nfile → Int) : Prop extends Counted state inodes files where
  alive : (state.proc p).state = .alive

/-! ## The references of the tables -/

section Tables

variable (state : State) (p : Fin nproc) (fd : Fin nofile) (file : Option (Fin nfile))

def File.refersTo (file : File) (ip : Fin ninode) : Nat :=
  if 0 < file.ref ∧ file.target = .inode ip then 1 else 0

theorem opened_setFile (f : Fin nfile) (file : File) (ip : Fin ninode) :
    (state.setFile f file).opened ip + (state.file f).refersTo ip =
      state.opened ip + file.refersTo ip :=
  sum_update_add (fun file : File => file.refersTo ip) (Finset.mem_univ f)

def Proc.points (proc : Proc) (f : Fin nfile) : Nat :=
  ∑ fd, if proc.ofile fd = some f then 1 else 0

theorem descriptors_setProc (proc : Proc) (f : Fin nfile) :
    (state.setProc p proc).descriptors f + (state.proc p).points f =
      state.descriptors f + proc.points f :=
  sum_update_add (fun proc : Proc => proc.points f) (Finset.mem_univ p)

theorem descriptors_onProc_setOfile (f : Fin nfile) :
    ((state.onProc p (.setOfile · fd file)).descriptors f : Int) +
        one? ((state.proc p).ofile fd) f = state.descriptors f + one? file f := by
  have outer := descriptors_setProc state p ((state.proc p).setOfile fd file) f
  have inner : ((state.proc p).setOfile fd file).points f +
      (if (state.proc p).ofile fd = some f then 1 else 0) =
        (state.proc p).points f + if file = some f then 1 else 0 :=
    sum_update_add (fun pointer : Option (Fin nfile) => if pointer = some f then 1 else 0)
      (Finset.mem_univ fd)
  rw [one?_eq_cast, one?_eq_cast, State.onProc]
  omega

theorem directories_setProc (proc : Proc) (ip : Fin ninode) :
    ((state.setProc p proc).directories ip : Int) + one? (state.proc p).cwd ip =
      state.directories ip + one? proc.cwd ip := by
  have total : (state.setProc p proc).directories ip +
      (if (state.proc p).cwd = some ip then 1 else 0) =
        state.directories ip + if proc.cwd = some ip then 1 else 0 :=
    sum_update_add (fun proc : Proc => if proc.cwd = some ip then 1 else 0) (Finset.mem_univ p)
  rw [one?_eq_cast, one?_eq_cast]
  omega

end Tables

/-! ## Changes of the tables -/

section Fields

variable (state : State)

@[grind =]
theorem inode_setInode (ip other : Fin ninode) (inode : Inode) :
    (state.setInode ip inode).inode other = if other = ip then inode else state.inode other := by
  simp only [State.setInode, Function.update_apply]

@[grind =]
theorem file_setFile (f other : Fin nfile) (file : File) :
    (state.setFile f file).file other = if other = f then file else state.file other := by
  simp only [State.setFile, Function.update_apply]

@[grind =]
theorem proc_setProc (p other : Fin nproc) (proc : Proc) :
    (state.setProc p proc).proc other = if other = p then proc else state.proc other := by
  simp only [State.setProc, Function.update_apply]

theorem proc_onProc_self (p : Fin nproc) (change : Proc → Proc) :
    (state.onProc p change).proc p = change (state.proc p) := by
  rw [State.onProc, proc_setProc, if_pos rfl]

theorem ofile_setOfile (proc : Proc) (fd other : Fin nofile) (file : Option (Fin nfile)) :
    (proc.setOfile fd file).ofile other = if other = fd then file else proc.ofile other := by
  simp only [Proc.setOfile, Function.update_apply]

theorem opened_setInode (ip other : Fin ninode) (inode : Inode) :
    (state.setInode ip inode).opened other = state.opened other :=
  rfl

theorem directories_setInode (ip other : Fin ninode) (inode : Inode) :
    (state.setInode ip inode).directories other = state.directories other :=
  rfl

theorem directories_setFile (f : Fin nfile) (file : File) (ip : Fin ninode) :
    (state.setFile f file).directories ip = state.directories ip :=
  rfl

theorem descriptors_setFile (f other : Fin nfile) (file : File) :
    (state.setFile f file).descriptors other = state.descriptors other :=
  rfl

theorem opened_setProc (p : Fin nproc) (proc : Proc) (ip : Fin ninode) :
    (state.setProc p proc).opened ip = state.opened ip :=
  rfl

end Fields

attribute [grind =] State.onInode State.onFile State.onProc Inode.addRef File.addRef File.setRef
  File.setTarget

section Changes

variable {p q : Fin nproc} {state : State} {inodes : Fin ninode → Int} {files : Fin nfile → Int}
  {ip : Fin ninode} {f : Fin nfile} {fd : Fin nofile}

variable {inodes' : Fin ninode → Int}

theorem Held.setInode (held : Held p state inodes files) {inode : Inode}
    (unique : 0 < inode.ref → ∀ other, other ≠ ip → 0 < (state.inode other).ref →
      (state.inode other).dev = inode.dev → (state.inode other).inum ≠ inode.inum)
    (here : inodes' ip = inodes ip + (inode.ref - (state.inode ip).ref))
    (others : ∀ other, other ≠ ip → inodes' other = inodes other) :
    Held p (state.setInode ip inode) inodes' files where
  alive := held.alive
  file := held.file
  inode other := by
    have before := held.inode other
    rw [inode_setInode, opened_setInode, directories_setInode]
    by_cases same : other = ip
    · subst same
      rw [if_pos rfl]
      omega
    · grind
  unique := by
    have before := held.unique
    grind
  free := held.free
  idle := held.idle

theorem Held.setFile (held : Held p state inodes files) {file : File} {files' : Fin nfile → Int}
    (free : file.ref = 0 → file.target = .none)
    (change : ∀ ip, inodes' ip = inodes ip + ((state.file f).refersTo ip - file.refersTo ip))
    (here : files' f = files f + (file.ref - (state.file f).ref))
    (others : ∀ other, other ≠ f → files' other = files other) :
    Held p (state.setFile f file) inodes' files' where
  alive := held.alive
  file other := by
    have before := held.file other
    rw [file_setFile, descriptors_setFile]
    by_cases same : other = f
    · subst same
      rw [if_pos rfl]
      omega
    · grind
  inode ip := by
    have total := opened_setFile state f file ip
    have changes := change ip
    rw [directories_setFile]
    exact (held.inode ip).trans (by omega)
  unique := held.unique
  free := by
    have before := held.free
    grind
  idle := held.idle

theorem Held.setOfile (held : Held p state inodes files) {file : Option (Fin nfile)}
    {files' : Fin nfile → Int}
    (active : (state.proc q).state ≠ .unused ∧ (state.proc q).state ≠ .zombie)
    (change : ∀ f, files' f = files f + (one? ((state.proc q).ofile fd) f - one? file f)) :
    Held p (state.onProc q (.setOfile · fd file)) inodes files' where
  alive := by
    have before := held.alive
    grind [Proc.setOfile]
  file f := by
    have total := descriptors_onProc_setOfile state q fd file f
    have changes := change f
    exact (held.file f).trans (by omega)
  inode ip := by
    have total := directories_setProc state q ((state.proc q).setOfile fd file) ip
    have same : ((state.proc q).setOfile fd file).cwd = (state.proc q).cwd := rfl
    rw [same] at total
    rw [State.onProc, opened_setProc]
    exact (held.inode ip).trans (by omega)
  unique := held.unique
  free := held.free
  idle := by
    have before := held.idle
    grind [Proc.setOfile]

theorem Held.setCwd (held : Held p state inodes files) {cwd : Option (Fin ninode)}
    (active : (state.proc q).state ≠ .unused ∧ (state.proc q).state ≠ .zombie)
    (change : ∀ ip, inodes' ip = inodes ip + (one? (state.proc q).cwd ip - one? cwd ip)) :
    Held p (state.onProc q (.setCwd · cwd)) inodes' files where
  alive := by
    have before := held.alive
    grind [Proc.setCwd]
  file f := by
    have total := descriptors_setProc state q ((state.proc q).setCwd cwd) f
    have same : ((state.proc q).setCwd cwd).points f = (state.proc q).points f := rfl
    rw [State.onProc]
    exact (held.file f).trans (by omega)
  inode ip := by
    have total := directories_setProc state q ((state.proc q).setCwd cwd) ip
    have same : ((state.proc q).setCwd cwd).cwd = cwd := rfl
    have changes := change ip
    rw [same] at total
    rw [State.onProc, opened_setProc]
    exact (held.inode ip).trans (by omega)
  unique := held.unique
  free := held.free
  idle := by
    have before := held.idle
    grind [Proc.setCwd]

end Changes

/-! ## The inode cache -/

section Cache

variable {p : Fin nproc} {state : State} {inodes : Fin ninode → Int} {files : Fin nfile → Int}
  {ip : Fin ninode}

theorem yields_iput (held : Held p state (inodes + one ip) files) :
    Yields (iput ip) state fun _ next => Held p next inodes files ∧ next.proc = state.proc := by
  refine yields_modify ⟨held.setInode ?_ ?_ ?_, rfl⟩
  · intro used other different otherUsed sameDev sameInum
    have before := held.unique other ip
    grind
  · simp [Inode.addRef, one]
  · intro other different
    simp [one, different]

theorem yields_idup (held : Held p state inodes files) (used : 0 < (state.inode ip).ref) :
    Yields (idup ip) state fun _ next => Held p next (inodes + one ip) files ∧
      next.proc = state.proc := by
  refine yields_modify ⟨held.setInode ?_ ?_ ?_, rfl⟩
  · intro _ other different otherUsed sameDev sameInum
    have before := held.unique other ip
    grind
  · simp [Inode.addRef, one]
  · intro other different
    simp [one, different]

theorem yields_iget (held : Held p state inodes files) (dev inum : Nat) :
    Yields (iget dev inum) state fun ip next => Held p next (inodes + one ip) files := by
  refine yields_get_bind ?_
  cases cached : state.cached dev inum with
  | some ip =>
    obtain ⟨used, -, -⟩ := of_decide_eq_true (firstIndex_eq_some cached)
    exact (yields_idup held used).bind fun _ next after => yields_pure after.1
  | none =>
    cases empty : state.empty with
    | none => exact yields_stop
    | some ip =>
      have unused : (state.inode ip).ref = 0 := of_decide_eq_true (firstIndex_eq_some empty)
      have absent := fun other => of_decide_eq_false (firstIndex_eq_none_iff.mp cached other)
      refine yields_modify_bind (yields_pure (held.setInode ?_ ?_ ?_))
      · grind
      · simp [unused, one]
      · intro other different
        simp [one, different]

variable {α : Type}

theorem yields_checkRef_bind {rest : Unit → Code α} {goal : α → State → Prop}
    (continues : Yields (rest ()) state goal) : Yields (checkRef ip >>= rest) state goal :=
  yields_bind (yields_get_bind (yields_ite (fun _ => yields_stop) fun _ => yields_pure continues))

theorem yields_iunlockput (held : Held p state (inodes + one ip) files) :
    Yields (iunlockput ip) state fun _ next => Held p next inodes files :=
  yields_checkRef_bind ((yields_iput held).mono fun _ _ after => after.1)

/-- An inode is given back before a value is returned. -/
theorem yields_iunlockput_pure {value : α} (held : Held p state (inodes + one ip) files)
    {post : α → State → Prop} (holds : ∀ next, Held p next inodes files → post value next) :
    Yields (iunlockput ip >>= fun _ => pure value) state post :=
  (yields_iunlockput held).bind fun _ next after => yields_pure (holds next after)

theorem yields_ialloc (held : Held p state inodes files) (dev : Nat) :
    Yields (ialloc dev) state fun ip next => Held p next (inodes + one ip) files :=
  yields_answer_bind fun inum => yields_iget held dev inum

theorem yields_dirlookup (held : Held p state inodes files) (dp : Fin ninode) :
    Yields (dirlookup dp) state fun found next => Held p next (inodes + one? found) files := by
  refine yields_answer_bind fun inum => yields_ite (fun _ => ?_) fun _ => ?_
  · exact yields_pure (by rwa [one?_none, add_zero])
  · refine yields_get_bind ((yields_iget held _ inum).bind fun ip next after => yields_pure ?_)
    rwa [one?_some]

theorem yields_found_bind {code : Code (Option (Fin ninode))}
    {rest : Option (Fin ninode) → Code α} {goal : α → State → Prop}
    (looks : Yields code state fun found next => Held p next (inodes + one? found) files)
    (absent : ∀ next, Held p next inodes files → Yields (rest none) next goal)
    (present : ∀ ip next, Held p next (inodes + one ip) files → Yields (rest (some ip)) next goal) :
    Yields (code >>= rest) state goal := by
  refine looks.bind ?_
  rintro (- | ip) next after
  · rw [one?_none, add_zero] at after
    exact absent next after
  · rw [one?_some] at after
    exact present ip next after

theorem yields_dirlink (held : Held p state inodes files) (dp : Fin ninode) :
    Yields (dirlink dp) state fun _ next => Held p next inodes files := by
  refine yields_found_bind (yields_dirlookup held dp) (fun next after => yields_pure after) ?_
  intro ip next after
  exact (yields_iput after).bind fun _ last ended => yields_pure ended.1

end Cache

/-! ## Paths -/

section Paths

variable {p : Fin nproc} {state : State} {inodes : Fin ninode → Int} {files : Fin nfile → Int}
  {ip : Fin ninode}

theorem yields_namexEnd (held : Held p state (inodes + one ip) files) (nameiparent : Bool) :
    Yields (namexEnd nameiparent ip) state fun found next =>
      Held p next (inodes + one? (found.map Prod.fst)) files := by
  refine yields_ite (fun _ => ?_) fun _ => yields_pure ?_
  · refine (yields_iput held).bind fun _ next after => yields_pure ?_
    rw [Option.map_none, one?_none, add_zero]
    exact after.1
  · rwa [Option.map_some, one?_some]

theorem yields_namexLoop (nameiparent : Bool) (fuel : Nat) (path : List UInt8)
    (held : Held p state (inodes + one ip) files) :
    Yields (namexLoop nameiparent fuel ip path) state fun found next =>
      Held p next (inodes + one? (found.map Prod.fst)) files := by
  induction fuel generalizing state ip path with
  | zero => exact yields_namexEnd held nameiparent
  | succ fuel ih =>
    have failed : ∀ next, Held p next inodes files →
        Held p next (inodes + one? (none.map (Prod.fst : _ × Name → Fin ninode))) files := by
      intro next after
      rwa [Option.map_none, one?_none, add_zero]
    rw [namexLoop]
    cases skipelem path with
    | none => exact yields_namexEnd held nameiparent
    | some element =>
      refine yields_checkRef_bind (yields_asks_bind fun notDirectory => ?_)
      refine yields_ite (fun _ => yields_iunlockput_pure held failed) fun _ => ?_
      refine yields_ite (fun _ => yields_checkRef_bind (yields_pure ?_)) fun _ => ?_
      · rwa [Option.map_some, one?_some]
      · refine yields_found_bind (yields_dirlookup held ip) ?_ ?_
        · exact fun next after => yields_iunlockput_pure after failed
        · intro inner next after
          rw [add_right_comm] at after
          exact (yields_iunlockput after).bind fun _ last ended => ih element.2 ended

theorem yields_curdir_bind {α : Type} {rest : Fin ninode → Code α} {goal : α → State → Prop}
    (held : Held p state inodes files) (nonneg : ∀ ip, 0 ≤ inodes ip)
    (continues : ∀ ip, (state.proc p).cwd = some ip → 0 < (state.inode ip).ref →
      Yields (rest ip) state goal) :
    Yields (curdir p >>= rest) state goal := by
  refine yields_bind (yields_get_bind ?_)
  cases cwd : (state.proc p).cwd with
  | none => exact yields_stop
  | some ip =>
    refine yields_pure (continues ip cwd ?_)
    have counted : (if (state.proc p).cwd = some ip then 1 else 0) ≤ state.directories ip :=
      Finset.single_le_sum (f := fun q => if (state.proc q).cwd = some ip then 1 else 0)
        (fun _ _ => Nat.zero_le _) (Finset.mem_univ p)
    have total := held.inode ip
    have positive := nonneg ip
    rw [if_pos cwd] at counted
    omega

theorem yields_namex_bind {α : Type} {rest : Option (Fin ninode × Name) → Code α}
    {goal : α → State → Prop} {nameiparent : Bool} {path : List UInt8}
    (held : Held p state inodes files) (nonneg : ∀ ip, 0 ≤ inodes ip)
    (absent : ∀ next, Held p next inodes files → Yields (rest none) next goal)
    (present : ∀ ip name next, Held p next (inodes + one ip) files →
      Yields (rest (some (ip, name))) next goal) :
    Yields (namex p nameiparent path >>= rest) state goal := by
  have looks : Yields (namex p nameiparent path) state fun found next =>
      Held p next (inodes + one? (found.map Prod.fst)) files := by
    refine yields_ite (fun _ => ?_) fun _ => ?_
    · exact (yields_iget held _ _).bind fun ip next after => yields_namexLoop _ _ _ after
    · refine yields_curdir_bind held nonneg fun ip _ used => ?_
      exact (yields_idup held used).bind fun _ next after => yields_namexLoop _ _ _ after.1
  refine looks.bind ?_
  rintro (- | ⟨ip, name⟩) next after
  · rw [Option.map_none, one?_none, add_zero] at after
    exact absent next after
  · rw [Option.map_some, one?_some] at after
    exact present ip name next after

end Paths

/-! ## Files -/

section Files

variable {p : Fin nproc} {state : State} {inodes : Fin ninode → Int} {files : Fin nfile → Int}
  {f : Fin nfile}

/-- A file that was allocated and has no type yet. -/
structure Fresh (state : State) (f : Fin nfile) : Prop where
  used : 0 < (state.file f).ref
  target : (state.file f).target = .none

theorem yields_filealloc (held : Held p state inodes files) :
    Yields filealloc state fun found next => Held p next inodes (files + one? found) ∧
      (∀ f, found = some f → Fresh next f) ∧ ∀ other, Fresh state other → Fresh next other := by
  refine yields_get_bind ?_
  cases found : firstIndex fun f => decide ((state.file f).ref = 0) with
  | none =>
    grind [one?_none, yields_pure]
  | some f =>
    have unused : (state.file f).ref = 0 := of_decide_eq_true (firstIndex_eq_some found)
    have untyped := held.free f unused
    refine yields_modify_bind (yields_pure ⟨held.setFile ?_ ?_ ?_ ?_, ?_, ?_⟩)
    · exact fun zero => absurd zero one_ne_zero
    · intro ip
      simp [File.refersTo, File.setRef, untyped]
    · simp [File.setRef, one?, unused]
    · intro other different
      simp [one?, different.symm]
    · rintro _ ⟨⟩
      constructor <;> grind
    · rintro other ⟨used, target⟩
      constructor <;> grind

theorem Held.addRef (held : Held p state inodes files) {change : Int}
    {files' : Fin nfile → Int} (before : 0 < (state.file f).ref)
    (after : 0 < (state.file f).ref + change) (here : files' f = files f + change)
    (others : ∀ other, other ≠ f → files' other = files other) :
    Held p (state.onFile f (.addRef · change)) inodes files' := by
  refine held.setFile ?_ ?_ ?_ others
  · grind
  · intro ip
    simp [File.refersTo, File.addRef, before, after]
  · simp [File.addRef, here]

theorem yields_filedup (held : Held p state inodes files) :
    Yields (filedup f) state fun _ next => Held p next inodes (files + one f) ∧
      next.proc = state.proc := by
  refine yields_get_bind (yields_ite (fun _ => yields_stop) fun used => ?_)
  refine yields_modify ⟨held.addRef ?_ ?_ ?_ ?_, rfl⟩
  · omega
  · omega
  · simp [one]
  · intro other different
    simp [one, different]

theorem yields_fileclose (held : Held p state inodes (files + one f)) :
    Yields (fileclose f) state fun _ next => Held p next inodes files ∧
      next.proc = state.proc := by
  refine yields_get_bind (yields_ite (fun _ => yields_stop) fun used => ?_)
  refine yields_ite (fun many => yields_modify ⟨held.addRef ?_ many ?_ ?_, rfl⟩) fun last => ?_
  · omega
  · simp [one]
  · intro other different
    simp [one, different]
  · -- the last reference: an inode of the file is held until `iput`
    have single : (state.file f).ref = 1 := by omega
    have closed : ∀ {inodes'}, (∀ ip, inodes' ip = inodes ip + (state.file f).refersTo ip) →
        Held p (state.setFile f ⟨0, .none⟩) inodes' files := by
      intro inodes' change
      refine held.setFile (fun _ => rfl) ?_ ?_ ?_
      · intro ip
        simp [change, File.refersTo]
      · simp [one, single]
      · intro other different
        simp [one, different]
    refine yields_modify_bind ?_
    cases target : (state.file f).target with
    | none =>
      refine yields_pure ⟨closed fun ip => ?_, rfl⟩
      simp [File.refersTo, target]
    | pipe =>
      refine yields_pure ⟨closed fun ip => ?_, rfl⟩
      simp [File.refersTo, target]
    | inode ip =>
      refine yields_iput (closed fun other => ?_)
      simp [File.refersTo, target, single, one, eq_comm]

theorem yields_fdalloc_bind {α : Type} {rest : Option (Fin nofile) → Code α}
    {goal : α → State → Prop} (held : Held p state inodes files)
    (full : Yields (rest none) state goal)
    (found : ∀ fd next, Held p next inodes (files - one f) → (next.proc p).ofile fd = some f →
      next.file = state.file → Yields (rest (some fd)) next goal) :
    Yields (fdalloc p f >>= rest) state goal := by
  refine yields_bind (yields_get_bind ?_)
  cases free : firstIndex fun fd => ((state.proc p).ofile fd).isNone with
  | none => exact yields_pure full
  | some fd =>
    have unused : (state.proc p).ofile fd = none :=
      Option.isNone_iff_eq_none.mp (firstIndex_eq_some free)
    refine yields_modify_bind (yields_pure (found fd _ (held.setOfile ?_ ?_) ?_ rfl))
    · simp [held.alive]
    · intro other
      simp [unused, one?_none, one?_some, sub_eq_add_neg]
    · rw [proc_onProc_self, ofile_setOfile, if_pos rfl]

theorem yields_argfd_bind {α : Type} {rest : Option (Fin nofile × Fin nfile) → Code α}
    {goal : α → State → Prop} {number : Int} (bad : Yields (rest none) state goal)
    (found : ∀ fd f, (state.proc p).ofile fd = some f → Yields (rest (some (fd, f))) state goal) :
    Yields (argfd p number >>= rest) state goal := by
  refine yields_bind (yields_get_bind ?_)
  split
  case isTrue inside =>
    cases pointer : (state.proc p).ofile ⟨number.toNat, inside.2⟩ with
    | none => exact yields_pure bad
    | some f => exact yields_pure (found _ f pointer)
  case isFalse => exact yields_pure bad

end Files

end FileRefs

end Xv6
