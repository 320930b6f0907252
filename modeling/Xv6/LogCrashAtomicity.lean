import Xv6.LogRecovery

/-!
# Crash atomicity

The transactions whose header reached the disk in a run are those the state
records, and the log writes of an operation are committed together or not at all.
This gives the contents of the disk after any number of crashes, in a commit and in
a recovery alike.
-/

namespace Xv6

namespace FsLog

open DiskBlock LabelledRun

/-! ## What a run has committed -/

/-- The transaction whose header is written to the disk by this step. -/
def headerWrite (entry : LogState × Label) : Option (List Write) :=
  match entry.2, entry.1.phase with
  | .commit, .writeLog tail =>
    if entry.1.lh.length ≤ tail ∧ entry.1.lh ≠ [] then some entry.1.pending else none
  | _, _ => none

def headerWrites (trace : List (LogState × Label)) : List (List Write) :=
  trace.filterMap headerWrite

def loggedBy (op : Nat) (entry : LogState × Label) : Option Write :=
  match entry.2 with
  | .logWrite caller block data => if caller = op then some ⟨op, block, data⟩ else none
  | _ => none

def opWrites (op : Nat) (trace : List (LogState × Label)) : List Write :=
  trace.filterMap (loggedBy op)

def writesOf (op : Nat) (writes : List Write) : List Write :=
  writes.filter fun write => write.op = op

theorem writesOf_append (op : Nat) (first second : List Write) :
    writesOf op (first ++ second) = writesOf op first ++ writesOf op second :=
  List.filter_append first second

theorem headerWrites_snoc (trace : List (LogState × Label)) (entry : LogState × Label) :
    headerWrites (trace ++ [entry]) = headerWrites trace ++ (headerWrite entry).toList := by
  cases written : headerWrite entry <;> simp [written, headerWrites]

theorem opWrites_snoc (op : Nat) (trace : List (LogState × Label)) (entry : LogState × Label) :
    opWrites op (trace ++ [entry]) = opWrites op trace ++ (loggedBy op entry).toList := by
  cases logged : loggedBy op entry <;> simp [logged, opWrites]

theorem loggedBy_self (state : LogState) (op block : Nat) (data : Data) :
    loggedBy op (state, .logWrite op block data) = some ⟨op, block, data⟩ :=
  if_pos rfl

theorem loggedBy_other (state : LogState) {op caller : Nat} (different : caller ≠ op)
    (block : Nat) (data : Data) : loggedBy op (state, .logWrite caller block data) = none :=
  if_neg different

/-- The writes of an operation are committed together: none of them is, and the
pending ones are all of them or were lost; or all of them are. -/
def Atomic (op : Nat) (all committed pending : List Write) (running : Prop) : Prop :=
  (writesOf op committed = [] ∧
      (writesOf op pending = all ∨ (writesOf op pending = [] ∧ ¬ running))) ∨
    (writesOf op committed = all ∧ writesOf op pending = [] ∧ ¬ running)

/-- The history of a state against the run that led to it. -/
structure Recorded (trace : List (LogState × Label)) (state : LogState) : Prop where
  headers : state.committed = headerWrites trace
  issued : ∀ op ∈ state.active, op < state.nextop
  nodup : state.active.Nodup
  unissued : ∀ op, state.nextop ≤ op → opWrites op trace = []
  atomic : ∀ op,
    Atomic op (opWrites op trace) state.committed.flatten state.pending (op ∈ state.active)

section Histories

variable {op : Nat} {all committed pending : List Write} {running : Prop}

theorem Atomic.mono (atomic : Atomic op all committed pending running) {later : Prop}
    (fewer : later → running) : Atomic op all committed pending later := by
  rcases atomic with ⟨none, all | ⟨lost, ended⟩⟩ | ⟨whole, empty, ended⟩
  · exact Or.inl ⟨none, Or.inl all⟩
  · exact Or.inl ⟨none, Or.inr ⟨lost, ended ∘ fewer⟩⟩
  · exact Or.inr ⟨whole, empty, ended ∘ fewer⟩

theorem Atomic.begin (atomic : Atomic op [] committed pending running) (later : Prop) :
    Atomic op [] committed pending later := by
  rcases atomic with ⟨none, all | ⟨lost, _⟩⟩ | ⟨whole, empty, _⟩
  · exact Or.inl ⟨none, Or.inl all⟩
  · exact Or.inl ⟨none, Or.inl lost⟩
  · exact Or.inl ⟨whole, Or.inl empty⟩

theorem Atomic.write_self (atomic : Atomic op all committed pending running) (runs : running)
    (block : Nat) (data : Data) :
    Atomic op (all ++ [⟨op, block, data⟩]) committed (pending ++ [⟨op, block, data⟩]) running := by
  rcases atomic with ⟨none, same | ⟨_, ended⟩⟩ | ⟨_, _, ended⟩
  · refine Or.inl ⟨none, Or.inl ?_⟩
    rw [writesOf_append, same]
    simp [writesOf]
  · exact absurd runs ended
  · exact absurd runs ended

theorem Atomic.write_other (atomic : Atomic op all committed pending running) {write : Write}
    (different : write.op ≠ op) : Atomic op all committed (pending ++ [write]) running := by
  grind [writesOf, Atomic]

theorem Atomic.commit (atomic : Atomic op all committed pending running) (ended : ¬ running) :
    Atomic op all (committed ++ pending) [] running := by
  rcases atomic with ⟨none, same | ⟨lost, _⟩⟩ | ⟨whole, empty, _⟩
  · exact Or.inr ⟨by rw [writesOf_append, none, same, List.nil_append], rfl, ended⟩
  · exact Or.inl ⟨by rw [writesOf_append, none, lost, List.nil_append], Or.inr ⟨rfl, ended⟩⟩
  · exact Or.inr ⟨by rw [writesOf_append, whole, empty, List.append_nil], rfl, ended⟩

theorem Atomic.crash (atomic : Atomic op all committed pending running) :
    Atomic op all committed [] False := by
  rcases atomic with ⟨none, _⟩ | ⟨whole, _⟩
  · exact Or.inl ⟨none, Or.inr ⟨rfl, id⟩⟩
  · exact Or.inr ⟨whole, rfl, id⟩

variable {layout : Layout} {init : Nat → Data} {trace : List (LogState × Label)}
  {state next : LogState} {label : Label}

theorem Recorded.cached (recorded : Recorded trace state) (cache : Nat → Option Buf) :
    Recorded trace { state with cache := cache } :=
  ⟨recorded.headers, recorded.issued, recorded.nodup, recorded.unissued, recorded.atomic⟩

theorem Recorded.quiet (recorded : Recorded trace state)
    (notHeader : headerWrite (state, label) = none)
    (notLogged : ∀ op, loggedBy op (state, label) = none)
    (committed : next.committed = state.committed) (pending : next.pending = state.pending)
    (active : next.active.Sublist state.active) (nextop : next.nextop = state.nextop) :
    Recorded (trace ++ [(state, label)]) next := by
  have sameWrites : ∀ op, opWrites op (trace ++ [(state, label)]) = opWrites op trace := by
    intro op
    rw [opWrites_snoc, notLogged, Option.toList_none, List.append_nil]
  constructor
  · rw [headerWrites_snoc, notHeader, committed, Option.toList_none, List.append_nil]
    exact recorded.headers
  · intro op member
    rw [nextop]
    exact recorded.issued op (active.subset member)
  · exact recorded.nodup.sublist active
  · intro op late
    rw [nextop] at late
    rw [sameWrites]
    exact recorded.unissued op late
  · intro op
    rw [sameWrites, committed, pending]
    exact (recorded.atomic op).mono fun member => active.subset member

theorem Recorded.beginOp (recorded : Recorded trace state) :
    Recorded (trace ++ [(state, .beginOp)]) state.beginOp := by
  have sameWrites : ∀ op, opWrites op (trace ++ [(state, .beginOp)]) = opWrites op trace := by
    intro op
    rw [opWrites_snoc]
    exact List.append_nil _
  constructor
  · rw [headerWrites_snoc]
    exact recorded.headers.trans (List.append_nil _).symm
  · intro op member
    rcases List.mem_cons.mp member with rfl | old
    · exact Nat.lt_succ_self _
    · exact Nat.lt_succ_of_lt (recorded.issued op old)
  · refine List.nodup_cons.mpr ⟨fun member => ?_, recorded.nodup⟩
    exact lt_irrefl _ (recorded.issued _ member)
  · intro op late
    rw [sameWrites]
    exact recorded.unissued op (Nat.le_of_succ_le late)
  · intro op
    rw [sameWrites]
    by_cases fresh : op = state.nextop
    · have atomic := recorded.atomic op
      rw [recorded.unissued op (by omega)] at atomic ⊢
      exact atomic.begin _
    · refine (recorded.atomic op).mono fun member => ?_
      exact (List.mem_cons.mp member).resolve_left fresh

theorem Recorded.logWrite (recorded : Recorded trace state) {caller block : Nat} {data : Data}
    (running : caller ∈ state.active) :
    Recorded (trace ++ [(state, .logWrite caller block data)])
      (state.logWrite caller block data) := by
  have other : ∀ op, op ≠ caller →
      opWrites op (trace ++ [(state, .logWrite caller block data)]) = opWrites op trace := by
    intro op different
    rw [opWrites_snoc, loggedBy_other state different.symm]
    exact List.append_nil _
  constructor
  · rw [headerWrites_snoc]
    exact recorded.headers.trans (List.append_nil _).symm
  · exact recorded.issued
  · exact recorded.nodup
  · intro op late
    have issued := recorded.issued caller running
    change state.nextop ≤ op at late
    rw [other op (by omega)]
    exact recorded.unissued op late
  · intro op
    by_cases same : op = caller
    · subst same
      rw [opWrites_snoc, loggedBy_self]
      exact (recorded.atomic op).write_self running block data
    · rw [other op same]
      exact (recorded.atomic op).write_other (Ne.symm same)

theorem Recorded.writeHead (recorded : Recorded trace state) {tail : Nat}
    (phase : state.phase = .writeLog tail) (finished : state.lh.length ≤ tail)
    (nonempty : state.lh ≠ []) (ended : state.active = [])
    (committed : next.committed = state.committed ++ [state.pending])
    (pending : next.pending = []) (active : next.active = state.active)
    (nextop : next.nextop = state.nextop) :
    Recorded (trace ++ [(state, .commit)]) next := by
  have sameWrites : ∀ op, opWrites op (trace ++ [(state, .commit)]) = opWrites op trace := by
    intro op
    rw [opWrites_snoc]
    exact List.append_nil _
  have header : headerWrite (state, .commit) = some state.pending := by
    simp only [headerWrite, phase]
    exact if_pos ⟨finished, nonempty⟩
  constructor
  · rw [headerWrites_snoc, header, committed, recorded.headers]
    rfl
  · rw [active, ended]
    simp
  · rw [active, ended]
    exact List.nodup_nil
  · intro op late
    rw [nextop] at late
    rw [sameWrites]
    exact recorded.unissued op late
  · intro op
    rw [sameWrites, committed, pending, active, List.flatten_append]
    simp only [List.flatten_cons, List.flatten_nil, List.append_nil]
    apply (recorded.atomic op).commit
    rw [ended]
    exact List.not_mem_nil

theorem Recorded.crash (recorded : Recorded trace state) :
    Recorded (trace ++ [(state, .crash)]) state.crash := by
  have sameWrites : ∀ op, opWrites op (trace ++ [(state, .crash)]) = opWrites op trace := by
    intro op
    rw [opWrites_snoc]
    exact List.append_nil _
  constructor
  · rw [headerWrites_snoc]
    exact recorded.headers.trans (List.append_nil _).symm
  · intro op member
    exact absurd member List.not_mem_nil
  · exact List.nodup_nil
  · intro op late
    rw [sameWrites]
    exact recorded.unissued op late
  · intro op
    rw [sameWrites]
    exact (recorded.atomic op).crash.mono List.not_mem_nil

theorem recorded_boot (disk : Nat → Data) : Recorded [] (LogState.boot disk) where
  headers := rfl
  issued := by simp [LogState.boot]
  nodup := List.nodup_nil
  unissued _ _ := rfl
  atomic _ := Or.inl ⟨rfl, Or.inl rfl⟩

theorem Recorded.step (recorded : Recorded trace state) (sound : state.Sound layout init)
    (edge : state.step layout label = some next) :
    Recorded (trace ++ [(state, label)]) next := by
  obtain ⟨cache, _, effect⟩ := LogState.effect_of_step edge
  cases effect with
  | beginOp idle room => exact recorded.beginOp.cached cache
  | logWrite running outside onDisk fits => exact (recorded.logWrite running).cached _
  | endOp running idle =>
    exact recorded.quiet rfl (fun _ => rfl) rfl rfl List.erase_sublist rfl
  | @writeLog tail block phase listed =>
    refine recorded.quiet ?_ (fun _ => rfl) rfl rfl (List.Sublist.refl _) rfl
    have inside := (List.getElem?_eq_some_iff.mp listed).1
    have phase : state.phase = .writeLog tail := phase
    simp only [headerWrite, phase]
    exact if_neg fun finished => absurd finished.1 (Nat.not_le.mpr inside)
  | @nothing tail phase empty =>
    refine recorded.quiet ?_ (fun _ => rfl) rfl rfl (List.Sublist.refl _) rfl
    have phase : state.phase = .writeLog tail := phase
    simp only [headerWrite, phase]
    exact if_neg fun finished => finished.2 empty
  | writeHead phase finished nonempty =>
    refine recorded.writeHead phase finished nonempty (sound.quiet ?_) rfl rfl rfl rfl
    rw [phase]
    exact Phase.noConfusion
  | @install tail block phase listed =>
    refine recorded.quiet ?_ (fun _ => rfl) rfl rfl (List.Sublist.refl _) rfl
    have phase : state.phase = .install tail := phase
    simp only [headerWrite, phase]
  | @clear tail phase finished =>
    refine recorded.quiet ?_ (fun _ => rfl) rfl rfl (List.Sublist.refl _) rfl
    have phase : state.phase = .install tail := phase
    simp only [headerWrite, phase]
  | fetch => exact recorded.quiet rfl (fun _ => rfl) rfl rfl (List.Sublist.refl _) rfl
  | evict clean => exact recorded.quiet rfl (fun _ => rfl) rfl rfl (List.Sublist.refl _) rfl
  | crash => exact recorded.crash
  | readHead phase => exact recorded.quiet rfl (fun _ => rfl) rfl rfl (List.Sublist.refl _) rfl
  | recover phase listed =>
    exact recorded.quiet rfl (fun _ => rfl) rfl rfl (List.Sublist.refl _) rfl
  | recovered phase finished =>
    exact recorded.quiet rfl (fun _ => rfl) rfl rfl (List.Sublist.refl _) rfl

theorem sound_of_run {disk : Nat → Data} (holds : DiskHolds layout init disk)
    (run : LogRun layout disk trace state) : state.Sound layout init :=
  (run.always (LogState.Sound layout init) (LogState.sound_boot holds)
    fun sound edge => sound.step edge).2

theorem recorded_of_run {disk : Nat → Data} (holds : DiskHolds layout init disk)
    (run : LogRun layout disk trace state) : Recorded trace state := by
  refine run.traced_invariant Recorded (fun _ _ => True) (recorded_boot disk) ?_
    fun _ _ => trivial
  intro trace state label next run recorded _ edge
  exact recorded.step (sound_of_run holds run) edge

end Histories

/-! ## Recovery completes -/

def LogState.Rebooting (state : LogState) : Prop :=
  state.phase = .crashed ∨ ∃ tail, state.phase = .recover tail

def Recovers (layout : Layout) (state : LogState) : Prop :=
  ∃ trace finish, Run (LogState.step layout) state trace finish ∧
    (∀ entry ∈ trace, entry.2 = .recover) ∧ finish.phase = .idle

section Recovery

variable {layout : Layout} {state next : LogState}

theorem Recovers.of_step (edge : state.step layout .recover = some next)
    (later : Recovers layout next) : Recovers layout state := by
  obtain ⟨trace, finish, run, labels, idle⟩ := later
  refine ⟨(state, .recover) :: trace, finish, (Run.single edge).append run, ?_, idle⟩
  intro entry member
  rcases List.mem_cons.mp member with rfl | old
  · rfl
  · exact labels entry old

theorem recovers_of_recover {tail : Nat} (phase : state.phase = .recover tail) :
    Recovers layout state := by
  -- every iteration of `install_trans` leaves one block less to copy
  generalize left : state.lh.length - tail = count
  induction count generalizing state tail with
  | zero =>
    have finished : state.lh[tail]? = none := List.getElem?_eq_none_iff.mpr (by omega)
    have edge : state.step layout .recover = some (state.clearLog layout) := by
      simp only [LogState.step, LogState.recover, phase, finished]
    exact .of_step edge ⟨[], _, .nil, by simp, rfl⟩
  | succ count ih =>
    obtain ⟨block, listed⟩ : ∃ block, state.lh[tail]? = some block :=
      ⟨_, List.getElem?_eq_getElem (by omega)⟩
    obtain ⟨cache, _, written⟩ :=
      LogState.exists_warm_installBlock layout state tail block
    have edge : state.step layout .recover =
        some { state.installBlock layout tail block with phase := .recover (tail + 1) } := by
      simp only [LogState.step, LogState.recover, phase, listed]
    refine .of_step edge (ih rfl ?_)
    rw [written]
    change state.lh.length - (tail + 1) = count
    omega

theorem recovers_of_rebooting (rebooting : state.Rebooting) : Recovers layout state := by
  rcases rebooting with crashed | ⟨tail, phase⟩
  · have edge : state.step layout .recover = some { state.bread layout.start with
        lh := readHead (state.view layout.start)
        phase := .recover 0 } := by
      simp only [LogState.step, LogState.recover, crashed]
    exact .of_step edge (recovers_of_recover rfl)
  · exact recovers_of_recover phase

end Recovery

/-! ## Crash atomicity -/

/-- In every run with crashes at any point, once the log is idle again the blocks
outside the log hold the transactions whose header reached the disk, each
operation is there as a whole or not at all, and recovery can always complete. -/
theorem crash_atomicity (layout : Layout) {init disk : Nat → Data}
    (holds : DiskHolds layout init disk) {trace : List (LogState × Label)} {finish : LogState}
    (run : LogRun layout disk trace finish) :
    (finish.phase = .idle → ∀ block, ¬ layout.InLog block →
      finish.disk block = applyWrites (headerWrites trace).flatten init block) ∧
    headerWrites trace <+: finish.attempted ∧
    (∀ op, writesOf op (headerWrites trace).flatten = opWrites op trace ∨
      writesOf op (headerWrites trace).flatten = []) ∧
    (finish.Rebooting → Recovers layout finish) := by
  have sound := sound_of_run holds run
  have recorded := recorded_of_run holds run
  rw [← recorded.headers]
  refine ⟨fun idle block outside => ?_, sound.started, fun op => ?_, recovers_of_rebooting⟩
  · have ready : Ready _ _ _ _ _ _ := sound.stage_of_phase idle
    apply sound.holds.rest block outside
    rw [ready.clear]
    exact List.not_mem_nil
  · rcases recorded.atomic op with ⟨none, _⟩ | ⟨whole, _⟩
    · exact Or.inr none
    · exact Or.inl whole

theorem diskHolds_of_clear {layout : Layout} {disk : Nat → Data}
    (clear : readHead (disk layout.start) = []) : DiskHolds layout disk disk := by
  constructor <;> simp [clear]

/-- Two operations that write the blocks 50 and 60 and are committed together,
with a crash while their blocks are installed and another one in recovery. -/
def interruptedCommit (first second : Data) : List Label :=
  [.recover, .recover, .beginOp, .beginOp, .logWrite 0 50 first, .logWrite 1 60 second,
    .endOp 0, .endOp 1, .commit, .commit, .commit, .commit, .crash,
    .recover, .recover, .crash, .recover, .recover, .recover, .recover]

theorem interrupted_commit_recovers :
    ∃ trace finish, LogRun mkfsLayout (fun _ _ => 0) trace finish ∧
      trace.map Prod.snd = interruptedCommit (fun _ => 1) (fun _ => 2) ∧
      (headerWrites trace).length = 1 ∧ ∀ block, ¬ mkfsLayout.InLog block →
        finish.disk block = applyWrites (headerWrites trace).flatten (fun _ _ => 0) block := by
  have holds : DiskHolds mkfsLayout (fun _ _ => 0) (fun _ _ => 0) :=
    diskHolds_of_clear (by decide +kernel)
  refine exists_run_of_test (fun trace finish => finish.phase = .idle ∧
    (headerWrites trace).length = 1) (by decide +kernel) ?_
  rintro _ _ run - ⟨idle, once⟩
  exact ⟨once, (crash_atomicity mkfsLayout holds run).1 idle⟩

end FsLog

end Xv6
