import Xv6.PipeQueue

/-!
# Sleepers on a pipe

A reader should be asleep only while the pipe is empty and can still be written,
and a writer only while it is full and can still be read.  Every segment wakes the
processes that wait for its change, with one exception: a writer that stores
bytes, finds the pipe full, and then returns because it has been killed or because
the read end is closed.  It leaves the readers asleep.  With a reader asleep the
pipe was empty, so this takes a write of more than `PIPESIZE` bytes.
-/

namespace Xv6

namespace Pipes

open LabelledRun RingBuffer

variable {Proc : Type}

/-- Every sleeper waits for something that is still to come. -/
structure WakeupsKept (state : State Proc) : Prop where
  readers : ∀ process frame, state.proc process = .sleeping .nread frame →
    state.pipe.nread = state.pipe.nwrite ∧ state.pipe.writeopen = true
  writers : ∀ process frame, state.proc process = .sleeping .nwrite frame →
    state.pipe.nwrite = state.pipe.nread + BitVec.ofNat 32 pipesize ∧
      state.pipe.readopen = true

/-- No writer that is bound to give up starts on more bytes than fit into the
pipe while a reader sleeps. -/
def Guarded (state : State Proc) (label : Label Proc) : Prop :=
  ∀ process n rest, Runs state label process (.write n rest) →
    (state.killed process = true ∨ state.pipe.readopen = false) → pipesize < rest.length →
      ∀ reader frame, state.proc reader ≠ .sleeping .nread frame

/-! ## Who sleeps after a wakeup -/

theorem State.sleeping_of_wakeup {state : State Proc} {chan sleepChan : Chan} {process : Proc}
    {frame : Frame} (asleep : (state.wakeup chan).proc process = .sleeping sleepChan frame) :
    state.proc process = .sleeping sleepChan frame ∧ sleepChan ≠ chan :=
  CallState.wakeup1_eq_sleeping.mp asleep

variable [DecidableEq Proc]

theorem State.sleeping_of_setProc {state : State Proc} {process other : Proc} {next : ProcState}
    {chan : Chan} {frame : Frame}
    (asleep : (state.setProc process next).proc other = .sleeping chan frame) :
    next = .sleeping chan frame ∧ other = process ∨ state.proc other = .sleeping chan frame := by
  by_cases same : other = process
  · simp_all
  · exact .inr ((state.setProc_proc_of_ne next same).symm.trans asleep)

theorem WakeupsKept.enter {state : State Proc} (kept : WakeupsKept state) (process : Proc) :
    WakeupsKept (state.setProc process .user) := by
  constructor
  · intro other frame asleep
    rcases State.sleeping_of_setProc asleep with ⟨same, -⟩ | asleep
    · cases same
    · exact kept.readers other frame asleep
  · intro other frame asleep
    rcases State.sleeping_of_setProc asleep with ⟨same, -⟩ | asleep
    · cases same
    · exact kept.writers other frame asleep

/-! ## Writing -/

theorem writeLoop_of_full {p : Pipe} (full : p.Full) (rest : List UInt8) :
    writeLoop rest p = (p, rest) := by
  cases rest with
  | nil => rfl
  | cons byte rest => rw [writeLoop, if_pos full]

omit [DecidableEq Proc] in
/-- While a writer sleeps, other writers store nothing. -/
theorem WakeupsKept.writer_stays {state : State Proc} (kept : WakeupsKept state)
    (rest : List UInt8) {process : Proc} {frame : Frame}
    (asleep : state.proc process = .sleeping .nwrite frame) :
    (writeLoop rest state.pipe).1 = state.pipe := by
  rw [writeLoop_of_full (kept.writers process frame asleep).1]

theorem Wrote.length_of_empty {p q : Pipe} {rest left : List UInt8} (wrote : Wrote p rest q left)
    (empty : p.nread = p.nwrite) : q.count + left.length = rest.length := by
  obtain ⟨taken, split, contents⟩ := wrote.taken
  have none : p.count = 0 := Pipe.count_eq_zero_iff.mpr empty
  have lengths := congrArg List.length contents
  rw [List.length_append, Pipe.contents_length, Pipe.contents_length, none] at lengths
  rw [split, List.length_append]
  omega

section Segments

variable {state : State Proc} (kept : WakeupsKept state)

include kept

/-- A segment of `pipewrite` keeps the wakeups exactly when it does not give up
with a reader asleep and more bytes at hand than fit into the pipe. -/
theorem pipewrite_kept_iff (bounded : state.pipe.count ≤ pipesize) (process : Proc) (n : Nat)
    (rest : List UInt8) :
    WakeupsKept (state.pipewrite process n rest).state ↔
      ((state.killed process = true ∨ state.pipe.readopen = false) → pipesize < rest.length →
        ∀ reader frame, state.proc reader ≠ .sleeping .nread frame) := by
  have wrote := @writeLoop_spec rest state.pipe bounded
  have stays := fun {sleeper frame} => @WakeupsKept.writer_stays _ _ kept rest sleeper frame
  rw [State.pipewrite]
  generalize writeLoop rest state.pipe = result at wrote stays
  obtain ⟨q, left⟩ := result
  dsimp only at wrote stays ⊢
  split
  · rename_i finished
    subst finished
    refine iff_of_true ⟨?_, ?_⟩ ?_
    · intro sleeper frame asleep
      exact absurd rfl (State.sleeping_of_wakeup asleep).2
    · intro sleeper frame asleep
      have before := (State.sleeping_of_wakeup asleep).1
      have same : q = state.pipe := stays before
      subst same
      exact kept.writers sleeper frame before
    · intro _ long reader frame asleep
      have empty := (kept.readers reader frame asleep).1
      have total := wrote.length_of_empty empty
      have bound := wrote.bounded
      rw [List.length_nil] at total
      omega
  rename_i more
  have full : q.Full := wrote.stops more
  split
  · rename_i gives_up
    constructor
    · intro after _ _ reader frame asleep
      -- The reader still sleeps, but the pipe is full.
      have empty : q.nread = q.nwrite := (after.readers reader frame asleep).1
      have none := Pipe.count_eq_zero_iff.mpr empty
      rw [Pipe.full_iff.mp full] at none
      cases none
    · intro guarded
      have reason : state.killed process = true ∨ state.pipe.readopen = false := by
        rcases gives_up with closed | killed
        · exact .inr (wrote.readopen ▸ closed)
        · exact .inl killed
      refine ⟨?_, ?_⟩
      · intro reader frame asleep
        have empty := (kept.readers reader frame asleep).1
        have total := wrote.length_of_empty empty
        have positive : 0 < left.length := List.length_pos_iff.mpr more
        rw [Pipe.full_iff.mp full] at total
        exact absurd asleep (guarded reason (by omega) reader frame)
      · intro sleeper frame asleep
        have same : q = state.pipe := stays asleep
        subst same
        exact kept.writers sleeper frame asleep
  · rename_i sleeps
    rw [not_or, Bool.not_eq_false, Bool.not_eq_true] at sleeps
    refine iff_of_true ⟨?_, ?_⟩ ?_
    · intro sleeper frame asleep
      rcases State.sleeping_of_setProc asleep with ⟨same, -⟩ | asleep
      · cases same
      · exact absurd rfl (State.sleeping_of_wakeup asleep).2
    · intro sleeper frame asleep
      rcases State.sleeping_of_setProc asleep with - | asleep
      · exact ⟨full, sleeps.1⟩
      · have before := (State.sleeping_of_wakeup asleep).1
        have same : q = state.pipe := stays before
        subst same
        exact kept.writers sleeper frame before
    · rintro (killed | closed)
      · rw [sleeps.2] at killed
        cases killed
      · rw [← wrote.readopen, sleeps.1] at closed
        cases closed

/-- A segment of `piperead` wakes the writers after it has read. -/
theorem piperead_kept (process : Proc) (n : Nat) :
    WakeupsKept (state.piperead process n).state := by
  rw [State.piperead]
  split
  · rename_i waits
    split
    · exact kept
    · refine ⟨?_, ?_⟩
      · intro sleeper frame asleep
        exact waits
      · intro sleeper frame asleep
        rcases State.sleeping_of_setProc asleep with ⟨same, -⟩ | asleep
        · cases same
        · exact kept.writers sleeper frame asleep
  · rename_i awake
    refine ⟨?_, ?_⟩
    · intro sleeper frame asleep
      exact absurd (kept.readers sleeper frame (State.sleeping_of_wakeup asleep).1) awake
    · intro sleeper frame asleep
      exact absurd rfl (State.sleeping_of_wakeup asleep).2

omit [DecidableEq Proc] in
theorem pipeclose_kept (writable : Bool) : WakeupsKept (state.pipeclose writable) := by
  cases writable with
  | true =>
    refine ⟨?_, ?_⟩
    · intro sleeper frame asleep
      exact absurd rfl (State.sleeping_of_wakeup asleep).2
    · intro sleeper frame asleep
      exact kept.writers sleeper frame (State.sleeping_of_wakeup asleep).1
  | false =>
    refine ⟨?_, ?_⟩
    · intro sleeper frame asleep
      exact kept.readers sleeper frame (State.sleeping_of_wakeup asleep).1
    · intro sleeper frame asleep
      exact absurd rfl (State.sleeping_of_wakeup asleep).2

omit kept in
theorem sleeping_of_kill {process sleeper : Proc} {early : Bool} {chan : Chan} {frame : Frame}
    (asleep : (state.kill process early).proc sleeper = .sleeping chan frame) :
    state.proc sleeper = .sleeping chan frame := by
  rcases State.sleeping_of_setProc asleep with ⟨same, rfl⟩ | asleep
  · split at same
    · exact same
    · exact absurd same CallState.rouse_ne_sleeping
  · exact asleep

theorem kill_kept (process : Proc) (early : Bool) : WakeupsKept (state.kill process early) :=
  ⟨fun sleeper frame asleep => kept.readers sleeper frame (sleeping_of_kill asleep),
    fun sleeper frame asleep => kept.writers sleeper frame (sleeping_of_kill asleep)⟩

end Segments

/-! ## Runs -/

omit [DecidableEq Proc] in
theorem Runs.unique {state : State Proc} {label : Label Proc} {first second : Proc}
    {frame other : Frame} (runs : Runs state label first frame)
    (again : Runs state label second other) : first = second ∧ frame = other := by
  cases runs with
  | call call here =>
    cases again with
    | call _ _ => exact ⟨rfl, rfl⟩
  | resume here =>
    cases again with
    | resume there => exact ⟨rfl, CallState.runnable.inj (here.symm.trans there)⟩

/-- A process that enters a segment was not asleep, so that the same readers
sleep before and after it enters. -/
theorem Runs.sleeping_iff {state : State Proc} {label : Label Proc} {process : Proc}
    {frame : Frame} (runs : Runs state label process frame) {sleeper : Proc} {chan : Chan}
    {other : Frame} :
    (state.setProc process .user).proc sleeper = .sleeping chan other ↔
      state.proc sleeper = .sleeping chan other := by
  by_cases same : sleeper = process
  · subst same
    rw [State.setProc_proc_self]
    cases runs with
    | call call here => rw [here]
    | resume here => simp [here]
  · rw [State.setProc_proc_of_ne state .user same]

theorem Moves.kept_iff {state : State Proc} {label : Label Proc} {outcome : Outcome Proc}
    (moves : Moves state label outcome) (bounded : state.pipe.count ≤ pipesize)
    (kept : WakeupsKept state) : WakeupsKept outcome.state ↔ Guarded state label := by
  cases moves with
  | @segment _ process frame runs =>
    cases frame with
    | write n rest =>
      refine (pipewrite_kept_iff (kept.enter process) bounded process n rest).trans ?_
      constructor
      · intro guarded other m left writes
        obtain ⟨rfl, same⟩ := runs.unique writes
        cases same
        intro reason long reader frame asleep
        exact guarded reason long reader frame (runs.sleeping_iff.mpr asleep)
      · intro guarded reason long reader frame asleep
        exact guarded process n rest runs reason long reader frame
          (runs.sleeping_iff.mp asleep)
    | read n =>
      refine iff_of_true (piperead_kept (kept.enter process) process n) ?_
      intro other m left writes
      cases (runs.unique writes).2
  | kill process early =>
    refine iff_of_true (kill_kept kept process early) ?_
    intro other m left writes
    cases writes
  | close writable =>
    refine iff_of_true (pipeclose_kept kept writable) ?_
    intro other m left writes
    cases writes

/-- Throughout a run, every sleeping reader waits at an empty pipe with an open
write end and every sleeping writer at a full pipe with an open read end,
exactly when no writer that is killed, or that finds the read end closed, starts
on more than `PIPESIZE` bytes while a reader sleeps. -/
theorem wakeups_kept_iff {data : Fin pipesize → UInt8} {trace : List (State Proc × Label Proc)}
    {finish : State Proc} (run : PipeRun data trace finish) :
    Throughout WakeupsKept trace finish ↔ ∀ entry ∈ trace, Guarded entry.1 entry.2 := by
  refine run.throughout_iff (fun state => state.pipe.count ≤ pipesize) WakeupsKept Guarded
    ?_ ?_ ?_ ?_
  · exact (distance_self (0 : BitVec 32)).le.trans (Nat.zero_le _)
  · refine ⟨?_, ?_⟩
    · intro process frame asleep
      cases asleep
    · intro process frame asleep
      cases asleep
  · intro state label next bounded stepped
    obtain ⟨outcome, -, moves, rfl⟩ := moves_of_step stepped
    exact (moves.queued bounded).bounded
  · intro state label next bounded kept stepped
    obtain ⟨outcome, -, moves, rfl⟩ := moves_of_step stepped
    exact moves.kept_iff bounded kept

def atHand (state : State Proc) : Label Proc → List UInt8
  | .call _ (.write bytes) => bytes
  | .resume process =>
    match state.proc process with
    | .runnable (.write _ rest) => rest
    | _ => []
  | _ => []

omit [DecidableEq Proc] in
theorem guarded_of_short {state : State Proc} {label : Label Proc}
    (short : (atHand state label).length ≤ pipesize) : Guarded state label := by
  intro process n rest runs _ long
  have same : atHand state label = rest := by
    generalize frameEq : Frame.write n rest = frame at runs
    cases runs with
    | call call here =>
      cases call with
      | write bytes => cases frameEq; rfl
      | read n => cases frameEq
    | resume here =>
      subst frameEq
      simp [atHand, here]
  rw [same] at short
  omega

/-- No wakeup is lost in the conversation. -/
theorem wakeups_kept_in_conversation :
    ∃ (trace : List (State (Fin 2) × Label (Fin 2))) (finish : State (Fin 2)),
      PipeRun (fun _ => 0) trace finish ∧ trace.map Prod.snd = conversation 0 1 ∧
        Throughout WakeupsKept trace finish := by
  refine exists_run_of_test (fun trace _ => ∀ entry ∈ trace,
    (atHand entry.1 entry.2).length ≤ pipesize) (by decide +kernel) ?_
  refine fun _ _ run _ short => (wakeups_kept_iff run).mpr ?_
  exact fun entry member => guarded_of_short (short entry member)

/-- Process 0 reads the empty pipe.  Process 1 is killed in the middle of a
`write` of 513 bytes: it stores 512 bytes and returns -1.  Process 0 is still
asleep. -/
theorem killed_writer_loses_wakeup :
    ∃ (trace : List (State (Fin 2) × Label (Fin 2))) (finish : State (Fin 2)) (frame : Frame),
      PipeRun (fun _ => 0) trace finish ∧
        trace.map Prod.snd =
          [.call 0 (.read 1), .kill 1 true, .call 1 (.write (List.replicate 513 7))] ∧
        finish.proc 0 = .sleeping .nread frame ∧ finish.pipe.nread ≠ finish.pipe.nwrite := by
  obtain ⟨trace, finish, run, labels, asleep, filled⟩ := @exists_run_of_decide
    (State (Fin 2)) _ step (State.initial fun _ => 0)
    [.call 0 (.read 1), .kill 1 true, .call 1 (.write (List.replicate 513 7))]
    (fun _ finish => (finish.proc 0).sleepsOn .nread ∧ finish.pipe.nread ≠ finish.pipe.nwrite)
    _ (by decide +kernel)
  obtain ⟨frame, same⟩ := CallState.exists_of_sleepsOn asleep
  exact ⟨trace, finish, frame, run, labels, same, filled⟩

end Pipes

end Xv6
