import Xv6.PipeCalls

/-!
# Pipes are queues

The bytes between the two counters of a pipe are a queue of at most `PIPESIZE`
bytes, also when the counters wrap.  Every segment takes the bytes it returns from
the front of the queue and adds the bytes it stores at the end.
-/

namespace Xv6

namespace Pipes

open LabelledRun RingBuffer

namespace Pipe

def count (p : Pipe) : Nat :=
  distance p.nread p.nwrite

def contents (p : Pipe) : List UInt8 :=
  slice p.data p.nread p.count

variable {p : Pipe}

theorem full_iff : p.Full ↔ p.count = pipesize :=
  eq_add_iff_distance (by decide)

theorem contents_length : p.contents.length = p.count :=
  slice_length _ _ _

theorem count_eq_zero_iff : p.count = 0 ↔ p.nread = p.nwrite :=
  distance_eq_zero_iff

theorem count_put (room : p.count < pipesize) (byte : UInt8) :
    (p.put byte).count = p.count + 1 := by
  apply distance_succ_right
  have small : p.count < 512 := room
  change p.count + 1 < 2 ^ 32
  omega

theorem contents_put (room : p.count < pipesize) (byte : UInt8) :
    (p.put byte).contents = p.contents ++ [byte] := by
  rw [contents, count_put room]
  have last : p.nread + BitVec.ofNat 32 p.count = p.nwrite := add_distance p.nread p.nwrite
  change slice (RingBuffer.put p.data p.nwrite byte) p.nread (p.count + 1) = _
  rw [← last]
  exact slice_put_succ (by decide) room p.data byte

theorem contents_eq_cons (some : p.nread ≠ p.nwrite) :
    p.contents = p.data (cell pipesize p.nread) ::
      ({ p with nread := p.nread + 1 } : Pipe).contents := by
  have positive : 0 < p.count := Nat.pos_of_ne_zero (some ∘ count_eq_zero_iff.mp)
  have next : ({ p with nread := p.nread + 1 } : Pipe).count = p.count - 1 :=
    distance_succ_left positive
  rw [contents, contents, next, ← slice_succ_left, Nat.sub_add_cancel positive]

end Pipe

/-- What the loop of `pipewrite` does with the bytes it is given. -/
structure Wrote (p : Pipe) (rest : List UInt8) (q : Pipe) (left : List UInt8) : Prop where
  bounded : q.count ≤ pipesize
  nread : q.nread = p.nread
  readopen : q.readopen = p.readopen
  writeopen : q.writeopen = p.writeopen
  taken : ∃ taken, rest = taken ++ left ∧ q.contents = p.contents ++ taken
  stops : left ≠ [] → q.Full

theorem writeLoop_spec {rest : List UInt8} {p : Pipe} (bounded : p.count ≤ pipesize) :
    Wrote p rest (writeLoop rest p).1 (writeLoop rest p).2 := by
  induction rest generalizing p with
  | nil =>
    exact ⟨bounded, rfl, rfl, rfl, ⟨[], rfl, (List.append_nil _).symm⟩,
      fun none => absurd rfl none⟩
  | cons byte rest ih =>
    rw [writeLoop]
    split
    · rename_i full
      exact ⟨bounded, rfl, rfl, rfl, ⟨[], rfl, (List.append_nil _).symm⟩, fun _ => full⟩
    · rename_i notFull
      have room : p.count < pipesize := lt_of_le_of_ne bounded (notFull ∘ Pipe.full_iff.mpr)
      have later := @ih (p.put byte) (by rw [Pipe.count_put room]; omega)
      obtain ⟨taken, split, contents⟩ := later.taken
      refine ⟨later.bounded, later.nread, later.readopen, later.writeopen,
        ⟨byte :: taken, congrArg (byte :: ·) split, ?_⟩, later.stops⟩
      rw [contents, Pipe.contents_put room, List.append_assoc, List.singleton_append]

structure Took (p : Pipe) (n : Nat) (q : Pipe) (bytes : List UInt8) : Prop where
  nwrite : q.nwrite = p.nwrite
  readopen : q.readopen = p.readopen
  writeopen : q.writeopen = p.writeopen
  contents : p.contents = bytes ++ q.contents
  stops : bytes = [] → n = 0 ∨ p.nread = p.nwrite

theorem readLoop_spec {n : Nat} {p : Pipe} :
    Took p n (readLoop n p).1 (readLoop n p).2 := by
  induction n generalizing p with
  | zero => exact ⟨rfl, rfl, rfl, rfl, fun _ => .inl rfl⟩
  | succ n ih =>
    rw [readLoop]
    split
    · rename_i empty
      exact ⟨rfl, rfl, rfl, rfl, fun _ => .inr empty⟩
    · rename_i some
      have later := @ih { p with nread := p.nread + 1 }
      refine ⟨later.nwrite, later.readopen, later.writeopen, ?_, fun none => by cases none⟩
      rw [Pipe.contents_eq_cons some, later.contents]
      rfl

theorem Took.count_le {p q : Pipe} {n : Nat} {bytes : List UInt8} (took : Took p n q bytes) :
    q.count ≤ p.count := by
  have lengths := congrArg List.length took.contents
  rw [List.length_append, Pipe.contents_length, Pipe.contents_length] at lengths
  omega

/-! ## One segment -/

variable {Proc : Type}

/-- A segment keeps the bound, returns bytes from the front of the queue, and
adds its stored bytes at the end. -/
structure Queued (before : Pipe) (outcome : Outcome Proc) : Prop where
  bounded : outcome.state.pipe.count ≤ pipesize
  flow : outcome.returned ++ outcome.state.pipe.contents = before.contents ++ outcome.stored

theorem Queued.of_same {before : Pipe} {outcome : Outcome Proc}
    (bounded : before.count ≤ pipesize) (contents : outcome.state.pipe.contents = before.contents)
    (stored : outcome.stored = []) (returned : outcome.returned = []) :
    Queued before outcome := by
  refine ⟨?_, ?_⟩
  · rw [← Pipe.contents_length, contents, Pipe.contents_length]
    exact bounded
  · rw [stored, returned, contents, List.append_nil, List.nil_append]

variable [DecidableEq Proc]

theorem State.pipewrite_queued {state : State Proc} (bounded : state.pipe.count ≤ pipesize)
    (process : Proc) (n : Nat) (rest : List UInt8) :
    Queued state.pipe (state.pipewrite process n rest) := by
  have wrote := @writeLoop_spec rest state.pipe bounded
  obtain ⟨taken, split, contents⟩ := wrote.taken
  have count : rest.take (rest.length - (writeLoop rest state.pipe).2.length) = taken := by
    grind [List.length_append, Nat.add_sub_cancel, List.take_left]
  rw [State.pipewrite, count]
  split
  · exact ⟨wrote.bounded, contents⟩
  split
  · exact ⟨wrote.bounded, contents⟩
  · exact ⟨wrote.bounded, contents⟩

theorem State.piperead_queued {state : State Proc} (bounded : state.pipe.count ≤ pipesize)
    (process : Proc) (n : Nat) : Queued state.pipe (state.piperead process n) := by
  have took := @readLoop_spec n state.pipe
  rw [State.piperead]
  split
  · split
    · exact .of_same bounded rfl rfl rfl
    · exact .of_same bounded rfl rfl rfl
  · refine ⟨took.count_le.trans bounded, ?_⟩
    rw [List.append_nil]
    exact took.contents.symm

omit [DecidableEq Proc] in
theorem State.pipeclose_contents (state : State Proc) (writable : Bool) :
    (state.pipeclose writable).pipe.contents = state.pipe.contents := by
  cases writable <;> rfl

theorem Moves.queued {state : State Proc} {label : Label Proc} {outcome : Outcome Proc}
    (moves : Moves state label outcome) (bounded : state.pipe.count ≤ pipesize) :
    Queued state.pipe outcome := by
  cases moves with
  | @segment _ process frame _ =>
    have entered : (state.setProc process .user).pipe.count ≤ pipesize := bounded
    cases frame with
    | write n rest => exact State.pipewrite_queued entered process n rest
    | read n => exact State.piperead_queued entered process n
  | kill process early => exact .of_same bounded rfl rfl rfl
  | close writable => exact .of_same bounded (state.pipeclose_contents writable) rfl rfl

/-! ## Runs -/

theorem count_le_throughout {data : Fin pipesize → UInt8} {trace : List (State Proc × Label Proc)}
    {finish : State Proc} (run : PipeRun data trace finish) :
    Throughout (fun state => state.pipe.count ≤ pipesize) trace finish := by
  apply run.always
  · exact (distance_self (0 : BitVec 32)).le.trans (Nat.zero_le _)
  · intro state label next bounded stepped
    obtain ⟨outcome, -, moves, rfl⟩ := moves_of_step stepped
    exact (moves.queued bounded).bounded

/-- The bytes stored are the bytes returned, followed by those in the pipe. -/
theorem stored_eq_returned_append {data : Fin pipesize → UInt8}
    {trace : List (State Proc × Label Proc)} {finish : State Proc}
    (run : PipeRun data trace finish) :
    stored trace = returned trace ++ finish.pipe.contents := by
  induction run with
  | nil =>
    have none : (State.initial data : State Proc).pipe.count = 0 := distance_self 0
    rw [Pipe.contents, none]
    rfl
  | @snoc trace current next label run stepped ih =>
    obtain ⟨outcome, moved, moves, rfl⟩ := moves_of_step stepped
    have queued := moves.queued (count_le_throughout run).2
    have storedSnoc : stored (trace ++ [(current, label)]) = stored trace ++ outcome.stored := by
      simp [stored, moved]
    have returnedSnoc :
        returned (trace ++ [(current, label)]) = returned trace ++ outcome.returned := by
      simp [returned, moved]
    rw [storedSnoc, returnedSnoc, ih, List.append_assoc, List.append_assoc, queued.flow]

theorem outcome_of_runs {state : State Proc} {label : Label Proc} {outcome : Outcome Proc}
    {process : Proc} {frame : Frame} (moved : transition state label = some outcome)
    (runs : Runs state label process frame) :
    outcome = frame.run process (state.setProc process .user) := by
  cases moves_of_transition moved with
  | segment other =>
    cases runs with
    | call call here => cases other; rfl
    | resume here =>
      cases other with
      | resume there => rw [CallState.runnable.inj (here.symm.trans there)]
  | kill other early => cases runs
  | close writable => cases runs

/-- A `piperead` that returns zero has found the pipe empty and its write end
closed, unless nothing was asked for. -/
theorem piperead_zero {state : State Proc} {process : Proc} {n : Nat}
    (zero : (state.piperead process n).code = some 0) (positive : 0 < n) :
    state.pipe.nread = state.pipe.nwrite ∧ state.pipe.writeopen = false := by
  rw [State.piperead] at zero
  split at zero
  · grind
  · rename_i awake
    have none : (readLoop n state.pipe).2 = [] := by
      simp_all
    have empty : state.pipe.nread = state.pipe.nwrite := by
      rcases readLoop_spec.stops none with same | same
      · omega
      · exact same
    exact ⟨empty, by simpa [empty] using awake⟩

/-- Pipes are lossless queues: the counters stay within `PIPESIZE` of each
other, the bytes returned by reads are a prefix of the bytes stored by writes,
and a read of some length returns zero only when all stored bytes have been
returned and the write end is closed. -/
theorem pipes_are_queues {data : Fin pipesize → UInt8} {trace : List (State Proc × Label Proc)}
    {finish : State Proc} (run : PipeRun data trace finish) :
    Throughout (fun state => (state.pipe.nwrite - state.pipe.nread).toNat ≤ pipesize) trace
        finish ∧
      returned trace <+: stored trace ∧
      ∀ before state label after outcome process n,
        trace = before ++ (state, label) :: after → transition state label = some outcome →
          Runs state label process (.read n) → 0 < n → outcome.code = some 0 →
            returned before = stored before ∧ state.pipe.writeopen = false := by
  refine ⟨count_le_throughout run,
    ⟨finish.pipe.contents, (stored_eq_returned_append run).symm⟩, ?_⟩
  rintro before state label after outcome process n rfl moved reads positive zero
  obtain ⟨middle, first, rest⟩ := run.split
  obtain ⟨rfl, -⟩ := rest.head
  have returns := outcome_of_runs moved reads
  rw [returns] at zero
  obtain ⟨empty, closed⟩ :=
    @piperead_zero Proc _ (state.setProc process .user) process n zero positive
  have empty : state.pipe.nread = state.pipe.nwrite := empty
  have none : state.pipe.contents = [] := by
    rw [Pipe.contents, Pipe.count_eq_zero_iff.mpr empty, slice_zero]
  refine ⟨?_, closed⟩
  rw [stored_eq_returned_append first, none, List.append_nil]

/-- A reader waits for a writer, both ends work on in turn, and after the write
end is closed the last read returns zero. -/
def conversation (reader writer : Proc) : List (Label Proc) :=
  [.call reader (.read 2), .call writer (.write [1, 2, 3]), .resume reader, .close true,
    .call reader (.read 5), .call reader (.read 5)]

theorem pipe_is_queue_in_conversation :
    ∃ (trace : List (State (Fin 2) × Label (Fin 2))) (finish : State (Fin 2)),
      PipeRun (fun _ => 0) trace finish ∧ trace.map Prod.snd = conversation 0 1 ∧
        returned trace = [1, 2, 3] ∧ returned trace <+: stored trace := by
  refine exists_run_of_test (fun trace _ => returned trace = [1, 2, 3]) (by decide +kernel) ?_
  exact fun _ _ run _ read => ⟨read, (pipes_are_queues run).2.1⟩

end Pipes

end Xv6
