import Xv6.ProcessTableInvariant

/-!
# Processes born killed

`allocproc` does not initialise `killed`, so a new process starts with what its
slot holds.  `wait` clears the flag, but `kill` compares process ids in all slots:
an unused slot has the id 0, or the id that a failed `fork` left there.
-/

namespace Xv6

namespace ProcTable

open LabelledRun Socket
open KernelLock (Proc nproc Procstate Chan)

def Unborn (procstate : Procstate) : Prop :=
  procstate = .unused ∨ procstate = .embryo

instance (procstate : Procstate) : Decidable (Unborn procstate) :=
  inferInstanceAs (Decidable (_ ∨ _))

def Unmarked (state : State) : Prop :=
  ∀ slot, Unborn (state.ptable slot).state → (state.ptable slot).killed = false

/-- In the order of the table, a slot with a started process comes before every
unborn slot with the id that `kill` looks for. -/
def AimsAtProcess (state : State) : Label → Prop
  | .kill _ pid => ∀ slot, (state.ptable slot).pid = pid → Unborn (state.ptable slot).state →
      ∃ earlier < slot, (state.ptable earlier).pid = pid ∧
        ¬ Unborn (state.ptable earlier).state
  | _ => True

instance (state : State) (label : Label) : Decidable (AimsAtProcess state label) :=
  match label with
  | .kill _ pid =>
    inferInstanceAs (Decidable (∀ slot, (state.ptable slot).pid = pid →
      Unborn (state.ptable slot).state → ∃ earlier < slot, (state.ptable earlier).pid = pid ∧
        ¬ Unborn (state.ptable earlier).state))
  | .schedule _ | .yield _ | .allocproc _ | .forkFails _ | .linkParent _ | .forkEnds _ | .exit _
  | .wait _ | .resumeWait _ | .sleep _ _ | .resume _ | .wakeup _ => .isTrue trivial

section Steps

variable {state : State} {process : Proc}

theorem born_of_findPid {pid : BitVec 32} {slot : Proc}
    (aims : AimsAtProcess state (.kill process pid)) (found : state.findPid pid = some slot) :
    ¬ Unborn (state.ptable slot).state := by
  intro unborn
  obtain ⟨earlier, before, same, -⟩ :=
    aims slot (of_decide_eq_true (firstIndex_eq_some found)) unborn
  exact of_decide_eq_false (firstIndex_eq_false_of_lt found before) same

theorem kill_unmarked_iff {pid : BitVec 32} (unmarked : Unmarked state) :
    Unmarked (state.kill pid).state ↔ AimsAtProcess state (.kill process pid) := by
  constructor
  · intro after slot same unborn
    rw [State.kill] at after
    split at after
    · rename_i none
      exact absurd same (of_decide_eq_false (firstIndex_eq_none_iff.mp none slot))
    · rename_i hit found
      have hitPid := of_decide_eq_true (firstIndex_eq_some found)
      have hitBorn : ¬ Unborn (state.ptable hit).state := by
        intro hitUnborn
        have marked := after hit
        grind [Entry.kill, Unborn]
      have before : hit < slot := by
        by_contra behind
        rcases lt_or_eq_of_le (not_lt.mp behind) with lower | rfl
        · exact of_decide_eq_false (firstIndex_eq_false_of_lt found lower) same
        · exact hitBorn unborn
      exact ⟨hit, before, hitPid, hitBorn⟩
  · intro aims
    rw [State.kill]
    split
    · exact unmarked
    · rename_i hit found
      have born := born_of_findPid aims found
      intro slot unborn
      have clean := unmarked slot
      grind [Entry.kill, Unborn]

theorem wait_unmarked (unmarked : Unmarked state) : Unmarked (state.wait process).state := by
  rw [State.wait]
  split
  · intro slot
    have clean := unmarked slot
    grind [Entry.reap, Unborn]
  · split
    · exact unmarked
    · intro slot
      have clean := unmarked slot
      grind [Unborn]

/-- Only `kill` can mark a slot without a started process. -/
theorem Moves.unmarked_iff {label : Label} {outcome : Outcome}
    (moves : Moves state label outcome) (valid : Valid state) (unmarked : Unmarked state) :
    Unmarked outcome.state ↔ AimsAtProcess state label := by
  cases moves with
  | killed runs => exact kill_unmarked_iff unmarked
  | full runs => exact iff_of_true unmarked trivial
  | waited runs => exact iff_of_true (wait_unmarked unmarked) trivial
  | waitedAgain runs =>
    refine iff_of_true (wait_unmarked fun slot => ?_) trivial
    have clean := unmarked slot
    unfold State.tidyUp
    grind
  | exited runs notInit =>
    refine iff_of_true (fun slot => ?_) trivial
    have exits := exit_spec notInit
    rw [exits.killed slot]
    have clean := unmarked slot
    have self := exits.self
    have others := exits.others slot
    grind [Unborn]
  | @wokeUp address =>
    refine iff_of_true (fun slot => ?_) trivial
    have wakes := wakeup1_spec (some (.other address)) state
    rw [wakes.killed slot]
    have clean := unmarked slot
    have moved := wakes.state slot
    grind [Unborn]
  | @forkFailed process np runs =>
    have embryo := valid.forking process np false runs.2
    unfold State.forkFails
    exact iff_of_true (fun slot => by grind [Unborn, unmarked slot]) trivial
  | linked runs =>
    unfold State.linkParent
    exact iff_of_true (fun slot => by grind [unmarked slot]) trivial
  | forked runs =>
    unfold State.forkEnds
    exact iff_of_true (fun slot => by grind [Unborn, unmarked slot]) trivial
  | slept runs =>
    unfold State.sleep
    exact iff_of_true (fun slot => by grind [Unborn, unmarked slot]) trivial
  | resumed runs =>
    unfold State.tidyUp
    exact iff_of_true (fun slot => by grind [unmarked slot]) trivial
  | scheduled runnable =>
    exact iff_of_true (fun slot => by grind [Unborn, unmarked slot]) trivial
  | yielded running =>
    exact iff_of_true (fun slot => by grind [Unborn, unmarked slot]) trivial
  | allocated runs unused =>
    exact iff_of_true (fun slot => by grind [Unborn, unmarked slot]) trivial

end Steps

/-- `kill` changes one slot in use, or returns -1 and changes nothing. -/
def KillsProcess (state : State) (outcome : Outcome) : Prop :=
  (outcome.code = some (-1) ∧ outcome.state = state) ∨
    (outcome.code = some 0 ∧ ∃ slot, (state.ptable slot).state ≠ .unused ∧
      outcome.state = state.setEntry slot Entry.kill)

theorem killsProcess_of_aims {state : State} {process : Proc} {pid : BitVec 32}
    (aims : AimsAtProcess state (.kill process pid)) : KillsProcess state (state.kill pid) := by
  rw [State.kill]
  split
  · exact .inl ⟨rfl, rfl⟩
  · rename_i slot found
    have born := born_of_findPid aims found
    exact .inr ⟨rfl, slot, fun unused => born (.inl unused), rfl⟩

variable {initproc : Proc} {trace : List (State × Label)} {finish : State}

theorem unmarked_throughout_iff (run : ProcessRun initproc trace finish) :
    Throughout Unmarked trace finish ↔ ∀ entry ∈ trace, AimsAtProcess entry.1 entry.2 := by
  refine run.throughout_iff Valid Unmarked AimsAtProcess (valid_initial initproc) ?_ ?_ ?_
  · intro slot
    simp only [State.initial]
    split <;> simp
  · intro state label next valid stepped
    obtain ⟨outcome, -, moves, rfl⟩ := moves_of_step stepped
    exact moves.valid valid
  · intro state label next valid unmarked stepped
    obtain ⟨outcome, -, moves, rfl⟩ := moves_of_step stepped
    exact moves.unmarked_iff valid unmarked

/-- Unused slots and embryos are unmarked throughout a run, every process that
`fork` creates starts unkilled, and every `kill` changes a slot in use or
nothing, exactly when every `kill` of the run finds a process that has started
before any unborn slot with its id. -/
theorem born_unkilled_iff (run : ProcessRun initproc trace finish) :
    (Throughout Unmarked trace finish ∧
        (∀ state process np, (state, .forkEnds process) ∈ trace →
          state.activity process = .forking np true →
            ((state.forkEnds process np).state.ptable np).killed = false) ∧
        ∀ state process pid outcome, (state, .kill process pid) ∈ trace →
          transition state (.kill process pid) = some outcome → KillsProcess state outcome) ↔
      ∀ entry ∈ trace, AimsAtProcess entry.1 entry.2 := by
  constructor
  · rintro ⟨unmarked, -, -⟩
    exact (unmarked_throughout_iff run).mp unmarked
  · intro aims
    have unmarked := (unmarked_throughout_iff run).mpr aims
    refine ⟨unmarked, ?_, ?_⟩
    · intro state process np member begun
      have embryo := ((valid_throughout run).1 _ member).forking process np true begun
      have unkilled := unmarked.1 _ member np (.inr embryo)
      unfold State.forkEnds
      grind
    · intro state process pid outcome member moved
      obtain ⟨-, rfl⟩ := whenRuns_eq_some moved
      exact killsProcess_of_aims (aims _ member)

def killedChild (init child : Proc) : List Label :=
  [.schedule init, .allocproc init, .linkParent init, .forkEnds init, .kill init 2, .wait init,
    .schedule child, .exit child, .schedule init, .resumeWait init]

theorem born_unkilled_in_killedChild :
    ∃ trace finish, ProcessRun 0 trace finish ∧ trace.map Prod.snd = killedChild 0 1 ∧
      Throughout Unmarked trace finish := by
  refine exists_run_of_test (fun trace _ => ∀ entry ∈ trace, AimsAtProcess entry.1 entry.2)
    (by decide +kernel) ?_
  exact fun _ _ run _ aimed => ((born_unkilled_iff run).mpr aimed).1

/-- `kill(0)` marks the first unused slot, whose process id is 0.  The next
process that is forked is killed from the start. -/
theorem kill_zero_marks_unused :
    ∃ trace finish, ProcessRun 0 trace finish ∧
      trace.map Prod.snd =
        [.schedule 0, .kill 0 0, .allocproc 0, .linkParent 0, .forkEnds 0] ∧
      ¬ Throughout Unmarked trace finish ∧ (finish.ptable 1).state = .runnable ∧
      (finish.ptable 1).parent = some 0 ∧ (finish.ptable 1).killed = true := by
  refine exists_run_of_test (fun trace finish => (∃ entry ∈ trace,
      (entry.1.ptable 1).state = .unused ∧ (entry.1.ptable 1).killed = true) ∧
    (finish.ptable 1).state = .runnable ∧ (finish.ptable 1).parent = some 0 ∧
      (finish.ptable 1).killed = true) (by decide +kernel) ?_
  rintro _ _ - - ⟨⟨entry, member, unused, marked⟩, born⟩
  refine ⟨?_, born⟩
  intro unmarked
  rw [unmarked.1 entry member 1 (.inl unused)] at marked
  cases marked

end ProcTable

end Xv6
