import Mathlib.Algebra.Ring.Nat
import Xv6.ProcessTableInvariant

/-!
# Every child is reaped once

Process ids are handed out in order, so two slots in use never share one while
fewer than `2 ^ 31` forks have been made.  The parent of a child is its creator
until that process exits, and init from then on; only the parent's `wait` returns
the child.
-/

namespace Xv6

namespace ProcTable

open LabelledRun Socket
open KernelLock (Proc nproc Procstate Chan)

def waiter? : Label → Option Proc
  | .wait process => some process
  | .resumeWait process => some process
  | _ => none

/-- In this step of a run, a `wait` of the process returns the process id. -/
def Reaps (entry : State × Label) (waiter : Proc) (pid : BitVec 32) : Prop :=
  waiter? entry.2 = some waiter ∧ code entry.1 entry.2 = some pid

def forks (trace : List (State × Label)) : Nat :=
  trace.countP fun entry => entry.2 matches .allocproc _

/-- Who waits for a child of the creator after these steps. -/
def heir (creator initproc : Proc) (trace : List (State × Label)) : Proc :=
  if ∃ entry ∈ trace, entry.2 = .exit creator then initproc else creator

/-! ## Process ids and parents after a step -/

/-- How the slots in use after a step come from those before it. -/
structure Evolves (label : Label) (before after : State) : Prop where
  initproc : after.initproc = before.initproc
  nextpid : after.nextpid = before.nextpid ∨
    (∃ process, label = .allocproc process) ∧ after.nextpid = before.nextpid + 1
  slots : ∀ slot, (after.ptable slot).state ≠ .unused →
    ((before.ptable slot).state ≠ .unused ∧
        (after.ptable slot).pid = (before.ptable slot).pid) ∨
      ((before.ptable slot).state = .unused ∧ (after.ptable slot).pid = before.nextpid ∧
        after.nextpid = before.nextpid + 1 ∧ ∀ other, (before.ptable other).state = .unused →
          (after.ptable other).state ≠ .unused → other = slot)
  started : ∀ slot, (before.ptable slot).state ≠ .unused →
    (before.ptable slot).state ≠ .embryo → (after.ptable slot).state ≠ .embryo
  kept : ∀ slot parent, (before.ptable slot).state ≠ .unused →
    (before.ptable slot).state ≠ .embryo → (after.ptable slot).state ≠ .unused →
      (before.ptable slot).parent = some parent → label ≠ .exit parent →
        (after.ptable slot).parent = some parent
  passed : ∀ slot parent, (before.ptable slot).parent = some parent → label = .exit parent →
    (after.ptable slot).parent = some before.initproc

/-- Steps that neither take a slot nor free one and leave ids and parents alone. -/
theorem Evolves.of_same {label : Label} {before after : State}
    (initproc : after.initproc = before.initproc) (nextpid : after.nextpid = before.nextpid)
    (pid : ∀ slot, (after.ptable slot).pid = (before.ptable slot).pid)
    (parent : ∀ slot, (after.ptable slot).parent = (before.ptable slot).parent)
    (unused : ∀ slot, (after.ptable slot).state = .unused ↔ (before.ptable slot).state = .unused)
    (embryo : ∀ slot, (after.ptable slot).state = .embryo → (before.ptable slot).state = .embryo)
    (notExit : ∀ process, label ≠ .exit process) : Evolves label before after := by
  constructor
  case nextpid => exact .inl nextpid
  all_goals grind

section Steps

variable {state : State} {process : Proc} {label : Label}

theorem wait_evolves (running : (state.ptable process).state = .running)
    (notExit : ∀ process, label ≠ .exit process) :
    Evolves label state (state.wait process).state := by
  rw [State.wait]
  split
  · constructor
    case nextpid => exact .inl rfl
    all_goals grind [Entry.reap]
  · grind [Evolves.of_same]

theorem Moves.evolves {outcome : Outcome} (moves : Moves state label outcome)
    (valid : Valid state) : Evolves label state outcome.state := by
  cases moves with
  | scheduled runnable => apply Evolves.of_same <;> grind
  | yielded running => apply Evolves.of_same <;> grind
  | full runs => apply Evolves.of_same <;> grind
  | allocated runs unused =>
    constructor
    case nextpid => exact .inr ⟨⟨_, rfl⟩, rfl⟩
    all_goals grind
  | @forkFailed process np runs =>
    unfold State.forkFails
    constructor
    case nextpid => exact .inl rfl
    all_goals grind
  | @linked process np runs =>
    have embryo := valid.forking process np false runs.2
    unfold State.linkParent
    constructor
    case nextpid => exact .inl rfl
    all_goals grind
  | @forked process np runs =>
    have embryo := valid.forking process np true runs.2
    unfold State.forkEnds
    constructor
    case nextpid => exact .inl rfl
    all_goals grind
  | exited runs notInit =>
    obtain ⟨keeps, parent, self, others, -, -⟩ := exit_spec notInit
    have pid := keeps.pid
    constructor
    case initproc => exact keeps.initproc
    case nextpid => exact .inl keeps.nextpid
    all_goals grind [runs.1]
  | waited runs => exact wait_evolves runs.1 (by simp)
  | @waitedAgain process runs =>
    obtain ⟨initproc, nextpid, slots, started, kept, passed⟩ :=
      wait_evolves runs.tidyUp.1 (show ∀ other, .resumeWait process ≠ Label.exit other by simp)
    have same : ∀ slot, ((state.tidyUp process).ptable slot).state = (state.ptable slot).state ∧
        ((state.tidyUp process).ptable slot).pid = (state.ptable slot).pid ∧
          ((state.tidyUp process).ptable slot).parent = (state.ptable slot).parent := by
      unfold State.tidyUp
      grind
    constructor
    case initproc => exact initproc
    case nextpid => exact nextpid
    all_goals grind
  | slept runs =>
    unfold State.sleep
    apply Evolves.of_same <;> grind [runs.1]
  | resumed runs =>
    unfold State.tidyUp
    apply Evolves.of_same <;> grind
  | @wokeUp address =>
    obtain ⟨keeps, parent, moved, -⟩ := wakeup1_spec (some (.other address)) state
    apply Evolves.of_same keeps.initproc keeps.nextpid keeps.pid parent <;> grind
  | killed runs =>
    rw [State.kill]
    split
    · apply Evolves.of_same <;> grind
    · apply Evolves.of_same <;> grind [Entry.kill]

end Steps

/-! ## What waits return -/

variable {state : State} {pid : BitVec 32}

theorem wait_code {process : Proc} (returned : (state.wait process).code = some pid)
    (isPid : pid ≠ -1) :
    ∃ child, (state.ptable child).parent = some process ∧
      (state.ptable child).state = .zombie ∧ (state.ptable child).pid = pid ∧
        ((state.wait process).state.ptable child).state = .unused := by
  unfold State.wait at returned ⊢
  split at returned
  · rename_i child found
    obtain ⟨isChild, zombie⟩ := of_decide_eq_true (firstIndex_eq_some found)
    exact ⟨child, isChild, zombie, Option.some.inj returned, by grind [Entry.reap]⟩
  · grind

/-- A `wait` that returns a process id frees the slot of a child that had it. -/
theorem Reaps.spec {label : Label} {outcome : Outcome} {waiter : Proc}
    (reaps : Reaps (state, label) waiter pid) (moved : transition state label = some outcome)
    (isPid : pid ≠ -1) :
    ∃ child, (state.ptable child).parent = some waiter ∧
      (state.ptable child).state = .zombie ∧ (state.ptable child).pid = pid ∧
        (outcome.state.ptable child).state = .unused := by
  obtain ⟨waits, returned⟩ := reaps
  have returned : outcome.code = some pid := by
    simpa only [code, moved, Option.bind_some] using returned
  cases label with
  | wait process =>
    cases waits
    obtain ⟨-, rfl⟩ := whenRuns_eq_some moved
    exact wait_code returned isPid
  | resumeWait process =>
    cases waits
    obtain ⟨-, rfl⟩ := whenRuns_eq_some moved
    obtain ⟨child, isChild, zombie, same, freed⟩ := wait_code returned isPid
    refine ⟨child, ?_, ?_, ?_, freed⟩
    · unfold State.tidyUp at isChild
      grind
    · unfold State.tidyUp at zombie
      grind
    · unfold State.tidyUp at same
      grind
  | _ => cases waits

theorem heir_snoc (creator initproc : Proc) (trace : List (State × Label)) (state : State)
    (label : Label) :
    heir creator initproc (trace ++ [(state, label)]) =
      if label = .exit creator then initproc else heir creator initproc trace := by
  unfold heir
  by_cases exits : label = .exit creator
  · simp [exits]
  · have same : (∃ entry ∈ trace ++ [(state, label)], entry.2 = .exit creator) ↔
        ∃ entry ∈ trace, entry.2 = .exit creator := by
      simp [exits]
    rw [if_neg exits]
    exact if_congr same rfl rfl

theorem heir_eq (creator initproc : Proc) (trace : List (State × Label)) :
    heir creator initproc trace = creator ∨ heir creator initproc trace = initproc := by
  unfold heir
  split
  · exact .inr rfl
  · exact .inl rfl

theorem forks_snoc (trace : List (State × Label)) (state : State) (label : Label) :
    forks trace ≤ forks (trace ++ [(state, label)]) := by
  simp [forks, List.countP_append]

theorem forks_allocproc (trace : List (State × Label)) (state : State) (process : Proc) :
    forks (trace ++ [(state, .allocproc process)]) = forks trace + 1 := by
  simp [forks, List.countP_append]

/-- What the past of a run says about the slots in use. -/
structure Ledger (initproc : Proc) (trace : List (State × Label)) (state : State) : Prop where
  init : state.initproc = initproc
  nextpid : state.nextpid.toNat ≤ forks trace + 2
  pids : ∀ slot, (state.ptable slot).state ≠ .unused →
    (state.ptable slot).pid.toNat < state.nextpid.toNat
  distinct : ∀ slot other, (state.ptable slot).state ≠ .unused →
    (state.ptable other).state ≠ .unused →
      (state.ptable slot).pid = (state.ptable other).pid → slot = other
  reaped : ∀ entry ∈ trace, ∀ waiter pid, Reaps entry waiter pid → pid ≠ -1 →
    pid.toNat < state.nextpid.toNat ∧
      ∀ slot, (state.ptable slot).state ≠ .unused → (state.ptable slot).pid ≠ pid
  parents : ∀ before past creator after pid, trace = before ++ (past, .forkEnds creator) :: after →
    code past (.forkEnds creator) = some pid → pid.toNat < state.nextpid.toNat ∧
      ∀ slot, (state.ptable slot).state ≠ .unused → (state.ptable slot).pid = pid →
        (state.ptable slot).state ≠ .embryo ∧
          (state.ptable slot).parent = some (heir creator initproc after)

theorem ledger_initial (initproc : Proc) : Ledger initproc [] (State.initial initproc) := by
  have used : ∀ slot, ((State.initial initproc).ptable slot).state ≠ .unused →
      slot = initproc := by
    intro slot
    simp only [State.initial]
    split <;> simp_all
  constructor
  case init => rfl
  case nextpid => exact le_rfl
  case pids =>
    intro slot isUsed
    obtain rfl := used slot isUsed
    simp [State.initial]
  case distinct =>
    intro slot other isUsed otherUsed _
    rw [used slot isUsed, used other otherUsed]
  case reaped => simp
  case parents => simp

section LedgerSteps

variable {initproc : Proc} {trace : List (State × Label)} {state : State} {label : Label}
  {outcome : Outcome}

theorem Ledger.nextpid_le (ledger : Ledger initproc trace state)
    (few : forks (trace ++ [(state, label)]) < 2 ^ 31)
    (evolves : Evolves label state outcome.state) :
    state.nextpid.toNat ≤ outcome.state.nextpid.toNat ∧
      outcome.state.nextpid.toNat ≤ forks (trace ++ [(state, label)]) + 2 ∧
      (outcome.state.nextpid = state.nextpid + 1 →
        state.nextpid.toNat < outcome.state.nextpid.toNat) := by
  have bound := ledger.nextpid
  have more := forks_snoc trace state label
  have next : (state.nextpid + 1).toNat = state.nextpid.toNat + 1 := by
    grind
  rcases evolves.nextpid with same | ⟨⟨process, rfl⟩, same⟩
  · grind
  · rw [forks_allocproc, same, next]
    omega

variable {slot : Proc}

theorem Ledger.pids_step (ledger : Ledger initproc trace state)
    (few : forks (trace ++ [(state, label)]) < 2 ^ 31)
    (evolves : Evolves label state outcome.state)
    (used : (outcome.state.ptable slot).state ≠ .unused) :
    (outcome.state.ptable slot).pid.toNat < outcome.state.nextpid.toNat := by
  obtain ⟨grows, -, strictly⟩ := ledger.nextpid_le few evolves
  rcases evolves.slots slot used with ⟨was, same⟩ | ⟨-, same, next, -⟩
  · rw [same]
    exact (ledger.pids slot was).trans_le grows
  · rw [same]
    exact strictly next

/-- An id below the next one that no slot in use has is not used again. -/
theorem Evolves.pid_gone (evolves : Evolves label state outcome.state) {pid : BitVec 32}
    (old : pid.toNat < state.nextpid.toNat)
    (gone : ∀ slot, (state.ptable slot).state ≠ .unused →
      (outcome.state.ptable slot).state ≠ .unused → (state.ptable slot).pid ≠ pid)
    (used : (outcome.state.ptable slot).state ≠ .unused) :
    (outcome.state.ptable slot).pid ≠ pid := by
  rcases evolves.slots slot used with ⟨was, same⟩ | ⟨-, same, -, -⟩
  · rw [same]
    exact gone slot was used
  · grind

theorem init_stays (moved : transition state label = some outcome) :
    label ≠ .exit state.initproc := by
  rintro rfl
  simp [transition] at moved

theorem Ledger.parents_forked (ledger : Ledger initproc trace state) (valid : Valid state)
    {creator : Proc} (moved : transition state (.forkEnds creator) = some outcome)
    (few : forks (trace ++ [(state, .forkEnds creator)]) < 2 ^ 31) {pid : BitVec 32}
    (returned : code state (.forkEnds creator) = some pid) :
    pid.toNat < outcome.state.nextpid.toNat ∧
      ∀ slot, (outcome.state.ptable slot).state ≠ .unused →
        (outcome.state.ptable slot).pid = pid →
          (outcome.state.ptable slot).state ≠ .embryo ∧
            (outcome.state.ptable slot).parent = some (heir creator initproc []) := by
  have evolves := (moves_of_transition moved).evolves valid
  obtain ⟨grows, -, -⟩ := ledger.nextpid_le few evolves
  rw [code, moved] at returned
  obtain ⟨np, runs, rfl⟩ := whenForking_eq_some moved
  cases returned
  have embryo := valid.forking creator np true runs.2
  have isParent := valid.linked creator np runs.2
  have wasUsed : (state.ptable np).state ≠ .unused := by simp [embryo]
  have small := ledger.pids np wasUsed
  refine ⟨small.trans_le grows, fun slot used same => ?_⟩
  have isChild : slot = np := by
    rcases evolves.slots slot used with ⟨was, kept⟩ | ⟨-, fresh, -, -⟩
    · exact ledger.distinct slot np was wasUsed (kept.symm.trans same)
    · grind
  unfold State.forkEnds
  have alone : heir creator initproc [] = creator := by simp [heir]
  exact ⟨by grind, by grind⟩

theorem Evolves.heir_step (evolves : Evolves label state outcome.state) {creator : Proc}
    {past : List (State × Label)} (init : state.initproc = initproc)
    (stays : label ≠ .exit initproc) (used : (state.ptable slot).state ≠ .unused)
    (started : (state.ptable slot).state ≠ .embryo)
    (stillUsed : (outcome.state.ptable slot).state ≠ .unused)
    (isParent : (state.ptable slot).parent = some (heir creator initproc past)) :
    (outcome.state.ptable slot).parent =
      some (if label = .exit creator then initproc else heir creator initproc past) := by
  by_cases exits : label = .exit (heir creator initproc past)
  · have isCreator : heir creator initproc past = creator := by
      rcases heir_eq creator initproc past with same | same
      · exact same
      · grind
    rw [isCreator] at exits isParent
    rw [if_pos exits, evolves.passed slot creator isParent exits, init]
  · rw [evolves.kept slot _ used started stillUsed isParent exits]
    split
    · rename_i creatorExits
      rcases heir_eq creator initproc past with same | same
      · grind
      · rw [same]
    · rfl

theorem Ledger.step (ledger : Ledger initproc trace state) (valid : Valid state)
    (moved : transition state label = some outcome)
    (few : forks (trace ++ [(state, label)]) < 2 ^ 31) :
    Ledger initproc (trace ++ [(state, label)]) outcome.state := by
  have evolves := (moves_of_transition moved).evolves valid
  obtain ⟨grows, bound, strictly⟩ := ledger.nextpid_le few evolves
  constructor
  case init => exact evolves.initproc.trans ledger.init
  case nextpid => exact bound
  case pids => exact fun slot used => ledger.pids_step few evolves used
  case distinct =>
    intro slot other used otherUsed same
    rcases evolves.slots slot used with ⟨was, kept⟩ | ⟨wasUnused, fresh, -, only⟩
    · rcases evolves.slots other otherUsed with ⟨otherWas, otherKept⟩ | ⟨-, otherFresh, -, -⟩
      · exact ledger.distinct slot other was otherWas (by rw [← kept, same, otherKept])
      · have smaller := ledger.pids slot was
        rw [← kept, same, otherFresh] at smaller
        exact absurd smaller (lt_irrefl _)
    · rcases evolves.slots other otherUsed with ⟨otherWas, otherKept⟩ | ⟨otherUnused, -, -, -⟩
      · have smaller := ledger.pids other otherWas
        rw [← otherKept, ← same, fresh] at smaller
        exact absurd smaller (lt_irrefl _)
      · exact (only other otherUnused otherUsed).symm
  case reaped =>
    intro entry member waiter pid reaps isPid
    rcases List.mem_append.mp member with old | new
    · obtain ⟨small, gone⟩ := ledger.reaped entry old waiter pid reaps isPid
      exact ⟨small.trans_le grows,
        fun slot used => evolves.pid_gone small (fun slot was _ => gone slot was) used⟩
    · obtain rfl := List.mem_singleton.mp new
      obtain ⟨child, -, zombie, rfl, freed⟩ := reaps.spec moved isPid
      have wasUsed : (state.ptable child).state ≠ .unused := by simp [zombie]
      have small := ledger.pids child wasUsed
      refine ⟨small.trans_le grows, fun slot used => evolves.pid_gone small ?_ used⟩
      intro other was stays same
      obtain rfl := ledger.distinct other child was wasUsed same
      exact stays freed
  case parents =>
    intro before past creator after pid whole returned
    rcases List.eq_nil_or_concat after with rfl | ⟨after, last, rfl⟩
    · obtain ⟨rfl, lastEq⟩ := List.append_inj' whole rfl
      obtain ⟨rfl, rfl⟩ := Prod.mk.inj (List.singleton_inj.mp lastEq)
      exact ledger.parents_forked valid moved few returned
    · rw [List.concat_eq_append, ← List.cons_append, ← List.append_assoc] at whole
      obtain ⟨rfl, lastEq⟩ := List.append_inj' whole rfl
      obtain rfl := List.singleton_inj.mp lastEq
      obtain ⟨small, parents⟩ := ledger.parents before past creator after pid rfl returned
      refine ⟨small.trans_le grows, fun slot used same => ?_⟩
      rcases evolves.slots slot used with ⟨was, kept⟩ | ⟨-, fresh, -, -⟩
      · obtain ⟨started, isParent⟩ := parents slot was (kept.symm.trans same)
        refine ⟨evolves.started slot was started, ?_⟩
        rw [List.concat_eq_append, heir_snoc]
        exact evolves.heir_step ledger.init (ledger.init ▸ init_stays moved) was started used
          isParent
      · grind

end LedgerSteps

/-! ## Runs -/

variable {initproc : Proc} {trace : List (State × Label)} {finish : State}

theorem ledger_of_run (run : ProcessRun initproc trace finish) (few : forks trace < 2 ^ 31) :
    Ledger initproc trace finish := by
  induction run with
  | nil => exact ledger_initial initproc
  | @snoc trace state next label run stepped ih =>
    obtain ⟨outcome, moved, -, rfl⟩ := moves_of_step stepped
    have earlier := ih ((forks_snoc trace state label).trans_lt few)
    exact earlier.step (valid_throughout run).2 moved few

/-- Every process but the first has a parent, whose slot is neither unused nor a
zombie. -/
def ParentsPresent (state : State) : Prop :=
  ∀ process, process ≠ state.initproc →
    (state.ptable process).state = .runnable ∨ (state.ptable process).state = .running ∨
        (state.ptable process).state = .sleeping ∨ (state.ptable process).state = .zombie →
      ∃ parent, (state.ptable process).parent = some parent ∧
        (state.ptable parent).state ≠ .unused ∧ (state.ptable parent).state ≠ .zombie

def PidsDistinct (state : State) : Prop :=
  ∀ slot other, (state.ptable slot).state ≠ .unused → (state.ptable other).state ≠ .unused →
    (state.ptable slot).pid = (state.ptable other).pid → slot = other

/-- A process asleep in `wait` has a child, and none of its children is a zombie. -/
def WaitersHaveChildren (state : State) : Prop :=
  ∀ process, (state.ptable process).state = .sleeping → state.activity process = .waiting →
    (∃ child, (state.ptable child).parent = some process) ∧
      ∀ child, (state.ptable child).parent = some process → (state.ptable child).state ≠ .zombie

theorem Valid.parentsPresent (valid : Valid state) : ParentsPresent state := by
  intro process notInit isProcess
  have alive : Live (state.ptable process).state ∨ (state.ptable process).state = .zombie := by
    grind
  obtain ⟨parent, isParent, live⟩ := valid.parents process notInit alive
  refine ⟨parent, isParent, ?_, ?_⟩
  · grind
  · grind

theorem Ledger.isPid (ledger : Ledger initproc trace state) {slot : Proc}
    (used : (state.ptable slot).state ≠ .unused) : (state.ptable slot).pid ≠ -1 := by
  intro same
  have small := ledger.pids slot used
  have last : (-1 : BitVec 32).toNat = 2 ^ 32 - 1 := rfl
  rw [same, last] at small
  omega

theorem entry_of_run {first rest : List (State × Label)} {entry : State × Label}
    (run : ProcessRun initproc (first ++ entry :: rest) finish)
    (few : forks (first ++ entry :: rest) < 2 ^ 31) :
    Ledger initproc first entry.1 ∧ Valid entry.1 ∧
      ∃ outcome, transition entry.1 entry.2 = some outcome := by
  obtain ⟨middle, before, after⟩ := run.split
  obtain ⟨rfl, next, stepped, -⟩ := after.head
  obtain ⟨outcome, moved, -, -⟩ := moves_of_step stepped
  have fewer : forks first < 2 ^ 31 := by
    rw [forks, List.countP_append] at few
    exact (Nat.le_add_right _ _).trans_lt few
  exact ⟨ledger_of_run before fewer, (valid_throughout before).2, outcome, moved⟩

theorem exists_embryo {creator : Proc} (valid : Valid state)
    (returned : code state (.forkEnds creator) = some pid) :
    ∃ np, (state.ptable np).state = .embryo ∧ (state.ptable np).pid = pid := by
  obtain ⟨outcome, moved, same⟩ := Option.bind_eq_some_iff.mp returned
  obtain ⟨np, runs, rfl⟩ := whenForking_eq_some moved
  exact ⟨np, valid.forking creator np true runs.2, Option.some.inj same⟩

/-- Every child is reaped once: parents are present, process ids differ, nobody
sleeps in `wait` without need, and a process id that `fork` returns is returned
by at most one `wait`, later, of the creator or, after it has exited, of init,
whichever is the parent at that time. -/
theorem children_reaped_once (run : ProcessRun initproc trace finish)
    (few : forks trace < 2 ^ 31) :
    Throughout (fun state => ParentsPresent state ∧ PidsDistinct state ∧
        WaitersHaveChildren state) trace finish ∧
      ∀ before state creator after pid, trace = before ++ (state, .forkEnds creator) :: after →
        code state (.forkEnds creator) = some pid →
          (∀ entry ∈ before, ∀ waiter, ¬ Reaps entry waiter pid) ∧
          ∀ middle entry rest waiter, after = middle ++ entry :: rest → Reaps entry waiter pid →
            waiter = heir creator initproc middle ∧
              (∃ child, (entry.1.ptable child).pid = pid ∧
                (entry.1.ptable child).parent = some waiter) ∧
              ∀ later ∈ rest, ∀ other, ¬ Reaps later other pid := by
  refine ⟨⟨?_, ?_⟩, ?_⟩
  · intro entry member
    obtain ⟨first, rest, rfl⟩ := List.append_of_mem member
    obtain ⟨ledger, valid, -⟩ := entry_of_run run few
    exact ⟨valid.parentsPresent, ledger.distinct,
      fun process sleeping waiting => (valid.awaited process sleeping waiting).2⟩
  · have valid := (valid_throughout run).2
    exact ⟨valid.parentsPresent, (ledger_of_run run few).distinct,
      fun process sleeping waiting => (valid.awaited process sleeping waiting).2⟩
  rintro before state creator after pid rfl returned
  obtain ⟨ledger, valid, -⟩ := entry_of_run run few
  obtain ⟨np, embryo, samePid⟩ := exists_embryo valid returned
  have used : (state.ptable np).state ≠ .unused := by
    rw [embryo]
    decide
  have isPid : pid ≠ -1 := samePid ▸ ledger.isPid used
  refine ⟨?_, ?_⟩
  · intro entry member waiter reaps
    exact (ledger.reaped entry member waiter pid reaps isPid).2 np used samePid
  rintro middle entry rest waiter rfl reaps
  have whole : before ++ (state, .forkEnds creator) :: (middle ++ entry :: rest) =
      (before ++ (state, .forkEnds creator) :: middle) ++ entry :: rest := by simp
  rw [whole] at run few
  obtain ⟨ledger, -, outcome, moved⟩ := entry_of_run run few
  obtain ⟨child, isChild, zombie, childPid, -⟩ := reaps.spec moved isPid
  obtain ⟨-, parents⟩ := ledger.parents before state creator middle pid rfl returned
  obtain ⟨-, isHeir⟩ := parents child (by simp [zombie]) childPid
  refine ⟨?_, ⟨child, childPid, isChild⟩, ?_⟩
  · rw [isChild] at isHeir
    exact Option.some.inj isHeir
  -- a second `wait` would need a slot in use with the id that is gone
  intro later member other again
  obtain ⟨between, rest, rfl⟩ := List.append_of_mem member
  rw [← List.cons_append, ← List.append_assoc] at run few
  obtain ⟨ledger, -, outcome, moved⟩ := entry_of_run run few
  obtain ⟨second, -, zombie, secondPid, -⟩ := again.spec moved isPid
  exact (ledger.reaped entry (by simp) waiter pid reaps isPid).2 second (by simp [zombie]) secondPid

/-- The child of the first process forks and exits after its own child.  The
first process reaps both. -/
def grandchild (init child last : Proc) : List Label :=
  [.schedule init, .allocproc init, .linkParent init, .forkEnds init, .wait init,
    .schedule child, .allocproc child, .linkParent child, .forkEnds child,
    .schedule last, .exit last, .exit child, .schedule init, .resumeWait init, .wait init]

theorem children_reaped_once_in_grandchild :
    ∃ trace finish, ProcessRun 0 trace finish ∧ trace.map Prod.snd = grandchild 0 1 2 ∧
      (trace.filterMap fun entry => code entry.1 entry.2) = [2, 3, 2, 3] ∧ forks trace < 2 ^ 31 ∧
        ParentsPresent finish ∧ PidsDistinct finish ∧ WaitersHaveChildren finish := by
  refine exists_run_of_test (fun trace _ => (trace.filterMap fun entry =>
    code entry.1 entry.2) = [2, 3, 2, 3] ∧ forks trace < 2 ^ 31) (by decide +kernel) ?_
  rintro _ _ run - ⟨codes, few⟩
  exact ⟨codes, few, (children_reaped_once run few).1.2⟩

end ProcTable

end Xv6
