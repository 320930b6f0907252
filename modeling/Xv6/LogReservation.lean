import Mathlib.Algebra.BigOperators.Group.List.Basic
import Mathlib.Data.Finset.Card
import Mathlib.Order.Interval.Finset.Nat
import Xv6.LogCrashAtomicity

/-!
# The reservation of log space

`begin_op` admits an operation when the log would have room for `MAXOPBLOCKS`
blocks of every running operation, counting against `LOGSIZE`.  `log_write` panics
when the log holds `LOGSIZE - 1` blocks, since one block of the log is its header.
What the running operations may still log, together with what is in the log, is
reserved; a panic lies ahead of a state exactly when more than `LOGSIZE - 2` blocks
are reserved in it, and only `begin_op` can raise that number.
-/

namespace Xv6

namespace FsLog

open DiskBlock LabelledRun

def LogState.loggedBlocks (state : LogState) (op : Nat) : Finset Nat :=
  ((writesOf op state.pending).map Write.block).toFinset

/-- The blocks an operation may still log. -/
def LogState.allowance (state : LogState) (op : Nat) : Nat :=
  maxOpBlocks - (state.loggedBlocks op).card

/-- The blocks in the log and those that running operations may still log. -/
def LogState.reserved (state : LogState) : Nat :=
  state.lh.length + (state.active.map state.allowance).sum

/-- The step keeps the operation within `MAXOPBLOCKS` distinct blocks. -/
def Frugal (state : LogState) (label : Label) : Prop :=
  ∀ op block data, label = .logWrite op block data →
    (insert block (state.loggedBlocks op)).card ≤ maxOpBlocks

/-- Every operation of the run logs at most `MAXOPBLOCKS` distinct blocks. -/
def SmallOps (trace : List (LogState × Label)) : Prop :=
  ∀ op, ((opWrites op trace).map Write.block).toFinset.card ≤ maxOpBlocks

/-- A running operation calls `log_write` within its limit. -/
def Calls (layout : Layout) (state : LogState) (label : Label) : Prop :=
  ∃ op block data, label = .logWrite op block data ∧ op ∈ state.active ∧
    ¬ layout.InLog block ∧ block < layout.blocks ∧ Frugal state label

/-- Calls of `log_write` by the running operations, all within their limits, lead
to the panic "too big a transaction". -/
def MayPanic (layout : Layout) (state : LogState) : Prop :=
  ∃ trace finish label, Run (LogState.step layout) state trace finish ∧
    (∀ entry ∈ trace, Calls layout entry.1 entry.2) ∧
    Calls layout finish label ∧ finish.TooBig layout

def Frugally (layout : Layout) (disk : Nat → Data) (state : LogState) : Prop :=
  ∃ trace, LogRun layout disk trace state ∧ ∀ entry ∈ trace, Frugal entry.1 entry.2

theorem Frugally.step {layout : Layout} {disk : Nat → Data} {state next : LogState}
    {label : Label} (frugally : Frugally layout disk state) (frugal : Frugal state label)
    (edge : state.step layout label = some next) : Frugally layout disk next := by
  obtain ⟨trace, run, earlier⟩ := frugally
  refine ⟨trace ++ [(state, label)], .snoc run edge, ?_⟩
  intro entry member
  rcases List.mem_append.mp member with old | new
  · exact earlier entry old
  · grind

section Reservation

variable {layout : Layout} {init disk : Nat → Data} {state next : LogState} {label : Label}
  {op block : Nat} {data : Data}

theorem allowance_congr (same : writesOf op next.pending = writesOf op state.pending) :
    next.allowance op = state.allowance op := by
  rw [LogState.allowance, LogState.loggedBlocks, same]
  rfl

theorem loggedBlocks_logWrite_self (state : LogState) (op block : Nat) (data : Data) :
    (state.logWrite op block data).loggedBlocks op = insert block (state.loggedBlocks op) := by
  ext other
  simp [LogState.loggedBlocks, LogState.logWrite, writesOf]

theorem allowance_logWrite_other {other : Nat} (different : other ≠ op) :
    (state.logWrite op block data).allowance other = state.allowance other := by
  apply allowance_congr
  change writesOf other (state.pending ++ [⟨op, block, data⟩]) = _
  simp [writesOf, different.symm]

theorem reserved_eq (running : op ∈ state.active) :
    state.reserved = state.lh.length +
      (state.allowance op + ((state.active.erase op).map state.allowance).sum) := by
  rw [LogState.reserved, List.sum_map_erase state.allowance running]

theorem reserved_logWrite (nodup : state.active.Nodup) (running : op ∈ state.active) :
    (state.logWrite op block data).reserved + state.allowance op + state.lh.length =
      state.reserved + (state.logWrite op block data).allowance op +
        (state.logWrite op block data).lh.length := by
  have others : ((state.active.erase op).map (state.logWrite op block data).allowance).sum =
      ((state.active.erase op).map state.allowance).sum := by
    congr 1
    apply List.map_congr_left
    intro other member
    exact allowance_logWrite_other (nodup.mem_erase_iff.mp member).1
  rw [reserved_eq running, @reserved_eq (state.logWrite op block data) op running]
  change _ + (_ + ((state.active.erase op).map _).sum) + _ + _ = _
  omega

theorem covers_loggedBlocks (sound : state.Sound layout init) (running : op ∈ state.active)
    (logged : block ∈ state.loggedBlocks op) : block ∈ state.lh := by
  have ready : Ready _ _ _ _ _ _ := sound.stage_of_phase (sound.idle_of_active running)
  obtain ⟨write, member, rfl⟩ := List.mem_map.mp (List.mem_toFinset.mp logged)
  exact ready.covers write (List.mem_of_mem_filter member)

theorem reserved_logWrite_le (sound : state.Sound layout init) (nodup : state.active.Nodup)
    (running : op ∈ state.active) (frugal : Frugal state (.logWrite op block data)) :
    (state.logWrite op block data).reserved ≤ state.reserved := by
  have account := @reserved_logWrite state op block data nodup running
  have limit := frugal op block data rfl
  have less := loggedBlocks_logWrite_self state op block data
  have mono : (state.loggedBlocks op).card ≤ (insert block (state.loggedBlocks op)).card :=
    Finset.card_le_card (Finset.subset_insert _ _)
  by_cases absorbed : block ∈ state.lh
  · have length : (state.logWrite op block data).lh = state.lh := if_pos absorbed
    rw [length] at account
    simp only [LogState.allowance, less] at account
    omega
  · have length : (state.logWrite op block data).lh.length = state.lh.length + 1 := by
      simp [LogState.logWrite, absorbed]
    have fresh : block ∉ state.loggedBlocks op :=
      fun logged => absorbed (covers_loggedBlocks sound running logged)
    rw [Finset.card_insert_of_notMem fresh] at limit
    simp only [LogState.allowance, less, Finset.card_insert_of_notMem fresh] at account
    omega

theorem reserved_logWrite_fresh (sound : state.Sound layout init) (nodup : state.active.Nodup)
    (running : op ∈ state.active) (allowed : 0 < state.allowance op)
    (absent : block ∉ state.lh) :
    (state.logWrite op block data).reserved = state.reserved ∧
      (state.logWrite op block data).lh.length = state.lh.length + 1 ∧
        Frugal state (.logWrite op block data) := by
  have account := @reserved_logWrite state op block data nodup running
  have length : (state.logWrite op block data).lh.length = state.lh.length + 1 := by
    simp [LogState.logWrite, absent]
  have fresh : block ∉ state.loggedBlocks op :=
    fun logged => absent (covers_loggedBlocks sound running logged)
  have more := loggedBlocks_logWrite_self state op block data
  have card := Finset.card_insert_of_notMem fresh
  refine ⟨?_, length, ?_⟩
  · grind [LogState.allowance]
  · rintro _ _ _ ⟨⟩
    simp only [LogState.allowance] at allowed
    omega

theorem reserved_beginOp {trace : List (LogState × Label)} (recorded : Recorded trace state) :
    state.beginOp.reserved = state.reserved + maxOpBlocks := by
  have nothing : writesOf state.nextop state.pending = [] := by
    have none := recorded.unissued state.nextop le_rfl
    rcases recorded.atomic state.nextop with ⟨_, all | ⟨lost, _⟩⟩ | ⟨_, empty, _⟩
    · rw [all, none]
    · exact lost
    · exact empty
  have whole : state.allowance state.nextop = maxOpBlocks := by
    rw [LogState.allowance, LogState.loggedBlocks, nothing]
    rfl
  change state.lh.length + ((state.nextop :: state.active).map state.allowance).sum = _
  rw [List.map_cons, List.sum_cons, whole, LogState.reserved]
  omega

theorem reserved_endOp_le (running : op ∈ state.active) :
    (state.endOp op).reserved ≤ state.reserved := by
  rw [reserved_eq running]
  change state.lh.length + ((state.active.erase op).map state.allowance).sum ≤ _
  omega

theorem card_loggedBlocks_le (frugally : Frugally layout disk state) (op : Nat) :
    (state.loggedBlocks op).card ≤ maxOpBlocks := by
  obtain ⟨trace, run, frugal⟩ := frugally
  refine (run.invariant (fun state => ∀ op, (state.loggedBlocks op).card ≤ maxOpBlocks) Frugal
    (fun _ => Nat.zero_le _) ?_ frugal).2 op
  intro state label next within frugal edge op
  obtain ⟨cache, _, effect⟩ := LogState.effect_of_step edge
  cases effect with
  | @logWrite caller block data running outside onDisk fits =>
    by_cases same : op = caller
    · subst same
      exact (congrArg Finset.card (loggedBlocks_logWrite_self state op block data)).trans_le
        (frugal op block data rfl)
    · have unchanged : writesOf op (state.pending ++ [⟨caller, block, data⟩]) =
          writesOf op state.pending := by
        simp [writesOf, Ne.symm same]
      change (List.map Write.block (writesOf op (state.pending ++ _))).toFinset.card ≤ _
      rw [unchanged]
      exact within op
  | writeHead phase finished nonempty => exact Nat.zero_le _
  | crash => exact Nat.zero_le _
  | _ => exact within op

/-! ## When a panic lies ahead -/

/-- At most `LOGSIZE - 2` blocks are reserved while operations run. -/
def Roomy (state : LogState) : Prop :=
  state.active ≠ [] → state.reserved ≤ logSize - 2

theorem tooBig_mkfs_iff : state.TooBig mkfsLayout ↔ logSize - 1 ≤ state.lh.length := by
  change state.lh.length ≥ 30 ∨ state.lh.length + 1 ≥ 30 ↔ 30 - 1 ≤ state.lh.length
  omega

theorem step_of_calls (calls : Calls layout state label)
    (edge : state.step layout label = some next) :
    ∃ op block data, label = .logWrite op block data ∧ op ∈ state.active ∧
      next = state.logWrite op block data := by
  obtain ⟨op, block, data, rfl, running, -⟩ := calls
  obtain ⟨_, same⟩ := Option.ite_none_right_eq_some.mp edge
  exact ⟨op, block, data, rfl, running, (Option.some.inj same).symm⟩

/-- Calls within the limits neither end an operation nor raise the number of
reserved blocks. -/
theorem reserved_le_of_calls (holds : DiskHolds layout init disk)
    (frugally : Frugally layout disk state) {trace : List (LogState × Label)} {finish : LogState}
    (run : Run (LogState.step layout) state trace finish)
    (calls : ∀ entry ∈ trace, Calls layout entry.1 entry.2) :
    Frugally layout disk finish ∧ finish.active = state.active ∧
      finish.reserved ≤ state.reserved := by
  refine (run.invariant (fun later => Frugally layout disk later ∧
    later.active = state.active ∧ later.reserved ≤ state.reserved) (Calls layout)
    ⟨frugally, rfl, le_rfl⟩ ?_ calls).2
  rintro current label next ⟨currently, active, reserved⟩ calls edge
  obtain ⟨past, pastRun, _⟩ := id currently
  have sound := sound_of_run holds pastRun
  have recorded := recorded_of_run holds pastRun
  obtain ⟨op, block, data, rfl, running, rfl⟩ := step_of_calls calls edge
  obtain ⟨_, _, _, _, _, _, _, frugal⟩ := calls
  exact ⟨currently.step frugal edge, active,
    (reserved_logWrite_le sound recorded.nodup running frugal).trans reserved⟩

theorem exists_fresh_block {blocks : List Nat} (short : blocks.length < logSize) :
    ∃ block, block ∉ blocks ∧ ¬ mkfsLayout.InLog block ∧ block < mkfsLayout.blocks := by
  have more : blocks.toFinset.card < (Finset.Ico 32 (32 + logSize)).card := by
    rw [Nat.card_Ico]
    exact (List.toFinset_card_le blocks).trans_lt (by omega)
  obtain ⟨block, inside, absent⟩ := Finset.exists_mem_notMem_of_card_lt_card more
  rw [Finset.mem_Ico] at inside
  rw [List.mem_toFinset] at absent
  refine ⟨block, absent, ?_, ?_⟩
  · rintro ⟨_, below⟩
    change block < 2 + 30 at below
    omega
  · change block < 1000
    change _ ∧ block < 32 + 30 at inside
    omega

/-- A running operation can always make another call within its limit. -/
theorem exists_call (holds : DiskHolds mkfsLayout init disk)
    (frugally : Frugally mkfsLayout disk state) (running : op ∈ state.active) :
    ∃ label, Calls mkfsLayout state label := by
  have within := card_loggedBlocks_le frugally op
  by_cases empty : state.loggedBlocks op = ∅
  · refine ⟨.logWrite op 32 (fun _ => 0), op, 32, fun _ => 0, rfl, running, by decide,
      by decide, ?_⟩
    rintro _ _ _ ⟨⟩
    rw [empty]
    decide
  · obtain ⟨block, logged⟩ := Finset.nonempty_iff_ne_empty.mpr empty
    obtain ⟨trace, run, _⟩ := frugally
    have sound := sound_of_run holds run
    have listed := covers_loggedBlocks sound running logged
    have ready : Ready _ _ _ _ _ _ := sound.stage_of_phase (sound.idle_of_active running)
    refine ⟨.logWrite op block (fun _ => 0), op, block, fun _ => 0, rfl, running,
      ready.home block listed, ready.onDisk block listed, ?_⟩
    rintro _ _ _ ⟨⟩
    rw [Finset.insert_eq_of_mem logged]
    exact within

theorem exists_allowance (room : state.lh.length < state.reserved) :
    ∃ op ∈ state.active, 0 < state.allowance op := by
  by_contra none
  push Not at none
  have zero : (state.active.map state.allowance).sum = 0 := by
    apply List.sum_eq_zero
    intro allowance member
    obtain ⟨op, running, rfl⟩ := List.mem_map.mp member
    exact Nat.le_zero.mp (none op running)
  rw [LogState.reserved, zero] at room
  omega

theorem MayPanic.of_step (calls : Calls layout state label)
    (edge : state.step layout label = some next) (later : MayPanic layout next) :
    MayPanic layout state := by
  obtain ⟨trace, finish, last, run, earlier, calls', tooBig⟩ := later
  refine ⟨(state, label) :: trace, finish, last, (Run.single edge).append run, ?_, calls', tooBig⟩
  intro entry member
  rcases List.mem_cons.mp member with rfl | old
  · exact calls
  · exact earlier entry old

/-- When too many blocks are reserved, the operations can fill the log. -/
theorem mayPanic_of_reserved (holds : DiskHolds mkfsLayout init disk)
    (frugally : Frugally mkfsLayout disk state) (running : state.active ≠ [])
    (reserved : logSize - 1 ≤ state.reserved) : MayPanic mkfsLayout state := by
  -- each call of the induction logs a fresh block
  generalize left : logSize - 1 - state.lh.length = count
  induction count generalizing state with
  | zero =>
    obtain ⟨op, member⟩ := List.exists_mem_of_ne_nil _ running
    obtain ⟨label, calls⟩ := exists_call holds frugally member
    exact ⟨[], state, label, .nil, by simp, calls, tooBig_mkfs_iff.mpr (by omega)⟩
  | succ count ih =>
    obtain ⟨op, member, allowed⟩ := @exists_allowance state (by omega)
    obtain ⟨block, absent, outside, onDisk⟩ := @exists_fresh_block state.lh (by omega)
    obtain ⟨trace, run, _⟩ := id frugally
    have sound := sound_of_run holds run
    have recorded := recorded_of_run holds run
    obtain ⟨same, length, frugal⟩ := @reserved_logWrite_fresh _ _ _ _ _ (fun _ => 0) sound
      recorded.nodup member allowed absent
    have edge : state.step mkfsLayout (.logWrite op block fun _ => 0) =
        some (state.logWrite op block fun _ => 0) := by
      apply if_pos
      refine ⟨member, outside, onDisk, ?_, ?_⟩
      · rw [tooBig_mkfs_iff]
        omega
      · rw [sound.count]
        exact not_lt.mpr (List.length_pos_of_mem member)
    refine .of_step ⟨op, block, fun _ => 0, rfl, member, outside, onDisk, frugal⟩ edge ?_
    exact ih (frugally.step frugal edge) running (by omega) (by omega)

theorem not_mayPanic_iff (holds : DiskHolds mkfsLayout init disk)
    (frugally : Frugally mkfsLayout disk state) : ¬ MayPanic mkfsLayout state ↔ Roomy state := by
  constructor
  · intro safe running
    by_contra more
    change ¬ state.reserved ≤ 30 - 2 at more
    apply safe
    apply mayPanic_of_reserved holds frugally running
    change 30 - 1 ≤ state.reserved
    omega
  · rintro roomy ⟨trace, finish, label, run, calls, ⟨op, block, data, _, running, _⟩, tooBig⟩
    obtain ⟨_, active, reserved⟩ := reserved_le_of_calls holds frugally run calls
    rw [active] at running
    have limit := roomy (List.ne_nil_of_mem running)
    have full := tooBig_mkfs_iff.mp tooBig
    have length : finish.lh.length ≤ finish.reserved := Nat.le_add_right _ _
    change 30 - 1 ≤ finish.lh.length at full
    change state.reserved ≤ 30 - 2 at limit
    omega

/-! ## The admission of operations -/

def Label.isBeginOp : Label → Bool
  | .beginOp => true
  | _ => false

/-- `begin_op` admits an operation only when, with the new reservation, at most
`LOGSIZE - 2` blocks are reserved. -/
def AdmitsRoomily (state : LogState) (label : Label) : Prop :=
  label.isBeginOp = true → state.reserved + maxOpBlocks ≤ logSize - 2

/-- Only `begin_op` raises the number of reserved blocks. -/
theorem roomy_step_iff (holds : DiskHolds layout init disk)
    (frugally : Frugally layout disk state) (roomy : Roomy state) (frugal : Frugal state label)
    (edge : state.step layout label = some next) :
    Roomy next ↔ AdmitsRoomily state label := by
  obtain ⟨trace, run, _⟩ := frugally
  have sound := sound_of_run holds run
  have recorded := recorded_of_run holds run
  obtain ⟨cache, _, effect⟩ := LogState.effect_of_step edge
  have quiet : state.phase ≠ .idle → state.active = [] := sound.quiet
  cases effect with
  | beginOp idle room =>
    have reserved := reserved_beginOp recorded
    constructor
    · intro after _
      rw [← reserved]
      exact after (List.cons_ne_nil _ _)
    · intro admits _
      exact reserved.le.trans (admits rfl)
  | @logWrite op block data running outside onDisk fits =>
    refine ⟨fun _ => nofun, fun _ active => ?_⟩
    exact (reserved_logWrite_le sound recorded.nodup running frugal).trans (roomy active)
  | endOp running idle =>
    refine ⟨fun _ => nofun, fun _ _ => ?_⟩
    exact (reserved_endOp_le running).trans (roomy (List.ne_nil_of_mem running))
  | fetch => exact ⟨fun _ => nofun, fun _ => roomy⟩
  | evict clean => exact ⟨fun _ => nofun, fun _ => roomy⟩
  | crash => exact ⟨fun _ => nofun, fun _ active => absurd rfl active⟩
  | writeLog phase listed | nothing phase empty | writeHead phase finished nonempty
  | install phase listed | clear phase finished | readHead phase | recover phase listed
  | recovered phase finished =>
    refine ⟨fun _ => nofun, fun _ active => absurd (quiet ?_) active⟩
    intro idle
    rw [idle] at phase
    cases phase

theorem frugal_of_smallOps (holds : DiskHolds layout init disk)
    {trace : List (LogState × Label)} (run : LogRun layout disk trace state)
    (small : SmallOps trace) : ∀ entry ∈ trace, Frugal entry.1 entry.2 := by
  rintro ⟨current, label⟩ member op block data rfl
  obtain ⟨first, second, rfl⟩ := List.append_of_mem member
  obtain ⟨middle, before, after⟩ := run.split
  obtain ⟨rfl, next, edge, _⟩ := after.head
  have recorded := recorded_of_run holds before
  have running := (Option.ite_none_right_eq_some.mp edge).1.1
  have pending : writesOf op current.pending = opWrites op first := by
    rcases recorded.atomic op with ⟨_, same | ⟨_, ended⟩⟩ | ⟨_, _, ended⟩
    · exact same
    · exact absurd running ended
    · exact absurd running ended
  refine (Finset.card_le_card ?_).trans (small op)
  intro other member
  rw [List.mem_toFinset, opWrites, List.filterMap_append, List.filterMap_cons, loggedBy_self]
  rw [Finset.mem_insert, LogState.loggedBlocks, pending, List.mem_toFinset] at member
  rcases member with rfl | earlier
  · simp
  · rw [List.map_append]
    exact List.mem_append_left _ earlier

end Reservation

/-- On the log that `mkfs` makes, in runs whose operations log at most
`MAXOPBLOCKS` distinct blocks each, no state has the panic "too big a transaction"
ahead of it exactly when every operation was admitted with room to spare for
what the admitted operations may still write. -/
theorem reservation_sufficient_iff {init disk : Nat → Data}
    (holds : DiskHolds mkfsLayout init disk) {trace : List (LogState × Label)} {finish : LogState}
    (run : LogRun mkfsLayout disk trace finish) (small : SmallOps trace) :
    Throughout (fun state => ¬ MayPanic mkfsLayout state) trace finish ↔
      ∀ entry ∈ trace, AdmitsRoomily entry.1 entry.2 := by
  have frugal := frugal_of_smallOps holds run small
  have boots : Frugally mkfsLayout disk (LogState.boot disk) := ⟨[], .nil, by simp⟩
  refine run.throughout_iff_of_allowed (Frugally mkfsLayout disk) _ Frugal AdmitsRoomily boots
    ?_ (fun frugally frugal edge => frugally.step frugal edge) ?_ frugal
  · rw [not_mayPanic_iff holds boots]
    exact fun running => absurd rfl running
  · intro state label next frugally safe frugal edge
    rw [not_mayPanic_iff holds (frugally.step frugal edge)]
    exact roomy_step_iff holds frugally ((not_mayPanic_iff holds frugally).mp safe) frugal edge

theorem smallOps_of_issued {trace : List (LogState × Label)} {issued : Nat}
    (later : ∀ op, issued ≤ op → opWrites op trace = [])
    (small : ∀ op < issued,
      ((opWrites op trace).map Write.block).toFinset.card ≤ maxOpBlocks) : SmallOps trace := by
  intro op
  rcases Nat.lt_or_ge op issued with begun | notBegun
  · exact small op begun
  · rw [later op notBegun]
    exact Nat.zero_le _

/-- The calls of `log_write` by which an operation logs the given blocks. -/
def logs (op : Nat) (blocks : List Nat) : List Label :=
  blocks.map fun block => .logWrite op block fun _ => 0

theorem diskHolds_zero : DiskHolds mkfsLayout (fun _ _ => 0) (fun _ _ => 0) :=
  diskHolds_of_clear (by decide +kernel)

theorem two_operations_never_panic :
    ∃ trace finish, LogRun mkfsLayout (fun _ _ => 0) trace finish ∧
      trace.map Prod.snd = [.recover, .recover, .beginOp, .beginOp] ++
        logs 0 (List.range' 100 10) ++ logs 1 (List.range' 110 10) ∧
      Throughout (fun state => ¬ MayPanic mkfsLayout state) trace finish := by
  refine exists_run_of_test (fun trace finish => (∀ op < finish.nextop,
      ((opWrites op trace).map Write.block).toFinset.card ≤ maxOpBlocks) ∧
    ∀ entry ∈ trace, entry.2.isBeginOp → entry.1.reserved + maxOpBlocks ≤ logSize - 2)
    (by decide +kernel) ?_
  rintro _ _ run - ⟨small, admits⟩
  have recorded := recorded_of_run diskHolds_zero run
  rw [reservation_sufficient_iff diskHolds_zero run (smallOps_of_issued recorded.unissued small)]
  exact admits

/-- Three operations are admitted to an empty log, and the third one panics on the
tenth of its blocks. -/
theorem three_operations_panic :
    ∃ trace finish, LogRun mkfsLayout (fun _ _ => 0) trace finish ∧
      trace.map Prod.snd = [.recover, .recover, .beginOp, .beginOp, .beginOp] ++
        logs 0 (List.range' 100 10) ++ logs 1 (List.range' 110 10) ++
        logs 2 (List.range' 120 9) ∧
      SmallOps (trace ++ [(finish, .logWrite 2 129 fun _ => 0)]) ∧
      2 ∈ finish.active ∧ finish.TooBig mkfsLayout := by
  refine exists_run_of_test (fun trace finish => (∀ op < (3 : Nat),
      ((opWrites op (trace ++ [(finish, Label.logWrite 2 129 fun _ => 0)])).map
        Write.block).toFinset.card ≤ maxOpBlocks) ∧
    finish.nextop = 3 ∧ 2 ∈ finish.active ∧ finish.TooBig mkfsLayout) (by decide +kernel) ?_
  rintro _ finish run - ⟨small, issued, running, tooBig⟩
  have recorded := recorded_of_run diskHolds_zero run
  refine ⟨smallOps_of_issued ?_ small, running, tooBig⟩
  intro op late
  rw [opWrites_snoc, recorded.unissued op (by omega), loggedBy_other finish (by omega)]
  rfl

end FsLog

end Xv6
