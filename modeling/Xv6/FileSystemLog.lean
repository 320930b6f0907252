import Mathlib.Data.List.Nodup
import Xv6.DiskBlock
import Xv6.LabelledRuns

/-!
# The file system log

The state machine of `log.c` over the disk and the buffer cache of `bio.c`.
File system operations run between `begin_op` and `end_op`; the last one to end
commits the blocks that all of them have changed.  Every write of a block to
the disk is a step of its own, both in `commit` and in `recover_from_log`, and
a crash, which loses the memory, can happen between any two steps.

The state also carries a history that the code does not have: the operations
that are running, the log writes since the last commit, and the transactions
that were handed to `commit` and those whose header reached the disk.
-/

namespace Xv6

namespace FsLog

open DiskBlock LabelledRun
open Function (update)

abbrev maxOpBlocks : Nat := 10

abbrev logSize : Nat := 30

/-- What the log takes from the super block: its first block, the number of its
blocks, and the number of blocks of the disk. -/
structure Layout where
  start : Nat
  size : Nat
  blocks : Nat
  nonempty : 0 < size
  inside : start + size ≤ blocks
  addressable : blocks ≤ 2 ^ 32

/-- The log of an image made by `mkfs`: thirty blocks after the boot block and
the super block. -/
def mkfsLayout : Layout where
  start := 2
  size := logSize
  blocks := 1000
  nonempty := by decide
  inside := by decide
  addressable := by decide

def Layout.InLog (layout : Layout) (block : Nat) : Prop :=
  layout.start ≤ block ∧ block < layout.start + layout.size

instance (layout : Layout) (block : Nat) : Decidable (layout.InLog block) :=
  inferInstanceAs (Decidable (_ ∧ _))

/-- The header that `read_head` finds in a block: the count, a signed number,
and the block numbers after it. -/
def readHead (data : Data) : List Nat :=
  (List.range (word data 0).toInt.toNat).map fun index => (word data (index + 1)).toNat

/-- The block after `write_head` has stored the count and the block numbers. -/
def writeHead (blocks : List Nat) (data : Data) : Data :=
  setWords data 0 (BitVec.ofNat 32 blocks.length :: blocks.map (BitVec.ofNat 32))

structure Buf where
  data : Data
  dirty : Bool

/-- Where the committing or recovering process stands.  `committing` is set in
the first two phases after `idle`. -/
inductive Phase
  | idle
  | writeLog (tail : Nat)
  | install (tail : Nat)
  | crashed
  | recover (tail : Nat)
  deriving DecidableEq

/-- A `log_write` of an operation, with the contents of the buffer. -/
structure Write where
  op : Nat
  block : Nat
  data : Data

def applyWrites (writes : List Write) (contents : Nat → Data) : Nat → Data :=
  writes.foldl (fun contents write => update contents write.block write.data) contents

/-- The disk, the buffer cache and `struct log`, followed by the history. -/
structure LogState where
  disk : Nat → Data
  cache : Nat → Option Buf
  lh : List Nat
  outstanding : Nat
  phase : Phase
  active : List Nat
  nextop : Nat
  pending : List Write
  attempted : List (List Write)
  committed : List (List Write)

/-- The steps: the calls of an operation, the next block write of `commit` or of
`recover_from_log`, a block that is read into the cache or dropped from it, and
a crash. -/
inductive Label
  | beginOp
  | logWrite (op block : Nat) (data : Data)
  | endOp (op : Nat)
  | commit
  | fetch (block : Nat)
  | evict (block : Nat)
  | crash
  | recover

namespace LogState

/-- After the machine is switched on; `initlog` is still to recover the log. -/
def boot (disk : Nat → Data) : LogState where
  disk := disk
  cache _ := none
  lh := []
  outstanding := 0
  phase := .crashed
  active := []
  nextop := 0
  pending := []
  attempted := []
  committed := []

/-- The contents that `bread` finds. -/
def view (state : LogState) (block : Nat) : Data :=
  match state.cache block with
  | some buf => buf.data
  | none => state.disk block

/-- `B_DIRTY` keeps the block in the cache. -/
def Pinned (state : LogState) (block : Nat) : Prop :=
  ∃ buf, state.cache block = some buf ∧ buf.dirty = true

def bread (state : LogState) (block : Nat) : LogState :=
  match state.cache block with
  | some _ => state
  | none =>
    { state with
      cache := update state.cache block (some ⟨state.disk block, false⟩) }

def bwrite (state : LogState) (block : Nat) (data : Data) : LogState :=
  { state with
    disk := update state.disk block data
    cache := update state.cache block (some ⟨data, false⟩) }

def writeHead (layout : Layout) (state : LogState) : LogState :=
  (state.bread layout.start).bwrite layout.start
    (FsLog.writeHead state.lh (state.view layout.start))

/-- One iteration of `write_log`: copy the cached block to the log. -/
def writeLogBlock (layout : Layout) (state : LogState) (tail block : Nat) : LogState :=
  ((state.bread (layout.start + tail + 1)).bread block).bwrite (layout.start + tail + 1)
    (state.view block)

/-- One iteration of `install_trans`: copy the log block to its home. -/
def installBlock (layout : Layout) (state : LogState) (tail block : Nat) : LogState :=
  ((state.bread (layout.start + tail + 1)).bread block).bwrite block
    (state.view (layout.start + tail + 1))

/-- The test of `begin_op` for the room in the log. -/
def HasRoom (state : LogState) : Prop :=
  state.lh.length + (state.outstanding + 1) * maxOpBlocks ≤ logSize

instance (state : LogState) : Decidable state.HasRoom :=
  inferInstanceAs (Decidable (_ ≤ _))

/-- The test on which `log_write` panics with "too big a transaction". -/
def TooBig (layout : Layout) (state : LogState) : Prop :=
  state.lh.length ≥ logSize ∨ state.lh.length + 1 ≥ layout.size

instance (layout : Layout) (state : LogState) : Decidable (state.TooBig layout) :=
  inferInstanceAs (Decidable (_ ∨ _))

/-- `begin_op`, when it does not sleep. -/
def beginOp (state : LogState) : LogState :=
  { state with
    outstanding := state.outstanding + 1
    active := state.nextop :: state.active
    nextop := state.nextop + 1 }

/-- `log_write` of a buffer that its operation has just changed. -/
def logWrite (state : LogState) (op block : Nat) (data : Data) : LogState :=
  { state with
    lh := if block ∈ state.lh then state.lh else state.lh ++ [block]
    cache := update state.cache block (some ⟨data, true⟩)
    pending := state.pending ++ [⟨op, block, data⟩] }

/-- `end_op`, up to the call of `commit` by the last operation. -/
def endOp (state : LogState) (op : Nat) : LogState :=
  { state with
    outstanding := state.outstanding - 1
    active := state.active.erase op
    phase := if state.outstanding - 1 = 0 then .writeLog 0 else state.phase
    attempted :=
      if state.outstanding - 1 = 0 ∧ state.lh ≠ [] then state.committed ++ [state.pending]
      else state.attempted }

/-- The end of `install_trans` and the second `write_head`. -/
def clearLog (layout : Layout) (state : LogState) : LogState :=
  { { state with lh := [] }.writeHead layout with phase := .idle }

def commit (layout : Layout) (state : LogState) : Option LogState :=
  match state.phase with
  | .writeLog tail =>
    match state.lh[tail]? with
    | some block =>
      some { state.writeLogBlock layout tail block with phase := .writeLog (tail + 1) }
    | none =>
      if state.lh = [] then some { state with phase := .idle }
      else
        some { state.writeHead layout with
          phase := .install 0
          pending := []
          committed := state.committed ++ [state.pending] }
  | .install tail =>
    match state.lh[tail]? with
    | some block =>
      some { state.installBlock layout tail block with phase := .install (tail + 1) }
    | none => some (state.clearLog layout)
  | _ => none

/-- The next block write of `recover_from_log`, or its `read_head`. -/
def recover (layout : Layout) (state : LogState) : Option LogState :=
  match state.phase with
  | .crashed =>
    some { state.bread layout.start with
      lh := readHead (state.view layout.start)
      phase := .recover 0 }
  | .recover tail =>
    match state.lh[tail]? with
    | some block =>
      some { state.installBlock layout tail block with phase := .recover (tail + 1) }
    | none => some (state.clearLog layout)
  | _ => none

def crash (state : LogState) : LogState :=
  { state with
    cache := fun _ => none
    lh := []
    outstanding := 0
    phase := .crashed
    active := []
    pending := [] }

/-- One step.  A step whose call would sleep or panic is refused, and so is a
log write to a block of the log or beyond the disk.  The tests of `log_write`,
made before it acquires `log.lock`, and its append are one step here. -/
def step (layout : Layout) (state : LogState) : Label → Option LogState
  | .beginOp => if state.phase = .idle ∧ state.HasRoom then some state.beginOp else none
  | .logWrite op block data =>
    if op ∈ state.active ∧ ¬ layout.InLog block ∧ block < layout.blocks ∧
        ¬ state.TooBig layout ∧ ¬ state.outstanding < 1 then
      some (state.logWrite op block data)
    else none
  | .endOp op => if op ∈ state.active ∧ state.phase = .idle then some (state.endOp op) else none
  | .commit => state.commit layout
  | .fetch block => some (state.bread block)
  | .evict block =>
    match state.cache block with
    | some ⟨_, false⟩ => some { state with cache := update state.cache block none }
    | _ => none
  | .crash => some state.crash
  | .recover => state.recover layout

/-! ## The cache after reading and writing -/

@[simp]
theorem view_bread (state : LogState) (block : Nat) : (state.bread block).view = state.view := by
  unfold bread
  split
  · rfl
  · grind [view]

@[simp]
theorem disk_bread (state : LogState) (block : Nat) : (state.bread block).disk = state.disk := by
  unfold bread
  split <;> rfl

@[simp]
theorem pinned_bread (state : LogState) (block other : Nat) :
    (state.bread block).Pinned other ↔ state.Pinned other := by
  unfold bread
  split
  · rfl
  · grind [Pinned]

/-- The cache shows the same blocks and pins the same ones as that of `state`. -/
structure Warm (state : LogState) (cache : Nat → Option Buf) : Prop where
  view : { state with cache := cache }.view = state.view
  pinned : ∀ block, { state with cache := cache }.Pinned block ↔ state.Pinned block

theorem exists_warm_bread (state : LogState) (block : Nat) :
    ∃ cache, state.Warm cache ∧ state.bread block = { state with cache := cache } := by
  have same : state.bread block = { state with cache := (state.bread block).cache } := by
    unfold bread
    split <;> rfl
  refine ⟨(state.bread block).cache, ⟨?_, ?_⟩, same⟩
  · rw [← same, view_bread]
  · intro other
    rw [← same, pinned_bread]

theorem exists_warm_bread_bread (state : LogState) (first second : Nat) :
    ∃ cache, state.Warm cache ∧
      (state.bread first).bread second = { state with cache := cache } := by
  obtain ⟨cache, warm, read⟩ := state.exists_warm_bread first
  obtain ⟨cache', warm', read'⟩ := (state.bread first).exists_warm_bread second
  rw [read] at warm' read'
  refine ⟨cache', ⟨warm'.view.trans warm.view, fun block => ?_⟩, by rw [read, read']⟩
  exact (warm'.pinned block).trans (warm.pinned block)

@[simp]
theorem view_bwrite (state : LogState) (block : Nat) (data : Data) :
    (state.bwrite block data).view = update state.view block data := by
  funext other
  by_cases same : other = block
  · subst same
    simp [view, bwrite]
  · simp [view, bwrite, same]

@[simp]
theorem disk_bwrite (state : LogState) (block : Nat) (data : Data) :
    (state.bwrite block data).disk = update state.disk block data :=
  rfl

@[simp]
theorem pinned_bwrite (state : LogState) (block other : Nat) (data : Data) :
    (state.bwrite block data).Pinned other ↔ other ≠ block ∧ state.Pinned other := by
  by_cases same : other = block
  · subst same
    simp [Pinned, bwrite]
  · simp [Pinned, bwrite, same]

/-! ## What a step can do -/

/-- The cases of `LogState.step`, once the blocks that the step reads are in the
cache. -/
inductive Effect (layout : Layout) (state : LogState) : Label → LogState → Prop
  | beginOp (idle : state.phase = .idle) (room : state.HasRoom) :
      Effect layout state .beginOp state.beginOp
  | logWrite {op block : Nat} {data : Data} (running : op ∈ state.active)
      (outside : ¬ layout.InLog block) (onDisk : block < layout.blocks)
      (fits : ¬ state.TooBig layout) :
      Effect layout state (.logWrite op block data) (state.logWrite op block data)
  | endOp {op : Nat} (running : op ∈ state.active) (idle : state.phase = .idle) :
      Effect layout state (.endOp op) (state.endOp op)
  | writeLog {tail block : Nat} (phase : state.phase = .writeLog tail)
      (listed : state.lh[tail]? = some block) :
      Effect layout state .commit
        { state.bwrite (layout.start + tail + 1) (state.view block) with
          phase := .writeLog (tail + 1) }
  | nothing {tail : Nat} (phase : state.phase = .writeLog tail) (empty : state.lh = []) :
      Effect layout state .commit { state with phase := .idle }
  | writeHead {tail : Nat} (phase : state.phase = .writeLog tail)
      (finished : state.lh.length ≤ tail) (nonempty : state.lh ≠ []) :
      Effect layout state .commit
        { state.bwrite layout.start (FsLog.writeHead state.lh (state.view layout.start)) with
          phase := .install 0
          pending := []
          committed := state.committed ++ [state.pending] }
  | install {tail block : Nat} (phase : state.phase = .install tail)
      (listed : state.lh[tail]? = some block) :
      Effect layout state .commit
        { state.bwrite block (state.view (layout.start + tail + 1)) with
          phase := .install (tail + 1) }
  | clear {tail : Nat} (phase : state.phase = .install tail)
      (finished : state.lh.length ≤ tail) :
      Effect layout state .commit
        { state.bwrite layout.start (FsLog.writeHead [] (state.view layout.start)) with
          lh := []
          phase := .idle }
  | fetch {block : Nat} : Effect layout state (.fetch block) state
  | evict {block : Nat} {data : Data} (clean : state.cache block = some ⟨data, false⟩) :
      Effect layout state (.evict block)
        { state with cache := update state.cache block none }
  | crash : Effect layout state .crash state.crash
  | readHead (phase : state.phase = .crashed) :
      Effect layout state .recover
        { state with
          lh := readHead (state.view layout.start)
          phase := .recover 0 }
  | recover {tail block : Nat} (phase : state.phase = .recover tail)
      (listed : state.lh[tail]? = some block) :
      Effect layout state .recover
        { state.bwrite block (state.view (layout.start + tail + 1)) with
          phase := .recover (tail + 1) }
  | recovered {tail : Nat} (phase : state.phase = .recover tail)
      (finished : state.lh.length ≤ tail) :
      Effect layout state .recover
        { state.bwrite layout.start (FsLog.writeHead [] (state.view layout.start)) with
          lh := []
          phase := .idle }

section StepCases

variable {layout : Layout} {state next : LogState} {label : Label}

theorem Warm.refl (state : LogState) : state.Warm state.cache :=
  ⟨rfl, fun _ => Iff.rfl⟩

theorem exists_warm_writeLogBlock (layout : Layout) (state : LogState) (tail block : Nat) :
    ∃ cache, state.Warm cache ∧ state.writeLogBlock layout tail block =
      { state with cache := cache }.bwrite (layout.start + tail + 1)
        ({ state with cache := cache }.view block) := by
  obtain ⟨cache, warm, read⟩ := state.exists_warm_bread_bread (layout.start + tail + 1) block
  exact ⟨cache, warm, by rw [writeLogBlock, read, warm.view]⟩

theorem exists_warm_installBlock (layout : Layout) (state : LogState) (tail block : Nat) :
    ∃ cache, state.Warm cache ∧ state.installBlock layout tail block =
      { state with cache := cache }.bwrite block
        ({ state with cache := cache }.view (layout.start + tail + 1)) := by
  obtain ⟨cache, warm, read⟩ := state.exists_warm_bread_bread (layout.start + tail + 1) block
  exact ⟨cache, warm, by rw [installBlock, read, warm.view]⟩

theorem exists_warm_writeHead (layout : Layout) (state : LogState) :
    ∃ cache, state.Warm cache ∧ state.writeHead layout =
      { state with cache := cache }.bwrite layout.start
        (FsLog.writeHead state.lh ({ state with cache := cache }.view layout.start)) := by
  obtain ⟨cache, warm, read⟩ := state.exists_warm_bread layout.start
  exact ⟨cache, warm, by rw [LogState.writeHead, read, warm.view]⟩

theorem exists_warm_clearLog (layout : Layout) (state : LogState) :
    ∃ cache, state.Warm cache ∧ state.clearLog layout =
      { { state with cache := cache }.bwrite layout.start
          (FsLog.writeHead [] ({ state with cache := cache }.view layout.start)) with
        lh := []
        phase := .idle } := by
  obtain ⟨cache, warm, written⟩ := exists_warm_writeHead layout { state with lh := [] }
  refine ⟨cache, ⟨warm.view, warm.pinned⟩, ?_⟩
  rw [clearLog, written]
  rfl

theorem effect_of_commit (edge : state.commit layout = some next) :
    ∃ cache, state.Warm cache ∧ Effect layout { state with cache := cache } .commit next := by
  unfold commit at edge
  split at edge
  · rename_i tail phase
    split at edge
    · rename_i block listed
      obtain ⟨cache, warm, written⟩ := exists_warm_writeLogBlock layout state tail block
      rw [written] at edge
      cases edge
      exact ⟨cache, warm, .writeLog phase listed⟩
    · rename_i finished
      rw [List.getElem?_eq_none_iff] at finished
      split at edge
      · rename_i empty
        cases edge
        exact ⟨state.cache, Warm.refl state, .nothing phase empty⟩
      · rename_i nonempty
        obtain ⟨cache, warm, written⟩ := exists_warm_writeHead layout state
        rw [written] at edge
        cases edge
        exact ⟨cache, warm, .writeHead phase finished nonempty⟩
  · rename_i tail phase
    split at edge
    · rename_i block listed
      obtain ⟨cache, warm, written⟩ := exists_warm_installBlock layout state tail block
      rw [written] at edge
      cases edge
      exact ⟨cache, warm, .install phase listed⟩
    · rename_i finished
      obtain ⟨cache, warm, cleared⟩ := exists_warm_clearLog layout state
      rw [cleared] at edge
      cases edge
      exact ⟨cache, warm, .clear phase (List.getElem?_eq_none_iff.mp finished)⟩
  · cases edge

theorem effect_of_recover (edge : state.recover layout = some next) :
    ∃ cache, state.Warm cache ∧ Effect layout { state with cache := cache } .recover next := by
  unfold recover at edge
  split at edge
  · rename_i phase
    obtain ⟨cache, warm, read⟩ := state.exists_warm_bread layout.start
    rw [read, ← warm.view] at edge
    cases edge
    exact ⟨cache, warm, .readHead phase⟩
  · rename_i tail phase
    split at edge
    · rename_i block listed
      obtain ⟨cache, warm, written⟩ := exists_warm_installBlock layout state tail block
      rw [written] at edge
      cases edge
      exact ⟨cache, warm, .recover phase listed⟩
    · rename_i finished
      obtain ⟨cache, warm, cleared⟩ := exists_warm_clearLog layout state
      rw [cleared] at edge
      cases edge
      exact ⟨cache, warm, .recovered phase (List.getElem?_eq_none_iff.mp finished)⟩
  · cases edge

theorem effect_of_step (edge : state.step layout label = some next) :
    ∃ cache, state.Warm cache ∧ Effect layout { state with cache := cache } label next := by
  cases label with
  | beginOp =>
    obtain ⟨⟨idle, room⟩, same⟩ := Option.ite_none_right_eq_some.mp edge
    cases same
    exact ⟨state.cache, Warm.refl state, .beginOp idle room⟩
  | logWrite op block data =>
    obtain ⟨⟨running, outside, onDisk, fits, _⟩, same⟩ := Option.ite_none_right_eq_some.mp edge
    cases same
    exact ⟨state.cache, Warm.refl state, .logWrite running outside onDisk fits⟩
  | endOp op =>
    obtain ⟨⟨running, idle⟩, same⟩ := Option.ite_none_right_eq_some.mp edge
    cases same
    exact ⟨state.cache, Warm.refl state, .endOp running idle⟩
  | commit => exact effect_of_commit edge
  | fetch block =>
    obtain ⟨cache, warm, read⟩ := state.exists_warm_bread block
    cases edge
    rw [read]
    exact ⟨cache, warm, .fetch⟩
  | evict block =>
    simp only [step] at edge
    split at edge
    · rename_i data clean
      cases edge
      exact ⟨state.cache, Warm.refl state, .evict clean⟩
    · cases edge
  | crash =>
    cases edge
    exact ⟨state.cache, Warm.refl state, .crash⟩
  | recover => exact effect_of_recover edge

end StepCases

end LogState

/-- Runs of the file system operations with crashes, from the moment the machine
is switched on. -/
abbrev LogRun (layout : Layout) (disk : Nat → Data) (trace : List (LogState × Label))
    (finish : LogState) : Prop :=
  Run (LogState.step layout) (LogState.boot disk) trace finish

end FsLog

end Xv6
