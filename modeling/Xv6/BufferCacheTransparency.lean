import Xv6.BufferCacheInvariant

/-!
# The buffer cache is transparent

A buffer that is recycled is nobody's and not dirty, and then it agrees with the
disk.  So a block has its last contents in its buffer if it has one, and on the
disk otherwise.
-/

namespace Xv6

namespace BufferCache

open CircularList LabelledRun

variable {Proc Data : Type} [DecidableEq Proc]

section Contents

variable {disk : Block → Data} {unread : Data} {trace : List (State Proc Data × Label Proc Data)}
  {state next finish : State Proc Data} {label : Label Proc Data} {process : Proc} {b : Fin nbuf}

omit [DecidableEq Proc] in
theorem contents_snoc (disk : Block → Data) (trace : List (State Proc Data × Label Proc Data))
    (entry : State Proc Data × Label Proc Data) :
    contents disk (trace ++ [entry]) = release (contents disk trace) entry :=
  List.foldl_append

omit [DecidableEq Proc] in
theorem pending_snoc (trace : List (State Proc Data × Label Proc Data))
    (entry : State Proc Data × Label Proc Data) (b : Fin nbuf) :
    pending (trace ++ [entry]) b = mark b (pending trace b) entry :=
  List.foldl_append

/-- Where the last contents of a block are. -/
structure Faithful (last : Block → Data) (pending : Fin nbuf → Bool) (state : State Proc Data) :
    Prop where
  buffered : ∀ b, (state.buf b).dev ≠ 0 → (state.buf b).holder = none →
    (state.buf b).valid = true → (state.buf b).data = last (state.buf b).block
  stored : ∀ block : Block, block.1 ≠ 0 → (∀ b, (state.buf b).block = block →
    (state.buf b).holder = none ∧ (state.buf b).dirty = false) → state.disk block = last block
  held : ∀ b, (state.buf b).holder ≠ none → (state.buf b).dirty = false → pending b = false →
    state.disk (state.buf b).block = (state.buf b).data

variable [Fintype Proc]

omit [DecidableEq Proc] in
theorem Faithful.disk_eq {last : Block → Data} {pending : Fin nbuf → Bool}
    (faithful : Faithful last pending state) (sound : Sound state)
    (device : (state.buf b).dev ≠ 0) (free : (state.buf b).holder = none)
    (clean : (state.buf b).dirty = false) :
    state.disk (state.buf b).block = last (state.buf b).block := by
  refine faithful.stored _ device fun other same => ?_
  obtain rfl := sound.unique b other device same.symm
  exact ⟨free, clean⟩

omit [DecidableEq Proc] in
/-- A step that changes one buffer, and the disk and the last contents at its block only. -/
theorem Faithful.update {last lastNext : Block → Data} {pending marked : Fin nbuf → Bool}
    {buf : Buf Proc Data} (faithful : Faithful last pending state) (sound : Sound state)
    (changes : next.buf = Function.update state.buf b buf)
    (apart : ∀ block, block ≠ (state.buf b).block →
      next.disk block = state.disk block ∧ lastNext block = last block)
    (marks : ∀ c, c ≠ b → marked c = pending c)
    (buffered : buf.dev ≠ 0 → buf.holder = none → buf.valid = true →
      buf.data = lastNext buf.block)
    (stored : (state.buf b).dev ≠ 0 →
      (buf.block = (state.buf b).block → buf.holder = none ∧ buf.dirty = false) →
        next.disk (state.buf b).block = lastNext (state.buf b).block)
    (held : buf.holder ≠ none → buf.dirty = false → marked b = false →
      next.disk buf.block = buf.data) : Faithful lastNext marked next := by
  have others : ∀ c, c ≠ b → next.buf c = state.buf c := fun c other => by
    rw [changes, Function.update_of_ne other]
  have different : ∀ c, c ≠ b → (state.buf c).dev ≠ 0 →
      (state.buf c).block ≠ (state.buf b).block :=
    fun c other device same => other (sound.unique c b device same)
  obtain rfl : next.buf b = buf := by rw [changes, Function.update_self]
  constructor
  case buffered =>
    intro c
    by_cases here : c = b
    · exact here ▸ buffered
    · rw [others c here]
      intro device free valid
      rw [(apart _ (different c here device)).2]
      exact faithful.buffered c device free valid
  case stored =>
    intro block device free
    by_cases isBlock : block = (state.buf b).block
    · subst isBlock
      exact stored device (free b)
    · rw [(apart block isBlock).1, (apart block isBlock).2]
      refine faithful.stored block device fun c same => ?_
      by_cases here : c = b
      · exact absurd (here ▸ same.symm) isBlock
      · have isFree := free c
        rw [others c here] at isFree
        exact isFree same
  case held =>
    intro c
    by_cases here : c = b
    · exact here ▸ held
    · rw [others c here, marks c here]
      intro isHeld clean notPending
      rw [(apart _ (different c here (sound.held c isHeld).2)).1]
      exact faithful.held c isHeld clean notPending

theorem Faithful.step {last : Block → Data} {pending : Fin nbuf → Bool}
    (faithful : Faithful last pending state) (sound : Sound state)
    (logged : ∀ process b, label = .brelse process b → pending b = false)
    (moves : Moves state label next) :
    Faithful (release last (state, label)) (fun b => mark b (pending b) (state, label)) next := by
  have isHeld : ∀ {process b}, state.Holds process b → (state.buf b).holder ≠ none :=
    fun holds => holds.2 ▸ Option.some_ne_none _
  -- a free and clean buffer agrees with the disk
  have agrees : ∀ {b}, (state.buf b).dev ≠ 0 → (state.buf b).holder = none ∧
      (state.buf b).dirty = false → state.disk (state.buf b).block = last (state.buf b).block :=
    fun device free => faithful.disk_eq sound device free.1 free.2
  cases moves with
  | @hit process dev blockno b idle here =>
    exact faithful.update (b := b) sound rfl (fun _ _ => ⟨rfl, rfl⟩) (fun _ _ => rfl)
      (faithful.buffered b) (fun device free => agrees device (free rfl)) (faithful.held b)
  | @recycled process dev blockno b idle absent unused clean =>
    have free := (sound.unused unused).1
    exact faithful.update (b := b) sound rfl (fun _ _ => ⟨rfl, rfl⟩) (fun _ _ => rfl)
      (fun _ _ isValid => nomatch isValid) (fun device _ => agrees device ⟨free, clean⟩)
      fun isHeld => absurd free isHeld
  | @locked process block b isLocking free valid =>
    obtain ⟨isBlock, device⟩ := sound.locking process block b isLocking
    have isDevice : (state.buf b).dev ≠ 0 := (congrArg Prod.fst isBlock).trans_ne device
    exact faithful.update (b := b) sound rfl (fun _ _ => ⟨rfl, rfl⟩) (fun _ _ => rfl)
      (fun _ isNone => nomatch isNone) (fun _ free => nomatch (free rfl).1)
      fun _ clean _ => (agrees isDevice ⟨free, clean⟩).trans
        (faithful.buffered b isDevice free valid).symm
  | @read process block b isLocking free invalid clean =>
    exact faithful.update sound (buf_read state process b) (fun _ _ => ⟨rfl, rfl⟩)
      (fun _ _ => rfl) (fun _ isNone => nomatch isNone)
      (fun device _ => agrees device ⟨free, clean⟩) fun _ _ _ => rfl
  | @modified process b data holds =>
    refine faithful.update (b := b) sound rfl (fun _ _ => ⟨rfl, rfl⟩)
      (fun c other => if_neg other.symm) (fun _ free => absurd free (isHeld holds))
      (fun _ free => absurd (free rfl).1 (isHeld holds)) fun _ _ notMarked => ?_
    have isMarked : mark b (pending b) (state, .modify process b data) = true := if_pos rfl
    exact absurd (notMarked.symm.trans isMarked) Bool.false_ne_true
  | @logged process b holds =>
    exact faithful.update (b := b) sound rfl (fun _ _ => ⟨rfl, rfl⟩)
      (fun c other => if_neg other.symm) (fun _ free => absurd free (isHeld holds))
      (fun _ free => absurd (free rfl).1 (isHeld holds)) fun _ isClean => nomatch isClean
  | @written process b holds =>
    have isDisk : ((state.setBuf b .setDirty).writeDisk b).disk =
        Function.update state.disk (state.buf b).block (state.buf b).data := by
      simp only [State.writeDisk, State.setBuf, Function.update_self]
      rfl
    refine faithful.update sound (buf_write state b)
      (fun block other => ⟨by rw [isDisk, Function.update_of_ne other], rfl⟩)
      (fun c other => if_neg other.symm) (fun _ free => absurd free (isHeld holds))
      (fun _ free => absurd (free rfl).1 (isHeld holds)) fun _ _ _ => ?_
    rw [isDisk]
    exact Function.update_self ..
  | @released process b holds =>
    exact faithful.update (b := b) sound rfl
      (fun block other => ⟨rfl, Function.update_of_ne other ..⟩) (fun _ _ => rfl)
      (fun _ _ _ => (Function.update_self (state.buf b).block (state.buf b).data last).symm)
      (fun _ free => (faithful.held b (isHeld holds) (free rfl).2 (logged process b rfl)).trans
        (Function.update_self (state.buf b).block (state.buf b).data last).symm)
      fun isNone => absurd rfl isNone
  | @dropped process b releasing =>
    have isDisk := disk_unref state process b
    refine faithful.update sound (buf_unref state process b)
      (fun block _ => ⟨congrFun isDisk block, rfl⟩) (fun _ _ => rfl) (faithful.buffered b)
      (fun device free => ?_) ?_
    · rw [isDisk]
      exact agrees device (free rfl)
    · rw [isDisk]
      exact faithful.held b

theorem returned_eq {last : Block → Data} {pending : Fin nbuf → Bool}
    (faithful : Faithful last pending state) (sound : Sound state) {block : Block} {data : Data}
    (returns : returned state label = some (block, data)) : data = last block := by
  cases label with
  | acquiresleep process =>
    simp only [returned] at returns
    split at returns
    · rename_i asked b locking
      obtain ⟨next, moved, same⟩ := Option.map_eq_some_iff.mp returns
      obtain ⟨rfl, rfl⟩ := Prod.mk.inj same
      obtain ⟨rfl, device⟩ := sound.locking process asked b locking
      generalize isLabel : Label.acquiresleep process = label at moved
      cases moves_of_transition sound.linked sound.pinned moved with
      | @locked other block c isLocking free valid =>
        obtain rfl := Label.acquiresleep.inj isLabel
        obtain ⟨-, rfl⟩ := Activity.locking.inj (locking.symm.trans isLocking)
        have bufs : (state.take process b).buf =
            Function.update state.buf b ((state.buf b).setHolder (some process)) := rfl
        rw [bufs, Function.update_self]
        exact faithful.buffered b device free valid
      | @read other block c isLocking free invalid clean =>
        obtain rfl := Label.acquiresleep.inj isLabel
        obtain ⟨-, rfl⟩ := Activity.locking.inj (locking.symm.trans isLocking)
        rw [buf_read, Function.update_self]
        exact faithful.disk_eq sound device free clean
      | _ => cases isLabel
    · cases returns
  | _ => cases returns

omit [DecidableEq Proc] [Fintype Proc] in
theorem faithful_initial (disk : Block → Data) (unread : Data) :
    Faithful disk (fun _ => false) (State.initial disk unread : State Proc Data) :=
  ⟨fun _ used => absurd rfl used, fun _ _ _ => rfl, fun _ holds => absurd rfl holds⟩

omit [DecidableEq Proc] [Fintype Proc] in
theorem Logged.of_append {rest : List (State Proc Data × Label Proc Data)}
    (logged : Logged (trace ++ rest)) : Logged trace := by
  rintro before state process b after rfl
  exact logged before state process b (after ++ rest) (by simp)

theorem kept (run : CacheRun disk unread trace finish)
    (devices : ∀ entry ∈ trace, entry.2.OnDevice) (logged : Logged trace) :
    Sound finish ∧ Faithful (contents disk trace) (pending trace) finish := by
  induction run with
  | nil => exact ⟨sound_initial disk unread, faithful_initial disk unread⟩
  | @snoc trace state next label run moved ih =>
    obtain ⟨sound, faithful⟩ := ih (fun entry member => devices entry (by simp [member]))
      logged.of_append
    have moves := moves_of_transition sound.linked sound.pinned moved
    have onDevice : label.OnDevice := devices (state, label) (by simp)
    have covered : ∀ process b, label = .brelse process b → pending trace b = false := by
      rintro process b rfl
      exact logged trace state process b [] rfl
    have marks : pending (trace ++ [(state, label)]) =
        fun b => mark b (pending trace b) (state, label) :=
      funext (pending_snoc trace (state, label))
    rw [contents_snoc, marks]
    exact ⟨sound.step onDevice moves, faithful.step sound covered moves⟩

omit [Fintype Proc] in
/-- A buffer that is referenced or dirty keeps its block. -/
theorem block_kept (linked : Linked state)
    (pinned : ∀ b, (state.buf b).dirty = true → (state.buf b).valid = true)
    (moved : transition state label = some next)
    (inUse : (state.buf b).dirty = true ∨ 0 < (state.buf b).refcnt) :
    (next.buf b).block = (state.buf b).block := by
  have kept : ∀ {c} {buf : Buf Proc Data}, next.buf = Function.update state.buf c buf →
      (c = b → buf.block = (state.buf b).block) →
        (next.buf b).block = (state.buf b).block := by
    intro c buf changes same
    rw [changes, Function.update_apply]
    split
    · exact same (Eq.symm ‹_›)
    · rfl
  cases moves_of_transition linked pinned moved with
  | @recycled process dev blockno c idle absent unused clean =>
    refine kept (c := c) rfl ?_
    rintro rfl
    rw [unused, clean] at inUse
    exact absurd inUse (by decide)
  | @hit process dev blockno c => exact kept (c := c) rfl fun same => same ▸ rfl
  | @locked process block c => exact kept (c := c) rfl fun same => same ▸ rfl
  | @read process block c => exact kept (buf_read state process c) fun same => same ▸ rfl
  | @modified process c => exact kept (c := c) rfl fun same => same ▸ rfl
  | @logged process c => exact kept (c := c) rfl fun same => same ▸ rfl
  | @written process c => exact kept (buf_write state c) fun same => same ▸ rfl
  | @released process c => exact kept (c := c) rfl fun same => same ▸ rfl
  | @dropped process c => exact kept (buf_unref state process c) fun same => same ▸ rfl

theorem kept_at {before after : List (State Proc Data × Label Proc Data)}
    (run : CacheRun disk unread (before ++ (state, label) :: after) finish)
    (devices : ∀ entry ∈ before ++ (state, label) :: after, entry.2.OnDevice)
    (logged : Logged (before ++ (state, label) :: after)) :
    Sound state ∧ Faithful (contents disk before) (pending before) state := by
  obtain ⟨middle, first, rest⟩ := run.split
  obtain ⟨rfl, -⟩ := rest.head
  exact kept first (fun entry member => devices entry (List.mem_append_left _ member))
    logged.of_append

theorem sound_throughout (run : CacheRun disk unread trace finish)
    (devices : ∀ entry ∈ trace, entry.2.OnDevice) (logged : Logged trace) :
    Throughout Sound trace finish := by
  refine ⟨fun entry member => ?_, (kept run devices logged).1⟩
  obtain ⟨before, after, rfl⟩ := List.append_of_mem member
  exact (kept_at run devices logged).1

/-- The buffer cache is transparent: `bread` returns the contents the block had at
its last `brelse`, or those of the disk.  A block has at most one buffer, a
buffer that is dirty or referenced is not given to another block, and the list
always is a ring with every buffer. -/
theorem cache_transparent (run : CacheRun disk unread trace finish)
    (devices : ∀ entry ∈ trace, entry.2.OnDevice) (logged : Logged trace) :
    (∀ before state label after block data, trace = before ++ (state, label) :: after →
      returned state label = some (block, data) → data = contents disk before block) ∧
    Throughout Unique trace finish ∧
    (∀ state label next b, (state, label) ∈ trace → transition state label = some next →
      (state.buf b).dirty = true ∨ 0 < (state.buf b).refcnt →
        (next.buf b).block = (state.buf b).block) ∧
    Throughout Linked trace finish := by
  have sound := sound_throughout run devices logged
  refine ⟨?_, ⟨fun entry member => (sound.1 entry member).unique, sound.2.unique⟩, ?_,
    ⟨fun entry member => (sound.1 entry member).linked, sound.2.linked⟩⟩
  · rintro before state label after block data rfl returns
    obtain ⟨sound, faithful⟩ := kept_at run devices logged
    exact returned_eq faithful sound returns
  · intro state label next b member moved inUse
    have sound := sound.1 _ member
    exact block_kept sound.linked sound.pinned moved inUse

/-- One iteration of `install_trans`. -/
def installTrans (process : Proc) (log home : BitVec 32) (lbuf dbuf : Fin nbuf) (data : Data) :
    List (Label Proc Data) :=
  [.bget process 1 log, .acquiresleep process, .bget process 1 home, .acquiresleep process,
    .modify process dbuf data, .bwrite process dbuf, .brelse process lbuf, .unref process,
    .brelse process dbuf, .unref process]

/-- A writer logs a block, a reader that waits for it sees the new contents, and
the block is installed. -/
def logAndInstall (writer reader : Proc) (lbuf dbuf : Fin nbuf) (data : Data) :
    List (Label Proc Data) :=
  [.bget writer 1 5, .acquiresleep writer, .bget reader 1 5, .modify writer dbuf data,
    .logWrite writer dbuf, .brelse writer dbuf, .unref writer, .acquiresleep reader,
    .brelse reader dbuf, .unref reader] ++ installTrans writer 3 5 lbuf dbuf data

end Contents

def Label.released? : Label Proc Data → Option (Fin nbuf)
  | .brelse _ b => some b
  | _ => none

omit [DecidableEq Proc] in
theorem logged_of_positions {steps : List (State Proc Data × Label Proc Data)}
    (positions : ∀ index < steps.length, ∀ b,
      (steps[index]?.bind fun entry => entry.2.released?) = some b →
        pending (steps.take index) b = false) : Logged steps := by
  rintro before state process b after rfl
  have here := positions before.length (by simp) b (by simp [Label.released?])
  rwa [List.take_left] at here

theorem cache_transparent_logAndInstall :
    ∃ (trace : List (State (Fin 2) UInt8 × Label (Fin 2) UInt8)) (finish : State (Fin 2) UInt8),
      CacheRun (fun block => UInt8.ofNat block.2.toNat) 0 trace finish ∧
        trace.map Prod.snd = logAndInstall 0 1 1 0 77 ∧
        (trace.filterMap fun entry => returned entry.1 entry.2) =
          [((1, 5), 5), ((1, 5), 77), ((1, 3), 3), ((1, 5), 77)] ∧
        finish.disk (1, 5) = 77 ∧ Throughout Unique trace finish ∧
        Throughout Linked trace finish := by
  refine exists_run_of_test (fun steps finish => (∀ index < steps.length, ∀ b,
      (steps[index]?.bind fun entry => entry.2.released?) = some b →
        pending (steps.take index) b = false) ∧
    (steps.filterMap fun entry => returned entry.1 entry.2) =
      [((1, 5), 5), ((1, 5), 77), ((1, 3), 3), ((1, 5), 77)] ∧ finish.disk (1, 5) = 77)
    (by decide +kernel) ?_
  rintro trace finish run labels ⟨positions, reads, stored⟩
  have devices : ∀ entry ∈ trace, entry.2.OnDevice := by
    intro entry member
    have isLabel : entry.2 ∈ logAndInstall 0 1 1 0 77 := labels ▸ List.mem_map_of_mem member
    have onDevice : ∀ label ∈ (logAndInstall 0 1 1 0 77 : List (Label (Fin 2) UInt8)),
        label.OnDevice := by
      simp [logAndInstall, installTrans, Label.OnDevice]
    exact onDevice _ isLabel
  obtain ⟨-, unique, -, linked⟩ :=
    cache_transparent run devices (logged_of_positions positions)
  exact ⟨reads, stored, unique, linked⟩

end BufferCache

end Xv6
