import Mathlib.Algebra.Order.BigOperators.Group.Finset
import Mathlib.Data.Fintype.Card
import Xv6.BufferCache
import Xv6.TableSums

/-!
# References, sleep locks and flags of buffers

The loops of `bget` see every buffer once, so a block gets at most one buffer.
The reference count is the number of processes that hold the buffer or are on
their way to or from its sleep lock, so a buffer without references is nobody's.
-/

namespace Xv6

namespace BufferCache

open CircularList LabelledRun

variable {Proc Data : Type}

/-! ## The two loops of `bget` -/

section Loops

variable {state : State Proc Data} {b : Fin nbuf} {dev blockno : BitVec 32}

theorem search_map {order : List (Fin nbuf)} (wanted : Option (Fin nbuf) → Bool) :
    ((order.map some).find? wanted).join = order.find? fun b => wanted (some b) := by
  rw [List.find?_map, Function.comp_def]
  cases order.find? fun b => wanted (some b) <;> rfl

theorem length_lt_of_circular {order : List (Fin nbuf)}
    (circular : Circular state.links none (order.map some)) :
    (order.map some).length < nbuf + 1 := by
  have nodup := (List.nodup_cons.mp circular.nodup).2.of_map some
  have few := nodup.length_le_card
  rw [List.length_map]
  exact Nat.lt_succ_of_le few

theorem cached_eq (linked : Linked state) :
    ∃ order : List (Fin nbuf), (∀ b, b ∈ order) ∧ ∀ dev blockno, state.cached dev blockno =
      order.find? fun b => (state.buf b).dev == dev && (state.buf b).blockno == blockno := by
  obtain ⟨order, circular, all⟩ := linked
  refine ⟨order, all, fun dev blockno => ?_⟩
  rw [State.cached, circular.search_next (length_lt_of_circular circular), search_map]
  rfl

theorem block_of_cached (linked : Linked state) (found : state.cached dev blockno = some b) :
    (state.buf b).block = (dev, blockno) := by
  obtain ⟨order, -, cached⟩ := cached_eq linked
  rw [cached] at found
  have wanted := List.find?_some found
  rw [Bool.and_eq_true, beq_iff_eq, beq_iff_eq] at wanted
  rw [Buf.block, wanted.1, wanted.2]

theorem absent_of_cached (linked : Linked state) (missed : state.cached dev blockno = none)
    (b : Fin nbuf) : (state.buf b).block ≠ (dev, blockno) := by
  obtain ⟨order, all, cached⟩ := cached_eq linked
  rw [cached, List.find?_eq_none] at missed
  have other := missed b (all b)
  intro same
  apply other
  rw [Bool.and_eq_true, beq_iff_eq, beq_iff_eq]
  exact ⟨congrArg Prod.fst same, congrArg Prod.snd same⟩

theorem unused_of_recyclable (linked : Linked state) (found : state.recyclable = some b) :
    (state.buf b).refcnt = 0 ∧ (state.buf b).dirty = false := by
  obtain ⟨order, circular, -⟩ := linked
  rw [State.recyclable, circular.search_prev (length_lt_of_circular circular), ← List.map_reverse,
    search_map] at found
  have wanted := List.find?_some found
  simpa using wanted

end Loops

/-! ## What the steps do -/

variable [DecidableEq Proc]

inductive Moves (state : State Proc Data) : Label Proc Data → State Proc Data → Prop
  | hit {process : Proc} {dev blockno : BitVec 32} {b : Fin nbuf}
      (idle : state.activity process = .idle) (here : (state.buf b).block = (dev, blockno)) :
      Moves state (.bget process dev blockno)
        ((state.setBuf b .ref).setActivity process (.locking (dev, blockno) b))
  | recycled {process : Proc} {dev blockno : BitVec 32} {b : Fin nbuf}
      (idle : state.activity process = .idle)
      (absent : ∀ other, (state.buf other).block ≠ (dev, blockno))
      (unused : (state.buf b).refcnt = 0) (clean : (state.buf b).dirty = false) :
      Moves state (.bget process dev blockno)
        ((state.setBuf b (.assign · dev blockno)).setActivity process
          (.locking (dev, blockno) b))
  | locked {process : Proc} {block : Block} {b : Fin nbuf}
      (locking : state.activity process = .locking block b)
      (free : (state.buf b).holder = none) (valid : (state.buf b).valid = true) :
      Moves state (.acquiresleep process) (state.take process b)
  | read {process : Proc} {block : Block} {b : Fin nbuf}
      (locking : state.activity process = .locking block b)
      (free : (state.buf b).holder = none) (invalid : (state.buf b).valid = false)
      (clean : (state.buf b).dirty = false) :
      Moves state (.acquiresleep process) ((state.take process b).readDisk b)
  | modified {process : Proc} {b : Fin nbuf} {data : Data} (holds : state.Holds process b) :
      Moves state (.modify process b data) (state.setBuf b (.setData · data))
  | logged {process : Proc} {b : Fin nbuf} (holds : state.Holds process b) :
      Moves state (.logWrite process b) (state.setBuf b .setDirty)
  | written {process : Proc} {b : Fin nbuf} (holds : state.Holds process b) :
      Moves state (.bwrite process b) ((state.setBuf b .setDirty).writeDisk b)
  | released {process : Proc} {b : Fin nbuf} (holds : state.Holds process b) :
      Moves state (.brelse process b) (state.releasesleep process b)
  | dropped {process : Proc} {b : Fin nbuf} (releasing : state.activity process = .releasing b) :
      Moves state (.unref process) (state.unref process b)

section Steps

variable {state next : State Proc Data} {process : Proc} {b : Fin nbuf}

omit [DecidableEq Proc] in
theorem bwrite_eq : state.bwrite b = some ((state.setBuf b .setDirty).writeDisk b) := by
  rw [State.bwrite, State.iderw, if_pos]
  simp [State.setBuf, Buf.setDirty]

theorem bread_of_valid (valid : (state.buf b).valid = true) :
    state.bread process b = some (state.take process b) := by
  rw [State.bread, if_pos]
  simpa [State.take, State.setBuf, State.setActivity, Buf.setHolder] using valid

theorem bread_of_invalid (invalid : (state.buf b).valid = false)
    (clean : (state.buf b).dirty = false) :
    state.bread process b = some ((state.take process b).readDisk b) := by
  have taken : ((state.take process b).buf b).valid = false ∧
      ((state.take process b).buf b).dirty = false := by
    simp [State.take, State.setBuf, State.setActivity, Buf.setHolder, invalid, clean]
  simp [State.bread, State.iderw, taken]

end Steps

theorem moves_of_transition {state next : State Proc Data} {label : Label Proc Data}
    (linked : Linked state) (pinned : ∀ b, (state.buf b).dirty = true → (state.buf b).valid = true)
    (moved : transition state label = some next) : Moves state label next := by
  cases label with
  | bget process dev blockno =>
    simp only [transition, State.bget] at moved
    split at moved
    · rename_i idle
      split at moved
      · rename_i b found
        cases moved
        exact .hit idle (block_of_cached linked found)
      · rename_i missed
        split at moved
        · rename_i b found
          cases moved
          obtain ⟨unused, clean⟩ := unused_of_recyclable linked found
          exact .recycled idle (absent_of_cached linked missed) unused clean
        · cases moved
    · cases moved
  | acquiresleep process =>
    simp only [transition] at moved
    split at moved
    · rename_i block b locking
      split at moved
      · rename_i free
        cases valid : (state.buf b).valid with
        | true =>
          rw [bread_of_valid valid] at moved
          cases moved
          exact .locked locking free valid
        | false =>
          have clean : (state.buf b).dirty = false := by
            grind
          rw [bread_of_invalid valid clean] at moved
          cases moved
          exact .read locking free valid clean
      · cases moved
    · cases moved
  | modify process b data =>
    simp only [transition] at moved
    split at moved
    · rename_i holds
      cases moved
      exact .modified holds
    · cases moved
  | logWrite process b =>
    simp only [transition] at moved
    split at moved
    · rename_i holds
      cases moved
      exact .logged holds
    · cases moved
  | bwrite process b =>
    simp only [transition, bwrite_eq] at moved
    split at moved
    · rename_i holds
      cases moved
      exact .written holds
    · cases moved
  | brelse process b =>
    simp only [transition] at moved
    split at moved
    · rename_i holds
      cases moved
      exact .released holds
    · cases moved
  | unref process =>
    simp only [transition] at moved
    split at moved
    · rename_i b releasing
      cases moved
      exact .dropped releasing
    · cases moved

/-! ## References, locks and flags -/

/-- The references of a process on a buffer, apart from the one of the holder. -/
def Activity.uses : Activity → Fin nbuf → Nat
  | .idle, _ => 0
  | .locking _ c, b => if c = b then 1 else 0
  | .releasing c, b => if c = b then 1 else 0

@[simp]
theorem Activity.uses_locking (block : Block) (b : Fin nbuf) :
    (Activity.locking block b).uses b = 1 :=
  if_pos rfl

@[simp]
theorem Activity.uses_releasing (b : Fin nbuf) : (Activity.releasing b).uses b = 1 :=
  if_pos rfl

theorem Activity.uses_locking_of_ne {block : Block} {b c : Fin nbuf} (other : c ≠ b) :
    (Activity.locking block b).uses c = 0 :=
  if_neg other.symm

theorem Activity.uses_releasing_of_ne {b c : Fin nbuf} (other : c ≠ b) :
    (Activity.releasing b).uses c = 0 :=
  if_neg other.symm

section Fields

variable (state : State Proc Data) (process : Proc) (b : Fin nbuf)

theorem buf_read : ((state.take process b).readDisk b).buf = Function.update state.buf b
    (((state.buf b).setHolder (some process)).setData (state.disk (state.buf b).block)).sync := by
  simp only [State.readDisk, State.take, State.setActivity, State.setBuf, Function.update_self,
    Function.update_idem]
  rfl

omit [DecidableEq Proc] in
theorem buf_write : ((state.setBuf b .setDirty).writeDisk b).buf =
    Function.update state.buf b (state.buf b).setDirty.sync := by
  simp only [State.writeDisk, State.setBuf, Function.update_self, Function.update_idem]

theorem buf_unref :
    (state.unref process b).buf = Function.update state.buf b (state.buf b).unref := by
  rw [State.unref]
  split <;> rfl

theorem activity_unref :
    (state.unref process b).activity = Function.update state.activity process .idle := by
  rw [State.unref]
  split <;> rfl

theorem disk_unref : (state.unref process b).disk = state.disk := by
  rw [State.unref]
  split <;> rfl

end Fields

section References

variable [Fintype Proc]

/-- The references on a buffer, apart from the one of the holder. -/
def users (state : State Proc Data) (b : Fin nbuf) : Nat :=
  ∑ process, (state.activity process).uses b

/-- What holds of references, sleep locks and flags between any two steps. -/
structure Sound (state : State Proc Data) : Prop where
  linked : Linked state
  unique : Unique state
  refcnt : ∀ b, (state.buf b).refcnt =
    users state b + if (state.buf b).holder = none then 0 else 1
  locking : ∀ process block b, state.activity process = .locking block b →
    (state.buf b).block = block ∧ block.1 ≠ 0
  held : ∀ b, (state.buf b).holder ≠ none → (state.buf b).valid = true ∧ (state.buf b).dev ≠ 0
  pinned : ∀ b, (state.buf b).dirty = true → (state.buf b).valid = true

omit [DecidableEq Proc] in
theorem uses_le_users (state : State Proc Data) (process : Proc) (b : Fin nbuf) :
    (state.activity process).uses b ≤ users state b :=
  Finset.single_le_sum (f := fun process => (state.activity process).uses b)
    (fun _ _ => Nat.zero_le _) (Finset.mem_univ process)

variable {state next : State Proc Data}

theorem users_of_activity {process : Proc} {activity : Activity}
    (changed : next.activity = Function.update state.activity process activity) (b : Fin nbuf) :
    users next b + (state.activity process).uses b = users state b + activity.uses b := by
  unfold users
  rw [changed]
  exact sum_update_add (fun activity : Activity => activity.uses b) (Finset.mem_univ process)

omit [DecidableEq Proc] in
/-- A buffer without references is not held and nobody is about to hold it. -/
theorem Sound.unused (sound : Sound state) {b : Fin nbuf} (unused : (state.buf b).refcnt = 0) :
    (state.buf b).holder = none ∧
      ∀ process, (∀ block, state.activity process ≠ .locking block b) ∧
        state.activity process ≠ .releasing b := by
  have counted := sound.refcnt b
  refine ⟨by grind, fun process => ?_⟩
  have bound := uses_le_users state process b
  grind [Activity.uses]

omit [Fintype Proc] in
theorem Linked.unref (linked : Linked state) (process : Proc) (b : Fin nbuf) :
    Linked (state.unref process b) := by
  unfold State.unref
  dsimp only
  split
  · obtain ⟨order, circular, all⟩ := linked
    obtain ⟨front, back, rfl⟩ := List.append_of_mem (all b)
    rw [List.map_append, List.map_cons] at circular
    have nodup := circular.nodup
    refine ⟨b :: (front ++ back), ?_, ?_⟩
    · rw [List.map_cons, List.map_append]
      refine circular.unlink.push ?_
      have outside := List.nodup_middle.mp (List.nodup_cons.mp nodup).2
      rw [List.mem_cons, not_or]
      exact ⟨Option.some_ne_none b, (List.nodup_cons.mp outside).1⟩
    · intro other
      have member := all other
      simp only [List.mem_append, List.mem_cons] at member ⊢
      tauto
  · exact linked

def Buf.locks (buf : Buf Proc Data) : Nat :=
  if buf.holder = none then 0 else 1

/-- A step that changes one buffer and what one process is about to do. -/
theorem Sound.update {process : Proc} {b : Fin nbuf} {buf : Buf Proc Data} {activity : Activity}
    (sound : Sound state) (changes : next.buf = Function.update state.buf b buf)
    (linked : Linked next)
    (changed : next.activity = Function.update state.activity process activity)
    (block : buf.block = (state.buf b).block ∨
      (∀ c, (state.buf c).block ≠ buf.block) ∧
        ∀ other wanted, state.activity other ≠ .locking wanted b)
    (refcnt : buf.refcnt + (state.activity process).uses b + (state.buf b).locks =
      (state.buf b).refcnt + activity.uses b + buf.locks)
    (elsewhere : ∀ c, c ≠ b → (state.activity process).uses c = activity.uses c)
    (locking : ∀ wanted c, activity = .locking wanted c →
      c = b ∧ buf.block = wanted ∧ wanted.1 ≠ 0)
    (held : buf.holder ≠ none → buf.valid = true ∧ buf.dev ≠ 0)
    (pinned : buf.dirty = true → buf.valid = true) : Sound next := by
  have others : ∀ c, c ≠ b → next.buf c = state.buf c := fun c other => by
    rw [changes, Function.update_of_ne other]
  obtain rfl : next.buf b = buf := by rw [changes, Function.update_self]
  constructor
  case linked => exact linked
  case unique =>
    -- a buffer that gets another block gets one that no buffer has
    have apart : ∀ c, c ≠ b → (state.buf c).dev ≠ 0 →
        (state.buf c).block ≠ (next.buf b).block := by
      intro c other used same
      rcases block with kept | fresh
      · exact other (sound.unique c b used (same.trans kept))
      · exact fresh.1 c same
    intro c other used same
    by_cases here : c = b <;> by_cases there : other = b
    · rw [here, there]
    · rw [here, others other there] at same
      have device : (state.buf other).dev = (next.buf b).dev := congrArg Prod.fst same.symm
      exact absurd same.symm (apart other there (by rwa [device, ← here]))
    · rw [there, others c here] at same
      rw [others c here] at used
      exact absurd same (apart c here used)
    · rw [others c here] at used same
      rw [others other there] at same
      exact sound.unique c other used same
  case refcnt =>
    intro c
    have total := users_of_activity changed c
    have before := sound.refcnt c
    by_cases here : c = b
    · subst here
      simp only [Buf.locks] at refcnt
      omega
    · rw [others c here, before]
      have same := elsewhere c here
      omega
  case locking =>
    intro other wanted c isLocking
    rw [changed, Function.update_apply] at isLocking
    split at isLocking
    · obtain ⟨rfl, isBlock, device⟩ := locking wanted c isLocking
      exact ⟨isBlock, device⟩
    · have before := sound.locking other wanted c isLocking
      by_cases here : c = b
      · subst here
        rcases block with kept | fresh
        · exact ⟨kept.trans before.1, before.2⟩
        · exact absurd isLocking (fresh.2 other wanted)
      · rwa [others c here]
  case held =>
    intro c
    by_cases here : c = b
    · exact here ▸ held
    · rw [others c here]
      exact sound.held c
  case pinned =>
    intro c
    by_cases here : c = b
    · exact here ▸ pinned
    · rw [others c here]
      exact sound.pinned c

/-- The holder of a buffer changes its contents or flags. -/
theorem Sound.rewrite {process : Proc} {b : Fin nbuf} {buf : Buf Proc Data} (sound : Sound state)
    (holds : state.Holds process b) (changes : next.buf = Function.update state.buf b buf)
    (linked : Linked next)
    (activity : next.activity = state.activity) (block : buf.block = (state.buf b).block)
    (refcnt : buf.refcnt = (state.buf b).refcnt) (holder : buf.holder = (state.buf b).holder)
    (valid : (state.buf b).valid = true → buf.valid = true) : Sound next := by
  have isHeld : (state.buf b).holder ≠ none := by
    rw [holds.2]
    exact Option.some_ne_none process
  obtain ⟨wasValid, device⟩ := sound.held b isHeld
  have same : next.activity =
      Function.update state.activity process (state.activity process) := by
    rw [activity, Function.update_eq_self]
  refine sound.update changes linked same (.inl block) ?_ (fun _ _ => rfl)
    (fun wanted c isLocking => ?_) (fun _ => ⟨valid wasValid, ?_⟩) fun _ => valid wasValid
  · rw [refcnt, Buf.locks, Buf.locks, holder]
  · rw [holds.1] at isLocking
    cases isLocking
  · exact (congrArg Prod.fst block).trans_ne device

/-- A process that waits for the lock of a buffer gets it, when the buffer is valid. -/
theorem Sound.lock {process : Proc} {block : Block} {b : Fin nbuf} {buf : Buf Proc Data}
    (sound : Sound state) (isLocking : state.activity process = .locking block b)
    (free : (state.buf b).holder = none) (changes : next.buf = Function.update state.buf b buf)
    (linked : Linked next)
    (activity : next.activity = Function.update state.activity process .idle)
    (same : buf.block = (state.buf b).block) (refcnt : buf.refcnt = (state.buf b).refcnt)
    (holder : buf.holder = some process) (valid : buf.valid = true) : Sound next := by
  obtain ⟨isBlock, device⟩ := sound.locking process block b isLocking
  refine sound.update changes linked activity (.inl same) ?_ (fun c other => ?_)
    (fun _ _ isIdle => nomatch isIdle) (fun _ => ⟨valid, ?_⟩) fun _ => valid
  · simp [isLocking, Buf.locks, free, holder, refcnt, Activity.uses]
  · rw [isLocking, Activity.uses_locking_of_ne other]
    rfl
  · exact (congrArg Prod.fst (same.trans isBlock)).trans_ne device

theorem Sound.step {label : Label Proc Data} (sound : Sound state) (onDevice : label.OnDevice)
    (moves : Moves state label next) : Sound next := by
  cases moves with
  | @hit process dev blockno b idle here =>
    refine sound.update (b := b) rfl sound.linked rfl (.inl rfl) ?_
      (fun c other => ?_) ?_ (sound.held b) (sound.pinned b)
    · rw [idle, Activity.uses_locking]
      rfl
    · rw [idle, Activity.uses_locking_of_ne other]
      rfl
    · rintro wanted c ⟨⟩
      exact ⟨rfl, here, onDevice⟩
  | @recycled process dev blockno b idle absent unused clean =>
    obtain ⟨free, nobody⟩ := sound.unused unused
    refine sound.update (b := b) rfl sound.linked rfl
      (.inr ⟨absent, fun other wanted => (nobody other).1 wanted⟩) ?_ (fun c other => ?_) ?_
      (fun isHeld => absurd free isHeld) fun isDirty => nomatch isDirty
    · rw [idle, unused, Activity.uses_locking]
      rfl
    · rw [idle, Activity.uses_locking_of_ne other]
      rfl
    · rintro wanted c ⟨⟩
      exact ⟨rfl, rfl, onDevice⟩
  | @locked process block b isLocking free valid =>
    exact sound.lock isLocking free rfl sound.linked rfl rfl rfl rfl
      valid
  | @read process block b isLocking free invalid clean =>
    exact sound.lock isLocking free (buf_read state process b) sound.linked rfl rfl rfl rfl rfl
  | @modified process b data holds =>
    exact sound.rewrite holds rfl sound.linked rfl rfl rfl rfl id
  | @logged process b holds =>
    exact sound.rewrite holds rfl sound.linked rfl rfl rfl rfl id
  | @written process b holds =>
    exact sound.rewrite holds (buf_write state b) sound.linked rfl rfl rfl rfl fun _ => rfl
  | @released process b holds =>
    refine sound.update (b := b) rfl sound.linked rfl (.inl rfl) ?_
      (fun c other => ?_) (fun _ _ isReleasing => nomatch isReleasing)
      (fun isHeld => absurd rfl isHeld) (sound.pinned b)
    · have isLocked : (state.buf b).locks = 1 := by
        rw [Buf.locks, holds.2]
        rfl
      rw [holds.1, Activity.uses_releasing, isLocked]
      rfl
    · rw [holds.1, Activity.uses_releasing_of_ne other]
      rfl
  | @dropped process b releasing =>
    have used := uses_le_users state process b
    have counted := sound.refcnt b
    refine sound.update (buf_unref state process b) (sound.linked.unref process b)
      (activity_unref state process b) (.inl rfl) ?_ (fun c other => ?_)
      (fun _ _ isIdle => nomatch isIdle) (sound.held b) (sound.pinned b)
    · rw [releasing, Activity.uses_releasing] at used ⊢
      change (state.buf b).refcnt - 1 + 1 + (state.buf b).locks =
        (state.buf b).refcnt + 0 + (state.buf b).locks
      omega
    · rw [releasing, Activity.uses_releasing_of_ne other]
      rfl

omit [DecidableEq Proc] [Fintype Proc] in
theorem linked_initial (disk : Block → Data) (unread : Data) :
    Linked (State.initial disk unread : State Proc Data) := by
  have alone : Circular (⟨fun _ => none, fun _ => none⟩ : Links (Option (Fin nbuf))) none [] :=
    ⟨List.nodup_singleton _, rfl, rfl⟩
  have fresh : ((List.finRange nbuf).map some ++ [none]).Nodup := by
    grind [List.nodup_append.mpr, List.nodup_finRange]
  have circular := alone.foldl_push fresh
  rw [List.foldl_map, List.append_nil, ← List.map_reverse] at circular
  exact ⟨_, circular, by simp⟩

omit [DecidableEq Proc] in
theorem sound_initial (disk : Block → Data) (unread : Data) :
    Sound (State.initial disk unread : State Proc Data) := by
  constructor
  case linked => exact linked_initial disk unread
  case unique => exact fun b other used => absurd rfl used
  case refcnt => simp [State.initial, users, Activity.uses]
  case locking => simp [State.initial]
  case held => simp [State.initial]
  case pinned => simp [State.initial]

end References

end BufferCache

end Xv6
