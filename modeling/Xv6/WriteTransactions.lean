import Xv6.FileSystemLog
import Xv6.OpenFiles
import Xv6.TracedCode

/-!
# The transactions of a file write

`filewrite` cuts a write into pieces, each in a transaction of its own, so that no
transaction changes more blocks than `begin_op` reserves for it.  Here the functions
below `filewrite` are embedded once more with their calls of `begin_op`, `log_write` and
`end_op`.  A round of the loop of `writei` logs the block of the bitmap, the indirect
block and the block with the data, and a piece takes at most four rounds.
-/

namespace Xv6

namespace Fs

namespace Logged

open DiskBlock Traced

/-- The calls of the log layer, and of `log_write` with the number of the block. -/
inductive LogCall
  | beginOp
  | logWrite (b : Nat)
  | endOp
  deriving DecidableEq

/-- Code of the file system with its calls of the log layer.  A panic gives no value. -/
abbrev Code : Type → Type :=
  Traced LogCall

abbrev ipb : Nat := 8

def iblock (inodestart inum : Nat) : Nat :=
  inum / ipb + inodestart

def logWrite (b : Nat) (data : Data) (state : State) : Code State := do
  emit [.logWrite b]
  pure (state.logWrite b data)

def bzero (b : Nat) (state : State) : Code State :=
  logWrite b (fun _ => 0) state

def balloc (sb : SuperBlock) (state : State) : Code (Nat × State) :=
  match state.findFree sb with
  | some (b, bi) => do
    let marked ← logWrite (sb.bblock b) (setBit (state.block (sb.bblock b)) bi) state
    let state ← bzero (b + bi) marked
    pure (b + bi, state)
  | none => fail

def bmapAddr (sb : SuperBlock) (ip : Inode) (index : Nat) (state : State) :
    Code (Inode × State) :=
  if ip.addrs index = 0 then do
    let found ← balloc sb state
    pure (ip.setAddr index found.1, found.2)
  else pure (ip, state)

/-- The address in the indirect block, allocated when there is none. -/
def bmapEntry (sb : SuperBlock) (ip : Inode) (index : Nat) (state : State) :
    Code (Nat × Inode × State) :=
  let indirect := ip.addrs ndirect
  let entry := word (state.block indirect) index
  if entry = 0 then do
    let fresh ← balloc sb state
    let state ← logWrite indirect
      (setWord (fresh.2.block indirect) index (BitVec.ofNat 32 fresh.1)) fresh.2
    pure (fresh.1, ip, state)
  else pure (entry.toNat, ip, state)

def bmap (sb : SuperBlock) (ip : Inode) (bn : Nat) (state : State) : Code (Nat × Inode × State) :=
  if bn < ndirect then do
    let direct ← bmapAddr sb ip bn state
    pure (direct.1.addrs bn, direct)
  else if bn - ndirect < nindirect then do
    let found ← bmapAddr sb ip ndirect state
    bmapEntry sb found.1 (bn - ndirect) found.2
  else fail

/-- One round of the loop of `writei`. -/
def writeBlock (sb : SuperBlock) (ip : Inode) (off : Nat) (src : List UInt8) (state : State) :
    Code (Inode × State) := do
  let found ← bmap sb ip (off / bsize) state
  let state ← logWrite found.1 (setBytes (found.2.2.block found.1) (off % bsize) src) found.2.2
  pure (found.2.1, state)

def writeiLoop (sb : SuperBlock) :
    Nat → Inode → Nat → List UInt8 → State → Code (Nat × Inode × State)
  | 0, ip, off, _, state => pure (off, ip, state)
  | fuel + 1, ip, off, src, state =>
    if src.length = 0 then pure (off, ip, state)
    else do
      let m := min src.length (bsize - off % bsize)
      let after ← writeBlock sb ip off (src.take m) state
      writeiLoop sb fuel after.1 (off + m) (src.drop m) after.2

def iupdate (inodestart inum : Nat) (ip : Inode) (state : State) : Code State := do
  emit [.logWrite (iblock inodestart inum)]
  pure (state.iupdate inum ip)

/-- `writei` of the bytes in `src`. -/
def writei (sb : SuperBlock) (inodestart : Nat) (devsw : Nat → Device) (inum : Nat) (ip : Inode)
    (off : Nat) (src : List UInt8) (state : State) : Code (Int × Inode × State) :=
  if ip.type = .dev then
    if ip.major < 0 ∨ ndev ≤ ip.major then pure (-1, ip, state)
    else
      match (devsw ip.major.toNat).write with
      | none => pure (-1, ip, state)
      | some write => pure (write src, ip, state)
  else if ip.size < off ∨ (off + src.length) % 2 ^ 32 < off then pure (-1, ip, state)
  else if maxfile * bsize < (off + src.length) % 2 ^ 32 then pure (-1, ip, state)
  else do
    let after ← writeiLoop sb src.length ip off src state
    if 0 < src.length ∧ after.2.1.size < after.1 then do
      let ip := { after.2.1 with size := after.1 }
      let state ← iupdate inodestart inum ip after.2.2
      pure (src.length, ip, state)
    else pure (src.length, after.2)

/-- One transaction of `filewrite`, with the number that `writei` returned. -/
def writeTransaction (sb : SuperBlock) (inodestart : Nat) (devsw : Nat → Device) (f : OpenFile)
    (src : List UInt8) (state : State) : Code (Int × OpenFile × State) := do
  emit [.beginOp]
  let locked ← ⟨[], (ilock f.inum state).toOption⟩
  let after ← writei sb inodestart devsw f.inum locked.1 f.off src locked.2
  emit [.endOp]
  pure (after.1, f.advance after.1, after.2.2.setCopy f.inum after.2.1)

def filewriteLoop (sb : SuperBlock) (inodestart : Nat) (devsw : Nat → Device) :
    Nat → OpenFile → List UInt8 → State → Code (Nat × OpenFile × State)
  | 0, f, _, state => pure (0, f, state)
  | fuel + 1, f, src, state =>
    if src.length = 0 then pure (0, f, state)
    else do
      let n1 := min src.length maxWrite
      let after ← writeTransaction sb inodestart devsw f (src.take n1) state
      if after.1 < 0 then pure (0, after.2)
      else if after.1 ≠ n1 then fail
      else do
        let rest ← filewriteLoop sb inodestart devsw fuel after.2.1 (src.drop n1) after.2.2
        pure (n1 + rest.1, rest.2)

def filewrite (sb : SuperBlock) (inodestart : Nat) (devsw : Nat → Device) (f : OpenFile)
    (src : List UInt8) (state : State) : Code (Int × OpenFile × State) :=
  if f.writable = false then pure (-1, f, state)
  else do
    let after ← filewriteLoop sb inodestart devsw src.length f src state
    pure (if after.1 = src.length then src.length else -1, after.2)

/-! ## The calls compute what they compute without the list -/

section Values

variable {sb : SuperBlock} {inodestart : Nat} {devsw : Nat → Device} {state : State} {ip : Inode}

theorem toOption_bind {α β : Type} (first : Result α) (rest : α → Result β) :
    (first >>= rest).toOption = first.toOption.bind fun value => (rest value).toOption := by
  cases first with
  | error panic => rfl
  | ok value => rfl

theorem value_logWrite (b : Nat) (data : Data) (state : State) :
    (logWrite b data state).value = some (state.logWrite b data) :=
  rfl

theorem value_balloc : (balloc sb state).value = (Fs.balloc sb state).toOption := by
  unfold balloc Fs.balloc
  cases state.findFree sb with
  | none => rfl
  | some found => rfl

theorem value_bmapAddr (index : Nat) :
    (bmapAddr sb ip index state).value = (Fs.bmapAddr sb ip index state).toOption := by
  unfold bmapAddr Fs.bmapAddr
  split
  · rw [value_bind, value_balloc, toOption_bind]
    rfl
  · rfl

theorem value_bmap (bn : Nat) :
    (bmap sb ip bn state).value = (Fs.bmap sb ip bn state).toOption := by
  unfold bmap Fs.bmap
  split
  · rw [value_bind, value_bmapAddr, toOption_bind]
    rfl
  split
  · rw [value_bind, value_bmapAddr, toOption_bind]
    congr 1
    funext found
    unfold bmapEntry
    dsimp only
    split
    · rw [value_bind, value_balloc, toOption_bind]
      rfl
    · rfl
  · rfl

theorem value_writeiLoop (fuel off : Nat) (src : List UInt8) :
    (writeiLoop sb fuel ip off src state).value =
      (Fs.writeiLoop sb fuel ip off src state).toOption := by
  induction fuel generalizing ip off src state with
  | zero => rfl
  | succ fuel continues =>
    unfold writeiLoop Fs.writeiLoop
    split
    · rfl
    · rw [value_bind, writeBlock, value_bind, value_bmap, toOption_bind, Option.bind_assoc]
      congr 1
      funext found
      exact continues _ _

theorem value_writei (inum off : Nat) (src : List UInt8) :
    (writei sb inodestart devsw inum ip off src state).value =
      (Fs.writei sb devsw inum ip off src state).toOption := by
  unfold writei Fs.writei
  split
  · split
    · rfl
    · cases (devsw ip.major.toNat).write with
      | none => rfl
      | some write => rfl
  split
  · rfl
  split
  · rfl
  · rw [value_bind, value_writeiLoop, toOption_bind]
    congr 1
    funext after
    dsimp only
    split
    · rfl
    · rfl

theorem value_writeTransaction (f : OpenFile) (src : List UInt8) :
    (writeTransaction sb inodestart devsw f src state).value =
      (Fs.writeTransaction sb devsw f src state).toOption := by
  unfold writeTransaction Fs.writeTransaction
  rw [value_bind, value_emit, Option.bind_some, value_bind, toOption_bind]
  congr 1
  funext locked
  rw [value_bind, value_writei, toOption_bind]
  rfl

theorem value_filewriteLoop (fuel : Nat) (f : OpenFile) (src : List UInt8) :
    (filewriteLoop sb inodestart devsw fuel f src state).value =
      (Fs.filewriteLoop sb devsw fuel f src state).toOption := by
  induction fuel generalizing f src state with
  | zero => rfl
  | succ fuel continues =>
    unfold filewriteLoop Fs.filewriteLoop
    split
    · rfl
    · rw [value_bind, value_writeTransaction, toOption_bind]
      congr 1
      funext after
      dsimp only
      split
      · rfl
      split
      · rfl
      · rw [value_bind, continues, toOption_bind]
        rfl

theorem value_filewrite (f : OpenFile) (src : List UInt8) :
    (filewrite sb inodestart devsw f src state).value =
      (Fs.filewrite sb devsw f src state).toOption := by
  unfold filewrite Fs.filewrite
  split
  · rfl
  · rw [value_bind, value_filewriteLoop, toOption_bind]
    rfl

end Values

/-! ## The blocks of a transaction -/

def LogCall.block : LogCall → Option Nat
  | .logWrite b => some b
  | _ => none

def blocks (calls : List LogCall) : Finset Nat :=
  (calls.filterMap LogCall.block).toFinset

/-- The calls of a transaction, given what follows its `begin_op`. -/
def untilEnd (calls : List LogCall) : List LogCall :=
  calls.takeWhile (· ≠ .endOp)

section Counting

variable {sb : SuperBlock} {inodestart : Nat} {devsw : Nat → Device} {state : State} {ip : Inode}

/-- A call that logs the only block of the bitmap, or the block that the code has found. -/
def MarksOr {α : Type} (sb : SuperBlock) (code : Code α) (found : α → Nat) (call : LogCall) :
    Prop :=
  call = .logWrite sb.bmapstart ∨ ∃ value, code.value = some value ∧ call = .logWrite (found value)

/-- The code logs the bitmap and at most `count` other blocks. -/
def FewBlocks {α : Type} (sb : SuperBlock) (count : Nat) (code : Code α) : Prop :=
  Few LogCall.logWrite (· = sb.bmapstart) count code

theorem MarksOr.bind {α β : Type} {code : Code α} {rest : α → Code β} {value : α}
    {found : β → Nat} {call : LogCall} (isValue : code.value = some value)
    (marks : MarksOr sb (rest value) found call) : MarksOr sb (code >>= rest) found call := by
  unfold MarksOr
  rw [value_bind, isValue]
  exact marks

/-- The block that the first code finds is what the second one returns. -/
theorem MarksOr.bind_pure {α β : Type} {code : Code α} {f : α → β} {found : α → Nat}
    {result : β → Nat} {call : LogCall} (same : ∀ value, result (f value) = found value)
    (marks : MarksOr sb code found call) :
    MarksOr sb (code >>= fun value => pure (f value)) result call := by
  refine marks.imp_right fun ⟨value, isValue, isCall⟩ => ⟨f value, ?_, ?_⟩
  · rw [value_bind, isValue]
    rfl
  · rw [same, isCall]

theorem bblock_of_findFree (oneBlock : sb.size ≤ bpb) {b bi : Nat}
    (isFree : state.findFree sb = some (b, bi)) : sb.bblock b = sb.bmapstart := by
  obtain ⟨other, below, -, isBlock, -⟩ := findFree_eq_some isFree
  rw [isBlock, SuperBlock.bblock, Nat.div_eq_of_lt (below.trans_le oneBlock), Nat.zero_add]

theorem balloc_calls (oneBlock : sb.size ≤ bpb) {call : LogCall}
    (isCall : call ∈ (balloc sb state).events) : MarksOr sb (balloc sb state) Prod.fst call := by
  unfold balloc at isCall ⊢
  cases isFree : state.findFree sb with
  | none =>
    rw [isFree] at isCall
    exact absurd isCall List.not_mem_nil
  | some found =>
    rw [isFree] at isCall
    have marks := bblock_of_findFree oneBlock isFree
    rcases List.mem_pair.mp isCall with rfl | rfl
    · exact .inl (congrArg _ marks)
    · exact .inr ⟨_, rfl, rfl⟩

theorem bmapAddr_calls (oneBlock : sb.size ≤ bpb) {index : Nat} {call : LogCall}
    (isCall : call ∈ (bmapAddr sb ip index state).events) :
    MarksOr sb (bmapAddr sb ip index state) (fun found => found.1.addrs index) call := by
  unfold bmapAddr at isCall ⊢
  split at isCall
  · rename_i isZero
    rw [if_pos isZero]
    rw [events_bind_pure] at isCall
    refine (balloc_calls oneBlock isCall).bind_pure fun found => ?_
    exact Function.update_self index found.1 ip.addrs
  · exact absurd isCall List.not_mem_nil

theorem bmapEntry_calls (oneBlock : sb.size ≤ bpb) {index : Nat} {call : LogCall}
    (isCall : call ∈ (bmapEntry sb ip index state).events) :
    call = .logWrite (ip.addrs ndirect) ∨
      MarksOr sb (bmapEntry sb ip index state) Prod.fst call := by
  unfold bmapEntry at isCall ⊢
  dsimp only at isCall ⊢
  split at isCall
  · rename_i isZero
    rw [if_pos isZero]
    rw [events_bind, List.mem_append] at isCall
    rcases isCall with early | late
    · right
      rcases balloc_calls oneBlock early with marks | ⟨fresh, isValue, rfl⟩
      · exact .inl marks
      · exact .bind isValue (.inr ⟨_, rfl, rfl⟩)
    · cases isValue : (balloc sb state).value with
      | none =>
        grind
      | some fresh =>
        rw [isValue] at late
        exact .inl (List.mem_singleton.mp late)
  · exact absurd isCall List.not_mem_nil

theorem bmap_calls (oneBlock : sb.size ≤ bpb) (bn : Nat) :
    ∃ indirect, ∀ call ∈ (bmap sb ip bn state).events,
      call = .logWrite indirect ∨ MarksOr sb (bmap sb ip bn state) Prod.fst call := by
  unfold bmap
  split
  · refine ⟨0, fun call isCall => .inr ?_⟩
    rw [events_bind_pure] at isCall
    exact (bmapAddr_calls oneBlock isCall).bind_pure fun _ => rfl
  split
  · cases isValue : (bmapAddr sb ip ndirect state).value with
    | none =>
      refine ⟨0, fun call isCall => .inr (.inl ?_)⟩
      rw [events_bind, isValue, Option.elim_none, List.append_nil] at isCall
      rcases bmapAddr_calls oneBlock isCall with marks | ⟨found, isFound, -⟩
      · exact marks
      · exact absurd (isFound.symm.trans isValue) (Option.some_ne_none found)
    | some found =>
      refine ⟨found.1.addrs ndirect, fun call isCall => ?_⟩
      rw [events_bind, isValue, Option.elim_some, List.mem_append] at isCall
      rcases isCall with early | late
      · rcases bmapAddr_calls oneBlock early with marks | ⟨other, isFound, rfl⟩
        · exact .inr (.inl marks)
        · grind
      · exact (bmapEntry_calls oneBlock late).imp_right (.bind isValue)
  · exact ⟨0, fun call isCall => absurd isCall List.not_mem_nil⟩

/-- A round of the loop of `writei` logs the indirect block and the block with the data. -/
theorem few_writeBlock (oneBlock : sb.size ≤ bpb) (off : Nat) (src : List UInt8) :
    FewBlocks sb 2 (writeBlock sb ip off src state) := by
  obtain ⟨indirect, calls⟩ := @bmap_calls sb state ip oneBlock (off / bsize)
  unfold writeBlock
  cases isValue : (bmap sb ip (off / bsize) state).value with
  | none =>
    refine ⟨{indirect}, Nat.le_succ 1, fun call isCall => ?_⟩
    rw [events_bind, isValue, Option.elim_none, List.append_nil] at isCall
    rcases calls call isCall with isIndirect | marks | ⟨found, isFound, -⟩
    · exact ⟨indirect, isIndirect, .inr (Finset.mem_singleton_self _)⟩
    · exact ⟨_, marks, .inl rfl⟩
    · exact absurd (isFound.symm.trans isValue) (Option.some_ne_none found)
  | some found =>
    refine ⟨{indirect, found.1}, Finset.card_le_two, fun call isCall => ?_⟩
    rw [events_bind, isValue, Option.elim_some, List.mem_append] at isCall
    simp only [Finset.mem_insert, Finset.mem_singleton]
    rcases isCall with early | late
    · rcases calls call early with isIndirect | marks | ⟨other, isFound, rfl⟩
      · exact ⟨indirect, isIndirect, .inr (.inl rfl)⟩
      · exact ⟨_, marks, .inl rfl⟩
      · grind
    · exact ⟨_, List.mem_singleton.mp late, .inr (.inr rfl)⟩

/-- The rounds that the loop of `writei` takes. -/
def rounds (off n : Nat) : Nat :=
  if n = 0 then 0 else (off % bsize + n + bsize - 1) / bsize

theorem rounds_succ {off n : Nat} (more : n ≠ 0) :
    2 + 2 * rounds (off + min n (bsize - off % bsize)) (n - min n (bsize - off % bsize)) ≤
      2 * rounds off n := by
  grind [rounds]

theorem rounds_le {off n : Nat} (fits : n ≤ maxWrite) : rounds off n ≤ 4 := by
  change (if n = 0 then 0 else (off % 512 + n + 512 - 1) / 512) ≤ 4
  change n ≤ 1536 at fits
  split
  · omega
  · omega

theorem few_writeiLoop (oneBlock : sb.size ≤ bpb) (fuel off : Nat) (src : List UInt8) :
    FewBlocks sb (2 * rounds off src.length) (writeiLoop sb fuel ip off src state) := by
  induction fuel generalizing ip off src state with
  | zero => exact few_pure
  | succ fuel continues =>
    unfold writeiLoop
    split
    · exact few_pure
    · rename_i more
      refine Few.mono ((few_writeBlock oneBlock off _).bind fun after _ => continues _ _) ?_
      rw [List.length_drop]
      exact rounds_succ more

theorem few_writei (oneBlock : sb.size ≤ bpb) {inum off : Nat} {src : List UInt8}
    (fits : src.length ≤ maxWrite) :
    FewBlocks sb 9 (writei sb inodestart devsw inum ip off src state) := by
  unfold writei
  split
  · split
    · exact few_pure
    · split
      · exact few_pure
      · exact few_pure
  split
  · exact few_pure
  split
  · exact few_pure
  · have loop := @few_writeiLoop sb state ip oneBlock src.length off src
    change FewBlocks sb (2 * 4 + 1) _
    refine Few.bind (loop.mono (Nat.mul_le_mul_left 2 (rounds_le fits))) fun after _ => ?_
    split
    · refine ⟨{iblock inodestart inum}, le_rfl, fun call isCall => ?_⟩
      exact ⟨_, List.mem_singleton.mp isCall, .inr (Finset.mem_singleton_self _)⟩
    · exact few_pure

theorem FewBlocks.card_le {α : Type} {count : Nat} {code : Code α} (few : FewBlocks sb count code)
    {calls : List LogCall} (isPart : ∀ call ∈ calls, call ∈ code.events) :
    (blocks calls).card ≤ count + 1 := by
  obtain ⟨others, card, member⟩ := few
  have subset : blocks calls ⊆ insert sb.bmapstart others := by
    intro b isBlock
    obtain ⟨call, isCall, isLogged⟩ := List.mem_filterMap.mp (List.mem_toFinset.mp isBlock)
    obtain ⟨key, rfl, cases⟩ := member call (isPart call isCall)
    obtain rfl : key = b := Option.some.inj isLogged
    exact Finset.mem_insert.mpr cases
  calc (blocks calls).card ≤ (insert sb.bmapstart others).card := Finset.card_le_card subset
    _ ≤ others.card + 1 := Finset.card_insert_le _ _
    _ ≤ count + 1 := Nat.succ_le_succ card

/-- Every transaction among the calls logs at most `MAXOPBLOCKS` blocks. -/
def Fits (calls : List LogCall) : Prop :=
  ∀ before after, calls = before ++ .beginOp :: after →
    (blocks (untilEnd after)).card ≤ FsLog.maxOpBlocks

theorem fits_nil : Fits [] := by
  intro before after isSplit
  exact absurd isSplit.symm (List.append_ne_nil_of_right_ne_nil _ (List.cons_ne_nil _ _))

theorem Fits.cons {call : LogCall} {calls : List LogCall} (notBegin : call ≠ .beginOp)
    (fits : Fits calls) : Fits (call :: calls) := by
  intro before after isSplit
  cases before with
  | nil => exact absurd (List.cons.inj isSplit).1 notBegin
  | cons first before => exact fits before after (List.cons.inj isSplit).2

theorem Fits.beginOp {calls : List LogCall} (fits : Fits calls)
    (few : (blocks (untilEnd calls)).card ≤ FsLog.maxOpBlocks) : Fits (.beginOp :: calls) := by
  intro before after isSplit
  cases before with
  | nil =>
    grind
  | cons first before => exact fits before after (List.cons.inj isSplit).2

theorem Fits.append {body calls : List LogCall} (writes : ∀ call ∈ body, ∃ b, call = .logWrite b)
    (fits : Fits calls) : Fits (body ++ calls) := by
  induction body with
  | nil => exact fits
  | cons call body continues =>
    obtain ⟨b, rfl⟩ := writes _ List.mem_cons_self
    exact .cons LogCall.noConfusion
      (continues fun other member => writes other (List.mem_cons_of_mem _ member))

theorem untilEnd_append {body calls : List LogCall}
    (writes : ∀ call ∈ body, ∃ b, call = .logWrite b) :
    untilEnd (body ++ calls) = body ++ untilEnd calls := by
  refine List.takeWhile_append_of_pos fun call member => ?_
  obtain ⟨b, rfl⟩ := writes call member
  rfl

theorem writeTransaction_calls (oneBlock : sb.size ≤ bpb) {f : OpenFile} {src : List UInt8}
    (fits : src.length ≤ maxWrite) :
    ∃ body, (∀ call ∈ body, ∃ b, call = .logWrite b) ∧
      (blocks body).card ≤ FsLog.maxOpBlocks ∧
      ((writeTransaction sb inodestart devsw f src state).events =
          .beginOp :: (body ++ [.endOp]) ∨
        (writeTransaction sb inodestart devsw f src state).value = none ∧
          (writeTransaction sb inodestart devsw f src state).events = .beginOp :: body) := by
  unfold writeTransaction
  rw [events_bind, value_bind, value_emit, events_emit, Option.elim_some, Option.bind_some,
    events_bind, value_bind]
  cases (ilock f.inum state).toOption with
  | none =>
    refine ⟨[], fun call member => absurd member List.not_mem_nil, Nat.zero_le _, .inr ?_⟩
    exact ⟨rfl, rfl⟩
  | some locked =>
    have few := @few_writei sb inodestart devsw locked.2 locked.1 oneBlock f.inum f.off src fits
    refine ⟨_, ?_, few.card_le fun call member => member, ?_⟩
    · intro call member
      obtain ⟨_, _, keys⟩ := few
      obtain ⟨b, isCall, -⟩ := keys call member
      exact ⟨b, isCall⟩
    · rw [Option.elim_some, Option.bind_some, events_bind, value_bind]
      cases (writei sb inodestart devsw f.inum locked.1 f.off src locked.2).value with
      | none => exact .inr ⟨rfl, congrArg (_ :: ·) (List.append_nil _)⟩
      | some after => exact .inl rfl

theorem fits_filewriteLoop (oneBlock : sb.size ≤ bpb) (fuel : Nat) (f : OpenFile)
    (src : List UInt8) : Fits (filewriteLoop sb inodestart devsw fuel f src state).events := by
  induction fuel generalizing f src state with
  | zero => exact fits_nil
  | succ fuel continues =>
    unfold filewriteLoop
    split
    · exact fits_nil
    · obtain ⟨body, writes, few, whole | ⟨panics, isBody⟩⟩ :=
        @writeTransaction_calls sb inodestart devsw state oneBlock f
          (src.take (min src.length maxWrite)) (by rw [List.length_take]; omega)
      · have later : ∀ rest, Fits rest → Fits (.beginOp :: (body ++ [.endOp]) ++ rest) := by
          intro rest fits
          rw [List.cons_append, List.append_assoc]
          refine .beginOp (.append writes (.cons LogCall.noConfusion fits)) ?_
          rw [untilEnd_append writes]
          exact (congrArg (fun calls => (blocks calls).card) (List.append_nil body)).trans_le few
        rw [events_bind, whole]
        refine later _ ?_
        cases (writeTransaction sb inodestart devsw f _ state).value with
        | none => exact fits_nil
        | some after =>
          rw [Option.elim_some]
          split
          · exact fits_nil
          split
          · exact fits_nil
          · rw [events_bind_pure]
            exact continues _ _
      · rw [events_bind, panics, isBody, Option.elim_none, List.append_nil]
        have isWhole := @untilEnd_append body [] writes
        rw [List.append_nil] at isWhole
        refine .beginOp ?_ ?_
        · have fits := Fits.append writes fits_nil
          rwa [List.append_nil] at fits
        · rw [isWhole]
          exact (congrArg (fun calls => (blocks calls).card) (List.append_nil body)).trans_le few

end Counting

/-- Every transaction of `filewrite` logs at most `MAXOPBLOCKS` distinct blocks. -/
theorem filewrite_fits_reservation (sb : SuperBlock) (oneBlock : sb.size ≤ bpb) (inodestart : Nat)
    (devsw : Nat → Device) (f : OpenFile) (src : List UInt8) (state : State) :
    (filewrite sb inodestart devsw f src state).value =
        (Fs.filewrite sb devsw f src state).toOption ∧
      ∀ before after, (filewrite sb inodestart devsw f src state).events =
        before ++ .beginOp :: after → (blocks (untilEnd after)).card ≤ FsLog.maxOpBlocks := by
  refine ⟨value_filewrite f src, ?_⟩
  change Fits (filewrite sb inodestart devsw f src state).events
  unfold filewrite
  split
  · exact fits_nil
  · rw [events_bind_pure]
    exact fits_filewriteLoop oneBlock _ _ _

/-- A file whose direct blocks are all in use, the last one up to its last byte. -/
def directFile : Inode :=
  { Inode.zero with type := .file, nlink := 1, size := 6143, addrs := fun index =>
    if index < ndirect then 4 + index else 0 }

def directImage : State where
  block _ := setByte (setByte (fun _ => 0) 0 255) 1 255
  dinode inum := if inum = 1 then directFile else .zero
  icache inum := if inum = 1 then some ⟨1, true, directFile⟩ else none

/-- A write of the largest piece from the last byte of the direct blocks on. -/
theorem filewrite_fits_reservation_indirect : ∃ after,
    (filewrite smallDisk 2 (fun _ => ⟨none, none⟩) ⟨true, true, 1, 6143⟩
      (List.replicate maxWrite 7) directImage).events = .beginOp :: after ∧
    blocks (untilEnd after) = {2, 3, 15, 16, 17, 18, 19} ∧
    (blocks (untilEnd after)).card ≤ FsLog.maxOpBlocks := by
  have isSplit : (filewrite smallDisk 2 (fun _ => ⟨none, none⟩) ⟨true, true, 1, 6143⟩
      (List.replicate maxWrite 7) directImage).events =
        .beginOp :: ([15, 3, 16, 3, 17, 16, 17, 3, 18, 16, 18, 3, 19, 16, 19, 2].map .logWrite ++
          [.endOp]) := by
    decide +kernel
  exact ⟨_, isSplit, by decide,
    (filewrite_fits_reservation smallDisk (by decide) 2 _ _ _ _).2 [] _ isSplit⟩

end Logged

end Fs

end Xv6
