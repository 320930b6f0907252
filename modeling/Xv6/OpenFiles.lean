import Xv6.FreeBlocks

/-!
# Files as byte arrays

`fileread` and `filewrite` of `file.c` on open files whose inode is a regular
file.  On the abstract side a file is a list of bytes and an open file has a
position in it: reading copies bytes from the position on, and writing replaces the
bytes from there.  The calls refine that model, however `filewrite` cuts a write
into transactions and `writei` into blocks.
-/

namespace Xv6

namespace Fs

open DiskBlock LabelledRun OwnershipTable
open Function (update_eq_self update_idem update_of_ne update_self)

/-! ## Lists with a part replaced -/

/-- Replace the values from a position on, possibly past the end. -/
def splice {α : Type*} (contents : List α) (off : Nat) (values : List α) : List α :=
  contents.take off ++ values ++ contents.drop (off + values.length)

section Splice

variable {α : Type*} {contents : List α} {off : Nat}

theorem splice_nil (contents : List α) (off : Nat) : splice contents off [] = contents := by
  simp [splice]

theorem length_splice (start : off ≤ contents.length) (values : List α) :
    (splice contents off values).length = max contents.length (off + values.length) := by
  simp only [splice, List.length_append, List.length_take, List.length_drop]
  omega

theorem getElem?_splice (start : off ≤ contents.length) (values : List α) (index : Nat) :
    (splice contents off values)[index]? =
      if index < off then contents[index]?
      else if index < off + values.length then values[index - off]? else contents[index]? := by
  grind [List.length_take, splice, List.append_assoc]

theorem splice_splice (start : off ≤ contents.length) (first second : List α) :
    splice (splice contents off first) (off + first.length) second =
      splice contents off (first ++ second) := by
  have length := length_splice start first
  apply List.ext_getElem?
  intro index
  rw [getElem?_splice (by omega), getElem?_splice start, getElem?_splice start,
    List.length_append, List.getElem?_append]
  split_ifs <;> first | rfl | omega | (congr 1; omega)

end Splice

/-! ## Open files -/

/-- The most bytes `filewrite` writes in one transaction. -/
abbrev maxWrite : Nat := ((10 - 1 - 1 - 2) / 2) * 512

/-- `struct file` of type `FD_INODE`. -/
structure OpenFile where
  readable : Bool
  writable : Bool
  inum : Nat
  off : Nat

/-- `f->off += r`, when `r` is positive. -/
def OpenFile.advance (f : OpenFile) (r : Int) : OpenFile :=
  if 0 < r then { f with off := (f.off + r.toNat) % 2 ^ 32 } else f

/-- `fileread`: the number returned and the bytes stored. -/
def fileread (sb : SuperBlock) (devsw : Nat → Device) (f : OpenFile) (n : Nat) (state : State) :
    Result ((Int × List UInt8) × OpenFile × State) :=
  if f.readable = false then .ok ((-1, []), f, state)
  else do
    let (ip, state) ← ilock f.inum state
    let (r, copied, ip, state) ← readi sb devsw ip f.off n state
    .ok ((r, copied), f.advance r, state.setCopy f.inum ip)

/-- One transaction of `filewrite`, with the number that `writei` returned. -/
def writeTransaction (sb : SuperBlock) (devsw : Nat → Device) (f : OpenFile) (src : List UInt8)
    (state : State) : Result (Int × OpenFile × State) := do
  let (ip, state) ← ilock f.inum state
  let (r, ip, state) ← writei sb devsw f.inum ip f.off src state
  .ok (r, f.advance r, state.setCopy f.inum ip)

/-- The loop of `filewrite`, with the number of bytes written. -/
def filewriteLoop (sb : SuperBlock) (devsw : Nat → Device) :
    Nat → OpenFile → List UInt8 → State → Result (Nat × OpenFile × State)
  | 0, f, _, state => .ok (0, f, state)
  | fuel + 1, f, src, state =>
    if src.length = 0 then .ok (0, f, state)
    else do
      let n1 := min src.length maxWrite
      let (r, f, state) ← writeTransaction sb devsw f (src.take n1) state
      if r < 0 then .ok (0, f, state)
      else if r ≠ n1 then .error .shortFilewrite
      else do
        let (i, f, state) ← filewriteLoop sb devsw fuel f (src.drop n1) state
        .ok (n1 + i, f, state)

def filewrite (sb : SuperBlock) (devsw : Nat → Device) (f : OpenFile) (src : List UInt8)
    (state : State) : Result (Int × OpenFile × State) :=
  if f.writable = false then .ok (-1, f, state)
  else do
    let (i, f, state) ← filewriteLoop sb devsw src.length f src state
    .ok (if i = src.length then src.length else -1, f, state)

structure FileState where
  fs : State
  file : Nat → Option OpenFile

inductive Call
  | read (fd n : Nat)
  | write (fd : Nat) (src : List UInt8)

def Call.length : Call → Nat
  | .read _ n => n
  | .write _ src => src.length

/-- Perform a call: its result, the bytes it stores for the caller, and the state. -/
def FileState.call (sb : SuperBlock) (devsw : Nat → Device) (state : FileState) :
    Call → Result ((Int × List UInt8) × FileState)
  | .read fd n =>
    match state.file fd with
    | none => .error .unreferenced
    | some f => do
      let (result, f, fs) ← fileread sb devsw f n state.fs
      .ok (result, ⟨fs, Function.update state.file fd (some f)⟩)
  | .write fd src =>
    match state.file fd with
    | none => .error .unreferenced
    | some f => do
      let (result, f, fs) ← filewrite sb devsw f src state.fs
      .ok ((result, []), ⟨fs, Function.update state.file fd (some f)⟩)

/-- A completed call whose length is a non-negative `int`. -/
def FileState.step (sb : SuperBlock) (devsw : Nat → Device) (state : FileState) (call : Call) :
    Option FileState :=
  if call.length < 2 ^ 31 then (state.call sb devsw call).toOption.map Prod.snd else none

/-! ## Files as lists of bytes -/

structure ByteArrays where
  contents : Nat → List UInt8
  file : Nat → Option OpenFile

/-- The bytes that `filewrite` gets to write: all of them if they fit into the
largest file, and whole transactions otherwise. -/
def written (off n : Nat) : Nat :=
  if off + n ≤ maxfile * bsize then n else maxWrite * ((maxfile * bsize - off) / maxWrite)

def ByteArrays.apply (arrays : ByteArrays) : Call → (Int × List UInt8) × ByteArrays
  | .read fd n =>
    match arrays.file fd with
    | none => ((-1, []), arrays)
    | some f =>
      if f.readable then
        let copied := ((arrays.contents f.inum).drop f.off).take n
        ((copied.length, copied), { arrays with
          file := Function.update arrays.file fd
            (some { f with off := f.off + copied.length }) })
      else ((-1, []), arrays)
  | .write fd src =>
    match arrays.file fd with
    | none => ((-1, []), arrays)
    | some f =>
      if f.writable then
        let count := written f.off src.length
        ((if count = src.length then src.length else -1, []), {
          contents := Function.update arrays.contents f.inum
            (splice (arrays.contents f.inum) f.off (src.take count))
          file := Function.update arrays.file fd (some { f with off := f.off + count }) })
      else ((-1, []), arrays)

def contents (state : State) (inum : Nat) : List UInt8 :=
  if (state.dinode inum).type = .free then []
  else fileBytes state inum 0 (state.dinode inum).size

def FileState.arrays (state : FileState) : ByteArrays where
  contents := contents state.fs
  file := state.file

section Contents

variable {sb : SuperBlock} {devsw : Nat → Device} {state next : State} {inum off : Nat}
  {ip : Inode} {src : List UInt8}

theorem contents_of_live (live : (state.dinode inum).type ≠ .free) :
    contents state inum = fileBytes state inum 0 (state.dinode inum).size :=
  if_neg live

theorem length_contents (live : (state.dinode inum).type ≠ .free) :
    (contents state inum).length = (state.dinode inum).size := by
  rw [contents_of_live live, fileBytes, List.length_map, List.length_range]

theorem getElem?_contents (live : (state.dinode inum).type ≠ .free) (pos : Nat) :
    (contents state inum)[pos]? = if pos < (state.dinode inum).size then
      some (byteAt state.block (refs state.block state.dinode) inum pos) else none := by
  rw [contents_of_live live, fileBytes, List.getElem?_map]
  by_cases inside : pos < (state.dinode inum).size
  · rw [List.getElem?_range inside, if_pos inside, Option.map_some, Nat.zero_add]
  · rw [List.getElem?_eq_none (by rw [List.length_range]; omega), if_neg inside, Option.map_none]

theorem fileBytes_eq (live : (state.dinode inum).type ≠ .free) {n : Nat}
    (inside : off + n ≤ (state.dinode inum).size) :
    fileBytes state inum off n = ((contents state inum).drop off).take n := by
  apply List.ext_getElem?
  intro index
  rw [fileBytes, List.getElem?_map]
  by_cases small : index < n
  · rw [List.getElem?_range small, List.getElem?_take_of_lt small, List.getElem?_drop,
      getElem?_contents live, if_pos (by omega)]
    rfl
  · grind

theorem contents_congr (sameType : (next.dinode inum).type = (state.dinode inum).type)
    (sameSize : (next.dinode inum).size = (state.dinode inum).size)
    (sameBytes : (state.dinode inum).type ≠ .free → ∀ pos < (state.dinode inum).size,
      byteAt next.block (refs next.block next.dinode) inum pos =
        byteAt state.block (refs state.block state.dinode) inum pos) :
    contents next inum = contents state inum := by
  simp only [contents, sameType]
  split
  · rfl
  · rename_i live
    rw [sameSize]
    apply List.map_congr_left
    intro pos member
    rw [Nat.zero_add]
    exact sameBytes live pos (List.mem_range.mp member)

/-- The cache does not matter for the contents. -/
theorem contents_eq_of_blocks (sameBlock : next.block = state.block)
    (sameNodes : next.dinode = state.dinode) : contents next = contents state := by
  funext inum
  simp only [contents, fileBytes, sameBlock, sameNodes]

/-- Storing bytes replaces a part of one inode's contents and leaves the others. -/
theorem contents_wrote (wellFormed : WellFormed sb state)
    (live : (state.dinode inum).type ≠ .free) (start : off ≤ (state.dinode inum).size)
    (wrote : Wrote sb inum off src (state.dinode inum) state ip next) :
    contents (next.iupdate inum
        { ip with size := max (state.dinode inum).size (off + src.length) }) =
      Function.update (contents state) inum (splice (contents state inum) off src) := by
  obtain ⟨last, isLast⟩ : ∃ last, last = next.iupdate inum
    { ip with size := max (state.dinode inum).size (off + src.length) } := ⟨_, rfl⟩
  have node : last.dinode inum =
      { ip with size := max (state.dinode inum).size (off + src.length) } := by
    rw [isLast]
    exact update_self ..
  have bytesAfter : ∀ other, byteAt last.block (refs last.block last.dinode) other =
      byteAt next.block (next.refs inum ip) other := by
    have sameRefs : refs next.block (Function.update next.dinode inum
        { ip with size := max (state.dinode inum).size (off + src.length) }) = next.refs inum ip :=
      refs_node_congr rfl rfl
    intro other
    rw [← sameRefs, isLast]
    rfl
  have kept : ∀ other pos, (state.dinode other).type ≠ .free → pos < (state.dinode other).size →
      (other = inum → pos < off ∨ off + src.length ≤ pos) →
      byteAt last.block (refs last.block last.dinode) other pos =
        byteAt state.block (refs state.block state.dinode) other pos := by
    intro other pos liveOther inside outside
    have bytes := wrote.bytes other pos
    rw [refs_dinode] at bytes
    rw [bytesAfter]
    exact bytes (wellFormed.covered liveOther inside) outside
  rw [← isLast]
  funext other
  by_cases same : other = inum
  · subst same
    have liveAfter : (last.dinode other).type ≠ .free := by
      rw [node]
      rwa [wrote.type_eq]
    rw [update_self]
    apply List.ext_getElem?
    intro pos
    rw [getElem?_contents liveAfter, getElem?_splice (by rwa [length_contents live]), node,
      getElem?_contents live]
    dsimp only
    by_cases stored : off ≤ pos ∧ pos < off + src.length
    · have written := wrote.written (pos - off) (by omega)
      rw [show off + (pos - off) = pos by omega] at written
      rw [if_pos (by omega), if_neg (by omega), if_pos (by omega), bytesAfter, written,
        List.getElem?_eq_getElem]
    · grind
  · have nodeOther : last.dinode other = state.dinode other := by
      rw [isLast, ← wrote.dinode]
      exact update_of_ne same ..
    rw [update_of_ne same]
    apply contents_congr (by rw [nodeOther]) (by rw [nodeOther])
    intro liveOther pos inside
    exact kept other pos liveOther inside (fun equal => absurd equal same)

end Contents

/-! ## Calls on open files -/

/-- The file is open on a regular file, at a position up to its end. -/
structure Opened (state : State) (f : OpenFile) : Prop where
  cached : (state.icache f.inum).isSome
  regular : (state.dinode f.inum).type = .file
  start : f.off ≤ (state.dinode f.inum).size

structure Keeps (state next : State) : Prop where
  cached : ∀ inum, (next.icache inum).isSome = (state.icache inum).isSome
  type : ∀ inum, (next.dinode inum).type = (state.dinode inum).type
  size : ∀ inum, (state.dinode inum).size ≤ (next.dinode inum).size

theorem Keeps.trans {state middle next : State} (first : Keeps state middle)
    (second : Keeps middle next) : Keeps state next where
  cached inum := (second.cached inum).trans (first.cached inum)
  type inum := (second.type inum).trans (first.type inum)
  size inum := (first.size inum).trans (second.size inum)

theorem Opened.keeps {state next : State} {f : OpenFile} (opened : Opened state f)
    (keeps : Keeps state next) : Opened next f where
  cached := by rw [keeps.cached]; exact opened.cached
  regular := by rw [keeps.type]; exact opened.regular
  start := opened.start.trans (keeps.size _)

/-- The bytes are stored at a position of the inode, and nothing else changes. -/
structure Stored (sb : SuperBlock) (inum off : Nat) (src : List UInt8) (state next : State) :
    Prop where
  wellFormed : WellFormed sb next
  keeps : Keeps state next
  replaced : contents next =
    Function.update (contents state) inum (splice (contents state inum) off src)

section Calls

variable {sb : SuperBlock} {devsw : Nat → Device} {state middle next : State} {inum off : Nat}
  {f f' : OpenFile} {src first second : List UInt8} {result : Int}

theorem Opened.live (opened : Opened state f) : (state.dinode f.inum).type ≠ .free := by
  rw [opened.regular]
  decide

theorem Opened.notDevice (opened : Opened state f) : (state.dinode f.inum).type ≠ .dev := by
  rw [opened.regular]
  decide

theorem Stored.of_same (wellFormed : WellFormed sb next) (sameBlock : next.block = state.block)
    (sameNodes : next.dinode = state.dinode)
    (cached : ∀ inum, (next.icache inum).isSome = (state.icache inum).isSome) :
    Stored sb inum off [] state next where
  wellFormed := wellFormed
  keeps := ⟨cached, fun _ => by rw [sameNodes], fun _ => by rw [sameNodes]⟩
  replaced := by
    rw [splice_nil, update_eq_self, contents_eq_of_blocks sameBlock sameNodes]

theorem Stored.trans (live : (state.dinode inum).type ≠ .free)
    (start : off ≤ (state.dinode inum).size) (stored : Stored sb inum off first state middle)
    (more : Stored sb inum (off + first.length) second middle next) :
    Stored sb inum off (first ++ second) state next where
  wellFormed := more.wellFormed
  keeps := stored.keeps.trans more.keeps
  replaced := by
    have inside : off ≤ (contents state inum).length := by rwa [length_contents live]
    rw [more.replaced, stored.replaced, update_idem, update_self,
      splice_splice inside]

theorem isSome_setCopy (state : State) (inum other : Nat) (ip : Inode) :
    ((state.setCopy inum ip).icache other).isSome = (state.icache other).isSome := by
  rw [State.setCopy]
  by_cases same : other = inum
  · subst same
    simp
  · simp [update_of_ne same]

theorem exists_ilock (wellFormed : WellFormed sb state) (cached : (state.icache inum).isSome)
    (live : (state.dinode inum).type ≠ .free) :
    ∃ next, ilock inum state = .ok (next.dinode inum, next) ∧ WellFormed sb next ∧
      Locked next inum ∧ next.block = state.block ∧ next.dinode = state.dinode ∧
      ∀ other, (next.icache other).isSome = (state.icache other).isSome := by
  obtain ⟨entry, holds⟩ := Option.isSome_iff_exists.mp cached
  have completes : ∃ ip next, ilock inum state = .ok (ip, next) ∧
      ∀ other, (next.icache other).isSome = (state.icache other).isSome := by
    rw [ilock, holds]
    simp only [if_neg live]
    split
    · exact ⟨_, _, rfl, fun _ => rfl⟩
    · refine ⟨_, _, rfl, ?_⟩
      intro other
      rw [State.setEntry]
      by_cases same : other = inum
      · subst same
        simp [holds]
      · simp [update_of_ne same]
  obtain ⟨ip, next, locks, sameCached⟩ := completes
  obtain ⟨after, locked, isNode, sameBlock, sameNodes⟩ := wellFormed.ilock locks
  refine ⟨next, ?_, after, locked, sameBlock, sameNodes, sameCached⟩
  rw [locks, isNode]

theorem stored_of_wrote {ip : Inode} (wellFormed : WellFormed sb state)
    (locked : Locked state inum) (live : (state.dinode inum).type ≠ .free)
    (start : off ≤ (state.dinode inum).size)
    (limit : max (state.dinode inum).size (off + src.length) ≤ maxfile * bsize)
    (wrote : Wrote sb inum off src (state.dinode inum) state ip middle) :
    Stored sb inum off src state
      ((middle.iupdate inum
          { ip with size := max (state.dinode inum).size (off + src.length) }).setCopy inum
        { ip with size := max (state.dinode inum).size (off + src.length) }) where
  wellFormed := wellFormed.wrote locked wrote limit (by omega)
  keeps := {
    cached := by
      intro other
      rw [isSome_setCopy, State.iupdate, wrote.icache]
    type := by
      intro other
      by_cases same : other = inum
      · subst same
        rw [State.setCopy, State.iupdate]
        simp [wrote.type_eq]
      · rw [State.setCopy, State.iupdate]
        simp [update_of_ne same, wrote.dinode]
    size := by
      intro other
      by_cases same : other = inum
      · subst same
        rw [State.setCopy, State.iupdate]
        simp
      · rw [State.setCopy, State.iupdate]
        simp [update_of_ne same, wrote.dinode] }
  replaced := by
    rw [← contents_wrote wellFormed live start wrote]
    exact contents_eq_of_blocks rfl rfl

variable {n : Nat}

theorem advance_natCast (noWrap : f.off + n < 2 ^ 32) :
    f.advance n = { f with off := f.off + n } := by
  simp_all [OpenFile.advance, Int.toNat_natCast, Nat.mod_eq_of_lt]

theorem writeTransaction_stores (wellFormed : WellFormed sb state) (opened : Opened state f)
    (limit : f.off + src.length ≤ maxfile * bsize)
    (writes : writeTransaction sb devsw f src state = .ok (result, f', next)) :
    result = src.length ∧ f' = { f with off := f.off + src.length } ∧
      Stored sb f.inum f.off src state next := by
  obtain ⟨locked, locks, wellLocked, isLocked, sameBlock, sameNodes, sameCached⟩ :=
    exists_ilock wellFormed opened.cached opened.live
  have nothing : Stored sb f.inum f.off [] state locked :=
    .of_same wellLocked sameBlock sameNodes sameCached
  have openedLocked := opened.keeps nothing.keeps
  have bound : maxfile * bsize < 2 ^ 31 := by decide
  obtain ⟨⟨ip, unlocked⟩, locksTo, rest⟩ := bind_eq_ok.mp writes
  cases locks.symm.trans locksTo
  obtain ⟨⟨r, ip, after⟩, write, finish⟩ := bind_eq_ok.mp rest
  obtain ⟨ip₁, middle, wrote, rfl, rfl, rfl, small⟩ := writei_stores wellLocked
    openedLocked.live openedLocked.notDevice openedLocked.start (by omega) (by omega) write
  cases finish
  refine ⟨rfl, advance_natCast (by omega), ?_⟩
  exact nothing.trans opened.live opened.start
    (stored_of_wrote wellLocked isLocked openedLocked.live openedLocked.start small wrote)

theorem writeTransaction_refuses (wellFormed : WellFormed sb state) (opened : Opened state f)
    (short : src.length ≤ maxWrite) (limit : maxfile * bsize < f.off + src.length) :
    ∃ next, writeTransaction sb devsw f src state = .ok (-1, f, next) ∧
      Stored sb f.inum f.off [] state next := by
  obtain ⟨locked, locks, wellLocked, isLocked, sameBlock, sameNodes, sameCached⟩ :=
    exists_ilock wellFormed opened.cached opened.live
  have openedLocked : Opened locked f :=
    opened.keeps (.of_same wellLocked sameBlock sameNodes sameCached : Stored sb 0 0 [] _ _).keeps
  have small := wellLocked.small f.inum openedLocked.live
  have start := openedLocked.start
  have bound : maxfile * bsize + maxWrite < 2 ^ 32 := by decide
  have refused : writei sb devsw f.inum (locked.dinode f.inum) f.off src locked =
      .ok (-1, locked.dinode f.inum, locked) := by
    rw [writei, if_neg openedLocked.notDevice, Nat.mod_eq_of_lt (by omega), if_neg (by omega),
      if_pos limit]
  refine ⟨locked.setCopy f.inum (locked.dinode f.inum), ?_, ?_⟩
  · rw [writeTransaction, locks]
    change (writei sb devsw f.inum (locked.dinode f.inum) f.off src locked >>= _) = _
    rw [refused]
    rfl
  · apply Stored.of_same (wellLocked.setCopy_self isLocked) sameBlock sameNodes
    intro other
    rw [isSome_setCopy, sameCached]

/-- A transaction completes when it fits and there are enough free blocks. -/
theorem Enough.writeTransaction {slots : Finset Slot} (wellFormed : WellFormed sb state)
    (opened : Opened state f) (limit : f.off + src.length ≤ maxfile * bsize)
    (enough : Enough sb slots f.inum (state.dinode f.inum) state)
    (member : touched f.off src.length ⊆ slots) :
    ∃ next, writeTransaction sb devsw f src state =
        .ok (src.length, { f with off := f.off + src.length }, next) ∧
      Stored sb f.inum f.off src state next ∧
      Enough sb slots f.inum (next.dinode f.inum) next := by
  obtain ⟨locked, locks, wellLocked, isLocked, sameBlock, sameNodes, sameCached⟩ :=
    exists_ilock wellFormed opened.cached opened.live
  have openedLocked : Opened locked f :=
    opened.keeps (.of_same wellLocked sameBlock sameNodes sameCached : Stored sb 0 0 [] _ _).keeps
  have bound : maxfile * bsize < 2 ^ 31 := by decide
  have enoughLocked : Enough sb slots f.inum (locked.dinode f.inum) locked := by
    refine enough.congr ?_ ?_
    · rw [refs_dinode, refs_dinode, sameBlock, sameNodes]
    · rw [sameBlock]
      exact fun _ _ => Iff.rfl
  have owns : Owns sb locked.block (locked.nodes f.inum (locked.dinode f.inum)) := by
    rw [nodes_self]
    exact wellLocked.owns
  obtain ⟨r, ip, after, write, final⟩ :
      ∃ r ip after, Fs.writei sb devsw f.inum (locked.dinode f.inum) f.off src locked =
        .ok (r, ip, after) ∧ Enough sb slots f.inum ip after :=
    enoughLocked.writei owns openedLocked.live openedLocked.notDevice openedLocked.start limit
      member
  have writes : Fs.writeTransaction sb devsw f src state =
      .ok (r, f.advance r, after.setCopy f.inum ip) := by
    rw [Fs.writeTransaction, locks]
    change (Fs.writei sb devsw f.inum (locked.dinode f.inum) f.off src locked >>= _) = _
    rw [write]
    rfl
  obtain ⟨isLength, advanced, stored⟩ := writeTransaction_stores wellFormed opened limit writes
  obtain ⟨ip₁, middle, _, _, _, updated, _⟩ := writei_stores wellLocked
    openedLocked.live openedLocked.notDevice openedLocked.start (by omega) (by omega) write
  have isNode : (after.setCopy f.inum ip).dinode f.inum = ip := by
    rw [updated]
    exact update_self ..
  refine ⟨after.setCopy f.inum ip, ?_, stored, ?_⟩
  · rw [writes, advanced, isLength]
  · rw [isNode]
    exact final.congr rfl fun _ _ => Iff.rfl

theorem written_zero (inside : off ≤ maxfile * bsize) : written off 0 = 0 :=
  if_pos inside

theorem written_le (off n : Nat) : written off n ≤ n := by
  simp only [written, maxfile, ndirect, nindirect, wordCount, bsize, maxWrite]
  split <;> omega

theorem written_of_fits (fits : off + min n maxWrite ≤ maxfile * bsize) :
    written off n = min n maxWrite + written (off + min n maxWrite) (n - min n maxWrite) := by
  simp only [written, maxfile, ndirect, nindirect, wordCount, bsize, maxWrite] at fits ⊢
  split <;> split <;> omega

theorem written_of_refused (inside : off ≤ maxfile * bsize)
    (refused : maxfile * bsize < off + min n maxWrite) : written off n = 0 := by
  simp only [written, maxfile, ndirect, nindirect, wordCount, bsize, maxWrite] at inside refused ⊢
  split <;> omega

theorem Opened.inside (opened : Opened state f) (wellFormed : WellFormed sb state) :
    f.off ≤ maxfile * bsize :=
  opened.start.trans (wellFormed.small f.inum opened.live)

/-- The position after the stored bytes is in the file again. -/
theorem Opened.advance (opened : Opened state f) (stored : Stored sb f.inum f.off src state next) :
    Opened next { f with off := f.off + src.length } where
  cached := (opened.keeps stored.keeps).cached
  regular := (opened.keeps stored.keeps).regular
  start := by
    have live := (opened.keeps stored.keeps).live
    have inside : f.off ≤ (contents state f.inum).length := by
      rw [length_contents opened.live]
      exact opened.start
    change f.off + src.length ≤ (next.dinode f.inum).size
    rw [← length_contents live, stored.replaced, update_self, length_splice inside]
    omega

theorem filewriteLoop_stores {fuel i : Nat} (wellFormed : WellFormed sb state)
    (opened : Opened state f) (enough : src.length ≤ fuel)
    (loops : filewriteLoop sb devsw fuel f src state = .ok (i, f', next)) :
    i = written f.off src.length ∧ f' = { f with off := f.off + i } ∧
      Stored sb f.inum f.off (src.take i) state next := by
  have nothing : Stored sb f.inum f.off (src.take 0) state state :=
    .of_same wellFormed rfl rfl fun _ => rfl
  induction fuel generalizing f src state i with
  | zero =>
    cases loops
    rw [Nat.le_zero.mp enough]
    exact ⟨(written_zero (opened.inside wellFormed)).symm, rfl, nothing⟩
  | succ fuel ih =>
    rw [filewriteLoop] at loops
    by_cases empty : src.length = 0
    · rw [if_pos empty] at loops
      cases loops
      rw [empty]
      exact ⟨(written_zero (opened.inside wellFormed)).symm, rfl, nothing⟩
    rw [if_neg empty] at loops
    obtain ⟨⟨r, f₁, middle⟩, writes, rest⟩ := bind_eq_ok.mp loops
    obtain ⟨n1, isMin⟩ : ∃ n1, n1 = min src.length maxWrite := ⟨_, rfl⟩
    simp only [← isMin] at writes rest
    have positive : 0 < n1 := by
      simp only [maxWrite] at isMin
      omega
    have taken : (src.take n1).length = n1 := by
      rw [List.length_take]
      omega
    by_cases fits : f.off + n1 ≤ maxfile * bsize
    · -- the transaction stores its bytes, and the loop goes on behind them
      obtain ⟨rfl, rfl, stored⟩ :=
        writeTransaction_stores wellFormed opened (by rwa [taken]) writes
      have count := @written_of_fits f.off src.length (by rwa [← isMin])
      have openedAfter := opened.advance stored
      rw [← isMin] at count
      rw [taken] at rest openedAfter
      rw [if_neg (by omega), if_neg (by simp)] at rest
      obtain ⟨⟨j, f₂, last⟩, continues, finish⟩ := bind_eq_ok.mp rest
      cases finish
      obtain ⟨isWritten, advanced, more⟩ := ih stored.wellFormed openedAfter
        (by rw [List.length_drop]; omega) continues
        (.of_same stored.wellFormed rfl rfl fun _ => rfl)
      rw [List.length_drop] at isWritten
      refine ⟨by rw [count, isWritten], ?_, ?_⟩
      · rw [advanced, Nat.add_assoc]
      · rw [List.take_add]
        exact stored.trans opened.live opened.start (by rw [taken]; exact more)
    · -- the transaction is refused, and the loop ends
      obtain ⟨refused, isRefused, stored⟩ := @writeTransaction_refuses sb devsw state f
        (src.take n1) wellFormed opened (by omega) (by omega)
      cases isRefused.symm.trans writes
      cases rest
      refine ⟨?_, rfl, stored⟩
      exact (written_of_refused (opened.inside wellFormed) (by omega)).symm

/-- The loop of `filewrite` completes when the bytes fit and there are enough
free blocks. -/
theorem Enough.filewriteLoop {slots : Finset Slot} {fuel : Nat} (wellFormed : WellFormed sb state)
    (opened : Opened state f) (limit : f.off + src.length ≤ maxfile * bsize)
    (enough : Enough sb slots f.inum (state.dinode f.inum) state)
    (member : touched f.off src.length ⊆ slots) :
    ∃ i f' next, filewriteLoop sb devsw fuel f src state = .ok (i, f', next) := by
  induction fuel generalizing f src state with
  | zero => exact ⟨_, _, _, rfl⟩
  | succ fuel ih =>
    rw [Fs.filewriteLoop]
    by_cases empty : src.length = 0
    · rw [if_pos empty]
      exact ⟨_, _, _, rfl⟩
    rw [if_neg empty]
    obtain ⟨n1, isMin⟩ : ∃ n1, n1 = min src.length maxWrite := ⟨_, rfl⟩
    have positive : 0 < n1 := by
      simp only [maxWrite] at isMin
      omega
    have taken : (src.take n1).length = n1 := by
      rw [List.length_take]
      omega
    obtain ⟨middle, writes, stored, after⟩ :=
      @Enough.writeTransaction sb devsw state f (src.take n1) slots wellFormed opened
        (by omega) enough (by
          rw [taken]
          exact (touched_subset (by omega)).trans member)
    have openedAfter := opened.advance stored
    rw [taken] at writes openedAfter
    obtain ⟨i, f', next, loops⟩ := @ih middle { f with off := f.off + n1 } (src.drop n1)
      stored.wellFormed openedAfter (by dsimp only; rw [List.length_drop]; omega) after (by
        rw [List.length_drop]
        exact (touched_mono (by omega)).trans member)
    refine ⟨n1 + i, f', next, ?_⟩
    simp only [← isMin]
    rw [writes]
    change (if (n1 : Int) < 0 then Except.ok (0, { f with off := f.off + n1 }, middle) else
      if (n1 : Int) ≠ n1 then .error .shortFilewrite else
        Fs.filewriteLoop sb devsw fuel { f with off := f.off + n1 } (src.drop n1) middle >>= _)
          = _
    rw [if_neg (by omega), if_neg (by simp), loops]
    rfl

/-- `filewrite` stores the bytes that fit and returns whether these were all. -/
theorem filewrite_stores (wellFormed : WellFormed sb state) (opened : Opened state f)
    (writable : f.writable = true)
    (writes : filewrite sb devsw f src state = .ok (result, f', next)) :
    result = (if written f.off src.length = src.length then (src.length : Int) else -1) ∧
      f' = { f with off := f.off + written f.off src.length } ∧
      Stored sb f.inum f.off (src.take (written f.off src.length)) state next := by
  rw [filewrite, if_neg (by simp [writable])] at writes
  obtain ⟨⟨i, f₁, last⟩, loops, finish⟩ := bind_eq_ok.mp writes
  cases finish
  obtain ⟨rfl, advanced, stored⟩ := filewriteLoop_stores wellFormed opened le_rfl loops
  exact ⟨rfl, advanced, stored⟩

/-- `fileread` returns the bytes at the position and moves it behind them. -/
theorem exists_fileread {copied : List UInt8} (wellFormed : WellFormed sb state)
    (opened : Opened state f) (readable : f.readable = true) (short : n < 2 ^ 31)
    (isPart : copied = ((contents state f.inum).drop f.off).take n) :
    ∃ next, fileread sb devsw f n state = .ok ((copied.length, copied),
        { f with off := f.off + copied.length }, next) ∧
      Stored sb f.inum f.off [] state next ∧
        f.off + copied.length ≤ (state.dinode f.inum).size := by
  obtain ⟨locked, locks, wellLocked, isLocked, sameBlock, sameNodes, sameCached⟩ :=
    exists_ilock wellFormed opened.cached opened.live
  have openedLocked : Opened locked f :=
    opened.keeps (.of_same wellLocked sameBlock sameNodes sameCached : Stored sb 0 0 [] _ _).keeps
  have bound : maxfile * bsize < 2 ^ 31 := by decide
  have inside := opened.inside wellFormed
  have start := opened.start
  have length : copied.length = min n ((state.dinode f.inum).size - f.off) := by
    rw [isPart, List.length_take, List.length_drop, length_contents opened.live]
  have part : fileBytes locked f.inum f.off copied.length = copied := by
    rw [fileBytes_eq openedLocked.live (by rw [sameNodes]; omega),
      contents_eq_of_blocks sameBlock sameNodes, isPart]
    apply List.take_eq_take_iff.mpr
    rw [List.length_take]
    omega
  have reads := @readi_eq sb devsw locked f.inum f.off n wellLocked openedLocked.live
    openedLocked.notDevice openedLocked.start (by omega)
  rw [sameNodes, ← length, part, ← sameNodes] at reads
  refine ⟨locked.setCopy f.inum (locked.dinode f.inum), ?_, ?_, by omega⟩
  · rw [fileread, if_neg (by simp [readable]), locks]
    change (readi sb devsw (locked.dinode f.inum) f.off n locked >>= _) = _
    rw [reads]
    change Except.ok (_, f.advance copied.length, _) = _
    rw [advance_natCast (by omega)]
  · apply Stored.of_same (wellLocked.setCopy_self isLocked) sameBlock sameNodes
    intro other
    rw [isSome_setCopy, sameCached]

end Calls

/-! ## Sequences of calls -/

/-- The file system is well formed, and the open files are open on regular files. -/
structure Ready (sb : SuperBlock) (state : FileState) : Prop where
  wellFormed : WellFormed sb state.fs
  opened : ∀ fd f, state.file fd = some f → Opened state.fs f

abbrev FileRun (sb : SuperBlock) (devsw : Nat → Device) (start : FileState)
    (trace : List (FileState × Call)) (finish : FileState) : Prop :=
  Run (FileState.step sb devsw) start trace finish

def ByteArrays.replay (arrays : ByteArrays) (calls : List Call) : ByteArrays :=
  calls.foldl (fun arrays call => (arrays.apply call).2) arrays

/-- The calls in a state behave as on byte arrays.  A completed call has the
result and the effect of the byte arrays, a read completes, and a write of bytes
that fit, with enough free blocks, is one replacement. -/
structure ActsOnByteArrays (sb : SuperBlock) (devsw : Nat → Device) (state : FileState) :
    Prop where
  refines : ∀ call result next, call.length < 2 ^ 31 →
    state.call sb devsw call = .ok (result, next) →
      (result, next.arrays) = state.arrays.apply call
  reads : ∀ fd f n, state.file fd = some f → n < 2 ^ 31 →
    ∃ result next, state.call sb devsw (.read fd n) = .ok (result, next)
  writes : ∀ fd f src, state.file fd = some f → f.writable = true →
    f.off + src.length ≤ maxfile * bsize →
    Enough sb (touched f.off src.length) f.inum (state.fs.dinode f.inum) state.fs →
      ∃ next, state.call sb devsw (.write fd src) = .ok ((src.length, []), next) ∧
        contents next.fs = Function.update (contents state.fs) f.inum
          (splice (contents state.fs f.inum) f.off src) ∧
        (next.fs.dinode f.inum).size =
          max (state.fs.dinode f.inum).size (f.off + src.length) ∧
        next.file = Function.update state.file fd (some { f with off := f.off + src.length })

section Sequences

variable {sb : SuperBlock} {devsw : Nat → Device} {state next start finish : FileState}
  {trace : List (FileState × Call)} {result : Int × List UInt8} {call : Call}

variable {fd : Nat} {f : OpenFile} {src : List UInt8}

/-- A call stored bytes and left its file in a valid position. -/
theorem Ready.update {fs : State} {f' : OpenFile} (ready : Ready sb state)
    (stored : Stored sb f.inum f.off src state.fs fs) (opened : Opened fs f') :
    Ready sb ⟨fs, Function.update state.file fd (some f')⟩ where
  wellFormed := stored.wellFormed
  opened := by
    intro other g holds
    dsimp only at holds
    by_cases same : other = fd
    · grind
    · rw [update_of_ne same] at holds
      exact (ready.opened other g holds).keeps stored.keeps

theorem Ready.exists_read {n : Nat} (ready : Ready sb state) (isOpen : state.file fd = some f)
    (short : n < 2 ^ 31) :
    ∃ result next, state.call sb devsw (.read fd n) = .ok (result, next) ∧ Ready sb next ∧
      (result, next.arrays) = state.arrays.apply (.read fd n) := by
  have opened := ready.opened fd f isOpen
  simp only [FileState.call, ByteArrays.apply, isOpen,
    show state.arrays.file fd = some f from isOpen]
  by_cases readable : f.readable = true
  · obtain ⟨copied, isPart⟩ : ∃ copied, copied = ((contents state.fs f.inum).drop f.off).take n :=
      ⟨_, rfl⟩
    obtain ⟨fs, reads, stored, inside⟩ :=
      @exists_fileread sb devsw state.fs f n copied ready.wellFormed opened readable short isPart
    refine ⟨(copied.length, copied), ⟨fs, _⟩, by rw [reads]; rfl, ?_, ?_⟩
    · apply ready.update stored
      have keeps := opened.keeps stored.keeps
      exact ⟨keeps.cached, keeps.regular, inside.trans (stored.keeps.size f.inum)⟩
    · have sameContents : contents fs = contents state.fs := by
        rw [stored.replaced, splice_nil, update_eq_self]
      rw [if_pos readable, FileState.arrays, sameContents, FileState.arrays, isPart]
  · rw [Bool.not_eq_true] at readable
    have refuses : fileread sb devsw f n state.fs = .ok ((-1, []), f, state.fs) := if_pos readable
    have same : Function.update state.file fd (some f) = state.file := by
      rw [← isOpen, update_eq_self]
    refine ⟨(-1, []), state, ?_, ready, ?_⟩
    · rw [refuses]
      change Except.ok (_, FileState.mk state.fs (Function.update state.file fd (some f))) = _
      rw [same]
    · rw [if_neg (by simp [readable])]

theorem Ready.write (ready : Ready sb state)
    (performed : state.call sb devsw (.write fd src) = .ok (result, next)) :
    Ready sb next ∧ (result, next.arrays) = state.arrays.apply (.write fd src) := by
  rw [FileState.call] at performed
  cases isOpen : state.file fd with
  | none =>
    grind
  | some f =>
    simp only [isOpen] at performed
    simp only [ByteArrays.apply, show state.arrays.file fd = some f from isOpen]
    have opened := ready.opened fd f isOpen
    obtain ⟨⟨r, f₁, fs⟩, writes, finish⟩ := bind_eq_ok.mp performed
    cases finish
    by_cases writable : f.writable = true
    · obtain ⟨rfl, rfl, stored⟩ := filewrite_stores ready.wellFormed opened writable writes
      have count : (src.take (written f.off src.length)).length = written f.off src.length := by
        rw [List.length_take]
        exact min_eq_left (written_le f.off src.length)
      have openedAfter := opened.advance stored
      rw [count] at openedAfter
      refine ⟨ready.update stored openedAfter, ?_⟩
      rw [if_pos writable, FileState.arrays, stored.replaced]
      rfl
    · rw [filewrite, if_pos (by simpa using writable)] at writes
      cases writes
      have same : Function.update state.file fd (some f) = state.file := by
        rw [← isOpen, update_eq_self]
      rw [same, if_neg writable]
      exact ⟨ready, rfl⟩

/-- A completed call keeps the files ready and refines the byte arrays. -/
theorem Ready.perform (ready : Ready sb state) (short : call.length < 2 ^ 31)
    (performed : state.call sb devsw call = .ok (result, next)) :
    Ready sb next ∧ (result, next.arrays) = state.arrays.apply call := by
  cases call with
  | read fd n =>
    cases isOpen : state.file fd with
    | none =>
      simp only [FileState.call, isOpen] at performed
      cases performed
    | some f =>
      obtain ⟨result', next', reads, after, refines⟩ := ready.exists_read isOpen short
      cases reads.symm.trans performed
      exact ⟨after, refines⟩
  | write fd src => exact ready.write performed

/-- A write of bytes that fit, with enough free blocks, is one replacement. -/
theorem Ready.exists_write (ready : Ready sb state) (isOpen : state.file fd = some f)
    (writable : f.writable = true) (limit : f.off + src.length ≤ maxfile * bsize)
    (enough : Enough sb (touched f.off src.length) f.inum (state.fs.dinode f.inum) state.fs) :
    ∃ next, state.call sb devsw (.write fd src) = .ok ((src.length, []), next) ∧
      contents next.fs = Function.update (contents state.fs) f.inum
        (splice (contents state.fs f.inum) f.off src) ∧
      (next.fs.dinode f.inum).size = max (state.fs.dinode f.inum).size (f.off + src.length) ∧
      next.file = Function.update state.file fd (some { f with off := f.off + src.length }) := by
  have opened := ready.opened fd f isOpen
  have all : written f.off src.length = src.length := if_pos limit
  obtain ⟨i, f', fs, loops⟩ : ∃ i f' fs,
      filewriteLoop sb devsw src.length f src state.fs = .ok (i, f', fs) :=
    Enough.filewriteLoop ready.wellFormed opened limit enough subset_rfl
  have writes : filewrite sb devsw f src state.fs =
      .ok (if i = src.length then src.length else -1, f', fs) := by
    rw [filewrite, if_neg (by simp [writable]), loops]
    rfl
  obtain ⟨isWritten, isAdvanced, stored⟩ :=
    filewriteLoop_stores ready.wellFormed opened le_rfl loops
  rw [all] at isWritten
  rw [isWritten] at writes isAdvanced stored
  rw [if_pos rfl] at writes
  rw [List.take_length] at stored
  refine ⟨⟨fs, Function.update state.file fd (some f')⟩, ?_, stored.replaced, ?_, ?_⟩
  · simp only [FileState.call, isOpen]
    rw [writes]
    rfl
  · have live := (opened.keeps stored.keeps).live
    rw [← length_contents live, stored.replaced, update_self, length_splice,
      length_contents opened.live]
    rw [length_contents opened.live]
    exact opened.start
  · rw [isAdvanced]

theorem Ready.actsOnByteArrays (ready : Ready sb state) : ActsOnByteArrays sb devsw state where
  refines _ _ _ short performed := (ready.perform short performed).2
  reads _ _ _ isOpen short := by
    obtain ⟨result, next, performed, _⟩ := ready.exists_read isOpen short
    exact ⟨result, next, performed⟩
  writes _ _ _ isOpen writable limit enough := ready.exists_write isOpen writable limit enough

theorem Ready.step (ready : Ready sb state) (edge : state.step sb devsw call = some next) :
    Ready sb next ∧ next.arrays = (state.arrays.apply call).2 := by
  rw [FileState.step] at edge
  split at edge
  · rename_i short
    cases performed : state.call sb devsw call with
    | error panic =>
      rw [performed] at edge
      cases edge
    | ok pair =>
      obtain ⟨result, after⟩ := pair
      rw [performed] at edge
      cases edge
      obtain ⟨readyAfter, refines⟩ := ready.perform short performed
      exact ⟨readyAfter, by rw [← refines]⟩
  · cases edge

end Sequences

/-- In every sequence of reads and writes through open files on regular files, the
calls act on the files as on byte arrays. -/
theorem files_are_byte_arrays (sb : SuperBlock) (devsw : Nat → Device) {start finish : FileState}
    {trace : List (FileState × Call)} (ready : Ready sb start)
    (run : FileRun sb devsw start trace finish) :
    Throughout (ActsOnByteArrays sb devsw) trace finish ∧
      finish.arrays = start.arrays.replay (trace.map Prod.snd) := by
  obtain ⟨visited, last⟩ := run.always (Ready sb) ready fun holds edge => (holds.step edge).1
  refine ⟨⟨fun entry member => (visited entry member).actsOnByteArrays, last.actsOnByteArrays⟩, ?_⟩
  clear visited last
  induction run with
  | nil => rfl
  | snoc run edge ih =>
    have current := (run.always (Ready sb) ready fun holds edge => (holds.step edge).1).2
    rw [(current.step edge).2, ih, List.map_append, ByteArrays.replay, ByteArrays.replay,
      List.foldl_append]
    rfl

/-- The small disk with one empty file, open for writing and for reading. -/
def twoOpenFiles : FileState where
  fs := (emptyImage.iupdate 1 { Inode.zero with type := .file }).setEntry 1
    (some ⟨1, false, .zero⟩)
  file fd := if fd = 0 then some ⟨false, true, 1, 0⟩ else if fd = 1 then some ⟨true, false, 1, 0⟩
    else none

theorem ready_twoOpenFiles : Ready smallDisk twoOpenFiles where
  wellFormed := by
    have allocated : step smallDisk (fun _ => ⟨none, none⟩) emptyImage (.ialloc .file) =
        some twoOpenFiles.fs := rfl
    exact wellFormed_emptyImage.step allocated
  opened := by
    intro fd f isOpen
    simp only [twoOpenFiles] at isOpen
    split at isOpen
    · cases isOpen
      exact ⟨rfl, rfl, le_rfl⟩
    · split at isOpen
      · cases isOpen
        exact ⟨rfl, rfl, le_rfl⟩
      · cases isOpen

theorem byte_arrays_of_twoOpenFiles :
    (∃ next, twoOpenFiles.call smallDisk (fun _ => ⟨none, none⟩) (.write 0 [7, 8]) =
        .ok ((2, []), next)) ∧
      ∃ trace finish, FileRun smallDisk (fun _ => ⟨none, none⟩) twoOpenFiles trace finish ∧
        trace.map Prod.snd = [.write 0 (List.replicate 1600 7), .read 1 600, .write 0 [8]] ∧
        finish.arrays = twoOpenFiles.arrays.replay (trace.map Prod.snd) := by
  constructor
  · have acts :=
      (files_are_byte_arrays smallDisk (fun _ => ⟨none, none⟩) ready_twoOpenFiles .nil).1.2
    obtain ⟨next, completes, _⟩ := acts.writes 0 _ [7, 8] rfl rfl (by decide) (by
      unfold Enough
      decide +kernel)
    exact ⟨next, completes⟩
  · refine exists_run_of_test (fun _ _ => True) (by decide +kernel) ?_
    exact fun _ _ run _ _ => (files_are_byte_arrays smallDisk _ ready_twoOpenFiles run).2

end Fs

end Xv6
