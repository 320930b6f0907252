import Xv6.GrepMatching
import Xv6.SeparatedLists

/-!
# The lines that `grep` prints

`grep` reads its input into a buffer, prints the matching lines that are complete, and
moves the rest of the last line to the start of the buffer.  What a call of `read`
returns is a piece of the input, not empty and not longer than the room in the buffer.
If a piece has no newline, the buffer is emptied, and what was read of the line is
lost.
-/

namespace Xv6

namespace Grep

/-! ## The code -/

/-- `strchr`: how far the character is from the start of the string. -/
def strchr : List Char → Char → Option Nat
  | [], _ => none
  | s :: rest, c =>
    if s = '\x00' then none
    else if s = c then some 0
    else (strchr rest c).map (· + 1)

theorem strchr_lt {text : List Char} {c : Char} {offset : Nat}
    (isFound : strchr text c = some offset) : offset < text.length := by
  induction text generalizing offset with
  | nil => exact absurd isFound.symm (Option.some_ne_none _)
  | cons s rest continues =>
    rw [strchr] at isFound
    split at isFound
    · cases isFound
    split at isFound
    · grind
    · obtain ⟨before, isBefore, rfl⟩ := Option.map_eq_some_iff.mp isFound
      exact Nat.succ_lt_succ (continues isBefore)

/-- The buffer, the pointer `p` and what was written. -/
structure Scan where
  buf : List Char
  p : Nat
  out : List Char

/-- The line that starts at `p` ends at `q`: it is printed if it matches. -/
def Scan.line (pattern : List Char) (scan : Scan) (q : Nat) : Scan :=
  let cut := scan.buf.set q '\x00'
  if matchText pattern ((cut.drop scan.p).takeWhile (· ≠ '\x00')) then
    let buf := cut.set q '\n'
    ⟨buf, q + 1, scan.out ++ (buf.drop scan.p).take (q + 1 - scan.p)⟩
  else ⟨cut, q + 1, scan.out⟩

theorem Scan.line_buf (pattern : List Char) (scan : Scan) (q : Nat) :
    (scan.line pattern q).buf.length = scan.buf.length ∧ (scan.line pattern q).p = q + 1 := by
  grind [List.length_set, Scan.line]

def Scan.lines (pattern : List Char) (scan : Scan) : Scan :=
  match _isFound : strchr (scan.buf.drop scan.p) '\n' with
  | none => scan
  | some offset => (scan.line pattern (scan.p + offset)).lines pattern
termination_by scan.buf.length - scan.p
decreasing_by
  have isSmall := strchr_lt _isFound
  rw [List.length_drop] at isSmall
  have same := scan.line_buf pattern (scan.p + offset)
  omega

def memmove (buf : List Char) (dst src : Nat) : Nat → List Char
  | 0 => buf
  | n + 1 => memmove (buf.set dst (buf[src]?.getD '\x00')) (dst + 1) (src + 1) n

/-- The variables of `grep`, and what was written. -/
structure State where
  buf : List Char
  m : Nat
  out : List Char

def State.room (state : State) : Nat :=
  1024 - state.m - 1

/-- `read` stored a piece of the input at the end of what the buffer holds. -/
def State.stored (state : State) (piece : List Char) : List Char :=
  state.buf.take state.m ++ piece ++ state.buf.drop (state.m + piece.length)

/-- A round of the loop of `grep`, for a piece of the input. -/
def State.round (pattern : List Char) (state : State) (piece : List Char) : State :=
  let m := state.m + piece.length
  let scan := Scan.lines pattern ⟨(state.stored piece).set m '\x00', 0, state.out⟩
  let m := if scan.p = 0 then 0 else m
  if 0 < m then ⟨memmove scan.buf 0 scan.p (m - scan.p), m - scan.p, scan.out⟩
  else ⟨scan.buf, m, scan.out⟩

/-- `grep`: what it writes if `read` returns the given pieces. -/
def grep (pattern : List Char) (state : State) (pieces : List (List Char)) : List Char :=
  (pieces.foldl (State.round pattern) state).out

/-- The pieces that `read` may return. -/
def Reads (pattern : List Char) : State → List Char → List (List Char) → Prop
  | state, input, [] => state.room = 0 ∨ input = []
  | state, input, piece :: pieces =>
    piece ≠ [] ∧ piece.length ≤ state.room ∧
      ∃ rest, input = piece ++ rest ∧ Reads pattern (state.round pattern piece) rest pieces

open SeparatedLists

variable {pattern : List Char} {buf data line later rest carry piece input : List Char}
  {scan : Scan} {state : State}

/-- What `grep` is for: the lines that match, with their newlines. -/
def matching (pattern text : List Char) : List Char :=
  ((complete '\n' text).filter (matchText pattern)).flatMap (· ++ ['\n'])

theorem matching_of_not_mem (isPiece : '\n' ∉ data) : matching pattern data = [] := by
  rw [matching, complete_of_not_mem isPiece]
  rfl

theorem matching_append (pattern data more : List Char) :
    matching pattern (data ++ more) =
      matching pattern data ++ matching pattern (remaining '\n' data ++ more) := by
  rw [matching, complete_append, List.filter_append, List.flatMap_append]
  rfl

theorem matching_cons (isLine : '\n' ∉ line) (pattern later : List Char) :
    matching pattern (line ++ '\n' :: later) =
      (if matchText pattern line then line ++ ['\n'] else []) ++ matching pattern later := by
  rw [matching, complete_cons isLine, List.filter_cons]
  split
  · rfl
  · rfl

/-! ## The lines in the buffer -/

theorem strchr_of_not_mem (noNewline : '\n' ∉ data) (rest : List Char) :
    strchr (data ++ '\x00' :: rest) '\n' = none := by
  induction data with
  | nil => rfl
  | cons s data continues =>
    grind [strchr]

theorem strchr_of_line (isLine : '\n' ∉ line) (noNul : '\x00' ∉ line) (rest : List Char) :
    strchr (line ++ '\n' :: rest) '\n' = some line.length := by
  induction line with
  | nil => rfl
  | cons s line continues =>
    grind [strchr]

theorem takeWhile_line (noNul : '\x00' ∉ line) (rest : List Char) :
    (line ++ '\x00' :: rest).takeWhile (· ≠ '\x00') = line := by
  rw [List.takeWhile_append_of_pos fun c isMember => ?_]
  · simp
  · grind

theorem drop_set_line {c d : Char} {p : Nat} (isBuffer : buf.drop p = line ++ c :: rest) :
    (buf.set (p + line.length) d).drop p = line ++ d :: rest := by
  rw [List.drop_set, if_neg (by omega), Nat.add_sub_cancel_left, isBuffer,
    List.set_append_right _ _ (Nat.le_refl _), Nat.sub_self, List.set_cons_zero]

theorem Scan.line_eq (pattern : List Char)
    (isBuffer : scan.buf.drop scan.p = line ++ '\n' :: rest)
    (noNul : '\x00' ∉ line) :
    (scan.line pattern (scan.p + line.length)).buf.drop (scan.p + line.length + 1) = rest ∧
      (scan.line pattern (scan.p + line.length)).out =
        scan.out ++ if matchText pattern line then line ++ ['\n'] else [] := by
  have isCut := drop_set_line (d := '\x00') isBuffer
  have isRestored := drop_set_line (d := '\n') isCut
  have isRest : ∀ (c : Char) (buffer : List Char), buffer.drop scan.p = line ++ c :: rest →
      buffer.drop (scan.p + line.length + 1) = rest := by
    intro c buffer isLine
    rw [Nat.add_assoc, ← List.drop_drop, isLine, ← List.drop_drop, List.drop_left]
    rfl
  unfold Scan.line
  dsimp only
  rw [isCut, takeWhile_line noNul]
  split
  · grind [Nat.add_assoc, Nat.add_sub_cancel_left, List.take_append, List.take_of_length_le]
  · exact ⟨isRest '\x00' _ isCut, (List.append_nil _).symm⟩

theorem Scan.lines_eq (pattern data rest : List Char) : ∀ scan : Scan,
    scan.buf.drop scan.p = data ++ '\x00' :: rest → '\x00' ∉ data →
      (scan.lines pattern).buf.length = scan.buf.length ∧
      (scan.lines pattern).p + (remaining '\n' data).length = scan.p + data.length ∧
      (scan.lines pattern).buf.drop (scan.lines pattern).p =
        remaining '\n' data ++ '\x00' :: rest ∧
      (scan.lines pattern).out = scan.out ++ matching pattern data := by
  induction data using piece_induction '\n' with
  | single data isPiece =>
    intro scan isBuffer _
    have isLast : scan.lines pattern = scan := by
      rw [Scan.lines, isBuffer, strchr_of_not_mem isPiece]
    rw [isLast, remaining_of_not_mem isPiece, matching_of_not_mem isPiece, List.append_nil]
    exact ⟨rfl, rfl, isBuffer, rfl⟩
  | piece line data isLine continues =>
    intro scan isBuffer noNul
    rw [List.mem_append, List.mem_cons, not_or, not_or] at noNul
    rw [List.append_assoc, List.cons_append] at isBuffer
    have goesOn : scan.lines pattern =
        (scan.line pattern (scan.p + line.length)).lines pattern := by
      rw [Scan.lines, isBuffer, strchr_of_line isLine noNul.1]
    obtain ⟨isRest, isOut⟩ := Scan.line_eq pattern isBuffer noNul.1
    obtain ⟨sameLength, isNext⟩ := scan.line_buf pattern (scan.p + line.length)
    obtain ⟨hasLength, isEnd, isRemaining, isWritten⟩ :=
      continues (scan.line pattern (scan.p + line.length)) (isNext ▸ isRest) noNul.2.2
    rw [goesOn, remaining_cons isLine, matching_cons isLine]
    refine ⟨hasLength.trans sameLength, ?_, isRemaining, ?_⟩
    · grind
    · rw [isWritten, isOut, List.append_assoc]

/-! ## The rounds -/

theorem memmove_eq (n : Nat) : ∀ (buf : List Char) (dst src : Nat), dst ≤ src →
    src + n ≤ buf.length →
      memmove buf dst src n = buf.take dst ++ (buf.drop src).take n ++ buf.drop (dst + n) := by
  induction n with
  | zero =>
    intro buf dst src _ _
    rw [memmove, List.take_zero, List.append_nil, Nat.add_zero, List.take_append_drop]
  | succ n continues =>
    intro buf dst src ordered inside
    have isByte : buf[src]? = some buf[src] := List.getElem?_eq_getElem (by omega)
    have isDrop : ∀ k, dst < k → (buf.set dst buf[src]).drop k = buf.drop k := by
      intro k later
      rw [List.drop_set, if_pos later]
    have isTake : (buf.set dst buf[src]).take (dst + 1) = buf.take dst ++ [buf[src]] := by
      rw [List.take_add_one, List.take_set_of_le (Nat.le_refl _),
        List.getElem?_set_self (by omega)]
      rfl
    rw [memmove, continues _ _ _ (by omega) (by rw [List.length_set]; omega), isByte,
      Option.getD_some, isDrop _ (by omega), isDrop _ (by omega), isTake,
      List.drop_eq_getElem_cons (i := src) (by omega), List.take_succ_cons, List.append_assoc,
      List.append_assoc, List.append_assoc, List.singleton_append, List.cons_append,
      show dst + 1 + n = dst + (n + 1) by omega]

/-- The buffer holds a part of a line. -/
structure Holding (state : State) (carry : List Char) : Prop where
  length : state.buf.length = 1024
  m : state.m = carry.length
  small : carry.length < 1024
  isCarry : state.buf.take state.m = carry
  noNewline : '\n' ∉ carry
  noNul : '\x00' ∉ carry

def carried (carry piece : List Char) : List Char :=
  if '\n' ∈ piece then remaining '\n' (carry ++ piece) else []

theorem Holding.round (holding : Holding state carry) (fits : piece.length ≤ state.room)
    (noNul : '\x00' ∉ piece) (pattern : List Char) :
    Holding (state.round pattern piece) (carried carry piece) ∧
      (state.round pattern piece).out = state.out ++ matching pattern (carry ++ piece) := by
  have isSize := holding.length
  have isLength := holding.m
  have isSmall := holding.small
  have hasRoom : state.m + piece.length < 1024 := by
    unfold State.room at fits
    omega
  have noZero : '\x00' ∉ carry ++ piece := by
    rw [List.mem_append]
    exact not_or.mpr ⟨holding.noNul, noNul⟩
  -- `read` and the terminating zero fill the buffer up to `m`
  have isBuffer : ((state.stored piece).set (state.m + piece.length) '\x00').drop 0 =
      carry ++ piece ++ '\x00' :: state.buf.drop (state.m + piece.length + 1) := by
    have isPlace : state.m + piece.length = (carry ++ piece).length := by
      rw [List.length_append, isLength]
    rw [State.stored, holding.isCarry, List.drop_zero, List.drop_eq_getElem_cons (by omega),
      List.set_append_right _ _ isPlace.ge, ← isPlace, Nat.sub_self, List.set_cons_zero]
  obtain ⟨hasLength, isEnd, isRemaining, isOut⟩ :=
    Scan.lines_eq pattern (carry ++ piece) _ ⟨_, 0, state.out⟩ isBuffer noZero
  have isFull : (Scan.lines pattern ⟨(state.stored piece).set (state.m + piece.length) '\x00', 0,
      state.out⟩).buf.length = 1024 := by
    rw [hasLength, List.length_set, State.stored, holding.isCarry, List.length_append,
      List.length_append, List.length_drop]
    omega
  unfold State.round
  dsimp only
  generalize Scan.lines pattern ⟨(state.stored piece).set (state.m + piece.length) '\x00', 0,
    state.out⟩ = scan at hasLength isEnd isRemaining isOut isFull ⊢
  rw [List.length_append, Nat.zero_add] at isEnd
  by_cases isNewline : '\n' ∈ piece
  · have isShorter := length_remaining_lt (List.mem_append_right carry isNewline)
    rw [List.length_append] at isShorter
    have isAfter : scan.p ≠ 0 := by omega
    have isMoved : memmove scan.buf 0 scan.p (state.m + piece.length - scan.p) =
        remaining '\n' (carry ++ piece) ++
          scan.buf.drop (remaining '\n' (carry ++ piece)).length := by
      have isPlace : state.m + piece.length - scan.p =
          (remaining '\n' (carry ++ piece)).length := by omega
      rw [memmove_eq _ _ _ _ (Nat.zero_le _) (by omega), isRemaining, isPlace, List.take_left,
        Nat.zero_add]
      rfl
    rw [if_neg isAfter, if_pos (by omega), carried, if_pos isNewline, isMoved]
    refine ⟨⟨?_, ?_, ?_, ?_, not_mem_remaining '\n' _, ?_⟩, isOut⟩
    · grind
    · dsimp only
      omega
    · omega
    · grind [List.take_left]
    · intro isZero
      refine noZero ?_
      rw [← flatMap_complete '\n' (carry ++ piece)]
      exact List.mem_append_right _ isZero
  · have isWhole : '\n' ∉ carry ++ piece := by
      rw [List.mem_append]
      exact not_or.mpr ⟨holding.noNewline, isNewline⟩
    rw [remaining_of_not_mem isWhole, List.length_append] at isEnd
    have isStart : scan.p = 0 := by omega
    rw [if_pos isStart, if_neg (lt_irrefl 0), carried, if_neg isNewline]
    exact ⟨⟨isFull, rfl, by decide, rfl, List.not_mem_nil, List.not_mem_nil⟩, isOut⟩

/-! ## All that is printed -/

/-- What is printed if the buffer holds a part of a line and the given pieces are read. -/
def printed (pattern : List Char) : List Char → List (List Char) → List Char
  | _, [] => []
  | carry, piece :: pieces =>
    matching pattern (carry ++ piece) ++ printed pattern (carried carry piece) pieces

theorem grep_eq (pieces : List (List Char)) : ∀ (state : State) (carry input : List Char),
    Holding state carry → Reads pattern state input pieces → '\x00' ∉ input →
      grep pattern state pieces = state.out ++ printed pattern carry pieces := by
  induction pieces with
  | nil => exact fun state _ _ _ _ _ => (List.append_nil state.out).symm
  | cons piece pieces continues =>
    rintro state carry _ holding ⟨-, fits, rest, rfl, reads⟩ noNul
    rw [List.mem_append, not_or] at noNul
    obtain ⟨holdingNext, isOut⟩ := holding.round fits noNul.1 pattern
    rw [printed, ← List.append_assoc, ← isOut]
    exact continues _ _ rest holdingNext reads noNul.2

/-- How much `read` may return does not depend on the pattern. -/
theorem Reads.change {other : List Char} (pieces : List (List Char)) :
    ∀ (state another : State) (carry input : List Char), Holding state carry →
      Holding another carry → '\x00' ∉ input → Reads pattern state input pieces →
        Reads other another input pieces := by
  induction pieces with
  | nil =>
    rintro state another carry input holding isAnother _ reads
    rw [Reads, State.room, holding.m] at reads
    rwa [Reads, State.room, isAnother.m]
  | cons piece pieces continues =>
    rintro state another carry _ holding isAnother noNul ⟨nonempty, fits, rest, rfl, reads⟩
    rw [List.mem_append, not_or] at noNul
    have fitsAnother : piece.length ≤ another.room := by
      rw [State.room, holding.m] at fits
      rwa [State.room, isAnother.m]
    exact ⟨nonempty, fitsAnother, rest, rfl, continues _ _ _ rest
      (holding.round fits noNul.1 pattern).1 (isAnother.round fitsAnother noNul.1 other).1
      noNul.2 reads⟩

theorem short_carried (noNewline : '\n' ∉ carry)
    (short : ∀ line ∈ (carry ++ (piece ++ rest)).splitOn '\n', line.length < 1023) :
    ∀ line ∈ (carried carry piece ++ rest).splitOn '\n', line.length < 1023 := by
  intro line isLine
  rw [carried] at isLine
  split at isLine
  · refine short line ?_
    rw [← List.append_assoc, splitOn_append]
    exact List.mem_append_right _ isLine
  · rename_i isNewline
    have notMember : '\n' ∉ carry ++ piece := by
      grind
    obtain ⟨larger, isLarger, isLess⟩ := exists_piece_ge notMember isLine
    rw [List.append_assoc] at isLarger
    exact isLess.trans_lt (short larger isLarger)

theorem Reads.flatten (pieces : List (List Char)) : ∀ (state : State) (carry input : List Char),
    Holding state carry → '\x00' ∉ input →
      (∀ line ∈ (carry ++ input).splitOn '\n', line.length < 1023) →
        Reads pattern state input pieces → pieces.flatten = input := by
  induction pieces with
  | nil =>
    rintro state carry input holding _ short (noRoom | rfl)
    · obtain ⟨larger, isLarger, isLess⟩ := exists_first_ge holding.noNewline input
      have isShort := short larger isLarger
      rw [State.room, holding.m] at noRoom
      omega
    · rfl
  | cons piece pieces continues =>
    rintro state carry _ holding noNul short ⟨-, fits, rest, rfl, reads⟩
    rw [List.mem_append, not_or] at noNul
    rw [List.flatten_cons, continues _ _ rest (holding.round fits noNul.1 pattern).1 noNul.2
      (short_carried holding.noNewline short) reads]

/-- No piece without a newline is read before a newline. -/
def NoneLost (pieces : List (List Char)) : Prop :=
  pieces.Pairwise fun piece later => '\n' ∉ piece → '\n' ∉ later

theorem printed_eq (pattern : List Char) (pieces : List (List Char)) : ∀ carry : List Char,
    '\n' ∉ carry → NoneLost pieces →
      printed pattern carry pieces = matching pattern (carry ++ pieces.flatten) := by
  induction pieces with
  | nil =>
    intro carry noNewline _
    rw [List.flatten_nil, List.append_nil, matching_of_not_mem noNewline]
    rfl
  | cons piece pieces continues =>
    intro carry noNewline noneLost
    obtain ⟨before, noneLater⟩ := List.pairwise_cons.mp noneLost
    rw [printed, List.flatten_cons, ← List.append_assoc,
      matching_append pattern (carry ++ piece)]
    congr 1
    by_cases isNewline : '\n' ∈ piece
    · rw [carried, if_pos isNewline]
      exact continues _ (not_mem_remaining '\n' _) noneLater
    · have noMore : '\n' ∉ pieces.flatten := by
        intro isMember
        obtain ⟨later, isLater, inLater⟩ := List.mem_flatten.mp isMember
        exact before later isLater isNewline inLater
      have notMember : '\n' ∉ remaining '\n' (carry ++ piece) ++ pieces.flatten := by
        rw [List.mem_append]
        exact not_or.mpr ⟨not_mem_remaining '\n' _, noMore⟩
      rw [carried, if_neg isNewline, continues [] List.not_mem_nil noneLater,
        matching_of_not_mem notMember, List.nil_append, matching_of_not_mem noMore]

theorem matchText_nil (text : List Char) : matchText [] text = true := by
  cases text <;> simp [matchText, matchLoop, matchhere]

theorem length_matching_append (noNewline : '\n' ∉ line) (isNewline : '\n' ∈ later) :
    (matching [] (line ++ later)).length = line.length + (matching [] later).length := by
  obtain ⟨next, rest, rfl, isNext⟩ := List.eq_append_cons_of_mem isNewline
  have notMember : '\n' ∉ line ++ next := by
    grind
  rw [← List.append_assoc, matching_cons notMember, matching_cons isNext,
    if_pos (matchText_nil _), if_pos (matchText_nil _)]
  simp only [List.length_append, List.length_singleton]
  omega

theorem noneLost_of_not_mem {pieces : List (List Char)} (noNewline : '\n' ∉ pieces.flatten) :
    NoneLost pieces := by
  refine List.pairwise_of_forall_mem_list fun piece _ later isLater _ isNewline => ?_
  exact noNewline (List.mem_flatten.mpr ⟨later, isLater, isNewline⟩)

/-- What is lost is missing from what the empty pattern prints. -/
theorem length_printed (pieces : List (List Char)) : ∀ carry : List Char, '\n' ∉ carry →
    (∀ piece ∈ pieces, piece ≠ []) →
      (printed [] carry pieces).length ≤ (matching [] (carry ++ pieces.flatten)).length ∧
        (¬ NoneLost pieces →
          (printed [] carry pieces).length < (matching [] (carry ++ pieces.flatten)).length) := by
  induction pieces with
  | nil => exact fun _ _ _ => ⟨Nat.zero_le _, fun lost => absurd List.Pairwise.nil lost⟩
  | cons piece pieces continues =>
    intro carry noNewline nonempty
    have areLater : ∀ piece ∈ pieces, piece ≠ [] :=
      fun later isLater => nonempty later (List.mem_cons_of_mem _ isLater)
    by_cases isNewline : '\n' ∈ piece
    · obtain ⟨isLess, isStrict⟩ := continues (remaining '\n' (carry ++ piece))
        (not_mem_remaining '\n' _) areLater
      rw [printed, carried, if_pos isNewline, List.flatten_cons, ← List.append_assoc,
        matching_append [] (carry ++ piece), List.length_append, List.length_append]
      refine ⟨by omega, fun lost => ?_⟩
      have := isStrict fun noneLater => lost (List.pairwise_cons.mpr
        ⟨fun _ _ noNewlineFirst => absurd isNewline noNewlineFirst, noneLater⟩)
      omega
    · obtain ⟨isLess, -⟩ := continues [] List.not_mem_nil areLater
      have notMember : '\n' ∉ carry ++ piece := by
        grind
      rw [printed, carried, if_neg isNewline, List.flatten_cons, ← List.append_assoc,
        matching_of_not_mem notMember, List.nil_append]
      rw [List.nil_append] at isLess
      by_cases isLater : '\n' ∈ pieces.flatten
      · have isPiece := List.length_pos_iff.mpr (nonempty piece List.mem_cons_self)
        rw [length_matching_append notMember isLater, List.length_append]
        exact ⟨by omega, fun _ => by omega⟩
      · have noneLost : NoneLost (piece :: pieces) := by
          refine noneLost_of_not_mem ?_
          rw [List.flatten_cons, List.mem_append]
          exact not_or.mpr ⟨isNewline, isLater⟩
        rw [matching_of_not_mem isLater, List.length_nil] at isLess
        exact ⟨by omega, fun lost => absurd noneLost lost⟩

theorem Reads.nonempty (pieces : List (List Char)) : ∀ (state : State) (input : List Char),
    Reads pattern state input pieces → ∀ piece ∈ pieces, piece ≠ [] := by
  induction pieces with
  | nil => exact fun _ _ _ _ isNil => absurd isNil List.not_mem_nil
  | cons piece pieces continues =>
    rintro state input ⟨nonempty, -, rest, -, reads⟩ other isMember
    rcases List.mem_cons.mp isMember with rfl | isLater
    · exact nonempty
    · exact continues _ rest reads other isLater

theorem holding_start (isBuffer : buf.length = 1024) : Holding ⟨buf, 0, []⟩ [] :=
  ⟨isBuffer, rfl, by decide, rfl, List.not_mem_nil, List.not_mem_nil⟩

/-- The output of `grep` does not depend on how the input arrives, if and only if no
piece without a newline comes before a newline. -/
theorem grep_exact_iff {pieces : List (List Char)} (isBuffer : buf.length = 1024)
    (noNul : '\x00' ∉ input) (short : ∀ line ∈ input.splitOn '\n', line.length < 1023)
    (reads : Reads pattern ⟨buf, 0, []⟩ input pieces) :
    (∀ pattern, grep pattern ⟨buf, 0, []⟩ pieces = matching pattern input) ↔
      NoneLost pieces := by
  have holding := holding_start isBuffer
  have isInput : pieces.flatten = input :=
    Reads.flatten pieces _ [] input holding noNul short reads
  have isOutput : ∀ pattern, grep pattern ⟨buf, 0, []⟩ pieces = printed pattern [] pieces :=
    fun other => grep_eq pieces _ [] input holding
      (Reads.change pieces _ _ [] input holding holding noNul reads) noNul
  constructor
  · intro isExact
    by_contra lost
    have isShorter := (length_printed pieces [] List.not_mem_nil
      (Reads.nonempty pieces _ input reads)).2 lost
    rw [← isOutput, isExact, List.nil_append, isInput] at isShorter
    exact lt_irrefl _ isShorter
  · intro noneLost other
    rw [isOutput, printed_eq other pieces [] List.not_mem_nil noneLost, List.nil_append, isInput]

/-- The buffer before the first call of `grep`. -/
def zeroed : List Char :=
  List.replicate 1024 '\x00'

theorem length_zeroed : zeroed.length = 1024 :=
  List.length_replicate

/-- A line arrives in two pieces, the first of which ends the line before it. -/
theorem grep_exact_iff_two_lines : NoneLost [['h', 'i', '\n', 'y'], ['o', 'u', '\n']] ∧ ∀ pattern,
    grep pattern ⟨zeroed, 0, []⟩ [['h', 'i', '\n', 'y'], ['o', 'u', '\n']] =
      matching pattern ['h', 'i', '\n', 'y', 'o', 'u', '\n'] := by
  have holding := holding_start length_zeroed
  have fits : ['h', 'i', '\n', 'y'].length ≤ State.room ⟨zeroed, 0, []⟩ := by decide
  have next := (holding.round fits (by decide) []).1
  have reads : Reads [] ⟨zeroed, 0, []⟩ ['h', 'i', '\n', 'y', 'o', 'u', '\n']
      [['h', 'i', '\n', 'y'], ['o', 'u', '\n']] := by
    refine ⟨by decide, fits, ['o', 'u', '\n'], rfl, by decide, ?_, [], rfl, .inr rfl⟩
    rw [State.room, next.m]
    decide
  have noneLost : NoneLost [['h', 'i', '\n', 'y'], ['o', 'u', '\n']] := by
    unfold NoneLost
    decide
  exact ⟨noneLost, (grep_exact_iff length_zeroed (by decide) (by decide) reads).mpr noneLost⟩

/-- A line that arrives in two pieces is not found, because the first one is lost. -/
theorem grep_loses_line :
    Reads ['h'] ⟨zeroed, 0, []⟩ ['h', 'e', 'y', '\n'] [['h', 'e'], ['y', '\n']] ∧
      grep ['h'] ⟨zeroed, 0, []⟩ [['h', 'e'], ['y', '\n']] = [] ∧
      matching ['h'] ['h', 'e', 'y', '\n'] = ['h', 'e', 'y', '\n'] := by
  have holding := holding_start length_zeroed
  have fits : ['h', 'e'].length ≤ State.room ⟨zeroed, 0, []⟩ := by decide
  have next := (holding.round fits (by decide) ['h']).1
  have reads : Reads ['h'] ⟨zeroed, 0, []⟩ ['h', 'e', 'y', '\n'] [['h', 'e'], ['y', '\n']] := by
    refine ⟨by decide, fits, ['y', '\n'], rfl, by decide, ?_, [], rfl, .inr rfl⟩
    rw [State.room, next.m]
    decide
  have lineMatches : matchText ['h'] ['h', 'e', 'y'] = true := by
    simp [matchText, matchLoop, matchhere]
  have restDiffers : matchText ['h'] ['y'] = false := by
    simp [matchText, matchLoop, matchhere]
  have isLine : ∀ line, '\n' ∉ line → matching ['h'] (line ++ ['\n']) =
      if matchText ['h'] line then line ++ ['\n'] else [] :=
    fun line isLine => (matching_cons isLine ['h'] []).trans (List.append_nil _)
  refine ⟨reads, ?_, ?_⟩
  · rw [grep_eq _ _ [] _ holding reads (by decide)]
    have isRest := isLine ['y'] (by decide)
    rw [restDiffers] at isRest
    exact congrArg (· ++ []) isRest
  · have isFound := isLine ['h', 'e', 'y'] (by decide)
    rw [lineMatches] at isFound
    exact isFound

end Grep

end Xv6
