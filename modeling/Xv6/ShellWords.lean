import Xv6.ShellCommands

/-!
# The words of a command in the string

The words of a command line stay where they are in the string, and `nulterminate`
writes a NUL over the character after each of them, which is never part of a word.
-/

namespace Xv6

namespace Shell

variable {line buffer : List Char} {cmd : Cmd}

def argWords : List (Option Nat) → List Nat
  | some q :: argv => q :: argWords argv
  | _ => []

/-- The words of a command and the files of its redirections, as pointers. -/
def Cmd.words : Cmd → List Nat
  | .exec argv _ => argWords argv
  | .redir cmd file _ _ _ => cmd.words ++ [file]
  | .pipe left right => left.words ++ right.words
  | .list left right => left.words ++ right.words
  | .back cmd => cmd.words

/-- The words of `argv` with their ends in `eargv`, up to the first null pointer. -/
def argSpans : List (Option Nat) → List (Option Nat) → List Span
  | some q :: argv, some eq :: eargv => (q, eq) :: argSpans argv eargv
  | _, _ => []

/-- The words of a command with their ends, in the order of `nulterminate`. -/
def Cmd.spans : Cmd → List Span
  | .exec argv eargv => argSpans argv eargv
  | .redir cmd file efile _ _ => cmd.spans ++ [(file, efile)]
  | .pipe left right => left.spans ++ right.spans
  | .list left right => left.spans ++ right.spans
  | .back cmd => cmd.spans

theorem spans_back (cmd : Cmd) (count : Nat) :
    (Cmd.back^[count] cmd).words = cmd.words ∧ (Cmd.back^[count] cmd).spans = cmd.spans := by
  induction count with
  | zero => exact ⟨rfl, rfl⟩
  | succ count continues =>
    rw [Function.iterate_succ_apply']
    exact continues

theorem spans_wrap (cmd : Cmd) (found : List (Redir Span)) :
    (wrap cmd found).words = cmd.words ++ found.map (fun redir => redir.file.1) ∧
      (wrap cmd found).spans = cmd.spans ++ found.map Redir.file := by
  induction found generalizing cmd with
  | nil => exact ⟨(List.append_nil _).symm, (List.append_nil _).symm⟩
  | cons redir found continues =>
    have rest := continues (.redir cmd redir.file.1 redir.file.2 redir.kind.mode redir.kind.fd)
    refine ⟨rest.1.trans ?_, rest.2.trans ?_⟩
    · rw [Cmd.words, List.append_assoc]
      rfl
    · rw [Cmd.spans, List.append_assoc]
      rfl

theorem argSpans_append (words : List Span) (count : Nat) (more : List (Option Nat)) :
    argWords (words.map (fun word => some word.1) ++ List.replicate count none) =
        words.map Prod.fst ∧
      argSpans (words.map (fun word => some word.1) ++ List.replicate count none)
        (words.map (fun word => some word.2) ++ more) = words := by
  induction words with
  | nil => cases count <;> exact ⟨rfl, rfl⟩
  | cons word words continues =>
    exact ⟨congrArg (word.1 :: ·) continues.1, congrArg (word :: ·) continues.2⟩

/-- What holds of the words of a command that comes from a derivation. -/
structure HasSpans (cmd : Cmd) (ends : List Nat) (spans : List Span) : Prop where
  words : cmd.words = cmd.spans.map Prod.fst
  ends : cmd.spans.map Prod.snd = ends
  spans : ∀ span ∈ cmd.spans, span ∈ spans

theorem HasSpans.append {left right cmd : Cmd} {leftEnds rightEnds : List Nat}
    {leftSpans rightSpans : List Span} (hasLeft : HasSpans left leftEnds leftSpans)
    (hasRight : HasSpans right rightEnds rightSpans)
    (isWords : cmd.words = left.words ++ right.words)
    (isSpans : cmd.spans = left.spans ++ right.spans) :
    HasSpans cmd (leftEnds ++ rightEnds) (leftSpans ++ rightSpans) where
  words := by rw [isWords, isSpans, List.map_append, hasLeft.words, hasRight.words]
  ends := by rw [isSpans, List.map_append, hasLeft.ends, hasRight.ends]
  spans := fun span member => by
    rw [isSpans, List.mem_append] at member
    exact List.mem_append.mpr (member.imp (hasLeft.spans span) (hasRight.spans span))

theorem HasSpans.back {cmd : Cmd} {ends : List Nat} {spans : List Span}
    (has : HasSpans cmd ends spans) (count : Nat) : HasSpans (Cmd.back^[count] cmd) ends spans where
  words := by rw [(spans_back cmd count).1, (spans_back cmd count).2, has.words]
  ends := by rw [(spans_back cmd count).2, has.ends]
  spans := by
    rw [(spans_back cmd count).2]
    exact has.spans

theorem HasSpans.wrap {cmd : Cmd} {ends : List Nat} {spans : List Span}
    (has : HasSpans cmd ends spans) (found : List (Redir Span)) :
    HasSpans (wrap cmd found) (ends ++ found.map (fun redir => redir.file.2))
      (spans ++ found.map Redir.file) where
  words := by
    rw [(spans_wrap cmd found).1, (spans_wrap cmd found).2, List.map_append, has.words,
      List.map_map]
    rfl
  ends := by
    rw [(spans_wrap cmd found).2, List.map_append, has.ends, List.map_map]
    rfl
  spans := fun span member => by
    rw [(spans_wrap cmd found).2, List.mem_append] at member
    exact List.mem_append.mpr (member.imp_left (has.spans span))

theorem hasSpans_cmd {symbol : Symbol} (derivation : Derivation Span symbol) :
    HasSpans derivation.cmd derivation.ends derivation.spans := by
  induction derivation with
  | line first count ih =>
    rw [spans_line]
    exact ih.back count
  | sequence first count rest ih ihRest =>
    rw [spans_sequence]
    exact (ih.back count).append ihRest rfl rfl
  | single first ih => exact ih
  | pipe first rest ih ihRest =>
    rw [spans_pipe]
    exact ih.append ihRest rfl rfl
  | block inside found ih =>
    rw [spans_block]
    exact ih.wrap found
  | words found args few =>
    have isWords := argSpans_append (args.map Prod.fst)
    have has : HasSpans (execOfWords (args.map Prod.fst)) (args.map fun arg => arg.1.2)
        (args.map Prod.fst) := by
      rw [execOfWords, pad, pad]
      refine ⟨?_, ?_, fun span member => ?_⟩
      · rw [Cmd.words, Cmd.spans, (isWords _ []).1, (isWords _ _).2]
      · rw [Cmd.spans, (isWords _ _).2, List.map_map]
        rfl
      · rwa [Cmd.spans, (isWords _ _).2] at member
    have wrapped := has.wrap (found ++ args.flatMap Prod.snd)
    exact ⟨wrapped.words, wrapped.ends, fun span member =>
      (mem_spans_words found args few span).mpr (wrapped.spans span member)⟩

/-- The NULs that terminate the words are outside of all words, so every word of the
command that `parsecmd` returns is read as the characters of its token. -/
theorem nulterminate_safe (string : '\x00' ∉ line) (accepts : parsecmd line = .ok (cmd, buffer)) :
    cmd.words = cmd.spans.map Prod.fst ∧
      buffer = putNuls (cmd.spans.map Prod.snd) (line ++ ['\x00']) ∧
      ∀ span ∈ cmd.spans, .word span ∈ tokens line ∧ cstring buffer span.1 = text line span ∧
        ∀ other, .word other ∈ tokens line → ¬ (other.1 ≤ span.2 ∧ span.2 < other.2) := by
  obtain ⟨derivation, isYield⟩ :
      ∃ derivation : Derivation Span .line, derivation.yield = tokens line := by
    by_contra noDerivation
    obtain ⟨message, panics⟩ := parsecmd_of_no_yield string
      fun derivation isYield => noDerivation ⟨derivation, isYield⟩
    rw [accepts] at panics
    exact nomatch panics
  have isResult := parsecmd_eq_of_yield string derivation isYield
  rw [accepts] at isResult
  injection isResult with isPair
  injection isPair with isCmd isBuffer
  have has := hasSpans_cmd derivation
  rw [isCmd, isBuffer]
  refine ⟨has.words, ?_, fun span member => ?_⟩
  · rw [has.ends, nulterminate_cmd]
  · obtain ⟨isToken, isSpan⟩ := isWordSpan_of_yield isYield (has.spans span member)
    refine ⟨isToken, cstring_of_yield string isYield (has.spans span member),
      fun other isOther inside => ?_⟩
    have isOtherSpan := isWordSpan_of_mem_lex (Nat.zero_le _) rfl isOther
    have isWithin := isOtherSpan.within
    rcases isSpan.ends with atEnd | notWord
    · omega
    · exact notWord (isOtherSpan.inWord span.2 inside.1 inside.2)

theorem nulterminate_safe_listing : ∃ cmd buffer, parsecmd listing = .ok (cmd, buffer) ∧
    ∀ span ∈ cmd.spans, cstring buffer span.1 = text listing span := by
  have returns : (parsecmd listing).toOption.isSome = true := by decide +kernel
  cases isResult : parsecmd listing with
  | ok result =>
    refine ⟨result.1, result.2, rfl, fun span member => ?_⟩
    exact ((nulterminate_safe (by decide) isResult).2.2 span member).2.1
  | error stop =>
    rw [isResult] at returns
    exact nomatch returns

end Shell

end Xv6
