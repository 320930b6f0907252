import Mathlib.Data.List.TakeWhile
import Xv6.ShellParser

/-!
# The tokens of a string

Words are longest sequences of characters that are neither white space nor symbols.
`gettoken` reads the first of the tokens that are left at the cursor, and `peek` looks
at its first character; both leave the cursor where the tokens that remain begin.
-/

namespace Xv6

namespace Shell

abbrev Span : Type := Nat × Nat

/-- The tokens of one character other than `>`. -/
def symbolToken (c : Char) : Option (Token Span) :=
  if c = '<' then some (.angle .input)
  else if c = '|' then some .bar
  else if c = '&' then some .amp
  else if c = ';' then some .semi
  else if c = '(' then some .left
  else if c = ')' then some .right
  else none

def lex (s : Nat) (chars : List Char) : List (Token Span) :=
  match chars with
  | [] => []
  | c :: rest =>
    if isWhite c then lex (s + 1) rest
    else if c = '>' then
      if rest.head? = some '>' then .angle .append :: lex (s + 2) rest.tail
      else .angle .output :: lex (s + 1) rest
    else
      match symbolToken c with
      | some token => token :: lex (s + 1) rest
      | none =>
        .word (s, s + 1 + (rest.takeWhile isWord).length) ::
          lex (s + 1 + (rest.takeWhile isWord).length) (rest.dropWhile isWord)
termination_by chars.length
decreasing_by
  · simp
  · simp only [List.length_cons, List.length_tail]
    omega
  · simp
  · simp
  · have := (List.dropWhile_sublist (p := isWord) (l := rest)).length_le
    simp only [List.length_cons]
    omega

theorem lex_nil (s : Nat) : lex s [] = [] := by
  rw [lex]

variable {c : Char} {token : Token Span}

theorem lex_white (white : isWhite c) (s : Nat) (rest : List Char) :
    lex s (c :: rest) = lex (s + 1) rest := by
  rw [lex, if_pos white]

theorem lex_append (s : Nat) (rest : List Char) :
    lex s ('>' :: '>' :: rest) = .angle .append :: lex (s + 2) rest := by
  rw [lex, if_neg (by decide), if_pos rfl, List.head?_cons, if_pos rfl, List.tail_cons]

theorem lex_output (s : Nat) {rest : List Char} (single : rest.head? ≠ some '>') :
    lex s ('>' :: rest) = .angle .output :: lex (s + 1) rest := by
  rw [lex, if_neg (by decide), if_pos rfl, if_neg single]

theorem lex_symbol (isSymbol : symbolToken c = some token) (notWhite : ¬ isWhite c)
    (other : c ≠ '>') (s : Nat) (rest : List Char) :
    lex s (c :: rest) = token :: lex (s + 1) rest := by
  rw [lex, if_neg notWhite, if_neg other]
  simp only [isSymbol]

theorem isWord_iff (c : Char) :
    isWord c ↔ ¬ isWhite c ∧ c ≠ '>' ∧ symbolToken c = none := by
  simp only [isWord, isWhite, symbols, symbolToken]
  split_ifs <;> simp_all

theorem lex_word (inWord : isWord c) (s : Nat) (rest : List Char) :
    lex s (c :: rest) = .word (s, s + ((c :: rest).takeWhile isWord).length) ::
      lex (s + ((c :: rest).takeWhile isWord).length) ((c :: rest).dropWhile isWord) := by
  obtain ⟨notWhite, other, noSymbol⟩ := (isWord_iff c).mp inWord
  have shift : s + 1 + (rest.takeWhile isWord).length =
      s + ((rest.takeWhile isWord).length + 1) := by omega
  rw [lex, if_neg notWhite, if_neg other, List.takeWhile_cons, List.dropWhile_cons, if_pos inWord,
    if_pos inWord, List.length_cons]
  simp only [noSymbol, shift]

def tokens (line : List Char) : List (Token Span) :=
  lex 0 line

/-- The tokens that are left at the cursor. -/
structure Remaining (line : List Char) (s : Nat) (rest : List (Token Span)) : Prop where
  within : s ≤ line.length
  lexed : lex s (line.drop s) = rest

variable {line : List Char} {s q fuel : Nat} {test : Char → Bool} {rest : List (Token Span)}

/-! ## Loops over characters -/

theorem drop_eq_cons (inside : s < line.length) :
    line.drop s = charAt line s :: line.drop (s + 1) := by
  rw [List.drop_eq_getElem_cons inside, charAt]
  simp [inside]

theorem advance_eq (within : s ≤ line.length) (enough : line.length ≤ s + fuel) :
    advance line test fuel s = s + ((line.drop s).takeWhile test).length := by
  induction fuel generalizing s with
  | zero =>
    simp_all [advance]
  | succ fuel ih =>
    rw [advance]
    by_cases inside : s < line.length
    · grind [drop_eq_cons, List.takeWhile_cons, List.length_cons]
    · have : line.drop s = [] := List.drop_eq_nil_of_le (by omega)
      rw [if_neg (fun both => inside both.1), this]
      rfl

theorem skip_eq (within : s ≤ line.length) :
    skip line test s = s + ((line.drop s).takeWhile test).length :=
  advance_eq within (by omega)

theorem skip_le (within : s ≤ line.length) : skip line test s ≤ line.length := by
  have shorter := (List.takeWhile_sublist test (l := line.drop s)).length_le
  rw [List.length_drop] at shorter
  rw [skip_eq within]
  omega

theorem drop_skip (within : s ≤ line.length) :
    line.drop (skip line test s) = (line.drop s).dropWhile test := by
  rw [skip_eq within, ← List.drop_drop]
  generalize line.drop s = chars
  calc chars.drop (chars.takeWhile test).length
      = (chars.takeWhile test ++ chars.dropWhile test).drop (chars.takeWhile test).length := by
        rw [List.takeWhile_append_dropWhile]
    _ = chars.dropWhile test := List.drop_left

theorem length_lex_le (s : Nat) (chars : List Char) : (lex s chars).length ≤ chars.length := by
  induction s, chars using lex.induct with
  | case1 s => simp [lex_nil]
  | case2 s c rest white ih =>
    rw [lex_white white, List.length_cons]
    omega
  | case3 s rest double white ih =>
    cases rest with
    | nil => exact absurd double (by simp)
    | cons c rest =>
      grind [List.tail_cons, lex_append, List.length_cons]
  | case4 s rest single white ih =>
    rw [lex_output s single, List.length_cons, List.length_cons]
    omega
  | case5 s c rest white other token isSymbol ih =>
    rw [lex_symbol isSymbol white other, List.length_cons, List.length_cons]
    omega
  | case6 s c rest white other noSymbol ih =>
    have shorter := (List.dropWhile_sublist isWord (l := rest)).length_le
    rw [lex, if_neg white, if_neg other]
    simp only [noSymbol, List.length_cons]
    omega

theorem lex_dropWhile (s : Nat) (chars : List Char) :
    lex (s + (chars.takeWhile isWhite).length) (chars.dropWhile isWhite) = lex s chars := by
  induction chars generalizing s with
  | nil => rfl
  | cons c rest ih =>
    by_cases white : isWhite c
    · rw [List.takeWhile_cons, List.dropWhile_cons, if_pos white, if_pos white, List.length_cons,
        ← Nat.add_assoc, Nat.add_right_comm, ih, lex_white white]
    · simp_all

theorem Remaining.skip (remaining : Remaining line s rest) :
    Remaining line (skip line isWhite s) rest := by
  refine ⟨skip_le remaining.within, ?_⟩
  rw [drop_skip remaining.within, skip_eq remaining.within, lex_dropWhile]
  exact remaining.lexed

theorem not_isWhite_skip (within : s ≤ line.length)
    (inside : Shell.skip line isWhite s < line.length) :
    ¬ isWhite (charAt line (Shell.skip line isWhite s)) := by
  have first := List.head?_dropWhile_not isWhite (line.drop s)
  rw [← drop_skip within, drop_eq_cons inside] at first
  simpa using first

theorem charAt_of_le (beyond : line.length ≤ s) : charAt line s = '\x00' := by
  simp [charAt, beyond]

theorem charAt_ne (string : '\x00' ∉ line) (inside : s < line.length) :
    charAt line s ≠ '\x00' := by
  intro isNul
  refine string ?_
  rw [← isNul, charAt]
  simp [inside]

/-! ## `gettoken` -/

/-- What `gettoken` returns for a token. -/
def Token.ret : Token Span → Char
  | .word _ => 'a'
  | .angle .input => '<'
  | .angle .output => '>'
  | .angle .append => '+'
  | .bar => '|'
  | .amp => '&'
  | .semi => ';'
  | .left => '('
  | .right => ')'

/-- The first character of a token.  That of a word is not a symbol. -/
def Token.first : Token Span → Char
  | .angle .append => '>'
  | token => token.ret

/-- A character begins a token: a word, or a symbol with that character. -/
def Token.Begins (token : Token Span) (c : Char) : Prop :=
  (∃ span, token = .word span ∧ isWord c) ∨ token.first = c

/-- The switch of `gettoken` reads the token at a position. -/
theorem scanAt_eq (string : '\x00' ∉ line) (inside : q < line.length)
    (notWhite : ¬ isWhite (charAt line q)) :
    ∃ token, lex q (line.drop q) =
        token :: lex (scanAt line q).2 (line.drop (scanAt line q).2) ∧
      (scanAt line q).1 = token.ret ∧ (scanAt line q).2 ≤ line.length ∧
      token.Begins (charAt line q) ∧
      ∀ span, token = .word span → span = (q, (scanAt line q).2) := by
  have notNul := charAt_ne string inside
  have chars := drop_eq_cons inside
  rw [chars]
  by_cases isOutput : charAt line q = '>'
  · rw [isOutput]
    by_cases double : charAt line (q + 1) = '>'
    · have inside' : q + 1 < line.length := by
        by_contra beyond
        rw [charAt_of_le (by omega)] at double
        cases double
      have scan : scanAt line q = ('+', q + 2) := by simp [scanAt, isOutput, double]
      rw [drop_eq_cons inside', double, lex_append, scan]
      exact ⟨_, rfl, rfl, inside', Or.inr rfl, by simp⟩
    · have scan : scanAt line q = ('>', q + 1) := by simp [scanAt, isOutput, double]
      rw [lex_output, scan]
      · exact ⟨_, rfl, rfl, inside, Or.inr rfl, by simp⟩
      · grind [drop_eq_cons, List.drop_eq_nil_of_le]
  · cases isSymbol : symbolToken (charAt line q) with
    | some token =>
      have scan : scanAt line q = (token.ret, q + 1) ∧ token.first = charAt line q ∧
          ∀ span, token ≠ .word span := by
        unfold symbolToken at isSymbol
        split_ifs at isSymbol with isC isC isC isC isC isC
        all_goals
          cases isSymbol
          simp [scanAt, isC, Token.ret, Token.first]
      rw [lex_symbol isSymbol notWhite isOutput, scan.1]
      exact ⟨token, rfl, rfl, inside, Or.inr scan.2.1,
        fun span isWord => absurd isWord (scan.2.2 span)⟩
    | none =>
      have inWord := (isWord_iff _).mpr ⟨notWhite, isOutput, isSymbol⟩
      have scan : scanAt line q = ('a', Shell.skip line isWord q) := by
        unfold symbolToken at isSymbol
        split_ifs at isSymbol
        simp_all [scanAt]
      rw [lex_word inWord, scan, ← chars, ← skip_eq inside.le, ← drop_skip inside.le]
      exact ⟨_, rfl, rfl, skip_le inside.le, Or.inl ⟨_, rfl, inWord⟩, by simp⟩

/-- At the end of the string no tokens are left, and only there. -/
theorem Remaining.eq_nil_iff (string : '\x00' ∉ line) (remaining : Remaining line s rest) :
    rest = [] ↔ Shell.skip line isWhite s = line.length := by
  have skipped := remaining.skip
  by_cases inside : Shell.skip line isWhite s < line.length
  · obtain ⟨token, lexed, -⟩ :=
      scanAt_eq string inside (not_isWhite_skip remaining.within inside)
    rw [← skipped.lexed, lexed]
    simp only [List.cons_ne_nil, false_iff]
    omega
  · have atEnd : Shell.skip line isWhite s = line.length := by
      have := skipped.within
      omega
    rw [← skipped.lexed, atEnd, List.drop_length, lex_nil]
    simp

theorem gettoken_nil (remaining : Remaining line s []) (string : '\x00' ∉ line) :
    (gettoken line s).ret = '\x00' ∧ Remaining line (gettoken line s).s [] := by
  have atEnd := (remaining.eq_nil_iff string).mp rfl
  have scan : scanAt line (Shell.skip line isWhite s) = ('\x00', Shell.skip line isWhite s) := by
    simp [scanAt, charAt_of_le atEnd.ge]
  refine ⟨?_, ?_⟩
  · simp only [gettoken, scan]
  · simp only [gettoken, scan]
    exact remaining.skip.skip

theorem Remaining.inside (remaining : Remaining line s (token :: rest)) (string : '\x00' ∉ line) :
    Shell.skip line isWhite s < line.length := by
  have notEnd := (remaining.eq_nil_iff string).not.mp (List.cons_ne_nil _ _)
  have := remaining.skip.within
  omega

theorem gettoken_cons (remaining : Remaining line s (token :: rest)) (string : '\x00' ∉ line) :
    (gettoken line s).ret = token.ret ∧ Remaining line (gettoken line s).s rest ∧
      ∀ span, token = .word span → span = ((gettoken line s).q, (gettoken line s).eq) := by
  have inside := remaining.inside string
  obtain ⟨first, lexed, isRet, within, -, isSpan⟩ :=
    scanAt_eq string inside (not_isWhite_skip remaining.within inside)
  rw [remaining.skip.lexed] at lexed
  obtain ⟨rfl, isRest⟩ := List.cons.inj lexed
  exact ⟨isRet, Remaining.skip ⟨within, isRest.symm⟩, isSpan⟩

theorem gettoken_ret_ne (remaining : Remaining line s rest) (string : '\x00' ∉ line)
    (notWord : ∀ span later, rest = .word span :: later → False) :
    (gettoken line s).ret ≠ 'a' := by
  cases rest with
  | nil =>
    rw [(gettoken_nil remaining string).1]
    decide
  | cons token rest =>
    rw [(gettoken_cons remaining string).1]
    cases token with
    | word span => exact absurd rfl (notWord span rest)
    | angle kind => cases kind <;> decide
    | _ => decide

/-! ## `peek` -/

theorem peek_nil (remaining : Remaining line s []) (string : '\x00' ∉ line) (toks : List Char) :
    (peek line s toks).1 = false ∧ Remaining line (peek line s toks).2 [] := by
  have atEnd := (remaining.eq_nil_iff string).mp rfl
  refine ⟨?_, remaining.skip⟩
  simp [peek, charAt_of_le atEnd.ge]

theorem peek_cons (remaining : Remaining line s (token :: rest)) (string : '\x00' ∉ line)
    {toks : List Char} (areSymbols : ∀ c ∈ toks, c ∈ symbols) :
    (peek line s toks).1 = toks.contains token.first ∧
      Remaining line (peek line s toks).2 (token :: rest) := by
  refine ⟨?_, remaining.skip⟩
  have inside := remaining.inside string
  have notNul := charAt_ne string inside
  obtain ⟨first, lexed, -, -, begins, -⟩ :=
    scanAt_eq string inside (not_isWhite_skip remaining.within inside)
  rw [remaining.skip.lexed] at lexed
  obtain ⟨rfl, -⟩ := List.cons.inj lexed
  have outside : ∀ c, c ∉ symbols → toks.contains c = false := by
    grind
  have isPeek : (peek line s toks).1 = toks.contains (charAt line (Shell.skip line isWhite s)) := by
    simp [peek, notNul]
  rw [isPeek]
  rcases begins with ⟨span, rfl, inWord⟩ | isFirst
  · simp_all [Token.first, Token.ret, symbols, isWord, Bool.and_eq_true]
  · rw [isFirst]

/-- Whether the first of the tokens begins with one of the characters. -/
def ahead (toks : List Char) (rest : List (Token Span)) : Bool :=
  rest.head?.any fun token => toks.contains token.first

theorem peek_eq (remaining : Remaining line s rest) (string : '\x00' ∉ line) {toks : List Char}
    (areSymbols : ∀ c ∈ toks, c ∈ symbols) :
    (peek line s toks).1 = ahead toks rest ∧ Remaining line (peek line s toks).2 rest := by
  cases rest with
  | nil => exact peek_nil remaining string toks
  | cons token rest => exact peek_cons remaining string areSymbols

end Shell

end Xv6
