import Mathlib.Logic.Function.Iterate
import Xv6.ShellLexer

/-!
# The parser accepts the grammar

Every function of the parser does at its cursor what the parser over tokens does with
the tokens that are left there: it returns the command of the derivation, with the
cursor at the tokens that follow, or it calls `panic`.
-/

namespace Xv6

namespace Shell

/-! ## The command of a derivation -/

def Angle.mode : Angle → Nat
  | .input => readOnly
  | _ => writeCreate

def Angle.fd : Angle → Nat
  | .input => 0
  | _ => 1

/-- A command with redirections, the first of them innermost. -/
def wrap (cmd : Cmd) (found : List (Redir Span)) : Cmd :=
  found.foldl (fun cmd redir =>
    .redir cmd redir.file.1 redir.file.2 redir.kind.mode redir.kind.fd) cmd

/-- An array of pointers that ends with null pointers. -/
def pad (pointers : List (Option Nat)) : List (Option Nat) :=
  pointers ++ List.replicate (maxArgs - pointers.length) none

def execOfWords (words : List Span) : Cmd :=
  .exec (pad (words.map fun word => some word.1)) (pad (words.map fun word => some word.2))

def Derivation.cmd : {symbol : Symbol} → Derivation Span symbol → Cmd
  | _, .line first count => Cmd.back^[count] first.cmd
  | _, .sequence first count rest => .list (Cmd.back^[count] first.cmd) rest.cmd
  | _, .single first => first.cmd
  | _, .pipe first rest => .pipe first.cmd rest.cmd
  | _, .block inside found => wrap inside.cmd found
  | _, .words found args _ =>
    wrap (execOfWords (args.map Prod.fst)) (found ++ args.flatMap Prod.snd)

variable {line : List Char} {s fuel : Nat} {rest : List (Token Span)} {cmd : Cmd}

theorem wrap_append (cmd : Cmd) (first second : List (Redir Span)) :
    wrap cmd (first ++ second) = wrap (wrap cmd first) second :=
  List.foldl_append

/-- The first null pointer of an array is at the end of its words. -/
theorem set_pad (pointers : List (Option Nat)) (few : pointers.length < maxArgs)
    (pointer : Option Nat) : (pad pointers).set pointers.length pointer =
      pointers ++ pointer :: List.replicate (maxArgs - (pointers.length + 1)) none := by
  obtain ⟨left, isLeft⟩ : ∃ n, maxArgs - pointers.length = n + 1 :=
    ⟨maxArgs - pointers.length - 1, by omega⟩
  have shorter : maxArgs - (pointers.length + 1) = left := by omega
  rw [pad, isLeft, shorter, List.replicate_succ, List.set_append_right _ _ le_rfl, Nat.sub_self]
  rfl

theorem set_pad_none (pointers : List (Option Nat)) :
    (pad pointers).set pointers.length none = pad pointers := by
  simp [pad]

theorem set_pad_append (pointers : List (Option Nat)) (few : pointers.length < maxArgs)
    (pointer : Option Nat) :
    (pad pointers).set pointers.length pointer = pad (pointers ++ [pointer]) := by
  rw [set_pad pointers few, pad, List.length_append, List.length_singleton, List.append_assoc]
  rfl

theorem length_pad {pointers : List (Option Nat)} (few : pointers.length ≤ maxArgs) :
    (pad pointers).length = maxArgs := by
  simp only [pad, List.length_append, List.length_replicate]
  omega

theorem store_wrap {stored : Cmd} {argc : Nat} {q eq : Option Nat}
    (isStored : cmd.store argc q eq = .ok stored) (found : List (Redir Span)) :
    (wrap cmd found).store argc q eq = .ok (wrap stored found) := by
  induction found generalizing cmd stored with
  | nil => exact isStored
  | cons redir found ih =>
    refine ih ?_
    rw [Cmd.store, isStored]
    rfl

variable {words : List Span} {β γ : Type} {cmdOf : β → Cmd} {result : Except Stop (Cmd × Nat)}
  {parsed : Parsed Span β}

theorem store_execOfWords (few : words.length < maxArgs) (q eq : Option Nat) :
    (execOfWords words).store words.length q eq =
      .ok (.exec ((pad (words.map fun word => some word.1)).set words.length q)
        ((pad (words.map fun word => some word.2)).set words.length eq)) := by
  refine if_pos ?_
  rw [length_pad (by simpa using few.le), length_pad (by simpa using few.le)]
  exact ⟨few, few⟩

theorem store_word (few : words.length < maxArgs) (word : Span) :
    (execOfWords words).store words.length (some word.1) (some word.2) =
      .ok (execOfWords (words ++ [word])) := by
  have first := set_pad_append (words.map fun word => some word.1) (by simpa using few)
    (some word.1)
  have second := set_pad_append (words.map fun word => some word.2) (by simpa using few)
    (some word.2)
  rw [List.length_map] at first second
  rw [store_execOfWords few, first, second, execOfWords, List.map_append, List.map_append]
  rfl

theorem store_null (few : words.length < maxArgs) :
    (execOfWords words).store words.length none none = .ok (execOfWords words) := by
  have first := set_pad_none (words.map fun word => some word.1)
  have second := set_pad_none (words.map fun word => some word.2)
  rw [List.length_map] at first second
  rw [store_execOfWords few, first, second, execOfWords]

/-! ## Agreement -/

/-- The parser returns the command of what the parser over tokens returns, or panics
when that refuses the tokens. -/
inductive Agrees {β : Type} (line : List Char) (cmdOf : β → Cmd) :
    Except Stop (Cmd × Nat) → Parsed Span β → Prop
  | ok {value : β} {s : Nat} {rest : List (Token Span)} (remaining : Remaining line s rest) :
      Agrees line cmdOf (.ok (cmdOf value, s)) (.ok (value, rest))
  | panic (message : String) :
      Agrees line cmdOf (.error (.panic message)) (.error .malformed)
  | endless : Agrees line cmdOf (.error .endless) (.error .endless)

theorem Agrees.bind {cmdOf' : γ → Cmd} {next : Cmd × Nat → Except Stop (Cmd × Nat)}
    {next' : β × List (Token Span) → Parsed Span γ} (agrees : Agrees line cmdOf result parsed)
    (later : ∀ value s rest, Remaining line s rest →
      Agrees line cmdOf' (next (cmdOf value, s)) (next' (value, rest))) :
    Agrees line cmdOf' (result.bind next) (parsed.bind next') := by
  cases agrees with
  | ok remaining => exact later _ _ _ remaining
  | panic message => exact .panic message
  | endless => exact .endless

theorem Agrees.map {cmdOf' : γ → Cmd} {wrapCmd : Cmd → Cmd} {build : β → γ}
    (agrees : Agrees line cmdOf result parsed)
    (same : ∀ value, wrapCmd (cmdOf value) = cmdOf' (build value)) :
    Agrees line cmdOf' (result.map fun parsed => (wrapCmd parsed.1, parsed.2))
      (parsed.map fun parsed => (build parsed.1, parsed.2)) := by
  cases agrees with
  | @ok value s rest remaining =>
    change Agrees line cmdOf' (.ok (wrapCmd (cmdOf value), s)) _
    rw [same]
    exact .ok remaining
  | panic message => exact .panic message
  | endless => exact .endless

theorem Agrees.relabel {cmdOf' : γ → Cmd} {build : β → γ}
    (agrees : Agrees line cmdOf result parsed)
    (same : ∀ value, cmdOf value = cmdOf' (build value)) :
    Agrees line cmdOf' result (parsed.map fun parsed => (build parsed.1, parsed.2)) := by
  cases agrees with
  | @ok value s rest remaining =>
    rw [same]
    exact .ok remaining
  | panic message => exact .panic message
  | endless => exact .endless

theorem Remaining.length_le (remaining : Remaining line s rest) : rest.length ≤ line.length := by
  have shorter := length_lex_le s (line.drop s)
  rw [remaining.lexed, List.length_drop] at shorter
  omega

/-! ## Loops -/

theorem parseback_eq (string : '\x00' ∉ line) (remaining : Remaining line s rest)
    (enough : rest.length < fuel) (cmd : Cmd) :
    ∃ s', parseback line fuel cmd s = .ok (Cmd.back^[(amps rest).1] cmd, s') ∧
      Remaining line s' (amps rest).2 := by
  obtain ⟨fuel, rfl⟩ : ∃ n, fuel = n + 1 := ⟨fuel - 1, by omega⟩
  induction rest using amps.induct generalizing s fuel cmd with
  | case1 tokens ih =>
    obtain ⟨isPeek, remaining⟩ :=
      peek_eq remaining string (by simp [symbols] : ∀ c ∈ ['&'], c ∈ symbols)
    obtain ⟨-, later, -⟩ := gettoken_cons remaining string
    obtain ⟨fuel, rfl⟩ : ∃ n, fuel = n + 1 := ⟨fuel - 1, by simp at enough; omega⟩
    obtain ⟨s', returns, last⟩ := ih later (.back cmd) fuel (Nat.lt_of_succ_lt_succ enough)
    refine ⟨s', ?_, last⟩
    rw [parseback]
    simp only [isPeek]
    exact returns
  | case2 tokens other =>
    obtain ⟨isPeek, remaining⟩ :=
      peek_eq remaining string (by simp [symbols] : ∀ c ∈ ['&'], c ∈ symbols)
    have stops : ahead ['&'] tokens = false := by
      cases tokens with
      | nil => rfl
      | cons token tokens =>
        cases token with
        | amp => exact absurd rfl (other tokens)
        | angle kind => cases kind <;> rfl
        | _ => rfl
    have isAmps : amps tokens = (0, tokens) := by
      rw [amps]
      exact other
    rw [isAmps]
    refine ⟨_, ?_, remaining⟩
    rw [parseback]
    simp only [isPeek, stops]
    rfl

theorem redircmd_eq (cmd : Cmd) (kind : Angle) (file : Span) :
    redircmd cmd (Token.angle kind).ret file.1 file.2 = wrap cmd [⟨kind, file⟩] := by
  cases kind <;> rfl

theorem parseredirs_agrees (string : '\x00' ∉ line) (remaining : Remaining line s rest)
    (enough : rest.length < fuel) (cmd : Cmd) :
    Agrees line (wrap cmd) (parseredirs line fuel cmd s) (redirs rest) := by
  obtain ⟨fuel, rfl⟩ : ∃ n, fuel = n + 1 := ⟨fuel - 1, by omega⟩
  induction rest using redirs.induct generalizing s fuel cmd with
  | case1 kind file tokens ih =>
    obtain ⟨isPeek, remaining⟩ :=
      peek_eq remaining string (by simp [symbols] : ∀ c ∈ ['<', '>'], c ∈ symbols)
    obtain ⟨isRet, later, -⟩ := gettoken_cons remaining string
    obtain ⟨isWord, last, isSpan⟩ := gettoken_cons later string
    obtain ⟨fuel, rfl⟩ : ∃ n, fuel = n + 1 := ⟨fuel - 1, by simp at enough; omega⟩
    have found : ahead ['<', '>'] (.angle kind :: .word file :: tokens) = true := by
      cases kind <;> rfl
    have isFile := isSpan file rfl
    have agrees := ih last (wrap cmd [⟨kind, file⟩]) fuel (by simp at enough; omega)
    rw [parseredirs, redirs]
    simp only [isPeek, found, isWord, isRet]
    rw [← redircmd_eq, isFile] at agrees
    refine Agrees.relabel agrees fun value => ?_
    rw [← isFile, redircmd_eq, ← wrap_append]
    rfl
  | case2 kind tokens other =>
    obtain ⟨isPeek, remaining⟩ :=
      peek_eq remaining string (by simp [symbols] : ∀ c ∈ ['<', '>'], c ∈ symbols)
    obtain ⟨-, later, -⟩ := gettoken_cons remaining string
    have found : ahead ['<', '>'] (.angle kind :: tokens) = true := by
      cases kind <;> rfl
    have notWord := gettoken_ret_ne later string other
    have refused : redirs (.angle kind :: tokens) = .error .malformed := by
      rw [redirs]
      exact other
    rw [parseredirs, refused]
    simp only [isPeek, found, bne_iff_ne, ne_eq, notWord, not_false_eq_true, if_true]
    exact .panic _
  | case3 tokens first second =>
    obtain ⟨isPeek, remaining⟩ :=
      peek_eq remaining string (by simp [symbols] : ∀ c ∈ ['<', '>'], c ∈ symbols)
    have stops : ahead ['<', '>'] tokens = false := by
      cases tokens with
      | nil => rfl
      | cons token tokens =>
        cases token with
        | angle kind => exact absurd rfl (second kind tokens)
        | _ => rfl
    have isRedirs : redirs tokens = .ok ([], tokens) := by
      rw [redirs]
      · exact first
      · exact second
    rw [parseredirs, isRedirs]
    simp only [isPeek, stops]
    have agrees : Agrees line (wrap cmd) (.ok (wrap cmd [], (peek line s ['<', '>']).2))
        (.ok ([], tokens)) := .ok remaining
    exact agrees

/-- The loop of `parseexec` goes on with the words and redirections it has found. -/
inductive ArgsAgree (line : List Char) (words : List Span) (found : List (Redir Span)) :
    Except Stop (Cmd × Nat × Nat) → Parsed Span (List (Span × List (Redir Span))) → Prop
  | ok {more : List (Span × List (Redir Span))} {s : Nat} {rest : List (Token Span)}
      (remaining : Remaining line s rest) (few : words.length + more.length < maxArgs) :
      ArgsAgree line words found
        (.ok (wrap (execOfWords (words ++ more.map Prod.fst)) (found ++ more.flatMap Prod.snd),
          words.length + more.length, s)) (.ok (more, rest))
  | panic (message : String) :
      ArgsAgree line words found (.error (.panic message)) (.error .malformed)

theorem parseargs_stops (string : '\x00' ∉ line) (remaining : Remaining line s rest)
    (stops : Follows .exec rest) (few : words.length < maxArgs) (found : List (Redir Span))
    {fuel' : Nat} :
    ArgsAgree line words found
      (parseargs line (fuel + 1) (wrap (execOfWords words) found) words.length s)
      (args (fuel' + 1) words.length rest) := by
  obtain ⟨isPeek, remaining⟩ :=
    peek_eq remaining string (by simp [symbols] : ∀ c ∈ ['|', ')', '&', ';'], c ∈ symbols)
  rw [parseargs]
  simp only [isPeek]
  have result : ∀ s', Remaining line s' rest → ArgsAgree line words found
      (.ok (wrap (execOfWords words) found, words.length, s')) (.ok ([], rest)) := by
    intro s' remaining'
    have agrees : ArgsAgree line words found _ (.ok ([], rest)) := .ok remaining' few
    simpa using agrees
  cases rest with
  | nil =>
    obtain ⟨isNul, remaining'⟩ := gettoken_nil remaining string
    simp only [isNul]
    exact result _ remaining'
  | cons token rest =>
    rcases stops with rfl | rfl | rfl | rfl
    all_goals exact result _ remaining

/-- A parenthesis or a sign among the words is an error. -/
theorem parseargs_refuses {token : Token Span} (string : '\x00' ∉ line)
    (remaining : Remaining line s (token :: rest)) (refused : token.first ∈ ['(', '<', '>'])
    (cmd : Cmd) (argc : Nat) :
    parseargs line (fuel + 1) cmd argc s = .error (.panic "syntax") := by
  obtain ⟨isPeek, remaining⟩ :=
    peek_eq remaining string (by simp [symbols] : ∀ c ∈ ['|', ')', '&', ';'], c ∈ symbols)
  obtain ⟨isRet, -, -⟩ := gettoken_cons remaining string
  rw [parseargs]
  simp only [isPeek, isRet]
  cases token with
  | left => rfl
  | angle kind => cases kind <;> rfl
  | word span => exact absurd refused (by simp [Token.first, Token.ret])
  | _ => exact absurd refused (by decide)

/-- A word is stored, and the redirections after it are read. -/
theorem parseargs_word {span : Span} (string : '\x00' ∉ line)
    (remaining : Remaining line s (.word span :: rest)) (few : words.length < maxArgs)
    (found : List (Redir Span)) :
    ∃ s', Remaining line s' rest ∧
      parseargs line (fuel + 1) (wrap (execOfWords words) found) words.length s =
        if maxArgs ≤ words.length + 1 then .error (.panic "too many args")
        else (parseredirs line (line.length + 1)
          (wrap (execOfWords (words ++ [span])) found) s').bind fun parsed =>
            parseargs line fuel parsed.1 (words.length + 1) parsed.2 := by
  obtain ⟨isPeek, remaining⟩ :=
    peek_eq remaining string (by simp [symbols] : ∀ c ∈ ['|', ')', '&', ';'], c ∈ symbols)
  obtain ⟨isRet, later, isSpan⟩ := gettoken_cons remaining string
  have stored := store_wrap (store_word few span) found
  rw [isSpan span rfl] at stored ⊢
  refine ⟨_, later, ?_⟩
  have notAhead : ahead ['|', ')', '&', ';'] (.word span :: rest) = false := rfl
  rw [parseargs]
  simp only [isPeek, notAhead, isRet, stored]
  rfl

theorem parseargs_agrees (string : '\x00' ∉ line) {fuel' : Nat}
    (remaining : Remaining line s rest) (enough : rest.length < fuel)
    (enough' : rest.length < fuel') (few : words.length < maxArgs) (found : List (Redir Span)) :
    ArgsAgree line words found
      (parseargs line fuel (wrap (execOfWords words) found) words.length s)
      (args fuel' words.length rest) := by
  induction fuel' generalizing fuel s rest words found with
  | zero => exact absurd enough' (Nat.not_lt_zero _)
  | succ fuel' ih =>
    obtain ⟨fuel, rfl⟩ : ∃ n, fuel = n + 1 := ⟨fuel - 1, by omega⟩
    cases rest with
    | nil => exact parseargs_stops string remaining trivial few found
    | cons token rest =>
      cases token with
      | left =>
        rw [parseargs_refuses string remaining (by decide)]
        exact .panic _
      | angle kind =>
        rw [parseargs_refuses string remaining (by cases kind <;> decide)]
        exact .panic _
      | bar => exact parseargs_stops string remaining (by simp [Follows]) few found
      | amp => exact parseargs_stops string remaining (by simp [Follows]) few found
      | semi => exact parseargs_stops string remaining (by simp [Follows]) few found
      | right => exact parseargs_stops string remaining (by simp [Follows]) few found
      | word span =>
        obtain ⟨s', later, isLoop⟩ := parseargs_word string remaining few found
        rw [isLoop, args]
        split
        next => exact .panic _
        next more =>
            have lineEnough : rest.length < line.length + 1 :=
              Nat.lt_succ_of_le later.length_le
            have agrees := parseredirs_agrees string later lineEnough
              (wrap (execOfWords (words ++ [span])) found)
            generalize isRedirs : redirs rest = parsed at agrees
            generalize parseredirs line (line.length + 1)
              (wrap (execOfWords (words ++ [span])) found) s' = result at agrees
            cases agrees with
            | panic message => exact .panic message
            | endless => exact absurd isRedirs (redirs_ne_endless rest)
            | @ok value s'' rest' last =>
              have shorter := redirs_length_le isRedirs
              rw [List.length_cons] at enough enough'
              have few' : (words ++ [span]).length < maxArgs := by
                grind
              have loop := ih last (by omega : rest'.length < fuel) (by omega) few'
                (found ++ value)
              rw [wrap_append, List.length_append, List.length_singleton] at loop
              dsimp only [Except.bind]
              generalize args fuel' (words.length + 1) rest' = parsed at loop
              generalize parseargs line fuel (wrap (wrap (execOfWords (words ++ [span]))
                found) value) (words.length + 1) s'' = result at loop
              cases loop with
              | panic message => exact .panic message
              | @ok more s rest remaining few =>
                rw [List.length_append, List.length_singleton] at few
                have whole : ArgsAgree line words found _
                    (.ok ((span, value) :: more, rest)) :=
                  .ok remaining (by rw [List.length_cons]; omega)
                simpa [Except.map, Nat.add_assoc, Nat.add_comm 1] using whole

theorem parsewords_agrees (string : '\x00' ∉ line) (remaining : Remaining line s rest) :
    Agrees line Derivation.cmd (parsewords line s) (wordsOf rest) := by
  have enough : rest.length < line.length + 1 := Nat.lt_succ_of_le remaining.length_le
  have agrees := parseredirs_agrees string remaining enough execcmd
  rw [parsewords, wordsOf]
  generalize isRedirs : redirs rest = parsed at agrees
  generalize parseredirs line (line.length + 1) execcmd s = result at agrees
  cases agrees with
  | panic message => exact .panic message
  | endless => exact .endless
  | @ok found s rest' remaining =>
    have shorter := redirs_length_le isRedirs
    have few : ([] : List Span).length < maxArgs := by decide
    have loop := parseargs_agrees string remaining (by omega : rest'.length < line.length + 1)
      (by omega : rest'.length < rest.length + 1) few found
    dsimp only [Except.bind]
    change ArgsAgree line [] found (parseargs line (line.length + 1) (wrap execcmd found) 0 s) _
      at loop
    generalize args (rest.length + 1) 0 rest' = parsed at loop
    generalize parseargs line (line.length + 1) (wrap execcmd found) 0 s = result at loop
    cases loop with
    | panic message => exact .panic message
    | @ok more s rest remaining few =>
      rw [List.length_nil, Nat.zero_add] at few
      have fewWords : (more.map Prod.fst).length < maxArgs := by simpa using few
      have stored := store_wrap (store_null fewWords) (found ++ more.flatMap Prod.snd)
      rw [List.length_map] at stored
      dsimp only
      rw [List.length_nil, Nat.zero_add, List.nil_append, stored, dif_pos few]
      have agrees : Agrees line Derivation.cmd
        (.ok ((Derivation.words found more few).cmd, s)) (.ok (.words found more few, rest)) :=
        .ok remaining
      exact agrees

/-! ## Commands -/

/-- Every function of the parser agrees with its counterpart. -/
structure ParserAgrees (line : List Char) (fuel : Nat) : Prop where
  isLine : ∀ s rest, Remaining line s rest →
    Agrees line Derivation.cmd (parseline line fuel s) (lineOf fuel rest)
  isPipe : ∀ s rest, Remaining line s rest →
    Agrees line Derivation.cmd (parsepipe line fuel s) (pipeOf fuel rest)
  isExec : ∀ s rest, Remaining line s rest →
    Agrees line Derivation.cmd (parseexec line fuel s) (execOf fuel rest)
  isBlock : ∀ s rest, Remaining line s (.left :: rest) →
    Agrees line Derivation.cmd (parseblock line fuel s) (blockOf fuel rest)

theorem parseline_agrees (ih : ParserAgrees line fuel) (string : '\x00' ∉ line)
    (remaining : Remaining line s rest) :
    Agrees line Derivation.cmd (parseline line (fuel + 1) s) (lineOf (fuel + 1) rest) := by
  refine (ih.isPipe s rest remaining).bind fun first s rest remaining => ?_
  obtain ⟨s', isBack, remaining⟩ := parseback_eq string remaining
    (Nat.lt_succ_of_le remaining.length_le) first.cmd
  obtain ⟨isPeek, remaining⟩ :=
    peek_eq remaining string (by simp [symbols] : ∀ c ∈ [';'], c ∈ symbols)
  rw [isBack]
  dsimp only [Except.bind]
  rw [isPeek]
  have stops : Agrees line Derivation.cmd
      (.ok (Cmd.back^[(amps rest).1] first.cmd, (peek line s' [';']).2))
      (.ok (.line first (amps rest).1, (amps rest).2)) :=
    @Agrees.ok _ _ _ (Derivation.line first (amps rest).1) _ _ remaining
  generalize isRest : (amps rest).2 = later at remaining stops
  cases later with
  | nil => exact stops
  | cons token later =>
    cases token with
    | semi =>
      obtain ⟨-, last, -⟩ := gettoken_cons remaining string
      exact (ih.isLine _ later last).map fun value => rfl
    | angle kind => cases kind <;> exact stops
    | _ => exact stops

theorem parsepipe_agrees (ih : ParserAgrees line fuel) (string : '\x00' ∉ line)
    (remaining : Remaining line s rest) :
    Agrees line Derivation.cmd (parsepipe line (fuel + 1) s) (pipeOf (fuel + 1) rest) := by
  refine (ih.isExec s rest remaining).bind fun first s rest remaining => ?_
  obtain ⟨isPeek, remaining⟩ :=
    peek_eq remaining string (by simp [symbols] : ∀ c ∈ ['|'], c ∈ symbols)
  dsimp only
  rw [isPeek]
  have stops : Agrees line Derivation.cmd (.ok (first.cmd, (peek line s ['|']).2))
      (.ok (.single first, rest)) :=
    @Agrees.ok _ _ _ (Derivation.single first) _ _ remaining
  cases rest with
  | nil => exact stops
  | cons token later =>
    cases token with
    | bar =>
      obtain ⟨-, last, -⟩ := gettoken_cons remaining string
      exact (ih.isPipe _ later last).map fun value => rfl
    | angle kind => cases kind <;> exact stops
    | _ => exact stops

theorem parseexec_agrees (ih : ParserAgrees line fuel) (string : '\x00' ∉ line)
    (remaining : Remaining line s rest) :
    Agrees line Derivation.cmd (parseexec line (fuel + 1) s) (execOf (fuel + 1) rest) := by
  obtain ⟨isPeek, remaining⟩ :=
    peek_eq remaining string (by simp [symbols] : ∀ c ∈ ['('], c ∈ symbols)
  have words := parsewords_agrees string remaining
  rw [parseexec]
  simp only [isPeek]
  cases rest with
  | nil => exact words
  | cons token later =>
    cases token with
    | left => exact ih.isBlock _ later remaining
    | angle kind => cases kind <;> exact words
    | _ => exact words

theorem parseblock_agrees (ih : ParserAgrees line fuel) (string : '\x00' ∉ line)
    (remaining : Remaining line s (.left :: rest)) :
    Agrees line Derivation.cmd (parseblock line (fuel + 1) s) (blockOf (fuel + 1) rest) := by
  obtain ⟨isPeek, remaining⟩ :=
    peek_eq remaining string (by simp [symbols] : ∀ c ∈ ['('], c ∈ symbols)
  obtain ⟨-, last, -⟩ := gettoken_cons remaining string
  rw [parseblock, blockOf]
  simp only [isPeek]
  refine (ih.isLine _ rest last).bind fun inside s rest remaining => ?_
  obtain ⟨isPeek, remaining⟩ :=
    peek_eq remaining string (by simp [symbols] : ∀ c ∈ [')'], c ∈ symbols)
  rw [isPeek]
  cases rest with
  | nil => exact .panic _
  | cons token later =>
    cases token with
    | right =>
      obtain ⟨-, last, -⟩ := gettoken_cons remaining string
      have agrees := parseredirs_agrees string last (Nat.lt_succ_of_le last.length_le)
        inside.cmd
      exact agrees.relabel fun value => rfl
    | angle kind => cases kind <;> exact .panic _
    | _ => exact .panic _

theorem parserAgrees (string : '\x00' ∉ line) (fuel : Nat) : ParserAgrees line fuel := by
  induction fuel with
  | zero => constructor <;> intro s rest remaining <;> exact .endless
  | succ fuel ih =>
    exact ⟨fun s rest => parseline_agrees ih string, fun s rest => parsepipe_agrees ih string,
      fun s rest => parseexec_agrees ih string, fun s rest => parseblock_agrees ih string⟩

end Shell

end Xv6
