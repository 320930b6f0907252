import Xv6.ShellParsing

/-!
# The commands that the shell reads

A command is read from the string as `nulterminate` leaves it: a pointer to a word
stands for the characters up to the next NUL.  The NULs are put only where words end,
so every word is read whole, and the command is that of the derivation.
-/

namespace Xv6

namespace Shell

inductive Command
  | exec (words : List (List Char))
  | redir (command : Command) (file : List Char) (mode fd : Nat)
  | pipe (left right : Command)
  | list (left right : Command)
  | back (command : Command)
  deriving DecidableEq

/-! ## Reading commands from memory -/

def cstring (buffer : List Char) (q : Nat) : List Char :=
  (buffer.drop q).takeWhile (· != '\x00')

/-- The strings of an array of pointers up to the first null pointer. -/
def readArgs (buffer : List Char) : List (Option Nat) → List (List Char)
  | some q :: argv => cstring buffer q :: readArgs buffer argv
  | _ => []

def Cmd.read (buffer : List Char) : Cmd → Command
  | .exec argv _ => .exec (readArgs buffer argv)
  | .redir cmd file _ mode fd => .redir (cmd.read buffer) (cstring buffer file) mode fd
  | .pipe left right => .pipe (left.read buffer) (right.read buffer)
  | .list left right => .list (left.read buffer) (right.read buffer)
  | .back cmd => .back (cmd.read buffer)

/-! ## The command of a derivation -/

variable {α : Type}

/-- A command with redirections, the first of them innermost. -/
def Command.redirected (text : α → List Char) (command : Command) (found : List (Redir α)) :
    Command :=
  found.foldl (fun command redir =>
    .redir command (text redir.file) redir.kind.mode redir.kind.fd) command

/-- The command that a derivation stands for: words in order, pipes and lists nested to
the right, and one `back` for every `&`. -/
def Derivation.command (text : α → List Char) :
    {symbol : Symbol} → Derivation α symbol → Command
  | _, .line first count => Command.back^[count] (first.command text)
  | _, .sequence first count rest =>
    .list (Command.back^[count] (first.command text)) (rest.command text)
  | _, .single first => first.command text
  | _, .pipe first rest => .pipe (first.command text) (rest.command text)
  | _, .block inside found => (inside.command text).redirected text found
  | _, .words found args _ =>
    Command.redirected text (.exec (args.map fun arg => text arg.1))
      (found ++ args.flatMap Prod.snd)

def text (line : List Char) (span : Span) : List Char :=
  (line.drop span.1).take (span.2 - span.1)

variable {line buffer : List Char} {s : Nat}

/-! ## Where words are -/

/-- A word is followed by the end of the string, white space or a symbol. -/
structure IsWordSpan (line : List Char) (span : Span) : Prop where
  nonempty : span.1 < span.2
  within : span.2 ≤ line.length
  inWord : ∀ i, span.1 ≤ i → i < span.2 → isWord (charAt line i)
  ends : span.2 = line.length ∨ ¬ isWord (charAt line span.2)

theorem advance_inside {test : Char → Bool} {fuel i : Nat} (above : s ≤ i)
    (below : i < advance line test fuel s) : test (charAt line i) := by
  induction fuel generalizing s with
  | zero =>
    rw [advance] at below
    omega
  | succ fuel ih =>
    grind [advance]

theorem advance_stops {test : Char → Bool} {fuel : Nat} (within : s ≤ line.length)
    (enough : line.length ≤ s + fuel) : advance line test fuel s = line.length ∨
      ¬ test (charAt line (advance line test fuel s)) := by
  induction fuel generalizing s with
  | zero =>
    rw [advance]
    omega
  | succ fuel ih =>
    rw [advance]
    split
    next holds => exact ih (by omega) (by omega)
    next fails =>
        by_cases inside : s < line.length
        · exact Or.inr fun holds => fails ⟨inside, holds⟩
        · exact Or.inl (by omega)

theorem of_cons_eq_drop {c : Char} {rest : List Char} (isChars : c :: rest = line.drop s) :
    s < line.length ∧ c = charAt line s ∧ rest = line.drop (s + 1) := by
  have inside : s < line.length := by
    by_contra beyond
    rw [List.drop_eq_nil_of_le (by omega)] at isChars
    exact List.cons_ne_nil _ _ isChars
  rw [drop_eq_cons inside] at isChars
  exact ⟨inside, List.cons.inj isChars⟩

theorem skip_isWordSpan (inside : s < line.length) (inWord : isWord (charAt line s)) :
    IsWordSpan line (s, skip line isWord s) := by
  have nonempty : s < skip line isWord s := by
    rw [skip_eq inside.le, drop_eq_cons inside, List.takeWhile_cons, if_pos inWord,
      List.length_cons]
    omega
  exact ⟨nonempty, skip_le inside.le, fun i above below => advance_inside above below,
    advance_stops inside.le (by omega)⟩

theorem isWordSpan_of_mem_lex {span : Span} {chars : List Char} (within : s ≤ line.length)
    (isChars : chars = line.drop s) (member : Token.word span ∈ lex s chars) :
    IsWordSpan line span := by
  induction s, chars using lex.induct with
  | case1 s => exact absurd member (by simp [lex_nil])
  | case2 s c rest white ih =>
    obtain ⟨inside, -, isRest⟩ := of_cons_eq_drop isChars
    rw [lex_white white] at member
    exact ih inside isRest member
  | case3 s rest double white ih =>
    obtain ⟨inside, -, isRest⟩ := of_cons_eq_drop isChars
    cases rest with
    | nil => exact absurd double (by simp)
    | cons c rest =>
      obtain rfl : c = '>' := by simpa using double
      obtain ⟨inside', -, isRest'⟩ := of_cons_eq_drop isRest
      rw [lex_append, List.mem_cons] at member
      exact ih inside' isRest' (member.resolve_left (by simp))
  | case4 s rest single white ih =>
    obtain ⟨inside, -, isRest⟩ := of_cons_eq_drop isChars
    rw [lex_output s single, List.mem_cons] at member
    exact ih inside isRest (member.resolve_left (by simp))
  | case5 s c rest white other token isSymbol ih =>
    obtain ⟨inside, -, isRest⟩ := of_cons_eq_drop isChars
    rw [lex_symbol isSymbol white other, List.mem_cons] at member
    refine ih inside isRest (member.resolve_left ?_)
    rintro rfl
    unfold symbolToken at isSymbol
    split_ifs at isSymbol <;> cases isSymbol
  | case6 s c rest white other noSymbol ih =>
    obtain ⟨inside, rfl, isRest⟩ := of_cons_eq_drop isChars
    have inWord := (isWord_iff _).mpr ⟨white, other, noSymbol⟩
    have isSkip : s + 1 + (rest.takeWhile isWord).length = skip line isWord s := by
      rw [skip_eq inside.le, ← isChars, List.takeWhile_cons, if_pos inWord, List.length_cons]
      omega
    have isLater : rest.dropWhile isWord = line.drop (skip line isWord s) := by
      rw [drop_skip inside.le, ← isChars, List.dropWhile_cons, if_pos inWord]
    rw [lex, if_neg white, if_neg other] at member
    simp only [noSymbol] at member
    rw [isSkip] at member ih
    rcases List.mem_cons.mp member with first | later
    · cases first
      exact skip_isWordSpan inside inWord
    · exact ih (skip_le inside.le) isLater later

/-! ## The NULs -/

def putNuls (ends : List Nat) (buffer : List Char) : List Char :=
  ends.foldl (fun buffer e => buffer.set e '\x00') buffer

theorem getElem?_putNuls_of_notMem {ends : List Nat} {i : Nat} (other : i ∉ ends)
    (buffer : List Char) : (putNuls ends buffer)[i]? = buffer[i]? := by
  induction ends generalizing buffer with
  | nil => rfl
  | cons e ends ih =>
    rw [List.mem_cons, not_or] at other
    change (putNuls ends (buffer.set e '\x00'))[i]? = _
    rw [ih other.2, List.getElem?_set_ne (Ne.symm other.1)]

theorem getElem?_putNuls_of_mem {ends : List Nat} {i : Nat} (member : i ∈ ends)
    (inside : i < buffer.length) : (putNuls ends buffer)[i]? = some '\x00' := by
  induction ends generalizing buffer with
  | nil => exact absurd member List.not_mem_nil
  | cons e ends ih =>
    change (putNuls ends (buffer.set e '\x00'))[i]? = _
    by_cases later : i ∈ ends
    · exact ih later (by rwa [List.length_set])
    · grind [getElem?_putNuls_of_notMem, List.getElem?_set_self]

theorem putNuls_append (first second : List Nat) (buffer : List Char) :
    putNuls (first ++ second) buffer = putNuls second (putNuls first buffer) :=
  List.foldl_append

/-- Where `nulterminate` puts NULs. -/
def Derivation.ends : {symbol : Symbol} → Derivation Span symbol → List Nat
  | _, .line first _ => first.ends
  | _, .sequence first _ rest => first.ends ++ rest.ends
  | _, .single first => first.ends
  | _, .pipe first rest => first.ends ++ rest.ends
  | _, .block inside found => inside.ends ++ found.map fun redir => redir.file.2
  | _, .words found args _ =>
    args.map (fun arg => arg.1.2) ++
      (found ++ args.flatMap Prod.snd).map fun redir => redir.file.2

theorem nulterminate_wrap (cmd : Cmd) (found : List (Redir Span)) (buffer : List Char) :
    nulterminate (wrap cmd found) buffer =
      putNuls (found.map fun redir => redir.file.2) (nulterminate cmd buffer) := by
  induction found generalizing cmd with
  | nil => rfl
  | cons redir found ih => exact ih _

theorem nulterminate_back (cmd : Cmd) (count : Nat) (buffer : List Char) :
    nulterminate (Cmd.back^[count] cmd) buffer = nulterminate cmd buffer := by
  induction count with
  | zero => rfl
  | succ count ih =>
    rw [Function.iterate_succ_apply']
    exact ih

theorem terminateArgs_append (words : List Span) (count : Nat) (more : List (Option Nat))
    (buffer : List Char) :
    terminateArgs (words.map (fun word => some word.1) ++ List.replicate count none)
      (words.map (fun word => some word.2) ++ more) buffer =
        putNuls (words.map Prod.snd) buffer := by
  induction words generalizing buffer with
  | nil => cases count <;> rfl
  | cons word words ih => exact ih _

theorem nulterminate_cmd {symbol : Symbol} (derivation : Derivation Span symbol)
    (buffer : List Char) :
    nulterminate derivation.cmd buffer = putNuls derivation.ends buffer := by
  induction derivation generalizing buffer with
  | line first count ih =>
    rw [Derivation.cmd, nulterminate_back, ih]
    rfl
  | sequence first count rest ih ihRest =>
    rw [Derivation.cmd, nulterminate, nulterminate_back, ih, ihRest, Derivation.ends,
      putNuls_append]
  | single first ih => exact ih buffer
  | pipe first rest ih ihRest =>
    rw [Derivation.cmd, nulterminate, ih, ihRest, Derivation.ends, putNuls_append]
  | block inside found ih =>
    rw [Derivation.cmd, nulterminate_wrap, ih, Derivation.ends, putNuls_append]
  | words found args few =>
    rw [Derivation.cmd, nulterminate_wrap, Derivation.ends, putNuls_append]
    congr 1
    rw [execOfWords, nulterminate, pad, pad, terminateArgs_append, List.map_map]
    rfl

def Token.words : Token α → List α
  | .word text => [text]
  | _ => []

theorem redirsYield_words (found : List (Redir α)) :
    (redirsYield found).flatMap Token.words = found.map Redir.file := by
  induction found with
  | nil => rfl
  | cons redir found ih =>
    have shape : redirsYield (redir :: found) =
        .angle redir.kind :: .word redir.file :: redirsYield found := rfl
    rw [shape, List.flatMap_cons, List.flatMap_cons, ih]
    rfl

theorem argsYield_words (args : List (α × List (Redir α))) :
    (argsYield args).flatMap Token.words =
      args.flatMap fun arg => arg.1 :: arg.2.map Redir.file := by
  induction args with
  | nil => rfl
  | cons arg args ih =>
    have shape : argsYield (arg :: args) =
        .word arg.1 :: (redirsYield arg.2 ++ argsYield args) := rfl
    rw [shape, List.flatMap_cons, List.flatMap_append, ih, redirsYield_words]
    rfl

def Derivation.spans {symbol : Symbol} (derivation : Derivation α symbol) : List α :=
  derivation.yield.flatMap Token.words

theorem replicate_amp_words (count : Nat) :
    (List.replicate count (Token.amp : Token α)).flatMap Token.words = [] := by
  simp [Token.words]

theorem spans_line (first : Derivation α .pipe) (count : Nat) :
    (Derivation.line first count).spans = first.spans := by
  rw [Derivation.spans, Derivation.yield, List.flatMap_append, replicate_amp_words,
    List.append_nil, Derivation.spans]

theorem spans_sequence (first : Derivation α .pipe) (count : Nat) (rest : Derivation α .line) :
    (Derivation.sequence first count rest).spans = first.spans ++ rest.spans := by
  rw [Derivation.spans, Derivation.yield, List.flatMap_append, List.flatMap_append,
    replicate_amp_words]
  rfl

theorem spans_pipe (first : Derivation α .exec) (rest : Derivation α .pipe) :
    (Derivation.pipe first rest).spans = first.spans ++ rest.spans := by
  rw [Derivation.spans, Derivation.yield, List.flatMap_append]
  rfl

theorem spans_block (inside : Derivation α .line) (found : List (Redir α)) :
    (Derivation.block inside found).spans = inside.spans ++ found.map Redir.file := by
  rw [Derivation.spans, Derivation.yield, List.flatMap_cons, List.flatMap_append,
    List.flatMap_cons, redirsYield_words]
  rfl

theorem mem_spans_words (found : List (Redir α)) (args : List (α × List (Redir α)))
    (few : args.length < maxArgs) (span : α) : span ∈ (Derivation.words found args few).spans ↔
      span ∈ args.map Prod.fst ++ (found ++ args.flatMap Prod.snd).map Redir.file := by
  rw [Derivation.spans, Derivation.yield, List.flatMap_append, redirsYield_words,
    argsYield_words]
  simp only [List.mem_append, List.mem_map, List.mem_flatMap, List.mem_cons]
  constructor
  · grind
  · rintro (⟨arg, member, isSpan⟩ | ⟨redir, member | ⟨arg, member, memRedir⟩, isSpan⟩)
    · exact Or.inr ⟨arg, member, Or.inl isSpan.symm⟩
    · exact Or.inl ⟨redir, member, isSpan⟩
    · exact Or.inr ⟨arg, member, Or.inr ⟨redir, memRedir, isSpan⟩⟩

theorem mem_ends_iff {symbol : Symbol} (derivation : Derivation Span symbol) (e : Nat) :
    e ∈ derivation.ends ↔ ∃ span ∈ derivation.spans, span.2 = e := by
  induction derivation with
  | line first count ih => rwa [spans_line]
  | sequence first count rest ih ihRest =>
    rw [Derivation.ends, List.mem_append, ih, ihRest, spans_sequence]
    simp only [List.mem_append, or_and_right, exists_or]
  | single first ih => exact ih
  | pipe first rest ih ihRest =>
    rw [Derivation.ends, List.mem_append, ih, ihRest, spans_pipe]
    simp only [List.mem_append, or_and_right, exists_or]
  | block inside found ih =>
    rw [Derivation.ends, List.mem_append, ih, spans_block]
    simp [or_and_right, exists_or]
  | words found args few =>
    simp only [Derivation.ends, mem_spans_words]
    simp [or_and_right, exists_or]

/-! ## Reading the command back -/

theorem read_wrap {buffer : List Char} {text : Span → List Char} (cmd : Cmd)
    (found : List (Redir Span))
    (isText : ∀ span ∈ found.map Redir.file, cstring buffer span.1 = text span) :
    (wrap cmd found).read buffer = (cmd.read buffer).redirected text found := by
  induction found generalizing cmd with
  | nil => rfl
  | cons redir found ih =>
    rw [List.map_cons, List.forall_mem_cons] at isText
    have later := ih (.redir cmd redir.file.1 redir.file.2 redir.kind.mode redir.kind.fd)
      isText.2
    rw [Cmd.read, isText.1] at later
    exact later

theorem read_back {buffer : List Char} (cmd : Cmd) (count : Nat) :
    (Cmd.back^[count] cmd).read buffer = Command.back^[count] (cmd.read buffer) := by
  induction count with
  | zero => rfl
  | succ count ih =>
    rw [Function.iterate_succ_apply', Function.iterate_succ_apply', Cmd.read, ih]

theorem readArgs_append {buffer : List Char} {text : Span → List Char} (words : List Span)
    (count : Nat) (isText : ∀ span ∈ words, cstring buffer span.1 = text span) :
    readArgs buffer (words.map (fun word => some word.1) ++ List.replicate count none) =
      words.map text := by
  induction words with
  | nil => cases count <;> rfl
  | cons word words ih =>
    rw [List.forall_mem_cons] at isText
    rw [List.map_cons, List.cons_append, readArgs, isText.1, ih isText.2, List.map_cons]

theorem read_cmd {symbol : Symbol} {buffer : List Char} {text : Span → List Char}
    (derivation : Derivation Span symbol)
    (isText : ∀ span ∈ derivation.spans, cstring buffer span.1 = text span) :
    derivation.cmd.read buffer = derivation.command text := by
  induction derivation with
  | line first count ih =>
    rw [spans_line] at isText
    rw [Derivation.cmd, read_back, ih isText, Derivation.command]
  | sequence first count rest ih ihRest =>
    rw [spans_sequence, List.forall_mem_append] at isText
    rw [Derivation.cmd, Cmd.read, read_back, ih isText.1, ihRest isText.2, Derivation.command]
  | single first ih => exact ih isText
  | pipe first rest ih ihRest =>
    rw [spans_pipe, List.forall_mem_append] at isText
    rw [Derivation.cmd, Cmd.read, ih isText.1, ihRest isText.2, Derivation.command]
  | block inside found ih =>
    rw [spans_block, List.forall_mem_append] at isText
    rw [Derivation.cmd, read_wrap _ _ isText.2, ih isText.1, Derivation.command]
  | words found args few =>
    have inWords : ∀ span ∈ args.map Prod.fst, cstring buffer span.1 = text span :=
      fun span member => isText span
        ((mem_spans_words found args few span).mpr (List.mem_append_left _ member))
    have inRedirs : ∀ span ∈ (found ++ args.flatMap Prod.snd).map Redir.file,
        cstring buffer span.1 = text span :=
      fun span member => isText span
        ((mem_spans_words found args few span).mpr (List.mem_append_right _ member))
    rw [Derivation.cmd, read_wrap _ _ inRedirs, execOfWords, Cmd.read, pad,
      readArgs_append _ _ inWords, List.map_map, Derivation.command]
    rfl

theorem cstring_putNuls (string : '\x00' ∉ line) {ends : List Nat} {span : Span}
    (isSpan : IsWordSpan line span) (member : span.2 ∈ ends)
    (areEnds : ∀ e ∈ ends, e = line.length ∨ ¬ isWord (charAt line e)) :
    cstring (putNuls ends (line ++ ['\x00'])) span.1 = text line span := by
  have within := isSpan.within
  have nonempty := isSpan.nonempty
  have same : ∀ i, span.1 ≤ i → i < span.2 →
      (putNuls ends (line ++ ['\x00']))[i]? = (line)[i]? := by
    intro i above below
    rw [getElem?_putNuls_of_notMem, List.getElem?_append_left (by omega)]
    intro isEnd
    rcases areEnds i isEnd with atEnd | notWord
    · omega
    · exact notWord (isSpan.inWord i above below)
  have nul : (putNuls ends (line ++ ['\x00']))[span.2]? = some '\x00' := by
    refine getElem?_putNuls_of_mem member ?_
    rw [List.length_append, List.length_singleton]
    omega
  generalize putNuls ends (line ++ ['\x00']) = buffer at same nul
  have front : (buffer.drop span.1).take (span.2 - span.1) = text line span := by
    refine List.ext_getElem? fun i => ?_
    rw [text, List.getElem?_take, List.getElem?_take, List.getElem?_drop, List.getElem?_drop]
    split
    · exact same _ (by omega) (by omega)
    · rfl
  have back : (buffer.drop span.1).drop (span.2 - span.1) =
      '\x00' :: buffer.drop (span.2 + 1) := by
    obtain ⟨inside, isNul⟩ := List.getElem?_eq_some_iff.mp nul
    rw [List.drop_drop, Nat.add_sub_cancel' nonempty.le, List.drop_eq_getElem_cons inside, isNul]
  rw [cstring, ← List.take_append_drop (span.2 - span.1) (buffer.drop span.1), front, back,
    List.takeWhile_append_of_pos]
  · simp
  · intro c isChar
    have inLine : c ∈ line := List.mem_of_mem_drop (List.mem_of_mem_take isChar)
    rw [bne_iff_ne]
    rintro rfl
    exact string inLine

/-- `parsecmd` returns the command of the derivation of the tokens, if there is one, and
otherwise calls `panic`. -/
theorem parsecmd_eq_of_yield (string : '\x00' ∉ line) (derivation : Derivation Span .line)
    (isYield : derivation.yield = tokens line) :
    parsecmd line = .ok (derivation.cmd, nulterminate derivation.cmd (line ++ ['\x00'])) := by
  have start : Remaining line 0 (tokens line) := ⟨Nat.zero_le _, rfl⟩
  have enough : 4 * derivation.yield.length + Symbol.line.rounds ≤ 4 * line.length + 4 := by
    have := start.length_le
    rw [isYield, Symbol.rounds]
    omega
  have parsed := parserOf_yield derivation [] trivial enough
  rw [List.append_nil, isYield] at parsed
  have agrees := (parserAgrees string (4 * line.length + 4)).isLine 0 _ start
  change lineOf _ _ = _ at parsed
  rw [parsed] at agrees
  generalize isResult : parseline line (4 * line.length + 4) 0 = result at agrees
  cases agrees with
  | @ok _ s _ remaining =>
    have atEnd := (remaining.eq_nil_iff string).mp rfl
    rw [parsecmd, isResult]
    simp [Except.bind, peek, atEnd]

theorem isWordSpan_of_yield {derivation : Derivation Span .line}
    (isYield : derivation.yield = tokens line) {span : Span} (member : span ∈ derivation.spans) :
    .word span ∈ tokens line ∧ IsWordSpan line span := by
  rw [Derivation.spans, isYield, List.mem_flatMap] at member
  obtain ⟨token, memToken, isWord⟩ := member
  cases token with
  | word other =>
    obtain rfl : span = other := by simpa [Token.words] using isWord
    exact ⟨memToken, isWordSpan_of_mem_lex (Nat.zero_le _) rfl memToken⟩
  | _ => exact absurd isWord (by simp [Token.words])

/-- The words of a derivation are read whole after the NULs are written. -/
theorem cstring_of_yield (string : '\x00' ∉ line) {derivation : Derivation Span .line}
    (isYield : derivation.yield = tokens line) {span : Span} (member : span ∈ derivation.spans) :
    cstring (nulterminate derivation.cmd (line ++ ['\x00'])) span.1 = text line span := by
  rw [nulterminate_cmd]
  refine cstring_putNuls string (isWordSpan_of_yield isYield member).2
    ((mem_ends_iff derivation _).mpr ⟨span, member, rfl⟩) fun e isEnd => ?_
  obtain ⟨other, memOther, rfl⟩ := (mem_ends_iff derivation e).mp isEnd
  exact (isWordSpan_of_yield isYield memOther).2.ends

theorem parsecmd_of_yield (string : '\x00' ∉ line) (derivation : Derivation Span .line)
    (isYield : derivation.yield = tokens line) :
    ∃ cmd buffer, parsecmd line = .ok (cmd, buffer) ∧
      cmd.read buffer = derivation.command (text line) :=
  ⟨derivation.cmd, _, parsecmd_eq_of_yield string derivation isYield,
    read_cmd derivation fun _ member => cstring_of_yield string isYield member⟩

theorem parsecmd_of_no_yield (string : '\x00' ∉ line)
    (none : ∀ derivation : Derivation Span .line, derivation.yield ≠ tokens line) :
    ∃ message, parsecmd line = .error (.panic message) := by
  have start : Remaining line 0 (tokens line) := ⟨Nat.zero_le _, rfl⟩
  have enough : 4 * (tokens line).length + 4 ≤ 4 * line.length + 4 := by
    have := start.length_le
    omega
  have agrees := (parserAgrees string (4 * line.length + 4)).isLine 0 _ start
  rcases (parserReads (4 * line.length + 4)).line (tokens line) enough with
    refused | ⟨derivation, rest, isOk, split⟩
  · rw [refused] at agrees
    generalize isResult : parseline line (4 * line.length + 4) 0 = result at agrees
    cases agrees with
    | panic message =>
      refine ⟨message, ?_⟩
      rw [parsecmd, isResult]
      rfl
  · rw [isOk] at agrees
    generalize isResult : parseline line (4 * line.length + 4) 0 = result at agrees
    cases agrees with
    | @ok _ s _ remaining =>
      -- Something is left over, for the tokens are not those of the derivation.
      have leftover : rest ≠ [] := by
        grind
      have notEnd := (remaining.eq_nil_iff string).not.mp leftover
      refine ⟨"syntax", ?_⟩
      rw [parsecmd, isResult]
      simp [Except.bind, peek, notEnd]

/-- The parser accepts the strings whose tokens are derived from the grammar, and returns
the command of their derivation, which is unique.  It panics on all other strings. -/
theorem parsecmd_exact (line : List Char) (string : '\x00' ∉ line) :
    ((∃ derivation : Derivation Span .line, derivation.yield = tokens line) ↔
      ∃ cmd buffer, parsecmd line = .ok (cmd, buffer)) ∧
    (∀ derivation : Derivation Span .line, derivation.yield = tokens line →
      (∀ other : Derivation Span .line, other.yield = tokens line → other = derivation) ∧
      ∃ cmd buffer, parsecmd line = .ok (cmd, buffer) ∧
        cmd.read buffer = derivation.command (text line)) ∧
    ((∀ derivation : Derivation Span .line, derivation.yield ≠ tokens line) →
      ∃ message, parsecmd line = .error (.panic message)) := by
  refine ⟨⟨?_, ?_⟩, ?_, parsecmd_of_no_yield string⟩
  · rintro ⟨derivation, isYield⟩
    obtain ⟨cmd, buffer, returns, -⟩ := parsecmd_of_yield string derivation isYield
    exact ⟨cmd, buffer, returns⟩
  · rintro ⟨cmd, buffer, returns⟩
    by_contra noDerivation
    obtain ⟨message, panics⟩ := parsecmd_of_no_yield string
      fun derivation isYield => noDerivation ⟨derivation, isYield⟩
    rw [returns] at panics
    exact nomatch panics
  · intro derivation isYield
    refine ⟨fun other isOther => yield_injective (isOther.trans isYield.symm), ?_⟩
    exact parsecmd_of_yield string derivation isYield

/-- `ls > y; cat < y|sort &` -/
def listing : List Char :=
  ['l', 's', ' ', '>', ' ', 'y', ';', ' ', 'c', 'a', 't', ' ', '<', ' ', 'y', '|', 's', 'o', 'r',
    't', ' ', '&', '\n']

theorem parsecmd_exact_listing :
    (parsecmd listing).toOption.map (fun result => result.1.read result.2) =
      some (.list (.redir (.exec [['l', 's']]) ['y'] 0x201 1)
        (.back (.pipe (.redir (.exec [['c', 'a', 't']]) ['y'] 0 0)
          (.exec [['s', 'o', 'r', 't']])))) ∧
    ∃ derivation : Derivation Span .line, derivation.yield = tokens listing := by
  have returns : (parsecmd listing).toOption.map (fun result => result.1.read result.2) =
      some (.list (.redir (.exec [['l', 's']]) ['y'] 0x201 1)
        (.back (.pipe (.redir (.exec [['c', 'a', 't']]) ['y'] 0 0)
          (.exec [['s', 'o', 'r', 't']])))) := by
    decide +kernel
  refine ⟨returns, (parsecmd_exact listing (by decide)).1.mpr ?_⟩
  cases isResult : parsecmd listing with
  | ok result => exact ⟨result.1, result.2, rfl⟩
  | error stop =>
    rw [isResult] at returns
    exact nomatch returns

end Shell

end Xv6
