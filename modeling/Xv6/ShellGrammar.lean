import Mathlib.Data.List.Basic

/-!
# The grammar of command lines

A line is a pipe, any number of `&`, and perhaps `;` and another line.  A pipe is a
command, and perhaps `|` and another pipe.  A command is a line in parentheses with
redirections after it, or words and redirections.

Derivations are trees.  A parser over tokens, which looks one token ahead, finds the
derivation of every sequence of tokens that has one, so derivations are unique.
-/

namespace Xv6

namespace Shell

variable {α : Type}

abbrev maxArgs : Nat := 10

/-- The signs `<`, `>` and `>>`. -/
inductive Angle
  | input | output | append
  deriving DecidableEq

inductive Token (α : Type)
  | word (text : α)
  | angle (kind : Angle)
  | bar | amp | semi | left | right

structure Redir (α : Type) where
  kind : Angle
  file : α

inductive Symbol
  | line | pipe | exec

inductive Derivation (α : Type) : Symbol → Type
  | line (pipe : Derivation α .pipe) (amps : Nat) : Derivation α .line
  | sequence (pipe : Derivation α .pipe) (amps : Nat) (rest : Derivation α .line) :
      Derivation α .line
  | single (exec : Derivation α .exec) : Derivation α .pipe
  | pipe (exec : Derivation α .exec) (rest : Derivation α .pipe) : Derivation α .pipe
  | block (inside : Derivation α .line) (redirs : List (Redir α)) : Derivation α .exec
  | words (redirs : List (Redir α)) (args : List (α × List (Redir α)))
      (few : args.length < maxArgs) : Derivation α .exec

/-! ## The tokens of a derivation -/

def Redir.yield (redir : Redir α) : List (Token α) :=
  [.angle redir.kind, .word redir.file]

def redirsYield (redirs : List (Redir α)) : List (Token α) :=
  redirs.flatMap Redir.yield

def argsYield (args : List (α × List (Redir α))) : List (Token α) :=
  args.flatMap fun arg => .word arg.1 :: redirsYield arg.2

def Derivation.yield : {symbol : Symbol} → Derivation α symbol → List (Token α)
  | _, .line first count => first.yield ++ List.replicate count .amp
  | _, .sequence first count rest =>
    first.yield ++ (List.replicate count .amp ++ .semi :: rest.yield)
  | _, .single first => first.yield
  | _, .pipe first rest => first.yield ++ .bar :: rest.yield
  | _, .block inside redirs => .left :: (inside.yield ++ .right :: redirsYield redirs)
  | _, .words redirs args _ => redirsYield redirs ++ argsYield args

/-! ## The parser over tokens -/

/-- The tokens do not start with a derivation, or the rounds were not enough. -/
inductive Fault
  | malformed | endless

abbrev Parsed (α β : Type) : Type :=
  Except Fault (β × List (Token α))

/-- The number of `&` at the start. -/
def amps : List (Token α) → Nat × List (Token α)
  | .amp :: tokens => ((amps tokens).1 + 1, (amps tokens).2)
  | tokens => (0, tokens)

def redirs : List (Token α) → Parsed α (List (Redir α))
  | .angle kind :: .word file :: tokens =>
    (redirs tokens).map fun rest => (⟨kind, file⟩ :: rest.1, rest.2)
  | .angle _ :: _ => .error .malformed
  | tokens => .ok ([], tokens)

/-- The words with their redirections at the start, when there have been some. -/
def args : Nat → Nat → List (Token α) → Parsed α (List (α × List (Redir α)))
  | 0, _, _ => .error .endless
  | fuel + 1, argc, .word text :: tokens =>
    if maxArgs ≤ argc + 1 then .error .malformed
    else
      (redirs tokens).bind fun parsed =>
        (args fuel (argc + 1) parsed.2).map fun rest => ((text, parsed.1) :: rest.1, rest.2)
  | _ + 1, _, .left :: _ => .error .malformed
  | _ + 1, _, .angle _ :: _ => .error .malformed
  | _ + 1, _, tokens => .ok ([], tokens)

def wordsOf (tokens : List (Token α)) : Parsed α (Derivation α .exec) :=
  (redirs tokens).bind fun first =>
    (args (tokens.length + 1) 0 first.2).bind fun rest =>
      if few : rest.1.length < maxArgs then .ok (.words first.1 rest.1 few, rest.2)
      else .error .malformed

mutual

def lineOf : Nat → List (Token α) → Parsed α (Derivation α .line)
  | 0, _ => .error .endless
  | fuel + 1, tokens =>
    (pipeOf fuel tokens).bind fun parsed =>
      match (amps parsed.2).2 with
      | .semi :: tokens =>
        (lineOf fuel tokens).map fun rest =>
          (.sequence parsed.1 (amps parsed.2).1 rest.1, rest.2)
      | tokens => .ok (.line parsed.1 (amps parsed.2).1, tokens)
termination_by structural fuel _ => fuel

def pipeOf : Nat → List (Token α) → Parsed α (Derivation α .pipe)
  | 0, _ => .error .endless
  | fuel + 1, tokens =>
    (execOf fuel tokens).bind fun parsed =>
      match parsed.2 with
      | .bar :: tokens =>
        (pipeOf fuel tokens).map fun rest => (.pipe parsed.1 rest.1, rest.2)
      | tokens => .ok (.single parsed.1, tokens)
termination_by structural fuel _ => fuel

def execOf : Nat → List (Token α) → Parsed α (Derivation α .exec)
  | 0, _ => .error .endless
  | fuel + 1, .left :: tokens => blockOf fuel tokens
  | _ + 1, tokens => wordsOf tokens
termination_by structural fuel _ => fuel

/-- What follows a left parenthesis. -/
def blockOf : Nat → List (Token α) → Parsed α (Derivation α .exec)
  | 0, _ => .error .endless
  | fuel + 1, tokens =>
    (lineOf fuel tokens).bind fun inside =>
      match inside.2 with
      | .right :: tokens =>
        (redirs tokens).map fun parsed => (.block inside.1 parsed.1, parsed.2)
      | _ => .error .malformed
termination_by structural fuel _ => fuel

end

/-! ## Soundness -/

/-- The parser refuses the tokens, or splits them into those of what it returns and the
rest. -/
def Reads {β : Type} (yield : β → List (Token α)) (tokens : List (Token α))
    (result : Parsed α β) : Prop :=
  result = .error .malformed ∨ ∃ value rest, result = .ok (value, rest) ∧
    tokens = yield value ++ rest

variable {tokens rest : List (Token α)} {fuel : Nat}

variable {β : Type} {found : List (Redir α)}

theorem Reads.malformed {yield : β → List (Token α)} : Reads yield tokens (.error .malformed) :=
  Or.inl rfl

theorem Reads.ok {yield : β → List (Token α)} {value : β} (split : tokens = yield value ++ rest) :
    Reads yield tokens (.ok (value, rest)) :=
  Or.inr ⟨value, rest, rfl, split⟩

/-- A parser goes on after what another one has read. -/
theorem Reads.bind {γ : Type} {first : β → List (Token α)} {yield : γ → List (Token α)}
    {result : Parsed α β} {next : β × List (Token α) → Parsed α γ}
    (reads : Reads first tokens result)
    (later : ∀ value rest, tokens = first value ++ rest → Reads yield tokens (next (value, rest))) :
    Reads yield tokens (result.bind next) := by
  rcases reads with refused | ⟨value, rest, isOk, split⟩
  · rw [refused]
    exact Reads.malformed
  · rw [isOk]
    exact later value rest split

/-- What a parser returns becomes part of something longer. -/
theorem Reads.map {γ : Type} {first : β → List (Token α)} {yield : γ → List (Token α)}
    {whole : List (Token α)} {result : Parsed α β} {build : β → γ}
    (reads : Reads first tokens result)
    (later : ∀ value rest, tokens = first value ++ rest → whole = yield (build value) ++ rest) :
    Reads yield whole (result.map fun parsed => (build parsed.1, parsed.2)) := by
  rcases reads with refused | ⟨value, rest, isOk, split⟩
  · rw [refused]
    exact Reads.malformed
  · rw [isOk]
    exact Reads.ok (later value rest split)

theorem amps_eq (tokens : List (Token α)) :
    tokens = List.replicate (amps tokens).1 .amp ++ (amps tokens).2 := by
  induction tokens using amps.induct with
  | case1 tokens ih => rw [amps, List.replicate_succ, List.cons_append, ← ih]
  | case2 tokens other =>
    rw [amps]
    · rfl
    · exact other

theorem redirs_reads (tokens : List (Token α)) : Reads redirsYield tokens (redirs tokens) := by
  induction tokens using redirs.induct with
  | case1 kind file tokens ih =>
    refine ih.map fun value rest split => ?_
    rw [split]
    rfl
  | case2 kind tokens other =>
    rw [redirs]
    · exact Reads.malformed
    · exact other
  | case3 tokens first second =>
    rw [redirs]
    · exact Reads.ok rfl
    · exact first
    · exact second

theorem redirs_ne_endless (tokens : List (Token α)) : redirs tokens ≠ .error .endless := by
  rcases redirs_reads tokens with refused | ⟨value, rest, isOk, -⟩
  · grind
  · rw [isOk]
    exact fun same => nomatch same

theorem redirs_length_le (isOk : redirs tokens = .ok (found, rest)) :
    rest.length ≤ tokens.length := by
  rcases redirs_reads tokens with refused | ⟨value, rest', isOk', split⟩
  · rw [refused] at isOk
    exact nomatch isOk
  · grind

theorem args_reads (fuel argc : Nat) (tokens : List (Token α)) (enough : tokens.length < fuel) :
    Reads argsYield tokens (args fuel argc tokens) := by
  induction fuel generalizing argc tokens with
  | zero => exact absurd enough (Nat.not_lt_zero _)
  | succ fuel ih =>
    cases tokens with
    | nil => exact Reads.ok rfl
    | cons token tokens =>
      cases token with
      | word text =>
        rw [args]
        split
        · exact Reads.malformed
        · rcases redirs_reads tokens with refused | ⟨found, rest, isOk, split⟩
          · rw [refused]
            exact Reads.malformed
          · rw [isOk]
            have shorter : rest.length < fuel := by
              grind
            refine (ih (argc + 1) rest shorter).map fun value later split' => ?_
            rw [split, split']
            simp [argsYield]
      | left => exact Reads.malformed
      | angle kind => exact Reads.malformed
      | bar => exact Reads.ok rfl
      | amp => exact Reads.ok rfl
      | semi => exact Reads.ok rfl
      | right => exact Reads.ok rfl

theorem wordsOf_reads (tokens : List (Token α)) :
    Reads Derivation.yield tokens (wordsOf tokens) := by
  refine (redirs_reads tokens).bind fun first rest split => ?_
  have shorter : rest.length < tokens.length + 1 := by
    rw [split, List.length_append]
    omega
  rcases args_reads (tokens.length + 1) 0 rest shorter with refused | ⟨found, last, isOk, split'⟩
  · rw [refused]
    exact Reads.malformed
  · grind [Except.bind, Derivation.yield, List.append_assoc, Reads.ok, Reads.malformed]

/-- Enough rounds for every part of the parser. -/
structure ParserReads (α : Type) (fuel : Nat) : Prop where
  line : ∀ tokens : List (Token α), 4 * tokens.length + 4 ≤ fuel →
    Reads Derivation.yield tokens (lineOf fuel tokens)
  pipe : ∀ tokens : List (Token α), 4 * tokens.length + 3 ≤ fuel →
    Reads Derivation.yield tokens (pipeOf fuel tokens)
  exec : ∀ tokens : List (Token α), 4 * tokens.length + 2 ≤ fuel →
    Reads Derivation.yield tokens (execOf fuel tokens)
  block : ∀ tokens : List (Token α), 4 * tokens.length + 5 ≤ fuel →
    Reads Derivation.yield (.left :: tokens) (blockOf fuel tokens)

theorem lineOf_reads (ih : ParserReads α fuel) (tokens : List (Token α))
    (enough : 4 * tokens.length + 4 ≤ fuel + 1) :
    Reads Derivation.yield tokens (lineOf (fuel + 1) tokens) := by
  refine (ih.pipe tokens (by omega)).bind fun first rest split => ?_
  have isAmps := amps_eq rest
  split
  next later isSemi =>
      rw [isSemi] at isAmps
      have shorter : 4 * later.length + 4 ≤ fuel := by
        grind
      refine (ih.line later shorter).map fun last rest' split' => ?_
      rw [split'] at isAmps
      rw [split, Derivation.yield, List.append_assoc, List.append_assoc, List.cons_append,
        ← isAmps]
  next =>
      refine Reads.ok ?_
      rw [split, Derivation.yield, List.append_assoc, ← isAmps]

theorem pipeOf_reads (ih : ParserReads α fuel) (tokens : List (Token α))
    (enough : 4 * tokens.length + 3 ≤ fuel + 1) :
    Reads Derivation.yield tokens (pipeOf (fuel + 1) tokens) := by
  refine (ih.exec tokens (by omega)).bind fun first rest split => ?_
  dsimp only
  split
  next later =>
      have shorter : 4 * later.length + 3 ≤ fuel := by
        grind
      refine (ih.pipe later shorter).map fun last rest' split' => ?_
      rw [split, split']
      simp [Derivation.yield]
  next => exact Reads.ok split

theorem execOf_reads (ih : ParserReads α fuel) (tokens : List (Token α))
    (enough : 4 * tokens.length + 2 ≤ fuel + 1) :
    Reads Derivation.yield tokens (execOf (fuel + 1) tokens) := by
  cases tokens with
  | nil => exact wordsOf_reads []
  | cons token tokens =>
    cases token with
    | left => exact ih.block tokens (by rw [List.length_cons] at enough; omega)
    | _ => exact wordsOf_reads _

theorem blockOf_reads (ih : ParserReads α fuel) (tokens : List (Token α))
    (enough : 4 * tokens.length + 5 ≤ fuel + 1) :
    Reads Derivation.yield (.left :: tokens) (blockOf (fuel + 1) tokens) := by
  rw [blockOf]
  rcases ih.line tokens (by omega) with refused | ⟨inside, rest, isOk, split⟩
  · rw [refused]
    exact Reads.malformed
  · rw [isOk]
    dsimp only [Except.bind]
    split
    next later =>
        refine (redirs_reads later).map fun found rest' split' => ?_
        rw [split, split']
        simp [Derivation.yield]
    next => exact Reads.malformed

theorem parserReads (fuel : Nat) : ParserReads α fuel := by
  induction fuel with
  | zero => constructor <;> intro tokens enough <;> omega
  | succ fuel ih =>
    exact ⟨lineOf_reads ih, pipeOf_reads ih, execOf_reads ih, blockOf_reads ih⟩

/-! ## Completeness -/

/-- The tokens that can follow what is derived from a nonterminal. -/
def Follows : Symbol → List (Token α) → Prop
  | _, [] => True
  | .line, token :: _ => token = .right
  | .pipe, token :: _ => token = .right ∨ token = .amp ∨ token = .semi
  | .exec, token :: _ => token = .right ∨ token = .amp ∨ token = .semi ∨ token = .bar

theorem Follows.head_ne_angle (follows : Follows .exec rest) (kind : Angle) :
    rest.head? ≠ some (.angle kind) := by
  cases rest with
  | nil => simp
  | cons token rest =>
    rintro ⟨⟩
    simp [Follows] at follows

theorem Follows.pipe_of_line (follows : Follows .line rest) : Follows .pipe rest := by
  cases rest with
  | nil => trivial
  | cons token rest => exact Or.inl follows

theorem Follows.exec_of_pipe (follows : Follows .pipe rest) : Follows .exec rest := by
  cases rest with
  | nil => trivial
  | cons token rest =>
    rcases follows with isRight | isAmp | isSemi
    · exact Or.inl isRight
    · exact Or.inr (Or.inl isAmp)
    · exact Or.inr (Or.inr (Or.inl isSemi))

theorem Follows.amps (count : Nat) (follows : Follows .pipe rest) :
    Follows .pipe (List.replicate count .amp ++ rest) := by
  cases count with
  | zero => exact follows
  | succ count => exact Or.inr (Or.inl rfl)

theorem amps_replicate (count : Nat) (rest : List (Token α)) (stops : rest.head? ≠ some .amp) :
    amps (List.replicate count .amp ++ rest) = (count, rest) := by
  induction count with
  | zero =>
    cases rest with
    | nil => rfl
    | cons token rest => cases token <;> simp_all [amps]
  | succ count ih => simp [List.replicate_succ, amps, ih]

theorem redirs_yield (found : List (Redir α)) (rest : List (Token α))
    (stops : ∀ kind, rest.head? ≠ some (.angle kind)) :
    redirs (redirsYield found ++ rest) = .ok (found, rest) := by
  induction found with
  | nil =>
    cases rest with
    | nil => rfl
    | cons token rest => cases token <;> simp_all [redirs, redirsYield]
  | cons redir found ih =>
    have shape : redirsYield (redir :: found) ++ rest =
        .angle redir.kind :: .word redir.file :: (redirsYield found ++ rest) := rfl
    rw [shape, redirs, ih]
    rfl

theorem args_yield (found : List (α × List (Redir α))) (argc : Nat) (rest : List (Token α))
    (follows : Follows .exec rest) (few : argc + found.length < maxArgs)
    (enough : found.length < fuel) :
    args fuel argc (argsYield found ++ rest) = .ok (found, rest) := by
  induction found generalizing argc fuel with
  | nil =>
    obtain ⟨fuel, rfl⟩ : ∃ n, fuel = n + 1 := ⟨fuel - 1, by simp at enough; omega⟩
    cases rest with
    | nil => rfl
    | cons token rest => cases token <;> simp_all [Follows, args, argsYield]
  | cons arg found ih =>
    obtain ⟨fuel, rfl⟩ : ∃ n, fuel = n + 1 := ⟨fuel - 1, by simp at enough; omega⟩
    rw [List.length_cons] at few enough
    have shape : argsYield (arg :: found) ++ rest =
        .word arg.1 :: (redirsYield arg.2 ++ (argsYield found ++ rest)) := by
      simp [argsYield]
    rw [shape, args, if_neg (by omega), redirs_yield]
    · dsimp only [Except.bind]
      rw [ih (argc + 1) (by omega) (by omega)]
      rfl
    · cases found with
      | nil => exact follows.head_ne_angle
      | cons arg found => simp [argsYield]

theorem execOf_of_ne_left (fuel : Nat) (tokens : List (Token α))
    (stops : tokens.head? ≠ some .left) : execOf (fuel + 1) tokens = wordsOf tokens := by
  cases tokens with
  | nil => rfl
  | cons token tokens => cases token <;> simp_all [execOf]

def parserOf : (symbol : Symbol) → Nat → List (Token α) → Parsed α (Derivation α symbol)
  | .line => lineOf
  | .pipe => pipeOf
  | .exec => execOf

/-- How many rounds a nonterminal needs besides those for its tokens. -/
def Symbol.rounds : Symbol → Nat
  | .line => 4
  | .pipe => 3
  | .exec => 2

theorem lineOf_line {first : Derivation α .pipe} {count : Nat} (follows : Follows .line rest)
    (isFirst : pipeOf fuel tokens = .ok (first, List.replicate count .amp ++ rest)) :
    lineOf (fuel + 1) tokens = .ok (.line first count, rest) := by
  have isAmps : amps (List.replicate count .amp ++ rest) = (count, rest) := by
    refine amps_replicate count rest ?_
    cases rest <;> simp_all [Follows]
  rw [lineOf, isFirst]
  dsimp only [Except.bind]
  rw [isAmps]
  cases rest with
  | nil => rfl
  | cons token rest =>
    subst follows
    rfl

theorem lineOf_sequence {first : Derivation α .pipe} {count : Nat} {last : Derivation α .line}
    {later : List (Token α)}
    (isFirst : pipeOf fuel tokens = .ok (first, List.replicate count .amp ++ .semi :: later))
    (isLast : lineOf fuel later = .ok (last, rest)) :
    lineOf (fuel + 1) tokens = .ok (.sequence first count last, rest) := by
  rw [lineOf, isFirst]
  dsimp only [Except.bind]
  rw [amps_replicate count (.semi :: later) (by simp)]
  dsimp only
  rw [isLast]
  rfl

theorem pipeOf_single {first : Derivation α .exec} (follows : Follows .pipe rest)
    (isFirst : execOf fuel tokens = .ok (first, rest)) :
    pipeOf (fuel + 1) tokens = .ok (.single first, rest) := by
  rw [pipeOf, isFirst]
  cases rest with
  | nil => rfl
  | cons token rest => rcases follows with rfl | rfl | rfl <;> rfl

theorem pipeOf_pipe {first : Derivation α .exec} {last : Derivation α .pipe}
    {later : List (Token α)} (isFirst : execOf fuel tokens = .ok (first, .bar :: later))
    (isLast : pipeOf fuel later = .ok (last, rest)) :
    pipeOf (fuel + 1) tokens = .ok (.pipe first last, rest) := by
  rw [pipeOf, isFirst]
  dsimp only [Except.bind]
  rw [isLast]
  rfl

theorem execOf_block {inside : Derivation α .line} (follows : Follows .exec rest)
    (isInside : lineOf fuel tokens = .ok (inside, .right :: (redirsYield found ++ rest))) :
    execOf (fuel + 2) (.left :: tokens) = .ok (.block inside found, rest) := by
  rw [execOf, blockOf, isInside]
  dsimp only [Except.bind]
  rw [redirs_yield found rest follows.head_ne_angle]
  rfl

theorem length_le_argsYield (words : List (α × List (Redir α))) :
    words.length ≤ (argsYield words).length := by
  induction words with
  | nil => exact Nat.zero_le _
  | cons arg words ih =>
    have shape : argsYield (arg :: words) =
        .word arg.1 :: (redirsYield arg.2 ++ argsYield words) := rfl
    rw [shape, List.length_cons, List.length_cons, List.length_append]
    omega

theorem wordsOf_yield {words : List (α × List (Redir α))} (few : words.length < maxArgs)
    (follows : Follows .exec rest) :
    wordsOf (redirsYield found ++ (argsYield words ++ rest)) =
      .ok (.words found words few, rest) := by
  have stops : ∀ kind, (argsYield words ++ rest).head? ≠ some (.angle kind) := by
    cases words with
    | nil => exact follows.head_ne_angle
    | cons arg words => simp [argsYield]
  have length := length_le_argsYield words
  rw [wordsOf, redirs_yield found _ stops]
  dsimp only [Except.bind]
  rw [args_yield words 0 rest follows (by omega) (by simp; omega)]
  dsimp only
  rw [dif_pos few]

theorem parserOf_yield {symbol : Symbol} (derivation : Derivation α symbol)
    (rest : List (Token α)) (follows : Follows symbol rest)
    (enough : 4 * derivation.yield.length + symbol.rounds ≤ fuel) :
    parserOf symbol fuel (derivation.yield ++ rest) = .ok (derivation, rest) := by
  induction derivation generalizing rest fuel with
  | line first count ih =>
    simp only [Derivation.yield, List.length_append, Symbol.rounds] at enough
    obtain ⟨fuel, rfl⟩ : ∃ n, fuel = n + 1 := ⟨fuel - 1, by omega⟩
    refine lineOf_line follows ?_
    rw [Derivation.yield, List.append_assoc]
    exact ih _ (follows.pipe_of_line.amps count) (by simp only [Symbol.rounds]; omega)
  | sequence first count last ih ihLast =>
    simp only [Derivation.yield, List.length_append, List.length_cons, Symbol.rounds] at enough
    obtain ⟨fuel, rfl⟩ : ∃ n, fuel = n + 1 := ⟨fuel - 1, by omega⟩
    refine lineOf_sequence ?_ (ihLast rest follows (by simp only [Symbol.rounds]; omega))
    rw [Derivation.yield, List.append_assoc, List.append_assoc, List.cons_append]
    refine ih _ (Follows.amps count ?_) (by simp only [Symbol.rounds]; omega)
    exact Or.inr (Or.inr rfl)
  | single first ih =>
    simp only [Derivation.yield, Symbol.rounds] at enough
    obtain ⟨fuel, rfl⟩ : ∃ n, fuel = n + 1 := ⟨fuel - 1, by omega⟩
    exact pipeOf_single follows
      (ih rest follows.exec_of_pipe (by simp only [Symbol.rounds]; omega))
  | pipe first last ih ihLast =>
    simp only [Derivation.yield, List.length_append, List.length_cons, Symbol.rounds] at enough
    obtain ⟨fuel, rfl⟩ : ∃ n, fuel = n + 1 := ⟨fuel - 1, by omega⟩
    refine pipeOf_pipe ?_ (ihLast rest follows (by simp only [Symbol.rounds]; omega))
    rw [Derivation.yield, List.append_assoc, List.cons_append]
    refine ih _ ?_ (by simp only [Symbol.rounds]; omega)
    simp [Follows]
  | block inside found ih =>
    simp only [Derivation.yield, List.length_append, List.length_cons, Symbol.rounds] at enough
    obtain ⟨fuel, rfl⟩ : ∃ n, fuel = n + 2 := ⟨fuel - 2, by omega⟩
    rw [Derivation.yield, List.cons_append, List.append_assoc, List.cons_append]
    refine execOf_block follows (ih _ ?_ (by simp only [Symbol.rounds]; omega))
    simp [Follows]
  | words found words few =>
    obtain ⟨fuel, rfl⟩ : ∃ n, fuel = n + 1 :=
      ⟨fuel - 1, by simp only [Symbol.rounds] at enough; omega⟩
    rw [Derivation.yield, List.append_assoc, ← wordsOf_yield few follows]
    refine execOf_of_ne_left fuel _ ?_
    cases found with
    | cons redir found => simp [redirsYield, Redir.yield]
    | nil =>
      cases words with
      | cons arg words => simp [redirsYield, argsYield]
      | nil =>
        cases rest with
        | nil => simp [redirsYield, argsYield]
        | cons token rest =>
          rcases follows with rfl | rfl | rfl | rfl <;> simp [redirsYield, argsYield]

/-- A sequence of tokens has at most one derivation. -/
theorem yield_injective {first second : Derivation α .line} (same : first.yield = second.yield) :
    first = second := by
  have isFirst := parserOf_yield first [] trivial (Nat.le_refl _)
  have isSecond := parserOf_yield second [] trivial (Nat.le_refl _)
  rw [← same, isFirst] at isSecond
  exact congrArg Prod.fst (Except.ok.inj isSecond)

end Shell

end Xv6
