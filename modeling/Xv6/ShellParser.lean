import Mathlib.Data.List.Basic
import Xv6.ShellGrammar

/-!
# The parser of the shell

`parsecmd` in `sh.c` reads a string with a cursor that is shared by all its functions.
Positions in the string stand for the pointers to its characters, and a null pointer
is `none`.  The string ends at the first NUL, so reading at its end gives NUL.

The functions are followed for a bounded number of rounds.  They return, call `panic`,
write beyond the arrays of a command, or need more rounds than there are.
-/

namespace Xv6

namespace Shell

inductive Stop
  | panic (message : String)
  | outOfBounds
  | endless

/-- `struct cmd`.  The pointers are positions in the string. -/
inductive Cmd
  | exec (argv eargv : List (Option Nat))
  | redir (cmd : Cmd) (file efile mode fd : Nat)
  | pipe (left right : Cmd)
  | list (left right : Cmd)
  | back (cmd : Cmd)

/-! ## Tokens -/

def whitespace : List Char := [' ', '\t', '\r', '\n', '\x0b']

def symbols : List Char := ['<', '|', '>', '&', ';', '(', ')']

def isWhite (c : Char) : Bool := whitespace.contains c

def isWord (c : Char) : Bool := !whitespace.contains c && !symbols.contains c

def charAt (line : List Char) (s : Nat) : Char :=
  line.getD s '\x00'

/-- `while(s < es && test(*s)) s++`. -/
def advance (line : List Char) (test : Char → Bool) : Nat → Nat → Nat
  | 0, s => s
  | fuel + 1, s =>
    if s < line.length ∧ test (charAt line s) then advance line test fuel (s + 1) else s

def skip (line : List Char) (test : Char → Bool) (s : Nat) : Nat :=
  advance line test line.length s

/-- The result of `gettoken`, the ends of the token and the new cursor. -/
structure Scan where
  ret : Char
  q : Nat
  eq : Nat
  s : Nat

/-- The switch of `gettoken`: what it returns, and the end of the token. -/
def scanAt (line : List Char) (q : Nat) : Char × Nat :=
  let c := charAt line q
  if c = '\x00' then (c, q)
  else if ['|', '(', ')', ';', '&', '<'].contains c then (c, q + 1)
  else if c = '>' then
    if charAt line (q + 1) = '>' then ('+', q + 2) else ('>', q + 1)
  else ('a', skip line isWord q)

def gettoken (line : List Char) (s : Nat) : Scan :=
  let q := skip line isWhite s
  let scan := scanAt line q
  ⟨scan.1, q, scan.2, skip line isWhite scan.2⟩

def peek (line : List Char) (s : Nat) (toks : List Char) : Bool × Nat :=
  let s := skip line isWhite s
  (charAt line s != '\x00' && toks.contains (charAt line s), s)

/-! ## Commands -/

def execcmd : Cmd :=
  .exec (List.replicate maxArgs none) (List.replicate maxArgs none)

/-- The entries of `argv` and `eargv` of a command are set.  The command may be inside
redirections. -/
def Cmd.store : Cmd → Nat → Option Nat → Option Nat → Except Stop Cmd
  | .exec argv eargv, argc, q, eq =>
    if argc < argv.length ∧ argc < eargv.length then
      .ok (.exec (argv.set argc q) (eargv.set argc eq))
    else .error .outOfBounds
  | .redir cmd file efile mode fd, argc, q, eq =>
    (cmd.store argc q eq).map fun cmd => .redir cmd file efile mode fd
  | _, _, _, _ => .error .outOfBounds

abbrev readOnly : Nat := 0

/-- `O_WRONLY|O_CREATE`. -/
abbrev writeCreate : Nat := 0x201

/-- The switch of `parseredirs`. -/
def redircmd (cmd : Cmd) (tok : Char) (q eq : Nat) : Cmd :=
  if tok = '<' then .redir cmd q eq readOnly 0
  else if tok = '>' then .redir cmd q eq writeCreate 1
  else if tok = '+' then .redir cmd q eq writeCreate 1
  else cmd

def parseredirs (line : List Char) : Nat → Cmd → Nat → Except Stop (Cmd × Nat)
  | 0, _, _ => .error .endless
  | fuel + 1, cmd, s =>
    let ahead := peek line s ['<', '>']
    if ahead.1 then
      let tok := gettoken line ahead.2
      let file := gettoken line tok.s
      if file.ret != 'a' then .error (.panic "missing file for redirection")
      else parseredirs line fuel (redircmd cmd tok.ret file.q file.eq) file.s
    else .ok (cmd, ahead.2)

/-- The loop of `parseexec`.  It returns the command, `argc` and the cursor. -/
def parseargs (line : List Char) : Nat → Cmd → Nat → Nat → Except Stop (Cmd × Nat × Nat)
  | 0, _, _, _ => .error .endless
  | fuel + 1, ret, argc, s =>
    let ahead := peek line s ['|', ')', '&', ';']
    if ahead.1 then .ok (ret, argc, ahead.2)
    else
      let tok := gettoken line ahead.2
      if tok.ret = '\x00' then .ok (ret, argc, tok.s)
      else if tok.ret != 'a' then .error (.panic "syntax")
      else
        (ret.store argc (some tok.q) (some tok.eq)).bind fun ret =>
          if maxArgs ≤ argc + 1 then .error (.panic "too many args")
          else
            (parseredirs line (line.length + 1) ret tok.s).bind fun parsed =>
              parseargs line fuel parsed.1 (argc + 1) parsed.2

/-- The loop of `parseline`. -/
def parseback (line : List Char) : Nat → Cmd → Nat → Except Stop (Cmd × Nat)
  | 0, _, _ => .error .endless
  | fuel + 1, cmd, s =>
    let ahead := peek line s ['&']
    if ahead.1 then parseback line fuel (.back cmd) (gettoken line ahead.2).s
    else .ok (cmd, ahead.2)

/-- The part of `parseexec` for commands without parentheses. -/
def parsewords (line : List Char) (s : Nat) : Except Stop (Cmd × Nat) :=
  (parseredirs line (line.length + 1) execcmd s).bind fun first =>
    (parseargs line (line.length + 1) first.1 0 first.2).bind fun rest =>
      (rest.1.store rest.2.1 none none).map fun cmd => (cmd, rest.2.2)

mutual

def parseline (line : List Char) : Nat → Nat → Except Stop (Cmd × Nat)
  | 0, _ => .error .endless
  | fuel + 1, s =>
    (parsepipe line fuel s).bind fun first =>
      (parseback line (line.length + 1) first.1 first.2).bind fun parsed =>
        let ahead := peek line parsed.2 [';']
        if ahead.1 then
          (parseline line fuel (gettoken line ahead.2).s).map fun rest =>
            (.list parsed.1 rest.1, rest.2)
        else .ok (parsed.1, ahead.2)
termination_by structural fuel _ => fuel

def parsepipe (line : List Char) : Nat → Nat → Except Stop (Cmd × Nat)
  | 0, _ => .error .endless
  | fuel + 1, s =>
    (parseexec line fuel s).bind fun first =>
      let ahead := peek line first.2 ['|']
      if ahead.1 then
        (parsepipe line fuel (gettoken line ahead.2).s).map fun rest =>
          (.pipe first.1 rest.1, rest.2)
      else .ok (first.1, ahead.2)
termination_by structural fuel _ => fuel

def parseexec (line : List Char) : Nat → Nat → Except Stop (Cmd × Nat)
  | 0, _ => .error .endless
  | fuel + 1, s =>
    let ahead := peek line s ['(']
    if ahead.1 then parseblock line fuel ahead.2
    else parsewords line ahead.2
termination_by structural fuel _ => fuel

def parseblock (line : List Char) : Nat → Nat → Except Stop (Cmd × Nat)
  | 0, _ => .error .endless
  | fuel + 1, s =>
    let ahead := peek line s ['(']
    if !ahead.1 then .error (.panic "parseblock")
    else
      (parseline line fuel (gettoken line ahead.2).s).bind fun inside =>
        let ahead := peek line inside.2 [')']
        if !ahead.1 then .error (.panic "syntax - missing )")
        else parseredirs line (line.length + 1) inside.1 (gettoken line ahead.2).s
termination_by structural fuel _ => fuel

end

/-- The loop of `nulterminate` over the words of a command. -/
def terminateArgs : List (Option Nat) → List (Option Nat) → List Char → List Char
  | some _ :: argv, eq :: eargv, buffer =>
    terminateArgs argv eargv (buffer.set (eq.getD buffer.length) '\x00')
  | _, _, buffer => buffer

/-- `nulterminate` writes a NUL at the end of every word. -/
def nulterminate : Cmd → List Char → List Char
  | .exec argv eargv, buffer => terminateArgs argv eargv buffer
  | .redir cmd _ efile _ _, buffer => (nulterminate cmd buffer).set efile '\x00'
  | .pipe left right, buffer => nulterminate right (nulterminate left buffer)
  | .list left right, buffer => nulterminate right (nulterminate left buffer)
  | .back cmd, buffer => nulterminate cmd buffer

/-- `parsecmd` of a string.  It returns the command and what it has made of the string
with its NUL. -/
def parsecmd (line : List Char) : Except Stop (Cmd × List Char) :=
  (parseline line (4 * line.length + 4) 0).bind fun parsed =>
    let ahead := peek line parsed.2 []
    if ahead.2 != line.length then .error (.panic "syntax")
    else .ok (parsed.1, nulterminate parsed.1 (line ++ ['\x00']))

end Shell

end Xv6
