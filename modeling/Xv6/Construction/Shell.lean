import Xv6.Construction.File

namespace Xv6

def MAXARGS : Nat := 10

/-- The code of a character. -/
def charByte (c : Char) : BitVec 8 := BitVec.ofNat 8 c.toNat

def whitespace : List (BitVec 8) := [charByte ' ', charByte '\t', charByte '\r', charByte '\n', 0x0B]

def symbols : List (BitVec 8) :=
  [charByte '<', charByte '|', charByte '>', charByte '&', charByte ';', charByte '(', charByte ')']

/-- A parsed command. The strings of the parser are pairs of pointers. -/
inductive Cmd (S : Type) where
  | exec (argv : List S)
  | redir (cmd : Cmd S) (file : S) (mode fd : BitVec 32)
  | pipe (left right : Cmd S)
  | list (left right : Cmd S)
  | back (cmd : Cmd S)
  deriving DecidableEq

/-- A pointer into the command line is the part of the line that begins there. -/
structure Slice where
  q : List (BitVec 8)
  eq : List (BitVec 8)
  deriving DecidableEq

/-- These are the panics of the parser. -/
inductive ShellPanic where
  | missingFile
  | parseblock
  | missingParen
  | syntaxError
  | tooManyArgs
  deriving DecidableEq

def ShellPanic.message : ShellPanic → String
  | .missingFile => "missing file for redirection"
  | .parseblock => "parseblock"
  | .missingParen => "syntax - missing )"
  | .syntaxError => "syntax"
  | .tooManyArgs => "too many args"

inductive ShellHalt where
  | panic (reason : ShellPanic)
  | outOfFuel
  deriving DecidableEq

namespace Shell

local instance byteLawful : LawfulBEq (BitVec 8) := inferInstance

/-- The loop that skips the whitespace before the end of the line. -/
def skip (s : List (BitVec 8)) : List (BitVec 8) := s.dropWhile (· ∈ whitespace)

/-- A word goes on until whitespace or a symbol. -/
def WordByte (c : BitVec 8) : Prop := c ∉ whitespace ∧ c ∉ symbols

instance (c : BitVec 8) : Decidable (WordByte c) := inferInstanceAs (Decidable (_ ∧ _))

/-- The kind of a token, the string of the token and the cursor after it. -/
structure Gettoken where
  ret : BitVec 8
  slice : Slice
  rest : List (BitVec 8)

/-- The kind of the token at the cursor and the end of the token. -/
def scan : List (BitVec 8) → BitVec 8 × List (BitVec 8)
  | [] => (0, [])
  | c :: s =>
    if c = 0 then (0, c :: s)
    else if c ∈ [charByte '|', charByte '(', charByte ')', charByte ';', charByte '&', charByte '<'] then (c, s)
    else if c = charByte '>' then
      match s with
      | d :: more => if d = charByte '>' then (charByte '+', more) else (charByte '>', s)
      | [] => (charByte '>', s)
    else (charByte 'a', (c :: s).dropWhile fun c => WordByte c)

def gettoken (s : List (BitVec 8)) : Gettoken :=
  let q := skip s
  let (ret, eq) := scan q
  ⟨ret, ⟨q, eq⟩, skip eq⟩

/-- The test whether the next byte is one of the given ones moves the cursor over whitespace. -/
def peek (s toks : List (BitVec 8)) : Bool × List (BitVec 8) :=
  let s := skip s
  (match s with
    | [] => false
    | c :: _ => c ≠ 0 ∧ c ∈ toks, s)

/-- The command that a redirection makes. -/
def redirect (tok : BitVec 8) (cmd : Cmd Slice) (file : Slice) : Cmd Slice :=
  if tok = charByte '<' then .redir cmd file O_RDONLY 0
  else if tok = charByte '>' then .redir cmd file (O_WRONLY ||| O_CREATE) 1
  else if tok = charByte '+' then .redir cmd file (O_WRONLY ||| O_CREATE) 1
  else cmd

def parseredirs : Nat → Cmd Slice → List (BitVec 8) → Except ShellHalt (Cmd Slice × List (BitVec 8))
  | 0, _, _ => .error .outOfFuel
  | fuel + 1, cmd, s =>
    let (found, s) := peek s [charByte '<', charByte '>']
    if found then
      let tok := gettoken s
      let file := gettoken tok.rest
      if file.ret ≠ charByte 'a' then .error (.panic .missingFile)
      else parseredirs fuel (redirect tok.ret cmd file.slice) file.rest
    else .ok (cmd, s)

/-- The assignments to `argv` and `eargv` go through a pointer to the command below the redirections. -/
def addArg (arg : Slice) : Cmd Slice → Cmd Slice
  | .exec argv => .exec (argv ++ [arg])
  | .redir cmd file mode fd => .redir (addArg arg cmd) file mode fd
  | cmd => cmd

/-- The loop of `parseexec` over the words. -/
def argLoop : Nat → Cmd Slice → Nat → List (BitVec 8) → Except ShellHalt (Cmd Slice × List (BitVec 8))
  | 0, _, _, _ => .error .outOfFuel
  | fuel + 1, ret, argc, s =>
    let (stop, s) := peek s [charByte '|', charByte ')', charByte '&', charByte ';']
    if stop then .ok (ret, s)
    else
      let tok := gettoken s
      if tok.ret = 0 then .ok (ret, tok.rest)
      else if tok.ret ≠ charByte 'a' then .error (.panic .syntaxError)
      else if argc + 1 ≥ MAXARGS then .error (.panic .tooManyArgs)
      else do
        let (ret, s) ← parseredirs fuel (addArg tok.slice ret) tok.rest
        argLoop fuel ret (argc + 1) s

/-- The loop of `parseline` over the ampersands. -/
def backLoop : Nat → Cmd Slice → List (BitVec 8) → Except ShellHalt (Cmd Slice × List (BitVec 8))
  | 0, _, _ => .error .outOfFuel
  | fuel + 1, cmd, s =>
    let (found, s) := peek s [charByte '&']
    if found then backLoop fuel (.back cmd) (gettoken s).rest else .ok (cmd, s)

mutual

def parseline : Nat → List (BitVec 8) → Except ShellHalt (Cmd Slice × List (BitVec 8))
  | 0, _ => .error .outOfFuel
  | fuel + 1, s => do
      let (cmd, s) ← parsepipe fuel s
      let (cmd, s) ← backLoop fuel cmd s
      let (found, s) := peek s [charByte ';']
      if found then do
        let (right, s) ← parseline fuel (gettoken s).rest
        .ok (.list cmd right, s)
      else .ok (cmd, s)

def parsepipe : Nat → List (BitVec 8) → Except ShellHalt (Cmd Slice × List (BitVec 8))
  | 0, _ => .error .outOfFuel
  | fuel + 1, s => do
      let (cmd, s) ← parseexec fuel s
      let (found, s) := peek s [charByte '|']
      if found then do
        let (right, s) ← parsepipe fuel (gettoken s).rest
        .ok (.pipe cmd right, s)
      else .ok (cmd, s)

def parseexec : Nat → List (BitVec 8) → Except ShellHalt (Cmd Slice × List (BitVec 8))
  | 0, _ => .error .outOfFuel
  | fuel + 1, s =>
    let (found, s) := peek s [charByte '(']
    if found then parseblock fuel s
    else do
      let (ret, s) ← parseredirs fuel (.exec []) s
      argLoop fuel ret 0 s

def parseblock : Nat → List (BitVec 8) → Except ShellHalt (Cmd Slice × List (BitVec 8))
  | 0, _ => .error .outOfFuel
  | fuel + 1, s =>
    let (opened, s) := peek s [charByte '(']
    if opened then do
      let (cmd, s) ← parseline fuel (gettoken s).rest
      let (closed, s) := peek s [charByte ')']
      if closed then parseredirs fuel cmd (gettoken s).rest
      else .error (.panic .missingParen)
    else .error (.panic .parseblock)

end

/-- The zero byte at the end of a string, in a line of the given length. -/
def terminate (length : Nat) (line : List (BitVec 8)) (slice : Slice) : List (BitVec 8) :=
  line.set (length - slice.eq.length) 0

def nulterminate (length : Nat) : Cmd Slice → List (BitVec 8) → List (BitVec 8)
  | .exec argv, line => argv.foldl (terminate length) line
  | .redir cmd file _ _, line => terminate length (nulterminate length cmd line) file
  | .pipe left right, line => nulterminate length right (nulterminate length left line)
  | .list left right, line => nulterminate length right (nulterminate length left line)
  | .back cmd, line => nulterminate length cmd line

/-- A string ends before its first zero byte. -/
def cstring (bytes : List (BitVec 8)) : List (BitVec 8) := bytes.takeWhile (· ≠ 0)

/-- The result is the command and the line with the zero bytes. -/
def parsecmd (fuel : Nat) (bytes : List (BitVec 8)) : Except ShellHalt (Cmd Slice × List (BitVec 8)) := do
  let line := cstring bytes
  let (cmd, s) ← parseline fuel line
  let (_, s) := peek s []
  if s ≠ [] then .error (.panic .syntaxError)
  else .ok (cmd, nulterminate line.length cmd line)

end Shell
end Xv6
