import Xv6.Construction.Shell

namespace Xv6.Grep

/- A string is the list of its bytes before the terminating zero byte. -/
mutual

/-- Search for `re` at the beginning of `text`. -/
def matchhere (re text : List (BitVec 8)) : Bool :=
  match re with
  | [] => true
  | c :: re =>
    if re.head? = some (charByte '*') then matchstar c re.tail text
    else if c = charByte '$' ∧ re = [] then text = []
    else
      match text with
      | [] => false
      | t :: text => if c = charByte '.' ∨ c = t then matchhere re text else false
  termination_by (re.length + text.length, 0)

/-- Search for zero or more instances of `c` and `re` after them at the beginning of `text`. -/
def matchstar (c : BitVec 8) (re text : List (BitVec 8)) : Bool :=
  if matchhere re text then true
  else
    match text with
    | [] => false
    | t :: text => if t = c ∨ c = charByte '.' then matchstar c re text else false
  termination_by (re.length + text.length, 1)

end

/-- The loop of `match` looks at every end of the text. -/
def matchLoop (re text : List (BitVec 8)) : Bool :=
  if matchhere re text then true
  else
    match text with
    | [] => false
    | _ :: text => matchLoop re text

def match_ (re text : List (BitVec 8)) : Bool :=
  if re.head? = some (charByte '^') then matchhere re.tail text else matchLoop re text

def newline : BitVec 8 := charByte '\n'

/-- The loop over the lines of the buffer. The function `strchr` has seen `line` since `p`, and it stops at a zero byte.
The results are the lines that it finds and the bytes from the last `p` on. -/
def scan (line : List (BitVec 8)) : List (BitVec 8) → List (List (BitVec 8)) × List (BitVec 8)
  | [] => ([], line)
  | c :: rest =>
    if c = newline then (line :: (scan [] rest).1, (scan [] rest).2)
    else if c = 0 then ([], line ++ c :: rest)
    else scan (line ++ [c]) rest

/-- The bytes that are written for the lines. -/
def writes (pattern : List (BitVec 8)) (lines : List (List (BitVec 8))) : List (BitVec 8) :=
  (lines.filter fun line => match_ pattern line).flatMap fun line => line ++ [newline]

/-- The size of `buf`. -/
def bufSize : Nat := 1024

/-- The loop of `grep` has the bytes `m` in its buffer, and each `read` returns a chunk. A `read` into a full buffer
returns zero. The pointer `p` is still `buf` if no line was found. -/
def grep (pattern m : List (BitVec 8)) : List (List (BitVec 8)) → List (BitVec 8)
  | [] => []
  | chunk :: chunks =>
    if m.length + 1 = bufSize then []
    else
      let (lines, p) := scan [] (m ++ chunk)
      writes pattern lines ++ grep pattern (if lines = [] then [] else p) chunks

end Xv6.Grep
