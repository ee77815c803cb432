import Mathlib.Logic.Function.Basic

namespace Xv6

def INPUT_BUF : Nat := 128

/-- The console input without its lock. The indices are unsigned 32-bit numbers. -/
structure Input where
  buf : Nat → BitVec 8
  r : BitVec 32
  w : BitVec 32
  e : BitVec 32

/-- The character that `C('D')` stands for. -/
def controlD : BitVec 8 := 4

def newline : BitVec 8 := 10

/-- A reader stops at the end of a line, at the end of the input, or goes on. -/
inductive ReadNext where
  | stop (n : Int)
  | more (n : Int)

namespace Input

/-- The inner loop of `consoleread` waits while this holds. -/
def Waits (input : Input) : Prop := input.r = input.w

instance (input : Input) : Decidable input.Waits := inferInstanceAs (Decidable (_ = _))

/-- The expression `input.buf[input.r % INPUT_BUF]`. -/
def next (input : Input) : BitVec 8 := input.buf (input.r.toNat % INPUT_BUF)

/-- One round of the outer loop of `consoleread` takes a character. A `^D` after other characters stays in the buffer. -/
def take (input : Input) (n target : Int) : ReadNext × Input :=
  if input.next = controlD then
    if n < target then (.stop n, input) else (.stop n, {input with r := input.r + 1})
  else if input.next = newline then (.stop (n - 1), {input with r := input.r + 1})
  else (.more (n - 1), {input with r := input.r + 1})

end Input
end Xv6
