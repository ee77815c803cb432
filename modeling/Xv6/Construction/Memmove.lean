import Mathlib.Logic.Function.Basic

namespace Xv6

/-- The loop `while(n-- > 0) *d++ = *s++` over addresses that do not wrap. -/
def copyUp : Nat → Nat → Nat → (Nat → BitVec 8) → Nat → BitVec 8
  | 0, _, _, memory => memory
  | n + 1, d, s, memory => copyUp n (d + 1) (s + 1) (Function.update memory d (memory s))

/-- The loop `while(n-- > 0) *--d = *--s`. -/
def copyDown : Nat → Nat → Nat → (Nat → BitVec 8) → Nat → BitVec 8
  | 0, _, _, memory => memory
  | n + 1, d, s, memory => copyDown n (d - 1) (s - 1) (Function.update memory (d - 1) (memory (s - 1)))

/-- The function of `ulib.c`. -/
def Ulib.memmove (dst src n : Nat) (memory : Nat → BitVec 8) : Nat → BitVec 8 := copyUp n dst src memory

/-- The function of `string.c`. -/
def Kstring.memmove (dst src n : Nat) (memory : Nat → BitVec 8) : Nat → BitVec 8 :=
  if src < dst ∧ src + n > dst then copyDown n (dst + n) (src + n) memory else copyUp n dst src memory

end Xv6
