import Xv6.Construction.Memmove
import Mathlib.Tactic

namespace Xv6
open Function
variable {dst src n address : Nat} {m : Nat → BitVec 8}

/-- The bytes of the source are at the destination, and all other bytes are as before. -/
def moved (memory : Nat → BitVec 8) (dst src n address : Nat) : BitVec 8 :=
  if dst ≤ address ∧ address < dst + n then memory (src + (address - dst)) else memory address

theorem copyUp_outside (outside : ¬(dst ≤ address ∧ address < dst + n)) :
    copyUp n dst src m address = m address := by
  induction n generalizing dst src m with
  | zero => rfl
  | succ n hyp =>
    rw [copyUp, hyp (by omega), update_of_ne (by omega)]

theorem copyUp_disjoint (apart : ¬(src < dst ∧ src + n > dst)) :
    copyUp n dst src m = moved m dst src n := by
  induction n generalizing dst src m with
  | zero =>
    funext address
    rw [copyUp, moved, if_neg (by omega)]
  | succ n hyp =>
    funext address
    rw [copyUp, hyp (by omega), moved, moved]
    by_cases first : address = dst
    · rw [first, if_neg (by omega), if_pos (by omega), update_self, Nat.sub_self, Nat.add_zero]
    · by_cases inside : dst ≤ address ∧ address < dst + (n + 1)
      · rw [if_pos (by omega), if_pos inside, update_of_ne (by omega)]
        congr 1
        omega
      · rw [if_neg (by omega), if_neg inside, update_of_ne first]

theorem copyDown_moved (before : src < dst) :
    copyDown n (dst + n) (src + n) m = moved m dst src n := by
  induction n generalizing m with
  | zero =>
    funext address
    rw [copyDown, moved, if_neg (by omega)]
  | succ n hyp =>
    funext address
    change copyDown n (dst + n) (src + n) (update m (dst + n) (m (src + n))) address = _
    rw [hyp, moved, moved]
    by_cases last : address = dst + n
    · rw [last, if_neg (by omega), if_pos (by omega), update_self, Nat.add_sub_cancel_left]
    · by_cases inside : dst ≤ address ∧ address < dst + n
      · rw [if_pos inside, if_pos (by omega), update_of_ne (by omega)]
      · rw [if_neg inside, if_neg (by omega), update_of_ne last]

theorem memmove_moved : Kstring.memmove dst src n m = moved m dst src n := by
  rw [Kstring.memmove]
  split
  next overlap => exact copyDown_moved overlap.1
  next apart => exact copyUp_disjoint apart

/-- In the m that an upward copy leaves, the destination repeats the bytes that stand before it. -/
theorem copyUp_repeats (before : src < dst) {i : Nat} (inside : i < n) :
    copyUp n dst src m (dst + i) = copyUp n dst src m (src + i) := by
  induction n generalizing dst src m i with
  | zero => exact absurd inside (Nat.not_lt_zero i)
  | succ n hyp =>
    rw [copyUp]
    cases i with
    | zero =>
      rw [copyUp_outside (by omega), copyUp_outside (by omega), Nat.add_zero, Nat.add_zero, update_self,
        update_of_ne before.ne]
    | succ i =>
      have next := hyp (Nat.succ_lt_succ before) (Nat.lt_of_succ_lt_succ inside)
        (m := update m dst (m src))
      rw [show dst + (i + 1) = dst + 1 + i by omega, show src + (i + 1) = src + 1 + i by omega]
      exact next

theorem copyUp_moved_iff (before : src < dst) : copyUp n dst src m = moved m dst src n ↔
    ∀ i, dst + i < src + n → m (dst + i) = m (src + i) := by
  constructor
  · intro same i overlap
    have later := copyUp_repeats before (m := m) (show i + (dst - src) < n by omega)
    rw [same, show src + (i + (dst - src)) = dst + i by omega, moved, moved, if_pos (by omega),
      if_pos (by omega)] at later
    rw [← show src + (dst + i - dst) = src + i by omega, ← later]
    congr 1
    omega
  · intro periodic
    have copied : ∀ i < n, copyUp n dst src m (dst + i) = m (src + i) := by
      intro i
      induction i using Nat.strong_induction_on with
      | h i hyp =>
        intro inside
        rw [copyUp_repeats before inside]
        by_cases untouched : src + i < dst
        · exact copyUp_outside (by omega)
        · have shorter := hyp (src + i - dst) (by omega) (by omega)
          rw [← periodic _ (by omega), Nat.add_sub_cancel' (Nat.le_of_not_lt untouched)] at shorter
          exact shorter
    funext address
    rw [moved]
    split
    next inside =>
      rw [← copied (address - dst) (by omega), Nat.add_sub_cancel' inside.1]
    next outside => exact copyUp_outside outside

/-- The function of `ulib.c` agrees with the one of `string.c` if an overlap repeats the source. -/
theorem memmove_agree_iff (dst src n : Nat) (memory : Nat → BitVec 8) :
    (Ulib.memmove dst src n memory = Kstring.memmove dst src n memory ∧
      Kstring.memmove dst src n memory = moved memory dst src n) ↔
    (src < dst → ∀ i, dst + i < src + n → memory (dst + i) = memory (src + i)) := by
  rw [memmove_moved, and_iff_left rfl, Ulib.memmove]
  by_cases before : src < dst
  · rw [copyUp_moved_iff before, forall_prop_of_true before]
  · exact iff_of_true (copyUp_disjoint fun overlap => before overlap.1) fun below => absurd below before

/-- The upward copy of two bytes by one place writes the first byte twice. -/
theorem memmove_overwrites_source : Ulib.memmove 1 0 2 (BitVec.ofNat 8) 2 = 0 ∧
    Kstring.memmove 1 0 2 (BitVec.ofNat 8) 2 = 1 := by decide

end Xv6
