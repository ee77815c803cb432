import Mathlib.Tactic

namespace Xv6.Library
open List Nat
variable {size width : Nat}

/-- A bit vector is read as a little-endian array of `width`-bit slots. -/
def slot {size : Nat} (width : Nat) (bits : BitVec size) (index : Nat) : BitVec width :=
  bits.extractLsb' (width * index) width

/-- The update replaces one slot and keeps every other bit. -/
def setSlot {size width : Nat} (bits : BitVec size) (index : Nat) (value : BitVec width) :
    BitVec size :=
  (bits &&& ~~~((BitVec.allOnes width).setWidth size <<< (width * index))) |||
    (value.setWidth size <<< (width * index))

theorem slot_getLsbD (width : Nat) (bits : BitVec size) (index bit : Nat) :
    (slot width bits index).getLsbD bit = (decide (bit < width) && bits.getLsbD (width * index + bit)) := by
  simp [slot]

/-- Each bit of the updated vector comes from the new value or from the old vector. -/
theorem setSlot_getLsbD (bits : BitVec size) (index : Nat) (value : BitVec width) (bit : Nat) (inside : bit < size) :
    (setSlot bits index value).getLsbD bit =
      if width * index ≤ bit ∧ bit < width * index + width then
        value.getLsbD (bit - width * index)
      else bits.getLsbD bit := by
  by_cases below : bit < width * index
  · have outside : ¬(width * index ≤ bit ∧ bit < width * index + width) := by omega
    simp [setSlot, inside, below, outside]
  · by_cases covered : bit < width * index + width
    · have local_lt : bit - width * index < width := by omega
      have range : width * index ≤ bit ∧ bit < width * index + width := by omega
      simp [setSlot, inside, below, local_lt, range]
    · have local_ge : width ≤ bit - width * index := by omega
      have range : ¬(width * index ≤ bit ∧ bit < width * index + width) := by omega
      simp [setSlot, inside, below, range, not_lt.mpr local_ge, BitVec.getLsbD_of_ge value _ local_ge]

@[simp] theorem slot_setSlot_same (bits : BitVec size) (index : Nat) (value : BitVec width)
    (fits : width * index + width ≤ size) : slot width (setSlot bits index value) index = value := by
  apply BitVec.eq_of_getLsbD_eq
  intro bit inside
  rw [slot_getLsbD, setSlot_getLsbD bits index value _ (by omega)]
  simp [inside]

theorem slot_setSlot_ne (bits : BitVec size) (index other : Nat) (value : BitVec width) (ne : other ≠ index) :
    slot width (setSlot bits index value) other = slot width bits other := by
  apply BitVec.eq_of_getLsbD_eq
  intro bit inside
  rw [slot_getLsbD, slot_getLsbD]
  by_cases bounded : width * other + bit < size
  · rw [setSlot_getLsbD bits index value _ bounded, if_neg]
    rintro ⟨lower, upper⟩
    rcases lt_or_gt_of_ne ne with before | after
    · have step := mul_le_mul_left width (succ_le_of_lt before)
      rw [mul_succ] at step
      omega
    · have step := mul_le_mul_left width (succ_le_of_lt after)
      rw [mul_succ] at step
      omega
  · rw [BitVec.getLsbD_of_ge _ _ (Nat.le_of_not_lt bounded), BitVec.getLsbD_of_ge _ _ (Nat.le_of_not_lt bounded)]

@[simp] theorem slot_zero (width index : Nat) : slot width (BitVec.ofNat size 0) index = BitVec.ofNat width 0 := by
  simp [slot]

/-- The update replaces consecutive slots from an index on. -/
def setSlots {size width : Nat} (bits : BitVec size) (index : Nat) : List (BitVec width) → BitVec size
  | [] => bits
  | value :: rest => setSlots (setSlot bits index value) (index + 1) rest

/-- Reading a slot returns the value written there, or the old value outside of the written slots. -/
theorem slot_setSlots (bits : BitVec size) (index other : Nat) (values : List (BitVec width))
    (fits : width * (index + values.length) ≤ size) :
    slot width (setSlots bits index values) other =
      if other < index then slot width bits other else (values[other - index]?).getD (slot width bits other) := by
  induction values generalizing bits index with
  | nil => simp [setSlots]
  | cons value rest ih =>
    have bound : width * (index + 1 + rest.length) ≤ size := by
      rw [length_cons] at fits
      rwa [add_right_comm]
    have first : width * index + width ≤ size := by
      have := mul_le_mul_left width (le_add_right (index + 1) rest.length)
      rw [mul_succ] at this
      omega
    rw [setSlots, ih _ _ bound]
    rcases lt_trichotomy other index with below | same | above
    · rw [if_pos (by omega), if_pos below, slot_setSlot_ne _ _ _ _ (by omega)]
    · subst same
      simp [slot_setSlot_same _ _ _ first]
    · obtain ⟨gap, rfl⟩ := Nat.exists_eq_add_of_lt above
      rw [if_neg (by omega), if_neg (by omega), slot_setSlot_ne _ _ _ _ (by omega)]
      have shift : index + gap + 1 - index = gap + 1 := by omega
      have next : index + gap + 1 - (index + 1) = gap := by omega
      rw [shift, next, getElem?_cons_succ]

/-- A loop that writes one slot in each round leaves the last value of each slot. -/
theorem slot_foldl_setSlot (bits : BitVec size) (indices : List Nat) (values : Nat → BitVec width)
    (fits : ∀ index ∈ indices, width * index + width ≤ size) (other : Nat) :
    slot width (indices.foldl (fun page index => setSlot page index (values index)) bits) other =
      if other ∈ indices then values other else slot width bits other := by
  induction indices generalizing bits with
  | nil => simp
  | cons index rest ih =>
    rw [foldl_cons, ih _ fun other member => fits other (mem_cons_of_mem _ member)]
    by_cases later : other ∈ rest
    · rw [if_pos later, if_pos (mem_cons_of_mem _ later)]
    · rw [if_neg later]
      by_cases same : other = index
      · subst same
        rw [slot_setSlot_same _ _ _ (fits other mem_cons_self), if_pos mem_cons_self]
      · rw [slot_setSlot_ne _ _ _ _ same, if_neg]
        rw [mem_cons, not_or]
        exact ⟨same, later⟩

/-- Clearing the low bits rounds down to a multiple of a power of two. -/
theorem toNat_and_not_mask (bits : BitVec size) (count : Nat) :
    (bits &&& ~~~BitVec.ofNat size (2 ^ count - 1)).toNat = bits.toNat / 2 ^ count * 2 ^ count := by
  apply eq_of_testBit_eq
  intro bit
  rw [testBit_mul_two_pow, testBit_div_two_pow, BitVec.testBit_toNat, BitVec.testBit_toNat]
  have mask : (BitVec.ofNat size (2 ^ count - 1)).getLsbD bit = (decide (bit < size) && decide (bit < count)) := by
    rw [BitVec.getLsbD_ofNat, testBit_two_pow_sub_one]
  rw [BitVec.getLsbD_and, BitVec.getLsbD_not, mask]
  by_cases inside : bit < size
  · by_cases low : bit < count
    · simp [inside, low, not_le.mpr low]
    · have high : count ≤ bit := Nat.le_of_not_lt low
      simp [inside, low, high, Nat.sub_add_cancel high]
  · by_cases high : count ≤ bit
    · rw [Nat.sub_add_cancel high, BitVec.getLsbD_of_ge _ _ (Nat.le_of_not_lt inside)]
      simp
    · simp [inside, high]

end Xv6.Library
