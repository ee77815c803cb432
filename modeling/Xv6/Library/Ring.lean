import Mathlib.Tactic

namespace Xv6.Library
open List BitVec Nat

/-- The cells from the first to the last counter hold the items in order. The counters run past the capacity
and wrap with their width. -/
structure Ring {A : Type} {width : Nat} (capacity : Nat) (cells : Nat → A) (first last : BitVec width)
    (items : List A) : Prop where
  count : last = first + BitVec.ofNat width items.length
  fits : items.length ≤ capacity
  held : ∀ i < items.length, items[i]? = some (cells ((first.toNat + i) % capacity))

section Ring
variable {A : Type} {width capacity : Nat} {cells : Nat → A} {first last : BitVec width} {items : List A}

theorem Ring.empty (cells : Nat → A) (first : BitVec width) : Ring capacity cells first first [] :=
  ⟨by simp, zero_le _, fun i inside => absurd inside (not_lt_zero i)⟩

section
variable (ring : Ring capacity cells first last items)
include ring

theorem Ring.distance (small : capacity < 2 ^ width) : (last - first).toNat = items.length := by
  have fits := ring.fits
  rw [ring.count, BitVec.add_comm, BitVec.add_sub_cancel, BitVec.toNat_ofNat]
  exact mod_eq_of_lt (by omega)

theorem Ring.empty_iff (small : capacity < 2 ^ width) : first = last ↔ items = [] := by
  rw [← length_eq_zero_iff, ← ring.distance small]
  constructor
  · rintro rfl
    simp
  · intro zero
    have same : last - first = 0 := eq_of_toNat_eq (by simpa using zero)
    exact (BitVec.sub_eq_iff_eq_add.mp same).symm ▸ by simp

theorem Ring.full_iff (small : capacity < 2 ^ width) :
    last = first + BitVec.ofNat width capacity ↔ items.length = capacity := by
  rw [← ring.distance small]
  constructor
  · rintro rfl
    rw [BitVec.add_comm, BitVec.add_sub_cancel, BitVec.toNat_ofNat]
    exact mod_eq_of_lt small
  · intro full
    have same : last - first = BitVec.ofNat width capacity := by
      apply eq_of_toNat_eq
      rw [full, toNat_ofNat, mod_eq_of_lt small]
    rw [BitVec.sub_eq_iff_eq_add] at same
    rw [same, BitVec.add_comm]

end

/-- The wrap of the counters keeps the cell numbers because the capacity divides the range of a counter. -/
theorem toNat_add_mod (divides : capacity ∣ 2 ^ width) (counter : BitVec width) (i : Nat) :
    (counter + BitVec.ofNat width i).toNat % capacity = (counter.toNat + i) % capacity := by
  rw [toNat_add, toNat_ofNat, mod_mod_of_dvd _ divides, add_mod, mod_mod_of_dvd _ divides,
    ← add_mod]

/-- Two distances below the capacity lead to different cells. -/
theorem cell_ne {start i other : Nat} (before : i < other) (inside : other < capacity) :
    (start + i) % capacity ≠ (start + other) % capacity := by
  intro same
  have divides : capacity ∣ start + other - (start + i) := (modEq_iff_dvd' (by omega)).mp same
  have := le_of_dvd (by omega) divides
  omega

/-- A new item goes to the cell of the last counter. -/
theorem Ring.push (ring : Ring capacity cells first last items) (divides : capacity ∣ 2 ^ width)
    (room : items.length < capacity) (item : A) :
    Ring capacity (Function.update cells (last.toNat % capacity) item) first (last + 1) (items ++ [item]) := by
  have place : last.toNat % capacity = (first.toNat + items.length) % capacity := by
    rw [ring.count]
    exact toNat_add_mod divides first items.length
  refine ⟨?_, ?_, ?_⟩
  · rw [ring.count, length_append, length_singleton, BitVec.add_assoc, BitVec.ofNat_add]
    rfl
  · rw [length_append, length_singleton]
    exact room
  · intro i inside
    rw [length_append, length_singleton] at inside
    rw [place]
    rcases Nat.lt_succ_iff_lt_or_eq.mp inside with earlier | rfl
    · rw [getElem?_append_left earlier, Function.update_of_ne (cell_ne earlier room)]
      exact ring.held i earlier
    · rw [getElem?_concat_length, Function.update_self]

/-- The oldest item is in the cell of the first counter. -/
theorem Ring.pop {item : A} {rest : List A} (ring : Ring capacity cells first last (item :: rest))
    (divides : capacity ∣ 2 ^ width) :
    cells (first.toNat % capacity) = item ∧ Ring capacity cells (first + 1) last rest := by
  have head := ring.held 0 (succ_pos _)
  rw [getElem?_cons_zero, add_zero] at head
  refine ⟨(Option.some.inj head).symm, ?_, ?_, ?_⟩
  · rw [ring.count, length_cons, add_comm rest.length 1, BitVec.ofNat_add, ← BitVec.add_assoc]
    rfl
  · exact (le_succ _).trans ring.fits
  · intro i inside
    have next := ring.held (i + 1) (succ_lt_succ inside)
    rw [getElem?_cons_succ] at next
    have shifted : ((first + 1).toNat + i) % capacity = (first.toNat + (i + 1)) % capacity := by
      have step := toNat_add_mod divides first 1
      rw [add_mod, show first + 1 = first + BitVec.ofNat width 1 from rfl, step, ← add_mod]
      congr 1
      omega
    rw [shifted, next]

end Ring
end Xv6.Library
