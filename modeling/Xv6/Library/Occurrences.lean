import Mathlib.Data.Fintype.Card
import Mathlib.Logic.Function.Basic
import Mathlib.Tactic

namespace Xv6.Library
open Finset

section Occurrences
variable {I A : Type} [Fintype I] [DecidableEq A] {table : I → A} {value : A}

/-- The number of places at which a table has a value. -/
def occurrences (table : I → A) (value : A) : Nat := (Finset.univ.filter fun i => table i = value).card

theorem occurrences_pos : 0 < occurrences table value ↔ ∃ i, table i = value := by
  rw [occurrences, card_pos]
  constructor
  · rintro ⟨i, member⟩
    exact ⟨i, (mem_filter.mp member).2⟩
  · rintro ⟨i, same⟩
    exact ⟨i, mem_filter.mpr ⟨mem_univ i, same⟩⟩

theorem occurrences_eq_zero : occurrences table value = 0 ↔ ∀ i, table i ≠ value := by
  rw [← not_iff_not, ← ne_eq, ← Nat.pos_iff_ne_zero, occurrences_pos]
  push Not
  rfl

variable [DecidableEq I]

/-- The places other than one place. -/
def occurrencesElsewhere (table : I → A) (value : A) (i : I) : Nat :=
  (Finset.univ.filter fun j => j ≠ i ∧ table j = value).card

theorem occurrences_split (table : I → A) (value : A) (i : I) :
    occurrences table value = occurrencesElsewhere table value i + if table i = value then 1 else 0 := by
  have parts : (univ.filter fun j => table j = value) =
      (univ.filter fun j => j ≠ i ∧ table j = value) ∪ (if table i = value then {i} else ∅) := by
    ext j
    by_cases here : j = i
    · subst here
      by_cases same : table j = value <;> simp [same]
    · by_cases same : table i = value <;> simp [here, same]
  have apart : Disjoint (univ.filter fun j => j ≠ i ∧ table j = value) (if table i = value then {i} else ∅) := by
    split <;> simp
  rw [occurrences, parts, card_union_of_disjoint apart, occurrencesElsewhere]
  split <;> rfl

/-- A change of one place moves one occurrence from the old value to the new one. -/
theorem occurrences_update (table : I → A) (i : I) (new value : A) :
    occurrences (Function.update table i new) value + (if table i = value then 1 else 0) =
      occurrences table value + if new = value then 1 else 0 := by
  have elsewhere : occurrencesElsewhere (Function.update table i new) value i = occurrencesElsewhere table value i := by
    rw [occurrencesElsewhere, occurrencesElsewhere]
    congr 1
    ext j
    by_cases here : j = i <;> simp [here]
  rw [occurrences_split (Function.update table i new) value i, occurrences_split table value i, elsewhere,
    Function.update_self]
  omega

end Occurrences
end Xv6.Library
