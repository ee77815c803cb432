import Mathlib.Tactic

namespace Xv6.Library
open Function

section Ownership
variable {X B : Type} {inside reserved used after : B → Prop} {held : X → Option B} {unit : B} {place : X}

/-- Each place holds at most one unit and no two places hold the same one. The used units are the reserved and the
held ones. -/
structure Owned (inside reserved used : B → Prop) (held : X → Option B) : Prop where
  unique : ∀ place other unit, held place = some unit → held other = some unit → place = other
  proper : ∀ place unit, held place = some unit → inside unit ∧ ¬reserved unit
  exactly : ∀ unit, inside unit → (used unit ↔ reserved unit ∨ ∃ place, held place = some unit)

section
variable (owned : Owned inside reserved used held)
include owned

theorem Owned.fresh (within : inside unit) (free : ¬used unit) : ¬reserved unit ∧ ∀ place, held place ≠ some unit := by
  rw [owned.exactly unit within, not_or, not_exists] at free
  exact free

theorem Owned.used_of_held (holds : held place = some unit) : used unit :=
  (owned.exactly unit (owned.proper place unit holds).1).mpr (.inr ⟨place, holds⟩)

theorem Owned.congr (same : ∀ unit, inside unit → (after unit ↔ used unit)) : Owned inside reserved after held where
  unique := owned.unique
  proper := owned.proper
  exactly unit within := (same unit within).trans (owned.exactly unit within)

end

variable [DecidableEq X]

theorem Owned.take (owned : Owned inside reserved used held) (within : inside unit) (free : ¬used unit)
    (empty : held place = none) (marked : ∀ other, inside other → (after other ↔ used other ∨ other = unit)) :
    Owned inside reserved after (update held place (some unit)) where
  unique first second other one two := by
    obtain ⟨_, unheld⟩ := owned.fresh within free
    rw [update_apply] at one two
    split at one <;> split at two
    · next left right => exact left.trans right.symm
    · exact absurd (two.trans one.symm) (unheld second)
    · exact absurd (one.trans two.symm) (unheld first)
    · exact owned.unique first second other one two
  proper first other one := by
    rw [update_apply] at one
    split at one
    · cases one
      exact ⟨within, (owned.fresh within free).1⟩
    · exact owned.proper first other one
  exactly other near := by
    rw [marked other near, owned.exactly other near, or_assoc]
    refine or_congr_right ⟨?_, ?_⟩
    · rintro (⟨first, one⟩ | rfl)
      · refine ⟨first, ?_⟩
        rw [update_of_ne, one]
        rintro rfl
        cases empty.symm.trans one
      · exact ⟨place, update_self ..⟩
    · rintro ⟨first, one⟩
      rw [update_apply] at one
      split at one
      · exact .inr (Option.some.inj one).symm
      · exact .inl ⟨first, one⟩

theorem Owned.drop (owned : Owned inside reserved used held) (holds : held place = some unit)
    (marked : ∀ other, inside other → (after other ↔ used other ∧ other ≠ unit)) :
    Owned inside reserved after (update held place none) where
  unique first second other one two := by
    rw [update_apply] at one two
    split at one <;> split at two
    · cases one
    · cases one
    · cases two
    · exact owned.unique first second other one two
  proper first other one := by
    rw [update_apply] at one
    split at one
    · cases one
    · exact owned.proper first other one
  exactly other near := by
    rw [marked other near, owned.exactly other near]
    constructor
    · rintro ⟨reserved | ⟨first, one⟩, ne⟩
      · exact .inl reserved
      · refine .inr ⟨first, ?_⟩
        rw [update_of_ne, one]
        rintro rfl
        exact ne (Option.some.inj (one.symm.trans holds))
    · rintro (reserved | ⟨first, one⟩)
      · refine ⟨.inl reserved, ?_⟩
        rintro rfl
        exact (owned.proper place other holds).2 reserved
      · rw [update_apply] at one
        split at one
        · cases one
        · next apart =>
            refine ⟨.inr ⟨first, one⟩, ?_⟩
            rintro rfl
            exact apart (owned.unique first place other one holds)

end Ownership
end Xv6.Library
