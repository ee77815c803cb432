import Mathlib.Tactic

namespace Xv6.Library
open List Function

section Writes
variable {A B : Type} [DecidableEq A] {write : A × B} {before after : A → B}

/-- The writes reach the store in order. -/
def applyWrites : List (A × B) → (A → B) → A → B
  | [], store => store
  | write :: rest, store => applyWrites rest (Function.update store write.1 write.2)

@[simp] theorem applyWrites_nil (store : A → B) : applyWrites [] store = store := rfl

@[simp] theorem applyWrites_cons (write : A × B) (rest : List (A × B)) (store : A → B) :
    applyWrites (write :: rest) store = applyWrites rest (update store write.1 write.2) := rfl

theorem applyWrites_append (first second : List (A × B)) (store : A → B) :
    applyWrites (first ++ second) store = applyWrites second (applyWrites first store) := by
  induction first generalizing store with
  | nil => rfl
  | cons write rest ih => exact ih (update store write.1 write.2)

/-- An address outside the writes keeps its value. -/
theorem applyWrites_other (writes : List (A × B)) (store : A → B) (address : A)
    (untouched : ∀ write ∈ writes, write.1 ≠ address) : applyWrites writes store address = store address := by
  induction writes generalizing store with
  | nil => rfl
  | cons write rest ih =>
    rw [applyWrites_cons, ih _ fun later member => untouched later (mem_cons_of_mem _ member)]
    exact update_of_ne (untouched write (.head _)).symm _ _

/-- The last write decides the value, so distinct addresses keep what was written to them. -/
theorem applyWrites_mem (writes : List (A × B)) (store : A → B) (distinct : (writes.map Prod.fst).Nodup)
    (member : write ∈ writes) : applyWrites writes store write.1 = write.2 := by
  induction writes generalizing store with
  | nil => exact absurd member not_mem_nil
  | cons first rest ih =>
    obtain ⟨fresh, later⟩ := nodup_cons.mp distinct
    rcases mem_cons.mp member with rfl | inRest
    · rw [applyWrites_cons, applyWrites_other rest _ _ ?_, update_self]
      intro other otherMember equal
      exact fresh (equal ▸ mem_map_of_mem otherMember)
    · exact ih _ later inRest

/-- A cut leaves a prefix of the writes on the store. -/
def Cut (writes : List (A × B)) (before after : A → B) : Prop :=
  ∃ done, done <+: writes ∧ after = applyWrites done before

theorem cut_nil (cut : Cut [] before after) : after = before := by
  obtain ⟨done, reached, rfl⟩ := cut
  rw [prefix_nil.mp reached, applyWrites_nil]

/-- A cut falls inside the first write sequence or inside the second. -/
theorem cut_append {first second : List (A × B)} (cut : Cut (first ++ second) before after) :
    Cut first before after ∨ Cut second (applyWrites first before) after := by
  obtain ⟨done, reached, rfl⟩ := cut
  rcases prefix_or_prefix_of_prefix reached (prefix_append first second) with inFirst | ⟨rest, rfl⟩
  · exact .inl ⟨done, inFirst, rfl⟩
  · exact .inr ⟨rest, (prefix_append_right_inj first).mp reached, applyWrites_append first rest before⟩

/-- A cut around one atomic write happens before it or after it. -/
theorem cut_single (cut : Cut [write] before after) :
    after = before ∨ after = update before write.1 write.2 := by
  obtain ⟨done, reached, rfl⟩ := cut
  cases done with
  | nil => exact .inl rfl
  | cons head rest =>
    obtain ⟨rfl, empty⟩ := cons_prefix_cons.mp reached
    rw [prefix_nil.mp empty]
    exact .inr rfl

/-- A property that every write preserves holds at every cut. -/
theorem cut_invariant {writes : List (A × B)} (property : (A → B) → Prop)
    (preserved : ∀ write ∈ writes, ∀ store, property store → property (update store write.1 write.2))
    (initial : property before) (cut : Cut writes before after) : property after := by
  obtain ⟨done, reached, rfl⟩ := cut
  induction done generalizing before writes with
  | nil => exact initial
  | cons write rest ih =>
    cases writes with
    | nil => exact absurd (prefix_nil.mp reached) (cons_ne_nil _ _)
    | cons head tail =>
      obtain ⟨rfl, inTail⟩ := cons_prefix_cons.mp reached
      exact ih (fun later member => preserved later (mem_cons_of_mem _ member))
        (preserved write (.head _) before initial) inTail

theorem cut_complete (writes : List (A × B)) (store : A → B) :
    Cut writes store (applyWrites writes store) := ⟨writes, prefix_rfl, rfl⟩

/-- A recovery procedure runs any number of times and each run may be cut off.
The procedure is undefined on the stores where it returns no write sequence. -/
inductive CutRuns (recovery : (A → B) → Option (List (A × B))) : (A → B) → (A → B) → Prop where
  | rest (store : A → B) : CutRuns recovery store store
  | again {first second third : A → B} {writes : List (A × B)}
      (earlier : CutRuns recovery first second) (runs : recovery second = some writes)
      (cut : Cut writes second third) : CutRuns recovery first third

/-- A property that every cut of one recovery preserves survives all interrupted recoveries. -/
theorem CutRuns.invariant {recovery : (A → B) → Option (List (A × B))} (property : (A → B) → Prop)
    (preserved : ∀ store writes after, property store → recovery store = some writes →
      Cut writes store after → property after) {first last : A → B} (runs : CutRuns recovery first last)
    (initial : property first) : property last := by
  induction runs with
  | rest => exact initial
  | again earlier ran cut ih => exact preserved _ _ _ ih ran cut

end Writes
end Xv6.Library
