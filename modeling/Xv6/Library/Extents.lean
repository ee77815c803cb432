import Mathlib.Tactic

namespace Xv6.Library
open List Nat

/-- An extent is a run of units of equal width. -/
structure Extent where
  start : Nat
  units : Nat
  deriving DecidableEq

section Extents
variable {width bound : Nat} {first second block : Extent} {spans before after : List Extent} {extent outer : Extent}

/-- The first address after the extent. -/
def Extent.stop (width : Nat) (extent : Extent) : Nat := extent.start + width * extent.units

theorem Extent.start_le_stop (width : Nat) (extent : Extent) : extent.start ≤ extent.stop width :=
  Nat.le_add_right ..

/-- Two extents do not overlap. -/
def Extent.Apart (width : Nat) (first second : Extent) : Prop :=
  first.stop width ≤ second.start ∨ second.stop width ≤ first.start

theorem Extent.Apart.symm (apart : first.Apart width second) : second.Apart width first := Or.symm apart

/-- The extents are in order, and none of them touches the next one. -/
def Spaced (width : Nat) (spans : List Extent) : Prop :=
  spans.Pairwise fun first second => first.stop width < second.start

/-- All units of the extents. -/
def totalUnits (spans : List Extent) : Nat := (spans.map Extent.units).sum

@[simp] theorem totalUnits_nil : totalUnits [] = 0 := rfl

@[simp] theorem totalUnits_cons (extent : Extent) (spans : List Extent) :
    totalUnits (extent :: spans) = extent.units + totalUnits spans := rfl

@[simp] theorem totalUnits_append (first second : List Extent) :
    totalUnits (first ++ second) = totalUnits first + totalUnits second := by
  simp [totalUnits]

theorem units_le_totalUnits (inside : extent ∈ spans) : extent.units ≤ totalUnits spans := by
  induction spans with
  | nil => cases inside
  | cons head rest ih =>
    rw [totalUnits_cons]
    rcases mem_cons.mp inside with rfl | inside
    · omega
    · have := ih inside
      omega

theorem Spaced.nodup (spaced : Spaced width spans) : (spans.map Extent.start).Nodup := by
  rw [List.Nodup, pairwise_map]
  apply List.Pairwise.imp _ spaced
  intro first second between same
  have := first.start_le_stop width
  omega

/-- An extent is put before the others and joined with the next one if they touch. -/
def join (width : Nat) (block : Extent) : List Extent → List Extent
  | [] => [block]
  | next :: rest =>
    if block.stop width = next.start then ⟨block.start, block.units + next.units⟩ :: rest
    else block :: next :: rest

theorem join_totalUnits : totalUnits (join width block after) = block.units + totalUnits after := by
  cases after with
  | nil => rfl
  | cons next rest =>
    rw [join]
    split
    · simp only [totalUnits_cons]
      omega
    · rfl

theorem join_length (width : Nat) (block : Extent) (after : List Extent) :
    (join width block after).length ≤ after.length + 1 := by
  cases after with
  | nil => exact le_rfl
  | cons next rest =>
    rw [join]
    split <;> simp

/-- A joined list starts where the new extent starts. -/
theorem join_head (width : Nat) (block : Extent) (after : List Extent) :
    ∃ extent rest, join width block after = extent :: rest ∧ extent.start = block.start ∧
      block.units ≤ extent.units := by
  cases after with
  | nil => exact ⟨block, [], rfl, rfl, le_rfl⟩
  | cons next rest =>
    rw [join]
    split
    · exact ⟨_, rest, rfl, rfl, Nat.le_add_right ..⟩
    · exact ⟨block, next :: rest, rfl, rfl, le_rfl⟩

/-- Every extent of a joined list covers the new extent or is an old one. -/
theorem mem_join (inside : extent ∈ join width block after) :
    extent.start = block.start ∧ block.units ≤ extent.units ∨ extent ∈ after := by
  cases after with
  | nil =>
    obtain rfl := mem_singleton.mp inside
    exact .inl ⟨rfl, le_rfl⟩
  | cons next rest =>
    rw [join] at inside
    split at inside
    · rcases mem_cons.mp inside with rfl | inside
      · exact .inl ⟨rfl, Nat.le_add_right ..⟩
      · exact .inr (mem_cons_of_mem _ inside)
    · rcases mem_cons.mp inside with rfl | inside
      · exact .inl ⟨rfl, le_rfl⟩
      · exact .inr inside

/-- The new extent is part of an extent of a joined list. -/
theorem exists_le_join (width : Nat) (block : Extent) (after : List Extent) :
    ∃ extent ∈ join width block after, block.units ≤ extent.units := by
  obtain ⟨extent, rest, same, _, covers⟩ := join_head width block after
  exact ⟨extent, same ▸ (.head _), covers⟩

/-- Every old extent is part of an extent of a joined list. -/
theorem exists_le_join_of_mem (width : Nat) (block : Extent) (inside : extent ∈ after) :
    ∃ whole ∈ join width block after, extent.units ≤ whole.units := by
  cases after with
  | nil => cases inside
  | cons next rest =>
    rw [join]
    split
    · rcases mem_cons.mp inside with rfl | inside
      · exact ⟨_, .head _, Nat.le_add_left ..⟩
      · exact ⟨extent, mem_cons_of_mem _ inside, le_rfl⟩
    · exact ⟨extent, mem_cons_of_mem _ inside, le_rfl⟩

theorem stop_add (touches : first.stop width = second.start) :
    Extent.stop width ⟨first.start, first.units + second.units⟩ = second.stop width := by
  simp only [Extent.stop] at touches ⊢
  rw [mul_add]
  omega

theorem Spaced.join (spaced : Spaced width after) (fits : ∀ extent ∈ after, block.stop width ≤ extent.start) :
    Spaced width (join width block after) := by
  cases after with
  | nil => exact pairwise_singleton ..
  | cons next rest =>
    obtain ⟨gaps, tail⟩ := pairwise_cons.mp spaced
    rw [Library.join]
    split
    case isTrue touches =>
      apply pairwise_cons.mpr ⟨_, tail⟩
      intro extent inside
      rw [stop_add touches]
      exact gaps extent inside
    case isFalse gap =>
      apply pairwise_cons.mpr ⟨_, spaced⟩
      intro extent inside
      have near := fits next mem_cons_self
      have ordered := next.start_le_stop width
      rcases mem_cons.mp inside with rfl | inside
      · omega
      · have := gaps extent inside
        omega

theorem join_stop_le (within : block.stop width ≤ bound) (others : ∀ extent ∈ after, extent.stop width ≤ bound) :
    ∀ extent ∈ join width block after, extent.stop width ≤ bound := by
  cases after with
  | nil =>
    intro extent inside
    rwa [mem_singleton.mp inside]
  | cons next rest =>
    intro extent inside
    rw [join] at inside
    split at inside
    case isTrue touches =>
      rcases mem_cons.mp inside with rfl | inside
      · rw [stop_add touches]
        exact others next mem_cons_self
      · exact others extent (mem_cons_of_mem _ inside)
    case isFalse =>
      rcases mem_cons.mp inside with rfl | inside
      · exact within
      · exact others extent inside

/-- What overlaps none of the parts does not overlap the joined extents. -/
theorem join_apart (positive : 0 < width) (nonempty : 0 < outer.units) (apart : outer.Apart width block)
    (others : ∀ extent ∈ after, outer.Apart width extent) :
    ∀ extent ∈ join width block after, outer.Apart width extent := by
  cases after with
  | nil =>
    intro extent inside
    rwa [mem_singleton.mp inside]
  | cons next rest =>
    intro extent inside
    rw [join] at inside
    split at inside
    case isTrue touches =>
      rcases mem_cons.mp inside with rfl | inside
      · have beside := others next mem_cons_self
        have long : outer.start < outer.stop width := by
          simp only [Extent.stop]
          have := mul_pos positive nonempty
          omega
        unfold Extent.Apart at apart beside ⊢
        rw [stop_add touches]
        rcases apart with early | late
        · exact .inl early
        · rcases beside with early | later
          · omega
          · exact .inr later
      · exact others extent (mem_cons_of_mem _ inside)
    case isFalse =>
      rcases mem_cons.mp inside with rfl | inside
      · exact apart
      · exact others extent inside

/-- An extent that starts earlier and does not overlap also ends before the other one. -/
theorem Extent.Apart.stop_le (apart : block.Apart width first) (early : first.start < block.start) :
    first.stop width ≤ block.start := by
  have ordered := block.start_le_stop width
  rcases apart with before | after
  · omega
  · exact after

/-- The first extent is inside of the second one. -/
def Extent.Within (width : Nat) (first second : Extent) : Prop :=
  second.start ≤ first.start ∧ first.stop width ≤ second.stop width

theorem Extent.Apart.within (apart : outer.Apart width second) (within : first.Within width second) :
    outer.Apart width first := by
  obtain ⟨above, below⟩ := within
  unfold Extent.Apart at apart ⊢
  omega

/-- Two nonempty extents that do not overlap start at different addresses. -/
theorem Extent.Apart.start_ne (apart : first.Apart width second) (positive : 0 < width) (some : 0 < first.units)
    (more : 0 < second.units) : first.start ≠ second.start := by
  have long := mul_pos positive some
  have wide := mul_pos positive more
  simp only [Extent.Apart, Extent.stop] at apart
  omega

/-- In an ordered list there is a last extent before a new one. -/
theorem Spaced.split {head : Extent} (positive : 0 < width) (spaced : Spaced width (head :: spans))
    (full : ∀ extent ∈ spans, 0 < extent.units) (early : head.start < block.start)
    (apart : ∀ extent ∈ head :: spans, block.Apart width extent) :
    ∃ before last after, head :: spans = before ++ last :: after ∧ last.start < block.start ∧
      last.stop width ≤ block.start ∧ ∀ extent ∈ after, block.stop width ≤ extent.start := by
  induction spans generalizing head with
  | nil => exact ⟨[], head, [], rfl, early, (apart head (.head _)).stop_le early, nofun⟩
  | cons next rest ih =>
    obtain ⟨gaps, tail⟩ := pairwise_cons.mp spaced
    by_cases later : next.start < block.start
    · obtain ⟨before, last, after, same, facts⟩ :=
        ih tail (fun extent inside => full extent (mem_cons_of_mem _ inside)) later
          fun extent inside => apart extent (mem_cons_of_mem _ inside)
      exact ⟨head :: before, last, after, by rw [same, cons_append], facts⟩
    · refine ⟨[], head, next :: rest, rfl, early, (apart head (.head _)).stop_le early, ?_⟩
      have long : next.start < next.stop width := by
        have := mul_pos positive (full next (.head _))
        simp only [Extent.stop]
        omega
      have above : block.stop width ≤ next.start := by
        rcases apart next (mem_cons_of_mem _ (.head _)) with above | below
        · exact above
        · omega
      intro extent inside
      rcases mem_cons.mp inside with rfl | inside
      · exact above
      · have := (pairwise_cons.mp tail).1 extent inside
        omega

end Extents
end Xv6.Library
