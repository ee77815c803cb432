import Mathlib.Tactic

namespace Xv6.Library
open Function List

section Radix
variable {N : Type} {depth : Nat} {width : Nat → Nat} {child other : N → Nat → Option N} {root : N}
  {tree : List Nat → Option N}

/-- The links of the nodes form a tree. The function `tree` maps the path of each node to the node, and a
node at depth `d` has `width d` links. No node is reached along two paths. -/
structure Radix (depth : Nat) (width : Nat → Nat) (child : N → Nat → Option N) (root : N)
    (tree : List Nat → Option N) : Prop where
  root : tree [] = some root
  child : ∀ {path node index}, tree path = some node → path.length < depth → index < width path.length →
    child node index = tree (path ++ [index])
  parent : ∀ {path index}, tree (path ++ [index]) ≠ none →
    tree path ≠ none ∧ path.length < depth ∧ index < width path.length
  injective : ∀ {first second node}, tree first = some node → tree second = some node → first = second

namespace Radix
variable {path : List Nat} {table : N} {index : Nat}

variable (radix : Radix depth width child root tree)
include radix

theorem length_le (present : tree path ≠ none) : path.length ≤ depth := by
  induction path using reverseRecOn with
  | nil => exact Nat.zero_le depth
  | append_singleton path index _ =>
    rw [length_append, length_singleton]
    exact (radix.parent present).2.1

theorem ancestor (rest : List Nat) (present : tree (path ++ rest) ≠ none) : tree path ≠ none := by
  induction rest using reverseRecOn with
  | nil => rwa [append_nil] at present
  | append_singleton rest index ih =>
    rw [← append_assoc] at present
    exact ih (radix.parent present).1

/-- Only the links of the nodes matter. -/
theorem congr (same : ∀ {path node index}, tree path = some node → path.length < depth → index < width path.length →
      other node index = child node index) : Radix depth width other root tree where
  root := radix.root
  child here deep inside := (same here deep inside).trans (radix.child here deep inside)
  parent := radix.parent
  injective := radix.injective

/-- One link changes with its place in the tree. -/
theorem relink {place : List Nat} {node : N} {i : Nat} {link : Option N} (here : tree path = some table)
    (linked : other table index = link)
    (same : ∀ {place node i}, tree place = some node → place.length < depth → i < width place.length →
      (node ≠ table ∨ i ≠ index) → other node i = child node i)
    (found : tree place = some node) (bounded : place.length < depth) (within : i < width place.length) :
    other node i = update tree (path ++ [index]) link (place ++ [i]) := by
  by_cases slot : node = table ∧ i = index
  · obtain ⟨rfl, rfl⟩ := slot
    rw [radix.injective found here, update_self, linked]
  · rw [same found bounded within (by tauto), radix.child found bounded within]
    refine (update_of_ne (fun equal => slot ?_) _ _).symm
    obtain ⟨rfl, rfl⟩ := append_singleton_inj.mp equal
    exact ⟨Option.some.inj (found.symm.trans here), rfl⟩

/-- A new node is linked at a vacant place. -/
theorem grow {page : N} (here : tree path = some table) (deep : path.length < depth)
    (inside : index < width path.length) (vacant : tree (path ++ [index]) = none)
    (fresh : ∀ place, tree place ≠ some page) (linked : other table index = some page)
    (empty : path.length + 1 < depth → ∀ i, other page i = none)
    (same : ∀ {place node i}, tree place = some node → place.length < depth → i < width place.length →
      (node ≠ table ∨ i ≠ index) → other node i = child node i) :
    Radix depth width other root (update tree (path ++ [index]) (some page)) where
  root := by
    rw [update_of_ne (by simp), radix.root]
  child := by
    intro place node i found bounded within
    by_cases new : place = path ++ [index]
    · subst new
      rw [update_self] at found
      cases found
      rw [update_of_ne (by simp)]
      rw [length_append, length_singleton] at bounded
      rw [empty bounded i]
      by_contra present
      exact (radix.parent (Ne.symm present)).1 vacant
    · rw [update_of_ne new] at found
      exact radix.relink here linked same found bounded within
  parent := by
    intro place i present
    by_cases new : place ++ [i] = path ++ [index]
    · obtain ⟨rfl, rfl⟩ := append_singleton_inj.mp new
      refine ⟨?_, deep, inside⟩
      rw [update_of_ne (by simp), here]
      exact Option.some_ne_none table
    · rw [update_of_ne new] at present
      obtain ⟨above, bounds⟩ := radix.parent present
      refine ⟨?_, bounds⟩
      rw [update_of_ne (by rintro rfl; exact above vacant)]
      exact above
  injective := by
    intro first second node one two
    rw [update_apply] at one two
    split at one <;> split at two
    · simp_all
    · exact absurd (two.trans one.symm) (by simpa using fresh second)
    · exact absurd (one.trans two.symm) (by simpa using fresh first)
    · exact radix.injective one two

theorem prune (here : tree path = some table) (last : path.length + 1 = depth) (unlinked : other table index = none)
    (same : ∀ {place node i}, tree place = some node → place.length < depth → i < width place.length →
      (node ≠ table ∨ i ≠ index) → other node i = child node i) :
    Radix depth width other root (update tree (path ++ [index]) none) where
  root := by
    rw [update_of_ne (by simp), radix.root]
  child := by
    intro place node i found bounded within
    have outside : place ≠ path ++ [index] := by
      rintro rfl
      rw [length_append, length_singleton] at bounded
      omega
    rw [update_of_ne outside] at found
    exact radix.relink here unlinked same found bounded within
  parent := by
    intro place i present
    have outside : place ++ [i] ≠ path ++ [index] := by
      intro equal
      rw [equal, update_self] at present
      exact present rfl
    rw [update_of_ne outside] at present
    obtain ⟨above, bounds⟩ := radix.parent present
    refine ⟨?_, bounds⟩
    have shallow : place ≠ path ++ [index] := by
      rintro rfl
      rw [length_append, length_singleton] at bounds
      omega
    rwa [update_of_ne shallow]
  injective := by
    intro first second node one two
    rw [update_apply] at one two
    split at one <;> split at two <;> try contradiction
    exact radix.injective one two

end Radix
end Radix
end Xv6.Library
