import Mathlib.Tactic

namespace Xv6.Library

section LinkedList
variable {P : Type} {next : P → Option P} {null : P} {p node : P} {nodes before after : List P}

/-- The links lead from the pointer through the listed nodes to the null pointer. -/
def Linked (next : P → Option P) (null : P) : P → List P → Prop
  | p, [] => p = null
  | p, node :: rest => p = node ∧ p ≠ null ∧ ∃ q, next p = some q ∧ Linked next null q rest

theorem Linked.start (linked : Linked next null p nodes) : p = nodes.headD null := by
  cases nodes with
  | nil => exact linked
  | cons node rest => exact linked.1

theorem Linked.ne_null (linked : Linked next null p nodes) (member : node ∈ nodes) : node ≠ null := by
  induction nodes generalizing p with
  | nil => cases member
  | cons first rest ih =>
    obtain ⟨rfl, nonnull, q, link, tail⟩ := linked
    rcases List.mem_cons.mp member with rfl | inside
    · exact nonnull
    · exact ih tail inside

/-- The links from an inner node lead through the rest of the list. -/
theorem Linked.suffix (linked : Linked next null p (before ++ node :: after))
    : Linked next null node (node :: after) := by
  induction before generalizing p with
  | nil =>
    obtain ⟨rfl, rest⟩ := linked
    exact ⟨rfl, rest⟩
  | cons first rest ih =>
    obtain ⟨_, _, q, _, tail⟩ := linked
    exact ih tail

theorem Linked.next_eq (linked : Linked next null p (before ++ node :: after))
    : next node = some (after.headD null) := by
  obtain ⟨_, _, q, link, tail⟩ := linked.suffix
  rw [link, tail.start]

/-- Each node of the list comes with its link, and the last link is null. -/
def Chained (null : P) : List (P × P) → Prop
  | [] => True
  | [node] => node.2 = null
  | node :: following :: rest => node.2 = following.1 ∧ Chained null (following :: rest)

/-- Nodes with known links form a list exactly when the links chain them in order. -/
theorem linked_iff_chained {nodes : List (P × P)} (nonnull : ∀ node ∈ nodes, node.1 ≠ null)
    (links : ∀ node ∈ nodes, next node.1 = some node.2) :
    Linked next null ((nodes.map Prod.fst).headD null) (nodes.map Prod.fst) ↔ Chained null nodes := by
  induction nodes with
  | nil => exact iff_of_true rfl trivial
  | cons node rest ih =>
    have later := ih (fun other member => nonnull other (List.mem_cons_of_mem node member))
      fun other member => links other (List.mem_cons_of_mem node member)
    have first : node.1 ≠ null := nonnull node List.mem_cons_self
    have link : next node.1 = some node.2 := links node List.mem_cons_self
    cases rest with
    | nil => simp [Linked, Chained, first, link]
    | cons following rest =>
      constructor
      · rintro ⟨_, _, q, found, tail⟩
        obtain rfl : node.2 = q := Option.some.inj (link.symm.trans found)
        have same : node.2 = following.1 := tail.start
        rw [same] at tail
        exact ⟨same, later.mp tail⟩
      · rintro ⟨same, tail⟩
        exact ⟨rfl, first, node.2, link, same ▸ later.mpr tail⟩

end LinkedList
end Xv6.Library
