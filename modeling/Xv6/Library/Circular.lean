import Mathlib.Tactic

namespace Xv6.Library
open Function
open scoped List

section Circular
variable {P : Type} {next other : P → P} {a node b first : P} {before after nodes : List P} {found : P → Prop}
  {fuel : Nat}

/-- The links lead from the first node through the listed nodes to the last one. -/
def Segment (next : P → P) : P → List P → P → Prop
  | a, [], b => next a = b
  | a, node :: rest, b => next a = node ∧ Segment next node rest b

theorem segment_append :
    Segment next a (before ++ node :: after) b ↔ Segment next a before node ∧ Segment next node after b := by
  induction before generalizing a with
  | nil => exact Iff.rfl
  | cons first rest ih =>
    rw [List.cons_append, Segment, Segment, ih, and_assoc]

/-- Only the links of the first and the inner nodes count. -/
theorem Segment.congr (segment : Segment next a nodes b) (same : ∀ node ∈ a :: nodes, other node = next node) :
    Segment other a nodes b := by
  induction nodes generalizing a with
  | nil => exact (same a (.head _)).trans segment
  | cons node rest ih =>
    constructor
    · exact (same a (.head _)).trans segment.1
    · exact ih segment.2 fun inner inside => same inner (List.mem_cons_of_mem _ inside)

/-- The links lead from the last listed node back to the first one. -/
def Circular (next : P → P) : List P → Prop
  | [] => False
  | node :: rest => Segment next node rest node

/-- A circular list can start at each of its nodes. -/
theorem circular_rotate : Circular next (before ++ node :: after) ↔ Segment next node (after ++ before) node := by
  cases before with
  | nil => rw [List.nil_append, List.append_nil, Circular]
  | cons first rest => rw [List.cons_append, Circular, segment_append, segment_append, and_comm]

theorem Circular.congr (circular : Circular next nodes) (same : ∀ node ∈ nodes, other node = next node) :
    Circular other nodes := by
  cases nodes with
  | nil => exact circular
  | cons node rest => exact .congr circular same

theorem Circular.next_eq (circular : Circular next (before ++ a :: b :: after)) : next a = b :=
  (circular_rotate.mp circular).1

theorem Circular.last_eq (circular : Circular next (before ++ [a])) (starts : (before ++ [a]).head? = some first) :
    next a = first := by
  have segment := circular_rotate.mp circular
  cases before with
  | nil =>
    cases starts
    exact segment
  | cons head rest =>
    cases starts
    exact segment.1

/-- If a node leads to another one that is not the first, then it is the node before it. -/
theorem Circular.split_of_next (circular : Circular next nodes) (starts : nodes.head? = some first)
    (inside : a ∈ nodes) (link : next a = b) (ne : b ≠ first) : ∃ before after, nodes = before ++ a :: b :: after := by
  obtain ⟨before, after, rfl⟩ := List.append_of_mem inside
  cases after with
  | nil => exact absurd (link.symm.trans (circular.last_eq starts)) ne
  | cons node after =>
    obtain rfl : node = b := circular.next_eq.symm.trans link
    exact ⟨before, after, rfl⟩

section Updates
variable [DecidableEq P]

/-- A new node is linked between a node and its successor. -/
theorem Circular.insert (circular : Circular next (before ++ a :: after)) (fresh : b ∉ before ++ a :: after)
    (once : (before ++ a :: after).Nodup) :
    Circular (update (update next b (next a)) a b) (before ++ a :: b :: after) := by
  have segment := circular_rotate.mp circular
  rw [circular_rotate]
  have apart : ∀ node ∈ after ++ before, node ≠ a ∧ node ≠ b := by
    grind
  have ne : b ≠ a := by
    grind
  constructor
  · exact update_self ..
  · change Segment _ b (after ++ before) a
    cases rest : after ++ before with
    | nil =>
      rw [rest] at segment
      change (update (update next b (next a)) a b) b = a
      rw [update_of_ne ne, update_self]
      exact segment
    | cons node inner =>
      rw [rest] at segment apart
      constructor
      · rw [update_of_ne ne, update_self]
        exact segment.1
      · apply segment.2.congr
        intro inside member
        obtain ⟨first, second⟩ := apart inside member
        rw [update_of_ne first, update_of_ne second]

/-- A node is taken out when its predecessor gets its link. -/
theorem Circular.erase (circular : Circular next (before ++ a :: b :: after))
    (once : (before ++ a :: b :: after).Nodup) : Circular (update next a (next b)) (before ++ a :: after) := by
  have segment := circular_rotate.mp circular
  rw [circular_rotate]
  have apart : ∀ node ∈ after ++ before, node ≠ a := by
    grind
  replace segment : Segment next b (after ++ before) a := segment.2
  cases rest : after ++ before with
  | nil =>
    rw [rest] at segment
    exact (update_self ..).trans segment
  | cons node inner =>
    rw [rest] at segment apart
    constructor
    · exact (update_self ..).trans segment.1
    · apply segment.2.congr
      intro inside member
      exact update_of_ne (apart inside member) ..

end Updates

/-- The loop follows the links until it finds a node. -/
def search (next : P → P) (found : P → Prop) [DecidablePred found] : Nat → P → Option P
  | 0, _ => none
  | fuel + 1, node => if found node then some node else search next found fuel (next node)

/-- A search along a segment stops at the first node that is found. -/
theorem Segment.search_eq [DecidablePred found] (segment : Segment next a nodes b)
    (missing : ∀ node ∈ a :: nodes, ¬found node) :
    search next found (fuel + nodes.length + 1) a = search next found fuel b := by
  induction nodes generalizing a with
  | nil =>
    rw [search, if_neg (missing a List.mem_cons_self)]
    exact congrArg _ segment
  | cons node rest ih =>
    have later := ih segment.2 fun inner inside => missing inner (List.mem_cons_of_mem _ inside)
    rw [search, if_neg (missing a List.mem_cons_self), segment.1, List.length_cons, ← add_assoc]
    exact later

/-- A search in a circular list finds the only node that it can find. -/
theorem Circular.search_eq [DecidablePred found] {target : P} (circular : Circular next nodes) (once : nodes.Nodup)
    (inside : a ∈ nodes) (present : target ∈ nodes) (only : ∀ node ∈ nodes, found node ↔ node = target)
    (enough : nodes.length ≤ fuel) : search next found fuel a = some target := by
  obtain ⟨before, after, rfl⟩ := List.append_of_mem inside
  have segment := circular_rotate.mp circular
  have turned : before ++ a :: after ~ a :: (after ++ before) := List.perm_append_comm
  by_cases here : a = target
  · obtain ⟨fuel, rfl⟩ : ∃ rest, fuel = rest + 1 := ⟨fuel - 1, by simp at enough; omega⟩
    rw [search, if_pos ((only a inside).mpr here), here]
  · have later : target ∈ after ++ before := by
      grind
    obtain ⟨early, late, path⟩ := List.append_of_mem later
    rw [path] at segment turned
    obtain ⟨rest, rfl⟩ : ∃ rest, fuel = (rest + 1) + early.length + 1 := by
      have length := turned.length_eq
      simp only [List.length_append, List.length_cons] at length enough
      exact ⟨fuel - early.length - 2, by omega⟩
    rw [(segment_append.mp segment).1.search_eq]
    · rw [search, if_pos ((only target present).mpr rfl)]
    · intro node member found
      have visited : node ∈ before ++ a :: after := turned.mem_iff.mpr (by grind)
      have apart := turned.nodup_iff.mp once
      rw [(only node visited).mp found] at member
      grind

/-- A search from the successor of a head stops at the first found node or at the head. -/
theorem Circular.search_first [DecidablePred found] {head : P} (circular : Circular next (head :: nodes))
    (stops : found head) (enough : nodes.length < fuel) :
    search next found fuel (next head) = some ((nodes.find? fun node => found node).getD head) := by
  replace circular : Segment next head nodes head := circular
  have general : ∀ start, Segment next start nodes head →
      search next found fuel (next start) = some ((nodes.find? fun node => found node).getD head) := by
    clear circular
    induction nodes generalizing fuel with
    | nil =>
      intro start segment
      obtain ⟨fuel, rfl⟩ : ∃ rest, fuel = rest + 1 := ⟨fuel - 1, by omega⟩
      replace segment : next start = head := segment
      rw [segment, search, if_pos stops]
      rfl
    | cons node rest ih =>
      intro start segment
      obtain ⟨fuel, rfl⟩ : ∃ less, fuel = less + 1 := ⟨fuel - 1, by omega⟩
      rw [segment.1, search]
      by_cases here : found node
      · simp [here]
      · rw [if_neg here, List.find?_cons_of_neg (by simpa using here)]
        apply ih
        · simp only [List.length_cons] at enough
          omega
        · exact segment.2
  exact general head circular

section DoublyLinked
variable {prev : P → P} {head b : P} {nodes : List P}

/-- The nodes form a ring with the head, and the backward links lead through them in the opposite order. -/
structure DoublyLinked (next prev : P → P) (head : P) (nodes : List P) : Prop where
  forward : Circular next (head :: nodes)
  backward : Circular prev (head :: nodes.reverse)
  once : (head :: nodes).Nodup

section
variable (linked : DoublyLinked next prev head nodes)
include linked

theorem DoublyLinked.prev_eq (split : head :: nodes = before ++ a :: b :: after) : prev b = a := by
  cases before with
  | nil =>
    obtain ⟨rfl, rfl⟩ := List.cons.inj split
    have backward : Circular prev ((head :: after.reverse) ++ [b]) := by
      simpa using linked.backward
    exact backward.last_eq rfl
  | cons first before =>
    rw [List.cons_append] at split
    obtain ⟨rfl, rfl⟩ := List.cons.inj split
    have backward := linked.backward
    have reversed : head :: (before ++ a :: b :: after).reverse =
        (head :: after.reverse) ++ b :: a :: before.reverse := by
      simp
    rw [reversed] at backward
    exact backward.next_eq

theorem DoublyLinked.next_eq (split : head :: nodes = before ++ a :: b :: after) : next a = b := by
  have forward := linked.forward
  rw [split] at forward
  exact forward.next_eq

theorem DoublyLinked.head_next : next head = nodes.headD head := by
  cases nodes with
  | nil => exact linked.forward
  | cons first rest => exact linked.forward.1

end

theorem DoublyLinked.next_ne (linked : DoublyLinked next prev head (before ++ b :: after)) : next b ≠ b := by
  have once := linked.once
  have circle : Circular next ((head :: before) ++ b :: after) := linked.forward
  cases after with
  | nil =>
    have leads : next b = head := circle.last_eq rfl
    grind
  | cons following rest =>
    have leads : next b = following := circle.next_eq
    grind

variable [DecidableEq P]

/-- A new node is linked behind the head. -/
theorem DoublyLinked.link (linked : DoublyLinked next prev head nodes) (fresh : b ∉ head :: nodes) :
    DoublyLinked (update (update next b (next head)) head b)
      (update (update prev b head) (next head) b) head (b :: nodes) where
  forward := by
    change Circular _ ([] ++ head :: b :: nodes)
    exact .insert linked.forward fresh linked.once
  backward := by
    have once := linked.once
    have reversed : (head :: nodes.reverse).Nodup := by
      simpa using once
    cases nodes with
    | nil =>
      have leads : next head = head := linked.head_next
      have same : prev head = head := linked.backward
      have unseen : b ∉ [] ++ head :: ([] : List P) := fresh
      have inserted := Circular.insert linked.backward unseen reversed
      rw [same] at inserted
      rw [leads]
      exact inserted
    | cons first rest =>
      have leads : next head = first := linked.head_next
      have starts : head :: first :: rest = [] ++ head :: first :: rest := rfl
      have back : prev first = head := linked.prev_eq starts
      have split : head :: (first :: rest).reverse = (head :: rest.reverse) ++ first :: [] := by
        simp
      have backward := linked.backward
      rw [split] at backward reversed
      have unseen : b ∉ (head :: rest.reverse) ++ first :: [] := by
        grind
      have inserted := backward.insert unseen reversed
      rw [back] at inserted
      rw [leads]
      have listed : head :: (b :: first :: rest).reverse = (head :: rest.reverse) ++ first :: b :: [] := by
        simp
      rw [listed]
      exact inserted
  once := by
    grind [linked.once]

/-- A node is taken out when its neighbours are linked to each other. -/
theorem DoublyLinked.unlink (linked : DoublyLinked next prev head (before ++ b :: after)) :
    DoublyLinked (update next (prev b) (next b)) (update prev (next b) (prev b)) head (before ++ after) := by
  have once := linked.once
  obtain ⟨early, a, ends⟩ : ∃ early a, head :: before = early ++ [a] :=
    ⟨_, _, (List.dropLast_append_getLast (List.cons_ne_nil head before)).symm⟩
  have forward : head :: (before ++ b :: after) = early ++ a :: b :: after := by
    rw [← List.cons_append, ends]
    simp
  have back : prev b = a := linked.prev_eq forward
  constructor
  · have circular := linked.forward
    rw [forward] at circular once
    have shorter : head :: (before ++ after) = early ++ a :: after := by
      rw [← List.cons_append, ends]
      simp
    rw [back, shorter]
    exact circular.erase once
  · have circular := linked.backward
    have reversed : (head :: (before ++ b :: after).reverse).Nodup := by
      rw [List.nodup_cons, List.mem_reverse, List.nodup_reverse, ← List.nodup_cons]
      exact linked.once
    cases after with
    | nil =>
      have leads : next b = head := by
        have circle : Circular next ((head :: before) ++ [b]) := linked.forward
        exact circle.last_eq rfl
      have listed : head :: (before ++ [b]).reverse = [] ++ head :: b :: before.reverse := by
        simp
      rw [listed] at circular reversed
      rw [leads, List.append_nil]
      exact circular.erase reversed
    | cons c later =>
      have middle : head :: (before ++ b :: c :: later) = (head :: before) ++ b :: c :: later := rfl
      have leads : next b = c := linked.next_eq middle
      have listed : head :: (before ++ b :: c :: later).reverse =
          (head :: later.reverse) ++ c :: b :: before.reverse := by
        simp
      have shorter : head :: (before ++ c :: later).reverse = (head :: later.reverse) ++ c :: before.reverse := by
        simp
      rw [listed] at circular reversed
      rw [leads, shorter]
      exact circular.erase reversed
  · grind

end DoublyLinked
end Circular
end Xv6.Library
