import Xv6.Library.EventRun
import Xv6.Proof.Vm.Walk

namespace Xv6
open Library List

section Free
variable {root : Nat} {origin kernel k : Kernel} {tree : List Nat → Option Nat} {path : List Nat} {frame : Nat}

/-- The frame belongs to the subtree at a path. -/
def Below (tree : List Nat → Option Nat) (path : List Nat) (frame : Nat) : Prop :=
  ∃ rest, tree (path ++ rest) = some frame

/-- A set of frames moves to the free list, and no other page changes. -/
structure Freed (gone : Nat → Prop) (kernel after : Kernel) : Prop where
  heap : Heap after
  kend : after.kend = kernel.kend
  kpdpt : after.kpdpt = kernel.kpdpt
  grown : after.grown = kernel.grown
  loaded : after.loaded = kernel.loaded
  memory : ∀ frame, ¬gone frame → after.memory frame = kernel.memory frame
  freelist : ∀ frame, frame ∈ after.freelist ↔ frame ∈ kernel.freelist ∨ gone frame

theorem Freed.refl (heap : Heap k) {gone : Nat → Prop} (none : ∀ frame, ¬gone frame) : Freed gone k k :=
  ⟨heap, rfl, rfl, rfl, rfl, fun _ _ => rfl, fun frame => by simp [none frame]⟩

theorem Freed.trans {middle after : Kernel} {early late both : Nat → Prop} (first : Freed early k middle)
    (second : Freed late middle after) (union : ∀ frame, both frame ↔ early frame ∨ late frame) :
    Freed both k after where
  heap := second.heap
  kend := second.kend.trans first.kend
  kpdpt := second.kpdpt.trans first.kpdpt
  grown := second.grown.trans first.grown
  loaded := second.loaded.trans first.loaded
  memory frame outside := by
    rw [union frame, not_or] at outside
    exact (second.memory frame outside.2).trans (first.memory frame outside.1)
  freelist frame := by
    rw [second.freelist, first.freelist, union frame, or_assoc]

/-- A page outside the free list is freed. -/
theorem Freed.kfree (heap : Heap k) (allocatable : k.Allocatable frame) (used : frame ∉ k.freelist) :
    ∃ after, k.kfree frame = .ok after ∧ Freed (· = frame) k after := by
  refine ⟨_, kfree_ok allocatable, ?_⟩
  refine ⟨⟨heap.start, nodup_cons.mpr ⟨used, heap.distinct⟩, ?_⟩, rfl, rfl, rfl, rfl, ?_, ?_⟩
  · intro other member
    rcases mem_cons.mp member with rfl | free
    · exact allocatable
    · exact heap.free other free
  · intro other ne
    exact setPage_memory_ne ne _
  · intro other
    exact mem_cons.trans or_comm

/-- The pages of a subtree are as they were in the original kernel and are not free. -/
def Intact (origin kernel : Kernel) (tree : List Nat → Option Nat) (path : List Nat) : Prop :=
  ∀ frame, Below tree path frame → kernel.memory frame = origin.memory frame ∧ frame ∉ kernel.freelist

/-- Freeing other pages keeps a subtree intact. -/
theorem Intact.freed {after : Kernel} {gone : Nat → Prop} (intact : Intact origin k tree path)
    (freed : Freed gone k after) (apart : ∀ frame, Below tree path frame → ¬gone frame) :
    Intact origin after tree path := by
  intro frame below
  obtain ⟨same, used⟩ := intact frame below
  refine ⟨(freed.memory frame (apart frame below)).trans same, ?_⟩
  rw [freed.freelist, not_or]
  exact ⟨used, apart frame below⟩

/-- The loop over the entries of a table. -/
def freeEntries (level count frame : Nat) (kernel : Kernel) : Except VmHalt Kernel :=
  (List.range count).foldlM (fun kernel index => do
    let entry ← kernel.loadEntry frame index
    if entry &&& PTE_P ≠ 0 then Kernel.freeTable level (pteFrame entry) kernel else .ok kernel) kernel

theorem freeTable_succ (level frame : Nat) (k : Kernel) :
    Kernel.freeTable (level + 1) frame k = freeEntries level 512 frame k >>= (·.kfree frame) := rfl

theorem freevm_eq (frame : Nat) (k : Kernel) : k.freevm frame = freeEntries 3 256 frame k >>= (·.kfree frame) := rfl

section
variable (space : Table 4 origin root tree)
include space

theorem Table.below_disjoint {index other : Nat} (below : Below tree (path ++ [index]) frame)
    (also : Below tree (path ++ [other]) frame) : index = other := by
  obtain ⟨rest, found⟩ := below
  obtain ⟨suffix, again⟩ := also
  have same := space.radix.injective found again
  simp only [append_assoc, singleton_append, append_cancel_left_eq, cons.injEq] at same
  exact same.1

theorem Table.not_below_child {index : Nat} (here : tree path = some frame) : ¬Below tree (path ++ [index]) frame := by
  rintro ⟨rest, found⟩
  have same := congrArg length (space.radix.injective found here)
  simp at same

/-- The frames below a table are the table and the frames below its entries. -/
theorem Table.below_iff (here : tree path = some frame) (other : Nat) :
    Below tree path other ↔ (∃ index < levelWidth path.length, Below tree (path ++ [index]) other) ∨ other = frame := by
  constructor
  · rintro ⟨rest, found⟩
    cases rest with
    | nil =>
      rw [append_nil, here] at found
      exact .inr (Option.some.inj found).symm
    | cons index rest =>
      rw [append_cons] at found
      have above : tree (path ++ [index]) ≠ none :=
        space.radix.ancestor rest (by rw [found]; exact Option.some_ne_none other)
      exact .inl ⟨index, (space.radix.parent above).2.2, rest, found⟩
  · rintro (⟨index, _, rest, found⟩ | rfl)
    · exact ⟨index :: rest, by rwa [append_cons]⟩
    · exact ⟨[], by rwa [append_nil]⟩

/-- The loop frees the subtrees of all entries when each of them can be freed. -/
theorem Table.freeEntries_freed (level : Nat) (here : tree path = some frame) (deep : path.length < 4)
    (below : ∀ {index next current}, tree (path ++ [index]) = some next → current.kend = origin.kend → Heap current →
      Intact origin current tree (path ++ [index]) →
      ∃ after, Kernel.freeTable level next current = .ok after ∧ Freed (Below tree (path ++ [index])) current after)
    (same : k.kend = origin.kend) (heap : Heap k) (intact : Intact origin k tree path) :
    ∃ after, freeEntries level (levelWidth path.length) frame k = .ok after ∧
      Freed (fun other => ∃ index < levelWidth path.length, Below tree (path ++ [index]) other) k after := by
  refine foldlM_range (fun count current =>
    Freed (fun other => ∃ index < count, Below tree (path ++ [index]) other) k current)
    (.refl heap (by simp)) ?_
  intro index inside current freed
  have untouched : ¬∃ other < index, Below tree (path ++ [other]) frame := by
    rintro ⟨other, _, found⟩
    exact space.not_below_child here found
  have table : current.memory frame = origin.memory frame :=
    (freed.memory frame untouched).trans (intact frame ⟨[], by rwa [append_nil]⟩).1
  have link := space.radix.child here deep inside
  have extend : ∀ other, (∃ i < index + 1, Below tree (path ++ [i]) other) ↔
      (∃ i < index, Below tree (path ++ [i]) other) ∨ Below tree (path ++ [index]) other := by
    intro other
    constructor
    · rintro ⟨i, bounded, found⟩
      rcases Nat.lt_succ_iff_lt_or_eq.mp bounded with earlier | rfl
      · exact .inl ⟨i, earlier, found⟩
      · exact .inr found
    · rintro (⟨i, bounded, found⟩ | found)
      · exact ⟨i, by omega, found⟩
      · exact ⟨index, by omega, found⟩
  rw [loadEntry_ok (space.frames here).1.directMapped, ok_bind, table]
  rw [Kernel.child] at link
  split at link
  · rename_i present
    rw [if_pos present]
    have whole : Intact origin k tree (path ++ [index]) := by
      rintro other ⟨rest, found⟩
      exact intact other ⟨index :: rest, by rwa [append_cons]⟩
    have part : Intact origin current tree (path ++ [index]) := by
      refine whole.freed freed ?_
      rintro other found ⟨i, earlier, also⟩
      have := space.below_disjoint found also
      omega
    obtain ⟨after, ran, done⟩ := below link.symm (freed.kend.trans same) freed.heap part
    exact ⟨after, ran, freed.trans done extend⟩
  · rename_i absent
    rw [if_neg absent]
    refine ⟨current, rfl, freed.trans (.refl freed.heap ?_) extend⟩
    rintro other ⟨rest, found⟩
    exact space.radix.ancestor rest (by rw [found]; exact Option.some_ne_none other) link.symm

/-- The table itself is freed after its entries. -/
theorem Table.kfree_freed (here : tree path = some frame) {emptied : Kernel} (same : k.kend = origin.kend)
    (intact : Intact origin k tree path)
    (freed : Freed (fun other => ∃ index < levelWidth path.length, Below tree (path ++ [index]) other) k emptied) :
    ∃ after, emptied.kfree frame = .ok after ∧ Freed (Below tree path) k after := by
  have allocatable : emptied.Allocatable frame := by
    rw [Kernel.Allocatable, freed.kend.trans same]
    exact (space.frames here).1
  have used : frame ∉ emptied.freelist := by
    rw [freed.freelist, not_or]
    refine ⟨(intact frame ⟨[], by rwa [append_nil]⟩).2, ?_⟩
    rintro ⟨index, _, found⟩
    exact space.not_below_child here found
  obtain ⟨after, ran, last⟩ := Freed.kfree freed.heap allocatable used
  exact ⟨after, ran, freed.trans last (space.below_iff here)⟩

/-- The nested loops free exactly the subtree of a table. -/
theorem Table.freeTable_freed {level : Nat} (here : tree path = some frame) (height : path.length + level = 4)
    (nonroot : path ≠ []) (same : k.kend = origin.kend) (heap : Heap k) (intact : Intact origin k tree path) :
    ∃ after, Kernel.freeTable level frame k = .ok after ∧ Freed (Below tree path) k after := by
  induction level generalizing path frame k with
  | zero =>
    have bottom : ∀ index, ¬∃ other, Below tree (path ++ [index]) other := by
      rintro index ⟨other, rest, found⟩
      have length := space.radix.length_le (by rw [found]; exact Option.some_ne_none other)
      simp at length
      omega
    refine space.kfree_freed here same intact (.refl heap ?_)
    rintro other ⟨index, _, found⟩
    exact bottom index ⟨other, found⟩
  | succ level ih =>
    have width : levelWidth path.length = 512 := if_neg (by simpa using nonroot)
    obtain ⟨emptied, ran, freed⟩ := space.freeEntries_freed level here (by omega)
      (fun {index next current} found kept wellFormed part =>
        ih found (by simp; omega) (by simp) kept wellFormed part) same heap intact
    obtain ⟨after, last, done⟩ := space.kfree_freed here same intact freed
    refine ⟨after, ?_, done⟩
    rw [freeTable_succ, ← width, ran, ok_bind, last]

end

/-- The call `freevm` frees exactly the pages of the tree. -/
theorem Table.freevm_freed (space : Table 4 k root tree) (heap : Heap k) :
    ∃ after, k.freevm root = .ok after ∧ Freed (∃ path, tree path = some ·) k after := by
  have intact : Intact k k tree [] := fun other ⟨rest, found⟩ => ⟨rfl, (space.frames found).2⟩
  obtain ⟨emptied, ran, freed⟩ := space.freeEntries_freed 3 space.radix.root (by decide)
    (fun {index next current} found kept wellFormed part =>
      space.freeTable_freed found rfl (by simp) kept wellFormed part) rfl heap intact
  obtain ⟨after, last, done⟩ := space.kfree_freed space.radix.root rfl intact freed
  refine ⟨after, ?_, done⟩
  rw [freevm_eq]
  exact (congrArg (· >>= _) ran).trans last

end Free
end Xv6
