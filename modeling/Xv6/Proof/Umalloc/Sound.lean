import Xv6.Proof.Umalloc.Free

namespace Xv6
open Library
open scoped List

namespace Umalloc
variable {heap next : Umalloc} {base fuel limit : Nat} {spans live blocks before after : List Extent}
  {block last : Extent}

/-- The free list and the live blocks share no unit and have all units that `sbrk` handed out. -/
structure Sound (base : Nat) (heap : Umalloc) (spans live : List Extent) : Prop where
  list : FreeList base heap spans
  full : ∀ span ∈ spans, span.start ≠ base → 0 < span.units ∧ base + headerSize ≤ span.start
  held : ∀ block ∈ live, (heap.size block.start).toNat = block.units ∧ 0 < block.units ∧
    base + headerSize ≤ block.start
  apart : live.Pairwise (Extent.Apart headerSize)
  beside : ∀ block ∈ live, ∀ span ∈ spans, block.Apart headerSize span
  below : ∀ extent ∈ spans ++ live, extent.stop headerSize ≤ heap.brk
  above : base + headerSize ≤ heap.brk
  total : totalUnits spans + totalUnits live = heap.granted

/-- The order of the live blocks does not matter. -/
theorem Sound.perm (sound : Sound base heap spans live) (same : live ~ blocks) : Sound base heap spans blocks where
  list := sound.list
  full := sound.full
  held block inside := sound.held block (same.mem_iff.mpr inside)
  apart := same.pairwise sound.apart Extent.Apart.symm
  beside block inside := sound.beside block (same.mem_iff.mpr inside)
  below extent inside := by
    apply sound.below
    rw [List.mem_append] at inside ⊢
    exact inside.imp_right same.mem_iff.mpr
  above := sound.above
  total := by
    rw [← sound.total]
    exact congrArg _ (same.map Extent.units).sum_eq.symm

/-- The allocator reads only the headers of free and live blocks. -/
theorem Sound.congr (sound : Sound base heap spans live)
    (ptr : ∀ span ∈ spans, next.ptr span.start = heap.ptr span.start)
    (size : ∀ extent ∈ spans ++ live, next.size extent.start = heap.size extent.start)
    (freep : next.freep = heap.freep) (brk : next.brk = heap.brk) (granted : next.granted = heap.granted) :
    Sound base next spans live where
  list := by
    refine ⟨sound.list.starts, ?_, sound.list.spaced, ?_, freep ▸ sound.list.freep⟩
    · apply sound.list.circular.congr
      intro node inside
      obtain ⟨span, member, rfl⟩ := List.mem_map.mp inside
      exact ptr span member
    · intro span inside
      rw [size span (List.mem_append_left _ inside)]
      exact sound.list.sizes span inside
  full := sound.full
  held block inside := by
    rw [size block (List.mem_append_right _ inside)]
    exact sound.held block inside
  apart := sound.apart
  beside := sound.beside
  below := brk ▸ sound.below
  above := brk ▸ sound.above
  total := granted ▸ sound.total

/-- A live block and a free block have different headers. -/
theorem Sound.start_ne (sound : Sound base heap spans live) (held : block ∈ live) {span : Extent}
    (free : span ∈ spans) : block.start ≠ span.start := by
  obtain ⟨_, nonempty, lowest⟩ := sound.held block held
  have positive : 0 < headerSize := by decide
  by_cases first : span.start = base
  · omega
  · exact (sound.beside block held span free).start_ne positive nonempty (sound.full span free first).1

/-- The place of a live block in the free list. -/
theorem Sound.between (sound : Sound base heap spans (block :: live)) :
    ∃ before last after, spans = before ++ last :: after ∧ Between base before last block after := by
  obtain ⟨rest, rfl⟩ := List.head?_eq_some_iff.mp sound.list.starts
  obtain ⟨_, nonempty, lowest⟩ := sound.held block List.mem_cons_self
  have positive : 0 < headerSize := by decide
  have full : ∀ span ∈ rest, 0 < span.units := by
    intro span inside
    apply (sound.full span (List.mem_cons_of_mem _ inside) _).1
    have := (List.pairwise_cons.mp sound.list.spaced).1 span inside
    simp only [Extent.stop] at this
    omega
  obtain ⟨before, last, after, same, lower, below, above⟩ := sound.list.spaced.split positive full
    (show base < block.start by omega) (sound.beside block (.head _))
  exact ⟨before, last, after, same, by omega, lower, below, nonempty, above⟩

/-- A call of `free` with a live block keeps the heap sound. -/
theorem Sound.free (sound : Sound base heap spans (block :: live)) (few : heap.granted < 2 ^ 32)
    (enough : spans.length ≤ fuel) :
    ∃ next free, heap.free fuel (block.start + headerSize) = some next ∧ Sound base next free live ∧
      free.length ≤ spans.length + 1 ∧ (∃ span ∈ free, block.units ≤ span.units) ∧
      next.brk = heap.brk ∧ next.granted = heap.granted := by
  obtain ⟨before, last, after, rfl, between⟩ := sound.between
  obtain ⟨size, nonempty, lowest⟩ := sound.held block List.mem_cons_self
  have total := sound.total
  rw [totalUnits_cons] at total
  obtain ⟨next, freed, list, kept, brk, granted⟩ := sound.list.free between size (by omega) enough
  have positive : 0 < headerSize := by decide
  have others := (List.pairwise_cons.mp sound.apart).1
  refine ⟨next, before ++ join headerSize last (join headerSize block after), freed, ⟨list, ?_, ?_, ?_, ?_, ?_, ?_, ?_⟩,
    ?_, ?_, brk, granted⟩
  case refine_1 =>
    intro span inside ne
    rcases List.mem_append.mp inside with early | joined
    · exact sound.full span (List.mem_append_left _ early) ne
    · rcases mem_join joined with ⟨same, covers⟩ | joined
      · have old := sound.full last (by simp) (same ▸ ne)
        omega
      · rcases mem_join joined with ⟨same, covers⟩ | late
        · omega
        · exact sound.full span (by simp [late]) ne
  case refine_2 =>
    intro other inside
    have old := sound.held other (List.mem_cons_of_mem _ inside)
    rw [kept]
    · exact old
    · exact ((others other inside).start_ne positive nonempty old.2.1).symm
    · exact sound.start_ne (List.mem_cons_of_mem _ inside) (by simp)
  case refine_3 => exact (List.pairwise_cons.mp sound.apart).2
  case refine_4 =>
    intro other inside span free
    have nonempty := (sound.held other (List.mem_cons_of_mem _ inside)).2.1
    have old := sound.beside other (List.mem_cons_of_mem _ inside)
    rcases List.mem_append.mp free with early | joined
    · exact old span (List.mem_append_left _ early)
    · apply join_apart positive nonempty (old last (by simp)) _ span joined
      apply join_apart positive nonempty (others other inside).symm
      intro span late
      exact old span (by simp [late])
  case refine_5 =>
    rw [brk]
    intro extent inside
    have old := sound.below
    rcases List.mem_append.mp inside with free | held
    · rcases List.mem_append.mp free with early | joined
      · exact old extent (by simp [early])
      · apply join_stop_le (old last (by simp)) _ extent joined
        apply join_stop_le (old block (by simp))
        intro span late
        exact old span (by simp [late])
    · exact old extent (by simp [held])
  case refine_6 => exact brk ▸ sound.above
  case refine_7 =>
    rw [granted, ← total]
    simp only [totalUnits_append, totalUnits_cons, join_totalUnits]
    omega
  case refine_8 =>
    have outer := join_length headerSize last (join headerSize block after)
    have inner := join_length headerSize block after
    simp only [List.length_append, List.length_cons]
    omega
  case refine_9 =>
    obtain ⟨upper, inside, covers⟩ := exists_le_join headerSize block after
    obtain ⟨span, member, more⟩ := exists_le_join_of_mem headerSize last inside
    exact ⟨span, List.mem_append_right _ member, covers.trans more⟩

end Umalloc
end Xv6
