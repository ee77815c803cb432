import Xv6.Construction.Umalloc
import Xv6.Library.Circular

namespace Xv6
open Library Function List Umalloc

namespace Umalloc
variable {heap : Umalloc} {p q base bp fuel : Nat} {spans before after : List Extent} {block last : Extent}
  {span upper : Extent} {other link : Nat} {middle : Umalloc} {rest : List Extent}

theorem setPtr_ptr (ptr : Nat) : (heap.setPtr p ptr).ptr = update heap.ptr p ptr := by
  funext q
  by_cases same : q = p <;> simp [Umalloc.ptr, setPtr, same]

theorem setPtr_size (ptr : Nat) : (heap.setPtr p ptr).size = heap.size := by
  funext q
  by_cases same : q = p <;> simp [size, setPtr, same]

theorem setSize_ptr (units : BitVec 32) : (heap.setSize p units).ptr = heap.ptr := by
  funext q
  by_cases same : q = p <;> simp [ptr, setSize, same]

theorem setSize_size (units : BitVec 32) : (heap.setSize p units).size = update heap.size p units := by
  funext q
  by_cases same : q = p <;> simp [size, setSize, same]

@[simp] theorem setFreep_ptr (freep : Nat) : (heap.setFreep freep).ptr = heap.ptr := rfl

@[simp] theorem setFreep_size (freep : Nat) : (heap.setFreep freep).size = heap.size := rfl

@[simp] theorem setFreep_freep (freep : Nat) : (heap.setFreep freep).freep = freep := rfl

/-- The test of the loop in `free`. -/
def Fits (heap : Umalloc) (bp p : Nat) : Prop :=
  bp > p ∧ bp < heap.ptr p ∨ p ≥ heap.ptr p ∧ (bp > p ∨ bp < heap.ptr p)

instance (heap : Umalloc) (bp : Nat) : DecidablePred (heap.Fits bp) :=
  fun _ => inferInstanceAs (Decidable (_ ∨ _))

/-- The loop of `free` is a search along the links. -/
theorem freeLoop_eq (heap : Umalloc) (bp fuel p : Nat) :
    heap.freeLoop bp fuel p = search heap.ptr (heap.Fits bp) fuel p := by
  induction fuel generalizing p with
  | zero => rfl
  | succ fuel ih =>
    rw [freeLoop, search, ih]
    by_cases first : bp > p ∧ bp < heap.ptr p
    · simp [Fits, first]
    · by_cases second : p ≥ heap.ptr p ∧ (bp > p ∨ bp < heap.ptr p)
      · simp [Fits, second]
      · rw [if_neg first, if_neg second, if_neg]
        exact fun found => found.elim first second

/-- The free list starts at the base header, is circular and ordered by address, and no two of its blocks touch. -/
structure FreeList (base : Nat) (heap : Umalloc) (spans : List Extent) : Prop where
  starts : spans.head? = some ⟨base, 0⟩
  circular : Circular heap.ptr (spans.map Extent.start)
  spaced : Spaced headerSize spans
  sizes : ∀ span ∈ spans, (heap.size span.start).toNat = span.units
  freep : heap.freep ∈ spans.map Extent.start

/-- The base header is the lowest one. -/
theorem FreeList.base_le (list : FreeList base heap spans) (inside : span ∈ spans) : base ≤ span.start := by
  obtain ⟨rest, rfl⟩ := head?_eq_some_iff.mp list.starts
  rcases mem_cons.mp inside with rfl | inside
  · exact le_rfl
  · have := (pairwise_cons.mp list.spaced).1 span inside
    simp [Extent.stop] at this
    omega

theorem FreeList.ptr_next {first second : Extent} (list : FreeList base heap (before ++ first :: second :: after)) :
    heap.ptr first.start = second.start := by
  have circular := list.circular
  rw [map_append, map_cons, map_cons] at circular
  exact circular.next_eq

theorem FreeList.ptr_last (list : FreeList base heap (before ++ [last])) : heap.ptr last.start = base := by
  have circular := list.circular
  rw [map_append, map_cons, map_nil] at circular
  apply circular.last_eq
  rw [← map_singleton, ← map_append, head?_map, list.starts]
  rfl

section
variable (list : FreeList base heap (before ++ last :: after))
include list

/-- The blocks before a block of the list start lower, and the blocks after it start higher. -/
theorem FreeList.ordered :
    (∀ span ∈ before, span.stop headerSize < last.start) ∧ ∀ span ∈ after, last.stop headerSize < span.start := by
  obtain ⟨_, tail, across⟩ := pairwise_append.mp list.spaced
  constructor
  · intro span inside
    exact across span inside last mem_cons_self
  · exact (pairwise_cons.mp tail).1

/-- A block of the list is linked to a higher one, or it is the last one and linked to the base. -/
theorem FreeList.ptr_cases : (∃ next ∈ after, heap.ptr last.start = next.start ∧ last.start < next.start) ∨
      after = [] ∧ heap.ptr last.start = base := by
  cases after with
  | nil => exact .inr ⟨rfl, list.ptr_last⟩
  | cons next rest =>
    have grows := list.ordered.2 next mem_cons_self
    have own := last.start_le_stop headerSize
    exact .inl ⟨next, .head _, list.ptr_next, by omega⟩

theorem FreeList.not_fits_before (lower : last.start < bp) (inside : span ∈ before) : ¬heap.Fits bp span.start := by
  have below := list.ordered.1
  obtain ⟨early, late, rfl⟩ := append_of_mem inside
  rw [append_assoc, cons_append] at list
  have grows := list.ordered.2
  have own := span.start_le_stop headerSize
  unfold Fits
  cases late with
  | nil =>
    have link := list.ptr_next
    have step := grows last mem_cons_self
    omega
  | cons next late =>
    have link := list.ptr_next
    have step := grows next mem_cons_self
    have lower := below next (by simp)
    have long := next.start_le_stop headerSize
    omega

/-- The loop of `free` stops only at the last block before the new one. -/
theorem FreeList.fits_iff (above : base < bp) (lower : last.start < bp) (upper : ∀ span ∈ after, bp < span.start)
    (inside : span ∈ before ++ last :: after) : heap.Fits bp span.start ↔ span.start = last.start := by
  rw [mem_append, mem_cons] at inside
  rcases inside with early | rfl | late
  · have below := list.ordered.1 span early
    have own := span.start_le_stop headerSize
    exact iff_of_false (list.not_fits_before lower early) (by omega)
  · apply iff_of_true _ rfl
    rcases list.ptr_cases with ⟨next, later, link, _⟩ | ⟨_, link⟩
    · have := upper next later
      unfold Fits
      omega
    · have := list.base_le (mem_append_right before (.head _))
      unfold Fits
      omega
  · have higher := upper span late
    obtain ⟨xs, ys, rfl⟩ := append_of_mem late
    rw [← cons_append, ← append_assoc] at list
    apply iff_of_false _ (by omega)
    unfold Fits
    rcases list.ptr_cases with ⟨next, _, link, step⟩ | ⟨_, link⟩ <;> omega

/-- The loop of `free` finds the last block before the new one. -/
theorem FreeList.freeLoop_eq (above : base < bp) (lower : last.start < bp) (upper : ∀ span ∈ after, bp < span.start)
    (enough : (before ++ last :: after).length ≤ fuel) : heap.freeLoop bp fuel heap.freep = some last.start := by
  rw [Umalloc.freeLoop_eq]
  apply list.circular.search_eq list.spaced.nodup list.freep
  · exact mem_map_of_mem (mem_append_right before (.head _))
  · intro node inside
    obtain ⟨span, member, rfl⟩ := mem_map.mp inside
    exact list.fits_iff above lower upper member
  · rwa [length_map]

end

theorem FreeList.size_eq (list : FreeList base heap spans) (inside : span ∈ spans) :
    heap.size span.start = BitVec.ofNat 32 span.units := by
  rw [← list.sizes span inside, BitVec.ofNat_toNat, BitVec.setWidth_eq]

/-- The pointer after a block is its end. -/
theorem plus_eq {units : BitVec 32} {extent : Extent} (same : units.toNat = extent.units) :
    plus extent.start units = extent.stop headerSize := by
  rw [plus, Extent.stop, same]

/-- The heap between the two joins. The link of the new block leads to what follows the last block before it. -/
structure Placed (heap middle : Umalloc) (block upper : Extent) (link : Nat) : Prop where
  start : upper.start = block.start
  ptr : middle.ptr = Function.update heap.ptr block.start link
  size : middle.size = Function.update heap.size block.start (BitVec.ofNat 32 upper.units)

theorem FreeList.joinUpper_touching {next : Extent} (list : FreeList base heap (before ++ last :: next :: after))
    (size : (heap.size block.start).toNat = block.units) (touches : block.stop headerSize = next.start) :
    Placed heap (heap.joinUpper block.start last.start) block ⟨block.start, block.units + next.units⟩
        (heap.ptr next.start) ∧
      Circular (update heap.ptr last.start (heap.ptr next.start)) ((before ++ last :: after).map Extent.start) := by
  have link := list.ptr_next
  have inside : next ∈ before ++ last :: next :: after := by simp
  constructor
  · have both : heap.size block.start + heap.size next.start = BitVec.ofNat 32 (block.units + next.units) := by
      rw [list.size_eq inside, BitVec.ofNat_add, ← size, BitVec.ofNat_toNat, BitVec.setWidth_eq]
    unfold joinUpper
    rw [plus_eq size, link, if_pos touches, both]
    constructor
    · rfl
    · rw [setPtr_ptr, setSize_ptr]
    · rw [setPtr_size, setSize_size]
  · have circular := list.circular
    have once := list.spaced.nodup
    rw [map_append, map_cons, map_cons] at circular once
    rw [map_append, map_cons]
    exact circular.erase once

theorem FreeList.joinUpper_apart (list : FreeList base heap (before ++ last :: after))
    (size : (heap.size block.start).toNat = block.units) (apart : block.stop headerSize ≠ heap.ptr last.start) :
    Placed heap (heap.joinUpper block.start last.start) block block (heap.ptr last.start) ∧
      Circular (update heap.ptr last.start (heap.ptr last.start)) ((before ++ last :: after).map Extent.start) := by
  constructor
  · have kept : BitVec.ofNat 32 block.units = heap.size block.start := by
      rw [← size, BitVec.ofNat_toNat, BitVec.setWidth_eq]
    unfold joinUpper
    rw [plus_eq size, if_neg apart]
    constructor
    · rfl
    · rw [setPtr_ptr]
    · rw [setPtr_size, kept, update_eq_self]
  · rw [update_eq_self]
    exact list.circular

/-- The first join gives the new block its final size and link. -/
theorem FreeList.joinUpper (list : FreeList base heap (before ++ last :: after))
    (size : (heap.size block.start).toNat = block.units) (lowest : base < block.start) :
    ∃ upper rest link, join headerSize block after = upper :: rest ∧ rest.Sublist after ∧
      Placed heap (heap.joinUpper block.start last.start) block upper link ∧
      Circular (update heap.ptr last.start link) ((before ++ last :: rest).map Extent.start) := by
  have long := block.start_le_stop headerSize
  cases after with
  | nil =>
    have link := list.ptr_last
    obtain ⟨placed, circular⟩ := list.joinUpper_apart size (by omega)
    exact ⟨block, [], _, rfl, .refl _, placed, circular⟩
  | cons next rest =>
    have link := list.ptr_next
    by_cases touches : block.stop headerSize = next.start
    · obtain ⟨placed, circular⟩ := list.joinUpper_touching size touches
      exact ⟨_, rest, _, if_pos touches, sublist_cons_self .., placed, circular⟩
    · obtain ⟨placed, circular⟩ := list.joinUpper_apart size (link.symm ▸ touches)
      exact ⟨block, next :: rest, _, if_neg touches, .refl _, placed, circular⟩

theorem joinUpper_size (ne : other ≠ bp) : (heap.joinUpper bp p).size other = heap.size other := by
  unfold joinUpper
  split
  · rw [setPtr_size, setSize_size, update_of_ne ne]
  · rw [setPtr_size]

theorem joinLower_size (ne : other ≠ p) : (heap.joinLower bp p).size other = heap.size other := by
  unfold joinLower
  split
  · rw [setPtr_size, setSize_size, update_of_ne ne]
  · rw [setPtr_size]

theorem joinUpper_region : (heap.joinUpper bp p).brk = heap.brk ∧ (heap.joinUpper bp p).granted = heap.granted := by
  unfold joinUpper
  split <;> exact ⟨rfl, rfl⟩

theorem joinLower_region : (heap.joinLower bp p).brk = heap.brk ∧ (heap.joinLower bp p).granted = heap.granted := by
  unfold joinLower
  split <;> exact ⟨rfl, rfl⟩

/-- The new block has its place between two blocks of the list. -/
structure Between (base : Nat) (before : List Extent) (last block : Extent) (after : List Extent) : Prop where
  lowest : base < block.start
  lower : last.start < block.start
  below : last.stop headerSize ≤ block.start
  nonempty : 0 < block.units
  above : ∀ span ∈ after, block.stop headerSize ≤ span.start

theorem Between.block_lt (between : Between base before last block after) (inside : span ∈ after) :
    block.start < span.start := by
  have far := between.above span inside
  have long : 0 < headerSize * block.units := Nat.mul_pos (by decide) between.nonempty
  simp only [Extent.stop] at far
  omega

section
variable (list : FreeList base heap (before ++ last :: after))
include list

variable (between : Between base before last block after)
include between

/-- The blocks before and after the place of the new block are other blocks. -/
theorem FreeList.others (inside : span ∈ before ∨ span ∈ after) :
    span.start ≠ block.start ∧ span.start ≠ last.start := by
  have lower := between.lower
  have own := span.start_le_stop headerSize
  rcases inside with early | late
  · have := list.ordered.1 span early
    omega
  · have := between.block_lt late
    omega

theorem FreeList.spaced_join : Spaced headerSize (before ++ join headerSize last (join headerSize block after)) := by
  obtain ⟨front, tail, across⟩ := pairwise_append.mp list.spaced
  have upper : Spaced headerSize (join headerSize block after) :=
    Spaced.join (pairwise_cons.mp tail).2 between.above
  have near : ∀ span ∈ join headerSize block after, last.stop headerSize ≤ span.start := by
    intro span inside
    have below := between.below
    rcases mem_join inside with ⟨same, _⟩ | later
    · omega
    · have := between.block_lt later
      omega
  apply pairwise_append.mpr ⟨front, upper.join near, _⟩
  intro first early second late
  have gap := across first early last mem_cons_self
  have own := last.start_le_stop headerSize
  rcases mem_join late with ⟨same, _⟩ | later
  · omega
  · have := near second later
    omega

theorem FreeList.head_join : (before ++ join headerSize last (join headerSize block after)).head? = some ⟨base, 0⟩ := by
  have starts := list.starts
  cases before with
  | cons first rest => exact starts
  | nil =>
    obtain rfl : last = ⟨base, 0⟩ := Option.some.inj starts
    obtain ⟨upper, rest, same, start, _⟩ := join_head headerSize block after
    have apart : Extent.stop headerSize ⟨base, 0⟩ ≠ upper.start := by
      have := between.lowest
      simp only [Extent.stop, start]
      omega
    rw [same, nil_append, join, if_neg apart]
    rfl

end

theorem Placed.joinLower_touching (placed : Placed heap middle block upper link)
    (circular : Circular (update heap.ptr last.start link) ((before ++ last :: rest).map Extent.start))
    (fresh : block.start ∉ (before ++ last :: rest).map Extent.start)
    (size : (middle.size last.start).toNat = last.units) (touches : last.stop headerSize = block.start) :
    Circular (middle.joinLower block.start last.start).ptr
        ((before ++ ⟨last.start, last.units + upper.units⟩ :: rest).map Extent.start) ∧
      (middle.joinLower block.start last.start).size =
        update middle.size last.start (BitVec.ofNat 32 (last.units + upper.units)) := by
  have both : middle.size last.start + middle.size block.start = BitVec.ofNat 32 (last.units + upper.units) := by
    rw [BitVec.ofNat_add, ← size, BitVec.ofNat_toNat, BitVec.setWidth_eq, placed.size, update_self]
  unfold joinLower
  rw [plus_eq size, if_pos touches, both]
  constructor
  · rw [setPtr_ptr, setSize_ptr, placed.ptr, update_self]
    have same : (before ++ ⟨last.start, last.units + upper.units⟩ :: rest).map Extent.start =
        (before ++ last :: rest).map Extent.start := by
      simp
    rw [same]
    apply circular.congr
    intro node inside
    have other : node ≠ block.start := fun equal => fresh (equal ▸ inside)
    simp only [update_apply, if_neg other]
  · rw [setPtr_size, setSize_size]

theorem Placed.joinLower_apart (placed : Placed heap middle block upper link)
    (circular : Circular (update heap.ptr last.start link) ((before ++ last :: rest).map Extent.start))
    (fresh : block.start ∉ (before ++ last :: rest).map Extent.start)
    (once : ((before ++ last :: rest).map Extent.start).Nodup) (size : (middle.size last.start).toNat = last.units)
    (apart : last.stop headerSize ≠ block.start) :
    Circular (middle.joinLower block.start last.start).ptr ((before ++ last :: upper :: rest).map Extent.start) ∧
      (middle.joinLower block.start last.start).size = middle.size := by
  unfold joinLower
  rw [plus_eq size, if_neg apart]
  constructor
  · rw [map_append, map_cons] at circular fresh once
    rw [setPtr_ptr, placed.ptr, map_append, map_cons, map_cons, placed.start]
    apply (circular.insert fresh once).congr
    intro node _
    simp only [update_apply]
    grind
  · rw [setPtr_size]

/-- A call of `free` puts the block into the list and joins it with its neighbours. -/
theorem FreeList.free (list : FreeList base heap (before ++ last :: after))
    (between : Between base before last block after) (size : (heap.size block.start).toNat = block.units)
    (small : totalUnits (before ++ last :: after) + block.units < 2 ^ 32)
    (enough : (before ++ last :: after).length ≤ fuel) :
    ∃ next, heap.free fuel (block.start + headerSize) = some next ∧
      FreeList base next (before ++ join headerSize last (join headerSize block after)) ∧
      (∀ p, p ≠ block.start → p ≠ last.start → next.size p = heap.size p) ∧
      next.brk = heap.brk ∧ next.granted = heap.granted := by
  obtain ⟨upper, rest, link, joined, sub, placed, circular⟩ := list.joinUpper size between.lowest
  have lower := between.lower
  have found : heap.freeLoop block.start fuel heap.freep = some last.start :=
    list.freeLoop_eq between.lowest lower (fun span inside => between.block_lt inside) enough
  have head := list.head_join between
  have spaced := list.spaced_join between
  have units : totalUnits (join headerSize last (join headerSize block after)) =
      last.units + (block.units + totalUnits after) := by
    rw [join_totalUnits, join_totalUnits]
  rw [joined] at head spaced units ⊢
  have fresh : block.start ∉ (before ++ last :: rest).map Extent.start := by
    intro inside
    obtain ⟨span, member, same⟩ := mem_map.mp inside
    rw [mem_append, mem_cons] at member
    rcases member with early | rfl | late
    · exact (list.others between (.inl early)).1 same
    · omega
    · exact (list.others between (.inr (sub.subset late))).1 same
  have once : ((before ++ last :: rest).map Extent.start).Nodup := by
    apply List.Nodup.sublist _ list.spaced.nodup
    exact ((sub.cons_cons last).append_left before).map _
  have middleSize : ((heap.joinUpper block.start last.start).size last.start).toNat = last.units := by
    rw [placed.size, update_of_ne (by omega), list.sizes last (by simp)]
  have bounded : last.units + upper.units < 2 ^ 32 := by
    have inside : upper ∈ upper :: rest := .head _
    have whole := units_le_totalUnits inside
    rw [← joined, join_totalUnits] at whole
    simp only [totalUnits_append, totalUnits_cons] at small
    omega
  have free : heap.free fuel (block.start + headerSize) =
      some (((heap.joinUpper block.start last.start).joinLower block.start last.start).setFreep last.start) := by
    simp [Umalloc.free, found]
  have unchanged : ∀ span, span ∈ before ∨ span ∈ after →
      (((heap.joinUpper block.start last.start).joinLower block.start last.start).size span.start).toNat = span.units := by
    intro span inside
    obtain ⟨notBlock, notLast⟩ := list.others between inside
    rw [joinLower_size notLast, joinUpper_size notBlock]
    apply list.sizes
    grind
  refine ⟨_, free, ?_, ?_, ?_, ?_⟩
  · by_cases touches : last.stop headerSize = block.start
    · obtain ⟨linked, sizes⟩ := placed.joinLower_touching circular fresh middleSize touches
      rw [join, placed.start, if_pos touches] at head spaced ⊢
      refine ⟨head, ?_, spaced, ?_, by simp⟩
      · rw [setFreep_ptr]
        exact linked
      intro span inside
      rw [setFreep_size]
      rw [mem_append, mem_cons] at inside
      rcases inside with early | rfl | late
      · exact unchanged span (.inl early)
      · rw [sizes, update_self, BitVec.toNat_ofNat, Nat.mod_eq_of_lt bounded]
      · exact unchanged span (.inr (sub.subset late))
    · obtain ⟨linked, sizes⟩ := placed.joinLower_apart circular fresh once middleSize touches
      rw [join, placed.start, if_neg touches] at head spaced ⊢
      refine ⟨head, ?_, spaced, ?_, by simp⟩
      · rw [setFreep_ptr]
        exact linked
      intro span inside
      rw [setFreep_size]
      rw [mem_append, mem_cons, mem_cons] at inside
      rcases inside with early | rfl | rfl | late
      · exact unchanged span (.inl early)
      · rw [sizes]
        exact middleSize
      · rw [sizes, placed.start, placed.size, update_self, BitVec.toNat_ofNat, Nat.mod_eq_of_lt (by omega)]
      · exact unchanged span (.inr (sub.subset late))
  · intro p notBlock notLast
    rw [setFreep_size]
    exact (joinLower_size notLast).trans (joinUpper_size notBlock)
  · exact joinLower_region.1.trans joinUpper_region.1
  · exact joinLower_region.2.trans joinUpper_region.2

end Umalloc
end Xv6
