import Xv6.Proof.Umalloc.Sound

namespace Xv6
open Library Function BitVec Nat Extent
open scoped List

namespace Umalloc
variable {heap next : Umalloc} {base fuel limit : Nat} {spans live before after : List Extent} {block prev span : Extent}
  {nunits : BitVec 32} {answers : List Nat}

/-- A smaller extent at the same address keeps the gaps. -/
theorem FreeList.shrink {part : Extent} (list : FreeList base heap (before ++ span :: after))
    (start : part.start = span.start) (fewer : part.units ≤ span.units) :
    Spaced headerSize (before ++ part :: after) := by
  obtain ⟨front, tail, across⟩ := List.pairwise_append.mp list.spaced
  obtain ⟨gaps, rest⟩ := List.pairwise_cons.mp tail
  have shorter : part.stop headerSize ≤ span.stop headerSize := by
    simp only [stop, start]
    have := mul_le_mul_left headerSize fewer
    omega
  apply List.pairwise_append.mpr ⟨front, List.pairwise_cons.mpr ⟨_, rest⟩, _⟩
  · intro second late
    have := gaps second late
    omega
  · intro first early second late
    rcases List.mem_cons.mp late with rfl | late
    · rw [start]
      exact across first early span List.mem_cons_self
    · exact across first early second (List.mem_cons_of_mem _ late)

/-- A free block is cut into free parts and a new live block. -/
theorem Sound.carve (parts : List Extent) (sound : Sound base heap (before ++ span :: after) live)
    (list : FreeList base next (before ++ (parts ++ after))) (inside : block.Within headerSize span)
    (nonempty : 0 < block.units) (lowest : base + headerSize ≤ block.start)
    (size : (next.size block.start).toNat = block.units)
    (cut : ∀ part ∈ parts, part.Within headerSize span ∧ part.start = span.start ∧ 0 < part.units ∧
      part.stop headerSize ≤ block.start) (units : totalUnits parts + block.units = span.units)
    (kept : ∀ other ∈ live, next.size other.start = heap.size other.start) (brk : next.brk = heap.brk)
    (granted : next.granted = heap.granted) : Sound base next (before ++ (parts ++ after)) (block :: live) := by
  have free : span ∈ before ++ span :: after := by simp
  have ordered := sound.list.ordered
  have long := block.start_le_stop headerSize
  refine ⟨list, ?_, ?_, ?_, ?_, ?_, brk ▸ sound.above, ?_⟩
  case refine_1 =>
    intro other member ne
    rw [List.mem_append, List.mem_append] at member
    rcases member with early | part | late
    · exact sound.full other (by simp [early]) ne
    · obtain ⟨_, start, positive, _⟩ := cut other part
      have old := sound.full span free (start ▸ ne)
      exact ⟨positive, start ▸ old.2⟩
    · exact sound.full other (by simp [late]) ne
  case refine_2 =>
    intro other member
    rcases List.mem_cons.mp member with rfl | member
    · exact ⟨size, nonempty, lowest⟩
    · rw [kept other member]
      exact sound.held other member
  case refine_3 =>
    apply List.pairwise_cons.mpr ⟨_, sound.apart⟩
    intro other member
    exact ((sound.beside other member span free).within inside).symm
  case refine_4 =>
    intro held member other kind
    rw [List.mem_append, List.mem_append] at kind
    rcases List.mem_cons.mp member with rfl | member
    · rcases kind with early | part | late
      · have := ordered.1 other early
        exact .inr (by have := inside.1; omega)
      · exact .inr (cut other part).2.2.2
      · have := ordered.2 other late
        exact .inl (by have := inside.2; omega)
    · rcases kind with early | part | late
      · exact sound.beside held member other (by simp [early])
      · exact (sound.beside held member span free).within (cut other part).1
      · exact sound.beside held member other (by simp [late])
  case refine_5 =>
    rw [brk]
    intro other member
    have old := sound.below
    have whole := old span (by simp)
    rw [List.mem_append, List.mem_append, List.mem_append, List.mem_cons] at member
    rcases member with (early | part | late) | rfl | member
    · exact old other (by simp [early])
    · exact (cut other part).1.2.trans whole
    · exact old other (by simp [late])
    · exact inside.2.trans whole
    · exact old other (by simp [member])
  case refine_6 =>
    rw [granted, ← sound.total]
    simp only [totalUnits_append, totalUnits_cons]
    omega

/-- A whole free block is taken out of the list. -/
theorem Sound.take_whole (sound : Sound base heap (before ++ prev :: span :: after) live) (other : span.start ≠ base) :
    Sound base ((heap.setPtr prev.start (heap.ptr span.start)).setFreep prev.start) (before ++ prev :: after)
      (span :: live) := by
  have inside : span ∈ before ++ prev :: span :: after := by simp
  obtain ⟨nonempty, lowest⟩ := sound.full span inside other
  have once := sound.list.spaced.nodup
  have circular := sound.list.circular
  rw [List.map_append, List.map_cons, List.map_cons] at circular once
  have sublist : (before ++ prev :: after).Sublist (before ++ prev :: span :: after) :=
    ((List.sublist_cons_self span after).cons_cons prev).append_left before
  have list : FreeList base ((heap.setPtr prev.start (heap.ptr span.start)).setFreep prev.start)
      (before ++ prev :: after) := by
    refine ⟨?_, ?_, sound.list.spaced.sublist sublist, ?_, by simp⟩
    · have starts := sound.list.starts
      cases before <;> exact starts
    · rw [setFreep_ptr, setPtr_ptr, List.map_append, List.map_cons]
      exact circular.erase once
    · intro other member
      rw [setFreep_size, setPtr_size]
      exact sound.list.sizes other (sublist.subset member)
  have shape : before ++ prev :: span :: after = (before ++ [prev]) ++ span :: after := by simp
  rw [shape] at sound
  have same : before ++ prev :: after = (before ++ [prev]) ++ ([] ++ after) := by simp
  rw [same] at list ⊢
  apply sound.carve [] list ⟨le_rfl, le_rfl⟩ nonempty lowest
  · rw [setFreep_size, setPtr_size]
    exact sound.list.sizes span (by simp)
  · exact nofun
  · simp
  · intro held member
    rw [setFreep_size, setPtr_size]
  · rfl
  · rfl

/-- The tail of a free block. -/
def tailOf (span : Extent) (units : Nat) : Extent := ⟨span.start + headerSize * (span.units - units), units⟩

theorem tailOf_stop {units : Nat} (fits : units ≤ span.units) :
    (tailOf span units).stop headerSize = span.stop headerSize := by
  simp only [tailOf, stop]
  rw [Nat.add_assoc, ← Nat.mul_add]
  congr 2
  omega

theorem tailOf_within {units : Nat} (fits : units ≤ span.units) : (tailOf span units).Within headerSize span :=
  ⟨Nat.le_add_right .., (tailOf_stop fits).le⟩

/-- The tail of a free block is cut off. -/
theorem Sound.take_tail (sound : Sound base heap (before ++ span :: after) live) {rest : BitVec 32} {freep : Nat}
    (left : rest.toNat = span.units - nunits.toNat) (fits : nunits.toNat < span.units) (positive : 0 < nunits.toNat)
    (other : span.start ≠ base) (listed : freep ∈ (before ++ span :: after).map start) :
    Sound base (((heap.setSize span.start rest).setSize (tailOf span nunits.toNat).start nunits).setFreep freep)
      (before ++ ⟨span.start, span.units - nunits.toNat⟩ :: after) (tailOf span nunits.toNat :: live) := by
  have free : span ∈ before ++ span :: after := by simp
  obtain ⟨nonempty, lowest⟩ := sound.full span free other
  have ordered := sound.list.ordered
  have later : span.start < (tailOf span nunits.toNat).start := by
    have : 0 < headerSize * (span.units - nunits.toNat) := mul_pos (by decide) (by omega)
    simp only [tailOf]
    omega
  have ends : (tailOf span nunits.toNat).start ≤ span.stop headerSize := by
    rw [← tailOf_stop fits.le]
    exact start_le_stop ..
  have within := tailOf_within fits.le
  have sizes : ∀ p, p ≠ span.start → p ≠ (tailOf span nunits.toNat).start →
      (((heap.setSize span.start rest).setSize (tailOf span nunits.toNat).start nunits).setFreep freep).size p =
        heap.size p := by
    intro p notSpan notTail
    rw [setFreep_size, setSize_size, update_of_ne notTail, setSize_size, update_of_ne notSpan]
  have list : FreeList base
      (((heap.setSize span.start rest).setSize (tailOf span nunits.toNat).start nunits).setFreep freep)
      (before ++ ⟨span.start, span.units - nunits.toNat⟩ :: after) := by
    have same : (before ++ ⟨span.start, span.units - nunits.toNat⟩ :: after).map start =
        (before ++ span :: after).map start := by
      simp
    refine ⟨?_, ?_, sound.list.shrink rfl (sub_le ..), ?_, ?_⟩
    · have starts := sound.list.starts
      cases before with
      | cons first rest => exact starts
      | nil =>
        obtain rfl : span = ⟨base, 0⟩ := Option.some.inj starts
        exact absurd rfl other
    · rw [setFreep_ptr, setSize_ptr, setSize_ptr, same]
      exact sound.list.circular
    · intro part member
      rw [List.mem_append, List.mem_cons] at member
      have own := part.start_le_stop headerSize
      rcases member with early | rfl | late
      · have := ordered.1 part early
        rw [sizes _ (by omega) (by omega)]
        exact sound.list.sizes part (by simp [early])
      · rw [setFreep_size, setSize_size, update_of_ne later.ne, setSize_size, update_self]
        exact left
      · have := ordered.2 part late
        rw [sizes _ (by omega) (by omega)]
        exact sound.list.sizes part (by simp [late])
    · rw [setFreep_freep, same]
      exact listed
  apply sound.carve [_] list within positive (by omega)
  · rw [setFreep_size, setSize_size, update_self]
    rfl
  · intro part member
    obtain rfl := List.mem_singleton.mp member
    refine ⟨⟨le_rfl, ?_⟩, rfl, ?_, le_rfl⟩
    · simp only [stop]
      have := mul_le_mul_left headerSize (sub_le span.units nunits.toNat)
      omega
    · change 0 < span.units - nunits.toNat
      omega
  · simp only [totalUnits_cons, totalUnits_nil, tailOf]
    omega
  · intro held member
    apply sizes
    · exact sound.start_ne member free
    · have apart := (sound.beside held member span free).within within
      exact apart.start_ne (by decide) (sound.held held member).2.1 positive
  · rfl
  · rfl

/-- A fitting block becomes a live block of the wanted size. -/
theorem Sound.take (sound : Sound base heap (before ++ prev :: span :: after) live) (other : span.start ≠ base)
    (fits : heap.size span.start ≥ nunits) (positive : 0 < nunits.toNat) :
    ∃ block free next, heap.take prev.start span.start nunits = (block.start + headerSize, next) ∧
      block.units = nunits.toNat ∧ Sound base next free (block :: live) ∧ next.granted = heap.granted ∧
      free.length ≤ (before ++ prev :: span :: after).length := by
  have size := sound.list.sizes span (by simp)
  have atMost : nunits.toNat ≤ span.units := size ▸ le_def.mp fits
  unfold Umalloc.take
  split
  case isTrue whole =>
    refine ⟨span, _, _, rfl, ?_, sound.take_whole other, rfl, ?_⟩
    · rw [← size, whole]
    · simp
  case isFalse more =>
    have fewer : nunits.toNat < span.units := by
      rcases atMost.lt_or_eq with fewer | same
      · exact fewer
      · exact absurd (eq_of_toNat_eq (size.trans same.symm)) more
    have left : (heap.size span.start - nunits).toNat = span.units - nunits.toNat := by
      rw [toNat_sub_of_le fits, size]
    have place : plus span.start (heap.size span.start - nunits) = (tailOf span nunits.toNat).start := by
      rw [plus, left]
      rfl
    have shape : before ++ prev :: span :: after = (before ++ [prev]) ++ span :: after := by simp
    rw [shape] at sound ⊢
    simp only [place]
    refine ⟨_, _, _, rfl, rfl, sound.take_tail left fewer positive other (by simp), rfl, ?_⟩
    simp

/-- The loop of `malloc` goes past the blocks that do not fit. -/
theorem mallocLoop_segment (limit fuel : Nat) (answers : List Nat) {nodes : List Nat} {first final : Nat}
    (segment : Segment heap.ptr first nodes final)
    (missing : ∀ node ∈ nodes, ¬heap.size node ≥ nunits ∧ node ≠ heap.freep) :
    ∃ prev ∈ first :: nodes, heap.ptr prev = final ∧
      heap.mallocLoop limit nunits (fuel + nodes.length) answers first (heap.ptr first) =
        heap.mallocLoop limit nunits fuel answers prev final := by
  induction nodes generalizing first with
  | nil =>
    have link : heap.ptr first = final := segment
    exact ⟨first, .head _, link, by rw [link]; rfl⟩
  | cons node rest ih =>
    obtain ⟨small, other⟩ := missing node List.mem_cons_self
    obtain ⟨prev, inside, link, later⟩ :=
      ih segment.2 fun inner inside => missing inner (List.mem_cons_of_mem _ inside)
    refine ⟨prev, List.mem_cons_of_mem _ inside, link, ?_⟩
    rw [segment.1, List.length_cons, ← add_assoc, mallocLoop, if_neg small, if_neg other]
    exact later

/-- The two blocks around a link that does not lead to the base header. -/
theorem FreeList.split_of_link (list : FreeList base heap spans) {p s : Nat} (inside : p ∈ spans.map start)
    (link : heap.ptr p = s) (other : s ≠ base) :
    ∃ before prev span after, spans = before ++ prev :: span :: after ∧ prev.start = p ∧ span.start = s := by
  have starts : (spans.map start).head? = some base := by
    rw [List.head?_map, list.starts]
    rfl
  obtain ⟨early, late, same⟩ := list.circular.split_of_next starts inside link other
  obtain ⟨before, rest, rfl, _, tail⟩ := List.map_eq_append_iff.mp same
  obtain ⟨prev, rest, rfl, start, tail⟩ := List.map_eq_cons_iff.mp tail
  obtain ⟨span, after, rfl, next, _⟩ := List.map_eq_cons_iff.mp tail
  exact ⟨before, prev, span, after, rfl, start, next⟩

theorem FreeList.size_base (list : FreeList base heap spans) : (heap.size base).toNat = 0 := by
  obtain ⟨rest, rfl⟩ := List.head?_eq_some_iff.mp list.starts
  exact list.sizes ⟨base, 0⟩ List.mem_cons_self

/-- The loop of `malloc` takes the first block that fits on its path. -/
theorem FreeList.mallocLoop_fits (list : FreeList base heap spans) (positive : 0 < nunits.toNat) {nodes : List Nat}
    {s : Nat} (path : Segment heap.ptr heap.freep nodes s)
    (missing : ∀ node ∈ nodes, ¬heap.size node ≥ nunits ∧ node ≠ heap.freep)
    (listed : ∀ node ∈ heap.freep :: nodes, node ∈ spans.map start) (fits : heap.size s ≥ nunits)
    (short : nodes.length < fuel) :
    ∃ before prev span after, spans = before ++ prev :: span :: after ∧ span.start ≠ base ∧
      heap.size span.start ≥ nunits ∧
      heap.mallocLoop limit nunits fuel answers heap.freep (heap.ptr heap.freep) =
        .ok (heap.take prev.start span.start nunits) := by
  obtain ⟨rest, rfl⟩ : ∃ rest, fuel = (rest + 1) + nodes.length := ⟨fuel - nodes.length - 1, by omega⟩
  obtain ⟨p, inside, link, arrives⟩ :=
    mallocLoop_segment limit (rest + 1) answers path missing
  have other : s ≠ base := by
    rintro rfl
    have := list.size_base
    have := le_def.mp fits
    omega
  obtain ⟨before, prev, span, after, same, rfl, rfl⟩ := list.split_of_link (listed p inside) link other
  refine ⟨before, prev, span, after, same, other, fits, ?_⟩
  rw [arrives, Umalloc.mallocLoop, if_pos fits]

/-- The loop of `malloc` takes a block that fits, or it comes back to its start when no block fits. -/
theorem FreeList.mallocLoop (limit : Nat) (answers : List Nat) (list : FreeList base heap spans) (positive : 0 < nunits.toNat)
    (enough : spans.length ≤ fuel) :
    (∃ before prev span after, spans = before ++ prev :: span :: after ∧ span.start ≠ base ∧
        heap.size span.start ≥ nunits ∧
        heap.mallocLoop limit nunits fuel answers heap.freep (heap.ptr heap.freep) =
          .ok (heap.take prev.start span.start nunits)) ∨
      (∀ span ∈ spans, ¬heap.size span.start ≥ nunits) ∧ ∃ rest prev, fuel = rest + spans.length ∧
          heap.mallocLoop limit nunits fuel answers heap.freep (heap.ptr heap.freep) =
            heap.mallocLoop limit nunits (rest + 1) answers prev heap.freep := by
  obtain ⟨early, late, same⟩ := List.append_of_mem list.freep
  have circular := list.circular
  have once := list.spaced.nodup
  rw [same] at circular once
  have segment := circular_rotate.mp circular
  have turned : early ++ heap.freep :: late ~ heap.freep :: (late ++ early) := List.perm_append_comm
  have length : spans.length = (late ++ early).length + 1 := by
    have count := congrArg List.length same
    rwa [List.length_map, turned.length_eq, List.length_cons] at count
  have listed : ∀ node ∈ heap.freep :: (late ++ early), node ∈ spans.map start := by
    intro node inside
    rw [same]
    exact turned.mem_iff.mpr inside
  have elsewhere : ∀ node ∈ late ++ early, node ≠ heap.freep := by
    intro node inside equal
    exact (List.nodup_cons.mp (turned.nodup_iff.mp once)).1 (equal ▸ inside)
  cases first : (late ++ early).find? fun node => heap.size node ≥ nunits with
  | some s =>
    obtain ⟨fits, nodes, others, path, missing⟩ := List.find?_eq_some_iff_append.mp first
    rw [path] at segment length listed elsewhere
    left
    apply list.mallocLoop_fits positive (segment_append.mp segment).1
    · intro node inside
      constructor
      · simpa using missing node inside
      · exact elsewhere node (List.mem_append_left _ inside)
    · intro node inside
      apply listed
      rw [← List.cons_append]
      exact List.mem_append_left _ inside
    · exact of_decide_eq_true fits
    · simp only [List.length_append, List.length_cons] at length
      omega
  | none =>
    have missing : ∀ node ∈ late ++ early, ¬heap.size node ≥ nunits ∧ node ≠ heap.freep := by
      intro node inside
      constructor
      · simpa using List.find?_eq_none.mp first node inside
      · exact elsewhere node inside
    by_cases fits : heap.size heap.freep ≥ nunits
    · exact .inl (list.mallocLoop_fits positive segment missing listed fits (by omega))
    · right
      constructor
      · intro span inside
        have member : span.start ∈ spans.map start := List.mem_map_of_mem inside
        rw [same, turned.mem_iff] at member
        rcases List.mem_cons.mp member with here | there
        · rw [here]
          exact fits
        · exact (missing _ there).1
      · obtain ⟨rest, rfl⟩ : ∃ rest, fuel = (rest + 1) + (late ++ early).length :=
          ⟨fuel - (late ++ early).length - 1, by omega⟩
        obtain ⟨prev, _, _, arrives⟩ :=
          mallocLoop_segment limit (rest + 1) answers segment missing
        exact ⟨rest, prev, by omega, arrives⟩

/-- Every block starts below the regions to come. -/
theorem Sound.start_lt (sound : Sound base heap spans live) {extent : Extent} (inside : extent ∈ spans ++ live) :
    extent.start < heap.brk := by
  have below := sound.below extent inside
  have above := sound.above
  have long : 0 < extent.units → 0 < headerSize * extent.units := mul_pos (by decide)
  simp only [stop] at below
  rcases List.mem_append.mp inside with free | held
  · by_cases first : extent.start = base
    · have : 0 < headerSize := by decide
      omega
    · have := long (sound.full extent free first).1
      omega
  · have := long (sound.held extent held).2.1
    omega

/-- A new region of `sbrk` is a live block until `free` puts it into the list. -/
theorem Sound.region (sound : Sound base heap spans live) {nu : BitVec 32} {hp : Nat} (room : heap.brk ≤ hp)
    (positive : 0 < nu.toNat) : Sound base ((heap.grow hp nu.toNat).setSize hp nu) spans (⟨hp, nu.toNat⟩ :: live) := by
  have above := sound.above
  have fresh : ∀ extent ∈ spans ++ live,
      ((heap.grow hp nu.toNat).setSize hp nu).size extent.start = heap.size extent.start := by
    intro extent inside
    have lower := sound.start_lt inside
    rw [setSize_size, update_of_ne (by omega)]
    rfl
  have below : ∀ extent ∈ spans ++ live, extent.stop headerSize ≤ hp := fun extent inside =>
    (sound.below extent inside).trans room
  refine ⟨⟨sound.list.starts, ?_, sound.list.spaced, ?_, sound.list.freep⟩, sound.full, ?_, ?_, ?_, ?_, ?_, ?_⟩
  · rw [setSize_ptr]
    exact sound.list.circular
  · intro span inside
    rw [fresh span (List.mem_append_left _ inside)]
    exact sound.list.sizes span inside
  · intro block inside
    rcases List.mem_cons.mp inside with rfl | inside
    · refine ⟨?_, positive, above.trans room⟩
      rw [setSize_size, update_self]
    · rw [fresh block (List.mem_append_right _ inside)]
      exact sound.held block inside
  · apply List.pairwise_cons.mpr ⟨_, sound.apart⟩
    intro other inside
    exact .inr (below other (List.mem_append_right _ inside))
  · intro block inside span free
    rcases List.mem_cons.mp inside with rfl | inside
    · exact .inr (below span (List.mem_append_left _ free))
    · exact sound.beside block inside span free
  · intro extent inside
    rw [List.mem_append, List.mem_cons] at inside
    rcases inside with free | rfl | held
    · exact (below extent (List.mem_append_left _ free)).trans (Nat.le_add_right ..)
    · exact le_rfl
    · exact (below extent (List.mem_append_right _ held)).trans (Nat.le_add_right ..)
  · change base + headerSize ≤ hp + headerSize * nu.toNat
    omega
  · change totalUnits spans + totalUnits (⟨hp, nu.toNat⟩ :: live) = heap.granted + nu.toNat
    rw [totalUnits_cons, ← sound.total]
    change totalUnits spans + (nu.toNat + totalUnits live) = totalUnits spans + totalUnits live + nu.toNat
    omega

theorem le_regionUnits (nunits : BitVec 32) : nunits.toNat ≤ (regionUnits nunits).toNat := by
  unfold regionUnits
  split
  case isTrue few => exact (lt_def.mp few).le
  case isFalse => exact le_rfl

/-- With an answer of `sbrk` the free list gets a block that fits. -/
theorem Sound.morecore (answers : List Nat) (sound : Sound base heap spans live) (limited : limit ≤ 2 ^ 32) (positive : 0 < nunits.toNat)
    (enough : spans.length ≤ fuel) :
    answers = [] ∧ heap.morecore limit fuel nunits answers = .ok none ∨
      heap.morecore limit fuel nunits answers = .error .blocked ∨
      ∃ next free rest, heap.morecore limit fuel nunits answers = .ok (some (next, rest)) ∧
        Sound base next free live ∧ next.granted < 2 ^ 32 ∧ free.length ≤ spans.length + 1 ∧
        ∃ span ∈ free, next.size span.start ≥ nunits := by
  cases answers with
  | nil => exact .inl ⟨rfl, rfl⟩
  | cons addr rest =>
    right
    have least := le_regionUnits nunits
    by_cases allowed : heap.brk ≤ addr ∧ addr + headerSize * (regionUnits nunits).toNat ≤ 2 ^ 64 ∧
        heap.granted + (regionUnits nunits).toNat < limit
    · have answered : heap.sbrk limit (regionUnits nunits).toNat (addr :: rest) =
          .ok (some addr, heap.grow addr (regionUnits nunits).toNat, rest) := if_pos allowed
      have region := sound.region allowed.1 (by omega : 0 < (regionUnits nunits).toNat)
      have few : heap.granted + (regionUnits nunits).toNat < 2 ^ 32 := by omega
      obtain ⟨next, free, freed, clean, length, ⟨span, inside, covers⟩, _, granted⟩ := region.free few enough
      right
      refine ⟨next, free, rest, ?_, clean, granted ▸ few, length, span, inside, ?_⟩
      · simp only [Umalloc.morecore, answered, freed]
      · have size := clean.list.sizes span inside
        rw [ge_iff_le, le_def, size]
        exact least.trans covers
    · left
      have answered : heap.sbrk limit (regionUnits nunits).toNat (addr :: rest) = .error .blocked := if_neg allowed
      simp only [Umalloc.morecore, answered]

/-- A call of `malloc` on a prepared heap returns a live block of the wanted size, or zero if `sbrk` fails. -/
theorem Sound.mallocLoop (answers : List Nat) (sound : Sound base heap spans live) (few : heap.granted < 2 ^ 32)
    (limited : limit ≤ 2 ^ 32) (positive : 0 < nunits.toNat) (enough : 2 * spans.length + 1 ≤ fuel) :
    heap.mallocLoop limit nunits fuel answers heap.freep (heap.ptr heap.freep) = .error .blocked ∨
      answers = [] ∧ heap.mallocLoop limit nunits fuel answers heap.freep (heap.ptr heap.freep) = .ok (0, heap) ∨
      ∃ block free next, heap.mallocLoop limit nunits fuel answers heap.freep (heap.ptr heap.freep) =
          .ok (block.start + headerSize, next) ∧ block.units = nunits.toNat ∧ Sound base next free (block :: live) ∧
        next.granted < 2 ^ 32 ∧ free.length ≤ spans.length + 1 := by
  rcases sound.list.mallocLoop limit answers positive (by omega : spans.length ≤ fuel) with
    ⟨before, prev, span, after, rfl, other, fits, found⟩ | ⟨missing, rest, prev, rfl, returns⟩
  · obtain ⟨block, free, next, taken, units, clean, granted, length⟩ := sound.take other fits positive
    exact .inr (.inr ⟨block, free, next, by rw [found, taken], units, clean, granted ▸ few, by omega⟩)
  · obtain ⟨first, inside, start⟩ := List.mem_map.mp sound.list.freep
    have small : ¬heap.size heap.freep ≥ nunits := start ▸ missing first inside
    rw [returns, Umalloc.mallocLoop, if_neg small, if_pos rfl]
    rcases sound.morecore answers limited positive (by omega : spans.length ≤ rest) with
      ⟨none, failed⟩ | blocked | ⟨middle, free, answers, answered, clean, few, length, span, inside, fits⟩
    · rw [failed]
      exact .inr (.inl ⟨none, rfl⟩)
    · rw [blocked]
      exact .inl rfl
    · rw [answered]
      right
      right
      rcases clean.list.mallocLoop limit answers positive (by omega : free.length ≤ rest) with
        ⟨before, prev, span, after, rfl, other, fits, found⟩ | ⟨missing, _⟩
      · obtain ⟨block, free, next, taken, units, clean, granted, shorter⟩ := clean.take other fits positive
        exact ⟨block, free, next, by rw [← taken, ← found], units, clean, granted ▸ few, by omega⟩
      · exact absurd fits (missing span inside)

end Umalloc
end Xv6
