import Xv6.Proof.Vm.Image

namespace Xv6
open Library List Nat Kernel

section Setup
variable {k : Kernel} {root : Nat}

theorem Heap.length_le (heap : Heap k) : k.freelist.length ≤ 0xE000 := by
  have inside : k.freelist ⊆ range 0xE000 := fun frame member =>
    mem_range.mpr (heap.free frame member).lt
  have bounded := (heap.distinct.subperm inside).length_le
  rwa [length_range] at bounded

/-- A new page table has its root only. -/
def rootTree (root : Nat) (path : List Nat) : Option Nat := if path = [] then some root else none

theorem rootTree_child (root : Nat) (path : List Nat) (index : Nat) : rootTree root (path ++ [index]) = none :=
  if_neg (by simp)

theorem rootTree_some {path : List Nat} {frame : Nat} (found : rootTree root path = some frame) :
    path = [] ∧ frame = root := by
  rw [rootTree] at found
  split at found
  · rename_i top
    exact ⟨top, (Option.some.inj found).symm⟩
  · cases found

/-- A top table without user entries is a tree. -/
theorem rootTree_table (allocatable : k.Allocatable root) (used : root ∉ k.freelist)
    (blank : ∀ index < 256, slot 64 (k.memory root) index = 0) : Table 4 k root (rootTree root) := by
  refine ⟨by decide, by decide, ⟨rfl, ?_, ?_, ?_⟩, ?_⟩
  · intro path node index found _ inside
    obtain ⟨rfl, rfl⟩ := rootTree_some found
    rw [rootTree_child]
    exact child_of_zero (blank index inside)
  · intro path index present
    exact absurd (rootTree_child root path index) present
  · intro first second node one two
    rw [(rootTree_some one).1, (rootTree_some two).1]
  · intro path frame found
    obtain ⟨_, rfl⟩ := rootTree_some found
    exact ⟨allocatable, used⟩

/-- The call `setupkvm` makes an image without user pages when a page is free. -/
theorem setupkvm_image {rest : List Nat} (heap : Heap k) (free : k.freelist = root :: rest) :
    ∃ after, k.setupkvm = .ok (root, after) ∧ Image after root (rootTree root) 1 [] ∧
      Evolves [] k (fun _ => none) after (rootTree root) ∧ after.freelist = rest ∧ Records k after := by
  have distinct := heap.distinct
  have length := heap.length_le
  rw [free, nodup_cons] at distinct
  rw [free, length_cons] at length
  have listed : ∀ {frame}, frame ∈ rest → frame ∈ k.freelist := fun member =>
    free ▸ mem_cons_of_mem root member
  have allocatable : k.Allocatable root := heap.free root (free ▸ (.head _))
  have entry : ∀ index, slot 64 (((k.takePage root rest).setEntry root 256
      (pteOf k.kpdpt (PTE_P ||| PTE_W))).memory root) index =
        if index = 256 then pteOf k.kpdpt (PTE_P ||| PTE_W) else 0 := by
    intro index
    have blank : slot 64 ((k.takePage root rest).memory root) index = 0 := by
      rw [takePage, clearPage, setPage]
      simp only [Function.update_self]
      exact slot_zero 64 index
    rw [slot_setEntry (by decide), blank]
    simp only [true_and]
  refine ⟨(k.takePage root rest).setEntry root 256 (pteOf k.kpdpt (PTE_P ||| PTE_W)), ?_, ?_, ?_, rfl,
    .of_eq rfl rfl rfl⟩
  · rw [setupkvm, kalloc, free]
    dsimp only
    rw [storeEntry_ok allocatable.directMapped, ok_bind]
    rfl
  · have lower : ∀ index < 256, slot 64 (((k.takePage root rest).setEntry root 256
        (pteOf k.kpdpt (PTE_P ||| PTE_W))).memory root) index = 0 := by
      intro index low
      rw [entry, if_neg (by omega)]
    refine ⟨⟨heap.start, distinct.2, fun frame member => heap.free frame (listed member)⟩,
      rootTree_table allocatable distinct.1 lower, ?_, le_refl 1, ?_, ?_, ?_, ?_, ?_⟩
    · intro path table index found _ inside _
      obtain ⟨rfl, rfl⟩ := rootTree_some found
      exact lower index inside
    · change 1 + rest.length ≤ _
      omega
    · intro path nonroot
      refine iff_of_false (not_not.mpr (if_neg nonroot)) ?_
      rintro ⟨page, one, below, _⟩
      omega
    · intro path frame found leaf
      rw [(rootTree_some found).1] at leaf
      cases leaf
    · intro page table one below
      omega
    · intro index high _
      rw [entry, if_neg (by omega)]
  · refine ⟨rfl, rfl, fun frame _ _ unowned => ?_⟩
    have ne : frame ≠ root := by
      rintro rfl
      exact unowned (.inl (free ▸ (.head _)))
    refine ⟨?_, ?_⟩
    · exact (setPage_memory_ne ne _).trans (setPage_memory_ne ne _)
    · rintro (member | ⟨path, found⟩)
      · exact unowned (.inl (listed member))
      · exact ne (rootTree_some found).2

/-- Without a free page `setupkvm` stores through a null pointer. -/
theorem setupkvm_exhausted (free : k.freelist = []) : k.setupkvm = .error .fault := by
  rw [setupkvm, kalloc, free]

end Setup

section Access
variable {root top page frame : Nat} {k : Kernel} {tree : List Nat → Option Nat} {closed : List Nat}

section
variable (image : Image k root tree top closed)
include image

/-- The frame of a mapped page is no page table. -/
theorem Image.leaf (found : tree (pagePath page) = some frame) {place : List Nat} (other : tree place = some frame) :
    place.length = 4 := by
  rw [image.space.radix.injective other found]
  rfl

/-- A store into a mapped page or into physical page 0 keeps the image. -/
theorem Image.setPage (leaf : ∀ {place}, tree place = some frame → place.length = 4)
    (allowed : Owned k tree frame ∨ ¬k.Allocatable frame) (contents : Page) :
    Image (k.setPage frame contents) root tree top closed ∧ Grows [] k tree (k.setPage frame contents) tree := by
  have grows : Grows [] k tree (k.setPage frame contents) tree := .setPage leaf (.inr allowed) contents
  have space := image.space.setPage leaf contents
  refine ⟨⟨image.heap.setPage _ _, space, grows.blank image.blank, image.first, image.room, image.mapped, image.grown,
    ?_, ?_⟩, grows⟩
  · intro other table one below here
    rw [(image.entry_stable grows one below here).2]
    exact image.flags one below here
  · intro index high bounded
    rw [grows.upper image.space space high.le bounded]
    exact image.upper high bounded

/-- The entry of a mapped page leads to its frame. -/
theorem Image.lookup (one : 1 ≤ page) (below : page < top) :
    ∃ table frame, (∀ {va : BitVec 64}, va.toNat / PGSIZE = page →
        k.walkpgdir root va false = .ok (some (table, page % 512), k)) ∧
      DirectMapped table ∧ tree (tablePath page) = some table ∧ tree (pagePath page) = some frame ∧
      slot 64 (k.memory table) (page % 512) &&& PTE_P ≠ 0 ∧
      pteFrame (slot 64 (k.memory table) (page % 512)) = frame := by
  have bound := image.span.top_le
  obtain ⟨table, frame, here, found⟩ := image.span.found one below
  have inside : page % 512 < levelWidth 3 := mod_lt page (by decide)
  have link := image.space.radix.child here (show 3 < 4 by decide) inside
  refine ⟨table, frame, ?_, (image.space.frames here).1.directMapped, here, found, ?_⟩
  · intro va number
    rw [image.space.walkpgdir_false number (by omega), here]
    rfl
  · rw [← pagePath_eq, found, child] at link
    split at link
    · rename_i present
      exact ⟨present, Option.some.inj link⟩
    · cases link

/-- The table above page 0 exists as soon as page 1 is mapped, and the entry of page 0 is zero. -/
theorem Image.lookup_zero (two : 2 ≤ top) : ∃ table, (∀ {va : BitVec 64}, va.toNat / PGSIZE = 0 →
        k.walkpgdir root va false = .ok (some (table, 0), k)) ∧
      DirectMapped table ∧ slot 64 (k.memory table) 0 = 0 := by
  obtain ⟨table, frame, here, found⟩ := image.span.found (le_refl 1) (by omega)
  have same : tablePath 0 = tablePath 1 := rfl
  rw [← same] at here
  refine ⟨table, ?_, (image.space.frames here).1.directMapped, ?_⟩
  · intro va number
    rw [image.space.walkpgdir_false number (by decide), here]
    rfl
  · exact image.blank here (show 3 < 4 by decide) (show 0 < 512 by decide) (image.span.unmapped (.inl rfl) (by decide))

end

/-- An image without user pages has no table above page 0. -/
theorem Image.lookup_empty (image : Image k root tree 1 closed) {va : BitVec 64} (number : va.toNat / PGSIZE = 0) :
    k.walkpgdir root va false = .ok (none, k) := by
  have absent : tree (tablePath 0) = none := by
    by_contra present
    obtain ⟨page, one, below, _⟩ := (image.mapped (by simp [tablePath])).mp present
    omega
  rw [image.space.walkpgdir_false number (by decide), absent]
  rfl

/-- The top 512 gigabytes of the address space are not mapped. -/
theorem Image.lookup_wrapped (image : Image k root tree top closed) {va : BitVec 64}
    (high : 2 ^ 64 - 2 ^ 39 ≤ va.toNat) : k.walkpgdir root va false = .ok (none, k) := by
  have top : PMX va = 511 := by
    have bounded := va.isLt
    rw [PMX, px_eq]
    omega
  have zero := image.upper (show 256 < 511 by decide) (by decide)
  rw [walkpgdir, top, walkLevel,
    loadEntry_ok (image.space.frames image.space.radix.root).1.directMapped, ok_bind, zero]
  rfl

theorem pteFrame_and_not {mask : BitVec 64} (low : mask.toNat < PGSIZE) (pte : BitVec 64) :
    pteFrame (pte &&& ~~~mask) = pteFrame pte := by
  have same : (pte &&& ~~~mask) >>> 12 = pte >>> 12 := by
    apply BitVec.eq_of_getLsbD_eq
    intro bit inside
    have clear : mask.getLsbD (12 + bit) = false :=
      Nat.testBit_lt_two_pow (low.trans_le (Nat.pow_le_pow_right (n := 2) (by decide) (Nat.le_add_right 12 bit)))
    rw [BitVec.getLsbD_ushiftRight, BitVec.getLsbD_ushiftRight, BitVec.getLsbD_and, BitVec.getLsbD_not, clear]
    by_cases bounded : 12 + bit < 64
    · simp [bounded]
    · rw [BitVec.getLsbD_of_ge pte _ (Nat.le_of_not_lt bounded), Bool.false_and]
  have quotient := congrArg BitVec.toNat same
  rwa [BitVec.toNat_ushiftRight, BitVec.toNat_ushiftRight, shiftRight_eq_div_pow,
    shiftRight_eq_div_pow] at quotient

/-- An entry without `PTE_U` leads to the same frame. -/
theorem child_clear {table index : Nat} (inside : index < 512) (node other : Nat) :
    (k.setEntry table index (slot 64 (k.memory table) index &&& ~~~PTE_U)).child node other = k.child node other := by
  have flag : (slot 64 (k.memory table) index &&& ~~~PTE_U) &&& PTE_P = slot 64 (k.memory table) index &&& PTE_P := by
    rw [BitVec.and_assoc]
    rfl
  rw [child, slot_setEntry inside, child]
  split
  · rename_i both
    obtain ⟨rfl, rfl⟩ := both
    rw [flag, pteFrame_and_not (by decide)]
  · rfl

/-- The call `clearpteu` closes a mapped page. -/
theorem Image.clearpteu_closed (image : Image k root tree top closed) (one : 1 ≤ page) (below : page < top)
    {uva : BitVec 64} (number : uva.toNat / PGSIZE = page) :
    ∃ after, k.clearpteu root uva = .ok after ∧ Image after root tree top (page :: closed) ∧
      Evolves [] k tree after tree ∧ after.freelist = k.freelist ∧ Records k after := by
  have bound := image.span.top_le
  have inside : page % 512 < 512 := mod_lt page (by decide)
  obtain ⟨table, frame, walk, mapped, here, found, present, target⟩ := image.lookup one below
  have entry : ∀ node other, slot 64 ((k.setEntry table (page % 512)
      (slot 64 (k.memory table) (page % 512) &&& ~~~PTE_U)).memory node) other = _ := slot_setEntry inside _
  refine ⟨k.setEntry table (page % 512) (slot 64 (k.memory table) (page % 512) &&& ~~~PTE_U), ?_, ?_, ?_, rfl,
    .of_eq rfl rfl rfl⟩
  · rw [clearpteu, walk number, ok_bind]
    dsimp only
    rw [loadEntry_ok mapped, ok_bind, storeEntry_ok mapped]
  · refine ⟨image.heap.setPage _ _, ⟨image.space.lower, image.space.upper,
      image.space.radix.congr fun _ _ _ => child_clear inside _ _, image.space.frames⟩, ?_, image.first, image.room, image.mapped,
      image.grown, ?_, ?_⟩
    · intro path node index place deep bounded vacant
      rw [entry, if_neg]
      · exact image.blank place deep bounded vacant
      · rintro ⟨rfl, rfl⟩
        rw [image.space.radix.injective place here, ← pagePath_eq, found] at vacant
        cases vacant
    · intro other node least less above
      rw [entry]
      by_cases same : other = page
      · subst same
        obtain rfl : table = node := Option.some.inj (here.symm.trans above)
        rw [if_pos ⟨rfl, rfl⟩, BitVec.and_assoc]
        refine iff_of_true ?_ mem_cons_self
        exact BitVec.and_zero
      · rw [if_neg, image.flags least less above, mem_cons]
        · simp [same]
        · rintro ⟨rfl, index⟩
          have paths := image.space.radix.injective above here
          have prefixed : tablePath other <+: pagePath page := paths ▸ prefix_append _ _
          have quotient := (tablePath_prefix_iff (by omega) (by omega)).mp prefixed
          omega
    · intro index high bounded
      rw [entry, if_neg]
      · exact image.upper high bounded
      · rintro ⟨rfl, _⟩
        have paths := image.space.radix.injective here image.space.radix.root
        cases paths
  · refine ⟨rfl, rfl, fun other _ _ unowned => ⟨setPage_memory_ne ?_ _, unowned⟩⟩
    rintro rfl
    exact unowned (.inr ⟨_, here⟩)

end Access
end Xv6
