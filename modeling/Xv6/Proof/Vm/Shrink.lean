import Xv6.Proof.Vm.Free
import Xv6.Proof.Vm.View

namespace Xv6
open Library Function
variable {a : BitVec 64} {page : Nat}

section Addresses

theorem PGROUNDDOWN_toNat (a : BitVec 64) : (PGROUNDDOWN a).toNat = a.toNat / PGSIZE * PGSIZE :=
  toNat_and_not_mask a 12

/-- The number of pages up to a size. -/
def topPage (sz : BitVec 64) : Nat := (sz.toNat + 4095) / PGSIZE

theorem PGROUNDUP_toNat {sz : BitVec 64} (bounded : sz.toNat + 4095 < 2 ^ 64) :
    (PGROUNDUP sz).toNat = topPage sz * PGSIZE := by
  have sum : (sz + 0xFFF).toNat = sz.toNat + 4095 := by
    rw [BitVec.toNat_add]
    exact Nat.mod_eq_of_lt bounded
  have rounded : (PGROUNDUP sz).toNat = (sz + 0xFFF).toNat / 2 ^ 12 * 2 ^ 12 := toNat_and_not_mask _ 12
  rw [rounded, sum]
  rfl

variable (address : a.toNat = page * PGSIZE)
include address

theorem page_succ (bounded : page < 2 ^ 51) : (a + BitVec.ofNat 64 PGSIZE).toNat = (page + 1) * PGSIZE := by
  rw [BitVec.toNat_add, address]
  simp only [PGSIZE, BitVec.toNat_ofNat]
  omega

theorem page_number : a.toNat / PGSIZE = page := by
  rw [address]
  exact Nat.mul_div_cancel page (by decide)

theorem pagesUpTo_eq {last : BitVec 64} : pagesUpTo a last = topPage last - page := by
  rw [pagesUpTo, address, topPage]
  simp only [PGSIZE]
  omega

end Addresses

section Dealloc
variable {root : Nat} {kernel k : Kernel} {tree : List Nat → Option Nat} {path : List Nat} {table index frame : Nat}
  {after middle : Kernel}

/-- The record of mapped pages gains only pages of the allocator. -/
structure Records (kernel after : Kernel) : Prop where
  kend : after.kend = kernel.kend
  older : kernel.grown ⊆ after.grown
  newer : ∀ frame ∈ after.grown, frame ∈ kernel.grown ∨ kernel.Allocatable frame
  loaded : after.loaded = kernel.loaded

theorem Records.of_eq (kend : after.kend = k.kend) (grown : after.grown = k.grown)
    (loaded : after.loaded = k.loaded) : Records k after :=
  ⟨kend, grown ▸ List.Subset.refl _, fun _ member => .inl (grown ▸ member), loaded⟩

theorem Records.trans (early : Records k middle) (late : Records middle after) : Records k after where
  kend := late.kend.trans early.kend
  older := List.Subset.trans early.older late.older
  newer frame member := by
    rcases late.newer frame member with old | allocatable
    · exact early.newer frame old
    · rw [Kernel.Allocatable, early.kend] at allocatable
      exact .inr allocatable
  loaded := late.loaded.trans early.loaded

/-- After the step the tree is still a tree of allocated pages. -/
structure Shrunk (kernel : Kernel) (root : Nat) (tree : List Nat → Option Nat) (after : Kernel)
    (smaller : List Nat → Option Nat) : Prop where
  heap : Heap after
  space : Table 4 after root smaller
  evolves : Evolves [] kernel tree after smaller
  records : Records kernel after
  owned : ∀ frame, Owned after smaller frame ↔ Owned kernel tree frame
  foreign : ∀ frame, ¬Owned kernel tree frame → after.memory frame = kernel.memory frame
  upper : ∀ {index}, 256 ≤ index → index < 512 →
    slot 64 (after.memory root) index = slot 64 (kernel.memory root) index

theorem Shrunk.refl (heap : Heap k) (space : Table 4 k root tree) : Shrunk k root tree k tree :=
  ⟨heap, space, (Grows.refl k tree).toEvolves, .of_eq rfl rfl rfl, fun _ => .rfl, fun _ _ => rfl, fun _ _ => rfl⟩

theorem Shrunk.trans {smaller smallest : List Nat → Option Nat} (early : Shrunk k root tree middle smaller)
    (late : Shrunk middle root smaller after smallest) : Shrunk k root tree after smallest where
  heap := late.heap
  space := late.space
  evolves := early.evolves.trans late.evolves
  records := early.records.trans late.records
  owned frame := (late.owned frame).trans (early.owned frame)
  foreign frame unowned := (late.foreign frame fun mine => unowned ((early.owned frame).mp mine)).trans
    (early.foreign frame unowned)
  upper high bounded := (late.upper high bounded).trans (early.upper high bounded)

/-- A page that moves from the tree to the free list is still owned. -/
theorem owned_unlink {place : List Nat} (found : tree place = some frame)
    (listed : ∀ other, other ∈ after.freelist ↔ other ∈ k.freelist ∨ other = frame) (other : Nat) :
    Owned after (update tree place none) other ↔ Owned k tree other := by
  rw [Owned, Owned, listed]
  constructor
  · rintro ((old | rfl) | ⟨path, inner⟩)
    · exact .inl old
    · exact .inr ⟨place, found⟩
    · rw [update_apply] at inner
      split at inner
      · cases inner
      · exact .inr ⟨path, inner⟩
  · rintro (old | ⟨path, inner⟩)
    · exact .inl (.inl old)
    · by_cases same : path = place
      · rw [same, found] at inner
        exact .inl (.inr (Option.some.inj inner).symm)
      · exact .inr ⟨path, (update_of_ne same _ _).trans inner⟩

variable (space : Table 4 k root tree)
include space

/-- A mapped page is freed and its entry is cleared. -/
theorem Table.unmap (heap : Heap k) (here : tree (tablePath page) = some table) (user : page < 2 ^ 35)
    (found : tree (pagePath page) = some frame) :
    ∃ freed after, k.kfree frame = .ok freed ∧ freed.storeEntry table (page % 512) 0 = .ok after ∧
      Shrunk k root tree after (update tree (pagePath page) none) ∧
      ∀ other < 2 ^ 35, pageView after (update tree (pagePath page) none) other =
        if other = page then none else pageView k tree other := by
  obtain ⟨allocatable, used⟩ := space.frames found
  obtain ⟨freed, ran, gone⟩ := Freed.kfree heap allocatable used
  have bounded : page % 512 < 512 := Nat.mod_lt page (by decide)
  have entry : ∀ node other, slot 64 ((freed.setEntry table (page % 512) 0).memory node) other = _ :=
    slot_setEntry bounded 0
  have shallow : ∀ {place node}, tree place = some node → place.length < 4 → node ≠ frame := by
    rintro place node inner short rfl
    rw [space.radix.injective inner found] at short
    exact absurd short (show ¬4 < 4 by decide)
  have ne : table ≠ frame := shallow here (show 3 < 4 by decide)
  have elsewhere : ∀ node, node ≠ table → node ≠ frame →
      (freed.setEntry table (page % 512) 0).memory node = k.memory node := fun node outside kept =>
    (setPage_memory_ne outside _).trans (gone.memory node kept)
  refine ⟨freed, freed.setEntry table (page % 512) 0, ran, storeEntry_ok (space.frames here).1.directMapped _ 0, ?_, ?_⟩
  · refine ⟨gone.heap.setPage _ _, ⟨space.lower, space.upper, ?_, ?_⟩, ⟨gone.kend, gone.kpdpt, ?_⟩,
      .of_eq gone.kend gone.grown gone.loaded, owned_unlink found gone.freelist, ?_, ?_⟩
    · refine space.radix.prune here rfl (child_of_zero ?_) ?_
      · rw [entry, if_pos ⟨rfl, rfl⟩]
      · intro place node i inner short _ other
        refine child_congr ?_
        rw [entry, if_neg (by tauto), gone.memory node (shallow inner short)]
    · intro place other inner
      rw [update_apply] at inner
      split at inner
      · cases inner
      · rename_i outside
        have kept : other ≠ frame := by
          rintro rfl
          exact outside (space.radix.injective inner found)
        have allocated : freed.Allocatable other := by
          rw [Kernel.Allocatable, gone.kend]
          exact (space.frames inner).1
        refine ⟨allocated, fun free => ?_⟩
        rcases (gone.freelist other).mp free with old | same
        · exact (space.frames inner).2 old
        · exact kept same
    · intro other _ _ unowned
      have kept : other ≠ frame := by
        rintro rfl
        exact unowned (.inr ⟨_, found⟩)
      have outside : other ≠ table := by
        rintro rfl
        exact unowned (.inr ⟨_, here⟩)
      refine ⟨elsewhere other outside kept, ?_⟩
      exact fun owned => unowned ((owned_unlink found gone.freelist other).mp owned)
    · intro other unowned
      apply elsewhere
      · rintro rfl
        exact unowned (.inr ⟨_, here⟩)
      · rintro rfl
        exact unowned (.inr ⟨_, found⟩)
    · intro index _ _
      have top : root ≠ table := by
        rintro rfl
        exact absurd (congrArg List.length (space.radix.injective space.radix.root here)) (show 0 ≠ 3 by decide)
      rw [elsewhere root top (shallow space.radix.root (show 0 < 4 by decide))]
  · intro other two
    split
    · rename_i same
      exact pageView_none (same ▸ update_self ..)
    · rename_i apart
      apply space.view_other here user two apart
      · intro node outside kept
        exact elsewhere node outside fun same => kept (same ▸ found)
      · intro index other
        rw [entry, if_neg fun both => other both.2, gone.memory table ne]

/-- A page outside the tree is freed. -/
theorem Table.release (heap : Heap k) (allocatable : k.Allocatable frame) (unowned : ¬Owned k tree frame) :
    ∃ after, k.kfree frame = .ok after ∧ Heap after ∧ Table 4 after root tree ∧
      Evolves [frame] k tree after tree ∧ Records k after ∧
      (∀ other, Owned after tree other ↔ other = frame ∨ Owned k tree other) ∧
      ∀ other, other ≠ frame → after.memory other = k.memory other := by
  obtain ⟨after, ran, freed⟩ := Freed.kfree heap allocatable fun free => unowned (.inl free)
  have kept : ∀ {place other}, tree place = some other → other ≠ frame := by
    rintro place other found rfl
    exact unowned (.inr ⟨place, found⟩)
  have owned : ∀ other, Owned after tree other ↔ other = frame ∨ Owned k tree other := by
    intro other
    rw [Owned, Owned, freed.freelist, or_assoc, or_left_comm]
  refine ⟨after, ran, freed.heap, ⟨space.lower, space.upper, ?_, ?_⟩, ⟨freed.kend, freed.kpdpt, ?_⟩,
    .of_eq freed.kend freed.grown freed.loaded, owned, freed.memory⟩
  · refine space.radix.congr fun found _ _ => child_congr ?_
    rw [freed.memory _ (kept found)]
  · intro place other found
    refine ⟨?_, fun free => ?_⟩
    · rw [Kernel.Allocatable, freed.kend]
      exact (space.frames found).1
    · rcases (freed.freelist other).mp free with old | same
      · exact (space.frames found).2 old
      · exact kept found same
  · intro other foreign _ apart
    have ne : other ≠ frame := fun same => foreign (List.mem_singleton.mpr same)
    refine ⟨freed.memory other ne, ?_⟩
    rintro (free | linked)
    · rcases (freed.freelist other).mp free with old | same
      · exact apart (.inl old)
      · exact ne same
    · exact apart (.inr linked)

/-- The loop of `deallocuvm` never panics below the kernel half. -/
theorem Table.deallocLoop_shrunk {pages : Nat} (heap : Heap k) (address : a.toNat = page * PGSIZE)
    (user : page + pages ≤ 2 ^ 35) :
    ∃ after smaller, Kernel.deallocLoop root pages a k = .ok after ∧ Shrunk k root tree after smaller ∧
      ∀ other < 2 ^ 35, pageView after smaller other =
        if page ≤ other ∧ other < page + pages then none else pageView k tree other := by
  induction pages generalizing page a k tree with
  | zero =>
    refine ⟨k, tree, rfl, .refl heap space, fun other _ => ?_⟩
    rw [if_neg (by omega)]
  | succ pages ih =>
    have next := page_succ address (by omega)
    have inside : page % 512 < 512 := Nat.mod_lt page (by decide)
    have skip : tree (pagePath page) = none → ∃ after smaller,
        Kernel.deallocLoop root pages (a + BitVec.ofNat 64 PGSIZE) k = .ok after ∧
        Shrunk k root tree after smaller ∧ ∀ other < 2 ^ 35, pageView after smaller other =
          if page ≤ other ∧ other < page + (pages + 1) then none else pageView k tree other := by
      intro vacant
      obtain ⟨after, smaller, final, rest, views⟩ := ih space heap next (by omega)
      refine ⟨after, smaller, final, rest, fun other user => ?_⟩
      rw [views other user]
      by_cases same : other = page
      · rw [same, if_neg (by omega), if_pos (by omega), pageView_none vacant]
      · exact if_congr (by omega) rfl rfl
    rw [Kernel.deallocLoop, space.walkpgdir_false (page_number address) (by omega), ok_bind]
    cases here : tree (tablePath page) with
    | none =>
      apply skip
      by_contra present
      exact space.radix.ancestor [page % 512] present here
    | some table =>
      have link := space.radix.child here (show 3 < 4 by decide) inside
      simp only [Option.map_some]
      rw [loadEntry_ok (space.frames here).1.directMapped, ok_bind]
      rw [Kernel.child] at link
      split at link
      · rename_i present
        obtain ⟨freed, cleared, ran, stored, shrunk, view⟩ := space.unmap heap here (by omega) link.symm
        have nonzero : pteFrame (slot 64 (k.memory table) (page % 512)) ≠ 0 :=
          (space.frames link.symm).1.ne_zero heap.start
        rw [if_pos present, if_neg nonzero, ran, ok_bind, stored, ok_bind]
        obtain ⟨after, smaller, final, rest, views⟩ := ih shrunk.space shrunk.heap next (by omega)
        refine ⟨after, smaller, final, shrunk.trans rest, fun other user => ?_⟩
        rw [views other user, view other user]
        by_cases same : other = page
        · rw [if_pos same, ite_self, if_pos (by omega)]
        · rw [if_neg same]
          exact if_congr (by omega) rfl rfl
      · rename_i absent
        rw [if_neg absent]
        exact skip link.symm

/-- The call `deallocuvm` unmaps exactly the pages between the two sizes. -/
theorem Table.deallocuvm_shrunk {oldsz : BitVec 64} (heap : Heap k) (user : oldsz.toNat ≤ 2 ^ 47) (newsz : BitVec 64) :
    ∃ after smaller, k.deallocuvm root oldsz newsz = .ok (if newsz ≥ oldsz then oldsz else newsz, after) ∧
      Shrunk k root tree after smaller ∧ ∀ other < 2 ^ 35, pageView after smaller other =
        if topPage newsz ≤ other ∧ other < topPage oldsz then none else pageView k tree other := by
  rw [Kernel.deallocuvm]
  split
  · rename_i larger
    have order : topPage oldsz ≤ topPage newsz := by
      rw [ge_iff_le, BitVec.le_def] at larger
      exact Nat.div_le_div_right (by omega)
    refine ⟨k, tree, rfl, .refl heap space, fun other _ => ?_⟩
    rw [if_neg (by omega)]
  · rename_i smaller
    have less : newsz.toNat < oldsz.toNat := by
      rw [ge_iff_le, BitVec.le_def] at smaller
      omega
    have rounded : (PGROUNDUP newsz).toNat = topPage newsz * PGSIZE := PGROUNDUP_toNat (by omega)
    have last : topPage newsz + (topPage oldsz - topPage newsz) ≤ 2 ^ 35 := by
      simp only [topPage, PGSIZE]
      omega
    obtain ⟨after, tree', ran, shrunk, view⟩ := space.deallocLoop_shrunk heap rounded last
    refine ⟨after, tree', ?_, shrunk, fun other below => ?_⟩
    · dsimp only
      rw [pagesUpTo_eq rounded, ran, ok_bind]
    · rw [view other below]
      exact if_congr (by omega) rfl rfl

end Dealloc
end Xv6
