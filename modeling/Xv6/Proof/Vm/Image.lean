import Xv6.Proof.Vm.Shrink

namespace Xv6
open Library List Function Nat Option Kernel
variable {after : Kernel} {larger : List Nat → Option Nat} {table page other : Nat} {rest : List Nat}
  {flags : BitVec 64}

section Map
variable {root : Nat} {kernel k : Kernel} {tree : List Nat → Option Nat} {page mem : Nat} {a : BitVec 64}

def userFlags : BitVec 64 := PTE_W ||| PTE_U ||| PTE_P

theorem userFlags_small : (PTE_W ||| PTE_U ||| PTE_P).toNat < PGSIZE := by decide

theorem mappages_page (address : a.toNat = page * PGSIZE) (bounded : page < 2 ^ 51) (pa perm : BitVec 64) :
    k.mappages root a (BitVec.ofNat 64 PGSIZE) pa perm = mapLoop root perm 1 a pa k := by
  have first : PGROUNDDOWN a = a := by
    apply BitVec.eq_of_toNat_eq
    rw [PGROUNDDOWN_toNat, page_number address, address]
  have last : PGROUNDDOWN (a + BitVec.ofNat 64 PGSIZE - 1) = a := by
    apply BitVec.eq_of_toNat_eq
    rw [PGROUNDDOWN_toNat, BitVec.toNat_sub, page_succ address bounded, address]
    simp only [PGSIZE, BitVec.reduceToNat]
    omega
  rw [mappages, first, last, BitVec.sub_self]
  rfl

/-- A vacant page is mapped to a page outside the tree when the missing tables fit into the free list. -/
structure Mapped (kernel : Kernel) (root : Nat) (tree : List Nat → Option Nat) (page mem : Nat) (flags : BitVec 64)
    (after : Kernel) (larger : List Nat → Option Nat) (table : Nat) : Prop where
  heap : Heap after
  space : Table 4 after root larger
  grows : Grows [mem] kernel tree after larger
  freelist : after.freelist = kernel.freelist.drop (missing tree [] (tablePath page))
  grown : after.grown = kernel.grown
  loaded : after.loaded = kernel.loaded
  above : larger (tablePath page) = some table
  entry : slot 64 (after.memory table) (page % 512) = pteOf mem flags
  leaf : larger (pagePath page) = some mem
  others : ∀ place, ¬place <+: pagePath page → larger place = tree place
  owned : ∀ frame, Owned after larger frame ↔ frame = mem ∨ Owned kernel tree frame
  foreign : ∀ frame, ¬Owned kernel tree frame → after.memory frame = kernel.memory frame
  view : ∀ other < 2 ^ 35, pageView after larger other =
    if other = page then some (pteOf mem flags, kernel.memory mem) else pageView kernel tree other

theorem Mapped.records (mapped : Mapped (k.takePage mem rest) root tree page mem flags after larger table)
    (allocatable : k.Allocatable mem) :
    Records k {after with grown := mem :: after.grown} := by
  refine ⟨mapped.grows.kend, ?_, ?_, mapped.loaded⟩
  · rw [mapped.grown]
    exact subset_cons_self mem _
  · intro frame member
    rcases mem_cons.mp member with rfl | old
    · exact .inr allocatable
    · rw [mapped.grown] at old
      exact .inl old

theorem Mapped.length (mapped : Mapped k root tree page mem flags after larger table) :
    after.freelist.length = k.freelist.length - missing tree [] (tablePath page) := by
  rw [mapped.freelist, length_drop]

/-- The entry of a mapped page is present. -/
theorem or_present (perm : BitVec 64) : (perm ||| PTE_P) &&& PTE_P ≠ 0 := by
  intro absent
  have bit := congrArg (·.getLsbD 0) absent
  simp [PTE_P] at bit

theorem not_prefix_table {place : List Nat} (outside : ¬place <+: pagePath page) : ¬place <+: tablePath page :=
  fun inside => outside (inside.trans (prefix_append _ _))

variable (space : Table 4 k root tree)
include space

theorem Table.mapLoop_enough (heap : Heap k) (number : a.toNat / PGSIZE = page) (user : page < 2 ^ 35)
    (vacant : tree (pagePath page) = none) (allocatable : k.Allocatable mem) (unowned : ¬Owned k tree mem)
    {perm : BitVec 64} (small : (perm ||| PTE_P).toNat < PGSIZE)
    (enough : missing tree [] (tablePath page) ≤ k.freelist.length) :
    ∃ after larger table, mapLoop root perm 1 a (BitVec.ofNat 64 (mem * PGSIZE)) k = .ok (0, after) ∧
      Mapped k root tree page mem (perm ||| PTE_P) after larger table := by
  obtain ⟨walked, tables, ran, result, same, short⟩ := space.walkpgdir_true heap number user
  have inside : page % 512 < 512 := mod_lt page (by decide)
  have deep : (tablePath page).length < 4 := show 3 < 4 by decide
  have flags : BitVec.ofNat 64 (mem * PGSIZE) ||| perm ||| PTE_P = pteOf mem (perm ||| PTE_P) :=
    BitVec.or_assoc _ _ _
  have leaf : ¬pagePath page <+: tablePath page := fun inner => absurd inner.length_le (show ¬4 ≤ 3 by decide)
  cases above : tables (tablePath page) with
  | none => exact absurd (short.mp above) (by omega)
  | some table =>
    have empty : tables (tablePath page ++ [page % 512]) = none := (same _ leaf).trans vacant
    obtain ⟨contents, apart⟩ := result.grows.outside mem not_mem_nil allocatable unowned
    have fresh : walked.Allocatable mem := (result.grows.allocatable mem).mpr allocatable
    have entry : ∀ node other,
        slot 64 ((walked.setEntry table (page % 512) (pteOf mem (perm ||| PTE_P))).memory node) other = _ :=
      slot_setEntry inside _
    have widened : Grows [mem] k tree walked tables :=
      {result.grows with toEvolves := result.grows.toEvolves.weaken}
    refine ⟨walked.setEntry table (page % 512) (pteOf mem (perm ||| PTE_P)),
      update tables (tablePath page ++ [page % 512]) (some mem), table, ?_, ?_⟩
    · have absent := result.space.entry_absent above deep inside empty
      have mapped := (result.space.frames above).1.directMapped
      rw [mapLoop, ran, ok_bind, above]
      simp only [map_some]
      rw [loadEntry_ok mapped, ok_bind, if_neg absent, flags, storeEntry_ok mapped, ok_bind]
      rfl
    · have above' : update tables (pagePath page) (some mem) (tablePath page) = some table := by
        rw [update_of_ne (by simp [pagePath, tablePath]), above]
      have leaf' : update tables (pagePath page) (some mem) (pagePath page) = some mem :=
        update_self _ _ _
      refine ⟨result.heap.setPage _ _, ?_, ?_, result.freelist, result.grown, result.loaded, above', ?_, leaf', ?_,
        ?_, ?_, ?_⟩
      · exact result.space.link above deep inside empty fresh apart (fun low => absurd low (by simp [tablePath]))
          small (or_present perm)
      · exact widened.trans (.link result.space above inside empty apart
          (fun low => absurd low (by simp [tablePath])) _)
      · rw [entry, if_pos ⟨rfl, rfl⟩]
      · intro place outside
        rw [update_of_ne, same place (not_prefix_table outside)]
        rintro rfl
        exact outside (prefix_refl _)
      · intro frame
        exact (owned_link empty _ _ _ mem frame).trans (or_congr_right (result.owned frame))
      · intro frame outside
        have elsewhere : frame ≠ table := by
          rintro rfl
          exact outside ((result.owned frame).mp (.inr ⟨_, above⟩))
        exact (setPage_memory_ne elsewhere _).trans (result.foreign outside)
      · intro other below
        have ne : mem ≠ table := by
          rintro rfl
          exact apart (.inr ⟨_, above⟩)
        split
        · rename_i same
          rw [same]
          refine (pageView_some above' leaf').trans ?_
          rw [entry, if_pos ⟨rfl, rfl⟩]
          exact congrArg (fun page => some (_, page)) ((setPage_memory_ne ne _).trans contents)
        · rename_i elsewhere
          rw [← result.view space same other]
          apply result.space.view_other above user below elsewhere
          · exact fun node outside _ => setPage_memory_ne outside _
          · exact fun index differs => (entry table index).trans (if_neg fun both => differs both.2)

/-- A mapped page cannot be mapped again. -/
theorem Table.mapLoop_remap (heap : Heap k) (number : a.toNat / PGSIZE = page) (user : page < 2 ^ 35)
    (present : tree (pagePath page) ≠ none) (pa perm : BitVec 64) :
    mapLoop root perm 1 a pa k = .error (.panic .remap) := by
  obtain ⟨walked, tables, ran, result, same, _⟩ := space.walkpgdir_true heap number user
  obtain ⟨frame, found⟩ := ne_none_iff_exists'.mp present
  obtain ⟨table, above, link⟩ := result.space.present (result.grows.keeps found)
  have directMapped := (result.space.frames above).1.directMapped
  rw [child] at link
  split at link
  · rename_i valid
    rw [mapLoop, ran, ok_bind, above]
    simp only [map_some]
    rw [loadEntry_ok directMapped, ok_bind, if_pos valid]
  · cases link

/-- Without enough free pages the mapping fails and the tree has no new leaf. -/
theorem Table.mapLoop_short (heap : Heap k) (number : a.toNat / PGSIZE = page) (user : page < 2 ^ 35)
    (pa perm : BitVec 64) (few : k.freelist.length < missing tree [] (tablePath page)) :
    ∃ after larger, mapLoop root perm 1 a pa k = .ok (-1, after) ∧
      Walked 4 k root tree after larger (missing tree [] (tablePath page)) ∧
      ∀ other, pageView after larger other = pageView k tree other := by
  obtain ⟨after, larger, ran, result, same, short⟩ := space.walkpgdir_true heap number user
  refine ⟨after, larger, ?_, result, result.view space same⟩
  rw [mapLoop, ran, ok_bind, short.mpr few]
  rfl

end Map
section Record
variable {root depth : Nat} {spare : List Nat} {kernel k after : Kernel} {tree larger : List Nat → Option Nat}

/-- The records of mapped and loaded pages are no part of the machine. -/
def Kernel.record (kernel : Kernel) (grown loaded : List Nat) : Kernel := {kernel with grown, loaded}

theorem Heap.record (heap : Heap k) (grown loaded : List Nat) : Heap (k.record grown loaded) :=
  ⟨heap.start, heap.distinct, heap.free⟩

theorem Table.record (space : Table depth k root tree) (grown loaded : List Nat) :
    Table depth (k.record grown loaded) root tree :=
  ⟨space.lower, space.upper, space.radix, space.frames⟩

theorem Grows.record (grows : Grows spare k tree after larger) (grown loaded : List Nat) :
    Grows spare k tree (after.record grown loaded) larger :=
  ⟨⟨grows.kend, grows.kpdpt, grows.outside⟩, grows.keeps, grows.stable, grows.blank⟩

end Record

/-- The page table under construction maps exactly the pages from 1 to the top. The closed pages have no user
access. -/
structure Image (kernel : Kernel) (root : Nat) (tree : List Nat → Option Nat) (top : Nat) (closed : List Nat) :
    Prop where
  heap : Heap kernel
  space : Table 4 kernel root tree
  blank : Blank kernel tree
  first : 1 ≤ top
  room : top + kernel.freelist.length ≤ 0xE001
  mapped : ∀ {path}, path ≠ [] → (tree path ≠ none ↔ ∃ page, 1 ≤ page ∧ page < top ∧ path <+: pagePath page)
  grown : ∀ {path frame}, tree path = some frame → path.length = 4 → frame ∈ kernel.grown
  flags : ∀ {page table}, 1 ≤ page → page < top → tree (tablePath page) = some table →
    (slot 64 (kernel.memory table) (page % 512) &&& PTE_U = 0 ↔ page ∈ closed)
  upper : ∀ {index}, 256 < index → index < 512 → slot 64 (kernel.memory root) index = 0

/-- The page table maps exactly the pages from 1 to the top, whatever their entries are. -/
structure Span (kernel : Kernel) (root : Nat) (tree : List Nat → Option Nat) (top : Nat) : Prop where
  heap : Heap kernel
  space : Table 4 kernel root tree
  first : 1 ≤ top
  room : top + kernel.freelist.length ≤ 0xE001
  mapped : ∀ {path}, path ≠ [] → (tree path ≠ none ↔ ∃ page, 1 ≤ page ∧ page < top ∧ path <+: pagePath page)

theorem Image.span {k : Kernel} {root top : Nat} {tree : List Nat → Option Nat} {closed : List Nat}
    (image : Image k root tree top closed) : Span k root tree top :=
  ⟨image.heap, image.space, image.first, image.room, image.mapped⟩

/-- A new table is needed for the first page and at every multiple of the size of the table. -/
def newTable (page level : Nat) : Nat := if page = 1 ∨ page % 512 ^ level = 0 then 1 else 0

/-- The number of free pages that the mapping of one more page takes. -/
def pageCost (page : Nat) : Nat := 1 + (newTable page 3 + newTable page 2 + newTable page 1)

def growCost : Nat → Nat → Nat
  | _, 0 => 0
  | page, pages + 1 => pageCost page + growCost (page + 1) pages

theorem top_prefix_iff (one : page < 2 ^ 35) (two : other < 2 ^ 35) :
    [page / 512 ^ 3 % 512] <+: pagePath other ↔ page / 512 ^ 3 = other / 512 ^ 3 := by
  simp only [pagePath, cons_prefix_cons, nil_prefix, and_true]
  omega

theorem middle_prefix_iff (one : page < 2 ^ 35) (two : other < 2 ^ 35) :
    [page / 512 ^ 3 % 512, page / 512 ^ 2 % 512] <+: pagePath other ↔ page / 512 ^ 2 = other / 512 ^ 2 := by
  simp only [pagePath, cons_prefix_cons, nil_prefix, and_true]
  omega

theorem tablePath_prefix_iff (one : page < 2 ^ 35) (two : other < 2 ^ 35) :
    tablePath page <+: pagePath other ↔ page / 512 = other / 512 := by
  simp only [pagePath, tablePath, cons_prefix_cons, nil_prefix, and_true]
  omega

theorem pagePath_prefix_iff (one : page < 2 ^ 35) (two : other < 2 ^ 35) :
    pagePath page <+: pagePath other ↔ page = other := by
  simp only [pagePath, cons_prefix_cons, nil_prefix, and_true]
  omega

section Image
variable {root top page : Nat} {kernel k : Kernel} {tree : List Nat → Option Nat} {closed : List Nat} {mem pages : Nat}
  {middle full : Kernel} {tables : List Nat → Option Nat} {spare : Option Nat} {oldsz newsz : BitVec 64}

section
variable (span : Span k root tree top)
include span

theorem Span.top_le : top ≤ 0xE001 :=
  (le_add_right _ _).trans span.room

/-- The table above the next page is missing exactly when no smaller page shares it. -/
theorem Span.vacant_iff (level : Nat) {path : List Nat} (nonroot : path ≠ [])
    (shared : ∀ {other}, other < 2 ^ 35 → (path <+: pagePath other ↔ top / 512 ^ level = other / 512 ^ level)) :
    tree path = none ↔ top = 1 ∨ top % 512 ^ level = 0 := by
  have bound := span.top_le
  have first := span.first
  refine not_iff_not.mp ((span.mapped nonroot).trans ?_)
  constructor
  · rintro ⟨other, one, below, inside⟩ (same | divides)
    · omega
    · have equal := (shared (by omega)).mp inside
      have quotient := div_mul_le_self other (512 ^ level)
      have whole : top / 512 ^ level * 512 ^ level = top := Nat.div_mul_cancel (Nat.dvd_of_mod_eq_zero divides)
      rw [← equal, whole] at quotient
      omega
  · intro outside
    rw [not_or] at outside
    refine ⟨top - 1, by omega, by omega, (shared (by omega)).mpr ?_⟩
    have step := succ_div_of_not_dvd (a := top - 1) (b := 512 ^ level) (by
      rw [Nat.sub_add_cancel first]
      exact fun divides => outside.2 (mod_eq_zero_of_dvd divides))
    rwa [Nat.sub_add_cancel first] at step

theorem Span.missing_eq : 1 + missing tree [] (tablePath top) = pageCost top := by
  have bound := span.top_le
  have three : tree [top / 512 ^ 3 % 512] = none ↔ _ := span.vacant_iff 3 (by simp) (top_prefix_iff (by omega))
  have two : tree [top / 512 ^ 3 % 512, top / 512 ^ 2 % 512] = none ↔ _ :=
    span.vacant_iff 2 (by simp) (middle_prefix_iff (by omega))
  have one : tree (tablePath top) = none ↔ _ := span.vacant_iff 1 (by simp [tablePath]) fun {other} bounded => by
    rw [pow_one]
    exact tablePath_prefix_iff (by omega) bounded
  simp only [missing, tablePath, pageCost, newTable, nil_append, cons_append] at *
  simp only [three, two, one]
  omega

theorem Span.found (one : 1 ≤ page) (below : page < top) :
    ∃ table frame, tree (tablePath page) = some table ∧ tree (pagePath page) = some frame := by
  have leaf : tree (pagePath page) ≠ none :=
    (span.mapped (by simp [pagePath])).mpr ⟨page, one, below, prefix_refl _⟩
  have above : tree (tablePath page) ≠ none := span.space.radix.ancestor [page % 512] leaf
  obtain ⟨frame, found⟩ := ne_none_iff_exists'.mp leaf
  obtain ⟨table, here⟩ := ne_none_iff_exists'.mp above
  exact ⟨table, frame, here, found⟩

/-- Exactly the pages from 1 to the top are mapped. -/
theorem Span.leaf_iff (user : page < 2 ^ 35) : tree (pagePath page) ≠ none ↔ 1 ≤ page ∧ page < top := by
  have bound := span.top_le
  refine (span.mapped (by simp [pagePath])).trans ⟨?_, fun both => ⟨page, both.1, both.2, prefix_refl _⟩⟩
  rintro ⟨other, low, high, inside⟩
  rw [(pagePath_prefix_iff user (by omega)).mp inside]
  exact ⟨low, high⟩

theorem Span.unmapped (outside : page = 0 ∨ top ≤ page) (user : page < 2 ^ 35) : tree (pagePath page) = none := by
  by_contra present
  have inside := (span.leaf_iff user).mp present
  omega

end

/-- One more page is mapped. -/
theorem Span.extend {filled : Kernel} (span : Span k root tree page) (less : filled.freelist.length < k.freelist.length)
    (mapped : Mapped filled root tree page mem flags after larger table) : Span after root larger (page + 1) := by
  have bound := span.top_le
  refine ⟨mapped.heap, mapped.space, by omega, ?_, ?_⟩
  · have length := mapped.length
    have room := span.room
    omega
  · intro path nonroot
    by_cases inside : path <+: pagePath page
    · refine iff_of_true ?_ ⟨page, span.first, by omega, inside⟩
      obtain ⟨suffix, whole⟩ := inside
      refine mapped.space.radix.ancestor suffix ?_
      rw [whole, mapped.leaf]
      exact some_ne_none mem
    · rw [mapped.others path inside, span.mapped nonroot]
      refine exists_congr fun other => and_congr_right fun _ => ?_
      constructor
      · rintro ⟨below, covered⟩
        exact ⟨by omega, covered⟩
      · rintro ⟨below, covered⟩
        have ne : other ≠ page := by
          rintro rfl
          exact inside covered
        exact ⟨by omega, covered⟩

/-- The entries of the mapped pages do not change while the table grows. -/
theorem Image.entry_stable (image : Image k root tree top closed) (grows : Grows [] k tree after larger)
    (one : 1 ≤ page) (below : page < top) (here : larger (tablePath page) = some table) :
    tree (tablePath page) = some table ∧
      slot 64 (after.memory table) (page % 512) = slot 64 (k.memory table) (page % 512) := by
  obtain ⟨old, frame, above, found⟩ := image.span.found one below
  have same : old = table := some.inj ((grows.keeps above).symm.trans here)
  rw [same] at above
  refine ⟨above, grows.stable above (show 3 < 4 by decide) (mod_lt page (by decide)) ?_⟩
  exact (grows.keeps found).trans found.symm

/-- Cleared pages are mapped at the given page numbers. -/
structure Grown (kernel : Kernel) (root : Nat) (tree : List Nat → Option Nat) (after : Kernel)
    (larger : List Nat → Option Nat) (page pages : Nat) : Prop where
  heap : Heap after
  space : Table 4 after root larger
  grows : Grows [] kernel tree after larger
  records : Records kernel after
  owned : ∀ frame, Owned after larger frame ↔ Owned kernel tree frame
  foreign : ∀ frame, ¬Owned kernel tree frame → after.memory frame = kernel.memory frame
  span : Span kernel root tree page → Span after root larger (page + pages) ∧
    after.freelist.length + growCost page pages = kernel.freelist.length
  view : ∀ other < 2 ^ 35, ¬(page ≤ other ∧ other < page + pages) →
    pageView after larger other = pageView kernel tree other
  fresh : ∀ other, page ≤ other → other < page + pages → ∃ frame ∈ after.grown,
    larger (pagePath other) = some frame ∧ pageView after larger other = some (pteOf frame userFlags, 0)

theorem Grown.refl (heap : Heap k) (space : Table 4 k root tree) (page : Nat) : Grown k root tree k tree page 0 where
  heap := heap
  space := space
  grows := .refl k tree
  records := .of_eq rfl rfl rfl
  owned _ := .rfl
  foreign _ _ := rfl
  span span := ⟨span, rfl⟩
  view _ _ _ := rfl
  fresh other low high := absurd high (by omega)

theorem Grown.trans {largest : List Nat → Option Nat} (early : Grown k root tree middle larger page 1)
    (bound : page + 1 + pages ≤ 2 ^ 35) (late : Grown middle root larger after largest (page + 1) pages) :
    Grown k root tree after largest page (pages + 1) where
  heap := late.heap
  space := late.space
  grows := early.grows.trans late.grows
  records := early.records.trans late.records
  owned frame := (late.owned frame).trans (early.owned frame)
  foreign frame unowned := (late.foreign frame fun mine => unowned ((early.owned frame).mp mine)).trans
    (early.foreign frame unowned)
  span span := by
    obtain ⟨next, first⟩ := early.span span
    obtain ⟨last, rest⟩ := late.span next
    rw [add_comm pages 1, ← add_assoc, add_comm 1 pages]
    rw [growCost, growCost] at first
    rw [growCost]
    exact ⟨last, by omega⟩
  view other user outside := (late.view other user (by omega)).trans (early.view other user (by omega))
  fresh other low high := by
    by_cases first : other = page
    · obtain ⟨frame, member, leaf, view⟩ := early.fresh other low (by omega)
      exact ⟨frame, late.records.older member, late.grows.keeps leaf,
        (late.view other (by omega) (by omega)).trans view⟩
    · exact late.fresh other (by omega) (by omega)

/-- A page that is taken from the free list is in no view. -/
theorem Table.view_take (space : Table 4 k root tree) (free : k.freelist = mem :: rest) (other : Nat) :
    pageView (k.takePage mem rest) tree other = pageView k tree other := by
  apply space.view_same
  intro place node found
  apply setPage_memory_ne
  rintro rfl
  exact (space.frames found).2 (free ▸ (.head _))

/-- One more page of the user is mapped. -/
theorem Table.grown_one (space : Table 4 k root tree) (heap : Heap k) (free : k.freelist = mem :: rest)
    (user : page < 2 ^ 35) (enough : missing tree [] (tablePath page) ≤ rest.length)
    (mapped : Mapped (k.takePage mem rest) root tree page mem userFlags after larger table) :
    Grown k root tree (after.record (mem :: after.grown) after.loaded) larger page 1 := by
  have taken := space.take heap free
  have grows : Grows [] k tree after larger := taken.grows.absorb taken.owned mapped.grows
  have less : (k.takePage mem rest).freelist.length < k.freelist.length := by
    rw [free]
    exact lt_succ_self _
  refine ⟨mapped.heap.record _ _, mapped.space.record _ _, grows.record _ _, mapped.records taken.allocatable, ?_, ?_,
    ?_, ?_, ?_⟩
  · exact fun frame => (mapped.owned frame).trans (owned_take free rfl frame).symm
  · intro frame unowned
    have outside : ¬Owned (k.takePage mem rest) tree frame := fun mine =>
      unowned ((owned_take free rfl frame).mpr (.inr mine))
    refine (mapped.foreign frame outside).trans (setPage_memory_ne ?_ 0)
    rintro rfl
    exact unowned taken.owned
  · intro span
    have extended := span.extend less mapped
    have need := span.missing_eq
    have length : after.freelist.length = rest.length - missing tree [] (tablePath page) := mapped.length
    refine ⟨⟨extended.heap.record _ _, extended.space.record _ _, extended.first, extended.room, extended.mapped⟩, ?_⟩
    rw [growCost, growCost, free, length_cons]
    change after.freelist.length + _ = _
    omega
  · intro other below outside
    refine (mapped.view other below).trans ?_
    rw [if_neg (by omega), space.view_take free]
  · intro other low high
    obtain rfl : other = page := by omega
    refine ⟨mem, .head _, mapped.leaf, (mapped.view other user).trans ?_⟩
    rw [if_pos rfl, taken.cleared]

/-- The free list ran out, perhaps while a page was not mapped yet. The new pages are about to be taken back. -/
structure Stalled (kernel : Kernel) (root : Nat) (tree : List Nat → Option Nat) (full : Kernel)
    (tables : List Nat → Option Nat) (spare : Option Nat) (page pages : Nat) : Prop where
  heap : Heap full
  space : Table 4 full root tables
  evolves : Evolves [] kernel tree full tables
  records : Records kernel full
  owned : ∀ frame, Owned kernel tree frame ↔ spare = some frame ∨ Owned full tables frame
  pending : ∀ mem, spare = some mem → full.Allocatable mem ∧ ¬Owned full tables mem
  foreign : ∀ frame, ¬Owned kernel tree frame → full.memory frame = kernel.memory frame
  upper : ∀ {index}, 256 ≤ index → index < 512 →
    slot 64 (full.memory root) index = slot 64 (kernel.memory root) index
  view : ∀ other < 2 ^ 35, ¬(page ≤ other ∧ other < page + pages) →
    pageView full tables other = pageView kernel tree other

/-- No page is left for the tables of the page that was taken. -/
theorem Walked.stalled {used : Nat} (walked : Walked 4 (k.takePage mem rest) root tree full tables used)
    (space : Table 4 k root tree) (heap : Heap k) (free : k.freelist = mem :: rest)
    (view : ∀ other, pageView full tables other = pageView (k.takePage mem rest) tree other) (pages : Nat) :
    Stalled k root tree full tables (some mem) page pages := by
  have taken := space.take heap free
  have grows := taken.grows.trans walked.grows
  have owned : ∀ frame, Owned k tree frame ↔ frame = mem ∨ Owned (k.takePage mem rest) tree frame :=
    owned_take free rfl
  refine ⟨walked.heap, walked.space, grows.toEvolves, .of_eq grows.kend walked.grown walked.loaded, ?_, ?_, ?_,
    grows.upper space walked.space, fun other _ _ => (view other).trans (space.view_take free other)⟩
  · intro frame
    rw [owned, walked.owned, some_inj, eq_comm]
  · rintro _ ⟨⟩
    obtain ⟨_, apart⟩ := walked.grows.outside mem not_mem_nil taken.allocatable taken.unowned
    exact ⟨(walked.grows.allocatable mem).mpr taken.allocatable, apart⟩
  · intro frame unowned
    refine (walked.foreign fun mine => unowned ((owned frame).mpr (.inr mine))).trans (setPage_memory_ne ?_ 0)
    rintro rfl
    exact unowned taken.owned

theorem Grown.stalled (grown : Grown k root tree middle larger page 1) (space : Table 4 k root tree)
    (stalled : Stalled middle root larger full tables spare (page + 1) pages) :
    Stalled k root tree full tables spare page (pages + 1) where
  heap := stalled.heap
  space := stalled.space
  evolves := grown.grows.toEvolves.trans stalled.evolves
  records := grown.records.trans stalled.records
  owned frame := (grown.owned frame).symm.trans (stalled.owned frame)
  pending := stalled.pending
  foreign frame unowned := (stalled.foreign frame fun mine => unowned ((grown.owned frame).mp mine)).trans
    (grown.foreign frame unowned)
  upper high bounded := (stalled.upper high bounded).trans (grown.grows.upper space grown.space high bounded)
  view other user outside := (stalled.view other user (by omega)).trans (grown.view other user (by omega))

/-- The page that could not be mapped is freed. -/
def Kernel.giveUp : Option Nat → BitVec 64 × Kernel → Except VmHalt (BitVec 64 × Kernel)
  | none, shrunk => .ok (0, shrunk.2)
  | some mem, shrunk => do
      let freed ← shrunk.2.kfree mem
      .ok (0, freed)

theorem giveUp_zero {shrunk : BitVec 64 × Kernel} {size : BitVec 64}
    (ran : giveUp spare shrunk = .ok (size, after)) : size = 0 := by
  cases spare with
  | none =>
    cases ran
    rfl
  | some mem =>
    rw [giveUp] at ran
    cases freed : shrunk.2.kfree mem with
    | error halt =>
      rw [freed] at ran
      cases ran
    | ok after =>
      rw [freed] at ran
      cases ran
      rfl

/-- The loop of `allocuvm` maps all pages, takes them back when the free list runs out, or panics at a mapped page. -/
theorem Table.allocLoop_outcome (pages : Nat) {a : BitVec 64} (oldsz newsz : BitVec 64) (space : Table 4 k root tree)
    (heap : Heap k) (address : a.toNat = page * PGSIZE) (bound : page + min pages k.freelist.length ≤ 2 ^ 35) :
    (page + pages ≤ 2 ^ 35 ∧ ∃ after larger, allocLoop root oldsz newsz pages a k = .ok (newsz, after) ∧
        Grown k root tree after larger page pages) ∨
      (∃ full tables spare, Stalled k root tree full tables spare page pages ∧
        (Span k root tree page → k.freelist.length < growCost page pages) ∧
        allocLoop root oldsz newsz pages a k = full.deallocuvm root newsz oldsz >>= giveUp spare) ∨
      ∃ halt other, allocLoop root oldsz newsz pages a k = .error halt ∧ page ≤ other ∧ other < 2 ^ 35 ∧
        tree (pagePath other) ≠ none := by
  induction pages generalizing page a k tree with
  | zero => exact .inl ⟨by omega, k, tree, rfl, .refl heap space page⟩
  | succ pages ih =>
    cases free : k.freelist with
    | nil =>
      refine .inr (.inl ⟨k, tree, none, ⟨heap, space, (Grows.refl k tree).toEvolves, .of_eq rfl rfl rfl,
        fun _ => by simp, nofun, fun _ _ => rfl, fun _ _ => rfl, fun _ _ _ => rfl⟩, fun _ => ?_, ?_⟩)
      · rw [length_nil, growCost, pageCost]
        omega
      · rw [allocLoop, kalloc, free]
        rfl
    | cons mem rest =>
      have taken := space.take heap free
      rw [free, length_cons] at bound
      rw [allocLoop, kalloc, free]
      dsimp only
      rw [mappages_page address (by omega)]
      by_cases vacant : tree (pagePath page) = none
      · by_cases enough : missing tree [] (tablePath page) ≤ rest.length
        · obtain ⟨middle, larger, table, ran, mapped⟩ := taken.space.mapLoop_enough taken.heap
            (page_number address) (by omega) vacant taken.allocatable taken.unowned userFlags_small enough
          have grown := space.grown_one heap free (by omega) enough mapped
          have length : middle.freelist.length = rest.length - missing tree [] (tablePath page) := mapped.length
          have left : page + 1 + min pages middle.freelist.length ≤ 2 ^ 35 := by omega
          rcases ih grown.space grown.heap (page_succ address (by omega)) left with
            ⟨below, after, largest, final, rest⟩ | ⟨full, tables, spare, stalled, scarce, final⟩ |
            ⟨halt, other, final, low, high, present⟩
          · exact .inl ⟨by omega, after, largest, (congrArg (· >>= _) ran).trans final, grown.trans below rest⟩
          · refine .inr (.inl ⟨full, tables, spare, grown.stalled space stalled, fun span => ?_,
              (congrArg (· >>= _) ran).trans final⟩)
            obtain ⟨next, cost⟩ := grown.span span
            have few := scarce next
            rw [growCost, growCost] at cost
            rw [growCost, ← free]
            omega
          · refine .inr (.inr ⟨halt, other, (congrArg (· >>= _) ran).trans final, by omega, high, ?_⟩)
            rwa [mapped.others] at present
            intro inside
            have same := pagePath_inj high (show page < 2 ^ 35 by omega) (inside.eq_of_length rfl)
            omega
        · obtain ⟨middle, larger, ran, walked, view⟩ := taken.space.mapLoop_short taken.heap (page_number address)
            (by omega) (BitVec.ofNat 64 (mem * PGSIZE)) (PTE_W ||| PTE_U) (Nat.lt_of_not_le enough)
          refine .inr (.inl ⟨middle, larger, some mem, walked.stalled space heap free view _, fun span => ?_,
            congrArg (· >>= _) ran⟩)
          have need := span.missing_eq
          rw [length_cons, growCost]
          omega
      · have ran := taken.space.mapLoop_remap taken.heap (page_number address) (by omega) vacant
          (BitVec.ofNat 64 (mem * PGSIZE)) (PTE_W ||| PTE_U)
        exact .inr (.inr ⟨.panic .remap, page, congrArg (· >>= _) ran, le_refl page, by omega, vacant⟩)

/-- Below the kernel half the new pages are taken back. -/
theorem Stalled.undo (stalled : Stalled k root tree full tables spare (topPage oldsz) (topPage newsz - topPage oldsz))
    (user : newsz.toNat ≤ 2 ^ 47) :
    ∃ after smaller, full.deallocuvm root newsz oldsz >>= giveUp spare = .ok (0, after) ∧
      Shrunk k root tree after smaller ∧ ∀ other < 2 ^ 35, pageView after smaller other =
        if topPage oldsz ≤ other ∧ other < topPage newsz then none else pageView k tree other := by
  obtain ⟨shrunk, smaller, ran, result, view⟩ := stalled.space.deallocuvm_shrunk stalled.heap user oldsz
  have evolves := stalled.evolves.trans result.evolves
  have upper : ∀ {index}, 256 ≤ index → index < 512 → slot 64 (shrunk.memory root) index = _ := fun high bounded =>
    (result.upper high bounded).trans (stalled.upper high bounded)
  have views : ∀ other < 2 ^ 35, pageView shrunk smaller other =
      if topPage oldsz ≤ other ∧ other < topPage newsz then none else pageView k tree other := by
    intro other below
    rw [view other below]
    split
    · rfl
    · exact stalled.view other below (by omega)
  rw [ran, ok_bind]
  cases spare with
  | none =>
    have owned : ∀ frame, Owned full tables frame ↔ Owned k tree frame := fun frame => by
      rw [stalled.owned frame]
      simp
    refine ⟨shrunk, smaller, rfl, ⟨result.heap, result.space, evolves, stalled.records.trans result.records, ?_, ?_,
      upper⟩, views⟩
    · exact fun frame => (result.owned frame).trans (owned frame)
    · exact fun frame unowned => (result.foreign frame fun mine => unowned ((owned frame).mp mine)).trans
        (stalled.foreign frame unowned)
  | some mem =>
    obtain ⟨allocatable, unowned⟩ := stalled.pending mem rfl
    have apart : ¬Owned shrunk smaller mem := fun mine => unowned ((result.owned mem).mp mine)
    have mine : Owned k tree mem := (stalled.owned mem).mpr (.inl rfl)
    obtain ⟨after, freed, heap, space, last, records, owned, memory⟩ := result.space.release result.heap
      ((result.evolves.allocatable mem).mpr allocatable) apart
    have kept : ∀ {place node}, smaller place = some node → after.memory node = shrunk.memory node := by
      intro place node found
      apply memory
      rintro rfl
      exact apart (.inr ⟨place, found⟩)
    refine ⟨after, smaller, ?_, ⟨heap, space, evolves.absorb mine last,
      (stalled.records.trans result.records).trans records, ?_, ?_, ?_⟩, ?_⟩
    · rw [giveUp]
      rw [freed, ok_bind]
    · intro frame
      rw [owned, result.owned, stalled.owned, some_inj, eq_comm]
    · intro frame foreign
      have ne : frame ≠ mem := by
        rintro rfl
        exact foreign mine
      rw [memory frame ne, result.foreign frame fun mine => foreign ((stalled.owned frame).mpr (.inr mine)),
        stalled.foreign frame foreign]
    · intro index high bounded
      rw [kept result.space.radix.root]
      exact upper high bounded
    · intro other below
      rw [← views other below]
      exact result.space.view_same kept other

/-- The image grows by the new pages. -/
theorem Image.grown_by (image : Image k root tree page [])
    (grown : Grown k root tree after larger page pages) : Image after root larger (page + pages) [] := by
  obtain ⟨span, _⟩ := grown.span image.span
  have bound := span.top_le
  refine ⟨grown.heap, grown.space, grown.grows.blank image.blank, span.first, span.room, span.mapped, ?_, ?_, ?_⟩
  · intro path frame found length
    obtain ⟨other, low, high, inside⟩ := (span.mapped (by
      rintro rfl
      cases length)).mp (found ▸ some_ne_none frame)
    rw [inside.eq_of_length length] at found
    by_cases new : page ≤ other
    · obtain ⟨mem, member, leaf, _⟩ := grown.fresh other new high
      rwa [some.inj (found.symm.trans leaf)]
    · obtain ⟨_, old, _, leaf⟩ := image.span.found low (by omega)
      rw [some.inj (found.symm.trans (grown.grows.keeps leaf))]
      exact grown.records.older (image.grown leaf rfl)
  · intro other table low high above
    refine iff_of_false ?_ not_mem_nil
    by_cases new : page ≤ other
    · obtain ⟨mem, _, leaf, view⟩ := grown.fresh other new high
      rw [pageView_some above leaf] at view
      have entry : slot 64 (after.memory table) (other % 512) = _ := congrArg Prod.fst (some.inj view)
      rw [entry, pteOf_and (by decide)]
      decide
    · obtain ⟨here, same⟩ := image.entry_stable grown.grows low (by omega) above
      rw [same]
      exact fun zero => not_mem_nil ((image.flags low (by omega) here).mp zero)
  · intro index high bounded
    rw [grown.grows.upper image.space grown.space (by omega) bounded]
    exact image.upper high bounded

theorem topPage_mono (grow : ¬newsz < oldsz) : topPage oldsz ≤ topPage newsz := by
  rw [BitVec.not_lt, BitVec.le_def] at grow
  exact Nat.div_le_div_right (by omega)

/-- The size of an image is rounded up without overflow. -/
theorem Image.rounded {sz : BitVec 64} (image : Image k root tree (topPage sz) closed) :
    (PGROUNDUP sz).toNat = topPage sz * PGSIZE := by
  refine PGROUNDUP_toNat ?_
  have bound := image.span.top_le
  simp only [topPage, PGSIZE] at bound
  omega

theorem Image.allocuvm_eq (image : Image k root tree (topPage oldsz) closed) (below : ¬newsz ≥ KERNBASE)
    (grow : ¬newsz < oldsz) :
    k.allocuvm root oldsz newsz =
      allocLoop root oldsz newsz (topPage newsz - topPage oldsz) (PGROUNDUP oldsz) k := by
  rw [allocuvm, if_neg below, if_neg grow]
  dsimp only
  rw [pagesUpTo_eq image.rounded]

/-- The call `allocuvm` grows the image to the new size when memory suffices. Otherwise it fails, and the table can
still be freed. -/
theorem Image.allocuvm_outcome (image : Image k root tree (topPage oldsz) []) (below : ¬newsz ≥ KERNBASE)
    (grow : ¬newsz < oldsz) (user : newsz.toNat ≤ 2 ^ 47) :
    (growCost (topPage oldsz) (topPage newsz - topPage oldsz) ≤ k.freelist.length ∧
      ∃ after larger, k.allocuvm root oldsz newsz = .ok (newsz, after) ∧ Image after root larger (topPage newsz) [] ∧
        Grown k root tree after larger (topPage oldsz) (topPage newsz - topPage oldsz)) ∨
      k.freelist.length < growCost (topPage oldsz) (topPage newsz - topPage oldsz) ∧
        ∃ after smaller, k.allocuvm root oldsz newsz = .ok (0, after) ∧ Shrunk k root tree after smaller := by
  have room := image.room
  have sum : topPage oldsz + (topPage newsz - topPage oldsz) = topPage newsz := Nat.add_sub_cancel' (topPage_mono grow)
  rw [image.allocuvm_eq below grow]
  rcases image.space.allocLoop_outcome (topPage newsz - topPage oldsz) oldsz newsz image.heap image.rounded (by omega)
    with ⟨_, after, larger, ran, grown⟩ | ⟨full, tables, spare, stalled, scarce, ran⟩ | ⟨_, _, _, low, high, present⟩
  · have cost := (grown.span image.span).2
    exact .inl ⟨by omega, after, larger, ran, sum ▸ image.grown_by grown, grown⟩
  · obtain ⟨after, smaller, final, shrunk, _⟩ := stalled.undo user
    exact .inr ⟨scarce image.span, after, smaller, ran.trans final, shrunk⟩
  · exact absurd (image.span.unmapped (.inr low) high) present

end Image
end Xv6
