import Xv6.Proof.Vm.Access

namespace Xv6
open Library List Nat Option Kernel

section Fill
variable {kernel k : Kernel} {root mem : Nat} {tree : List Nat → Option Nat} {rest : List Nat}

/-- A page taken from the free list is filled before it is mapped. -/
def Kernel.fillPage (kernel : Kernel) (mem : Nat) (rest : List Nat) (page : Page) : Kernel :=
  Kernel.setPage {kernel with freelist := rest} mem page

structure Filled (kernel : Kernel) (root : Nat) (tree : List Nat → Option Nat) (mem : Nat) (filled : Kernel) : Prop where
  heap : Heap filled
  space : Table 4 filled root tree
  evolves : Evolves [] kernel tree filled tree
  allocatable : filled.Allocatable mem
  unowned : ¬Owned filled tree mem
  owned : ∀ frame, Owned kernel tree frame ↔ frame = mem ∨ Owned filled tree frame
  view : ∀ other, pageView filled tree other = pageView kernel tree other

theorem Table.fill (space : Table 4 k root tree) (heap : Heap k) (free : k.freelist = mem :: rest)
    (page : Page) : Filled k root tree mem (k.fillPage mem rest page) := by
  have taken := space.take heap free
  have fresh : ∀ {place}, tree place = some mem → place.length = 4 := fun found =>
    absurd (.inr ⟨_, found⟩) taken.unowned
  have again : k.fillPage mem rest page = (k.takePage mem rest).setPage mem page := by
    simp only [Kernel.fillPage, Kernel.takePage, Kernel.clearPage, Kernel.setPage, Function.update_idem]
  have written : Grows [mem] (k.takePage mem rest) tree _ tree := .setPage fresh (.inl (.head _)) page
  rw [again]
  exact ⟨taken.heap.setPage mem page, taken.space.setPage fresh page,
    taken.grows.toEvolves.absorb taken.owned written.toEvolves, taken.allocatable, taken.unowned, owned_take free rfl,
    fun other => (taken.space.view_same (fun found => setPage_memory_ne (fun same => taken.unowned
      (.inr ⟨_, same ▸ found⟩)) page) other).trans (space.view_take free other)⟩

end Fill

theorem pteFlags_small (pte : BitVec 64) : (pteFlags pte ||| PTE_P).toNat < PGSIZE := by
  have low : (pteFlags pte).toNat < 2 ^ 12 :=
    (BitVec.toNat_and _ _).trans_lt (and_lt_two_pow _ (by decide))
  rw [BitVec.toNat_or]
  exact or_lt_two_pow low (by decide)

/-- The pages of the new table and the free pages are the pages that were free at the beginning. -/
structure Copying (base kernel : Kernel) (d : Nat) (tree : List Nat → Option Nat) (page : Nat) : Prop where
  span : Span kernel d tree page
  evolves : Evolves [] base (fun _ => none) kernel tree
  owned : ∀ frame, Owned kernel tree frame ↔ frame ∈ base.freelist

/-- A copy that fails gives back pages that were free at the beginning, and it changes no other page. -/
structure Undone (base after : Kernel) : Prop where
  heap : Heap after
  kend : after.kend = base.kend
  memory : ∀ frame ∉ base.freelist, base.Allocatable frame → after.memory frame = base.memory frame
  freelist : after.freelist ⊆ base.freelist

section Copy
variable {base k : Kernel} {d pgdir page pages : Nat} {tree theirs : List Nat → Option Nat} {i : BitVec 64}
  {after filled : Kernel} {mem : Nat} {larger : List Nat → Option Nat}

theorem not_owned_none {frame : Nat} (used : frame ∉ base.freelist) : ¬Owned base (fun _ => none) frame := by
  rintro (free | ⟨path, found⟩)
  · exact used free
  · cases found

/-- The label `bad` frees the new table. -/
theorem freevm_undone (heap : Heap k) (space : Table 4 k d tree) (evolves : Evolves [] base (fun _ => none) k tree)
    (owned : ∀ frame, Owned k tree frame → frame ∈ base.freelist) :
    ∃ after, k.freevm d = .ok after ∧ Undone base after ∧ ∀ frame, frame ∈ after.freelist ↔ Owned k tree frame := by
  obtain ⟨after, ran, freed⟩ := space.freevm_freed heap
  refine ⟨after, ran, ⟨freed.heap, freed.kend.trans evolves.kend, ?_, ?_⟩, freed.freelist⟩
  · intro frame used allocatable
    obtain ⟨same, apart⟩ := evolves.outside frame not_mem_nil allocatable (not_owned_none used)
    exact (freed.memory frame fun found => apart (.inr found)).trans same
  · intro frame free
    exact owned frame ((freed.freelist frame).mp free)

/-- One iteration reads the entry of the parent and continues with its page. -/
theorem copyuvmLoop_succ (d pages : Nat) (table : Table 4 k pgdir theirs) (number : i.toNat / PGSIZE = page)
    (user : page < 2 ^ 35) (present : theirs (pagePath page) ≠ none) :
    ∃ pte content, pageView k theirs page = some (pte, content) ∧
      (k.freelist = [] → copyuvmLoop pgdir d (pages + 1) i k = (k.freevm d >>= fun freed => .ok (none, freed))) ∧
      ∀ mem rest, k.freelist = mem :: rest → copyuvmLoop pgdir d (pages + 1) i k =
        ((k.fillPage mem rest content).mappages d i (BitVec.ofNat 64 PGSIZE) (BitVec.ofNat 64 (mem * PGSIZE))
          (pteFlags pte) >>= fun result => if result.1 < 0 then result.2.freevm d >>= fun freed => .ok (none, freed)
            else copyuvmLoop pgdir d pages (i + BitVec.ofNat 64 PGSIZE) result.2) := by
  obtain ⟨frame, found⟩ := ne_none_iff_exists'.mp present
  obtain ⟨above, here, link⟩ := table.present found
  have mapped := (table.frames here).1.directMapped
  rw [child] at link
  split at link
  · rename_i valid
    have source := (table.frames found).1.directMapped
    have same : pteFrame (slot 64 (k.memory above) (page % 512)) = frame := some.inj link
    refine ⟨_, _, pageView_some here found, ?_, ?_⟩
    · intro free
      rw [copyuvmLoop, table.walkpgdir_false number user, ok_bind, here]
      simp only [map_some]
      rw [loadEntry_ok mapped, ok_bind, if_neg valid, kalloc, free]
    · intro mem rest free
      rw [copyuvmLoop, table.walkpgdir_false number user, ok_bind, here]
      simp only [map_some]
      rw [loadEntry_ok mapped, ok_bind, if_neg valid, kalloc, free]
      dsimp only
      rw [readPage, same, if_pos source, ok_bind]
      rfl
  · cases link

/-- The copy panics at a page that is not mapped. -/
theorem copyuvmLoop_absent (d pages : Nat) (table : Table 4 k pgdir theirs) (number : i.toNat / PGSIZE = page)
    (user : page < 2 ^ 35) (absent : theirs (pagePath page) = none) :
    ∃ halt, copyuvmLoop pgdir d (pages + 1) i k = .error halt := by
  rw [copyuvmLoop, table.walkpgdir_false number user, ok_bind]
  cases here : theirs (tablePath page) with
  | none => exact ⟨_, rfl⟩
  | some above =>
    have inside : page % 512 < levelWidth (tablePath page).length := mod_lt page (by decide)
    have missing := table.entry_absent here (show 3 < 4 by decide) inside absent
    simp only [map_some]
    rw [loadEntry_ok (table.frames here).1.directMapped, ok_bind, if_pos (not_not.mp missing)]
    exact ⟨_, rfl⟩

theorem Undone.of_bind {run : Except VmHalt Kernel} (ran : run = .ok after) :
    (run >>= fun freed => .ok ((none : Option Nat), freed)) = .ok (none, after) := by
  rw [ran]
  rfl

section
variable (copying : Copying base k d tree page)
include copying

/-- A page that is taken from the free list was free at the beginning. -/
theorem Copying.evolves_filled (taken : Filled k d tree mem filled)
    (late : Evolves [mem] filled tree after larger) : Evolves [] base (fun _ => none) after larger := by
  have mine : Owned k tree mem := (taken.owned mem).mpr (.inl rfl)
  exact (copying.evolves.trans taken.evolves).absorb (.inl ((copying.owned mem).mp mine)) late

/-- One more page is copied. -/
theorem Copying.extend {table : Nat} {flags : BitVec 64} (taken : Filled k d tree mem filled)
    (less : filled.freelist.length < k.freelist.length)
    (mapped : Mapped filled d tree page mem flags after larger table) : Copying base after d larger (page + 1) where
  span := copying.span.extend less mapped
  evolves := copying.evolves_filled taken mapped.grows.toEvolves
  owned frame := by rw [mapped.owned, ← taken.owned, copying.owned]

/-- The parent keeps its page table during the copy. -/
theorem Copying.parent (table : Table 4 base pgdir theirs) :
    Table 4 k pgdir theirs ∧ ∀ {path frame}, theirs path = some frame →
      k.memory frame = base.memory frame ∧ ¬Owned k tree frame := by
  have apart : ∀ {path frame}, theirs path = some frame → ¬Owned base (fun _ => none) frame := fun found =>
    not_owned_none (table.frames found).2
  exact ⟨(table.other apart copying.evolves).1, fun found =>
    copying.evolves.outside _ not_mem_nil (table.frames found).1 (apart found)⟩

end

/-- A free list that holds one page and its tables suffices for whole pages exactly when the rest does. -/
theorem exact_succ (page pages left : Nat) : (∃ count < pages + 1, pageCost page + left = growCost page count) ↔
      ∃ count < pages, left = growCost (page + 1) count := by
  constructor
  · rintro ⟨_ | count, below, same⟩
    · rw [pageCost, growCost] at same
      omega
    · rw [growCost] at same
      exact ⟨count, by omega, by omega⟩
  · rintro ⟨count, below, rfl⟩
    exact ⟨count + 1, by omega, rfl⟩

/-- A free list that is shorter than the cost of one page suffices for whole pages only when it is empty. -/
theorem not_exact {page left : Nat} (some_free : 0 < left) (few : left < pageCost page) (count : Nat) :
    left ≠ growCost page count := by
  cases count with
  | zero | succ =>
    rw [growCost]
    omega

/-- A page of the child has the contents and the flags of the page of its parent. -/
def Duplicate (parent child : Option (BitVec 64 × Page)) : Prop :=
  ∃ pte content mem, parent = some (pte, content) ∧ child = some (pteOf mem (pteFlags pte ||| PTE_P), content)

/-- The copy succeeds when the free list is long enough, and it fails when it is too short. Then the pages of the new
table are free again exactly when the page that cannot be allocated is a page of the user. -/
theorem Copying.outcome (copying : Copying base k d tree page) (table : Table 4 base pgdir theirs) (pages : Nat)
    (address : i.toNat = page * PGSIZE) (user : page + pages ≤ 2 ^ 35) :
    (growCost page pages ≤ k.freelist.length ∧ ∃ after larger,
      copyuvmLoop pgdir d pages i k = .ok (some d, after) ∧ Copying base after d larger (page + pages) ∧
      (∀ other < page, pageView after larger other = pageView k tree other) ∧
      ∀ other, page ≤ other → other < page + pages → Duplicate (pageView base theirs other) (pageView after larger other)) ∨
    (k.freelist.length < growCost page pages ∧ ∃ after,
      copyuvmLoop pgdir d pages i k = .ok (none, after) ∧ Undone base after ∧
      (base.freelist ⊆ after.freelist ↔ ∃ count < pages, k.freelist.length = growCost page count)) ∨
    ∃ halt other, copyuvmLoop pgdir d pages i k = .error halt ∧ page ≤ other ∧ other < page + pages ∧
      theirs (pagePath other) = none := by
  induction pages generalizing page i k tree with
  | zero => exact .inl ⟨zero_le _, k, tree, rfl, copying, fun _ _ => rfl, fun _ low high => absurd high (by omega)⟩
  | succ pages ih =>
    have bound := copying.span.top_le
    have need := copying.span.missing_eq
    obtain ⟨parent, old⟩ := copying.parent table
    by_cases present : theirs (pagePath page) = none
    · obtain ⟨halt, ran⟩ := copyuvmLoop_absent d pages parent (page_number address) (by omega) present
      exact .inr (.inr ⟨halt, page, ran, le_refl page, by omega, present⟩)
    obtain ⟨pte, content, source, exhausted, continues⟩ := copyuvmLoop_succ d pages parent (page_number address)
      (by omega) present
    rw [table.view_same (fun found => (old found).1)] at source
    cases free : k.freelist with
    | nil =>
      obtain ⟨after, ran, undone, again⟩ := freevm_undone copying.span.heap copying.span.space copying.evolves
        fun frame => (copying.owned frame).mp
      refine .inr (.inl ⟨?_, after, (exhausted free).trans (Undone.of_bind ran), undone, iff_of_true ?_
        ⟨0, by omega, rfl⟩⟩)
      · rw [length_nil, growCost, pageCost]
        omega
      · intro frame listed
        exact (again frame).mpr ((copying.owned frame).mpr listed)
    | cons mem rest =>
      have taken := copying.span.space.fill copying.span.heap free content
      rw [continues mem rest free, mappages_page address (by omega), length_cons]
      by_cases enough : missing tree [] (tablePath page) ≤ rest.length
      · obtain ⟨middle, larger, node, ran, mapped⟩ := taken.space.mapLoop_enough taken.heap (page_number address)
          (by omega) (copying.span.unmapped (.inr (le_refl page)) (by omega)) taken.allocatable taken.unowned (pteFlags_small pte) enough
        have length : middle.freelist.length = rest.length - missing tree [] (tablePath page) := mapped.length
        have less : (k.fillPage mem rest content).freelist.length < k.freelist.length := by
          rw [free]
          exact lt_succ_self _
        have split : rest.length + 1 = pageCost page + middle.freelist.length := by omega
        have sum : page + 1 + pages = page + (pages + 1) := by omega
        rw [ran, ok_bind, split, growCost, exact_succ]
        simp only [add_le_add_iff_left, add_lt_add_iff_left]
        rcases ih (copying.extend taken less mapped) (page_succ address (by omega)) (by omega) with
          ⟨plenty, after, largest, final, done, kept, copied⟩ | failed | ⟨halt, other, final, low, high, absent⟩
        · refine .inl ⟨plenty, after, largest, final, sum ▸ done, ?_, ?_⟩
          · intro other below
            rw [kept other (by omega), mapped.view other (by omega), if_neg (by omega), taken.view]
          · intro other low high
            by_cases same : other = page
            · refine ⟨pte, content, mem, same ▸ source, ?_⟩
              rw [kept other (by omega), mapped.view other (by omega), if_pos same]
              exact congrArg (fun page => some (_, page)) (Function.update_self ..)
            · exact copied other (by omega) (by omega)
        · exact .inr (.inl failed)
        · exact .inr (.inr ⟨halt, other, final, by omega, by omega, absent⟩)
      · obtain ⟨middle, larger, ran, walked, _⟩ := taken.space.mapLoop_short taken.heap (page_number address)
          (by omega) (BitVec.ofNat 64 (mem * PGSIZE)) (pteFlags pte) (Nat.lt_of_not_le enough)
        have evolves := copying.evolves_filled taken walked.grows.toEvolves.weaken
        have few : rest.length + 1 < pageCost page := by omega
        obtain ⟨after, undo, undone, again⟩ := freevm_undone walked.heap walked.space evolves fun frame mine =>
          (copying.owned frame).mp ((taken.owned frame).mpr (.inr ((walked.owned frame).mp mine)))
        refine .inr (.inl ⟨?_, after, ?_, undone, iff_of_false ?_ ?_⟩)
        · rw [growCost]
          omega
        · rw [ran, ok_bind]
          exact Undone.of_bind undo
        · -- the page `mem` is neither mapped nor free
          intro whole
          have listed := whole ((copying.owned mem).mp ((taken.owned mem).mpr (.inl rfl)))
          exact taken.unowned ((walked.owned mem).mp ((again mem).mp listed))
        · rintro ⟨count, _, same⟩
          exact not_exact (succ_pos _) few count same

/-- The number of pages that `copyuvm` copies. -/
def copiedPages (sz : BitVec 32) : Nat := topPage (sz.setWidth 64) - 1

/-- A new top table is the beginning of a copy. -/
theorem setupkvm_copying (heap : Heap base) (some_free : base.freelist ≠ []) :
    ∃ d made, base.setupkvm = .ok (d, made) ∧ Copying base made d (rootTree d) 1 ∧
      base.freelist.length = 1 + made.freelist.length := by
  obtain ⟨d, rest, free⟩ := exists_cons_of_ne_nil some_free
  obtain ⟨made, ran, image, evolves, left, _⟩ := setupkvm_image heap free
  refine ⟨d, made, ran, ⟨image.span, evolves, ?_⟩, ?_⟩
  · intro frame
    rw [Owned, left, free, mem_cons, or_comm]
    refine or_congr_left ⟨?_, ?_⟩
    · rintro ⟨path, found⟩
      exact (rootTree_some found).2
    · rintro rfl
      exact ⟨[], rfl⟩
  · rw [free, left, length_cons, add_comm]

section Copyuvm
variable {sz : BitVec 32}

theorem firstPage_address : (BitVec.ofNat 64 PGSIZE).toNat = 1 * PGSIZE := by decide

theorem copyuvm_eq {made : Kernel} (ran : base.setupkvm = .ok (d, made)) :
    base.copyuvm pgdir sz = copyuvmLoop pgdir d (copiedPages sz) (BitVec.ofNat 64 PGSIZE) made := by
  rw [copyuvm, ran, ok_bind, pagesUpTo_eq firstPage_address]
  rfl

theorem copiedPages_le (sz : BitVec 32) : 1 + copiedPages sz ≤ 2 ^ 35 := by
  have limit := sz.isLt
  simp only [copiedPages, topPage, PGSIZE, BitVec.toNat_setWidth]
  omega

/-- With a free page for the top table, a copy that runs out of memory returns a null pointer. -/
theorem copyuvm_short (heap : Heap base) (table : Table 4 base pgdir theirs)
    (present : ∀ other, 1 ≤ other → other < topPage (sz.setWidth 64) → theirs (pagePath other) ≠ none)
    (some_free : base.freelist ≠ []) (few : base.freelist.length < 1 + growCost 1 (copiedPages sz)) :
    ∃ after, base.copyuvm pgdir sz = .ok (none, after) ∧ Undone base after ∧
      (base.freelist ⊆ after.freelist ↔ ∃ count < copiedPages sz, base.freelist.length = 1 + growCost 1 count) := by
  obtain ⟨d, made, ran, copying, length⟩ := setupkvm_copying heap some_free
  rw [copyuvm_eq ran, length]
  simp only [add_left_cancel_iff]
  rcases copying.outcome table (copiedPages sz) firstPage_address (copiedPages_le sz) with
    ⟨plenty, _⟩ | ⟨_, failed⟩ | ⟨_, other, _, low, high, absent⟩
  · omega
  · exact failed
  · exact absurd absent (present other low (by rw [copiedPages] at high; omega))

/-- With enough free pages the copy maps all pages of the parent. -/
theorem copyuvm_enough (heap : Heap base) (table : Table 4 base pgdir theirs)
    (present : ∀ other, 1 ≤ other → other < topPage (sz.setWidth 64) → theirs (pagePath other) ≠ none)
    (enough : 1 + growCost 1 (copiedPages sz) ≤ base.freelist.length) :
    ∃ d after tree, base.copyuvm pgdir sz = .ok (some d, after) ∧ Copying base after d tree (1 + copiedPages sz) := by
  have some_free : base.freelist ≠ [] := by
    intro empty
    rw [empty, length_nil] at enough
    omega
  obtain ⟨d, made, ran, copying, length⟩ := setupkvm_copying heap some_free
  rcases copying.outcome table (copiedPages sz) firstPage_address (copiedPages_le sz) with
    ⟨_, after, tree, final, done, _⟩ | ⟨few, _⟩ | ⟨_, other, _, low, high, absent⟩
  · exact ⟨d, after, tree, (copyuvm_eq ran).trans final, done⟩
  · omega
  · exact absurd absent (present other low (by rw [copiedPages] at high; omega))

/-- A copy that returns a page table has copied every page. -/
theorem copyuvm_copied (heap : Heap base) (table : Table 4 base pgdir theirs)
    (ran : base.copyuvm pgdir sz = .ok (some d, after)) :
    ∃ tree, Copying base after d tree (1 + copiedPages sz) ∧ ∀ other, 1 ≤ other → other < 1 + copiedPages sz →
      Duplicate (pageView base theirs other) (pageView after tree other) := by
  have some_free : base.freelist ≠ [] := by
    intro empty
    rw [copyuvm, setupkvm_exhausted empty] at ran
    cases ran
  obtain ⟨root, made, setup, copying, _⟩ := setupkvm_copying heap some_free
  rw [copyuvm_eq setup] at ran
  rcases copying.outcome table (copiedPages sz) firstPage_address (copiedPages_le sz) with
    ⟨_, last, tree, final, done, _, copied⟩ | ⟨_, _, final, _⟩ | ⟨_, _, final, _⟩
  · rw [final] at ran
    cases ran
    exact ⟨tree, done, copied⟩
  all_goals
    rw [final] at ran
    cases ran

end Copyuvm
end Copy

/-- A kernel with some free pages and no page table. -/
def blankKernel (free : Nat) : Kernel := ⟨fun _ => 0, List.range' 0x1000 free, 0x200000, 0x500, [], []⟩

end Xv6
