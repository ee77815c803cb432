import Xv6.Proof.Vm.Table

namespace Xv6
open Library Function List Kernel

section Steps
variable {depth root : Nat} {kernel k : Kernel} {tree : List Nat → Option Nat} {path : List Nat} {table index : Nat}
  {frame page : Nat} {larger : List Nat → Option Nat} {indices : List Nat} {va : BitVec 64}

theorem Heap.setPage (heap : Heap k) (frame : Nat) (page : Page) : Heap (k.setPage frame page) :=
  ⟨heap.start, heap.distinct, heap.free⟩

/-- A store into a page that is not a table keeps the tree. -/
theorem Table.setPage (space : Table depth k root tree) (leaf : ∀ {place}, tree place = some frame → place.length = 4)
    (page : Page) : Table depth (k.setPage frame page) root tree where
  lower := space.lower
  upper := space.upper
  radix := by
    refine space.radix.congr fun {place node i} found deep _ => child_congr ?_
    have ne : node ≠ frame := by
      rintro rfl
      have := leaf found
      have := space.upper
      omega
    rw [setPage_memory_ne ne]
  frames := space.frames

theorem Grows.setPage {spare : List Nat} (leaf : ∀ {place}, tree place = some frame → place.length = 4)
    (allowed : frame ∈ spare ∨ Owned k tree frame ∨ ¬k.Allocatable frame) (page : Page) :
    Grows spare k tree (k.setPage frame page) tree := by
  have kept : ∀ {place node}, tree place = some node → place.length < 4 →
      (k.setPage frame page).memory node = k.memory node := by
    intro place node found deep
    have ne : node ≠ frame := by
      rintro rfl
      have := leaf found
      omega
    exact setPage_memory_ne ne page
  refine ⟨⟨rfl, rfl, ?_⟩, fun found => found, ?_, ?_⟩
  · intro other foreign allocatable unowned
    have ne : other ≠ frame := by
      rintro rfl
      tauto
    exact ⟨setPage_memory_ne ne page, unowned⟩
  · intro place node i found deep _ _
    rw [kept found deep]
  · intro clear place node i found deep inside vacant
    rw [kept found deep]
    exact clear found deep inside vacant

/-- The entry of a vacant place is linked to a page outside the tree. -/
theorem Table.link (space : Table depth k root tree) (here : tree path = some table) (deep : path.length < depth)
    (inside : index < levelWidth path.length) (vacant : tree (path ++ [index]) = none) {flags : BitVec 64}
    (allocatable : k.Allocatable page) (unowned : ¬Owned k tree page)
    (cleared : path.length + 1 < 4 → k.memory page = 0) (small : flags.toNat < PGSIZE) (present : flags &&& PTE_P ≠ 0) :
    Table depth (k.setEntry table index (pteOf page flags)) root (update tree (path ++ [index]) (some page)) := by
  have bounded : index < 512 := inside.trans_le (levelWidth_le _)
  have fresh : ∀ place, tree place ≠ some page := fun place found => unowned (.inr ⟨place, found⟩)
  have ne : page ≠ table := by
    rintro rfl
    exact fresh path here
  have entry : ∀ node other, slot 64 ((k.setEntry table index (pteOf page flags)).memory node) other = _ :=
    slot_setEntry bounded (pteOf page flags)
  refine ⟨space.lower, space.upper, space.radix.grow here deep inside vacant fresh ?_ ?_ ?_, ?_⟩
  · refine child_of_entry allocatable.lt small present ?_
    rw [entry, if_pos ⟨rfl, rfl⟩]
  · intro below i
    have := space.upper
    refine child_of_zero ?_
    rw [entry, if_neg fun both => ne both.1, cleared (by omega)]
    exact slot_zero 64 i
  · intro place node i _ _ _ elsewhere
    refine child_congr ?_
    rw [entry, if_neg (by tauto)]
  · intro place frame found
    rw [update_apply] at found
    split at found
    · cases found
      exact ⟨allocatable, fun free => unowned (.inl free)⟩
    · exact space.frames found

theorem Grows.link (space : Table depth k root tree) (here : tree path = some table)
    (inside : index < levelWidth path.length) (vacant : tree (path ++ [index]) = none)
    (unowned : ¬Owned k tree page) (cleared : path.length + 1 < 4 → k.memory page = 0) (pte : BitVec 64) :
    Grows [page] k tree (k.setEntry table index pte) (update tree (path ++ [index]) (some page)) := by
  have bounded : index < 512 := inside.trans_le (levelWidth_le _)
  have entry : ∀ node other, slot 64 ((k.setEntry table index pte).memory node) other = _ :=
    slot_setEntry bounded pte
  have ne : page ≠ table := by
    rintro rfl
    exact unowned (.inr ⟨path, here⟩)
  refine ⟨⟨rfl, rfl, ?_⟩, ?_, ?_, ?_⟩
  · intro frame foreign allocatable apart
    have elsewhere : frame ≠ table := by
      rintro rfl
      exact apart (.inr ⟨path, here⟩)
    refine ⟨setPage_memory_ne elsewhere _, ?_⟩
    rintro (free | ⟨place, found⟩)
    · exact apart (.inl free)
    · rw [update_apply] at found
      split at found
      · exact foreign (mem_singleton.mpr (Option.some.inj found).symm)
      · exact apart (.inr ⟨place, found⟩)
  · intro place frame found
    rw [update_of_ne, found]
    rintro rfl
    rw [vacant] at found
    cases found
  · intro place node i found _ _ same
    rw [entry, if_neg]
    rintro ⟨rfl, rfl⟩
    rw [space.radix.injective found here, update_self, vacant] at same
    cases same
  · intro clear place node i found shallow within empty
    rw [update_apply] at found empty
    split at empty
    · cases empty
    · rename_i elsewhere
      split at found
      · rename_i new
        cases found
        rw [entry, if_neg fun both => ne both.1, cleared (by rw [new] at shallow; simpa using shallow)]
        exact slot_zero 64 i
      · rw [entry, if_neg]
        · exact clear found shallow within empty
        · rintro ⟨rfl, rfl⟩
          exact elsewhere (by rw [space.radix.injective found here])

/-- A page taken from the free list is cleared before it is linked. -/
def Kernel.takePage (kernel : Kernel) (frame : Nat) (rest : List Nat) : Kernel :=
  Kernel.clearPage {kernel with freelist := rest} frame

structure Taken (depth : Nat) (kernel : Kernel) (root : Nat) (tree : List Nat → Option Nat) (frame : Nat)
    (rest : List Nat) : Prop where
  heap : Heap (kernel.takePage frame rest)
  space : Table depth (kernel.takePage frame rest) root tree
  grows : Grows [] kernel tree (kernel.takePage frame rest) tree
  allocatable : (kernel.takePage frame rest).Allocatable frame
  unowned : ¬Owned (kernel.takePage frame rest) tree frame
  cleared : (kernel.takePage frame rest).memory frame = 0
  owned : Owned kernel tree frame

theorem Table.take (space : Table depth k root tree) (heap : Heap k) {rest : List Nat}
    (free : k.freelist = frame :: rest) : Taken depth k root tree frame rest := by
  have listed : frame ∈ k.freelist := by
    rw [free]
    exact .head _
  have fresh : ∀ {place}, tree place = some frame → place.length = 4 := fun found =>
    absurd listed (space.frames found).2
  have absent : frame ∉ rest := by
    have := heap.distinct
    rw [free] at this
    exact (nodup_cons.mp this).1
  have suffix : ∀ {other}, other ∈ rest → other ∈ k.freelist := by
    intro other member
    rw [free]
    exact mem_cons_of_mem frame member
  have shrunk : Table depth {k with freelist := rest} root tree :=
    ⟨space.lower, space.upper, space.radix, fun found =>
      ⟨(space.frames found).1, fun member => (space.frames found).2 (suffix member)⟩⟩
  have shrinks : Grows [] k tree {k with freelist := rest} tree := by
    refine ⟨⟨rfl, rfl, fun other _ _ apart => ⟨rfl, ?_⟩⟩, fun found => found, fun _ _ _ _ => rfl, fun clear => clear⟩
    rintro (member | linked)
    · exact apart (.inl (suffix member))
    · exact apart (.inr linked)
  refine ⟨⟨heap.start, ?_, fun other member => heap.free other (suffix member)⟩, shrunk.setPage fresh 0,
    shrinks.absorb (.inl listed) (.setPage fresh (.inl (.head _)) 0), heap.free frame listed, ?_,
    update_self _ _ _, .inl listed⟩
  · have := heap.distinct
    rw [free] at this
    exact (nodup_cons.mp this).2
  · rintro (member | ⟨place, found⟩)
    · exact absent member
    · exact (space.frames found).2 listed

/-- A walk uses the first pages of the free list for the missing tables. -/
structure Walked (depth : Nat) (kernel : Kernel) (root : Nat) (tree : List Nat → Option Nat) (after : Kernel)
    (larger : List Nat → Option Nat) (used : Nat) : Prop where
  heap : Heap after
  space : Table depth after root larger
  grows : Grows [] kernel tree after larger
  freelist : after.freelist = kernel.freelist.drop used
  grown : after.grown = kernel.grown
  loaded : after.loaded = kernel.loaded
  owned : ∀ frame, Owned after larger frame ↔ Owned kernel tree frame
  calm : ∀ frame ∉ kernel.freelist, (∀ {path}, tree path = some frame → 3 ≤ path.length) →
    after.memory frame = kernel.memory frame

theorem Walked.refl (heap : Heap k) (space : Table depth k root tree) : Walked depth k root tree k tree 0 :=
  ⟨heap, space, .refl k tree, rfl, rfl, rfl, fun _ => .rfl, fun _ _ _ => rfl⟩

theorem Walked.trans {middle last : Kernel} {largest : List Nat → Option Nat} {used more : Nat}
    (early : Walked depth k root tree middle larger used) (late : Walked depth middle root larger last largest more) :
    Walked depth k root tree last largest (used + more) where
  heap := late.heap
  space := late.space
  grows := early.grows.trans late.grows
  freelist := by rw [late.freelist, early.freelist, drop_drop]
  grown := late.grown.trans early.grown
  loaded := late.loaded.trans early.loaded
  owned frame := (late.owned frame).trans (early.owned frame)
  calm frame used deep := by
    refine (late.calm frame ?_ ?_).trans (early.calm frame used deep)
    · rw [early.freelist]
      exact fun member => used (mem_of_mem_drop member)
    · intro path found
      rcases (early.owned frame).mp (.inr ⟨path, found⟩) with free | ⟨place, old⟩
      · exact absurd free used
      · rw [early.space.radix.injective found (early.grows.keeps old)]
        exact deep old

section
variable (space : Table depth k root tree)
include space

section
variable (here : tree path = some table)
include here

/-- A present entry is followed. -/
theorem Table.walkLevel_found (deep : path.length < depth)
    (inside : index < levelWidth path.length) {next : Nat} (found : tree (path ++ [index]) = some next) (alloc : Bool) :
    k.walkLevel table index alloc = .ok (some next, k) := by
  have link := space.radix.child here deep inside
  rw [found, child] at link
  split at link
  · rename_i present
    rw [walkLevel, loadEntry_ok (space.frames here).1.directMapped, ok_bind, if_pos present,
      Option.some.inj link]
  · cases link

theorem Table.entry_absent (deep : path.length < depth)
    (inside : index < levelWidth path.length) (vacant : tree (path ++ [index]) = none) :
    ¬slot 64 (k.memory table) index &&& PTE_P ≠ 0 := by
  intro present
  have link := space.radix.child here deep inside
  rw [vacant, child, if_pos present] at link
  cases link

theorem Table.walkLevel_vacant (deep : path.length < depth)
    (inside : index < levelWidth path.length) (vacant : tree (path ++ [index]) = none) :
    k.walkLevel table index false = .ok (none, k) := by
  rw [walkLevel, loadEntry_ok (space.frames here).1.directMapped, ok_bind,
    if_neg (space.entry_absent here deep inside vacant), if_pos rfl]

theorem Table.walkLevel_false (deep : path.length < depth)
    (inside : index < levelWidth path.length) : k.walkLevel table index false = .ok (tree (path ++ [index]), k) := by
  cases found : tree (path ++ [index]) with
  | none => exact space.walkLevel_vacant here deep inside found
  | some next => exact space.walkLevel_found here deep inside found false

end

/-- A missing table is allocated when a page is free. -/
theorem Table.walkLevel_true (heap : Heap k) (here : tree path = some table) (shallow : path.length < 3)
    (inside : index < levelWidth path.length) :
    ∃ after larger, k.walkLevel table index true = .ok (larger (path ++ [index]), after) ∧
      Walked depth k root tree after larger (if tree (path ++ [index]) = none then 1 else 0) ∧
      (∀ place, place ≠ path ++ [index] → larger place = tree place) ∧
      (larger (path ++ [index]) = none ↔ tree (path ++ [index]) = none ∧ k.freelist = []) := by
  have deep : path.length < depth := shallow.trans_le space.lower
  cases found : tree (path ++ [index]) with
  | some next =>
    refine ⟨k, tree, ?_, .refl heap space, fun _ _ => rfl, by simp [found]⟩
    rw [found]
    exact space.walkLevel_found here deep inside found true
  | none =>
    have absent := space.entry_absent here deep inside found
    have mapped := (space.frames here).1.directMapped
    cases free : k.freelist with
    | nil =>
      refine ⟨k, tree, ?_, ?_, fun _ _ => rfl, by simp [found]⟩
      · rw [walkLevel, loadEntry_ok mapped, ok_bind, if_neg absent, if_neg (by decide), kalloc, free,
          found]
      · refine ⟨heap, space, .refl k tree, ?_, rfl, rfl, fun _ => .rfl, fun _ _ _ => rfl⟩
        rw [free]
        rfl
    | cons page rest =>
      have taken := space.take heap free
      have entry : (PTE_P ||| PTE_W ||| PTE_U).toNat < PGSIZE := by decide
      refine ⟨(k.takePage page rest).setEntry table index (pteOf page (PTE_P ||| PTE_W ||| PTE_U)),
        update tree (path ++ [index]) (some page), ?_, ⟨taken.heap.setPage _ _, ?_, ?_, ?_, rfl, rfl, ?_, ?_⟩,
        fun place other => update_of_ne other _ _, by simp⟩
      · rw [walkLevel, loadEntry_ok mapped, ok_bind, if_neg absent, if_neg (by decide), kalloc, free,
          update_self]
        dsimp only
        rw [storeEntry_ok mapped, ok_bind]
        rfl
      · exact taken.space.link here deep inside found taken.allocatable taken.unowned (fun _ => taken.cleared) entry
          (by decide)
      · exact taken.grows.absorb taken.owned
          (.link taken.space here inside found taken.unowned (fun _ => taken.cleared) _)
      · rw [free]
        rfl
      · intro frame
        exact (owned_link found _ _ _ page frame).trans (owned_take free rfl frame).symm
      · intro frame used low
        have ne : frame ≠ page := by
          rintro rfl
          exact used (free ▸ (.head _))
        have elsewhere : frame ≠ table := by
          rintro rfl
          exact absurd (low here) (by omega)
        exact (setPage_memory_ne elsewhere _).trans (setPage_memory_ne ne 0)

end

/-- The levels of `walkpgdir` follow a list of indices. -/
def Kernel.walkPath (alloc : Bool) : List Nat → Nat → Kernel → Except VmHalt (Option Nat × Kernel)
  | [], table, kernel => .ok (some table, kernel)
  | index :: rest, table, kernel => do
      match ← kernel.walkLevel table index alloc with
      | (none, kernel) => .ok (none, kernel)
      | (some next, kernel) => walkPath alloc rest next kernel

/-- Each index lies inside its table. -/
def InRange : Nat → List Nat → Prop
  | _, [] => True
  | level, index :: rest => index < levelWidth level ∧ InRange (level + 1) rest

/-- The number of tables that a walk has to allocate. -/
def missing (tree : List Nat → Option Nat) : List Nat → List Nat → Nat
  | _, [] => 0
  | path, index :: rest =>
    (if tree (path ++ [index]) = none then 1 else 0) + missing tree (path ++ [index]) rest

theorem missing_congr (same : ∀ index rest, larger (path ++ index :: rest) = tree (path ++ index :: rest)) :
    missing larger path indices = missing tree path indices := by
  induction indices generalizing path with
  | nil => rfl
  | cons index rest ih =>
    rw [missing, missing, same index [], ih]
    intro next suffix
    rw [append_assoc]
    exact same index (next :: suffix)

/-- Without allocation the walk finds the node at the end of the path. -/
theorem Table.walkPath_false (space : Table depth k root tree) (here : tree path = some table)
    (deep : path.length + indices.length ≤ depth) (inside : InRange path.length indices) :
    k.walkPath false indices table = .ok (tree (path ++ indices), k) := by
  induction indices generalizing path table with
  | nil => rw [walkPath, append_nil, here]
  | cons index rest ih =>
    rw [length_cons] at deep
    rw [walkPath, space.walkLevel_false here (by omega) inside.1, ok_bind, append_cons path index rest]
    cases found : tree (path ++ [index]) with
    | none =>
      have gone : tree (path ++ [index] ++ rest) = none := by
        by_contra present
        exact space.radix.ancestor rest present found
      rw [gone]
    | some next =>
      have length : (path ++ [index]).length = path.length + 1 := by simp
      exact ih found (by omega) (length ▸ inside.2)

/-- With allocation the walk adds the missing tables along the path. It stops when the free list is too
short. -/
theorem Table.walkPath_true (space : Table depth k root tree) (heap : Heap k) (here : tree path = some table)
    (deep : path.length + indices.length ≤ 3) (inside : InRange path.length indices) :
    ∃ after larger, k.walkPath true indices table = .ok (larger (path ++ indices), after) ∧
      Walked depth k root tree after larger (missing tree path indices) ∧
      (∀ place, ¬place <+: path ++ indices → larger place = tree place) ∧
      (larger (path ++ indices) = none ↔ k.freelist.length < missing tree path indices) := by
  induction indices generalizing path table k tree with
  | nil =>
    refine ⟨k, tree, ?_, .refl heap space, fun _ _ => rfl, ?_⟩
    · rw [walkPath, append_nil, here]
    · rw [append_nil, here]
      simp [missing]
  | cons index rest ih =>
    have length : (path ++ [index]).length = path.length + 1 := by simp
    rw [length_cons] at deep
    obtain ⟨middle, larger, run, walked, same, short⟩ := space.walkLevel_true heap here (by omega) inside.1
    rw [walkPath, run, ok_bind, append_cons path index rest, missing]
    cases found : larger (path ++ [index]) with
    | none =>
      obtain ⟨vacant, exhausted⟩ := short.mp found
      have gone : larger (path ++ [index] ++ rest) = none := by
        by_contra present
        exact walked.space.radix.ancestor rest present found
      refine ⟨middle, larger, by rw [gone], ?_, ?_, ?_⟩
      · refine {walked with freelist := ?_}
        rw [walked.freelist, exhausted, drop_nil, drop_nil]
      · intro place outside
        refine same place ?_
        rintro rfl
        exact outside (prefix_append _ _)
      · rw [exhausted, if_pos vacant]
        exact iff_of_true gone (by simp)
    | some next =>
      have longer : ∀ i suffix, larger (path ++ [index] ++ i :: suffix) = tree (path ++ [index] ++ i :: suffix) :=
        fun i suffix => same _ (by simp)
      obtain ⟨after, largest, run2, walked2, same2, short2⟩ :=
        ih walked.space walked.heap found (by omega) (length ▸ inside.2)
      rw [missing_congr longer] at walked2 short2
      refine ⟨after, largest, run2, walked.trans walked2, ?_, ?_⟩
      · intro place outside
        rw [same2 place outside]
        refine same place ?_
        rintro rfl
        exact outside (prefix_append _ _)
      · rw [short2, walked.freelist, length_drop]
        split
        · rename_i vacant
          have some_free : k.freelist.length ≠ 0 := by
            intro empty
            rw [short.mpr ⟨vacant, eq_nil_of_length_eq_zero empty⟩] at found
            cases found
          omega
        · omega

/-- The path of a page number has nine bits per level. -/
def pagePath (page : Nat) : List Nat :=
  [page / 512 ^ 3 % 512, page / 512 ^ 2 % 512, page / 512 % 512, page % 512]

/-- The path of the last table above a page. -/
def tablePath (page : Nat) : List Nat := [page / 512 ^ 3 % 512, page / 512 ^ 2 % 512, page / 512 % 512]

theorem pagePath_eq (page : Nat) : pagePath page = tablePath page ++ [page % 512] := rfl

theorem px_eq (shift : Nat) (va : BitVec 64) : px shift va = va.toNat / 2 ^ shift % 512 := by
  have mask := Nat.and_two_pow_sub_one_eq_mod (va.toNat / 2 ^ shift) 9
  rw [px, BitVec.toNat_and, BitVec.toNat_ushiftRight, Nat.shiftRight_eq_div_pow]
  exact mask

/-- Each level has nine bits of the page number. -/
theorem px_page (number : va.toNat / PGSIZE = page) (level : Nat) :
    px (12 + 9 * level) va = page / 512 ^ level % 512 := by
  rw [px_eq, ← number, Nat.div_div_eq_div_mul, pow_add, pow_mul]
  rfl

/-- The indices of an address are the path of its page. -/
theorem walkpgdir_eq (number : va.toNat / PGSIZE = page) (alloc : Bool) : k.walkpgdir root va alloc =
      (k.walkPath alloc (tablePath page) root).map fun found => (found.1.map (·, page % 512), found.2) := by
  have top : PMX va = page / 512 ^ 3 % 512 := px_page number 3
  have second : PDPX va = page / 512 ^ 2 % 512 := px_page number 2
  have third : PDX va = page / 512 % 512 := by rw [PDX, px_page number 1, pow_one]
  have last : PTX va = page % 512 := by rw [PTX, px_page number 0, pow_zero, Nat.div_one]
  rw [walkpgdir, top, second, third, last]
  simp only [tablePath, walkPath]
  rcases k.walkLevel root _ alloc with halt | ⟨_ | pdp, first⟩
  · rfl
  · rfl
  simp only [ok_bind]
  rcases first.walkLevel pdp _ alloc with halt | ⟨_ | pd, second⟩
  · rfl
  · rfl
  simp only [ok_bind]
  rcases second.walkLevel pd _ alloc with halt | ⟨_ | pgtab, third⟩ <;> rfl

theorem tablePath_inRange (user : page < 2 ^ 35) : InRange 0 (tablePath page) := by
  have top : page / 512 ^ 3 % 512 < 256 := by omega
  exact ⟨top, Nat.mod_lt _ (by decide), Nat.mod_lt _ (by decide), trivial⟩

/-- Without allocation the walk finds the last table if it exists. -/
theorem Table.walkpgdir_false (space : Table depth k root tree) (number : va.toNat / PGSIZE = page)
    (user : page < 2 ^ 35) : k.walkpgdir root va false = .ok ((tree (tablePath page)).map (·, page % 512), k) := by
  have three : ([] : List Nat).length + (tablePath page).length ≤ depth := space.lower
  rw [walkpgdir_eq number, space.walkPath_false space.radix.root three (tablePath_inRange user)]
  rfl

/-- With allocation the walk adds the missing tables above the page, and it finds the last one unless the
free list is too short. -/
theorem Table.walkpgdir_true (space : Table depth k root tree) (heap : Heap k)
    (number : va.toNat / PGSIZE = page) (user : page < 2 ^ 35) :
    ∃ after larger, k.walkpgdir root va true = .ok ((larger (tablePath page)).map (·, page % 512), after) ∧
      Walked depth k root tree after larger (missing tree [] (tablePath page)) ∧
      (∀ place, ¬place <+: tablePath page → larger place = tree place) ∧
      (larger (tablePath page) = none ↔ k.freelist.length < missing tree [] (tablePath page)) := by
  have three : ([] : List Nat).length + (tablePath page).length ≤ 3 := Nat.le_refl 3
  obtain ⟨after, larger, run, rest⟩ := space.walkPath_true heap space.radix.root three (tablePath_inRange user)
  refine ⟨after, larger, ?_, rest⟩
  rw [walkpgdir_eq number, run]
  rfl

end Steps
end Xv6
