import Xv6.Construction.Spaces
import Xv6.Library.Fuel
import Xv6.Proof.Vm.Copy

namespace Xv6
open Library Function Spaces List
variable {path : List Nat}

section Node
variable {kernel k : Kernel} {root : Nat} {tree : List Nat → Option Nat}

/-- The walk follows present entries down from a table. -/
def Kernel.nodeFrom (kernel : Kernel) : Nat → Nat → List Nat → Option Nat
  | _, table, [] => some table
  | level, table, index :: rest =>
    if level < 4 ∧ index < levelWidth level then
      (kernel.child table index).bind fun next => kernel.nodeFrom (level + 1) next rest
    else none

/-- The page at a path of a page table. A path of four indices leads to a leaf, and a shorter path to a table. -/
def Kernel.node (kernel : Kernel) (root : Nat) (path : List Nat) : Option Nat := kernel.nodeFrom 0 root path

theorem Table.nodeFrom_eq (space : Table 4 k root tree) {table : Nat} (here : tree path = some table)
    (rest : List Nat) : k.nodeFrom path.length table rest = tree (path ++ rest) := by
  induction rest generalizing path table with
  | nil => rw [Kernel.nodeFrom, append_nil, here]
  | cons index rest ih =>
    have whole : path ++ index :: rest = path ++ [index] ++ rest := by simp
    rw [Kernel.nodeFrom, whole]
    split
    · rename_i inside
      rw [space.radix.child here inside.1 inside.2]
      cases below : tree (path ++ [index]) with
      | none =>
        by_contra present
        exact space.radix.ancestor rest (Ne.symm present) below
      | some next =>
        have next := ih below
        rw [length_append, length_singleton] at next
        exact next
    · rename_i outside
      by_contra present
      exact outside (space.radix.parent (space.radix.ancestor rest (Ne.symm present))).2

/-- The tree of a page table is what a walk finds. -/
theorem Table.node_eq (space : Table 4 k root tree) : k.node root = tree := by
  funext path
  exact space.nodeFrom_eq space.radix.root path

end Node

/-- A call on a page table uses the pages of the table and the free pages, and it loses none of them. -/
structure Reshaped (kernel : Kernel) (root : Nat) (tree : List Nat → Option Nat) (after : Kernel)
    (changed : List Nat → Option Nat) : Prop where
  heap : Heap after
  space : Table 4 after root changed
  evolves : Evolves [] kernel tree after changed
  owned : ∀ frame, Owned after changed frame ↔ Owned kernel tree frame

section Calls
variable {k after : Kernel} {root page mem : Nat} {tree : List Nat → Option Nat} {a : BitVec 64}
  {larger : List Nat → Option Nat} {pages : Nat} {oldsz newsz size : BitVec 64}

theorem Reshaped.refl (heap : Heap k) (space : Table 4 k root tree) : Reshaped k root tree k tree :=
  ⟨heap, space, (Grows.refl k tree).toEvolves, fun _ => .rfl⟩

theorem Shrunk.reshaped {smaller : List Nat → Option Nat} (shrunk : Shrunk k root tree after smaller) :
    Reshaped k root tree after smaller := ⟨shrunk.heap, shrunk.space, shrunk.evolves, shrunk.owned⟩

theorem Grown.reshaped (grown : Grown k root tree after larger page pages) : Reshaped k root tree after larger :=
  ⟨grown.heap, grown.space, grown.grows.toEvolves, grown.owned⟩

variable (space : Table 4 k root tree)
include space

/-- The loop of `allocuvm` returns a new size only when it has mapped every page. -/
theorem Table.allocLoop_reshaped (heap : Heap k) (address : a.toNat = page * PGSIZE) (user : page + pages ≤ 2 ^ 35)
    (ran : Kernel.allocLoop root oldsz newsz pages a k = .ok (size, after)) (nonzero : size ≠ 0) :
    ∃ larger, Reshaped k root tree after larger := by
  rcases space.allocLoop_outcome pages oldsz newsz heap address (by omega) with
    ⟨_, last, larger, final, grown⟩ | ⟨full, tables, spare, _, _, final⟩ | ⟨_, _, final, _⟩
  · rw [final] at ran
    cases ran
    exact ⟨larger, grown.reshaped⟩
  · rw [final] at ran
    obtain ⟨shrunk, _, last⟩ := bind_eq_ok.mp ran
    exact absurd (giveUp_zero last) nonzero
  · rw [final] at ran
    cases ran

theorem Table.allocuvm_reshaped (heap : Heap k) (user : newsz.toNat ≤ 2 ^ 47)
    (ran : k.allocuvm root oldsz newsz = .ok (size, after)) (served : ¬(size = 0 ∧ newsz ≠ 0)) :
    ∃ larger, Reshaped k root tree after larger := by
  rw [Kernel.allocuvm] at ran
  split at ran
  · cases ran
    exact ⟨tree, .refl heap space⟩
  split at ran
  · cases ran
    exact ⟨tree, .refl heap space⟩
  · rename_i grow
    rw [BitVec.not_lt, BitVec.le_def] at grow
    have rounded : (PGROUNDUP oldsz).toNat = topPage oldsz * PGSIZE := PGROUNDUP_toNat (by omega)
    dsimp only at ran
    rw [pagesUpTo_eq rounded] at ran
    have last : topPage oldsz + (topPage newsz - topPage oldsz) ≤ 2 ^ 35 := by
      simp only [topPage, PGSIZE]
      omega
    by_cases nonzero : size = 0
    · have zero : newsz = 0 := by
        by_contra other
        exact served ⟨nonzero, other⟩
      subst zero
      have none : topPage (0 : BitVec 64) - topPage oldsz = 0 := by
        have top : topPage (0 : BitVec 64) = 0 := by decide
        omega
      rw [none] at ran
      cases ran
      exact ⟨tree, .refl heap space⟩
    · exact space.allocLoop_reshaped heap rounded last ran nonzero

/-- The call `clearpteu` changes no link. -/
theorem Table.clearpteu_reshaped {uva : BitVec 64} (heap : Heap k) (user : uva.toNat < 2 ^ 47)
    (ran : k.clearpteu root uva = .ok after) : Reshaped k root tree after tree := by
  have inside : uva.toNat / PGSIZE % 512 < 512 := Nat.mod_lt _ (by decide)
  have bound : uva.toNat / PGSIZE < 2 ^ 35 := by
    simp only [PGSIZE]
    omega
  rw [Kernel.clearpteu, space.walkpgdir_false rfl bound, ok_bind] at ran
  cases here : tree (tablePath (uva.toNat / PGSIZE)) with
  | none =>
    rw [here] at ran
    cases ran
  | some table =>
    have directMapped := (space.frames here).1.directMapped
    rw [here] at ran
    simp only [Option.map_some] at ran
    rw [loadEntry_ok directMapped, ok_bind, storeEntry_ok directMapped] at ran
    cases ran
    refine ⟨heap.setPage _ _, ⟨space.lower, space.upper, ?_, space.frames⟩, ⟨rfl, rfl, ?_⟩, fun _ => .rfl⟩
    · exact space.radix.congr fun _ _ _ => child_clear inside _ _
    · intro other _ _ unowned
      refine ⟨setPage_memory_ne ?_ _, unowned⟩
      rintro rfl
      exact unowned (.inr ⟨_, here⟩)

end Calls

/-- A new page table is made of free pages. -/
structure Born (kernel : Kernel) (root : Nat) (after : Kernel) (tree : List Nat → Option Nat) : Prop where
  heap : Heap after
  space : Table 4 after root tree
  evolves : Evolves [] kernel (fun _ => none) after tree
  owned : ∀ frame, Owned after tree frame ↔ frame ∈ kernel.freelist

section Births
variable {base k after : Kernel} {d pgdir page : Nat} {tree theirs : List Nat → Option Nat} {i : BitVec 64}

theorem Copying.born (copying : Copying base k d tree page) : Born base d k tree :=
  ⟨copying.span.heap, copying.span.space, copying.evolves, copying.owned⟩

theorem setupkvm_born (heap : Heap base) (ran : base.setupkvm = .ok (d, after)) : Copying base after d (rootTree d) 1 := by
  have some_free : base.freelist ≠ [] := by
    intro none
    rw [setupkvm_exhausted none] at ran
    cases ran
  obtain ⟨other, made, again, copying, _⟩ := setupkvm_copying heap some_free
  rw [again] at ran
  cases ran
  exact copying

theorem copyuvm_born {sz : BitVec 32} (heap : Heap base) (table : Table 4 base pgdir theirs)
    (ran : base.copyuvm pgdir sz = .ok (some d, after)) : ∃ tree, Born base d after tree := by
  obtain ⟨tree, copying, _⟩ := copyuvm_copied heap table ran
  exact ⟨tree, copying.born⟩

end Births

/-- The pages that were free at the beginning are free or belong to one page table. -/
structure Partitioned (initial : Kernel) (spaces : Spaces) (tree : Nat → List Nat → Option Nat) : Prop where
  heap : Heap spaces.kernel
  distinct : spaces.live.Nodup
  tables : ∀ root ∈ spaces.live, Table 4 spaces.kernel root (tree root)
  apart : ∀ root ∈ spaces.live, ∀ other ∈ spaces.live, ∀ {path place frame}, tree root path = some frame →
    tree other place = some frame → root = other
  pages : ∀ frame, frame ∈ initial.freelist ↔
    frame ∈ spaces.kernel.freelist ∨ ∃ root ∈ spaces.live, ∃ path, tree root path = some frame

section Partition
variable {initial after : Kernel} {spaces : Spaces} {tree : Nat → List Nat → Option Nat} {root : Nat}
  {changed : List Nat → Option Nat}

/-- The free pages and the pages of the tables are the pages that one table owns and the pages of the others. -/
theorem pages_split {k : Kernel} {live : List Nat} (member : root ∈ live) (frame : Nat) :
    (frame ∈ k.freelist ∨ ∃ other ∈ live, ∃ path, tree other path = some frame) ↔
      Owned k (tree root) frame ∨ ∃ other ∈ live, other ≠ root ∧ ∃ path, tree other path = some frame := by
  constructor
  · rintro (free | ⟨other, listed, path, found⟩)
    · exact .inl (.inl free)
    · by_cases same : other = root
      · rw [same] at found
        exact .inl (.inr ⟨path, found⟩)
      · exact .inr ⟨other, listed, same, path, found⟩
  · rintro ((free | ⟨path, found⟩) | ⟨other, listed, _, path, found⟩)
    · exact .inl free
    · exact .inr ⟨root, member, path, found⟩
    · exact .inr ⟨other, listed, path, found⟩

section
variable (s : Partitioned initial spaces tree)
include s

/-- A page of another table is not owned by a call on a table. -/
theorem Partitioned.unowned (member : root ∈ spaces.live) {other : Nat} (listed : other ∈ spaces.live)
    (ne : other ≠ root) {frame : Nat} (found : tree other path = some frame) :
    ¬Owned spaces.kernel (tree root) frame := by
  rintro (free | ⟨place, mine⟩)
  · exact ((s.tables other listed).frames found).2 free
  · exact ne (s.apart other listed root member found mine)

theorem Partitioned.reshape (member : root ∈ spaces.live)
    (reshaped : Reshaped spaces.kernel root (tree root) after changed) :
    Partitioned initial {spaces with kernel := after} (update tree root changed) := by
  have kept : ∀ other ∈ spaces.live, other ≠ root → Table 4 after other (tree other) ∧
      ∀ {path frame}, tree other path = some frame → ¬Owned after changed frame := fun other listed ne =>
    (s.tables other listed).other (s.unowned member listed ne) reshaped.evolves
  refine ⟨reshaped.heap, s.distinct, ?_, ?_, ?_⟩
  · intro other listed
    rw [update_apply]
    split
    · rename_i same
      rw [same]
      exact reshaped.space
    · rename_i ne
      exact (kept other listed ne).1
  · intro first one second two path place frame found again
    rw [update_apply] at found again
    split at found <;> split at again
    · rename_i same other
      rw [same, other]
    · rename_i _ ne
      exact absurd (.inr ⟨path, found⟩) ((kept second two ne).2 again)
    · rename_i ne _
      exact absurd (.inr ⟨place, again⟩) ((kept first one ne).2 found)
    · exact s.apart first one second two found again
  · intro frame
    rw [s.pages, pages_split member, pages_split member, update_self, reshaped.owned]
    refine or_congr_right (exists_congr fun other => and_congr_right fun _ => and_congr_right fun ne => ?_)
    rw [update_of_ne ne]

theorem Partitioned.bear (born : Born spaces.kernel root after changed) :
    Partitioned initial ⟨after, root :: spaces.live⟩ (update tree root changed) := by
  have used : ∀ other ∈ spaces.live, ∀ {path frame}, tree other path = some frame →
      ¬Owned spaces.kernel (fun _ => none) frame := fun other listed _ _ found =>
    not_owned_none ((s.tables other listed).frames found).2
  have kept : ∀ other ∈ spaces.live, Table 4 after other (tree other) ∧
      ∀ {path frame}, tree other path = some frame → ¬Owned after changed frame := fun other listed =>
    (s.tables other listed).other (used other listed) born.evolves
  have fresh : ∀ other ∈ spaces.live, other ≠ root := by
    rintro other listed rfl
    exact (kept other listed).2 (s.tables other listed).radix.root (.inr ⟨[], born.space.radix.root⟩)
  have others : ∀ other ∈ spaces.live, update tree root changed other = tree other := fun other listed =>
    update_of_ne (fresh other listed) _ _
  have new : update tree root changed root = changed := update_self _ _ _
  refine ⟨born.heap, nodup_cons.mpr ⟨fun listed => fresh root listed rfl, s.distinct⟩, ?_, ?_, ?_⟩
  · intro other listed
    rcases mem_cons.mp listed with rfl | old
    · rw [new]
      exact born.space
    · rw [others other old]
      exact (kept other old).1
  · intro first one second two path place frame found again
    rcases mem_cons.mp one with rfl | early <;> rcases mem_cons.mp two with rfl | late
    · rfl
    · rw [new] at found
      rw [others second late] at again
      exact absurd (.inr ⟨path, found⟩) ((kept second late).2 again)
    · rw [new] at again
      rw [others first early] at found
      exact absurd (.inr ⟨place, again⟩) ((kept first early).2 found)
    · rw [others first early] at found
      rw [others second late] at again
      exact s.apart first early second late found again
  · intro frame
    rw [s.pages, ← born.owned, Owned, exists_mem_cons_iff, new, or_assoc]
    refine or_congr_right (or_congr_right (exists_congr fun other => and_congr_right fun listed => ?_))
    rw [others other listed]

/-- The call `freevm` gives all pages of a table back and changes no other page. -/
theorem Partitioned.free (member : root ∈ spaces.live) : ∃ after, spaces.kernel.freevm root = .ok after ∧
      Freed (∃ path, tree root path = some ·) spaces.kernel after ∧
      Partitioned initial ⟨after, spaces.live.erase root⟩ tree := by
  obtain ⟨after, ran, freed⟩ := (s.tables root member).freevm_freed s.heap
  have left : ∀ {other}, other ∈ spaces.live.erase root ↔ other ≠ root ∧ other ∈ spaces.live :=
    s.distinct.mem_erase_iff
  have outside : ∀ {other}, other ∈ spaces.live.erase root → ∀ {path frame}, tree other path = some frame →
      ¬∃ place, tree root place = some frame := by
    intro other listed path frame found mine
    obtain ⟨ne, old⟩ := left.mp listed
    exact s.unowned member old ne found (.inr mine)
  refine ⟨after, ran, freed, freed.heap, s.distinct.erase root, ?_, ?_, ?_⟩
  · intro other listed
    have table := s.tables other (left.mp listed).2
    refine ⟨table.lower, table.upper, ?_, ?_⟩
    · refine table.radix.congr fun found _ _ => child_congr ?_
      rw [freed.memory _ (outside listed found)]
    · intro path frame found
      refine ⟨?_, fun free => ?_⟩
      · rw [Kernel.Allocatable, freed.kend]
        exact (table.frames found).1
      · rcases (freed.freelist frame).mp free with old | mine
        · exact (table.frames found).2 old
        · exact outside listed found mine
  · intro first one second two path place frame found again
    exact s.apart first (left.mp one).2 second (left.mp two).2 found again
  · intro frame
    rw [s.pages, pages_split member, freed.freelist]
    refine or_congr_right (exists_congr fun other => ?_)
    rw [left, and_assoc, and_left_comm]

end

theorem Partitioned.start (heap : Heap initial) : Partitioned initial ⟨initial, []⟩ fun _ _ => none :=
  ⟨heap, nodup_nil, fun _ member => absurd member not_mem_nil,
    fun _ member => absurd member not_mem_nil, fun frame => by simp⟩

/-- Every call keeps the partition. -/
theorem Partitioned.step {event : SpaceEvent} {next : Spaces} (s : Partitioned initial spaces tree)
    (ran : spaces.step event = .ok next) : ∃ tree, Partitioned initial next tree := by
  cases event with
  | setupkvm =>
    obtain ⟨⟨d, k⟩, made, last⟩ := bind_eq_ok.mp ran
    cases last
    exact ⟨_, s.bear (setupkvm_born s.heap (mapError_eq_ok made)).born⟩
  | allocuvm pgdir oldsz newsz =>
    rw [Spaces.step] at ran
    split at ran
    · rename_i allowed
      obtain ⟨⟨size, k⟩, called, last⟩ := bind_eq_ok.mp ran
      dsimp only at last
      split at last
      · cases last
      · rename_i served
        cases last
        obtain ⟨larger, reshaped⟩ := (s.tables pgdir allowed.1).allocuvm_reshaped s.heap allowed.2
          (mapError_eq_ok called) served
        exact ⟨_, s.reshape allowed.1 reshaped⟩
    · cases ran
  | deallocuvm pgdir oldsz newsz =>
    rw [Spaces.step] at ran
    split at ran
    · rename_i allowed
      obtain ⟨⟨size, k⟩, called, last⟩ := bind_eq_ok.mp ran
      cases last
      obtain ⟨after, smaller, again, shrunk, _⟩ := (s.tables pgdir allowed.1).deallocuvm_shrunk s.heap allowed.2 newsz
      have same := Except.ok.inj ((mapError_eq_ok called).symm.trans again)
      cases same
      exact ⟨_, s.reshape allowed.1 shrunk.reshaped⟩
    · cases ran
  | copyuvm pgdir sz =>
    rw [Spaces.step] at ran
    split at ran
    · rename_i allowed
      obtain ⟨⟨made, k⟩, called, last⟩ := bind_eq_ok.mp ran
      cases made with
      | none => cases last
      | some d =>
        cases last
        obtain ⟨_, born⟩ := copyuvm_born s.heap (s.tables pgdir allowed) (mapError_eq_ok called)
        exact ⟨_, s.bear born⟩
    · cases ran
  | clearpteu pgdir uva =>
    rw [Spaces.step] at ran
    split at ran
    · rename_i allowed
      obtain ⟨k, called, last⟩ := bind_eq_ok.mp ran
      cases last
      exact ⟨_, s.reshape allowed.1 ((s.tables pgdir allowed.1).clearpteu_reshaped s.heap allowed.2
        (mapError_eq_ok called))⟩
    · cases ran
  | freevm pgdir =>
    rw [Spaces.step] at ran
    split at ran
    · rename_i allowed
      obtain ⟨k, called, last⟩ := bind_eq_ok.mp ran
      cases last
      obtain ⟨after, again, _, left⟩ := s.free allowed
      obtain rfl := Except.ok.inj ((mapError_eq_ok called).symm.trans again)
      exact ⟨tree, left⟩
    · cases ran

theorem calls_partitioned (heap : Heap initial) {events : List SpaceEvent}
    (ran : calls initial events = .ok spaces) : ∃ tree, Partitioned initial spaces tree := by
  refine runEvents_invariant (fun _ s => ∃ tree, Partitioned initial s tree) ⟨_, .start heap⟩ ?_ ran
  rintro _ s event next ⟨tree, partitioned⟩ moved
  exact partitioned.step moved

end Partition

/-- A page is free or at a path of a page table. -/
inductive PagePlace where
  | free
  | node (root : Nat) (path : List Nat)

/-- The page is at the place. -/
def Spaces.At (spaces : Spaces) (frame : Nat) : PagePlace → Prop
  | .free => frame ∈ spaces.kernel.freelist
  | .node root path => root ∈ spaces.live ∧ spaces.kernel.node root path = some frame

/-- Every page table is freed. -/
def Spaces.freeAll (spaces : Spaces) : Except VmHalt Kernel :=
  spaces.live.foldlM (fun kernel root => kernel.freevm root) spaces.kernel

section Owners
variable {initial : Kernel} {spaces : Spaces} {tree : Nat → List Nat → Option Nat}

section
variable (s : Partitioned initial spaces tree)
include s

theorem Partitioned.node_eq {root : Nat} (member : root ∈ spaces.live) : spaces.kernel.node root = tree root := (s.tables root member).node_eq

/-- A page that was free at the beginning is at one place, and no other page is at a place. -/
theorem Partitioned.place (frame : Nat) : (frame ∈ initial.freelist ↔ ∃ place, spaces.At frame place) ∧
      ∀ first second, spaces.At frame first → spaces.At frame second → first = second := by
  constructor
  · rw [s.pages]
    constructor
    · rintro (free | ⟨root, member, path, found⟩)
      · exact ⟨.free, free⟩
      · rw [← s.node_eq member] at found
        exact ⟨.node root path, member, found⟩
    · rintro ⟨place, here⟩
      cases place with
      | free => exact .inl here
      | node root path =>
        obtain ⟨member, found⟩ := here
        rw [s.node_eq member] at found
        exact .inr ⟨root, member, path, found⟩
  · intro first second one two
    have busy : ∀ {root path}, spaces.At frame (.node root path) → ¬spaces.At frame .free := by
      rintro root path ⟨member, found⟩ free
      rw [s.node_eq member] at found
      exact ((s.tables root member).frames found).2 free
    cases first with
    | free =>
      cases second with
      | free => rfl
      | node root path => exact absurd one (busy two)
    | node root path =>
      cases second with
      | free => exact absurd two (busy one)
      | node other place =>
        obtain ⟨member, found⟩ := one
        obtain ⟨listed, again⟩ := two
        rw [s.node_eq member] at found
        rw [s.node_eq listed] at again
        obtain rfl := s.apart root member other listed found again
        rw [(s.tables root member).radix.injective found again]

/-- When all page tables are freed, the free pages are those of the beginning. -/
theorem Partitioned.freeAll :
    ∃ last, spaces.freeAll = .ok last ∧ ∀ frame, frame ∈ last.freelist ↔ frame ∈ initial.freelist := by
  obtain ⟨k, live⟩ := spaces
  induction live generalizing k with
  | nil =>
    refine ⟨k, rfl, fun frame => ?_⟩
    rw [s.pages]
    simp
  | cons root live ih =>
    obtain ⟨after, ran, _, left⟩ := s.free mem_cons_self
    rw [erase_cons_head] at left
    obtain ⟨last, rest, same⟩ := ih after left
    refine ⟨last, ?_, same⟩
    rw [freeAll, foldlM_cons]
    exact bind_eq_ok.mpr ⟨after, ran, rest⟩

end

/-- Each page that was free at the beginning is in the free list or at one path of one page table. The call `freevm`
frees every page of its page table once and changes no other page. After all page tables are freed, the free pages are
those of the beginning. -/
theorem pages_have_one_owner (heap : Heap initial) {events : List SpaceEvent}
    (ran : Spaces.calls initial events = .ok spaces) :
    (∀ frame, (frame ∈ initial.freelist ↔ ∃ place, spaces.At frame place) ∧
        ∀ first second, spaces.At frame first → spaces.At frame second → first = second) ∧
      spaces.kernel.freelist.Nodup ∧
      (∀ root ∈ spaces.live, ∃ after, spaces.kernel.freevm root = .ok after ∧ after.freelist.Nodup ∧
        (∀ frame, frame ∈ after.freelist ↔
          frame ∈ spaces.kernel.freelist ∨ ∃ path, spaces.kernel.node root path = some frame) ∧
        after.kpdpt = spaces.kernel.kpdpt ∧
        ∀ frame, (∀ path, spaces.kernel.node root path ≠ some frame) →
          after.memory frame = spaces.kernel.memory frame) ∧
      ∃ last, spaces.freeAll = .ok last ∧ ∀ frame, frame ∈ last.freelist ↔ frame ∈ initial.freelist := by
  obtain ⟨tree, state⟩ := calls_partitioned heap ran
  refine ⟨state.place, state.heap.distinct, ?_, state.freeAll⟩
  intro root member
  obtain ⟨after, freed, gone, _⟩ := state.free member
  refine ⟨after, freed, gone.heap.distinct, ?_, gone.kpdpt, ?_⟩
  · intro frame
    rw [gone.freelist, state.node_eq member]
  · intro frame outside
    refine gone.memory frame ?_
    rintro ⟨path, found⟩
    exact outside path (by rw [state.node_eq member, found])

end Owners

/-- Two page tables are made and used with twelve free pages. -/
def spaceEvents : List SpaceEvent :=
  [.setupkvm, .allocuvm 0x1000 0x1000 0x3000, .clearpteu 0x1000 0x1000, .copyuvm 0x1000 0x3000,
    .deallocuvm 0x1000 0x3000 0x2000, .freevm 0x1000]

/-- One page table is left, and its pages are free again after the last call of `freevm`. -/
theorem pages_have_one_owner_two_tables :
    ∃ spaces, Spaces.calls (blankKernel 12) spaceEvents = .ok spaces ∧ spaces.live = [0x1006] ∧
      ∃ last, spaces.freeAll = .ok last ∧ ∀ frame, frame ∈ last.freelist ↔ frame ∈ (blankKernel 12).freelist := by
  have observed : (calls (blankKernel 12) spaceEvents).toOption.map live = some [0x1006] := by
    decide +kernel
  obtain ⟨spaces, ran, live⟩ := exists_ok_of_observed observed
  exact ⟨spaces, ran, live, (pages_have_one_owner ⟨by decide, by decide, by decide⟩ ran).2.2.2⟩

end Xv6
