import Xv6.Proof.Umalloc.Malloc

namespace Xv6
open Library Function Umalloc
open scoped List

namespace Umalloc
variable {heap : Umalloc} {base fuel limit : Nat} {spans live : List Extent} {nbytes : BitVec 32} {answers : List Nat}

theorem units_toNat (nbytes : BitVec 32) : (units nbytes).toNat = (nbytes.toNat + 15) / 16 + 1 := by
  have bound := nbytes.isLt
  simp only [units, headerSize, BitVec.toNat_ofNat]
  omega

/-- A block of the computed size holds the wanted bytes after its header. -/
theorem le_units (nbytes : BitVec 32) : nbytes.toNat ≤ headerSize * ((units nbytes).toNat - 1) := by
  rw [units_toNat, headerSize]
  omega

end Umalloc

namespace UmallocSystem
variable {system s next : UmallocSystem} {base fuel limit : Nat} {event : UmallocEvent} {count : Nat}
  {events : List UmallocEvent}

/-- No block exists before the first call of `malloc`, and the heap is sound after it. -/
def Tidy (base : Nat) (system : UmallocSystem) : Prop :=
  system.heap.freep = 0 ∧ system.live = [] ∧ system.heap.granted = 0 ∨
    ∃ spans, Umalloc.Sound base system.heap spans system.live

/-- The invariant of a run also bounds the units of all regions and the length of the free list. -/
def Ready (base count : Nat) (system : UmallocSystem) : Prop :=
  system.heap.freep = 0 ∧ system.live = [] ∧ system.heap.granted = 0 ∧ system.heap.brk = base + headerSize ∨
    ∃ spans, Umalloc.Sound base system.heap spans system.live ∧ system.heap.granted < 2 ^ 32 ∧
      spans.length ≤ count + 1

/-- The first call of `malloc` makes an empty free list. -/
theorem prepare_sound (count : Nat) (nonnull : 0 < base) (ready : s.Ready base count) :
    ∃ spans, Umalloc.Sound base (s.heap.prepare base) spans s.live ∧
      (s.heap.prepare base).granted < 2 ^ 32 ∧ spans.length ≤ count + 1 := by
  rcases ready with ⟨null, live, granted, brk⟩ | ⟨spans, sound, few, length⟩
  · rw [prepare, if_pos null, live]
    refine ⟨[⟨base, 0⟩], ⟨⟨rfl, ?_, List.pairwise_singleton .., ?_, by simp⟩, ?_, nofun, .nil, nofun, ?_, brk.ge,
      granted.symm⟩, ?_, by simp⟩
    · rw [setFreep_ptr, setSize_ptr, setPtr_ptr]
      exact update_self ..
    · intro span inside
      obtain rfl := List.mem_singleton.mp inside
      rw [setFreep_size, setSize_size, update_self]
      rfl
    · intro span inside ne
      obtain rfl := List.mem_singleton.mp inside
      exact absurd rfl ne
    · intro extent inside
      obtain rfl := List.mem_singleton.mp inside
      change base + headerSize * 0 ≤ s.heap.brk
      omega
    · change s.heap.granted < 2 ^ 32
      omega
  · have used : s.heap.freep ≠ 0 := by
      obtain ⟨span, inside, start⟩ := List.mem_map.mp sound.list.freep
      have := sound.list.base_le inside
      omega
    rw [prepare, if_neg used]
    exact ⟨spans, sound, few, length⟩

/-- The result of `malloc` is zero only if `sbrk` failed, and otherwise a new live block with enough bytes. -/
def Answered (system : UmallocSystem) (nbytes : BitVec 32) (answers : List Nat) (next : UmallocSystem) : Prop :=
  next.ret = 0 ∧ answers = [] ∧ next.live = system.live ∨
    ∃ block, next.live = block :: system.live ∧ next.ret = block.start + headerSize ∧
      nbytes.toNat ≤ headerSize * (block.units - 1)

section
variable (ready : s.Ready base count)
include ready

theorem Ready.malloc (nonnull : 0 < base) (limited : limit ≤ 2 ^ 32) (enough : 2 * count + 3 ≤ fuel)
    (nbytes : BitVec 32) (answers : List Nat) :
    s.step limit base fuel (.malloc nbytes answers) = .error .blocked ∨
      ∃ next, s.step limit base fuel (.malloc nbytes answers) = .ok next ∧ next.Ready base (count + 1) ∧
        s.Answered nbytes answers next := by
  obtain ⟨spans, sound, few, length⟩ := prepare_sound count nonnull ready
  have positive : 0 < (Umalloc.units nbytes).toNat := by
    rw [Umalloc.units_toNat]
    omega
  rcases sound.mallocLoop answers few limited positive (by omega : 2 * spans.length + 1 ≤ fuel) with
    blocked | ⟨none, failed⟩ | ⟨block, free, heap, found, units, clean, small, more⟩
  · left
    simp only [step, Umalloc.malloc, blocked]
  · right
    refine ⟨⟨s.heap.prepare base, s.live, 0⟩, ?_, .inr ⟨spans, sound, few, by omega⟩, .inl ⟨rfl, none, rfl⟩⟩
    simp only [step, Umalloc.malloc, failed, allocated, if_pos]
  · right
    have size := (clean.held block (.head _)).1
    refine ⟨⟨heap, block :: s.live, block.start + headerSize⟩, ?_, .inr ⟨free, clean, small, by omega⟩,
      .inr ⟨block, rfl, rfl, ?_⟩⟩
    · have nonzero : block.start + headerSize ≠ 0 := by
        have : 0 < headerSize := by decide
        omega
      simp only [step, Umalloc.malloc, found, allocated, if_neg nonzero, Nat.add_sub_cancel, size]
    · rw [units]
      exact Umalloc.le_units nbytes

theorem Ready.free {ap : Nat} (enough : count + 1 ≤ fuel) : s.step limit base fuel (.free ap) = .error .blocked ∨
      ∃ next, s.step limit base fuel (.free ap) = .ok next ∧ next.Ready base (count + 1) := by
  cases found : s.live.find? fun block => block.start + headerSize = ap with
  | none =>
    left
    simp only [step, found]
  | some block =>
    right
    have start : block.start + headerSize = ap := by
      simpa using List.find?_some found
    have member := List.mem_of_find?_eq_some found
    rcases ready with ⟨_, none, _⟩ | ⟨spans, sound, few, length⟩
    · rw [none] at member
      cases member
    · have sound := sound.perm (List.perm_cons_erase member)
      obtain ⟨next, free, freed, clean, more, _, _, granted⟩ := sound.free few (by omega : spans.length ≤ fuel)
      refine ⟨⟨next, s.live.erase block, s.ret⟩, ?_, .inr ⟨free, clean, granted ▸ few, by omega⟩⟩
      rw [start] at freed
      simp only [step, found, freed]

theorem Ready.store {addr : Nat} {header : Header} : s.step limit base fuel (.store addr header) = .error .blocked ∨
      ∃ next, s.step limit base fuel (.store addr header) = .ok next ∧ next.Ready base (count + 1) := by
  by_cases owned : s.Owned addr
  · right
    refine ⟨_, if_pos owned, ?_⟩
    obtain ⟨block, member, above, below⟩ := owned
    rcases ready with ⟨_, none, _⟩ | ⟨spans, sound, few, length⟩
    · rw [none] at member
      cases member
    · refine .inr ⟨spans, ?_, few, by omega⟩
      have outside : ∀ extent, block.Apart headerSize extent → extent.start ≠ addr := by
        intro extent apart same
        have := extent.start_le_stop headerSize
        have : 0 < headerSize := by decide
        unfold Extent.Apart at apart
        omega
      have elsewhere : ∀ extent ∈ spans ++ s.live, extent.start ≠ addr := by
        intro extent inside
        rcases List.mem_append.mp inside with free | held
        · exact outside extent (sound.beside block member extent free)
        · by_cases same : block = extent
          · have : 0 < headerSize := by decide
            rw [← same]
            omega
          · have : Std.Symm (Extent.Apart headerSize) := ⟨fun _ _ => .symm⟩
            exact outside extent (sound.apart.forall member held same)
      apply sound.congr
      · intro span inside
        simp only [ptr, update_of_ne (elsewhere span (List.mem_append_left _ inside))]
      · intro extent inside
        simp only [size, update_of_ne (elsewhere extent inside)]
      all_goals rfl
  · exact .inl (if_neg owned)

/-- No call spins, and every possible call keeps the heap sound. -/
theorem Ready.step (nonnull : 0 < base) (limited : limit ≤ 2 ^ 32) (enough : 2 * count + 3 ≤ fuel)
    (event : UmallocEvent) :
    s.step limit base fuel event = .error .blocked ∨
      ∃ next, s.step limit base fuel event = .ok next ∧ next.Ready base (count + 1) := by
  cases event with
  | malloc nbytes answers =>
    apply (ready.malloc nonnull limited enough nbytes answers).imp_right
    rintro ⟨next, ran, kept, _⟩
    exact ⟨next, ran, kept⟩
  | free ap => exact ready.free (by omega)
  | store addr header => exact ready.store

end

theorem interleave_ready (nonnull : 0 < base) (limited : limit ≤ 2 ^ 32) (enough : 2 * events.length + 1 ≤ fuel)
    (ran : interleave limit base fuel events = .ok s) : s.Ready base events.length := by
  apply runEvents_invariant (fun events s => 2 * events.length + 1 ≤ fuel → s.Ready base events.length)
    _ _ ran enough
  · exact fun _ => .inl ⟨rfl, rfl, rfl, rfl⟩
  · intro events state event next held stepped enough
    rw [List.length_append, List.length_singleton] at enough ⊢
    rcases (held (by omega)).step nonnull limited (by omega : 2 * events.length + 3 ≤ fuel) event with
      blocked | ⟨other, ran, kept⟩
    · rw [blocked] at stepped
      cases stepped
    · rw [ran] at stepped
      cases stepped
      exact kept

/-- With enough fuel for the length of the free list, a run is blocked or goes on, and never spins. -/
theorem interleave_ne_spins (nonnull : 0 < base) (limited : limit ≤ 2 ^ 32) (enough : 2 * events.length + 1 ≤ fuel) :
    interleave limit base fuel events ≠ .error .spins := by
  intro spins
  obtain ⟨earlier, event, middle, inside, reached, final⟩ := runEvents_error.mp spins
  have length := inside.length_le
  rw [List.length_append, List.length_singleton] at length
  have ready := interleave_ready nonnull limited (by omega) reached
  rcases ready.step nonnull limited (by omega : 2 * earlier.length + 3 ≤ fuel) event with blocked | ⟨next, ran, _⟩
  · rw [blocked] at final
    cases final
  · rw [ran] at final
    cases final

theorem Ready.tidy (ready : s.Ready base count) : s.Tidy base := by
  rcases ready with ⟨null, live, granted, _⟩ | ⟨spans, sound, _⟩
  · exact .inl ⟨null, live, granted⟩
  · exact .inr ⟨spans, sound⟩

/-- As long as `sbrk` hands out fewer than 2 ^ 32 units, no call of a program spins, the heap is sound after every
call, and `malloc` returns zero only if `sbrk` fails. -/
theorem malloc_sound (nonnull : 0 < base) (limited : limit ≤ 2 ^ 32) (events : List UmallocEvent)
    (enough : 2 * events.length + 3 ≤ fuel) :
    interleave limit base fuel events ≠ .error .spins ∧
      ∀ system, interleave limit base fuel events = .ok system → system.Tidy base ∧
        ∀ nbytes answers next, system.step limit base fuel (.malloc nbytes answers) = .ok next →
          next.Tidy base ∧ system.Answered nbytes answers next := by
  constructor
  · exact interleave_ne_spins nonnull limited (by omega)
  · intro system ran
    have ready := interleave_ready nonnull limited (by omega) ran
    refine ⟨ready.tidy, ?_⟩
    intro nbytes answers next stepped
    rcases ready.malloc nonnull limited enough nbytes answers with blocked | ⟨other, ended, kept, answered⟩
    · rw [blocked] at stepped
      cases stepped
    · rw [ended] at stepped
      cases stepped
      exact ⟨kept.tidy, answered⟩

/-- A program gets a small block from a new region and frees it. -/
theorem malloc_sound_one_block :
    ∃ system, interleave (2 ^ 32) 16 7 [.malloc 1 [32], .free 65552] = .ok system ∧ system.Tidy 16 ∧
      system.live = [] ∧ system.heap.granted = 4096 := by
  have observed : (interleave (2 ^ 32) 16 7 [.malloc 1 [32], .free 65552]).toOption.map
      (fun system => (system.live, system.heap.granted)) = some ([], 4096) := by
    decide +kernel
  obtain ⟨system, ran, same⟩ := exists_ok_of_observed observed
  obtain ⟨live, granted⟩ := Prod.mk.inj same
  have sound := (malloc_sound (by decide) le_rfl [.malloc 1 [32], .free 65552] (by decide)).2 system ran
  exact ⟨system, ran, sound.1, live, granted⟩

/-- The address of the region for each of sixteen largest blocks. -/
def hugeRegion (index : Nat) : Nat := 32 + 16 * 268435457 * index

/-- A program gets the largest block sixteen times from touching regions and frees all blocks. -/
def hugeBlocks : List UmallocEvent :=
  (List.range 16).map (fun index => .malloc 0xffffffff [hugeRegion index]) ++
    (List.range 16).map fun index => .free (hugeRegion index + headerSize)

/-- The size of the joined block overflows, so the free list loses units. -/
theorem malloc_overflow :
    ∃ system, interleave (2 ^ 33) 16 67 hugeBlocks = .ok system ∧ ¬system.Tidy 16 := by
  have observed : (interleave (2 ^ 33) 16 67 hugeBlocks).toOption.map
      (fun system => (system.live, system.heap.granted, system.heap.freep, system.heap.ptr 16, system.heap.ptr 32,
        system.heap.size 32)) = some ([], 2 ^ 32 + 16, 32, 32, 16, 16) := by
    decide +kernel
  obtain ⟨system, ran, same⟩ := exists_ok_of_observed observed
  simp only [Prod.mk.injEq] at same
  obtain ⟨live, granted, freep, first, second, size⟩ := same
  refine ⟨system, ran, ?_⟩
  rintro (⟨null, _⟩ | ⟨spans, sound⟩)
  · omega
  · obtain ⟨rest, rfl⟩ := List.head?_eq_some_iff.mp sound.list.starts
    have circular : Segment system.heap.ptr 16 (rest.map Extent.start) 16 := sound.list.circular
    cases rest with
    | nil => exact absurd (first.symm.trans circular) (by decide)
    | cons block rest =>
      have start : block.start = 32 := circular.1.symm.trans first
      have units := sound.list.sizes block (by simp)
      rw [start, size] at units
      have after : Segment system.heap.ptr block.start (rest.map Extent.start) 16 := circular.2
      cases rest with
      | nil =>
        have total := sound.total
        simp only [live, granted, totalUnits_cons, totalUnits_nil, ← units] at total
        omega
      | cons last rest =>
        have spaced := (List.pairwise_cons.mp (List.pairwise_cons.mp sound.list.spaced).2).1 last (by simp)
        have lower : last.start = 16 := after.1.symm.trans (start ▸ second)
        rw [lower, Extent.stop, start] at spaced
        omega

end UmallocSystem
end Xv6
