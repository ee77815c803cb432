import Xv6.Construction.Vm
import Xv6.Library.Radix

namespace Xv6
open Library
variable {page : Nat}

/-- The allocator hands out pages between the end of the kernel and the end of memory. -/
def Kernel.Allocatable (kernel : Kernel) (frame : Nat) : Prop :=
  kernel.kend ≤ frame * PGSIZE ∧ frame * PGSIZE < PHYSTOP

instance (kernel : Kernel) (frame : Nat) : Decidable (kernel.Allocatable frame) :=
  inferInstanceAs (Decidable (_ ∧ _))

/-- A present entry of a table leads to a frame. -/
def Kernel.child (kernel : Kernel) (table index : Nat) : Option Nat :=
  if slot 64 (kernel.memory table) index &&& PTE_P ≠ 0 then
    some (pteFrame (slot 64 (kernel.memory table) index))
  else none

/-- The lower half of the top table belongs to the user. -/
def levelWidth (level : Nat) : Nat := if level = 0 then 256 else 512

/-- The free list holds distinct pages. -/
structure Heap (kernel : Kernel) : Prop where
  start : 0 < kernel.kend
  distinct : kernel.freelist.Nodup
  free : ∀ frame ∈ kernel.freelist, kernel.Allocatable frame

/-- The pages below a root form a tree of allocated pages. A tree of depth 4 has the mapped pages as its
leaves, and a tree of depth 3 has table pages only. -/
structure Table (depth : Nat) (kernel : Kernel) (root : Nat) (tree : List Nat → Option Nat) : Prop where
  lower : 3 ≤ depth
  upper : depth ≤ 4
  radix : Radix depth levelWidth kernel.child root tree
  frames : ∀ {path frame}, tree path = some frame → kernel.Allocatable frame ∧ frame ∉ kernel.freelist

/-- The absent entries of the tables are zero. -/
def Blank (kernel : Kernel) (tree : List Nat → Option Nat) : Prop :=
  ∀ {path table index}, tree path = some table → path.length < 4 → index < levelWidth path.length →
    tree (path ++ [index]) = none → slot 64 (kernel.memory table) index = 0

/-- A step on a table may use the pages of the table and the free pages. -/
def Owned (kernel : Kernel) (tree : List Nat → Option Nat) (frame : Nat) : Prop :=
  frame ∈ kernel.freelist ∨ ∃ path, tree path = some frame

/-- A step keeps the allocatable pages that it does not own, and it does not come to own any of them except
the spare page. -/
structure Evolves (spare : List Nat) (kernel : Kernel) (tree : List Nat → Option Nat) (after : Kernel)
    (grown : List Nat → Option Nat) : Prop where
  kend : after.kend = kernel.kend
  kpdpt : after.kpdpt = kernel.kpdpt
  outside : ∀ frame ∉ spare, kernel.Allocatable frame → ¬Owned kernel tree frame →
    after.memory frame = kernel.memory frame ∧ ¬Owned after grown frame

/-- A growing step keeps the nodes of the tree and the entries of all links that it does not change. -/
structure Grows (spare : List Nat) (kernel : Kernel) (tree : List Nat → Option Nat) (after : Kernel)
    (grown : List Nat → Option Nat) : Prop extends Evolves spare kernel tree after grown where
  keeps : ∀ {path frame}, tree path = some frame → grown path = some frame
  stable : ∀ {path table index}, tree path = some table → path.length < 4 → index < 512 →
    grown (path ++ [index]) = tree (path ++ [index]) →
      slot 64 (after.memory table) index = slot 64 (kernel.memory table) index
  blank : Blank kernel tree → Blank after grown

@[simp] theorem ok_bind {A B : Type} (value : A) (next : A → Except VmHalt B) :
    (Except.ok value >>= next) = next value := rfl

section Frames
variable {kernel k : Kernel} {frame : Nat} {flags : BitVec 64} {table index : Nat}

theorem Kernel.Allocatable.lt (allocatable : k.Allocatable frame) : frame < 0xE000 := by
  have upper := allocatable.2
  simp only [PGSIZE, PHYSTOP] at upper
  omega

theorem Kernel.Allocatable.directMapped (allocatable : k.Allocatable frame) : DirectMapped frame := by
  have := allocatable.lt
  exact .inl (by omega)

theorem Kernel.Allocatable.ne_zero (allocatable : k.Allocatable frame) (start : 0 < k.kend) : frame ≠ 0 := by
  rintro rfl
  have := allocatable.1
  omega

theorem pteOf_toNat (bounded : frame < 0xE000) (small : flags.toNat < PGSIZE) :
    (pteOf frame flags).toNat = frame * PGSIZE + flags.toNat := by
  have fits : frame * 4096 < 2 ^ 64 := by omega
  have split := Nat.two_pow_add_eq_or_of_lt (i := 12) small frame
  rw [pteOf, BitVec.toNat_or, BitVec.toNat_ofNat, PGSIZE, Nat.mod_eq_of_lt fits]
  rw [Nat.mul_comm frame 4096]
  exact split.symm

theorem pteFrame_pteOf (bounded : frame < 0xE000) (small : flags.toNat < PGSIZE) :
    pteFrame (pteOf frame flags) = frame := by
  rw [pteFrame, pteOf_toNat bounded small]
  simp only [PGSIZE] at small ⊢
  omega

/-- The flags of an entry are its low twelve bits. -/
theorem pteOf_and {mask : BitVec 64} (low : mask.toNat < PGSIZE) : pteOf frame flags &&& mask = flags &&& mask := by
  apply BitVec.eq_of_getLsbD_eq
  intro bit inside
  by_cases high : 12 ≤ bit
  · have clear : mask.getLsbD bit = false :=
      Nat.testBit_lt_two_pow (low.trans_le (Nat.pow_le_pow_right (n := 2) (by decide) high))
    simp [clear]
  · have clear : (frame * 2 ^ 12).testBit bit = false := by
      rw [Nat.testBit_mul_two_pow]
      simp [high]
    have address : (BitVec.ofNat 64 (frame * PGSIZE)).getLsbD bit = false := by
      rw [BitVec.getLsbD_ofNat, PGSIZE, show (4096 : Nat) = 2 ^ 12 from rfl, clear, Bool.and_false]
    simp [pteOf, address]

theorem setPage_memory_ne {other : Nat} (ne : other ≠ frame) (page : Page) :
    (k.setPage frame page).memory other = k.memory other := Function.update_of_ne ne _ _

theorem loadEntry_ok (mapped : DirectMapped frame) (index : Nat) :
    k.loadEntry frame index = .ok (slot 64 (k.memory frame) index) := if_pos mapped

theorem storePage_ok (mapped : DirectMapped frame) (page : Page) :
    k.storePage frame page = .ok (k.setPage frame page) := if_pos mapped

/-- A store through a mapped table replaces one entry. -/
def Kernel.setEntry (kernel : Kernel) (table index : Nat) (pte : BitVec 64) : Kernel :=
  kernel.setPage table (setSlot (kernel.memory table) index pte)

theorem storeEntry_ok (mapped : DirectMapped frame) (index : Nat) (pte : BitVec 64) :
    k.storeEntry frame index pte = .ok (k.setEntry frame index pte) := storePage_ok mapped _

theorem kfree_ok (allocatable : k.Allocatable frame) : k.kfree frame =
      .ok {k.setPage frame Kernel.junkPage with freelist := frame :: k.freelist} := by
  have inside : ¬(frame * PGSIZE < k.kend ∨ frame * PGSIZE ≥ PHYSTOP) := by
    have := allocatable.1
    have := allocatable.2
    omega
  rw [Kernel.kfree, if_neg inside]

/-- The store changes one entry of one table. -/
theorem slot_setEntry (bounded : index < 512) (pte : BitVec 64) (node other : Nat) :
    slot 64 ((k.setEntry table index pte).memory node) other =
      if node = table ∧ other = index then pte else slot 64 (k.memory node) other := by
  simp only [Kernel.setEntry, Kernel.setPage, Function.update_apply]
  by_cases same : node = table
  · subst same
    rw [if_pos rfl]
    by_cases place : other = index
    · subst place
      rw [if_pos ⟨rfl, rfl⟩]
      exact slot_setSlot_same _ _ _ (by simp only [PGSIZE]; omega)
    · rw [if_neg fun both => place both.2]
      exact slot_setSlot_ne _ _ _ _ place
  · rw [if_neg same, if_neg fun both => same both.1]

theorem child_congr {after : Kernel} (same : slot 64 (after.memory table) index = slot 64 (k.memory table) index) :
    after.child table index = k.child table index := by
  simp only [Kernel.child, same]

theorem child_of_entry (bounded : page < 0xE000) (small : flags.toNat < PGSIZE) (present : flags &&& PTE_P ≠ 0)
    (entry : slot 64 (k.memory table) index = pteOf page flags) : k.child table index = some page := by
  have low : PTE_P.toNat < PGSIZE := by decide
  rw [Kernel.child, entry, pteOf_and low, if_pos present, pteFrame_pteOf bounded small]

theorem child_of_zero (entry : slot 64 (k.memory table) index = 0) : k.child table index = none := by
  rw [Kernel.child, entry]
  rfl

end Frames

theorem levelWidth_le (level : Nat) : levelWidth level ≤ 512 := by
  unfold levelWidth
  split <;> omega

section Relations
variable {spare : List Nat} {first second third : Kernel} {tree grown final : List Nat → Option Nat}

theorem Evolves.allocatable (evolves : Evolves spare first tree second grown) (frame : Nat) :
    second.Allocatable frame ↔ first.Allocatable frame := by
  rw [Kernel.Allocatable, Kernel.Allocatable, evolves.kend]

theorem Evolves.trans (early : Evolves spare first tree second grown) (late : Evolves spare second grown third final) :
    Evolves spare first tree third final where
  kend := late.kend.trans early.kend
  kpdpt := late.kpdpt.trans early.kpdpt
  outside := by
    intro frame foreign allocatable unowned
    obtain ⟨same, apart⟩ := early.outside frame foreign allocatable unowned
    obtain ⟨again, still⟩ := late.outside frame foreign ((early.allocatable frame).mpr allocatable) apart
    exact ⟨again.trans same, still⟩

theorem Grows.trans (early : Grows spare first tree second grown) (late : Grows spare second grown third final) :
    Grows spare first tree third final where
  toEvolves := early.toEvolves.trans late.toEvolves
  keeps found := late.keeps (early.keeps found)
  stable := by
    intro path table index found deep bounded same
    have between : grown (path ++ [index]) = tree (path ++ [index]) := by
      cases old : tree (path ++ [index]) with
      | some frame => exact early.keeps old
      | none =>
        cases middle : grown (path ++ [index]) with
        | none => rfl
        | some frame =>
          rw [old, late.keeps middle] at same
          cases same
    have step := late.stable (early.keeps found) deep bounded (same.trans between.symm)
    exact step.trans (early.stable found deep bounded between)
  blank clear := late.blank (early.blank clear)

theorem Grows.refl (k : Kernel) (tree : List Nat → Option Nat) : Grows spare k tree k tree where
  kend := rfl
  kpdpt := rfl
  outside _ _ _ unowned := ⟨rfl, unowned⟩
  keeps found := found
  stable _ _ _ _ := rfl
  blank clear := clear

/-- A spare page that was owned at the beginning may be linked at the end. -/
theorem Evolves.absorb (early : Evolves [] first tree second grown) (owned : Owned first tree page)
    (late : Evolves [page] second grown third final) : Evolves [] first tree third final where
  kend := late.kend.trans early.kend
  kpdpt := late.kpdpt.trans early.kpdpt
  outside := by
    intro frame foreign allocatable unowned
    obtain ⟨same, apart⟩ := early.outside frame foreign allocatable unowned
    have ne : frame ∉ [page] := by
      rw [List.mem_singleton]
      rintro rfl
      exact unowned owned
    obtain ⟨again, still⟩ := late.outside frame ne ((early.allocatable frame).mpr allocatable) apart
    exact ⟨again.trans same, still⟩

theorem Evolves.weaken (evolves : Evolves [] first tree second grown) : Evolves spare first tree second grown where
  kend := evolves.kend
  kpdpt := evolves.kpdpt
  outside frame _ := evolves.outside frame List.not_mem_nil

theorem Grows.absorb (early : Grows [] first tree second grown) (owned : Owned first tree page)
    (late : Grows [page] second grown third final) : Grows [] first tree third final := by
  have widened : Grows [page] first tree second grown := {early with toEvolves := early.toEvolves.weaken}
  exact {widened.trans late with toEvolves := early.toEvolves.absorb owned late.toEvolves}

/-- The first page of the free list is owned until it is taken. -/
theorem owned_take {rest : List Nat} (free : first.freelist = page :: rest) (left : second.freelist = rest)
    (frame : Nat) : Owned first tree frame ↔ frame = page ∨ Owned second tree frame := by
  rw [Owned, Owned, free, left, List.mem_cons, or_assoc]

/-- A linked page is owned. -/
theorem owned_link {place : List Nat} (vacant : tree place = none) (table index : Nat) (pte : BitVec 64)
    (page frame : Nat) :
    Owned (first.setEntry table index pte) (Function.update tree place (some page)) frame ↔
      frame = page ∨ Owned first tree frame := by
  refine Iff.trans (or_congr_right ?_) or_left_comm
  constructor
  · rintro ⟨path, found⟩
    rw [Function.update_apply] at found
    split at found
    · exact .inl (Option.some.inj found).symm
    · exact .inr ⟨path, found⟩
  · rintro (rfl | ⟨path, found⟩)
    · exact ⟨place, Function.update_self _ _ _⟩
    · refine ⟨path, ?_⟩
      rw [Function.update_of_ne, found]
      rintro rfl
      rw [vacant] at found
      cases found

/-- A step on one table keeps every other table. -/
theorem Table.other {depth root : Nat} {theirs : List Nat → Option Nat} (table : Table depth first root theirs)
    (apart : ∀ {path frame}, theirs path = some frame → ¬Owned first tree frame)
    (evolves : Evolves [] first tree second grown) :
    Table depth second root theirs ∧ ∀ {path frame}, theirs path = some frame → ¬Owned second grown frame := by
  have kept : ∀ {path frame}, theirs path = some frame →
      second.memory frame = first.memory frame ∧ ¬Owned second grown frame := fun found =>
    evolves.outside _ List.not_mem_nil (table.frames found).1 (apart found)
  refine ⟨⟨table.lower, table.upper, ?_, ?_⟩, fun found => (kept found).2⟩
  · refine table.radix.congr fun found _ _ => child_congr ?_
    rw [(kept found).1]
  · intro path frame found
    refine ⟨(evolves.allocatable frame).mpr (table.frames found).1, fun free => ?_⟩
    exact (kept found).2 (.inl free)

end Relations
end Xv6
