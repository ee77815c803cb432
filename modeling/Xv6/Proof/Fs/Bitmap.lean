import Xv6.Construction.Fs

namespace Xv6
open Library Function List Nat
variable {b c : BlockNo}

/-- The first data block follows the metadata. -/
def Superblock.dataStart (sb : Superblock) : Nat := sb.size.toNat - sb.nblocks.toNat

/-- The blocks stand in the order boot block, super block, log, inodes, free map, data. -/
structure Superblock.Layout (sb : Superblock) : Prop where
  super : 2 ≤ sb.inodestart.toNat
  inodes : sb.inodestart.toNat + (sb.ninodes.toNat + IPB - 1) / IPB ≤ sb.bmapstart.toNat
  bitmap : sb.bmapstart.toNat + (sb.size.toNat + BPB - 1) / BPB ≤ sb.dataStart

variable {sb : Superblock} {disk after : Disk} {data : Block} {fs : Fs}

theorem Superblock.dataStart_le (sb : Superblock) : sb.dataStart ≤ sb.size.toNat := sub_le ..

namespace Superblock.Layout
variable {inum : Nat}

theorem toNat_BBLOCK (layout : sb.Layout) {b : Nat} (inside : b < sb.size.toNat) :
    (BBLOCK b sb).toNat = b / BPB + sb.bmapstart.toNat := by
  have size := sb.size.isLt
  have bitmap := layout.bitmap
  have total := sb.dataStart_le
  simp only [BPB, BSIZE] at bitmap ⊢
  rw [BBLOCK, BitVec.toNat_add, BitVec.toNat_ofNat, BPB, BSIZE]
  omega

theorem toNat_IBLOCK (layout : sb.Layout) (inside : inum < sb.ninodes.toNat) :
    (IBLOCK inum sb).toNat = inum / IPB + sb.inodestart.toNat := by
  have size := sb.size.isLt
  have inodes := layout.inodes
  have bitmap := layout.bitmap
  have total := sb.dataStart_le
  simp only [IPB, BSIZE, dinodeSize] at inodes ⊢
  rw [IBLOCK, BitVec.toNat_add, BitVec.toNat_ofNat, IPB, BSIZE, dinodeSize]
  omega

/-- The free map lies between the inodes and the data. -/
theorem BBLOCK_bounds (layout : sb.Layout) {b : Nat} (inside : b < sb.size.toNat) :
    sb.bmapstart.toNat ≤ (BBLOCK b sb).toNat ∧ (BBLOCK b sb).toNat < sb.dataStart := by
  have bitmap := layout.bitmap
  rw [layout.toNat_BBLOCK inside]
  simp only [BPB, BSIZE] at bitmap ⊢
  omega

/-- The inodes lie between the super block and the free map. -/
theorem IBLOCK_bounds (layout : sb.Layout) (inside : inum < sb.ninodes.toNat) :
    2 ≤ (IBLOCK inum sb).toNat ∧ (IBLOCK inum sb).toNat < sb.bmapstart.toNat := by
  have inodes := layout.inodes
  have super := layout.super
  rw [layout.toNat_IBLOCK inside]
  simp only [IPB, BSIZE, dinodeSize] at inodes ⊢
  omega

end Superblock.Layout

theorem bitMask_getLsbD (bi bit : Nat) : (bitMask bi).getLsbD bit = decide (bit = bi % 8) := by
  rw [bitMask, BitVec.getLsbD_shiftLeft]
  have small : bi % 8 < 8 := mod_lt _ (by decide)
  rcases lt_trichotomy bit (bi % 8) with below | same | above
  · simp [below, Nat.ne_of_lt below]
  · simp [same, small]
  · have gap : bit - bi % 8 ≠ 0 := by omega
    simp [ne_of_gt above, gap]

/-- The test of a byte against the mask reads one bit of the block. -/
theorem bitClear_eq (data : Block) (bi : Nat) : bitClear data bi = !data.getLsbD bi := by
  have split : 8 * (bi / 8) + bi % 8 = bi := div_add_mod bi 8
  have small : bi % 8 < 8 := mod_lt _ (by decide)
  have bits : ∀ bit, (slot 8 data (bi / 8) &&& bitMask bi).getLsbD bit =
      (data.getLsbD bi && decide (bit = bi % 8)) := by
    intro bit
    rw [BitVec.getLsbD_and, slot_getLsbD, bitMask_getLsbD]
    by_cases same : bit = bi % 8
    · subst same
      simp [small, split]
    · simp [same]
  rw [bitClear]
  cases value : data.getLsbD bi with
  | true =>
    simp only [Bool.not_true, decide_eq_false_iff_not]
    intro zero
    have bit := bits (bi % 8)
    rw [zero, value] at bit
    simp at bit
  | false =>
    simp only [Bool.not_false, decide_eq_true_eq]
    apply BitVec.eq_of_getLsbD_eq
    intro bit _
    rw [bits, value]
    simp

/-- The position of a bit inside of its byte. -/
theorem byte_iff (bi bit : Nat) : 8 * (bi / 8) ≤ bit ∧ bit < 8 * (bi / 8) + 8 ↔ bit / 8 = bi / 8 := by
  omega

theorem setBit_getLsbD (data : Block) (bi bit : Nat) (inside : bit < BPB) :
    (setBit data bi).getLsbD bit = (data.getLsbD bit || decide (bit = bi)) := by
  rw [setBit, setSlot_getLsbD _ _ _ _ (by simpa [BPB, mul_comm] using inside)]
  split
  case isTrue same =>
    rw [byte_iff] at same
    have offset : 8 * (bi / 8) + (bit - 8 * (bi / 8)) = bit := by omega
    have small : bit - 8 * (bi / 8) < 8 := by omega
    have equal : bit - 8 * (bi / 8) = bi % 8 ↔ bit = bi := by omega
    rw [BitVec.getLsbD_or, slot_getLsbD, bitMask_getLsbD, offset]
    simp [small, equal]
  case isFalse apart =>
    rw [byte_iff] at apart
    have ne : bit ≠ bi := fun same => apart (same ▸ rfl)
    simp [ne]

theorem clearBit_getLsbD (data : Block) (bi bit : Nat) (inside : bit < BPB) :
    (clearBit data bi).getLsbD bit = (data.getLsbD bit && decide (bit ≠ bi)) := by
  rw [clearBit, setSlot_getLsbD _ _ _ _ (by simpa [BPB, mul_comm] using inside)]
  split
  case isTrue same =>
    rw [byte_iff] at same
    have offset : 8 * (bi / 8) + (bit - 8 * (bi / 8)) = bit := by omega
    have small : bit - 8 * (bi / 8) < 8 := by omega
    have equal : bit - 8 * (bi / 8) = bi % 8 ↔ bit = bi := by omega
    rw [BitVec.getLsbD_and, BitVec.getLsbD_not, slot_getLsbD, bitMask_getLsbD, offset]
    simp [small, equal]
  case isFalse apart =>
    rw [byte_iff] at apart
    have ne : bit ≠ bi := fun same => apart (same ▸ rfl)
    simp [ne]

/-- The bit of a block is set in the free map. -/
def Used (sb : Superblock) (disk : Disk) (b : BlockNo) : Prop :=
  (disk (BBLOCK b.toNat sb)).getLsbD (b.toNat % BPB) = true

instance (sb : Superblock) (disk : Disk) (b : BlockNo) : Decidable (Used sb disk b) :=
  inferInstanceAs (Decidable (_ = true))

/-- The block is outside of the free map. -/
def Unmapped (sb : Superblock) (b : BlockNo) : Prop := b.toNat < sb.bmapstart.toNat ∨ sb.dataStart ≤ b.toNat

/-- Two blocks with bits in the same block at the same position are equal. -/
theorem bit_injective (layout : sb.Layout) (inside : b.toNat < sb.size.toNat) (within : c.toNat < sb.size.toNat)
    (block : BBLOCK b.toNat sb = BBLOCK c.toNat sb) (bit : b.toNat % BPB = c.toNat % BPB) : b = c := by
  have number := congrArg BitVec.toNat block
  rw [layout.toNat_BBLOCK inside, layout.toNat_BBLOCK within] at number
  apply BitVec.eq_of_toNat_eq
  rw [← div_add_mod b.toNat BPB, ← div_add_mod c.toNat BPB, bit, add_right_cancel number]

/-- A change of one bit of the free map changes the use of one block. -/
theorem used_update (layout : sb.Layout) (inside : b.toNat < sb.size.toNat) {block : Block} (value : Bool)
    (others : ∀ bit < BPB, bit ≠ b.toNat % BPB → block.getLsbD bit = (disk (BBLOCK b.toNat sb)).getLsbD bit)
    (own : block.getLsbD (b.toNat % BPB) = value) (within : c.toNat < sb.size.toNat) :
    Used sb (update disk (BBLOCK b.toNat sb) block) c ↔ if c = b then value = true else Used sb disk c := by
  have small : c.toNat % BPB < BPB := mod_lt _ (by decide)
  split
  · next same =>
      subst same
      rw [Used, update_self, own]
  · next ne =>
      rw [Used, Used]
      by_cases shared : BBLOCK c.toNat sb = BBLOCK b.toNat sb
      · rw [shared, update_self, others _ small]
        intro bit
        exact ne (bit_injective layout within inside shared bit)
      · rw [update_of_ne shared]

/-- A write outside of the free map does not change it. -/
theorem used_write (layout : sb.Layout) (unmapped : Unmapped sb c) (data : Block) (inside : b.toNat < sb.size.toNat)
    : Used sb (update disk c data) b ↔ Used sb disk b := by
  have bounds := layout.BBLOCK_bounds inside
  have block : BBLOCK b.toNat sb ≠ c := by
    rintro rfl
    rcases unmapped with below | above <;> omega
  rw [Used, Used, update_of_ne block]

/-- The number of free blocks. -/
def freeCount (sb : Superblock) (disk : Disk) : Nat :=
  ((Finset.range sb.size.toNat).filter fun b => ¬Used sb disk (BitVec.ofNat 32 b)).card

theorem toNat_ofNat_of_lt {b : Nat} (inside : b < sb.size.toNat) : (BitVec.ofNat 32 b).toNat = b := by
  have size := sb.size.isLt
  rw [BitVec.toNat_ofNat]
  exact mod_eq_of_lt (by omega)

theorem freeCount_congr (same : ∀ b : BlockNo, b.toNat < sb.size.toNat → (Used sb after b ↔ Used sb disk b)) :
    freeCount sb after = freeCount sb disk := by
  rw [freeCount, freeCount]
  congr 1
  apply Finset.filter_congr
  intro b inside
  rw [same _ (by rw [toNat_ofNat_of_lt (Finset.mem_range.mp inside)]; exact Finset.mem_range.mp inside)]

theorem freeCount_eq_zero (full : ∀ b : BlockNo, b.toNat < sb.size.toNat → Used sb disk b) : freeCount sb disk = 0 := by
  rw [freeCount, Finset.card_eq_zero, Finset.filter_eq_empty_iff]
  intro b inside free
  rw [Finset.mem_range] at inside
  exact free (full _ (by rwa [toNat_ofNat_of_lt inside]))

/-- A new block was free and is now used and zero. Only the free map and the new block have changed. -/
structure Allocated (sb : Superblock) (disk after : Disk) (b : BlockNo) : Prop where
  inside : b.toNat < sb.size.toNat
  free : ¬Used sb disk b
  used : ∀ c, c.toNat < sb.size.toNat → (Used sb after c ↔ Used sb disk c ∨ c = b)
  zero : after b = 0
  frame : ∀ c, c ≠ b → Unmapped sb c → after c = disk c

theorem Allocated.freeCount_eq (allocated : Allocated sb disk after b) :
    freeCount sb disk = freeCount sb after + 1 := by
  have number : BitVec.ofNat 32 b.toNat = b := by rw [BitVec.ofNat_toNat, BitVec.setWidth_eq]
  have erased : ((Finset.range sb.size.toNat).filter fun c => ¬Used sb after (BitVec.ofNat 32 c)) =
      ((Finset.range sb.size.toNat).filter fun c => ¬Used sb disk (BitVec.ofNat 32 c)).erase b.toNat := by
    ext c
    rw [Finset.mem_erase, Finset.mem_filter, Finset.mem_filter, Finset.mem_range]
    by_cases inside : c < sb.size.toNat
    · have same := toNat_ofNat_of_lt inside
      have equal : BitVec.ofNat 32 c = b ↔ c = b.toNat := by
        constructor
        · rintro rfl
          exact same.symm
        · rintro rfl
          exact number
      rw [allocated.used _ (by rw [same]; exact inside), equal]
      tauto
    · simp [inside]
  have member : b.toNat ∈ (Finset.range sb.size.toNat).filter fun c => ¬Used sb disk (BitVec.ofNat 32 c) := by
    rw [Finset.mem_filter, Finset.mem_range, number]
    exact ⟨allocated.inside, allocated.free⟩
  rw [freeCount, freeCount, erased, Finset.card_erase_add_one member]

/-- A block has become free. Only the free map has changed. -/
structure Released (sb : Superblock) (disk after : Disk) (b : BlockNo) : Prop where
  used : ∀ c, c.toNat < sb.size.toNat → (Used sb after c ↔ Used sb disk c ∧ c ≠ b)
  frame : ∀ c, Unmapped sb c → after c = disk c

/-- The metadata blocks are used. -/
def Reserved (sb : Superblock) (disk : Disk) : Prop := ∀ b : BlockNo, b.toNat < sb.dataStart → Used sb disk b

namespace Fs

theorem BBLOCK_map (map bi : Nat) (small : bi < BPB) (sb : Superblock) :
    BBLOCK (map * BPB + bi) sb = BBLOCK (map * BPB) sb := by
  have positive : 0 < BPB := by decide
  rw [BBLOCK, BBLOCK, Nat.mul_div_cancel _ positive, Nat.mul_comm, Nat.mul_add_div positive, Nat.div_eq_of_lt small,
    add_zero]

/-- The loops test the bit of a block. -/
theorem bitClear_used {map bi : Nat} (small : bi < BPB) (inside : map * BPB + bi < fs.sb.size.toNat) :
    bitClear (fs.disk (BBLOCK (map * BPB) fs.sb)) bi = !decide (Used fs.sb fs.disk (BitVec.ofNat 32 (map * BPB + bi))) := by
  simp only [bitClear_eq, Used, toNat_ofNat_of_lt inside, BBLOCK_map map bi small, mul_add_mod_of_lt small,
    Bool.decide_eq_true]

/-- The inner loop finds the first clear bit of a block of the free map. -/
theorem freeBit_eq_some {map bi : Nat} (found : fs.freeBit (map * BPB) = some bi) :
    bi < BPB ∧ map * BPB + bi < fs.sb.size.toNat ∧ ¬Used fs.sb fs.disk (BitVec.ofNat 32 (map * BPB + bi)) ∧
      ∀ bit < bi, Used fs.sb fs.disk (BitVec.ofNat 32 (map * BPB + bit)) := by
  rw [freeBit, find?_range_eq_some, mem_range] at found
  obtain ⟨clear, inside, before⟩ := found
  rw [bitClear_used (by omega) (by omega)] at clear
  refine ⟨by omega, by omega, by simpa using clear, ?_⟩
  intro bit earlier
  have set := before bit earlier
  rw [bitClear_used (by omega) (by omega)] at set
  simpa using set

theorem freeBit_eq_none {b : Nat} (full : fs.freeBit (b / BPB * BPB) = none) (inside : b < fs.sb.size.toNat) :
    Used fs.sb fs.disk (BitVec.ofNat 32 b) := by
  have small : b % BPB < BPB := mod_lt _ (by decide)
  have split : b / BPB * BPB + b % BPB = b := div_add_mod' ..
  rw [freeBit, find?_eq_none] at full
  have bit := full (b % BPB) (mem_range.mpr (by omega))
  rw [bitClear_used small (by omega), split] at bit
  simpa using bit

/-- The loops find the first free block, or all blocks are used. -/
theorem freeBlock_spec (fs : Fs) :
    (∃ b, fs.freeBlock = some b ∧ b < fs.sb.size.toNat ∧ ¬Used fs.sb fs.disk (BitVec.ofNat 32 b) ∧
      ∀ c < b, Used fs.sb fs.disk (BitVec.ofNat 32 c)) ∨
      fs.freeBlock = none ∧ ∀ b : BlockNo, b.toNat < fs.sb.size.toNat → Used fs.sb fs.disk b := by
  have positive : 0 < BPB := by decide
  cases found : fs.freeBlock with
  | some b =>
    left
    rw [freeBlock, findSome?_eq_some_iff] at found
    obtain ⟨before, map, after, split, inner, earlier⟩ := found
    obtain ⟨bi, bit, rfl⟩ := Option.map_eq_some_iff.mp inner
    obtain ⟨small, inside, clear, first⟩ := freeBit_eq_some bit
    refine ⟨_, rfl, inside, clear, ?_⟩
    intro c below
    have number : c / BPB * BPB + c % BPB = c := div_add_mod' ..
    have order := @pairwise_lt_range ((fs.sb.size.toNat + BPB - 1) / BPB)
    have member : c / BPB ∈ range ((fs.sb.size.toNat + BPB - 1) / BPB) := by
      rw [mem_range, lt_div_iff_mul_lt positive]
      omega
    rw [split, mem_append, mem_cons] at member
    rw [split, pairwise_append, pairwise_cons] at order
    rcases member with before | same | later
    · exact freeBit_eq_none (Option.map_eq_none_iff.mp (earlier _ before)) (by omega)
    · rw [← number, same]
      exact first _ (by rw [same] at number; omega)
    · have past := Nat.mul_le_mul_right BPB (succ_le_of_lt (order.2.1.1 _ later))
      rw [succ_mul] at past
      omega
  | none =>
    refine .inr ⟨rfl, ?_⟩
    intro b inside
    rw [freeBlock, findSome?_eq_none_iff] at found
    have map : b.toNat / BPB ∈ range ((fs.sb.size.toNat + BPB - 1) / BPB) := by
      have split : b.toNat / BPB * BPB + b.toNat % BPB = b.toNat := div_add_mod' ..
      rw [mem_range, lt_div_iff_mul_lt positive]
      omega
    have used := freeBit_eq_none (Option.map_eq_none_iff.mp (found _ map)) inside
    rwa [BitVec.ofNat_toNat, BitVec.setWidth_eq] at used

/-- The call returns a new block, or there is none. -/
theorem wp_balloc (layout : fs.sb.Layout) (reserved : Reserved fs.sb fs.disk) :
    wp balloc (fun b next => next.sb = fs.sb ∧ next.icache = fs.icache ∧ Allocated fs.sb fs.disk next.disk b)
      (fun panic => panic = .outOfBlocks ∧ ∀ b : BlockNo, b.toNat < fs.sb.size.toNat → Used fs.sb fs.disk b) fs := by
  rw [balloc, wp_bind, wp_get]
  rcases freeBlock_spec fs with ⟨number, found, inside, free, _⟩ | ⟨found, full⟩
  · have same := toNat_ofNat_of_lt inside
    simp only [found, bzero, wp_bind, wp_modify, wp_pure]
    refine ⟨rfl, rfl, ?_⟩
    generalize BitVec.ofNat 32 number = b at same free ⊢
    subst same
    have data : fs.sb.dataStart ≤ b.toNat := by
      by_contra low
      exact free (reserved b (by omega))
    have apart : ∀ c : BlockNo, c.toNat < fs.sb.size.toNat → BBLOCK c.toNat fs.sb ≠ b := by
      intro c within same
      have bounds := layout.BBLOCK_bounds within
      rw [same] at bounds
      omega
    refine ⟨inside, free, ?_, update_self .., ?_⟩
    · intro c within
      have kept : Used fs.sb (update (update fs.disk (BBLOCK b.toNat fs.sb)
          (setBit (fs.disk (BBLOCK b.toNat fs.sb)) (b.toNat % BPB))) b 0) c ↔
          Used fs.sb (update fs.disk (BBLOCK b.toNat fs.sb)
            (setBit (fs.disk (BBLOCK b.toNat fs.sb)) (b.toNat % BPB))) c := by
        rw [Used, Used, update_of_ne (apart c within)]
      refine kept.trans ((used_update layout inside true ?_ ?_ within).trans ?_)
      · intro bit small ne
        rw [setBit_getLsbD _ _ _ small]
        simp [ne]
      · rw [setBit_getLsbD _ _ _ (mod_lt _ (by decide))]
        simp
      · split <;> simp [*]
    · intro c ne unmapped
      have bounds := layout.BBLOCK_bounds inside
      have block : c ≠ BBLOCK b.toNat fs.sb := by
        rintro rfl
        rcases unmapped with below | above <;> omega
      change update (update fs.disk _ _) b 0 c = fs.disk c
      rw [update_of_ne ne, update_of_ne block]
  · rw [found]
    exact ⟨rfl, full⟩

theorem wp_bfree (layout : fs.sb.Layout) (super : .parse (fs.disk 1) = fs.sb) (inside : b.toNat < fs.sb.size.toNat)
    (used : Used fs.sb fs.disk b) :
    wp (bfree b) (fun _ next => next.sb = fs.sb ∧ next.icache = fs.icache ∧ Released fs.sb fs.disk next.disk b)
      (fun _ => False) fs := by
  simp only [bfree, readsb, wp_bind, wp_modify, wp_get, super]
  rw [if_neg]
  · rw [wp_modify]
    refine ⟨rfl, rfl, ?_, ?_⟩
    · intro c within
      refine (used_update layout inside false ?_ ?_ within).trans ?_
      · intro bit small ne
        rw [clearBit_getLsbD _ _ _ small]
        simp [ne]
      · rw [clearBit_getLsbD _ _ _ (mod_lt _ (by decide))]
        simp
      · split <;> simp [*]
    · intro c unmapped
      have bounds := layout.BBLOCK_bounds inside
      have block : c ≠ BBLOCK b.toNat fs.sb := by
        rintro rfl
        rcases unmapped with below | above <;> omega
      exact update_of_ne block ..
  · rw [bitClear_eq, Bool.not_eq_true', Bool.not_eq_false]
    exact used

end Fs
end Xv6
