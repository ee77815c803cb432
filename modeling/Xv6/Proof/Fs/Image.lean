import Xv6.Proof.Fs.Inodes

namespace Xv6
open Library Function Dinode
variable {c : BlockNo} {next : Nat → Dinode} {place : Nat × Nat}

/-- The block number zero stands for no block. -/
def mapped (b : BlockNo) : Option BlockNo := if b = 0 then none else some b

theorem mapped_eq_some {b : BlockNo} : mapped b = some c ↔ b = c ∧ c ≠ 0 := by
  rw [mapped]
  split
  · next zero =>
      constructor
      · exact nofun
      · rintro ⟨rfl, nonzero⟩
        exact absurd zero nonzero
  · next nonzero =>
      rw [Option.some.injEq]
      constructor
      · rintro rfl
        exact ⟨rfl, nonzero⟩
      · exact And.left

namespace Dinode

/-- The number of the indirect block. -/
def indirect (dinode : Dinode) : BlockNo := dinode.addrs (Fin.last NDIRECT)

/-- The units of an inode are the direct blocks, the indirect block and the blocks of its entries. -/
def unit (dinode : Dinode) (disk : Disk) (index : Nat) : BlockNo :=
  if direct : index < NDIRECT + 1 then dinode.addrs ⟨index, direct⟩
  else if dinode.indirect = 0 then 0
  else slot 32 (disk dinode.indirect) (index - (NDIRECT + 1))

/-- The inode has exactly the first units. -/
def Filled (dinode : Dinode) (disk : Disk) (units : Nat) : Prop := ∀ index, dinode.unit disk index ≠ 0 ↔ index < units

/-- Two inodes have the same type and blocks. -/
structure Alike (dinode other : Dinode) : Prop where
  type : dinode.type = other.type
  addrs : dinode.addrs = other.addrs

def setAddr (dinode : Dinode) (index : Fin (NDIRECT + 1)) (addr : BlockNo) : Dinode :=
  {dinode with addrs := Function.update dinode.addrs index addr}

variable {dinode : Dinode} {disk after : Disk} {units index : Nat}

@[simp] theorem setAddr_addrs (dinode : Dinode) (index : Fin (NDIRECT + 1)) (addr : BlockNo) :
    (dinode.setAddr index addr).addrs = update dinode.addrs index addr := rfl

theorem unit_direct (direct : index < NDIRECT + 1) : dinode.unit disk index = dinode.addrs ⟨index, direct⟩ :=
  dif_pos direct

theorem unit_indirect (dinode : Dinode) (disk : Disk) : dinode.unit disk NDIRECT = dinode.indirect := unit_direct (Nat.lt_succ_self _)

theorem unit_entry (entry : NDIRECT + 1 ≤ index) (present : dinode.indirect ≠ 0) :
    dinode.unit disk index = slot 32 (disk dinode.indirect) (index - (NDIRECT + 1)) := by
  rw [unit, dif_neg (by omega), if_neg present]

theorem unit_congr (same : dinode.indirect ≠ 0 → after dinode.indirect = disk dinode.indirect) :
    dinode.unit after index = dinode.unit disk index := by
  rw [unit, unit]
  split
  · rfl
  · split
    · rfl
    · next present => rw [same present]

theorem unit_setAddr_direct (direct : index < NDIRECT + 1) (slot : Fin (NDIRECT + 1)) (addr : BlockNo) :
    (dinode.setAddr slot addr).unit disk index = if index = slot then addr else dinode.unit disk index := by
  rw [unit_direct direct, unit_direct direct, setAddr_addrs, update_apply]
  simp only [Fin.ext_iff]

theorem unit_empty (empty : ∀ slot, dinode.addrs slot = 0) : dinode.unit disk index = 0 := by
  have none : dinode.indirect = 0 := empty _
  rw [unit, if_pos none]
  split
  · exact empty _
  · rfl

theorem Alike.unit_eq {other : Dinode} (alike : dinode.Alike other) : dinode.unit disk index = other.unit disk index := by
  rw [unit, unit, indirect, indirect, alike.addrs]

theorem Filled.eq_zero (filled : dinode.Filled disk units) (beyond : units ≤ index) : dinode.unit disk index = 0 := by
  by_contra nonzero
  have := (filled index).mp nonzero
  omega

end Dinode

/-- The block at a place. A place is an inode and the index of one of its units. -/
def held (sb : Superblock) (disk : Disk) (table : Nat → Dinode) (place : Nat × Nat) : Option BlockNo :=
  if place.1 < sb.ninodes.toNat ∧ (table place.1).type ≠ 0 then mapped ((table place.1).unit disk place.2) else none

/-- The free map marks exactly the metadata and the blocks of the places, and no block is at two places. -/
structure Blocks (sb : Superblock) (disk : Disk) (holds : Nat × Nat → Option BlockNo) : Prop where
  layout : sb.Layout
  super : Superblock.parse (disk 1) = sb
  owned : Owned (fun b => b.toNat < sb.size.toNat) (fun b => b.toNat < sb.dataStart) (Used sb disk) holds

/-- Moreover, each inode has exactly its first units. -/
structure FsImage (sb : Superblock) (disk : Disk) (table : Nat → Dinode) (units : Nat → Nat) : Prop extends
    Blocks sb disk (held sb disk table) where
  filled : ∀ inum < sb.ninodes.toNat, (table inum).type ≠ 0 → (table inum).Filled disk (units inum)

variable {sb : Superblock} {disk after : Disk} {table : Nat → Dinode} {units : Nat → Nat} {inum index : Nat}
  {b : BlockNo} {holds : Nat × Nat → Option BlockNo}

theorem held_eq_some : held sb disk table (inum, index) = some b ↔
    inum < sb.ninodes.toNat ∧ (table inum).type ≠ 0 ∧ (table inum).unit disk index = b ∧ b ≠ 0 := by
  rw [held]
  split
  · next allocated =>
      rw [mapped_eq_some]
      exact ⟨fun here => ⟨allocated.1, allocated.2, here⟩, fun here => here.2.2⟩
  · next free =>
      constructor
      · exact nofun
      · rintro ⟨inside, type, _⟩
        exact absurd ⟨inside, type⟩ free

theorem held_congr (same : ∀ inum < sb.ninodes.toNat, (table inum).type ≠ 0 → (table inum).indirect ≠ 0 →
    after (table inum).indirect = disk (table inum).indirect) : held sb after table = held sb disk table := by
  funext place
  rw [held, held]
  split
  · next allocated => rw [unit_congr (same place.1 allocated.1 allocated.2)]
  · rfl

theorem held_table (alike : ∀ inum < sb.ninodes.toNat, (next inum).Alike (table inum)) :
    held sb disk next = held sb disk table := by
  funext place
  rw [held, held]
  by_cases inside : place.1 < sb.ninodes.toNat
  · rw [(alike place.1 inside).type, (alike place.1 inside).unit_eq]
  · simp [inside]

theorem Blocks.reserved (blocks : Blocks sb disk holds) : Reserved sb disk := by
  intro b low
  have total := sb.dataStart_le
  exact (blocks.owned.exactly b (by omega)).mpr (.inl low)

theorem Blocks.data (blocks : Blocks sb disk holds) (here : holds place = some b) :
    sb.dataStart ≤ b.toNat ∧ b.toNat < sb.size.toNat := by
  obtain ⟨inside, reserved⟩ := blocks.owned.proper place b here
  exact ⟨Nat.le_of_not_lt reserved, inside⟩

theorem Superblock.Layout.unmapped_super (layout : sb.Layout) : Unmapped sb 1 := by
  refine .inl ?_
  calc 1 < sb.inodestart.toNat := layout.super
    _ ≤ sb.bmapstart.toNat := (Nat.le_add_right ..).trans layout.inodes

theorem Superblock.Layout.super_low (layout : sb.Layout) : 1 < sb.dataStart := by
  calc 1 < sb.inodestart.toNat := layout.super
    _ ≤ sb.bmapstart.toNat := (Nat.le_add_right ..).trans layout.inodes
    _ ≤ sb.dataStart := (Nat.le_add_right ..).trans layout.bitmap

section
variable (blocks : Blocks sb disk holds)
include blocks

section
variable (allocated : Allocated sb disk after b)
include allocated

theorem Blocks.fresh : sb.dataStart ≤ b.toNat ∧ ∀ place, holds place ≠ some b := by
  obtain ⟨reserved, unheld⟩ := blocks.owned.fresh allocated.inside allocated.free
  exact ⟨Nat.le_of_not_lt reserved, unheld⟩

theorem Blocks.nonzero : b ≠ 0 := by
  rintro rfl
  have low := blocks.layout.super_low
  have data := (blocks.fresh allocated).1
  change sb.dataStart ≤ 0 at data
  omega

theorem Blocks.kept (here : holds place = some c) : after c = disk c := by
  apply allocated.frame
  · rintro rfl
    exact (blocks.fresh allocated).2 place here
  · exact .inr (blocks.data here).1

theorem Blocks.super_kept : after 1 = disk 1 := by
  apply allocated.frame
  · rintro rfl
    have low := blocks.layout.super_low
    have data := (blocks.fresh allocated).1
    change sb.dataStart ≤ 1 at data
    omega
  · exact blocks.layout.unmapped_super

theorem Blocks.take (empty : holds place = none) : Blocks sb after (update holds place (some b)) where
  layout := blocks.layout
  super := by rw [blocks.super_kept allocated, blocks.super]
  owned := blocks.owned.take allocated.inside allocated.free empty allocated.used

end

theorem Blocks.drop (released : Released sb disk after b) (here : holds place = some b) :
    Blocks sb after (update holds place none) where
  layout := blocks.layout
  super := by rw [released.frame 1 blocks.layout.unmapped_super, blocks.super]
  owned := blocks.owned.drop here released.used

/-- A write outside of the super block and the free map keeps the free map. -/
theorem Blocks.write (unmapped : Unmapped sb c) (other : c ≠ 1) (data : Block) :
    Blocks sb (update disk c data) holds where
  layout := blocks.layout
  super := by rw [update_of_ne other.symm, blocks.super]
  owned := by
    apply blocks.owned.congr
    intro unit inside
    exact used_write blocks.layout unmapped data inside

end

namespace FsImage

/-- An allocated inode in the table. -/
structure Live (sb : Superblock) (table : Nat → Dinode) (inum : Nat) : Prop where
  inside : inum < sb.ninodes.toNat
  type : (table inum).type ≠ 0

section
variable (image : FsImage sb disk table units)
include image

theorem congr (alike : ∀ inum < sb.ninodes.toNat, (next inum).Alike (table inum)) : FsImage sb disk next units where
  toBlocks := by
    rw [held_table alike]
    exact image.toBlocks
  filled inum inside allocated index := by
    rw [(alike inum inside).unit_eq]
    rw [(alike inum inside).type] at allocated
    exact image.filled inum inside allocated index

theorem congr_units {count : Nat → Nat} (same : ∀ inum, Live sb table inum → count inum = units inum) :
    FsImage sb disk table count where
  toBlocks := image.toBlocks
  filled inum inside type := by
    rw [same inum ⟨inside, type⟩]
    exact image.filled inum inside type

theorem held_of_lt (live : Live sb table inum) (filled : index < units inum) :
    held sb disk table (inum, index) = some ((table inum).unit disk index) :=
  held_eq_some.mpr ⟨live.inside, live.type, rfl, (image.filled inum live.inside live.type index).mpr filled⟩

theorem lt_of_held (here : held sb disk table (inum, index) = some b) : index < units inum := by
  obtain ⟨inside, type, rfl, nonzero⟩ := held_eq_some.mp here
  exact (image.filled inum inside type index).mp nonzero

theorem held_of_ge (beyond : units inum ≤ index) : held sb disk table (inum, index) = none := by
  rw [Option.eq_none_iff_forall_ne_some]
  intro b here
  have := image.lt_of_held here
  omega

end

theorem held_indirect (disk : Disk) (live : Live sb table inum) (present : (table inum).indirect ≠ 0) :
    held sb disk table (inum, NDIRECT) = some (table inum).indirect :=
  held_eq_some.mpr ⟨live.inside, live.type, unit_indirect .., present⟩

theorem unit_kept (image : FsImage sb disk table units) (allocated : Allocated sb disk after b)
    (live : Live sb table inum) : (table inum).unit after index = (table inum).unit disk index :=
  unit_congr fun present => image.kept allocated (held_indirect disk live present)

/-- The places hold the same blocks except one that gets a new block. -/
theorem held_take (live : Live sb table inum) (nonzero : b ≠ 0) (type : ∀ other, (next other).type = (table other).type)
    (same : ∀ other position, Live sb table other → (other, position) ≠ (inum, index) →
      (next other).unit after position = (table other).unit disk position) (new : (next inum).unit after index = b) :
    held sb after next = update (held sb disk table) (inum, index) (some b) := by
  funext ⟨other, position⟩
  rw [update_apply]
  split
  · next here =>
      obtain ⟨rfl, rfl⟩ := Prod.mk.inj here
      exact held_eq_some.mpr ⟨live.inside, (type other).symm ▸ live.type, new, nonzero⟩
  · next elsewhere =>
      rw [held, held]
      simp only [type]
      split
      · next allocated => rw [same other position ⟨allocated.1, allocated.2⟩ elsewhere]
      · rfl

/-- Exactly the first units are filled after one more of them. -/
theorem filled_take (image : FsImage sb disk table units) (nonzero : b ≠ 0)
    (type : ∀ other, (next other).type = (table other).type)
    (same : ∀ other position, Live sb table other → (other, position) ≠ (inum, units inum) →
      (next other).unit after position = (table other).unit disk position)
    (new : (next inum).unit after (units inum) = b) (other : Nat) (inside : other < sb.ninodes.toNat)
    (allocated : (next other).type ≠ 0) : (next other).Filled after (update units inum (units inum + 1) other) := by
  rw [type] at allocated
  intro position
  have before := image.filled other inside allocated position
  by_cases here : (other, position) = (inum, units inum)
  · cases here
    rw [new, update_self]
    exact ⟨fun _ => Nat.lt_succ_self _, fun _ => nonzero⟩
  · rw [same other position ⟨inside, allocated⟩ here, before, update_apply]
    split
    · next equal =>
        subst equal
        have ne : position ≠ units other := fun equal => here (equal ▸ rfl)
        omega
    · rfl

/-- An inode has one more unit. All other places hold what they held. -/
structure Taken (sb : Superblock) (disk : Disk) (table : Nat → Dinode) (units : Nat → Nat) (inum : Nat) (b : BlockNo)
    (last : Disk) (next : Nat → Dinode) : Prop where
  image : FsImage sb last next (Function.update units inum (units inum + 1))
  places : held sb last next = Function.update (held sb disk table) (inum, units inum) (some b)

variable (image : FsImage sb disk table units)
include image

theorem take (allocated : Allocated sb disk after b) (live : Live sb table inum) {last : Disk}
    (type : ∀ other, (next other).type = (table other).type)
    (same : ∀ other position, Live sb table other → (other, position) ≠ (inum, units inum) →
      (next other).unit last position = (table other).unit disk position) (new : (next inum).unit last (units inum) = b)
    (blocks : ∀ holds, Blocks sb after holds → Blocks sb last holds) : Taken sb disk table units inum b last next := by
  have nonzero := image.nonzero allocated
  have places := held_take live nonzero type same new
  refine ⟨⟨?_, image.filled_take nonzero type same new⟩, places⟩
  rw [places]
  exact blocks _ (image.toBlocks.take allocated (image.held_of_ge le_rfl))

/-- The number of the new block is stored in the inode. -/
theorem takeAddr (allocated : Allocated sb disk after b) (live : Live sb table inum) (slot : Fin (NDIRECT + 1))
    (next : (slot : Nat) = units inum) :
    Taken sb disk table units inum b after (update table inum ((table inum).setAddr slot b)) := by
  apply image.take allocated live
  · intro other
    rw [update_apply]
    split
    · next equal => rw [equal, setAddr]
    · rfl
  · intro other position alive elsewhere
    rw [update_apply]
    split
    · next equal =>
        subst equal
        have ne : position ≠ slot := fun equal => elsewhere (by rw [equal, next])
        rw [← image.unit_kept allocated live]
        by_cases direct : position < NDIRECT + 1
        · rw [unit_setAddr_direct direct, if_neg ne]
        · by_cases last : slot = Fin.last NDIRECT
          · have beyond : units other ≤ position := by
              rw [← next, last]
              exact Nat.le_of_lt (Nat.lt_of_not_le fun low => direct (Nat.lt_succ_of_le low))
            rw [image.unit_kept allocated live, (image.filled _ alive.inside alive.type).eq_zero beyond,
              unit, dif_neg direct]
            split
            · rfl
            · have new : ((table other).setAddr slot b).indirect = b := by
                rw [indirect, setAddr_addrs, last, update_self]
              rw [new, allocated.zero]
              exact slot_zero ..
          · have same : ((table other).setAddr slot b).indirect = (table other).indirect := by
              rw [indirect, setAddr_addrs, update_of_ne (Ne.symm last), indirect]
            rw [unit, unit, dif_neg direct, dif_neg direct, same]
    · exact image.unit_kept allocated alive
  · rw [update_self, unit_setAddr_direct (next ▸ slot.isLt), if_pos next.symm]
  · exact fun _ => id

/-- The number of the new block is stored in the indirect block. -/
theorem takeEntry (allocated : Allocated sb disk after b) (live : Live sb table inum) (entry : NDIRECT + 1 ≤ units inum)
    (fits : units inum < MAXFILE + 1) :
    Taken sb disk table units inum b (update after (table inum).indirect
      (setSlot (after (table inum).indirect) (units inum - (NDIRECT + 1)) b)) table := by
  have present : (table inum).indirect ≠ 0 := by
    rw [← unit_indirect _ disk]
    exact (image.filled inum live.inside live.type NDIRECT).mpr (by omega)
  have here := held_indirect disk live present
  have data := (image.data here).1
  apply image.take allocated live
  · exact fun _ => rfl
  · intro other position alive elsewhere
    by_cases same : other = inum
    · subst same
      rw [← image.unit_kept allocated live]
      by_cases direct : position < NDIRECT + 1
      · rw [unit_direct direct, unit_direct direct]
      · rw [unit_entry (by omega) present, unit_entry (by omega) present, update_self, slot_setSlot_ne]
        have ne : position ≠ units other := fun equal => elsewhere (equal ▸ rfl)
        omega
    · rw [← image.unit_kept allocated alive]
      apply unit_congr
      intro block
      apply update_of_ne
      intro equal
      have there := held_indirect disk alive block
      rw [equal] at there
      exact same (congrArg Prod.fst (image.owned.unique _ _ _ there here))
  · rw [unit_entry entry present, update_self, slot_setSlot_same]
    simp only [MAXFILE, NDIRECT, NINDIRECT, BSIZE] at fits entry ⊢
    omega
  · intro holds blocks
    apply blocks.write (.inr data)
    rintro one
    have low := image.layout.super_low
    rw [one] at data
    change sb.dataStart ≤ 1 at data
    omega

/-- An inode without blocks becomes free. -/
theorem retire (empty : ∀ slot, (table inum).addrs slot = 0) {dinode : Dinode} (free : dinode.type = 0) :
    FsImage sb disk (update table inum dinode) units := by
  have places : held sb disk (update table inum dinode) = held sb disk table := by
    funext place
    rw [held, held]
    by_cases same : place.1 = inum
    · rw [same, update_self, unit_empty empty]
      simp only [free, ne_eq, not_true, and_false, if_false]
      exact (ite_self _).symm
    · rw [update_of_ne same]
  refine ⟨?_, ?_⟩
  · rw [places]
    exact image.toBlocks
  · intro other inside type
    have ne : other ≠ inum := by
      rintro rfl
      exact type (by rw [update_self, free])
    rw [update_of_ne ne] at type ⊢
    exact image.filled other inside type

/-- A write to a block that is neither metadata of the free map nor an indirect block keeps the image. -/
theorem write (unmapped : Unmapped sb c) (other : c ≠ 1)
    (data : ∀ inum, Live sb table inum → (table inum).indirect ≠ 0 → (table inum).indirect ≠ c) (block : Block) :
    FsImage sb (update disk c block) table units := by
  have same : ∀ inum, Live sb table inum → (table inum).indirect ≠ 0 →
      update disk c block (table inum).indirect = disk (table inum).indirect := by
    intro inum live present
    exact update_of_ne (data inum live present) ..
  refine ⟨?_, ?_⟩
  · rw [held_congr fun inum inside type => same inum ⟨inside, type⟩]
    exact image.toBlocks.write unmapped other block
  · intro inum inside type index
    rw [unit_congr (same inum ⟨inside, type⟩)]
    exact image.filled inum inside type index

theorem writeData (here : held sb disk table (inum, index) = some b) (data : index ≠ NDIRECT) (block : Block) :
    FsImage sb (update disk b block) table units := by
  have high := (image.data here).1
  have low := image.layout.super_low
  apply image.write (.inr high)
  · rintro rfl
    change sb.dataStart ≤ 1 at high
    omega
  · intro other live present same
    have there := held_indirect disk live present
    rw [same] at there
    exact data (congrArg Prod.snd (image.owned.unique _ _ _ here there))

theorem writeInode (inside : inum < sb.ninodes.toNat) (block : Block) :
    FsImage sb (update disk (IBLOCK inum sb) block) table units := by
  have bounds := image.layout.IBLOCK_bounds inside
  have low : sb.bmapstart.toNat ≤ sb.dataStart := (Nat.le_add_right ..).trans image.layout.bitmap
  apply image.write (.inl bounds.2)
  · intro one
    rw [one] at bounds
    exact absurd bounds.1 (by decide)
  · intro other live present same
    have data := (image.data (held_indirect disk live present)).1
    rw [same] at data
    omega

end FsImage
end Xv6
