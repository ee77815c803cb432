import Xv6.Proof.Fs.Image

namespace Xv6
open Library Function

/-- The unit of a block of the file. -/
def blockUnit (bn : Nat) : Nat := if bn < NDIRECT then bn else bn + 1

/-- The units of a file with a number of blocks. -/
def unitCount (blocks : Nat) : Nat := if blocks ≤ NDIRECT then blocks else blocks + 1

namespace Fs
variable {fs middle next : Fs} {ip : Fin NINODE} {units : Nat → Nat} {b : BlockNo} {bn count more : Nat}

/-- The inodes on disk, but the cached copy of one of them. -/
def table (fs : Fs) (ip : Fin NINODE) : Nat → Dinode := Function.update fs.dinode (fs.icache ip).inum (fs.copy ip)

theorem table_self (fs : Fs) (ip : Fin NINODE) : fs.table ip (fs.icache ip).inum = fs.copy ip :=
  update_self ..

/-- The cached inode is an allocated inode of the disk. -/
structure Live (fs : Fs) (ip : Fin NINODE) : Prop where
  inside : (fs.icache ip).inum < fs.sb.ninodes.toNat
  type : (fs.copy ip).type ≠ 0

theorem Live.image (live : fs.Live ip) : FsImage.Live fs.sb (fs.table ip) (fs.icache ip).inum :=
  ⟨live.inside, by rw [table_self]; exact live.type⟩

/-- Only block numbers in the cached copy of one inode have changed, and no inode on disk. -/
structure Edited (ip : Fin NINODE) (fs next : Fs) : Prop where
  sb : next.sb = fs.sb
  cache : next.icache = Function.update fs.icache ip
    {fs.icache ip with dinode := {fs.copy ip with addrs := (next.copy ip).addrs}}
  inodes : ∀ inum < fs.sb.ninodes.toNat, next.dinode inum = fs.dinode inum

namespace Edited

theorem refl (ip : Fin NINODE) (fs : Fs) : Edited ip fs fs where
  sb := rfl
  cache := (update_eq_self ip fs.icache).symm
  inodes _ _ := rfl

theorem entry (edited : Edited ip fs next) :
    next.icache ip = {fs.icache ip with dinode := {fs.copy ip with addrs := (next.copy ip).addrs}} := by
  have entry := congrFun edited.cache ip
  rwa [update_self] at entry

theorem inum (edited : Edited ip fs next) : (next.icache ip).inum = (fs.icache ip).inum := by
  rw [edited.entry]

theorem copy (edited : Edited ip fs next) : next.copy ip = {fs.copy ip with addrs := (next.copy ip).addrs} :=
  congrArg Inode.dinode edited.entry

theorem trans (first : Edited ip fs middle) (second : Edited ip middle next) : Edited ip fs next where
  sb := second.sb.trans first.sb
  cache := by
    rw [second.cache, first.entry, first.copy, first.cache, update_idem]
  inodes inum inside := by
    rw [second.inodes inum (by rw [first.sb]; exact inside), first.inodes inum inside]

theorem live (edited : Edited ip fs next) (live : fs.Live ip) : next.Live ip where
  inside := by
    rw [edited.sb, edited.inum]
    exact live.inside
  type := by
    rw [edited.copy]
    exact live.type

theorem table_eq (edited : Edited ip fs next) (copy : next.copy ip = fs.copy ip) {inum : Nat}
    (inside : inum < fs.sb.ninodes.toNat) : next.table ip inum = fs.table ip inum := by
  rw [table, table, edited.inum, copy, update_apply, update_apply]
  split
  · rfl
  · exact edited.inodes inum inside

theorem of_cache (sb : next.sb = fs.sb) (cache : next.icache = fs.icache)
    (inodes : ∀ inum < fs.sb.ninodes.toNat, next.dinode inum = fs.dinode inum) : Edited ip fs next where
  sb := sb
  cache := by
    have copy : next.copy ip = fs.copy ip := congrArg Inode.dinode (congrFun cache ip)
    rw [copy, cache]
    exact (update_eq_self ip fs.icache).symm
  inodes := inodes

end Edited

/-- The inode has got units. What was at a place is still there, and only the indirect block may have changed. The new
blocks of the file are zero. -/
structure Extended (ip : Fin NINODE) (units : Nat → Nat) (fs next : Fs) (count : Nat) : Prop extends
    Edited ip fs next where
  image : FsImage fs.sb next.disk (next.table ip) (Function.update units (fs.icache ip).inum count)
  grows : ∀ place b, held fs.sb fs.disk (fs.table ip) place = some b →
    held fs.sb next.disk (next.table ip) place = some b ∧ (place.2 ≠ NDIRECT → next.disk b = fs.disk b)
  free : freeCount fs.sb next.disk + count = freeCount fs.sb fs.disk + units (fs.icache ip).inum
  zero : ∀ index, units (fs.icache ip).inum ≤ index → index < count → index ≠ NDIRECT →
    next.disk ((next.copy ip).unit next.disk index) = 0

namespace Extended

theorem refl (image : FsImage fs.sb fs.disk (fs.table ip) units) :
    Extended ip units fs fs (units (fs.icache ip).inum) where
  toEdited := .refl ip fs
  image := by
    rw [update_eq_self]
    exact image
  grows _ _ here := ⟨here, fun _ => rfl⟩
  free := rfl
  zero index above below := absurd below (Nat.not_lt.mpr above)

theorem unit_kept (extended : Extended ip units fs next count) (live : fs.Live ip)
    (image : FsImage fs.sb fs.disk (fs.table ip) units) {index : Nat} (filled : index < units (fs.icache ip).inum) :
    (next.copy ip).unit next.disk index = (fs.copy ip).unit fs.disk index := by
  have here := image.held_of_lt live.image filled
  obtain ⟨_, _, same, _⟩ := held_eq_some.mp (extended.grows _ _ here).1
  have table := table_self next ip
  rw [extended.inum] at table
  rwa [table_self, table] at same

theorem trans (live : fs.Live ip) (first : Extended ip units fs middle count)
    (second : Extended ip (update units (fs.icache ip).inum count) middle next more) :
    Extended ip units fs next more where
  toEdited := first.toEdited.trans second.toEdited
  image := by
    have image := second.image
    rwa [first.inum, update_idem, first.sb] at image
  grows place b here := by
    obtain ⟨held, kept⟩ := first.grows place b here
    rw [← first.sb] at held
    obtain ⟨still, same⟩ := second.grows place b held
    rw [first.sb] at still
    exact ⟨still, fun data => (same data).trans (kept data)⟩
  free := by
    have before := first.free
    have after := second.free
    rw [first.inum, update_self, first.sb] at after
    omega
  zero index above below data := by
    have image := first.image
    rw [← first.sb] at image
    have alive := first.toEdited.live live
    have filled : update units (fs.icache ip).inum count (middle.icache ip).inum = count := by
      rw [first.inum, update_self]
    by_cases early : index < count
    · have inside : index < update units (fs.icache ip).inum count (middle.icache ip).inum := by
        rw [filled]
        exact early
      have there := image.held_of_lt alive.image inside
      rw [table_self] at there
      rw [second.unit_kept alive image inside, (second.grows _ _ there).2 data]
      exact first.zero index above early data
    · exact second.zero index (by rw [filled]; omega) below data

end Extended

theorem dinode_kept {holds : Nat × Nat → Option BlockNo} (blocks : Blocks fs.sb fs.disk holds) (sb : next.sb = fs.sb)
    (allocated : Allocated fs.sb fs.disk next.disk b) {inum : Nat} (inside : inum < fs.sb.ninodes.toNat) :
    next.dinode inum = fs.dinode inum := by
  have bounds := blocks.layout.IBLOCK_bounds inside
  have data := (blocks.fresh allocated).1
  have low : fs.sb.bmapstart.toNat ≤ fs.sb.dataStart := (Nat.le_add_right ..).trans blocks.layout.bitmap
  have block : IBLOCK inum fs.sb ≠ b := by
    rintro rfl
    omega
  rw [dinode, dinode, sb, allocated.frame _ block (.inl bounds.2)]

theorem dinode_write (layout : fs.sb.Layout) {c : BlockNo} (data : fs.sb.dataStart ≤ c.toNat) (block : Block)
    {inum : Nat} (inside : inum < fs.sb.ninodes.toNat) : (fs.write c block).dinode inum = fs.dinode inum := by
  have bounds := layout.IBLOCK_bounds inside
  have low : fs.sb.bmapstart.toNat ≤ fs.sb.dataStart := (Nat.le_add_right ..).trans layout.bitmap
  have ne : IBLOCK inum fs.sb ≠ c := by
    rintro rfl
    omega
  exact congrArg (fun block => Dinode.decode (slot _ block _)) (update_of_ne ne ..)

variable (image : FsImage fs.sb fs.disk (fs.table ip) units)
include image

/-- An allocation that fills the next unit extends the inode. -/
theorem Extended.of_taken (allocated : Allocated fs.sb fs.disk middle.disk b) (edited : Edited ip fs next)
    {last : Nat → Dinode} (taken : FsImage.Taken fs.sb fs.disk (fs.table ip) units (fs.icache ip).inum b next.disk last)
    (same : ∀ inum < fs.sb.ninodes.toNat, (next.table ip inum).Alike (last inum))
    (used : ∀ c : BlockNo, c.toNat < fs.sb.size.toNat → (Used fs.sb next.disk c ↔ Used fs.sb middle.disk c))
    (frame : ∀ place c, place.2 ≠ NDIRECT → held fs.sb fs.disk (fs.table ip) place = some c →
      next.disk c = middle.disk c)
    (zero : units (fs.icache ip).inum ≠ NDIRECT → next.disk b = 0) (live : fs.Live ip) :
    Extended ip units fs next (units (fs.icache ip).inum + 1) where
  toEdited := edited
  image := taken.image.congr same
  grows place c here := by
    constructor
    · rw [held_table same, taken.places, update_of_ne, here]
      rintro rfl
      cases here.symm.trans (image.held_of_ge le_rfl)
    · intro data
      rw [frame place c data here, image.kept allocated here]
  free := by
    rw [freeCount_congr used, allocated.freeCount_eq]
    omega
  zero index above below data := by
    obtain rfl : index = units (fs.icache ip).inum := by omega
    have here : held fs.sb next.disk last ((fs.icache ip).inum, units (fs.icache ip).inum) = some b := by
      rw [taken.places, update_self]
    obtain ⟨_, _, unit, _⟩ := held_eq_some.mp here
    have own := table_self next ip
    rw [edited.inum] at own
    rw [← own, (same _ live.inside).unit_eq, unit]
    exact zero data

/-- The address in the inode leads to a block, which is new if there was none. -/
theorem wp_addrBlock (live : fs.Live ip) (slot : Fin (NDIRECT + 1)) (next : (slot : Nat) ≤ units (fs.icache ip).inum) :
    wp (addrBlock ip slot) (fun b last => Extended ip units fs last (max (units (fs.icache ip).inum) (slot + 1)) ∧
        (last.copy ip).addrs slot = b)
      (fun panic => panic = .outOfBlocks ∧ units (fs.icache ip).inum = slot ∧ freeCount fs.sb fs.disk = 0) fs := by
  have filled := image.filled _ live.inside (by rw [table_self]; exact live.type) slot
  rw [table_self, Dinode.unit_direct slot.isLt] at filled
  rw [addrBlock, wp_bind, wp_get]
  split
  · next zero =>
      have equal : (slot : Nat) = units (fs.icache ip).inum := by
        have := mt filled.mpr (not_not.mpr zero)
        omega
      rw [wp_bind]
      apply wp_mono (wp_balloc image.layout image.reserved)
      · rintro b middle ⟨sb, cache, allocated⟩
        rw [wp_bind, wp_modify, wp_pure]
        have kept : ∀ inum < fs.sb.ninodes.toNat, middle.dinode inum = fs.dinode inum := fun inum =>
          dinode_kept image.toBlocks sb allocated
        have copy : middle.copy ip = fs.copy ip := by rw [Fs.copy, cache, Fs.copy]
        have entry : (middle.setAddr ip slot b).icache ip =
            {fs.icache ip with dinode := (fs.copy ip).setAddr slot b} := by
          change update middle.icache ip _ ip = _
          rw [update_self, copy, cache]
          rfl
        have changed : (middle.setAddr ip slot b).copy ip = (fs.copy ip).setAddr slot b := congrArg Inode.dinode entry
        have edited : Edited ip fs (middle.setAddr ip slot b) := by
          refine ⟨sb, ?_, kept⟩
          rw [changed]
          change update middle.icache ip _ = _
          rw [copy, cache]
          rfl
        have count : max (units (fs.icache ip).inum) (slot + 1) = units (fs.icache ip).inum + 1 := by omega
        rw [count]
        refine ⟨.of_taken image allocated edited (image.takeAddr allocated live.image slot equal) ?_ ?_ ?_ ?_ live, ?_⟩
        · intro inum inside
          have equal : (middle.setAddr ip slot b).table ip inum =
              update (fs.table ip) (fs.icache ip).inum ((fs.table ip (fs.icache ip).inum).setAddr slot b) inum := by
            rw [table, entry, changed, update_apply, update_apply, table_self]
            split
            · rfl
            · next other =>
                rw [table, update_of_ne other]
                exact kept inum inside
          rw [equal]
          exact ⟨rfl, rfl⟩
        · exact fun _ _ => Iff.rfl
        · exact fun _ _ _ _ => rfl
        · exact fun _ => allocated.zero
        · rw [changed, Dinode.setAddr_addrs, update_self]
      · rintro panic ⟨reason, full⟩
        exact ⟨reason, equal.symm, freeCount_eq_zero full⟩
  · next nonzero =>
      rw [wp_pure]
      have inside := filled.mp nonzero
      have count : max (units (fs.icache ip).inum) (slot + 1) = units (fs.icache ip).inum := by omega
      rw [count]
      exact ⟨.refl image, rfl⟩

/-- The entry of the indirect block leads to a block, which is new if there was none. -/
theorem wp_entryBlock (live : fs.Live ip) {bp : BlockNo} (indirect : (fs.copy ip).indirect = bp) {inum : Nat}
    (number : (fs.icache ip).inum = inum) (low : NDIRECT ≤ bn) (high : bn < MAXFILE) (next : bn + 1 ≤ units inum) :
    wp (entryBlock bp (bn - NDIRECT)) (fun b last => Extended ip units fs last (max (units inum) (bn + 2)) ∧
        (last.copy ip).unit last.disk (bn + 1) = b)
      (fun panic => panic = .outOfBlocks ∧ units inum = bn + 1 ∧ freeCount fs.sb fs.disk = 0) fs := by
  subst indirect number
  have filled := image.filled _ live.inside (by rw [table_self]; exact live.type)
  rw [table_self] at filled
  have nonzero : (fs.copy ip).indirect ≠ 0 := by
    rw [← Dinode.unit_indirect _ fs.disk]
    exact (filled NDIRECT).mpr (by omega)
  have position : bn + 1 - (NDIRECT + 1) = bn - NDIRECT := by omega
  have entry : (fs.copy ip).unit fs.disk (bn + 1) = slot 32 (fs.disk (fs.copy ip).indirect) (bn - NDIRECT) := by
    rw [Dinode.unit_entry (by omega) nonzero, position]
  rw [entryBlock, wp_bind, wp_get, ← entry]
  split
  · next zero =>
      have equal : units (fs.icache ip).inum = bn + 1 := by
        have := mt (filled (bn + 1)).mpr (not_not.mpr zero)
        omega
      rw [wp_bind]
      apply wp_mono (wp_balloc image.layout image.reserved)
      · rintro b middle ⟨sb, cache, allocated⟩
        rw [wp_bind, wp_modify, wp_pure]
        have here := FsImage.held_indirect fs.disk live.image (by rw [table_self]; exact nonzero)
        rw [table_self] at here
        have data := (image.data here).1
        have taken := image.takeEntry allocated live.image (by omega) (by omega)
        rw [table_self, equal, position] at taken
        have edited : Edited ip fs (middle.write (fs.copy ip).indirect
            (setSlot (middle.disk (fs.copy ip).indirect) (bn - NDIRECT) b)) := by
          refine .of_cache sb cache ?_
          intro inum inside
          rw [dinode_write (sb.symm ▸ image.layout) (sb.symm ▸ data) _ (sb.symm ▸ inside)]
          exact dinode_kept image.toBlocks sb allocated inside
        have copy : (middle.write (fs.copy ip).indirect
            (setSlot (middle.disk (fs.copy ip).indirect) (bn - NDIRECT) b)).copy ip = fs.copy ip :=
          congrArg Inode.dinode (congrFun cache ip)
        have count : max (units (fs.icache ip).inum) (bn + 2) = units (fs.icache ip).inum + 1 := by omega
        rw [count]
        refine ⟨.of_taken image allocated edited taken ?_ ?_ ?_ ?_ live, ?_⟩
        · intro inum inside
          rw [edited.table_eq copy inside]
          exact ⟨rfl, rfl⟩
        · intro c inside
          exact used_write image.layout (.inr data) _ inside
        · intro place c other there
          apply update_of_ne
          rintro rfl
          exact other (congrArg Prod.snd (image.owned.unique _ _ _ there here))
        · intro _
          have ne : b ≠ (fs.copy ip).indirect := by
            rintro rfl
            exact (image.fresh allocated).2 _ here
          exact (update_of_ne ne ..).trans allocated.zero
        · rw [copy, Dinode.unit_entry (by omega) nonzero, position]
          change slot 32 (update middle.disk _ _ _) _ = b
          rw [update_self, slot_setSlot_same]
          simp only [MAXFILE, NDIRECT, NINDIRECT, BSIZE] at high low ⊢
          omega
      · rintro panic ⟨reason, full⟩
        exact ⟨reason, equal, freeCount_eq_zero full⟩
  · next nonzero =>
      rw [wp_pure]
      have inside := (filled _).mp nonzero
      have count : max (units (fs.icache ip).inum) (bn + 2) = units (fs.icache ip).inum := by omega
      rw [count]
      exact ⟨.refl image, rfl⟩

/-- The call returns the block of the file, which is new if the file had only the blocks before it. -/
theorem wp_bmap (live : fs.Live ip) (high : bn < MAXFILE) (next : unitCount bn ≤ units (fs.icache ip).inum) :
    wp (bmap ip bn) (fun b last => Extended ip units fs last (max (units (fs.icache ip).inum) (unitCount (bn + 1))) ∧
        (last.copy ip).unit last.disk (blockUnit bn) = b)
      (fun panic => panic = .outOfBlocks ∧
        freeCount fs.sb fs.disk + units (fs.icache ip).inum < unitCount (bn + 1)) fs := by
  rw [bmap]
  split
  · next direct =>
      have count : unitCount (bn + 1) = bn + 1 := if_pos direct
      rw [unitCount, if_pos direct.le] at next
      rw [count, blockUnit, if_pos direct]
      apply wp_mono (wp_addrBlock image live ⟨bn, by omega⟩ next)
      · rintro b last ⟨extended, address⟩
        exact ⟨extended, (Dinode.unit_direct (by omega)).trans address⟩
      · rintro panic ⟨reason, full, none⟩
        exact ⟨reason, by simp only at full; omega⟩
  · next entry =>
      have low : NDIRECT ≤ bn := Nat.le_of_not_lt entry
      have count : unitCount (bn + 1) = bn + 2 := if_neg (by omega)
      have enough : NDIRECT ≤ units (fs.icache ip).inum ∧ bn + 1 ≤ max (units (fs.icache ip).inum) (NDIRECT + 1) := by
        rw [unitCount] at next
        split at next <;> omega
      rw [if_pos (by rw [MAXFILE] at high; omega), count, blockUnit, if_neg entry, wp_bind]
      apply wp_mono (wp_addrBlock image live (Fin.last NDIRECT) enough.1)
      · rintro bp middle ⟨extended, address⟩
        have image := extended.image
        rw [← extended.sb] at image
        have filled := update_self (fs.icache ip).inum
          (max (units (fs.icache ip).inum) ((Fin.last NDIRECT : Nat) + 1)) units
        apply wp_mono (wp_entryBlock image (extended.live live) address extended.inum low high
          (by rw [filled]; exact enough.2))
        · rintro b last ⟨further, found⟩
          rw [filled] at further
          have both := extended.trans live further
          have most : max (max (units (fs.icache ip).inum) ((Fin.last NDIRECT : Nat) + 1)) (bn + 2) =
              max (units (fs.icache ip).inum) (bn + 2) := by
            rw [Fin.val_last]
            omega
          rw [most] at both
          exact ⟨both, found⟩
        · rintro panic ⟨reason, full, none⟩
          rw [filled] at full
          have free := extended.free
          rw [extended.sb] at none
          exact ⟨reason, by omega⟩
      · rintro panic ⟨reason, full, none⟩
        exact ⟨reason, by simp only [Fin.val_last] at full; omega⟩

end Fs
end Xv6
