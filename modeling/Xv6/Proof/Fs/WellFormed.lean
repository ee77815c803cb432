import Xv6.Proof.Fs.Mapping

namespace Xv6
open Library Function

/-- The number of blocks that hold a number of bytes. -/
def blockCount (bytes : Nat) : Nat := (bytes + (BSIZE - 1)) / BSIZE

/-- The places that an inode of a size has. -/
def fileUnits (table : Nat → Dinode) (inum : Nat) : Nat := unitCount (blockCount (table inum).size.toNat)

theorem blockUnit_ne (bn : Nat) : blockUnit bn ≠ NDIRECT := by
  rw [blockUnit]
  split <;> omega

theorem blockUnit_injective {bn other : Nat} (same : blockUnit bn = blockUnit other) : bn = other := by
  rw [blockUnit, blockUnit] at same
  split at same <;> split at same <;> omega

theorem blockUnit_lt {bn blocks : Nat} : blockUnit bn < unitCount blocks ↔ bn < blocks := by
  rw [blockUnit, unitCount]
  split <;> split <;> omega

theorem unitCount_mono {few many : Nat} (le : few ≤ many) : unitCount few ≤ unitCount many := by
  rw [unitCount, unitCount]
  split <;> split <;> omega

theorem lt_unitCount {blocks : Nat} : NDIRECT < unitCount blocks ↔ NDIRECT < blocks := by
  rw [unitCount]
  split <;> omega

namespace Dinode
variable {dinode : Dinode} {disk : Disk}

/-- The disk block of a block of the file. -/
def block (dinode : Dinode) (disk : Disk) (bn : Nat) : BlockNo := dinode.unit disk (blockUnit bn)

/-- The inode has a disk block for exactly the blocks below its size, and an indirect block if it needs one. -/
structure Mapped (dinode : Dinode) (disk : Disk) : Prop where
  blocks : ∀ bn < MAXFILE, dinode.block disk bn ≠ 0 ↔ bn < blockCount dinode.size.toNat
  indirect : dinode.indirect ≠ 0 ↔ NDIRECT < blockCount dinode.size.toNat
  fits : blockCount dinode.size.toNat ≤ MAXFILE

theorem unit_beyond (dinode : Dinode) (disk : Disk) {index : Nat} (beyond : MAXFILE + 1 ≤ index) :
    dinode.unit disk index = 0 := by
  have large : ¬index < NDIRECT + 1 := by
    simp only [MAXFILE, NINDIRECT, BSIZE] at beyond
    omega
  rw [unit, dif_neg large]
  split
  · rfl
  · apply BitVec.eq_of_getLsbD_eq
    intro bit _
    have outside : 8 * BSIZE ≤ 32 * (index - (NDIRECT + 1)) + bit := by
      simp only [MAXFILE, NINDIRECT, NDIRECT, BSIZE] at beyond ⊢
      omega
    rw [slot_getLsbD, BitVec.getLsbD_of_ge _ _ outside]
    simp

theorem mapped_iff_filled : dinode.Mapped disk ↔ dinode.Filled disk (unitCount (blockCount dinode.size.toNat)) := by
  constructor
  · intro mapped index
    by_cases indirect : index = NDIRECT
    · subst indirect
      rw [unit_indirect, mapped.indirect, lt_unitCount]
    · obtain ⟨bn, rfl⟩ : ∃ bn, index = blockUnit bn := by
        by_cases direct : index < NDIRECT
        · exact ⟨index, by rw [blockUnit, if_pos direct]⟩
        · exact ⟨index - 1, by rw [blockUnit, if_neg (by omega)]; omega⟩
      rw [blockUnit_lt]
      by_cases inside : bn < MAXFILE
      · exact mapped.blocks bn inside
      · have large : MAXFILE + 1 ≤ blockUnit bn := by
          rw [blockUnit, if_neg]
          · omega
          · simp only [MAXFILE, NINDIRECT, BSIZE] at inside
            omega
        have fits := mapped.fits
        rw [unit_beyond _ _ large]
        exact ⟨absurd rfl, fun below => by omega⟩
  · intro filled
    refine ⟨?_, ?_, ?_⟩
    · intro bn _
      rw [block, filled, blockUnit_lt]
    · rw [← unit_indirect dinode disk, filled, lt_unitCount]
    · by_contra many
      have beyond := unit_beyond dinode disk (le_refl (MAXFILE + 1))
      apply (filled (MAXFILE + 1)).mpr _ beyond
      rw [unitCount, if_neg]
      · omega
      · simp only [MAXFILE, NINDIRECT, BSIZE] at many
        omega

end Dinode

namespace Fs
variable {fs next : Fs} {ip : Fin NINODE} {units : Nat → Nat}

/-- No inode has two cache entries in use, and a locked one is the copy of an allocated inode on disk. -/
structure Cached (fs : Fs) : Prop where
  unique : ∀ ip other, 0 < (fs.icache ip).ref → 0 < (fs.icache other).ref →
    (fs.icache ip).inum = (fs.icache other).inum → ip = other
  inside : ∀ ip, 0 < (fs.icache ip).ref → (fs.icache ip).inum < fs.sb.ninodes.toNat
  same : ∀ ip, fs.Locked ip → fs.copy ip = fs.dinode (fs.icache ip).inum
  type : ∀ ip, fs.Locked ip → (fs.copy ip).type ≠ 0

/-- The disk blocks of the allocated inodes are distinct data blocks, the free map has exactly the bits of the
metadata and of these blocks, and the cached inodes agree with the disk. -/
structure WellFormed (fs : Fs) : Prop where
  blocks : Blocks fs.sb fs.disk (held fs.sb fs.disk fs.dinode)
  mapped : ∀ inum < fs.sb.ninodes.toNat, (fs.dinode inum).type ≠ 0 → (fs.dinode inum).Mapped fs.disk
  cached : fs.Cached

theorem WellFormed.image (formed : fs.WellFormed) : FsImage fs.sb fs.disk fs.dinode (fileUnits fs.dinode) where
  toBlocks := formed.blocks
  filled inum inside type := Dinode.mapped_iff_filled.mp (formed.mapped inum inside type)

theorem WellFormed.of_image (image : FsImage fs.sb fs.disk fs.dinode (fileUnits fs.dinode)) (cached : fs.Cached) :
    fs.WellFormed where
  blocks := image.toBlocks
  mapped inum inside type := Dinode.mapped_iff_filled.mpr (image.filled inum inside type)
  cached := cached

theorem Cached.live (cached : fs.Cached) (locked : fs.Locked ip) : fs.Live ip :=
  ⟨cached.inside ip locked.1, cached.type ip locked⟩

/-- The table with the copy of a locked inode is the table on disk. -/
theorem Cached.table_eq (cached : fs.Cached) (locked : fs.Locked ip) : fs.table ip = fs.dinode := by
  rw [table, cached.same ip locked]
  exact update_eq_self ..

/-- One entry of the cache may differ from the disk. -/
structure CachedBut (ip : Fin NINODE) (fs : Fs) : Prop where
  unique : ∀ ip other, 0 < (fs.icache ip).ref → 0 < (fs.icache other).ref →
    (fs.icache ip).inum = (fs.icache other).inum → ip = other
  inside : ∀ ip, 0 < (fs.icache ip).ref → (fs.icache ip).inum < fs.sb.ninodes.toNat
  same : ∀ other ≠ ip, fs.Locked other → fs.copy other = fs.dinode (fs.icache other).inum
  type : ∀ other ≠ ip, fs.Locked other → (fs.copy other).type ≠ 0

theorem Cached.but (cached : fs.Cached) (ip : Fin NINODE) : fs.CachedBut ip where
  unique := cached.unique
  inside := cached.inside
  same other _ := cached.same other
  type other _ := cached.type other

namespace CachedBut

variable (but : fs.CachedBut ip)
include but

theorem cached (same : fs.Locked ip → fs.copy ip = fs.dinode (fs.icache ip).inum)
    (type : fs.Locked ip → (fs.copy ip).type ≠ 0) : fs.Cached where
  unique := but.unique
  inside := but.inside
  same other locked := by
    by_cases equal : other = ip
    · subst equal
      exact same locked
    · exact but.same other equal locked
  type other locked := by
    by_cases equal : other = ip
    · subst equal
      exact type locked
    · exact but.type other equal locked

theorem congr (sb : next.sb = fs.sb) (entry : (next.icache ip).inum = (fs.icache ip).inum)
    (used : 0 < (next.icache ip).ref → 0 < (fs.icache ip).ref)
    (others : ∀ other ≠ ip, next.icache other = fs.icache other)
    (inodes : ∀ other ≠ ip, fs.Locked other → next.dinode (fs.icache other).inum = fs.dinode (fs.icache other).inum) :
    next.CachedBut ip := by
  have inum : ∀ other, (next.icache other).inum = (fs.icache other).inum := by
    intro other
    by_cases equal : other = ip
    · rw [equal, entry]
    · rw [others other equal]
  have ref : ∀ other, 0 < (next.icache other).ref → 0 < (fs.icache other).ref := by
    intro other held
    by_cases equal : other = ip
    · rw [equal] at held ⊢
      exact used held
    · rwa [others other equal] at held
  have locked : ∀ other ≠ ip, next.Locked other → fs.Locked other := by
    intro other ne
    rw [Locked, Locked, others other ne]
    exact id
  have copy : ∀ other ≠ ip, next.copy other = fs.copy other := by
    intro other ne
    rw [Fs.copy, Fs.copy, others other ne]
  refine ⟨?_, ?_, ?_, ?_⟩
  · intro first second one two same
    rw [inum, inum] at same
    exact but.unique first second (ref first one) (ref second two) same
  · intro other held
    rw [inum, sb]
    exact but.inside other (ref other held)
  · intro other ne lock
    have before := locked other ne lock
    rw [copy other ne, inum, inodes other ne before]
    exact but.same other ne before
  · intro other ne lock
    rw [copy other ne]
    exact but.type other ne (locked other ne lock)

theorem setCopy (dinode : Dinode) : (fs.setCopy ip dinode).CachedBut ip := by
  apply but.congr
  · rfl
  · change (update fs.icache ip _ ip).inum = _
    rw [update_self]
  · change 0 < (update fs.icache ip _ ip).ref → _
    rw [update_self]
    exact id
  · intro other ne
    exact update_of_ne ne ..
  · exact fun _ _ _ => rfl

theorem edited (edited : Edited ip fs next) : next.CachedBut ip := by
  apply but.congr edited.sb edited.inum
  · rw [edited.entry]
    exact id
  · intro other ne
    rw [edited.cache, update_of_ne ne]
  · intro other _ locked
    exact edited.inodes _ (but.inside other locked.1)

end CachedBut

theorem setCopy_icache (fs : Fs) (ip : Fin NINODE) (dinode : Dinode) :
    (fs.setCopy ip dinode).icache ip = {fs.icache ip with dinode} := update_self ..

theorem setCopy_table (fs : Fs) (ip : Fin NINODE) (dinode : Dinode) :
    (fs.setCopy ip dinode).table ip = update (fs.table ip) (fs.icache ip).inum dinode := by
  rw [table, copy, setCopy_icache, table, update_idem]
  rfl

/-- The cached copy has been written to the inode on disk. No data block and no other inode has changed. -/
structure Synced (ip : Fin NINODE) (fs next : Fs) : Prop where
  sb : next.sb = fs.sb
  cache : next.icache = fs.icache
  inodes : ∀ inum < fs.sb.ninodes.toNat, next.dinode inum = fs.table ip inum
  data : ∀ c : BlockNo, fs.sb.dataStart ≤ c.toNat → next.disk c = fs.disk c
  image : ∀ units, FsImage fs.sb fs.disk (fs.table ip) units → FsImage next.sb next.disk next.dinode units

/-- The call writes the cached copy to the disk. -/
theorem wp_iupdate (layout : fs.sb.Layout) (inside : (fs.icache ip).inum < fs.sb.ninodes.toNat) {bad : FsPanic → Prop} :
    wp (iupdate ip) (fun _ next => Synced ip fs next) bad fs := by
  have inodes : ∀ inum < fs.sb.ninodes.toNat,
      (fs.setDinode (fs.icache ip).inum (fs.copy ip)).dinode inum = fs.table ip inum := by
    intro inum within
    rw [setDinode_dinode layout inside within, table, update_apply]
  rw [iupdate, wp_modify]
  refine ⟨rfl, rfl, inodes, ?_, ?_⟩
  · intro c data
    have bounds := layout.IBLOCK_bounds inside
    have low : fs.sb.bmapstart.toNat ≤ fs.sb.dataStart := (Nat.le_add_right ..).trans layout.bitmap
    apply update_of_ne
    rintro rfl
    omega
  · intro units image
    apply (image.writeInode inside _).congr
    intro inum within
    rw [inodes inum within]
    exact ⟨rfl, rfl⟩

theorem Synced.copy_eq (synced : Synced ip fs next) (inside : (fs.icache ip).inum < fs.sb.ninodes.toNat) :
    next.copy ip = next.dinode (next.icache ip).inum := by
  rw [copy, synced.cache, synced.inodes _ inside, table_self, copy]

theorem CachedBut.synced (but : fs.CachedBut ip) (used : 0 < (fs.icache ip).ref) (synced : Synced ip fs next) :
    next.CachedBut ip := by
  apply but.congr synced.sb (by rw [synced.cache])
  · exact fun _ => used
  · intro other _
    rw [synced.cache]
  · intro other ne locked
    rw [synced.inodes _ (but.inside other locked.1), table, update_of_ne]
    intro same
    exact ne (but.unique other ip locked.1 used same)

end Fs
end Xv6
