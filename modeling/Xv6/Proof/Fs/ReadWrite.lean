import Xv6.Proof.Fs.Files
import Xv6.Library.EventRun

namespace Xv6
open Library Function List Nat Dinode
variable {position : Nat} {bytes : List (BitVec 8)}

/-- The bytes from an offset on are replaced. -/
def overwrite (old : List (BitVec 8)) (off : Nat) (bytes : List (BitVec 8)) : List (BitVec 8) :=
  old.take off ++ bytes ++ old.drop (off + bytes.length)

theorem overwrite_length (old bytes : List (BitVec 8)) {off : Nat} (inside : off ≤ old.length) :
    (overwrite old off bytes).length = max old.length (off + bytes.length) := by
  simp only [overwrite, length_append, length_take, length_drop]
  omega

theorem overwrite_end (old bytes : List (BitVec 8)) : overwrite old old.length bytes = old ++ bytes := by
  rw [overwrite, take_length, drop_eq_nil_of_le (Nat.le_add_right ..), append_nil]

theorem overwrite_getD (old bytes : List (BitVec 8)) {off : Nat} (inside : off ≤ old.length) (index : Nat) :
    (overwrite old off bytes).getD index 0 =
      if off ≤ index ∧ index < off + bytes.length then bytes.getD (index - off) 0 else old.getD index 0 := by
  have start : (old.take off).length = off := by rw [length_take, min_eq_left inside]
  simp only [overwrite, getD_eq_getElem?_getD, append_assoc]
  by_cases before : index < off
  · rw [getElem?_append_left (by omega), getElem?_take, if_pos before, if_neg (by omega)]
  · rw [getElem?_append_right (by omega), start]
    by_cases covered : index < off + bytes.length
    · rw [getElem?_append_left (by omega), if_pos (by omega)]
    · rw [getElem?_append_right (by omega), getElem?_drop, if_neg (by omega)]
      congr 2
      omega

theorem blockCount_mono {few many : Nat} (le : few ≤ many) : blockCount few ≤ blockCount many :=
  Nat.div_le_div_right (by omega)

namespace Dinode

theorem content_length (dinode : Dinode) (disk : Disk) : (dinode.content disk).length = dinode.size.toNat := by
  rw [content, length_map, length_range]

theorem content_getD (dinode : Dinode) (disk : Disk) (inside : position < dinode.size.toNat) :
    (dinode.content disk).getD position 0 = dinode.byte disk position := by
  simp [content, getD_eq_getElem?_getD, inside]

/-- A file is determined by its length and its bytes. -/
theorem content_eq (dinode : Dinode) (disk : Disk) (length : bytes.length = dinode.size.toNat)
    (same : ∀ position < dinode.size.toNat, dinode.byte disk position = bytes.getD position 0) :
    dinode.content disk = bytes := by
  apply ext_getElem
  · rw [content_length, length]
  · intro position left right
    have inside : position < dinode.size.toNat := by rwa [content_length] at left
    have equal : (dinode.content disk).getD position 0 = bytes.getD position 0 := by
      rw [content_getD _ _ inside, same position inside]
    rwa [getD_eq_getElem?_getD, getD_eq_getElem?_getD, getElem?_eq_getElem left,
      getElem?_eq_getElem right, Option.getD_some, Option.getD_some] at equal

end Dinode

namespace Fs
variable {start fs next : Fs} {ip : Fin NINODE} {units : Nat → Nat} {off n : BitVec 32} {src : List (BitVec 8)}
  {devsw : Devsw} {inum here : Nat} {after : Disk} {size : BitVec 32} {bad : FsPanic → Prop}

theorem Synced.byte_kept (synced : Synced ip fs next) (image : FsImage fs.sb fs.disk (fs.table ip) units)
    (live : FsImage.Live fs.sb (fs.table ip) inum) (mapped : blockUnit (position / BSIZE) < units inum) :
    (next.dinode inum).byte next.disk position = (fs.table ip inum).byte fs.disk position := by
  have here := image.held_of_lt live mapped
  have same : (fs.table ip inum).unit next.disk (blockUnit (position / BSIZE)) =
      (fs.table ip inum).unit fs.disk (blockUnit (position / BSIZE)) :=
    unit_congr fun present => synced.data _ (image.data (FsImage.held_indirect fs.disk live present)).1
  rw [synced.inodes inum live.inside, byte, byte, block, block, same,
    synced.data _ (image.data here).1]

/-- The bytes of a file are in the data blocks. -/
theorem WellFormed.byte_kept (formed : fs.WellFormed) (inside : inum < fs.sb.ninodes.toNat)
    (type : (fs.dinode inum).type ≠ 0) (data : ∀ c : BlockNo, fs.sb.dataStart ≤ c.toNat → after c = fs.disk c)
    (below : position / BSIZE < blockCount (fs.dinode inum).size.toNat) :
    (fs.dinode inum).byte after position = (fs.dinode inum).byte fs.disk position := by
  have live : FsImage.Live fs.sb fs.dinode inum := ⟨inside, type⟩
  have here := formed.image.held_of_lt live (blockUnit_lt.mpr below)
  have same : (fs.dinode inum).unit after (blockUnit (position / BSIZE)) =
      (fs.dinode inum).unit fs.disk (blockUnit (position / BSIZE)) :=
    unit_congr fun present => data _ (formed.blocks.data (FsImage.held_indirect fs.disk live present)).1
  rw [byte, byte, block, block, same, data _ (formed.blocks.data here).1]

theorem WellFormed.content_kept (formed : fs.WellFormed) (inside : inum < fs.sb.ninodes.toNat)
    (type : (fs.dinode inum).type ≠ 0) (data : ∀ c : BlockNo, fs.sb.dataStart ≤ c.toNat → after c = fs.disk c) :
    (fs.dinode inum).content after = (fs.dinode inum).content fs.disk := by
  apply content_eq
  · exact content_length ..
  · intro position below
    rw [content_getD _ _ below]
    exact formed.byte_kept inside type data (div_lt_blockCount below)

/-- The bytes of one file have been overwritten, and all other files are as they were. -/
structure Overwritten (fs next : Fs) (ip : Fin NINODE) (off : Nat) (bytes : List (BitVec 8)) : Prop where
  content : (next.dinode (fs.icache ip).inum).content next.disk =
    overwrite ((fs.dinode (fs.icache ip).inum).content fs.disk) off bytes
  size : (next.dinode (fs.icache ip).inum).size.toNat = max (fs.dinode (fs.icache ip).inum).size.toNat (off + bytes.length)
  inodes : ∀ inum < fs.sb.ninodes.toNat, inum ≠ (fs.icache ip).inum → next.dinode inum = fs.dinode inum
  others : ∀ inum < fs.sb.ninodes.toNat, inum ≠ (fs.icache ip).inum → (fs.dinode inum).type ≠ 0 →
    (next.dinode inum).content next.disk = (fs.dinode inum).content fs.disk

/-- The inode on disk gets the block numbers of the cached copy and the new size. -/
structure Finished (ip : Fin NINODE) (units : Nat → Nat) (size : BitVec 32) (fs next : Fs) : Prop where
  sb : next.sb = fs.sb
  own : next.dinode (fs.icache ip).inum = {fs.copy ip with size}
  inodes : ∀ inum < fs.sb.ninodes.toNat, inum ≠ (fs.icache ip).inum → next.dinode inum = fs.dinode inum
  bytes : ∀ inum, FsImage.Live fs.sb (fs.table ip) inum → ∀ position, blockUnit (position / BSIZE) < units inum →
    (next.dinode inum).byte next.disk position = (fs.table ip inum).byte fs.disk position
  image : FsImage next.sb next.disk next.dinode units
  cached : next.Cached

/-- The write does not change the bytes of another file. -/
theorem Writing.byte_other {off : Nat} (writing : Writing start ip (fileUnits start.dinode) off src here fs)
    (formed : start.WellFormed) (locked : start.Locked ip) (inside : inum < start.sb.ninodes.toNat)
    (ne : inum ≠ (start.icache ip).inum) (type : (start.dinode inum).type ≠ 0)
    (mapped : blockUnit (position / BSIZE) < fileUnits start.dinode inum) :
    (start.dinode inum).byte fs.disk position = (start.dinode inum).byte start.disk position := by
  have there := formed.image.held_of_lt ⟨inside, type⟩ mapped
  rw [← formed.cached.table_eq locked] at there
  have middle : fs.table ip inum = start.table ip inum := by
    rw [table, writing.inum, update_of_ne ne, writing.inodes inum inside, table, update_of_ne ne]
  obtain ⟨_, _, unit, _⟩ := held_eq_some.mp (writing.places _ _ there)
  have same := writing.others _ _ there ne (blockUnit_ne _)
  rw [middle, formed.cached.table_eq locked] at unit
  rw [formed.cached.table_eq locked] at same
  rw [byte, byte, block, block, unit, same]

/-- A write that ends with the right size leaves a well-formed state. -/
theorem Writing.finish {last : Fs} {off : Nat} (formed : start.WellFormed) (locked : start.Locked ip)
    (prefixed : src.take bytes.length = bytes) (inside : off ≤ (start.copy ip).size.toNat)
    (grown : size.toNat = max (start.copy ip).size.toNat (off + bytes.length))
    (writing : Writing start ip (fileUnits start.dinode) off src (off + bytes.length) fs)
    (finished : Finished ip (update (fileUnits start.dinode) (start.icache ip).inum
      (max (fileUnits start.dinode (start.icache ip).inum) (unitCount (blockCount (off + bytes.length))))) size fs last) :
    last.WellFormed ∧ Overwritten start last ip off bytes := by
  have table := formed.cached.table_eq locked
  have same := formed.cached.same ip locked
  have live := formed.cached.live locked
  have number := writing.inum
  have own := finished.own
  rw [number] at own
  have units : unitCount (blockCount size.toNat) =
      max (fileUnits start.dinode (start.icache ip).inum) (unitCount (blockCount (off + bytes.length))) := by
    rw [grown, fileUnits, ← same]
    rcases le_total (start.copy ip).size.toNat (off + bytes.length) with grows | stays
    · rw [max_eq_right grows, max_eq_right (unitCount_mono (blockCount_mono grows))]
    · rw [max_eq_left stays, max_eq_left (unitCount_mono (blockCount_mono stays))]
  have taken : ∀ index < bytes.length, src.getD index 0 = bytes.getD index 0 := by
    intro index within
    have equal := congrArg (fun list => list.getD index 0) prefixed
    simp only [getD_eq_getElem?_getD, getElem?_take, if_pos within] at equal ⊢
    exact equal
  have others : ∀ inum < start.sb.ninodes.toNat, inum ≠ (start.icache ip).inum →
      last.dinode inum = start.dinode inum := by
    intro inum within ne
    rw [finished.inodes inum (by rw [writing.sb]; exact within) (by rw [number]; exact ne), writing.inodes inum within]
  constructor
  · apply WellFormed.of_image _ finished.cached
    apply finished.image.congr_units
    intro inum alive
    rw [update_apply]
    split
    · next equal => rw [equal, fileUnits, own, ← units]
    · next ne =>
        have within := alive.inside
        rw [finished.sb, writing.sb] at within
        rw [fileUnits, fileUnits, others inum within ne]
  · refine ⟨?_, ?_, others, ?_⟩
    · apply content_eq
      · rw [overwrite_length _ _ (by rw [content_length, ← same]; exact inside), content_length, own,
          grown, ← same]
      · intro position below
        have below : position < size.toNat := by rwa [own] at below
        have mapped : blockUnit (position / BSIZE) < update (fileUnits start.dinode) (start.icache ip).inum
            (max (fileUnits start.dinode (start.icache ip).inum) (unitCount (blockCount (off + bytes.length))))
            (fs.icache ip).inum := by
          rw [number, update_self, ← units, blockUnit_lt]
          exact div_lt_blockCount below
        have kept := finished.bytes _ (writing.live live).image position mapped
        rw [table_self, number] at kept
        rw [kept, overwrite_getD _ _ (by rw [content_length, ← same]; exact inside)]
        split
        · next covered =>
            rw [writing.written position covered.1 covered.2]
            exact taken (position - off) (by omega)
        · next outside =>
            have old : position < (start.dinode (start.icache ip).inum).size.toNat := by
              rw [← same]
              omega
            rw [content_getD _ _ old, ← same]
            apply writing.kept position _ outside
            rw [fileUnits, blockUnit_lt]
            exact div_lt_blockCount old
    · rw [own, ← same, grown]
    · intro inum within ne type
      have middle : fs.table ip inum = start.dinode inum := by
        rw [Fs.table, number, update_of_ne ne, writing.inodes inum within]
      apply content_eq
      · rw [content_length, others inum within ne]
      · intro position below
        rw [others inum within ne] at below
        have mapped : blockUnit (position / BSIZE) < fileUnits start.dinode inum :=
          blockUnit_lt.mpr (div_lt_blockCount below)
        have alive : FsImage.Live fs.sb (fs.table ip) inum :=
          ⟨by rw [writing.sb]; exact within, by rw [middle]; exact type⟩
        rw [finished.bytes inum alive position (by rw [update_of_ne ne]; exact mapped), middle,
          content_getD _ _ below]
        exact writing.byte_other formed locked within ne type mapped

theorem Writing.copy_eq {off : Nat} (writing : Writing start ip units off src here fs) (live : start.Live ip)
    (image : FsImage start.sb start.disk (start.table ip) units)
    (stays : unitCount (blockCount here) ≤ units (start.icache ip).inum) : fs.copy ip = start.copy ip := by
  have after := writing.image
  rw [max_eq_left stays, update_eq_self] at after
  have alive := writing.live live
  rw [← writing.sb] at after
  have filled := after.filled _ alive.inside alive.image.type
  have before := image.filled _ live.inside live.image.type
  rw [table_self] at filled before
  rw [writing.inum] at filled
  have addrs : (fs.copy ip).addrs = (start.copy ip).addrs := by
    funext index
    have new : (fs.copy ip).unit fs.disk index = (fs.copy ip).addrs index := unit_direct index.isLt
    have old : (start.copy ip).unit start.disk index = (start.copy ip).addrs index := unit_direct index.isLt
    by_cases inside : (index : Nat) < units (start.icache ip).inum
    · obtain ⟨_, _, same, _⟩ := held_eq_some.mp (writing.places _ _ (image.held_of_lt live.image inside))
      have own := table_self fs ip
      rw [writing.inum] at own
      rw [table_self, own, new, old] at same
      exact same
    · rw [← new, ← old, filled.eq_zero (by omega), before.eq_zero (by omega)]
  rw [writing.copy, addrs]

/-- The inode is written to the disk with a new size. -/
theorem Finished.of_synced (image : FsImage fs.sb fs.disk (fs.table ip) units) (but : fs.CachedBut ip)
    (live : fs.Live ip) (used : 0 < (fs.icache ip).ref) (synced : Synced ip (fs.setCopy ip {fs.copy ip with size}) next)
    : Finished ip units size fs next := by
  have entry := setCopy_icache fs ip {fs.copy ip with size}
  have table := setCopy_table fs ip {fs.copy ip with size}
  have alike : ∀ inum, ((fs.setCopy ip {fs.copy ip with size}).table ip inum).Alike (fs.table ip inum) := by
    intro inum
    rw [table, update_apply]
    split
    · next equal =>
        rw [equal, table_self]
        exact ⟨rfl, rfl⟩
    · exact ⟨rfl, rfl⟩
  have resized : FsImage fs.sb fs.disk ((fs.setCopy ip {fs.copy ip with size}).table ip) units :=
    image.congr fun inum _ => alike inum
  refine ⟨synced.sb, ?_, ?_, ?_, synced.image units resized, ?_⟩
  · rw [synced.inodes _ live.inside, table, update_self]
  · intro inum inside ne
    rw [synced.inodes inum inside, table, update_of_ne ne, Fs.table, update_of_ne ne]
  · intro inum alive position mapped
    have within : FsImage.Live fs.sb ((fs.setCopy ip {fs.copy ip with size}).table ip) inum :=
      ⟨alive.inside, by rw [(alike inum).type]; exact alive.type⟩
    rw [synced.byte_kept resized within mapped, byte, byte, block, block,
      (alike inum).unit_eq]
    rfl
  · have after := (but.setCopy {fs.copy ip with size}).synced (by rw [entry]; exact used) synced
    apply after.cached
    · intro _
      exact synced.copy_eq (by rw [entry]; exact live.inside)
    · intro _
      rw [copy, synced.cache, entry]
      exact live.type

/-- The size is stored if the file has grown, and the inode on disk is up to date. -/
theorem wp_growSize (formed : start.WellFormed) (locked : start.Locked ip)
    (inside : off.toNat ≤ (start.copy ip).size.toNat) (exact : (off + n).toNat = off.toNat + n.toNat)
    (writing : Writing start ip (fileUnits start.dinode) off.toNat src (off + n).toNat fs) :
    wp (growSize ip (off + n) n) (fun _ next => ∃ size : BitVec 32,
      size.toNat = max (start.copy ip).size.toNat (off.toNat + n.toNat) ∧
        Finished ip (update (fileUnits start.dinode) (start.icache ip).inum
          (max (fileUnits start.dinode (start.icache ip).inum) (unitCount (blockCount (off.toNat + n.toNat))))) size fs
          next) bad fs := by
  have live := formed.cached.live locked
  have alive := writing.live live
  have but := (formed.cached.but ip).edited writing.toEdited
  have image := writing.image
  rw [← writing.sb, exact] at image
  have size : (fs.copy ip).size = (start.copy ip).size := by rw [writing.copy]
  rw [growSize, wp_bind, wp_get, size]
  split
  · next grows =>
      have larger : (start.copy ip).size.toNat ≤ off.toNat + n.toNat := by
        rw [← exact]
        exact (BitVec.lt_def.mp grows.2).le
      have used : 0 < (fs.icache ip).ref := by
        rw [writing.entry]
        exact locked.1
      rw [wp_bind, wp_modify]
      refine wp_imp (wp_iupdate ?_ ?_) ?_
      · exact image.layout
      · rw [setCopy_icache]
        exact alive.inside
      · intro _ next synced
        exact ⟨off + n, by rw [exact, max_eq_right larger], .of_synced image but alive used synced⟩
  · next stays =>
      have smaller : off.toNat + n.toNat ≤ (start.copy ip).size.toNat := by
        rw [not_and_or, gt_iff_lt, gt_iff_lt, BitVec.not_lt, BitVec.not_lt, BitVec.le_def, BitVec.le_def, exact] at stays
        rcases stays with zero | below
        · have : n.toNat = 0 := le_zero.mp zero
          omega
        · exact below
      have copy := writing.copy_eq live (by rw [formed.cached.table_eq locked]; exact formed.image) (by
        rw [exact, fileUnits, ← formed.cached.same ip locked]
        exact unitCount_mono (blockCount_mono smaller))
      have own : fs.copy ip = fs.dinode (fs.icache ip).inum := by
        rw [copy, writing.inum, writing.inodes _ live.inside]
        exact formed.cached.same ip locked
      have table : fs.table ip = fs.dinode := by
        rw [Fs.table, own]
        exact update_eq_self ..
      rw [wp_pure]
      refine ⟨(start.copy ip).size, (max_eq_left smaller).symm, rfl, ?_, fun _ _ _ => rfl, ?_, ?_, ?_⟩
      · rw [← own, ← size]
      · intro inum _ position _
        rw [table]
      · rw [← table]
        exact image
      · exact but.cached (fun _ => own) fun _ => alive.type

theorem add_exact {off n : BitVec 32} : off + n < off ↔ 2 ^ 32 ≤ off.toNat + n.toNat := by
  have first := off.isLt
  have second := n.isLt
  rw [BitVec.lt_def, BitVec.toNat_add]
  omega

/-- The number of blocks that the file needs besides those that it has. -/
def blocksNeeded (dinode : Dinode) (finish : Nat) : Nat :=
  unitCount (blockCount finish) - unitCount (blockCount dinode.size.toNat)

/-- The loop writes the source into the file, or there are not enough free blocks. -/
theorem wp_writeChunks (formed : fs.WellFormed) (locked : fs.Locked ip) {off n : Nat} (enough : n ≤ src.length)
    (inside : off ≤ (fs.copy ip).size.toNat) (small : off + n ≤ MAXFILE * BSIZE) :
    wp (forChunks BSIZE (writeChunk ip) n off n src)
      (fun _ next => Writing fs ip (fileUnits fs.dinode) off src (off + n) next)
      (fun panic => panic = .outOfBlocks ∧ freeCount fs.sb fs.disk + fileUnits fs.dinode (fs.icache ip).inum <
        unitCount (blockCount (off + n))) fs := by
  have live := formed.cached.live locked
  have image : FsImage fs.sb fs.disk (fs.table ip) (fileUnits fs.dinode) := by
    rw [formed.cached.table_eq locked]
    exact formed.image
  have units : unitCount (blockCount off) ≤ fileUnits fs.dinode (fs.icache ip).inum := by
    rw [fileUnits, ← formed.cached.same ip locked]
    exact unitCount_mono (blockCount_mono inside)
  have loop : wp (forChunks BSIZE (writeChunk ip) n off n src)
      (fun rest next => Writing fs ip (fileUnits fs.dinode) off src (off + n) next ∧ rest = src.drop (off + n - off))
      (fun panic => panic = .outOfBlocks ∧ freeCount fs.sb fs.disk + fileUnits fs.dinode (fs.icache ip).inum <
        unitCount (blockCount (off + n))) fs := by
    apply wp_forChunks (fun here rest current =>
      Writing fs ip (fileUnits fs.dinode) off src here current ∧ rest = src.drop (here - off))
    · decide
    · exact le_rfl
    · exact ⟨.refl image units src, by rw [Nat.sub_self, drop_zero]⟩
    · rintro here _ current above below ⟨writing, rfl⟩
      exact wp_writeChunk live enough small writing above below
  exact wp_imp loop fun _ _ done => done.1

/-- The entry is still in use for a file of its type, and the free blocks that the file needed are taken. -/
structure Extends (fs next : Fs) (ip : Fin NINODE) (finish : Nat) : Prop where
  sb : next.sb = fs.sb
  entry : next.icache ip = {fs.icache ip with dinode := next.copy ip}
  type : (next.copy ip).type = (fs.copy ip).type
  free : freeCount fs.sb next.disk + max (fileUnits fs.dinode (fs.icache ip).inum) (unitCount (blockCount finish)) =
    freeCount fs.sb fs.disk + fileUnits fs.dinode (fs.icache ip).inum

theorem Writing.extends {off finish : Nat} (writing : Writing start ip (fileUnits start.dinode) off src finish fs)
    (layout : start.sb.Layout) (inside : (start.icache ip).inum < start.sb.ninodes.toNat) (last : BitVec 32) :
    wp (growSize ip last n) (fun _ next => Extends start next ip finish) bad fs := by
  have entry := writing.entry
  rw [growSize, wp_bind, wp_get]
  split
  · rw [wp_bind, wp_modify, iupdate, wp_modify]
    have icache := setCopy_icache fs ip {fs.copy ip with size := last}
    have sb : (fs.setCopy ip {fs.copy ip with size := last}).sb = start.sb := writing.sb
    have disk : (fs.setCopy ip {fs.copy ip with size := last}).disk = fs.disk := rfl
    generalize fs.setCopy ip {fs.copy ip with size := last} = grown at icache sb disk ⊢
    refine ⟨sb, ?_, ?_, ?_⟩
    · change grown.icache ip = {start.icache ip with dinode := (grown.icache ip).dinode}
      rw [icache, entry]
    · change (grown.icache ip).dinode.type = _
      rw [icache, writing.copy]
    · refine Eq.trans (congrArg (· + _) ?_) writing.free
      rw [← disk]
      apply freeCount_congr
      intro c within
      apply used_write layout (.inl _) _ within
      rw [icache, entry, sb]
      exact (layout.IBLOCK_bounds inside).2
  · exact ⟨writing.sb, by rw [copy, entry], by rw [writing.copy], writing.free⟩

/-- A write in range overwrites the file, or there are not enough free blocks. -/
theorem wp_writei (formed : fs.WellFormed) (locked : fs.Locked ip) (type : (fs.copy ip).type ≠ T_DEV)
    (enough : n.toNat ≤ src.length) (inside : off.toNat ≤ (fs.copy ip).size.toNat)
    (small : off.toNat + n.toNat ≤ MAXFILE * BSIZE) :
    wp (writei devsw ip src off n) (fun ret next => ret = some n.toNat ∧ next.WellFormed ∧
        Overwritten fs next ip off.toNat (src.take n.toNat) ∧ Extends fs next ip (off.toNat + n.toNat))
      (fun panic => panic = .outOfBlocks ∧
        freeCount fs.sb fs.disk < blocksNeeded (fs.copy ip) (off.toNat + n.toNat)) fs := by
  have exact : (off + n).toNat = off.toNat + n.toNat := by
    rw [BitVec.toNat_add]
    apply mod_eq_of_lt
    simp only [MAXFILE, NDIRECT, NINDIRECT, BSIZE] at small
    omega
  have same := formed.cached.same ip locked
  have taken : (src.take n.toNat).length = n.toNat := by rw [length_take, min_eq_left enough]
  have accepted : ¬(off > (fs.copy ip).size ∨ off + n < off) := by
    rw [gt_iff_lt, BitVec.lt_def, BitVec.lt_def, exact]
    omega
  rw [writei, wp_bind, wp_get, if_neg type, if_neg accepted, if_neg (by omega), wp_bind]
  apply wp_mono (wp_writeChunks formed locked enough inside small)
  · intro rest last writing
    rw [wp_bind]
    have live := formed.cached.live locked
    have extended : wp (growSize ip (off + n) n) _ (fun _ => True) last :=
      writing.extends formed.image.layout live.inside (off + n)
    refine wp_mono (wp_and (wp_growSize formed locked inside exact (by rw [exact]; exact writing)) extended) ?_
      fun _ both => both.1
    rintro _ next ⟨⟨size, grown, finished⟩, kept⟩
    rw [wp_pure]
    rw [← taken] at grown finished writing
    obtain ⟨after, overwritten⟩ := writing.finish formed locked (by rw [taken]) inside grown finished
    exact ⟨rfl, after, overwritten, kept⟩
  · rintro panic ⟨reason, few⟩
    rw [fileUnits, ← same] at few
    refine ⟨reason, ?_⟩
    rw [blocksNeeded]
    omega

/-- One iteration of the loop reads the bytes of one block. -/
theorem wp_readChunk (formed : fs.WellFormed) (locked : fs.Locked ip) {m : Nat} (positive : 0 < m)
    (fits : here % BSIZE + m ≤ BSIZE) (inside : here + m ≤ (fs.copy ip).size.toNat) (bytes : List (BitVec 8)) :
    wp (readChunk ip (here / BSIZE) (here % BSIZE) m bytes) (fun read next => next = fs ∧
      read = bytes ++ (range m).map fun index => (fs.copy ip).byte fs.disk (here + index)) bad fs := by
  have live := formed.cached.live locked
  have same := formed.cached.same ip locked
  have filled := formed.image.filled _ live.inside (by rw [← same]; exact live.type)
  rw [← same] at filled
  have most := (mapped_iff_filled.mpr (by rw [fileUnits, ← same] at filled; exact filled)).fits
  have below : here / BSIZE < blockCount (fs.copy ip).size.toNat := div_lt_blockCount (by omega)
  rw [readChunk, wp_bind]
  apply wp_imp (wp_bmap_mapped filled (lt_of_lt_of_le below most) (by
    rw [fileUnits, ← same, blockUnit_lt]
    exact below))
  rintro b next ⟨rfl, rfl⟩
  rw [wp_bind, wp_get, wp_pure]
  refine ⟨rfl, ?_⟩
  congr 1
  apply map_congr_left
  intro index member
  rw [mem_range] at member
  have block : (here + index) / BSIZE = here / BSIZE := by
    simp only [BSIZE] at fits ⊢
    omega
  have position : (here + index) % BSIZE = here % BSIZE + index := by
    simp only [BSIZE] at fits ⊢
    omega
  rw [byte, block, position]

/-- A read in range returns the bytes of the file and changes nothing. -/
theorem wp_readi (formed : fs.WellFormed) (locked : fs.Locked ip) (type : (fs.copy ip).type ≠ T_DEV)
    (inside : off.toNat ≤ (fs.copy ip).size.toNat) (small : off.toNat + n.toNat < 2 ^ 32) :
    wp (readi devsw ip off n) (fun ret next => next = fs ∧
      ret = some ((((fs.copy ip).content fs.disk).drop off.toNat).take n.toNat)) bad fs := by
  have exact : (off + n).toNat = off.toNat + n.toNat := by
    rw [BitVec.toNat_add]
    exact mod_eq_of_lt small
  have accepted : ¬(off > (fs.copy ip).size ∨ off + n < off) := by
    rw [gt_iff_lt, BitVec.lt_def, BitVec.lt_def, exact]
    omega
  rw [readi, wp_bind, wp_get, if_neg type, if_neg accepted, wp_bind]
  obtain ⟨count, counted⟩ : ∃ count : BitVec 32,
      count = if off + n > (fs.copy ip).size then (fs.copy ip).size - off else n := ⟨_, rfl⟩
  have number : count.toNat = min n.toNat ((fs.copy ip).size.toNat - off.toNat) := by
    rw [counted]
    split
    · next more =>
        rw [gt_iff_lt, BitVec.lt_def, exact] at more
        rw [BitVec.toNat_sub_of_le (BitVec.le_def.mpr inside)]
        omega
    · next fewer =>
        rw [gt_iff_lt, BitVec.lt_def, exact] at fewer
        omega
  rw [← counted]
  have loop : wp (forChunks BSIZE (readChunk ip) count.toNat off.toNat count.toNat [])
      (fun bytes next => next = fs ∧ bytes = (range (off.toNat + count.toNat - off.toNat)).map fun index =>
        (fs.copy ip).byte fs.disk (off.toNat + index)) bad fs := by
    apply wp_forChunks (fun here bytes next => next = fs ∧
      bytes = (range (here - off.toNat)).map fun index => (fs.copy ip).byte fs.disk (off.toNat + index))
    · decide
    · exact le_rfl
    · simp
    · rintro here _ _ above below ⟨rfl, rfl⟩
      have block : here % BSIZE < BSIZE := mod_lt _ (by decide)
      apply wp_imp (wp_readChunk formed locked (by omega) (by omega) (by omega) _)
      rintro _ _ ⟨rfl, rfl⟩
      refine ⟨rfl, ?_⟩
      have split : here + min (off.toNat + count.toNat - here) (BSIZE - here % BSIZE) - off.toNat =
          here - off.toNat + min (off.toNat + count.toNat - here) (BSIZE - here % BSIZE) := by omega
      rw [split, range_add, map_append, map_map]
      congr 1
      apply map_congr_left
      intro index _
      have position : off.toNat + (here - off.toNat + index) = here + index := by omega
      rw [comp_apply, position]
  apply wp_imp loop
  rintro bytes next ⟨rfl, rfl⟩
  rw [wp_pure]
  refine ⟨rfl, ?_⟩
  congr 1
  apply ext_getElem
  · simp only [length_map, length_range, length_take, length_drop, content_length]
    omega
  · intro index left right
    simp [content]

/-- The super block of a small disk with one block of inodes and one block of the free map. -/
def smallSuper (size : BitVec 32) : Superblock where
  size := size
  nblocks := size - 4
  ninodes := 8
  nlog := 0
  logstart := 2
  inodestart := 2
  bmapstart := 3

/-- The inode of an empty file. -/
def emptyFile : Dinode := {Dinode.zero with type := T_FILE, nlink := 1}

def smallDisk (size : BitVec 32) : Disk := fun b =>
  if b = 1 then setSlots 0 0 [size, size - 4, 8, 0, 2, 2, 3]
  else if b = 2 then setSlot 0 1 emptyFile.encode
  else if b = 3 then 0xf
  else 0

/-- A small disk with one empty file, which is locked. -/
def smallFs (size : BitVec 32) : Fs where
  sb := smallSuper size
  disk := smallDisk size
  icache ip := if ip.val = 0 then ⟨1, 1, true, emptyFile⟩ else ⟨0, 0, false, Dinode.zero⟩

theorem smallFs_dinode (size : BitVec 32) (inside : inum < 8) :
    (smallFs size).dinode inum = if inum = 1 then emptyFile else zero := by
  have block : IBLOCK inum (smallSuper size) = 2 := by
    have first : inum / IPB = 0 := div_eq_of_lt inside
    rw [IBLOCK, first]
    rfl
  have position : inum % IPB = inum := mod_eq_of_lt inside
  change decode (slot (8 * dinodeSize) (smallDisk size (IBLOCK inum (smallSuper size))) (inum % IPB)) = _
  rw [block, position]
  change decode (slot (8 * dinodeSize) (setSlot 0 1 emptyFile.encode) inum) = _
  split
  · next same =>
      rw [same, slot_setSlot_same _ _ _ (by decide), decode_encode]
  · next ne =>
      rw [slot_setSlot_ne _ _ _ _ ne]
      apply Dinode.ext <;> simp [Dinode.decode, Dinode.zero]

theorem smallFs_layout (large : 4 ≤ size.toNat) (small : size.toNat ≤ BPB) :
    (smallSuper size).Layout ∧ (smallSuper size).dataStart = 4 := by
  have start : (smallSuper size).dataStart = 4 := by
    change size.toNat - (size - 4).toNat = 4
    have four : (4 : BitVec 32) ≤ size := by
      rw [BitVec.le_def]
      exact large
    rw [BitVec.toNat_sub_of_le four]
    change size.toNat - (size.toNat - 4) = 4
    omega
  have inodes : 2 + (8 + IPB - 1) / IPB ≤ 3 := by decide
  refine ⟨⟨le_rfl, inodes, ?_⟩, start⟩
  rw [start]
  change 3 + (size.toNat + BPB - 1) / BPB ≤ 4
  simp only [BPB, BSIZE] at small ⊢
  omega

theorem emptyFile_unit (disk : Disk) (index : Nat) : emptyFile.unit disk index = 0 :=
  unit_empty fun _ => rfl

theorem smallFs_held (size : BitVec 32) (place : Nat × Nat) :
    held (smallSuper size) (smallDisk size) (smallFs size).dinode place = none := by
  rw [held]
  split
  · next allocated =>
      have inside : place.1 < 8 := allocated.1
      have type := allocated.2
      rw [smallFs_dinode size inside] at type ⊢
      split
      · rw [emptyFile_unit]
        rfl
      · next ne =>
          rw [if_neg ne] at type
          exact absurd rfl type
  · rfl

theorem smallFs_used {b : BitVec 32} (small : size.toNat ≤ BPB) (inside : b.toNat < size.toNat) :
    Used (smallSuper size) (smallDisk size) b ↔ b.toNat < 4 := by
  have first : b.toNat / BPB = 0 := div_eq_of_lt (by omega)
  have bit : b.toNat % BPB = b.toNat := mod_eq_of_lt (by omega)
  have mask : (0xf : Block) = BitVec.ofNat (8 * BSIZE) (2 ^ 4 - 1) := rfl
  have block : b.toNat < 8 * BSIZE := by
    rw [mul_comm]
    exact lt_of_lt_of_le inside small
  rw [Used, BBLOCK, first, bit]
  change BitVec.getLsbD (0xf : Block) b.toNat = true ↔ _
  rw [mask, BitVec.getLsbD_ofNat, testBit_two_pow_sub_one]
  simp [block]

theorem smallFs_wellFormed (large : 4 ≤ size.toNat) (small : size.toNat ≤ BPB) : (smallFs size).WellFormed := by
  obtain ⟨layout, start⟩ := smallFs_layout large small
  refine ⟨⟨layout, ?_, ?_, ?_, ?_⟩, ?_, ?_⟩
  · change Superblock.parse (setSlots 0 0 [size, size - 4, 8, 0, 2, 2, 3]) = smallSuper size
    have words : ∀ index, slot 32 (setSlots (0 : Block) 0 [size, size - 4, 8, 0, 2, 2, 3]) index =
        ([size, size - 4, 8, 0, 2, 2, 3][index]?).getD (slot 32 (0 : Block) index) := by
      intro index
      have fits : 32 * (0 + 7) ≤ 8 * BSIZE := by decide
      rw [slot_setSlots (0 : Block) 0 index [size, size - 4, 8, 0, 2, 2, 3] fits, if_neg (Nat.not_lt_zero _), Nat.sub_zero]
    simp only [Superblock.parse, words]
    rfl
  · intro place other unit here
    cases (smallFs_held size place).symm.trans here
  · intro place unit here
    cases (smallFs_held size place).symm.trans here
  · intro b inside
    change Used (smallSuper size) (smallDisk size) b ↔ b.toNat < (smallSuper size).dataStart ∨ _
    rw [smallFs_used small inside, start]
    constructor
    · exact .inl
    · rintro (below | ⟨place, here⟩)
      · exact below
      · cases (smallFs_held size place).symm.trans here
  · intro inum inside type
    rw [smallFs_dinode size inside] at type ⊢
    split
    · rw [mapped_iff_filled]
      intro index
      rw [emptyFile_unit]
      have none : unitCount (blockCount emptyFile.size.toNat) = 0 := by decide
      rw [none]
      constructor
      · exact absurd rfl
      · exact fun below => absurd below (not_lt_zero _)
    · next ne =>
        rw [if_neg ne] at type
        exact absurd rfl type
  · have entry : ∀ ip : Fin NINODE, 0 < ((smallFs size).icache ip).ref → ip.val = 0 := by
      intro ip held
      by_contra other
      change 0 < (if ip.val = 0 then (⟨1, 1, true, emptyFile⟩ : Inode) else ⟨0, 0, false, .zero⟩).ref at held
      rw [if_neg other] at held
      exact absurd held (by decide)
    have first : ∀ ip : Fin NINODE, ip.val = 0 → (smallFs size).icache ip = ⟨1, 1, true, emptyFile⟩ :=
      fun ip zero => if_pos zero
    refine ⟨?_, ?_, ?_, ?_⟩
    · intro ip other one two _
      exact Fin.ext ((entry ip one).trans (entry other two).symm)
    · intro ip held
      rw [first ip (entry ip held)]
      exact (by decide : 1 < 8)
    · intro ip locked
      rw [copy, first ip (entry ip locked.1), smallFs_dinode size (by decide)]
      rfl
    · intro ip locked
      rw [copy, first ip (entry ip locked.1)]
      decide

end Fs
end Xv6
