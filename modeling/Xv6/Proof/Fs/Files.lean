import Xv6.Proof.Fs.WellFormed

namespace Xv6
open Library Function Dinode List
variable {position : Nat}

namespace Dinode

/-- The byte at a position of the file. -/
def byte (dinode : Dinode) (disk : Disk) (position : Nat) : BitVec 8 :=
  slot 8 (disk (dinode.block disk (position / BSIZE))) (position % BSIZE)

/-- The file is a byte string of the length of its size. -/
def content (dinode : Dinode) (disk : Disk) : List (BitVec 8) :=
  (List.range dinode.size.toNat).map (dinode.byte disk)

end Dinode

theorem div_lt_blockCount {bytes : Nat} (below : position < bytes) : position / BSIZE < blockCount bytes := by
  simp only [blockCount, BSIZE]
  omega

namespace FsImage
variable {sb : Superblock} {disk : Disk} {table : Nat → Dinode} {units : Nat → Nat} {inum index : Nat} {b : BlockNo}
  {other : Nat}

variable (image : FsImage sb disk table units)
include image

variable (here : held sb disk table (inum, index) = some b)
include here

/-- A write to the block of a file changes no block number. -/
theorem indirect_writeData (data : index ≠ NDIRECT) (block : Block)
    (live : Live sb table other) (present : (table other).indirect ≠ 0) :
    update disk b block (table other).indirect = disk (table other).indirect := by
  apply update_of_ne
  intro same
  have there := held_indirect disk live present
  rw [same] at there
  exact data (congrArg Prod.snd (image.owned.unique _ _ _ here there))

theorem held_writeData (data : index ≠ NDIRECT) (block : Block) :
    held sb (update disk b block) table = held sb disk table :=
  held_congr fun _ inside type present => image.indirect_writeData here data block ⟨inside, type⟩ present

theorem unit_writeData (data : index ≠ NDIRECT) (block : Block)
    (live : Live sb table other) (position : Nat) :
    (table other).unit (update disk b block) position = (table other).unit disk position :=
  unit_congr (image.indirect_writeData here data block live)

end FsImage

namespace Fs
variable {start fs middle next : Fs} {ip : Fin NINODE} {units : Nat → Nat} {off here bn count : Nat}
  {src : List (BitVec 8)} {b : BlockNo} {bytes : List (BitVec 8)} {m : Nat}

/-- The block of a part of the file that exists is found without an allocation. -/
theorem wp_bmap_mapped (filled : (fs.copy ip).Filled fs.disk (units (fs.icache ip).inum)) (high : bn < MAXFILE)
    (mapped : blockUnit bn < units (fs.icache ip).inum) {bad : FsPanic → Prop} :
    wp (bmap ip bn) (fun b last => last = fs ∧ b = (fs.copy ip).block fs.disk bn) bad fs := by
  have nonzero := (filled _).mpr mapped
  rw [bmap]
  split
  · next direct =>
      rw [blockUnit, if_pos direct, unit_direct (by omega)] at nonzero
      rw [addrBlock, wp_bind, wp_get, if_neg nonzero, wp_pure, block, blockUnit, if_pos direct,
        unit_direct (by omega)]
      exact ⟨rfl, rfl⟩
  · next entry =>
      rw [blockUnit, if_neg entry] at mapped nonzero
      have present : (fs.copy ip).indirect ≠ 0 := by
        exact (filled NDIRECT).mpr (by omega)
      have position : bn + 1 - (NDIRECT + 1) = bn - NDIRECT := by omega
      rw [unit_entry (by omega) present, position] at nonzero
      rw [if_pos (by rw [MAXFILE] at high; omega), wp_bind, addrBlock, wp_bind, wp_get, if_neg (show ¬(fs.copy ip).addrs (Fin.last NDIRECT) = 0 from present),
        wp_pure, entryBlock, wp_bind, wp_get,
        if_neg (show ¬slot 32 (fs.disk ((fs.copy ip).addrs (Fin.last NDIRECT))) (bn - NDIRECT) = 0 from nonzero), wp_pure,
        block, blockUnit, if_neg entry, unit_entry (by omega) present, position]
      exact ⟨rfl, rfl⟩

/-- An extension of the file keeps the bytes that it had. -/
theorem Extended.byte_kept (extended : Extended ip units fs next count) (live : fs.Live ip)
    (image : FsImage fs.sb fs.disk (fs.table ip) units)
    (mapped : blockUnit (position / BSIZE) < units (fs.icache ip).inum) :
    (next.copy ip).byte next.disk position = (fs.copy ip).byte fs.disk position := by
  have there := image.held_of_lt live.image mapped
  rw [table_self] at there
  rw [byte, byte, block, block, extended.unit_kept live image mapped,
    (extended.grows _ _ there).2 (blockUnit_ne _)]

/-- A part of the file has been written. -/
structure Writing (start : Fs) (ip : Fin NINODE) (units : Nat → Nat) (off : Nat) (src : List (BitVec 8)) (here : Nat)
    (fs : Fs) : Prop extends Edited ip start fs where
  image : FsImage start.sb fs.disk (fs.table ip) (Function.update units (start.icache ip).inum
    (max (units (start.icache ip).inum) (unitCount (blockCount here))))
  free : freeCount start.sb fs.disk + max (units (start.icache ip).inum) (unitCount (blockCount here)) =
    freeCount start.sb start.disk + units (start.icache ip).inum
  places : ∀ place b, held start.sb start.disk (start.table ip) place = some b →
    held start.sb fs.disk (fs.table ip) place = some b
  others : ∀ place b, held start.sb start.disk (start.table ip) place = some b →
    place.1 ≠ (start.icache ip).inum → place.2 ≠ NDIRECT → fs.disk b = start.disk b
  written : ∀ position, off ≤ position → position < here →
    (fs.copy ip).byte fs.disk position = src.getD (position - off) 0
  kept : ∀ position, blockUnit (position / BSIZE) < units (start.icache ip).inum →
    ¬(off ≤ position ∧ position < here) → (fs.copy ip).byte fs.disk position = (start.copy ip).byte start.disk position
  fresh : ∀ position, here ≤ position → units (start.icache ip).inum ≤ blockUnit (position / BSIZE) →
    blockUnit (position / BSIZE) < max (units (start.icache ip).inum) (unitCount (blockCount here)) →
    (fs.copy ip).byte fs.disk position = 0

namespace Writing

theorem refl (image : FsImage fs.sb fs.disk (fs.table ip) units)
    (inside : unitCount (blockCount off) ≤ units (fs.icache ip).inum) (src : List (BitVec 8)) :
    Writing fs ip units off src off fs where
  toEdited := .refl ip fs
  image := by
    rw [max_eq_left inside, update_eq_self]
    exact image
  free := by rw [max_eq_left inside]
  places _ _ here := here
  others _ _ _ _ _ := rfl
  written position above below := by omega
  kept _ _ _ := rfl
  fresh position _ beyond below := by
    rw [max_eq_left inside] at below
    exact absurd below (Nat.not_lt.mpr beyond)

end Writing

theorem table_write (image : FsImage fs.sb fs.disk (fs.table ip) units) {place : Nat × Nat}
    (here : held fs.sb fs.disk (fs.table ip) place = some b) (block : Block) {inum : Nat}
    (inside : inum < fs.sb.ninodes.toNat) : (fs.write b block).table ip inum = fs.table ip inum := by
  have edited : Edited ip fs (fs.write b block) :=
    .of_cache rfl rfl fun inum inside => dinode_write image.layout (image.data here).1 block inside
  exact edited.table_eq rfl inside

/-- The block of the file is overwritten in part. -/
theorem byte_writeBlock {data : Block} {start : Nat} (fits : start + m ≤ BSIZE) (length : bytes.length = m) :
    slot 8 (setSlots data start bytes) position =
      if start ≤ position ∧ position < start + m then bytes.getD (position - start) 0 else slot 8 data position := by
  rw [slot_setSlots _ _ _ _ (by rw [length]; omega)]
  by_cases below : position < start
  · rw [if_pos below, if_neg (by omega)]
  · rw [if_neg below]
    by_cases inside : position - start < m
    · rw [if_pos (by omega), getD_eq_getElem?_getD, getElem?_eq_getElem (by omega)]
      rfl
    · rw [if_neg (by omega), getElem?_eq_none (by omega)]
      rfl

/-- A write to one block of the file changes the written bytes only. -/
theorem byte_write (image : FsImage fs.sb fs.disk (fs.table ip) units) (live : fs.Live ip)
    (found : (fs.copy ip).block fs.disk (here / BSIZE) = b)
    (mapped : blockUnit (here / BSIZE) < units (fs.icache ip).inum) (fits : here % BSIZE + m ≤ BSIZE)
    (length : bytes.length = m) (there : blockUnit (position / BSIZE) < units (fs.icache ip).inum) :
    (fs.copy ip).byte (fs.write b (setSlots (fs.disk b) (here % BSIZE) bytes)).disk position =
      if here ≤ position ∧ position < here + m then bytes.getD (position - here) 0
      else (fs.copy ip).byte fs.disk position := by
  have held := image.held_of_lt live.image mapped
  have unit := image.unit_writeData held (blockUnit_ne _) (setSlots (fs.disk b) (here % BSIZE) bytes) live.image
    (blockUnit (position / BSIZE))
  have other := image.held_of_lt live.image there
  rw [table_self] at held unit other
  rw [block] at found
  rw [found] at held unit
  have small := Nat.mod_lt position (show 0 < BSIZE by decide)
  have split := Nat.div_add_mod position BSIZE
  have parts := Nat.div_add_mod here BSIZE
  change slot 8 (update fs.disk b _ ((fs.copy ip).unit (update fs.disk b _) _)) _ = _
  rw [unit]
  by_cases same : position / BSIZE = here / BSIZE
  · rw [same] at split ⊢
    have inside : here % BSIZE ≤ position % BSIZE ∧ position % BSIZE < here % BSIZE + m ↔
        here ≤ position ∧ position < here + m := by omega
    have distance : position % BSIZE - here % BSIZE = position - here := by omega
    rw [found, update_self, byte_writeBlock fits length, distance, byte, block, same, found]
    simp only [inside]
  · rw [update_of_ne, if_neg, byte, block]
    · rintro ⟨lower, upper⟩
      apply same
      simp only [BSIZE] at *
      omega
    · intro equal
      rw [equal] at other
      exact same (blockUnit_injective (congrArg Prod.snd (image.owned.unique _ _ _ other held)))

theorem getD_take_drop (src : List (BitVec 8)) {skip index : Nat} (inside : index < m) :
    ((src.drop skip).take m).getD index 0 = src.getD (skip + index) 0 := by
  rw [getD_eq_getElem?_getD, getElem?_take, if_pos inside, getElem?_drop, ← getD_eq_getElem?_getD]

/-- The written part of the file grows by a part of one block. -/
theorem Writing.chunk (writing : Writing start ip units off src here fs) (live : start.Live ip) (above : off ≤ here)
    (positive : 0 < m) (fits : here % BSIZE + m ≤ BSIZE) (enough : here - off + m ≤ src.length)
    (extended : Extended ip (update units (start.icache ip).inum
      (max (units (start.icache ip).inum) (unitCount (blockCount here)))) fs middle
      (max (units (start.icache ip).inum) (unitCount (blockCount (here + m)))))
    (found : (middle.copy ip).block middle.disk (here / BSIZE) = b) :
    Writing start ip units off src (here + m)
      (middle.write b (setSlots (middle.disk b) (here % BSIZE) ((src.drop (here - off)).take m))) := by
  have number : (middle.icache ip).inum = (start.icache ip).inum := extended.inum.trans writing.inum
  have sb : middle.sb = start.sb := extended.sb.trans writing.sb
  have blocks : blockCount (here + m) = here / BSIZE + 1 := by
    simp only [blockCount, BSIZE] at fits ⊢
    omega
  have before := writing.image
  rw [← writing.sb] at before
  have alive := writing.live live
  have living := extended.live alive
  have image := extended.image
  rw [writing.inum, update_idem, writing.sb, ← sb] at image
  have mapped : blockUnit (here / BSIZE) < max (units (start.icache ip).inum) (unitCount (blockCount (here + m))) := by
    apply lt_of_lt_of_le _ (le_max_right ..)
    rw [blockUnit_lt, blocks]
    exact Nat.lt_succ_self _
  have held := image.held_of_lt living.image (by rw [number, update_self]; exact mapped)
  rw [table_self] at held
  have block : (middle.copy ip).unit middle.disk (blockUnit (here / BSIZE)) = b := found
  rw [block] at held
  have length : ((src.drop (here - off)).take m).length = m := by
    rw [length_take, length_drop]
    omega
  have changed : ∀ position, blockUnit (position / BSIZE) <
        max (units (start.icache ip).inum) (unitCount (blockCount (here + m))) →
      (middle.copy ip).byte (middle.write b (setSlots (middle.disk b) (here % BSIZE)
        ((src.drop (here - off)).take m))).disk position =
        if here ≤ position ∧ position < here + m then src.getD (position - off) 0
        else (middle.copy ip).byte middle.disk position := by
    intro position there
    rw [byte_write image living found (by rw [number, update_self]; exact mapped) fits length
      (by rw [number, update_self]; exact there)]
    split
    · rw [getD_take_drop src (by omega)]
      congr 1
      omega
    · rfl
  have kept : ∀ position, blockUnit (position / BSIZE) <
        max (units (start.icache ip).inum) (unitCount (blockCount here)) →
      (middle.copy ip).byte middle.disk position = (fs.copy ip).byte fs.disk position := by
    intro position there
    exact extended.byte_kept alive before (by rw [writing.inum, update_self]; exact there)
  generalize setSlots (middle.disk b) (here % BSIZE) ((src.drop (here - off)).take m) = data at changed ⊢
  have alike : ∀ inum < middle.sb.ninodes.toNat, ((middle.write b data).table ip inum).Alike (middle.table ip inum) := by
    intro inum inside
    rw [table_write image held _ inside]
    exact ⟨rfl, rfl⟩
  have high := (image.data held).1
  refine ⟨?_, ?_, ?_, ?_, ?_, ?_, ?_, ?_⟩
  · apply (writing.toEdited.trans extended.toEdited).trans
    refine .of_cache rfl rfl ?_
    intro inum inside
    exact dinode_write image.layout high _ inside
  · rw [← sb]
    exact (image.writeData held (blockUnit_ne _) _).congr alike
  · have same : freeCount middle.sb (middle.write b data).disk = freeCount middle.sb middle.disk :=
      freeCount_congr fun c inside => used_write image.layout (.inr high) _ inside
    have first := writing.free
    have second := extended.free
    rw [writing.inum, update_self, writing.sb] at second
    rw [sb] at same
    omega
  · intro place c there
    have grown := (extended.grows place c (by rw [writing.sb]; exact writing.places place c there)).1
    rw [writing.sb, ← sb] at grown
    rw [← sb, held_table alike, ← grown]
    exact congrFun (image.held_writeData held (blockUnit_ne _) data) place
  · intro place c there other entry
    obtain ⟨grown, same⟩ := extended.grows place c (by rw [writing.sb]; exact writing.places place c there)
    rw [writing.sb, ← sb] at grown
    rw [← writing.others place c there other entry, ← same entry]
    apply update_of_ne
    rintro rfl
    have equal := image.owned.unique _ _ _ grown held
    rw [equal] at other
    exact other number
  · intro position low high
    have there : position / BSIZE < blockCount (here + m) := div_lt_blockCount high
    change (middle.copy ip).byte _ _ = _
    rw [changed position (lt_of_lt_of_le (blockUnit_lt.mpr there) (le_max_right ..))]
    split
    · rfl
    · have earlier : position < here := by omega
      rw [kept position (lt_of_lt_of_le (blockUnit_lt.mpr (div_lt_blockCount earlier)) (le_max_right ..))]
      exact writing.written position low earlier
  · intro position there outside
    change (middle.copy ip).byte _ _ = _
    rw [changed position (lt_of_lt_of_le there (le_max_left ..)), if_neg (by omega),
      kept position (lt_of_lt_of_le there (le_max_left ..))]
    exact writing.kept position there (by omega)
  · intro position after beyond there
    change (middle.copy ip).byte _ _ = _
    rw [changed position there, if_neg (by omega)]
    by_cases old : blockUnit (position / BSIZE) < max (units (start.icache ip).inum) (unitCount (blockCount here))
    · rw [kept position old]
      exact writing.fresh position (by omega) beyond old
    · have new := extended.zero (blockUnit (position / BSIZE))
        (by rw [writing.inum, update_self]; exact Nat.le_of_not_lt old) there (blockUnit_ne _)
      rw [Dinode.byte, Dinode.block, new]
      exact slot_zero ..

/-- One iteration of the loop writes the part of the source that belongs to one block. -/
theorem wp_writeChunk (live : start.Live ip) {n : Nat} (enough : n ≤ src.length) (fits : off + n ≤ MAXFILE * BSIZE)
    (writing : Writing start ip units off src here fs) (above : off ≤ here) (below : here < off + n) :
    wp (writeChunk ip (here / BSIZE) (here % BSIZE) (min (off + n - here) (BSIZE - here % BSIZE)) (src.drop (here - off)))
      (fun rest next =>
        Writing start ip units off src (here + min (off + n - here) (BSIZE - here % BSIZE)) next ∧
          rest = src.drop (here + min (off + n - here) (BSIZE - here % BSIZE) - off))
      (fun panic => panic = .outOfBlocks ∧
        freeCount start.sb start.disk + units (start.icache ip).inum < unitCount (blockCount (off + n))) fs := by
  have small : here % BSIZE < BSIZE := Nat.mod_lt _ (by decide)
  obtain ⟨m, chunk⟩ : ∃ m, m = min (off + n - here) (BSIZE - here % BSIZE) := ⟨_, rfl⟩
  rw [← chunk]
  have blocks : blockCount (here + m) = here / BSIZE + 1 := by
    simp only [blockCount, BSIZE] at chunk small ⊢
    omega
  have around : here / BSIZE ≤ blockCount here ∧ blockCount here ≤ here / BSIZE + 1 := by
    simp only [blockCount, BSIZE]
    omega
  have high : here / BSIZE < MAXFILE := by
    simp only [BSIZE] at fits ⊢
    omega
  have image := writing.image
  rw [← writing.sb] at image
  have own := update_self (start.icache ip).inum
    (max (units (start.icache ip).inum) (unitCount (blockCount here))) units
  have next : unitCount (here / BSIZE) ≤ max (units (start.icache ip).inum) (unitCount (blockCount here)) :=
    (unitCount_mono around.1).trans (le_max_right ..)
  rw [writeChunk, wp_bind]
  apply wp_mono (wp_bmap image (writing.live live) high (by rw [writing.inum, own]; exact next))
  · rintro b middle ⟨extended, found⟩
    have count : max (max (units (start.icache ip).inum) (unitCount (blockCount here))) (unitCount (here / BSIZE + 1)) =
        max (units (start.icache ip).inum) (unitCount (blockCount (here + m))) := by
      rw [blocks, max_assoc, max_eq_right (unitCount_mono around.2)]
    rw [writing.inum, own, count] at extended
    have rest : (src.drop (here - off)).drop m = src.drop (here + m - off) := by
      rw [drop_drop]
      congr 1
      omega
    exact ⟨writing.chunk live above (by omega) (by omega) (by omega) extended found, rest⟩
  · rintro panic ⟨reason, few⟩
    have free := writing.free
    have most : unitCount (here / BSIZE + 1) ≤ unitCount (blockCount (off + n)) :=
      unitCount_mono (div_lt_blockCount below)
    rw [writing.inum, own, writing.sb] at few
    exact ⟨reason, by omega⟩

end Fs
end Xv6
