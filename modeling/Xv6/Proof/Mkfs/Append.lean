import Xv6.Construction.Mkfs
import Xv6.Library.Agreement
import Xv6.Proof.Fs.Runs

namespace Xv6
open Library Function List Nat Fs
namespace Mkfs
variable {units : Nat → Nat} {fbn : Nat}

variable {state s next : MkfsState} {inum : Nat} {din : Dinode} {b sec : BlockNo} {fs : Fs}

theorem sb_layout : sb.Layout := by
  constructor <;> decide

theorem sb_dataStart : sb.dataStart = nmeta := by decide

theorem sb_size : sb.size.toNat = FSSIZE := by decide

theorem sb_ninodes : sb.ninodes.toNat = NINODES := by decide

theorem bmapstart_lt : sb.bmapstart.toNat < nmeta := by decide

theorem sector_of_lt (inside : sec.toNat ≤ FSSIZE) : sector sec = sec := by
  apply BitVec.eq_of_toNat_eq
  simp only [FSSIZE] at inside
  rw [sector, BitVec.toNat_ofNat]
  simp only [BSIZE]
  omega

theorem rsect_ok (inside : sec.toNat < FSSIZE) : rsect sec s = .ok (s.disk sec, s) := by
  change (if (sector sec).toNat < FSSIZE then pure (s.disk (sector sec)) else throw .exit : MkfsM Block) s = _
  rw [sector_of_lt inside.le, if_pos inside]
  rfl

theorem rsect_beyond (outside : sec.toNat = FSSIZE) : rsect sec s = .error .exit := by
  change (if (sector sec).toNat < FSSIZE then pure (s.disk (sector sec)) else throw .exit : MkfsM Block) s = _
  rw [sector_of_lt outside.le, if_neg (by omega)]
  rfl

/-- The state after a write to a sector. -/
def store (state : MkfsState) (b : BlockNo) (data : Block) : MkfsState :=
  {state with disk := Function.update state.disk b data}

theorem wsect_ok (inside : sec.toNat < FSSIZE) (data : Block) : wsect sec data s = .ok ((), store s sec data) := by
  rw [wsect, sector_of_lt inside.le]
  rfl

theorem bitmap_succ (used : Nat) : bitmap (used + 1) = setBit (bitmap used) used := by
  rw [bitmap, range_succ, foldl_append]
  rfl

theorem bitmap_getLsbD {used bit : Nat} (inside : bit < BPB) : (bitmap used).getLsbD bit = decide (bit < used) := by
  induction used with
  | zero => simp [bitmap]
  | succ used ih =>
    rw [bitmap_succ, setBit_getLsbD _ _ _ inside, ih]
    by_cases same : bit = used
    · simp [same]
    · have around : bit < used + 1 ↔ bit < used := by omega
      simp [same, around]

/-- The disk that the kernel would see if the program ended now. -/
def stamp (state : MkfsState) : Disk := Function.update state.disk sb.bmapstart (bitmap state.freeblock)

theorem stamp_of_ne (other : b ≠ sb.bmapstart) : stamp s b = s.disk b := update_of_ne other ..

theorem stamp_store (other : b ≠ sb.bmapstart) (data : Block) : stamp (store s b data) = update (stamp s) b data := by
  rw [stamp, stamp, update_comm other.symm]
  rfl

theorem ne_bmapstart (data : nmeta ≤ b.toNat) : b ≠ sb.bmapstart := by
  rintro rfl
  exact absurd data (by decide)

theorem BBLOCK_eq {number : Nat} (inside : number < FSSIZE) : BBLOCK number sb = sb.bmapstart := by
  have zero : number / BPB = 0 := div_eq_of_lt (inside.trans (by decide))
  rw [BBLOCK, zero]
  decide

/-- A block is used exactly if it is below the counter. -/
theorem used_stamp (inside : b.toNat < FSSIZE) : Used sb (stamp s) b ↔ b.toNat < s.freeblock := by
  have small : b.toNat < BPB := inside.trans (by decide)
  rw [Used, BBLOCK_eq inside, stamp, update_self, mod_eq_of_lt small, bitmap_getLsbD small, decide_eq_true_eq]

/-- The blocks from the counter on have never been written. -/
structure Room (state : MkfsState) : Prop where
  low : nmeta ≤ state.freeblock
  high : state.freeblock ≤ FSSIZE
  zero : ∀ b : BlockNo, state.freeblock ≤ b.toNat → b.toNat < FSSIZE → state.disk b = 0

/-- The state after `freeblock++`. -/
def bump (state : MkfsState) : MkfsState := {state with freeblock := state.freeblock + 1}

theorem takeBlock_eq : takeBlock s = .ok (BitVec.ofNat 32 s.freeblock, bump s) := rfl

theorem toNat_freeblock (room : Room s) : (BitVec.ofNat 32 s.freeblock).toNat = s.freeblock := by
  have high := room.high
  simp only [FSSIZE] at high
  rw [BitVec.toNat_ofNat]
  omega

theorem Room.bump (room : Room s) (more : s.freeblock < FSSIZE) : Room (bump s) where
  low := room.low.trans (le_succ _)
  high := more
  zero b above inside := room.zero b ((le_succ _).trans above) inside

theorem Room.store (room : Room s) (used : b.toNat < s.freeblock) (data : Block) : Room (store s b data) where
  low := room.low
  high := room.high
  zero c above inside := by
    have ne : c ≠ b := by
      rintro rfl
      exact absurd used (not_lt.mpr above)
    exact (update_of_ne ne ..).trans (room.zero c above inside)

/-- The scan of the kernel finds the counter of the program. -/
theorem freeBlock_eq (super : fs.sb = sb) (disk : fs.disk = stamp s) :
    fs.freeBlock = if s.freeblock < FSSIZE then some s.freeblock else none := by
  have blocks : (sb.size.toNat + BPB - 1) / BPB = 1 := by decide
  have clear : ∀ bi, bi < FSSIZE → bitClear (stamp s (BBLOCK (0 * BPB) sb)) bi = !decide (bi < s.freeblock) := by
    intro bi inside
    rw [bitClear_eq, BBLOCK_eq (by decide), stamp, update_self, bitmap_getLsbD (inside.trans (by decide))]
  have scan : fs.freeBit (0 * BPB) = if s.freeblock < FSSIZE then some s.freeblock else none := by
    have limit : min BPB (sb.size.toNat - 0 * BPB) = FSSIZE := by decide
    rw [freeBit, super, disk, limit]
    split
    · next more =>
        rw [find?_range_eq_some]
        refine ⟨?_, mem_range.mpr more, ?_⟩
        · rw [clear _ more]
          simp
        · intro bi below
          rw [clear _ (below.trans more)]
          simp [below]
    · next full =>
        rw [find?_eq_none]
        intro bi inside
        rw [mem_range] at inside
        rw [clear bi inside]
        have below : bi < s.freeblock := by omega
        simp [below]
  have once : range 1 = [0] := rfl
  rw [freeBlock, super, blocks, once, findSome?_cons, scan]
  split
  · next value found =>
      rw [← found]
      split
      · simp
      · rfl
  · next missing =>
      split
      · next more =>
          rw [if_pos more] at missing
          cases missing
      · rfl

/-- The kernel allocates the block that the program takes next. -/
theorem balloc_ok (room : Room s) (more : s.freeblock < FSSIZE) (super : fs.sb = sb) (disk : fs.disk = stamp s) :
    Fs.balloc fs = .ok (BitVec.ofNat 32 s.freeblock, {fs with disk := stamp (bump s)}) := by
  have number := toNat_freeblock room
  have found := freeBlock_eq super disk
  rw [if_pos more] at found
  have small : s.freeblock % BPB = s.freeblock := mod_eq_of_lt (more.trans (by decide))
  have last : update (update (stamp s) sb.bmapstart (bitmap (s.freeblock + 1)))
      (BitVec.ofNat 32 s.freeblock) 0 = stamp (bump s) := by
    funext c
    by_cases fresh : c = BitVec.ofNat 32 s.freeblock
    · have data : c ≠ sb.bmapstart := ne_bmapstart (by rw [fresh, number]; exact room.low)
      rw [fresh, update_self, ← fresh, stamp_of_ne data]
      exact (room.zero c (by rw [fresh, number]) (by rw [fresh, number]; exact more)).symm
    · rw [update_of_ne fresh]
      by_cases map : c = sb.bmapstart
      · rw [map, update_self, stamp, update_self]
        rfl
      · rw [update_of_ne map, stamp_of_ne map, stamp_of_ne map]
        rfl
  have marked : setBit (stamp s sb.bmapstart) s.freeblock = bitmap (s.freeblock + 1) := by
    rw [stamp, update_self, bitmap_succ]
  apply wp_eq
  rw [Fs.balloc, wp_bind, wp_get, found]
  simp only [Fs.bzero, wp_bind, wp_modify, wp_pure, and_true]
  rw [super, disk, BBLOCK_eq more, small, marked, Fs.write, Fs.write, disk, last]
  rw [super]

theorem balloc_full (full : ¬s.freeblock < FSSIZE) (super : fs.sb = sb) (disk : fs.disk = stamp s) :
    Fs.balloc fs = .error .outOfBlocks := by
  have found := freeBlock_eq super disk
  rw [if_neg full] at found
  have got : (get : FsM Fs) fs = .ok (fs, fs) := rfl
  rw [Fs.balloc, bind_ran got, found]
  rfl

/-- The cache entry of the inode. -/
def own : Fin NINODE := ⟨0, NINODE_pos⟩

/-- The kernel with one locked inode on the disk of the program. -/
def view (state : MkfsState) (inum : Nat) (din : Dinode) : Fs where
  sb := sb
  disk := stamp state
  icache := Function.update (fun _ => ⟨0, 0, false, .zero⟩) own ⟨inum, 1, true, din⟩

theorem view_icache : (view s inum din).icache own = ⟨inum, 1, true, din⟩ := by
  simp [view]

@[simp] theorem view_copy : (view s inum din).copy own = din := by
  rw [copy, view_icache]

theorem view_table : (view s inum din).table own inum = din := by
  have self := table_self (view s inum din) own
  rw [view_icache, view_copy] at self
  exact self

theorem view_setCopy (other : Dinode) : (view s inum din).setCopy own other = view s inum other := by
  rw [setCopy, view_icache, setInode, view, view]
  rw [update_idem]

theorem view_setAddr (index : Fin (NDIRECT + 1)) :
    (view s inum din).setAddr own index b = view s inum (din.setAddr index b) := by
  rw [setAddr, view_copy, view_setCopy]
  rfl

theorem view_write (data : nmeta ≤ b.toNat) (block : Block) :
    (view s inum din).write b block = view (store s b block) inum din := by
  rw [write, view, view, stamp_store (ne_bmapstart data)]

/-- The blocks at the places of the inodes are used data blocks. -/
theorem held_bounds {table : Nat → Dinode} (image : FsImage sb (stamp s) table units) {place : Nat × Nat}
    (here : held sb (stamp s) table place = some b) : nmeta ≤ b.toNat ∧ b.toNat < s.freeblock ∧ b.toNat < FSSIZE := by
  obtain ⟨low, high⟩ := image.data here
  rw [sb_dataStart] at low
  rw [sb_size] at high
  exact ⟨low, (used_stamp high).mp (image.owned.used_of_held here), high⟩

/-- The kernel finds or allocates the block that the program does. -/
structure Found (start : MkfsState) (b : BlockNo) (state : MkfsState) : Prop where
  room : Room state
  low : nmeta ≤ b.toNat
  high : b.toNat < state.freeblock
  inodes : state.freeinode = start.freeinode

section
variable (image : FsImage sb (stamp s) ((view s inum din).table own) units)
include image

variable (live : (view s inum din).Live own)
include live

theorem addrBlock_agrees (room : Room s) (index : Fin (NDIRECT + 1)) :
    (∃ b din' next, addrBlock din index s = .ok ((b, din'), next) ∧
        Fs.addrBlock own index (view s inum din) = .ok (b, view next inum din') ∧ Found s b next) ∨
      (∃ b din' next, addrBlock din index s = .ok ((b, din'), next) ∧ b.toNat = FSSIZE) ∧
        Fs.addrBlock own index (view s inum din) = .error .outOfBlocks := by
  by_cases zero : din.addrs index = 0
  · have k : Fs.addrBlock own index (view s inum din) = (Fs.balloc (view s inum din)).bind fun result =>
          .ok (result.1, result.2.setAddr own index result.1) := by
      change (if ((view s inum din).copy own).addrs index = 0 then _ else _ : FsM BlockNo) _ = _
      rw [view_copy, if_pos zero]
      rfl
    have program : addrBlock din index s =
        .ok ((BitVec.ofNat 32 s.freeblock, din.setAddr index (BitVec.ofNat 32 s.freeblock)), bump s) := by
      rw [addrBlock, if_pos zero]
      rfl
    have number := toNat_freeblock room
    by_cases more : s.freeblock < FSSIZE
    · left
      refine ⟨_, _, _, program, ?_, room.bump more, ?_, ?_, rfl⟩
      · rw [k, balloc_ok room more rfl rfl]
        change Except.ok (_, Fs.setAddr (view (bump s) inum din) own index _) = _
        rw [view_setAddr]
      · rw [number]
        exact room.low
      · rw [number]
        exact lt_succ_self _
    · right
      refine ⟨⟨_, _, _, program, ?_⟩, ?_⟩
      · rw [number]
        exact Nat.le_antisymm room.high (Nat.le_of_not_lt more)
      · rw [k, balloc_full more rfl rfl]
        rfl
  · left
    have here : held sb (stamp s) ((view s inum din).table own) (inum, index) = some (din.addrs index) := by
      rw [held_eq_some]
      have inside := live.inside
      have type := live.type
      rw [view_icache] at inside
      rw [view_copy] at type
      rw [view_table]
      exact ⟨inside, type, Dinode.unit_direct index.isLt, zero⟩
    obtain ⟨low, used, _⟩ := held_bounds image here
    refine ⟨din.addrs index, din, s, ?_, ?_, room, low, used, rfl⟩
    · rw [addrBlock, if_neg zero]
      rfl
    · change (if ((view s inum din).copy own).addrs index = 0 then _ else _ : FsM BlockNo) _ = _
      rw [view_copy, if_neg zero]
      rfl

/-- The entry of the indirect block leads the kernel and the program to the same block. -/
theorem entryBlock_agrees {bp : BlockNo} (room : Room s)
    (indirect : din.indirect = bp) (low : nmeta ≤ bp.toNat) (used : bp.toNat < s.freeblock) (entry : NDIRECT ≤ fbn) :
    (∃ b next, entryBlock bp (fbn - NDIRECT) s = .ok (b, next) ∧
        Fs.entryBlock bp (fbn - NDIRECT) (view s inum din) = .ok (b, view next inum din) ∧
        Found s b next) ∨
      (∃ b next, entryBlock bp (fbn - NDIRECT) s = .ok (b, next) ∧ b.toNat = FSSIZE) ∧
        Fs.entryBlock bp (fbn - NDIRECT) (view s inum din) = .error .outOfBlocks := by
  have inside : bp.toNat < FSSIZE := lt_of_lt_of_le used room.high
  have same : stamp s bp = s.disk bp := stamp_of_ne (ne_bmapstart low)
  have read : entryBlock bp (fbn - NDIRECT) s = (if slot 32 (s.disk bp) (fbn - NDIRECT) = 0 then (do
        let b ← takeBlock
        wsect bp (setSlot (s.disk bp) (fbn - NDIRECT) b)
        pure b) else pure (slot 32 (s.disk bp) (fbn - NDIRECT)) : MkfsM BlockNo) s := by
    rw [entryBlock, bind_ran (rsect_ok inside)]
  by_cases zero : slot 32 (s.disk bp) (fbn - NDIRECT) = 0
  · have k : Fs.entryBlock bp (fbn - NDIRECT) (view s inum din) = (Fs.balloc (view s inum din)).bind fun result =>
          .ok (result.1, result.2.write bp (setSlot (result.2.disk bp) (fbn - NDIRECT) result.1)) := by
      change (if slot 32 (stamp s bp) (fbn - NDIRECT) = 0 then _ else _ : FsM BlockNo) _ = _
      rw [same, if_pos zero]
      rfl
    have program : entryBlock bp (fbn - NDIRECT) s = .ok (BitVec.ofNat 32 s.freeblock, store (bump s) bp
          (setSlot (s.disk bp) (fbn - NDIRECT) (BitVec.ofNat 32 s.freeblock))) := by
      rw [read, if_pos zero]
      rw [bind_ran takeBlock_eq, bind_ran (wsect_ok inside _)]
      rfl
    have number := toNat_freeblock room
    by_cases more : s.freeblock < FSSIZE
    · left
      refine ⟨_, _, program, ?_, ?_, ?_, ?_, rfl⟩
      · rw [k, balloc_ok room more rfl rfl]
        have kept : stamp (bump s) bp = s.disk bp := stamp_of_ne (ne_bmapstart low)
        change Except.ok (_, Fs.write (view (bump s) inum din) bp (setSlot (stamp (bump s) bp) _ _)) = _
        rw [kept, view_write low]
      · exact (room.bump more).store (used.trans (lt_succ_self _)) _
      · rw [number]
        exact room.low
      · rw [number]
        exact lt_succ_self _
    · right
      refine ⟨⟨_, _, program, ?_⟩, ?_⟩
      · rw [number]
        exact Nat.le_antisymm room.high (Nat.le_of_not_lt more)
      · rw [k, balloc_full more rfl rfl]
        rfl
  · left
    have present : din.indirect ≠ 0 := by
      rw [indirect]
      rintro rfl
      exact absurd low (by decide)
    have here : held sb (stamp s) ((view s inum din).table own) (inum, fbn + 1) =
        some (slot 32 (s.disk bp) (fbn - NDIRECT)) := by
      have inside := live.inside
      have type := live.type
      rw [view_icache] at inside
      rw [view_copy] at type
      have position : fbn + 1 - (NDIRECT + 1) = fbn - NDIRECT := by omega
      rw [held_eq_some, view_table]
      refine ⟨inside, type, ?_, zero⟩
      rw [Dinode.unit_entry (by omega) present, indirect, same, position]
    obtain ⟨data, below, _⟩ := held_bounds image here
    refine ⟨slot 32 (s.disk bp) (fbn - NDIRECT), s, ?_, ?_, room, data, below, rfl⟩
    · rw [read, if_neg zero]
      rfl
    · change (if slot 32 (stamp s bp) (fbn - NDIRECT) = 0 then _ else _ : FsM BlockNo) _ = _
      rw [same, if_neg zero]
      change Except.ok (slot 32 (stamp s bp) (fbn - NDIRECT), _) = _
      rw [same]

/-- The kernel and the program find the same block of the file, or there is none left. -/
theorem fileBlock_agrees (room : Room s) (high : fbn < MAXFILE)
    (next : unitCount fbn ≤ units inum) :
    (∃ b din' next, fileBlock din fbn s = .ok ((b, din'), next) ∧
        Fs.bmap own fbn (view s inum din) = .ok (b, view next inum din') ∧ Found s b next) ∨
      ((∃ halt, fileBlock din fbn s = .error halt) ∨
          ∃ b din' next, fileBlock din fbn s = .ok ((b, din'), next) ∧ b.toNat = FSSIZE) ∧
        Fs.bmap own fbn (view s inum din) = .error .outOfBlocks := by
  by_cases direct : fbn < NDIRECT
  · rw [fileBlock, Fs.bmap, dif_pos direct, dif_pos direct]
    rcases addrBlock_agrees image live room ⟨fbn, by omega⟩ with found | ⟨missing, halted⟩
    · exact .inl found
    · exact .inr ⟨.inr missing, halted⟩
  · have inside : fbn - NDIRECT < NINDIRECT := by
      rw [MAXFILE] at high
      omega
    rw [fileBlock, Fs.bmap, dif_neg direct, dif_neg direct, if_pos inside]
    rcases addrBlock_agrees image live room (Fin.last NDIRECT) with
      ⟨bp, middle, between, program, k, found⟩ | ⟨⟨bp, middle, between, program, outside⟩, halted⟩
    · rw [bind_ran program, bind_ran k]
      dsimp only
      have enough : ((Fin.last NDIRECT : Fin (NDIRECT + 1)) : Nat) ≤ units ((view s inum din).icache own).inum := by
        rw [view_icache, Fin.val_last]
        dsimp only
        rw [unitCount] at next
        split at next <;> omega
      have reached : wp (Fs.addrBlock own (Fin.last NDIRECT)) _ _ (view s inum din) :=
        Fs.wp_addrBlock image live (Fin.last NDIRECT) enough
      obtain ⟨extended, address⟩ := wp_ok reached k
      rw [view_copy] at address
      rcases entryBlock_agrees extended.image (extended.live live) found.room address found.low found.high
          (Nat.le_of_not_lt direct) with
        ⟨b, last, second, entry, further⟩ | ⟨⟨b, last, second, outside⟩, halted⟩
      · left
        refine ⟨b, middle, last, ?_, entry, further.room, further.low, further.high, further.inodes.trans found.inodes⟩
        rw [bind_ran second]
        rfl
      · right
        refine ⟨.inr ⟨b, middle, last, ?_, outside⟩, halted⟩
        rw [bind_ran second]
        rfl
    · right
      rw [bind_ran program, bind_halted halted]
      refine ⟨.inl ⟨.exit, ?_⟩, rfl⟩
      have stopped : entryBlock bp (fbn - NDIRECT) between = .error .exit := by
        rw [entryBlock, bind_halted (rsect_beyond outside)]
      exact bind_halted stopped

/-- An iteration of the program does what an iteration of the kernel does. -/
theorem appendChunk_agrees {start m : Nat} {rest : List (BitVec 8)}
    (room : Room s) (high : fbn < MAXFILE) (next : unitCount fbn ≤ units inum) :
    Agree (appendChunk fbn start m (din, rest) s) (writeChunk own fbn start m rest (view s inum din))
      fun value last left fs => value.2 = rest.drop m ∧ left = rest.drop m ∧ fs = view last inum value.1 ∧ Room last ∧
        last.freeinode = s.freeinode := by
  rw [appendChunk, if_pos high, writeChunk]
  rcases fileBlock_agrees image live room high next with ⟨b, last, between, program, k, found⟩ | ⟨missing, halted⟩
  · have inside : b.toNat < FSSIZE := lt_of_lt_of_le found.high found.room.high
    have same : stamp between b = between.disk b := stamp_of_ne (ne_bmapstart found.low)
    rw [bind_ran program, bind_ran k]
    dsimp only
    rw [bind_ran (rsect_ok inside), bind_ran (wsect_ok inside _)]
    refine ⟨rfl, rfl, ?_, found.room.store found.high _, found.inodes⟩
    change write (view between inum last) b (setSlots (stamp between b) start (rest.take m)) = _
    rw [same, view_write found.low]
  · rw [bind_halted halted]
    rcases missing with ⟨halt, stopped⟩ | ⟨b, last, between, program, outside⟩
    · rw [bind_halted stopped]
      trivial
    · rw [bind_ran program]
      dsimp only
      rw [bind_halted (rsect_beyond outside)]
      trivial

end

/-- The loop of the program agrees with the loop of the kernel. -/
theorem appendChunks_agree {p : List (BitVec 8)} (formed : (view s inum din).WellFormed)
    (locked : (view s inum din).Locked own) (room : Room s) (small : din.size.toNat + p.length ≤ MAXFILE * BSIZE) :
    Agree (forChunks BSIZE appendChunk p.length din.size.toNat p.length (din, p) s)
      (forChunks BSIZE (writeChunk own) p.length din.size.toNat p.length p (view s inum din))
      fun value last _ fs => fs = view last inum value.1 ∧ Room last ∧ last.freeinode = s.freeinode ∧
        Fs.Writing (view s inum din) own (fileUnits (view s inum din).dinode) din.size.toNat p
          (din.size.toNat + p.length) fs := by
  have live := formed.cached.live locked
  have same := formed.cached.same own locked
  have image : FsImage sb (stamp s) ((view s inum din).table own) (fileUnits (view s inum din).dinode) := by
    rw [formed.cached.table_eq locked]
    exact formed.image
  have units : unitCount (blockCount din.size.toNat) ≤ fileUnits (view s inum din).dinode
      ((view s inum din).icache own).inum := by
    rw [fileUnits, ← same, view_copy]
  have loop : Agree (forChunks BSIZE appendChunk p.length din.size.toNat p.length (din, p) s)
      (forChunks BSIZE (writeChunk own) p.length din.size.toNat p.length p (view s inum din))
      (fun value last rest fs => value.2 = p.drop (din.size.toNat + p.length - din.size.toNat) ∧ rest = value.2 ∧
        fs = view last inum value.1 ∧ Room last ∧ last.freeinode = s.freeinode ∧
        Fs.Writing (view s inum din) own (fileUnits (view s inum din).dinode) din.size.toNat p
          (din.size.toNat + p.length) fs) := by
    apply agree_forChunks (fun here (value : Dinode × List (BitVec 8)) last rest fs =>
      value.2 = p.drop (here - din.size.toNat) ∧ rest = value.2 ∧ fs = view last inum value.1 ∧ Room last ∧
        last.freeinode = s.freeinode ∧ Fs.Writing (view s inum din) own
          (fileUnits (view s inum din).dinode) din.size.toNat p here fs)
    · decide
    · exact le_rfl
    · refine ⟨?_, rfl, rfl, room, rfl, .refl image units p⟩
      rw [Nat.sub_self, drop_zero]
    · rintro here ⟨middle, rest⟩ between _ _ above below ⟨left, rfl, rfl, kept, inodes, writing⟩
      subst left
      have number : ((view s inum din).icache own).inum = inum := by rw [view_icache]
      have around : here / BSIZE ≤ blockCount here := by
        simp only [blockCount, BSIZE]
        omega
      have high : here / BSIZE < MAXFILE := by
        simp only [BSIZE] at small ⊢
        omega
      have next : unitCount (here / BSIZE) ≤ update (fileUnits (view s inum din).dinode)
          ((view s inum din).icache own).inum
          (max (fileUnits (view s inum din).dinode ((view s inum din).icache own).inum)
            (unitCount (blockCount here))) inum := by
        rw [number, update_self]
        exact (unitCount_mono around).trans (le_max_right ..)
      have step : Agree (appendChunk (here / BSIZE) (here % BSIZE)
          (min (din.size.toNat + p.length - here) (BSIZE - here % BSIZE))
          (middle, p.drop (here - din.size.toNat)) between) _ _ :=
        appendChunk_agrees writing.image (writing.live live) kept high next
      apply (step.and_right fun _ _ => wp_ok (wp_writeChunk live le_rfl small writing above below)).imp
      rintro ⟨last, tail⟩ final left fs ⟨⟨remains, also, shown, room, counted⟩, further, skipped⟩
      exact ⟨by rw [remains, ← also, skipped], by rw [remains, also], shown, room, counted.trans inodes, further⟩
  apply loop.imp
  rintro value last rest fs ⟨_, _, done⟩
  exact done

end Mkfs
end Xv6
