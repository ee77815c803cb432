import Xv6.Construction.Layout
import Xv6.Library.Wp

namespace Xv6
open Library

def NINODE : Nat := 50

theorem NINODE_pos : 0 < NINODE := by decide
def NDEV : Nat := 10

def T_DIR : BitVec 16 := 1
def T_FILE : BitVec 16 := 2
def T_DEV : BitVec 16 := 3

/-- The fields of `struct dinode`. -/
@[ext] structure Dinode where
  type : BitVec 16
  major : BitVec 16
  minor : BitVec 16
  nlink : BitVec 16
  size : BitVec 32
  addrs : Fin (NDIRECT + 1) → BlockNo
  deriving DecidableEq

namespace Dinode

/-- The result of `memset(dip, 0, sizeof(*dip))`. -/
def zero : Dinode := ⟨0, 0, 0, 0, 0, fun _ => 0⟩

/-- The structure consists of 32-bit words. Each of the first two words holds two fields. -/
def words (dinode : Dinode) : List (BitVec 32) :=
  (dinode.major ++ dinode.type) :: (dinode.nlink ++ dinode.minor) :: dinode.size ::
    (List.finRange (NDIRECT + 1)).map dinode.addrs

def encode (dinode : Dinode) : BitVec (8 * dinodeSize) := setSlots 0 0 dinode.words

def decode (bits : BitVec (8 * dinodeSize)) : Dinode where
  type := slot 16 (slot 32 bits 0) 0
  major := slot 16 (slot 32 bits 0) 1
  minor := slot 16 (slot 32 bits 1) 0
  nlink := slot 16 (slot 32 bits 1) 1
  size := slot 32 bits 2
  addrs index := slot 32 bits (3 + index)

end Dinode

/-- The in-memory copy of an inode. The flag is `I_VALID`. There is one device. -/
structure Inode where
  inum : Nat
  ref : Nat
  valid : Bool
  dinode : Dinode

/-- The bytes that a device reads and the count that it writes. A result of -1 is `none`. -/
structure Devsw where
  read : Nat → Option (BitVec 32 → BitVec 32 → Option (List (BitVec 8)))
  write : Nat → Option (BitVec 32 → List (BitVec 8) → Option Nat)

/-- These are the panics of the block and inode layers. An event that its caller may not do is `unlocked`. -/
inductive FsPanic where
  | outOfBlocks
  | freeingFreeBlock
  | noFreeInode
  | noCacheEntry
  | noType
  | outOfRange
  | unlocked
  | shortWrite
  deriving DecidableEq

def FsPanic.message : FsPanic → String
  | .outOfBlocks => "balloc: out of blocks"
  | .freeingFreeBlock => "freeing free block"
  | .noFreeInode => "ialloc: no inodes"
  | .noCacheEntry => "iget: no inodes"
  | .noType => "ilock: no type"
  | .outOfRange => "bmap: out of range"
  | .unlocked => "ilock"
  | .shortWrite => "short filewrite"

/-- The kernel has its copy of the super block, the disk blocks as the buffer cache shows them and the inode cache. -/
structure Fs where
  sb : Superblock
  disk : Disk
  icache : Fin NINODE → Inode

abbrev FsM := Prog Fs FsPanic

def Superblock.parse (block : Block) : Superblock where
  size := slot 32 block 0
  nblocks := slot 32 block 1
  ninodes := slot 32 block 2
  nlog := slot 32 block 3
  logstart := slot 32 block 4
  inodestart := slot 32 block 5
  bmapstart := slot 32 block 6

/-- The block of an inode. -/
def IBLOCK (inum : Nat) (sb : Superblock) : BlockNo := BitVec.ofNat 32 (inum / IPB) + sb.inodestart

/-- The block of the free map that holds the bit of a block. -/
def BBLOCK (b : Nat) (sb : Superblock) : BlockNo := BitVec.ofNat 32 (b / BPB) + sb.bmapstart

/-- The mask `1 << (bi % 8)`. -/
def bitMask (bi : Nat) : BitVec 8 := (1 : BitVec 8) <<< (bi % 8)

/-- The bit of the free map is clear. -/
def bitClear (data : Block) (bi : Nat) : Bool := slot 8 data (bi / 8) &&& bitMask bi = 0

def setBit (data : Block) (bi : Nat) : Block := setSlot data (bi / 8) (slot 8 data (bi / 8) ||| bitMask bi)

def clearBit (data : Block) (bi : Nat) : Block := setSlot data (bi / 8) (slot 8 data (bi / 8) &&& ~~~bitMask bi)

namespace Fs

/-- A modified block is in the buffer cache and in the log. -/
def write (fs : Fs) (b : BlockNo) (data : Block) : Fs := {fs with disk := Function.update fs.disk b data}

def setInode (fs : Fs) (ip : Fin NINODE) (inode : Inode) : Fs :=
  {fs with icache := Function.update fs.icache ip inode}

/-- The fields of a cached inode that the disk has too. -/
def copy (fs : Fs) (ip : Fin NINODE) : Dinode := (fs.icache ip).dinode

def setCopy (fs : Fs) (ip : Fin NINODE) (dinode : Dinode) : Fs := fs.setInode ip {fs.icache ip with dinode}

/-- The inode on disk with a number. -/
def dinode (fs : Fs) (inum : Nat) : Dinode := .decode (slot (8 * dinodeSize) (fs.disk (IBLOCK inum fs.sb)) (inum % IPB))

def setDinode (fs : Fs) (inum : Nat) (dinode : Dinode) : Fs :=
  fs.write (IBLOCK inum fs.sb) (setSlot (fs.disk (IBLOCK inum fs.sb)) (inum % IPB) dinode.encode)

def readsb : FsM Unit := modify fun fs => {fs with sb := .parse (fs.disk 1)}

def bzero (bno : BlockNo) : FsM Unit := modify fun fs => fs.write bno 0

/-- The inner loop of `balloc` looks at one block of the free map. -/
def freeBit (fs : Fs) (b : Nat) : Option Nat :=
  (List.range (min BPB (fs.sb.size.toNat - b))).find? fun bi => bitClear (fs.disk (BBLOCK b fs.sb)) bi

/-- The loops of `balloc` find the first block whose bit is clear. -/
def freeBlock (fs : Fs) : Option Nat :=
  (List.range ((fs.sb.size.toNat + BPB - 1) / BPB)).findSome? fun map =>
    (fs.freeBit (map * BPB)).map (map * BPB + ·)

/-- The call allocates a zeroed block. -/
def balloc : FsM BlockNo := do
  let fs ← get
  match fs.freeBlock with
  | none => throw .outOfBlocks
  | some b =>
    modify fun fs => fs.write (BBLOCK b fs.sb) (setBit (fs.disk (BBLOCK b fs.sb)) (b % BPB))
    bzero (BitVec.ofNat 32 b)
    pure (BitVec.ofNat 32 b)

def bfree (b : BlockNo) : FsM Unit := do
  readsb
  let fs ← get
  if bitClear (fs.disk (BBLOCK b.toNat fs.sb)) (b.toNat % BPB) then
    throw .freeingFreeBlock
  else
    modify fun fs => fs.write (BBLOCK b.toNat fs.sb) (clearBit (fs.disk (BBLOCK b.toNat fs.sb)) (b.toNat % BPB))

/-- The call finds the cache entry of an inode or takes an unused one. -/
def iget (inum : Nat) : FsM (Fin NINODE) := do
  let fs ← get
  match (List.finRange NINODE).find? fun ip => 0 < (fs.icache ip).ref ∧ (fs.icache ip).inum = inum with
  | some ip =>
    modify fun fs => fs.setInode ip {fs.icache ip with ref := (fs.icache ip).ref + 1}
    pure ip
  | none =>
    match (List.finRange NINODE).find? fun ip => (fs.icache ip).ref = 0 with
    | none => throw .noCacheEntry
    | some empty =>
      modify fun fs => fs.setInode empty {fs.icache empty with inum, ref := 1, valid := false}
      pure empty

/-- The call reads the inode from the disk if its cache entry is not valid. -/
def ilock (ip : Fin NINODE) : FsM Unit := do
  let fs ← get
  if (fs.icache ip).ref < 1 then throw .unlocked
  else if (fs.icache ip).valid then pure ()
  else
    modify fun fs => fs.setInode ip {fs.icache ip with valid := true, dinode := fs.dinode (fs.icache ip).inum}
    if (fs.dinode (fs.icache ip).inum).type = 0 then throw .noType else pure ()

/-- The call copies a modified inode to the disk. -/
def iupdate (ip : Fin NINODE) : FsM Unit := modify fun fs => fs.setDinode (fs.icache ip).inum (fs.copy ip)

/-- The call allocates an inode of the given type. -/
def ialloc (type : BitVec 16) : FsM (Fin NINODE) := do
  let fs ← get
  match (List.range' 1 (fs.sb.ninodes.toNat - 1)).find? fun inum => (fs.dinode inum).type = 0 with
  | none => throw .noFreeInode
  | some inum =>
    modify fun fs => fs.setDinode inum {Dinode.zero with type}
    iget inum

def setAddr (fs : Fs) (ip : Fin NINODE) (index : Fin (NDIRECT + 1)) (addr : BlockNo) : Fs :=
  fs.setCopy ip {fs.copy ip with addrs := Function.update (fs.copy ip).addrs index addr}

/-- The block of an address in the inode is allocated if necessary. -/
def addrBlock (ip : Fin NINODE) (index : Fin (NDIRECT + 1)) : FsM BlockNo := do
  let fs ← get
  if (fs.copy ip).addrs index = 0 then
    let addr ← balloc
    modify fun fs => fs.setAddr ip index addr
    pure addr
  else pure ((fs.copy ip).addrs index)

/-- The block of an entry of the indirect block is allocated if necessary. -/
def entryBlock (bp : BlockNo) (index : Nat) : FsM BlockNo := do
  let fs ← get
  if slot 32 (fs.disk bp) index = 0 then
    let addr ← balloc
    modify fun fs => fs.write bp (setSlot (fs.disk bp) index addr)
    pure addr
  else pure (slot 32 (fs.disk bp) index)

/-- The call returns the disk block of the `bn`-th block of the file and allocates it if necessary. -/
def bmap (ip : Fin NINODE) (bn : Nat) : FsM BlockNo :=
  if direct : bn < NDIRECT then addrBlock ip ⟨bn, Nat.lt_succ_of_lt direct⟩
  else if bn - NDIRECT < NINDIRECT then do
    let bp ← addrBlock ip (Fin.last NDIRECT)
    entryBlock bp (bn - NDIRECT)
  else throw .outOfRange

/-- One iteration of the loop over the direct blocks frees the block of an address. -/
def freeDirect (ip : Fin NINODE) (index : Fin NDIRECT) : FsM Unit := do
  let fs ← get
  if (fs.copy ip).addrs index.castSucc = 0 then pure ()
  else
    bfree ((fs.copy ip).addrs index.castSucc)
    modify fun fs => fs.setAddr ip index.castSucc 0

/-- One iteration of the loop over the indirect block frees the block of an entry. -/
def freeEntry (bp : BlockNo) (index : Nat) : FsM Unit := do
  let fs ← get
  if slot 32 (fs.disk bp) index = 0 then pure () else bfree (slot 32 (fs.disk bp) index)

def freeIndirect (ip : Fin NINODE) : FsM Unit := do
  let fs ← get
  let bp := (fs.copy ip).addrs (Fin.last NDIRECT)
  if bp = 0 then pure ()
  else
    (List.range NINDIRECT).forM (freeEntry bp)
    bfree bp
    modify fun fs => fs.setAddr ip (Fin.last NDIRECT) 0

/-- The call discards the contents of an inode. -/
def itrunc (ip : Fin NINODE) : FsM Unit := do
  (List.finRange NDIRECT).forM (freeDirect ip)
  freeIndirect ip
  modify fun fs => fs.setCopy ip {fs.copy ip with size := 0}
  iupdate ip

/-- The call drops a reference and frees the inode if it has no link and no other reference. -/
def iput (ip : Fin NINODE) : FsM Unit := do
  let fs ← get
  if (fs.icache ip).ref = 1 ∧ (fs.icache ip).valid ∧ (fs.copy ip).nlink = 0 then
    itrunc ip
    modify fun fs => fs.setCopy ip {fs.copy ip with type := 0}
    iupdate ip
    modify fun fs => fs.setInode ip {fs.icache ip with ref := (fs.icache ip).ref - 1, valid := false}
  else
    modify fun fs => fs.setInode ip {fs.icache ip with ref := (fs.icache ip).ref - 1}

/-- The functions of a device exist if the major number is in the table. -/
def device {F : Type} (table : Nat → Option F) (dinode : Dinode) : Option F :=
  if dinode.major.toInt < 0 ∨ dinode.major.toInt ≥ NDEV then none else table dinode.major.toNat

/-- One iteration of the loop of `readi` copies bytes out of one block. -/
def readChunk (ip : Fin NINODE) (bn start m : Nat) (bytes : List (BitVec 8)) : FsM (List (BitVec 8)) := do
  let bp ← bmap ip bn
  let fs ← get
  pure (bytes ++ (List.range m).map fun index => slot 8 (fs.disk bp) (start + index))

def readi (devsw : Devsw) (ip : Fin NINODE) (off n : BitVec 32) : FsM (Option (List (BitVec 8))) := do
  let fs ← get
  let size := (fs.copy ip).size
  if (fs.copy ip).type = T_DEV then pure ((device devsw.read (fs.copy ip)).bind fun read => read off n)
  else if off > size ∨ off + n < off then pure none
  else
    let n := if off + n > size then size - off else n
    let bytes ← forChunks BSIZE (readChunk ip) n.toNat off.toNat n.toNat []
    pure (some bytes)

/-- One iteration of the loop of `writei` copies bytes into one block and returns the bytes after them. -/
def writeChunk (ip : Fin NINODE) (bn start m : Nat) (src : List (BitVec 8)) : FsM (List (BitVec 8)) := do
  let bp ← bmap ip bn
  modify fun fs => fs.write bp (setSlots (fs.disk bp) start (src.take m))
  pure (src.drop m)

/-- The size grows to the end of the written bytes. -/
def growSize (ip : Fin NINODE) (off n : BitVec 32) : FsM Unit := do
  let fs ← get
  if n > 0 ∧ off > (fs.copy ip).size then
    modify fun fs => fs.setCopy ip {fs.copy ip with size := off}
    iupdate ip
  else pure ()

def writei (devsw : Devsw) (ip : Fin NINODE) (src : List (BitVec 8)) (off n : BitVec 32) : FsM (Option Nat) := do
  let fs ← get
  if (fs.copy ip).type = T_DEV then pure ((device devsw.write (fs.copy ip)).bind fun write => write off (src.take n.toNat))
  else if off > (fs.copy ip).size ∨ off + n < off then pure none
  else if (off + n).toNat > MAXFILE * BSIZE then pure none
  else
    let _ ← forChunks BSIZE (writeChunk ip) n.toNat off.toNat n.toNat src
    growSize ip (off + n) n
    pure (some n.toNat)

/-- The inode is in use and its contents have been read. -/
def Locked (fs : Fs) (ip : Fin NINODE) : Prop := 0 < (fs.icache ip).ref ∧ (fs.icache ip).valid

instance (fs : Fs) (ip : Fin NINODE) : Decidable (fs.Locked ip) := inferInstanceAs (Decidable (_ ∧ _))

/-- A call on a locked inode. -/
def locked {A : Type} (ip : Fin NINODE) (call : FsM A) : FsM Unit := do
  let fs ← get
  if fs.Locked ip then
    let _ ← call
    pure ()
  else throw .unlocked

end Fs

/-- The calls of the block and inode layers. An update sets the fields that `create`, `link` and `unlink` set. -/
inductive FsEvent where
  | iget (inum : Nat)
  | ilock (ip : Fin NINODE)
  | iput (ip : Fin NINODE)
  | ialloc (type : BitVec 16)
  | update (ip : Fin NINODE) (major minor nlink : BitVec 16)
  | itrunc (ip : Fin NINODE)
  | readi (ip : Fin NINODE) (off n : BitVec 32)
  | writei (ip : Fin NINODE) (src : List (BitVec 8)) (off : BitVec 32)

namespace Fs

def act (devsw : Devsw) : FsEvent → FsM Unit
  | .iget inum => do
      let fs ← get
      if inum < fs.sb.ninodes.toNat then
        let _ ← iget inum
        pure ()
      else throw .unlocked
  | .ilock ip => ilock ip
  | .iput ip => do
      let fs ← get
      if (fs.icache ip).ref < 1 then throw .unlocked else iput ip
  | .ialloc type => do
      let _ ← ialloc type
      pure ()
  | .update ip major minor nlink => locked ip do
      modify fun fs => fs.setCopy ip {fs.copy ip with major, minor, nlink}
      iupdate ip
  | .itrunc ip => locked ip (itrunc ip)
  | .readi ip off n => locked ip (readi devsw ip off n)
  | .writei ip src off => locked ip (writei devsw ip src off (BitVec.ofNat 32 src.length))

def step (devsw : Devsw) (fs : Fs) (event : FsEvent) : Except FsPanic Fs :=
  match act devsw event fs with
  | .ok (_, next) => .ok next
  | .error panic => .error panic

end Fs
end Xv6
