import Xv6.Library.Interaction
import Xv6.Construction.Bcache
import Xv6.Construction.Fs
import Xv6.Construction.Log

namespace Xv6
open Library

/-- The functions of the logging layer that write a buffer to the disk. -/
inductive Writer where
  | writeLog
  | writeHead
  | installTrans
  deriving DecidableEq

/-- The steps of the kernel on buffers and on the log. A step reads or changes one buffer that its process has
locked, or it is a call of another layer. -/
inductive BufAct where
  | bget (blockno : BlockNo)
  | look (b : Fin NBUF)
  | iderw (b : Fin NBUF)
  | store (b : Fin NBUF) (data : Block)
  | logWrite (b : Fin NBUF)
  | bwrite (caller : Writer) (b : Fin NBUF)
  | brelse (b : Fin NBUF)
  | log
  | clear
  | panic (reason : FsPanic)

abbrev BufAct.Result : BufAct → Type
  | .bget _ => Fin NBUF
  | .look _ => Buf
  | .log => Log
  | .panic _ => Empty
  | _ => Unit

/-- The functions of the file system and the log as programs of such steps. -/
abbrev BufM := Interaction BufAct BufAct.Result

namespace BufM

def bget (blockno : BlockNo) : BufM (Fin NBUF) := Interaction.perform (BufAct.bget blockno)
def look (b : Fin NBUF) : BufM Buf := Interaction.perform (BufAct.look b)
def iderw (b : Fin NBUF) : BufM Unit := Interaction.perform (BufAct.iderw b)
def store (b : Fin NBUF) (data : Block) : BufM Unit := Interaction.perform (BufAct.store b data)
def logWrite (b : Fin NBUF) : BufM Unit := Interaction.perform (BufAct.logWrite b)
def bwrite (caller : Writer) (b : Fin NBUF) : BufM Unit := Interaction.perform (BufAct.bwrite caller b)
def brelse (b : Fin NBUF) : BufM Unit := Interaction.perform (BufAct.brelse b)
def log : BufM Log := Interaction.perform BufAct.log
def clear : BufM Unit := Interaction.perform BufAct.clear
def panic {A : Type} (reason : FsPanic) : BufM A := Interaction.act (BufAct.panic reason) nofun

/-- The call returns a locked buffer with the contents of the block. -/
def bread (blockno : BlockNo) : BufM (Fin NBUF) := do
  let b ← bget blockno
  let buf ← look b
  if buf.valid then pure b
  else do
    iderw b
    pure b

def readsb : BufM Superblock := do
  let bp ← bread 1
  let buf ← look bp
  brelse bp
  pure (.parse buf.data)

def bzero (bno : BlockNo) : BufM Unit := do
  let bp ← bread bno
  store bp 0
  logWrite bp
  brelse bp

/-- The loop of `balloc` goes through the blocks of the free map. -/
def ballocFrom (sb : Superblock) : List Nat → BufM BlockNo
  | [] => panic .outOfBlocks
  | map :: rest => do
      let bp ← bread (BBLOCK (map * BPB) sb)
      let buf ← look bp
      match (List.range (min BPB (sb.size.toNat - map * BPB))).find? fun bi => bitClear buf.data bi with
      | some bi => do
          store bp (setBit buf.data bi)
          logWrite bp
          brelse bp
          bzero (BitVec.ofNat 32 (map * BPB + bi))
          pure (BitVec.ofNat 32 (map * BPB + bi))
      | none => do
          brelse bp
          ballocFrom sb rest

def balloc (sb : Superblock) : BufM BlockNo := ballocFrom sb (List.range ((sb.size.toNat + BPB - 1) / BPB))

def bfree (b : BlockNo) : BufM Unit := do
  let sb ← readsb
  let bp ← bread (BBLOCK b.toNat sb)
  let buf ← look bp
  if bitClear buf.data (b.toNat % BPB) then panic .freeingFreeBlock
  else do
    store bp (clearBit buf.data (b.toNat % BPB))
    logWrite bp
    brelse bp

/-- The inode in a block that holds `IPB` of them. -/
def dinodeIn (data : Block) (inum : Nat) : Dinode := .decode (slot (8 * dinodeSize) data (inum % IPB))

def setDinodeIn (data : Block) (inum : Nat) (dinode : Dinode) : Block := setSlot data (inum % IPB) dinode.encode

/-- The loop of `ialloc` goes through the inodes. The number is the argument of its call of `iget`. -/
def iallocFrom (sb : Superblock) (type : BitVec 16) : List Nat → BufM Nat
  | [] => panic .noFreeInode
  | inum :: rest => do
      let bp ← bread (IBLOCK inum sb)
      let buf ← look bp
      if (dinodeIn buf.data inum).type = 0 then do
        store bp (setDinodeIn buf.data inum {Dinode.zero with type})
        logWrite bp
        brelse bp
        pure inum
      else do
        brelse bp
        iallocFrom sb type rest

def ialloc (sb : Superblock) (type : BitVec 16) : BufM Nat :=
  iallocFrom sb type (List.range' 1 (sb.ninodes.toNat - 1))

def iupdate (sb : Superblock) (inum : Nat) (dinode : Dinode) : BufM Unit := do
  let bp ← bread (IBLOCK inum sb)
  let buf ← look bp
  store bp (setDinodeIn buf.data inum dinode)
  logWrite bp
  brelse bp

/-- The part of `ilock` that reads the inode from the disk. -/
def ilock (sb : Superblock) (inum : Nat) : BufM Dinode := do
  let bp ← bread (IBLOCK inum sb)
  let buf ← look bp
  brelse bp
  if (dinodeIn buf.data inum).type = 0 then panic .noType else pure (dinodeIn buf.data inum)

def setAddr (dinode : Dinode) (index : Fin (NDIRECT + 1)) (addr : BlockNo) : Dinode :=
  {dinode with addrs := Function.update dinode.addrs index addr}

/-- The block of an address in the inode is allocated if necessary. -/
def addrBlock (sb : Superblock) (dinode : Dinode) (index : Fin (NDIRECT + 1)) : BufM (BlockNo × Dinode) :=
  if dinode.addrs index = 0 then do
    let addr ← balloc sb
    pure (addr, setAddr dinode index addr)
  else pure (dinode.addrs index, dinode)

/-- The call returns the block and the inode, which has the addresses of new blocks. -/
def bmap (sb : Superblock) (dinode : Dinode) (bn : Nat) : BufM (BlockNo × Dinode) :=
  if direct : bn < NDIRECT then addrBlock sb dinode ⟨bn, Nat.lt_succ_of_lt direct⟩
  else if bn - NDIRECT < NINDIRECT then do
    let (addr, dinode) ← addrBlock sb dinode (Fin.last NDIRECT)
    let bp ← bread addr
    let buf ← look bp
    if slot 32 buf.data (bn - NDIRECT) = 0 then do
      let addr ← balloc sb
      store bp (setSlot buf.data (bn - NDIRECT) addr)
      logWrite bp
      brelse bp
      pure (addr, dinode)
    else do
      brelse bp
      pure (slot 32 buf.data (bn - NDIRECT), dinode)
  else panic .outOfRange

/-- The loop of `itrunc` over the direct blocks. -/
def freeDirect (dinode : Dinode) : List (Fin NDIRECT) → BufM Dinode
  | [] => pure dinode
  | index :: rest =>
    if dinode.addrs index.castSucc = 0 then freeDirect dinode rest
    else do
      bfree (dinode.addrs index.castSucc)
      freeDirect (setAddr dinode index.castSucc 0) rest

def freeEntry (data : Block) (index : Nat) : BufM Unit :=
  if slot 32 data index = 0 then pure () else bfree (slot 32 data index)

def freeIndirect (dinode : Dinode) : BufM Dinode :=
  let addr := dinode.addrs (Fin.last NDIRECT)
  if addr = 0 then pure dinode
  else do
    let bp ← bread addr
    let buf ← look bp
    (List.range NINDIRECT).forM (freeEntry buf.data)
    brelse bp
    bfree addr
    pure (setAddr dinode (Fin.last NDIRECT) 0)

def itrunc (sb : Superblock) (inum : Nat) (dinode : Dinode) : BufM Dinode := do
  let dinode ← freeDirect dinode (List.finRange NDIRECT)
  let dinode ← freeIndirect dinode
  iupdate sb inum {dinode with size := 0}
  pure {dinode with size := 0}

/-- The branch of `iput` that frees an inode without links and references. -/
def iputFree (sb : Superblock) (inum : Nat) (dinode : Dinode) : BufM Unit := do
  let dinode ← itrunc sb inum dinode
  iupdate sb inum {dinode with type := 0}

/-- One iteration of the loop of `readi`. -/
def readChunk (sb : Superblock) (bn start m : Nat) (value : Dinode × List (BitVec 8)) :
    BufM (Dinode × List (BitVec 8)) := do
  let (addr, dinode) ← bmap sb value.1 bn
  let bp ← bread addr
  let buf ← look bp
  brelse bp
  pure (dinode, value.2 ++ (List.range m).map fun index => slot 8 buf.data (start + index))

def readi (sb : Superblock) (devsw : Devsw) (dinode : Dinode) (off n : BitVec 32) :
    BufM (Option (List (BitVec 8))) :=
  if dinode.type = T_DEV then pure ((Fs.device devsw.read dinode).bind fun read => read off n)
  else if off > dinode.size ∨ off + n < off then pure none
  else do
    let n := if off + n > dinode.size then dinode.size - off else n
    let value ← Interaction.forChunks BSIZE (readChunk sb) n.toNat off.toNat n.toNat (dinode, [])
    pure (some value.2)

/-- One iteration of the loop of `writei` returns the inode and the bytes after those that it has written. -/
def writeChunk (sb : Superblock) (bn start m : Nat) (value : Dinode × List (BitVec 8)) :
    BufM (Dinode × List (BitVec 8)) := do
  let (addr, dinode) ← bmap sb value.1 bn
  let bp ← bread addr
  let buf ← look bp
  store bp (setSlots buf.data start (value.2.take m))
  logWrite bp
  brelse bp
  pure (dinode, value.2.drop m)

def writei (sb : Superblock) (devsw : Devsw) (inum : Nat) (dinode : Dinode) (src : List (BitVec 8))
    (off n : BitVec 32) : BufM (Option Nat) :=
  if dinode.type = T_DEV then
    pure ((Fs.device devsw.write dinode).bind fun write => write off (src.take n.toNat))
  else if off > dinode.size ∨ off + n < off then pure none
  else if (off + n).toNat > MAXFILE * BSIZE then pure none
  else do
    let value ← Interaction.forChunks BSIZE (writeChunk sb) n.toNat off.toNat n.toNat (dinode, src)
    if n > 0 ∧ off + n > value.1.size then iupdate sb inum {value.1 with size := off + n} else pure ()
    pure (some n.toNat)

/-- The loops over `log.lh` read the header in each iteration. It holds at most `LOGSIZE` blocks. -/
def forTail (body : Log → Nat → BufM Unit) : Nat → Nat → BufM Unit
  | 0, _ => pure ()
  | fuel + 1, tail => do
      let current ← log
      if tail < current.lh.n then do
        body current tail
        forTail body fuel (tail + 1)
      else pure ()

/-- The block number `log.lh.block[tail]`. -/
def homeBlock (log : Log) (tail : Nat) : BlockNo := log.lh.block.getD tail 0

def writeLogBlock (log : Log) (tail : Nat) : BufM Unit := do
  let dst ← bread (log.slotBlock tail)
  let src ← bread (homeBlock log tail)
  let buf ← look src
  store dst buf.data
  bwrite .writeLog dst
  brelse src
  brelse dst

def writeLog : BufM Unit := forTail writeLogBlock (LOGSIZE + 1) 0

def installBlock (log : Log) (tail : Nat) : BufM Unit := do
  let lbuf ← bread (log.slotBlock tail)
  let dbuf ← bread (homeBlock log tail)
  let buf ← look lbuf
  store dbuf buf.data
  bwrite .installTrans dbuf
  brelse lbuf
  brelse dbuf

def installTrans : BufM Unit := forTail installBlock (LOGSIZE + 1) 0

def writeHead : BufM Unit := do
  let current ← log
  let b ← bread current.start
  let buf ← look b
  store b (encodeHead buf.data current.lh)
  bwrite .writeHead b
  brelse b

def commit : BufM Unit := do
  let current ← log
  if 0 < current.lh.n then do
    writeLog
    writeHead
    installTrans
    clear
    writeHead
  else pure ()

end BufM

/-- The calls of the block and inode layers that read and write blocks. The inode is the locked one in memory. -/
inductive BufCall where
  | readsb
  | bzero (bno : BlockNo)
  | balloc
  | bfree (b : BlockNo)
  | ialloc (type : BitVec 16)
  | iupdate (inum : Nat) (dinode : Dinode)
  | ilock (inum : Nat)
  | bmap (dinode : Dinode) (bn : Nat)
  | itrunc (inum : Nat) (dinode : Dinode)
  | iput (inum : Nat) (dinode : Dinode)
  | readi (dinode : Dinode) (off n : BitVec 32)
  | writei (inum : Nat) (dinode : Dinode) (src : List (BitVec 8)) (off n : BitVec 32)

/-- The call drops its result. -/
def BufCall.program (sb : Superblock) (devsw : Devsw) : BufCall → BufM Unit
  | .readsb => do
      let _ ← BufM.readsb
      pure ()
  | .bzero bno => BufM.bzero bno
  | .balloc => do
      let _ ← BufM.balloc sb
      pure ()
  | .bfree b => BufM.bfree b
  | .ialloc type => do
      let _ ← BufM.ialloc sb type
      pure ()
  | .iupdate inum dinode => BufM.iupdate sb inum dinode
  | .ilock inum => do
      let _ ← BufM.ilock sb inum
      pure ()
  | .bmap dinode bn => do
      let _ ← BufM.bmap sb dinode bn
      pure ()
  | .itrunc inum dinode => do
      let _ ← BufM.itrunc sb inum dinode
      pure ()
  | .iput inum dinode => BufM.iputFree sb inum dinode
  | .readi dinode off n => do
      let _ ← BufM.readi sb devsw dinode off n
      pure ()
  | .writei inum dinode src off n => do
      let _ ← BufM.writei sb devsw inum dinode src off n
      pure ()

end Xv6
