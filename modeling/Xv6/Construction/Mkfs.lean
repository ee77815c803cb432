import Xv6.Construction.Dirent

namespace Xv6
open Library

/-- The image file and the counters of `mkfs`. -/
structure MkfsState where
  disk : Disk
  freeinode : Nat
  freeblock : Nat

/-- The program exits with status 1 or aborts. -/
inductive MkfsHalt where
  | exit
  | abort
  deriving DecidableEq

abbrev MkfsM := Prog MkfsState MkfsHalt

namespace Mkfs

/-- The sector at the offset `sec * BSIZE`, which is a 32-bit number. -/
def sector (sec : BlockNo) : BlockNo := BitVec.ofNat 32 (sec.toNat * BSIZE % 2 ^ 32 / BSIZE)

/-- A read beyond the end of the image file fails. -/
def rsect (sec : BlockNo) : MkfsM Block := do
  let state ← get
  if (sector sec).toNat < FSSIZE then pure (state.disk (sector sec)) else throw .exit

def wsect (sec : BlockNo) (data : Block) : MkfsM Unit :=
  modify fun state => {state with disk := Function.update state.disk (sector sec) data}

def rinode (inum : Nat) : MkfsM Dinode := do
  let buf ← rsect (IBLOCK inum sb)
  pure (.decode (slot (8 * dinodeSize) buf (inum % IPB)))

def winode (inum : Nat) (din : Dinode) : MkfsM Unit := do
  let buf ← rsect (IBLOCK inum sb)
  wsect (IBLOCK inum sb) (setSlot buf (inum % IPB) din.encode)

def ialloc (type : BitVec 16) : MkfsM Nat := do
  let state ← get
  modify fun state => {state with freeinode := state.freeinode + 1}
  winode state.freeinode {Dinode.zero with type, nlink := 1}
  pure state.freeinode

/-- The free map with the bits of the first blocks. -/
def bitmap (used : Nat) : Block := (List.range used).foldl setBit 0

def balloc (used : Nat) : MkfsM Unit := if used < BSIZE * 8 then wsect sb.bmapstart (bitmap used) else throw .abort

/-- The expression `freeblock++`. -/
def takeBlock : MkfsM BlockNo := do
  let state ← get
  modify fun state => {state with freeblock := state.freeblock + 1}
  pure (BitVec.ofNat 32 state.freeblock)

/-- The block of an address in the inode is new if there was none. -/
def addrBlock (din : Dinode) (index : Fin (NDIRECT + 1)) : MkfsM (BlockNo × Dinode) :=
  if din.addrs index = 0 then do
    let b ← takeBlock
    pure (b, {din with addrs := Function.update din.addrs index b})
  else pure (din.addrs index, din)

/-- The block of an entry of the indirect block is new if there was none. -/
def entryBlock (bp : BlockNo) (index : Nat) : MkfsM BlockNo := do
  let indirect ← rsect bp
  if slot 32 indirect index = 0 then
    let b ← takeBlock
    wsect bp (setSlot indirect index b)
    pure b
  else pure (slot 32 indirect index)

/-- The block of the file that an iteration of the loop in `iappend` writes. -/
def fileBlock (din : Dinode) (fbn : Nat) : MkfsM (BlockNo × Dinode) :=
  if direct : fbn < NDIRECT then addrBlock din ⟨fbn, Nat.lt_succ_of_lt direct⟩
  else do
    let (bp, din) ← addrBlock din (Fin.last NDIRECT)
    let x ← entryBlock bp (fbn - NDIRECT)
    pure (x, din)

/-- One iteration of the loop in `iappend`. -/
def appendChunk (fbn start n1 : Nat) (value : Dinode × List (BitVec 8)) : MkfsM (Dinode × List (BitVec 8)) :=
  if fbn < MAXFILE then do
    let (x, din) ← fileBlock value.1 fbn
    let buf ← rsect x
    wsect x (setSlots buf start (value.2.take n1))
    pure (din, value.2.drop n1)
  else throw .abort

def iappend (inum : Nat) (p : List (BitVec 8)) : MkfsM Unit := do
  let din ← rinode inum
  let (last, _) ← forChunks BSIZE appendChunk p.length din.size.toNat p.length (din, p)
  winode inum {last with size := din.size + BitVec.ofNat 32 p.length}

/-- The words of the super block. -/
def sbWords : List (BitVec 32) :=
  [sb.size, sb.nblocks, sb.ninodes, sb.nlog, sb.logstart, sb.inodestart, sb.bmapstart]

/-- The image has only zeros and the super block, and nothing is allocated. -/
def blank : MkfsState where
  disk := Function.update (fun _ => 0) 1 (setSlots 0 0 sbWords)
  freeinode := 1
  freeblock := nmeta

end Mkfs

/-- The calls that add to the image. -/
inductive MkfsCall where
  | ialloc (type : BitVec 16)
  | iappend (inum : Nat) (p : List (BitVec 8))

namespace Mkfs

def perform : MkfsCall → MkfsM Unit
  | .ialloc type => do
      let _ ← ialloc type
      pure ()
  | .iappend inum p => iappend inum p

end Mkfs

namespace Fs

/-- The kernel after it has read the super block. -/
def boot (disk : Disk) : Fs where
  sb := .parse (disk 1)
  disk := disk
  icache := fun _ => ⟨0, 0, false, .zero⟩

end Fs

/-- An input file has a name and contents, unless it cannot be opened. -/
structure InputFile where
  name : List (BitVec 8)
  contents : Option (List (BitVec 8))

namespace Mkfs

def dot : List (BitVec 8) := [0x2e]

def dotdot : List (BitVec 8) := [0x2e, 0x2e]

/-- The name of a file skips a leading underscore. -/
def stripName : List (BitVec 8) → List (BitVec 8)
  | [] => []
  | first :: rest => if first = 0x5f then rest else first :: rest

/-- The results of the calls of `read` for a buffer of one block. -/
def reads (contents : List (BitVec 8)) : List (List (BitVec 8)) :=
  (List.range ((contents.length + (BSIZE - 1)) / BSIZE)).map fun index => (contents.drop (index * BSIZE)).take BSIZE

/-- One iteration of the loop over the arguments. -/
def addFile (rootino : Nat) (file : InputFile) : MkfsM Unit :=
  if 0x2f ∈ file.name then throw .abort
  else
    match file.contents with
    | none => throw .exit
    | some contents => do
        let inum ← ialloc T_FILE
        iappend rootino (Dirent.bytes ⟨BitVec.ofNat 16 inum, strncpy (stripName file.name)⟩)
        (reads contents).forM (iappend inum)

/-- The size of the root directory is rounded up. -/
def fixRoot (rootino : Nat) : MkfsM Unit := do
  let din ← rinode rootino
  winode rootino {din with size := (din.size / BitVec.ofNat 32 BSIZE + 1) * BitVec.ofNat 32 BSIZE}

/-- The program after it has opened the image file and written the zeros and the super block. -/
def main (files : List InputFile) : MkfsM Unit := do
  let rootino ← ialloc T_DIR
  if rootino = ROOTINO then
    iappend rootino (Dirent.bytes ⟨BitVec.ofNat 16 rootino, strncpy dot⟩)
    iappend rootino (Dirent.bytes ⟨BitVec.ofNat 16 rootino, strncpy dotdot⟩)
    files.forM (addFile rootino)
    fixRoot rootino
    let state ← get
    balloc state.freeblock
  else throw .abort

end Mkfs
end Xv6
