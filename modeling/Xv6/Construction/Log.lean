import Xv6.Construction.Layout
import Mathlib.Logic.Function.Basic

namespace Xv6
open Library

/-- The in-memory log header holds the first `n` entries of `block`. -/
structure LogHeader where
  block : List BlockNo
  fits : block.length ≤ LOGSIZE

/-- The field `n` counts the logged blocks. -/
def LogHeader.n (lh : LogHeader) : Nat := lh.block.length

def LogHeader.empty : LogHeader := ⟨[], Nat.zero_le _⟩

/-- The log descriptor that all processors share. -/
structure Log where
  start : BlockNo
  size : Int
  outstanding : Int
  committing : Bool
  lh : LogHeader

/-- The logging layer sees the log descriptor, the modified buffers and the disk.
The list records each block write that has reached the disk. -/
structure LogState where
  log : Log
  dirty : BlockNo → Option Block
  disk : Disk
  writes : List (BlockNo × Block)

/-- A read returns the modified buffer, or the disk block when no buffer differs from it. -/
def LogState.bread (state : LogState) (blockno : BlockNo) : Block :=
  (state.dirty blockno).getD (state.disk blockno)

/-- A synchronous write makes the buffer clean. -/
def LogState.bwrite (state : LogState) (blockno : BlockNo) (data : Block) : LogState :=
  {state with
    dirty := Function.update state.dirty blockno none
    disk := Function.update state.disk blockno data
    writes := state.writes ++ [(blockno, data)]}

/-- The log block at position `tail` follows the header block. -/
def Log.slotBlock (log : Log) (tail : Nat) : BlockNo := log.start + BitVec.ofNat 32 tail + 1

/-- Each iteration reads the second block of a pair and writes its contents to the first. -/
def copyBlocks (pairs : List (BlockNo × BlockNo)) (state : LogState) : LogState :=
  pairs.foldl (fun state pair => state.bwrite pair.1 (state.bread pair.2)) state

/-- This loop copies the modified blocks from the cache to the log. -/
def writeLog (state : LogState) : LogState :=
  copyBlocks (state.log.lh.block.zipIdx.map fun entry => (state.log.slotBlock entry.2, entry.1)) state

/-- This loop copies the committed blocks from the log to their home locations. -/
def installTrans (state : LogState) : LogState :=
  copyBlocks (state.log.lh.block.zipIdx.map fun entry => (entry.1, state.log.slotBlock entry.2)) state

/-- The header fields overwrite the start of the header buffer. -/
def encodeHead (buf : Block) (lh : LogHeader) : Block :=
  lh.block.zipIdx.foldl (fun buf entry => setSlot buf (entry.2 + 1) entry.1)
    (setSlot buf 0 (BitVec.ofNat 32 lh.n))

def headN (buf : Block) : Int := (slot 32 buf 0).toInt

/-- A count above `LOGSIZE` overruns the in-memory array and has no defined result. -/
def decodeHead (buf : Block) : Option LogHeader :=
  if fits : (headN buf).toNat ≤ LOGSIZE then
    some ⟨(List.range (headN buf).toNat).map fun i => slot 32 buf (i + 1), by simpa using fits⟩
  else none

def readHead (state : LogState) : Option LogState :=
  (decodeHead (state.bread state.log.start)).map fun lh => {state with log := {state.log with lh}}

def writeHead (state : LogState) : LogState :=
  state.bwrite state.log.start (encodeHead (state.bread state.log.start) state.log.lh)

/-- The assignment `log.lh.n = 0` empties the header. -/
def LogState.clear (state : LogState) : LogState :=
  {state with log := {state.log with lh := LogHeader.empty}}

def recoverFromLog (state : LogState) : Option LogState :=
  (readHead state).map fun state => writeHead (installTrans state).clear

def commit (state : LogState) : LogState :=
  if 0 < state.log.lh.n then
    writeHead (installTrans (writeHead (writeLog state))).clear
  else state

/-- A boot loses every buffer and starts from the disk. -/
def boot (start : BlockNo) (size : Int) (disk : Disk) : LogState where
  log := ⟨start, size, 0, false, LogHeader.empty⟩
  dirty := fun _ => none
  disk := disk
  writes := []

/-- The super block places the log, and the recovery runs before any process. -/
def initlog (sb : Superblock) (disk : Disk) : Option LogState :=
  recoverFromLog (boot sb.logstart sb.nlog.toInt disk)

/-- The log region of the disk holds the header block and the log blocks. -/
def InLog (start : BlockNo) (size : Int) (blockno : BlockNo) : Prop :=
  ∃ i : Nat, (i : Int) < size ∧ blockno = start + BitVec.ofNat 32 i

end Xv6
