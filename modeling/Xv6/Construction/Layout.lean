import Xv6.Library.Slots

namespace Xv6

/-- The block size of the file system in bytes. -/
def BSIZE : Nat := 512

/-- The maximum number of blocks that one file-system operation writes. -/
def MAXOPBLOCKS : Nat := 10

/-- The number of block numbers that a log header holds. -/
def LOGSIZE : Nat := MAXOPBLOCKS * 3

/-- The size of the file system in blocks. -/
def FSSIZE : Nat := 1000

/-- The inode count that `mkfs` reserves. -/
def NINODES : Nat := 200

/-- The size of `struct dinode` in bytes. -/
def dinodeSize : Nat := 64

/-- The inodes per block. -/
def IPB : Nat := BSIZE / dinodeSize

def NDIRECT : Nat := 12
def NINDIRECT : Nat := BSIZE / 4
def MAXFILE : Nat := NDIRECT + NINDIRECT

/-- The bits per block of the free map. -/
def BPB : Nat := BSIZE * 8

abbrev BlockNo := BitVec 32

abbrev Block := BitVec (8 * BSIZE)

abbrev Disk := BlockNo → Block

/-- The super block describes the disk layout. -/
structure Superblock where
  size : BitVec 32
  nblocks : BitVec 32
  ninodes : BitVec 32
  nlog : BitVec 32
  logstart : BitVec 32
  inodestart : BitVec 32
  bmapstart : BitVec 32

namespace Mkfs

def nbitmap : Nat := FSSIZE / (BSIZE * 8) + 1

def ninodeblocks : Nat := NINODES / IPB + 1

/-- The log blocks include the header block. -/
def nlog : Nat := LOGSIZE

def nmeta : Nat := 2 + nlog + ninodeblocks + nbitmap

def nblocks : Nat := FSSIZE - nmeta

/-- This is the super block that `main` of `mkfs` writes. -/
def sb : Superblock where
  size := BitVec.ofNat 32 FSSIZE
  nblocks := BitVec.ofNat 32 nblocks
  ninodes := BitVec.ofNat 32 NINODES
  nlog := BitVec.ofNat 32 nlog
  logstart := 2
  inodestart := BitVec.ofNat 32 (2 + nlog)
  bmapstart := BitVec.ofNat 32 (2 + nlog + ninodeblocks)

end Mkfs
end Xv6
