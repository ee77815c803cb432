import Xv6.Construction.Fs

namespace Xv6
open Library

def ROOTINO : Nat := 1

def DIRSIZ : Nat := 14

/-- The size of `struct dirent` in bytes. -/
def direntSize : Nat := 16

/-- The fields of `struct dirent`. -/
@[ext] structure Dirent where
  inum : BitVec 16
  name : Fin DIRSIZ → BitVec 8
  deriving DecidableEq

/-- The result of `strncpy(name, s, DIRSIZ)` for the bytes of a string before its zero byte. -/
def strncpy (s : List (BitVec 8)) : Fin DIRSIZ → BitVec 8 := fun index => s.getD index 0

namespace Dirent

def bytes (entry : Dirent) : List (BitVec 8) :=
  slot 8 entry.inum 0 :: slot 8 entry.inum 1 :: List.ofFn entry.name

def parse (bytes : List (BitVec 8)) : Dirent where
  inum := bytes.getD 1 0 ++ bytes.getD 0 0
  name index := bytes.getD (2 + index) 0

end Dirent
end Xv6
