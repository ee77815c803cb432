import Xv6.Construction.Layout
import Xv6.Construction.Syscall
import Xv6.Construction.Vm

namespace Xv6
open Library

def MAXARG : Nat := 32

/-- A regular file is a byte string of at most `MAXFILE` blocks. -/
structure File where
  bytes : List (BitVec 8)
  fits : bytes.length ≤ MAXFILE * BSIZE

def File.size (file : File) : BitVec 32 := BitVec.ofNat 32 file.bytes.length

/-- The call copies the bytes that it returns to its destination. It returns -1 as `none`. -/
def readi (file : File) (off n : BitVec 32) : Option (List (BitVec 8)) :=
  if off > file.size ∨ off + n < off then
    none
  else
    let n := if off + n > file.size then file.size - off else n
    some ((file.bytes.drop off.toNat).take n.toNat)

/-- The value of a little-endian byte string. -/
def littleEndian : List (BitVec 8) → Nat
  | [] => 0
  | byte :: rest => byte.toNat + 256 * littleEndian rest

/-- A field of a structure in a file has an offset and a number of bytes. -/
def field (bytes : List (BitVec 8)) (offset count : Nat) : Nat :=
  littleEndian ((bytes.drop offset).take count)

def ELF_MAGIC : BitVec 32 := 0x464C457F
def ELF_PROG_LOAD : BitVec 32 := 1

/-- The header fields that `exec` reads. -/
structure ElfHdr where
  magic : BitVec 32
  entry : BitVec 64
  phoff : BitVec 64
  phnum : BitVec 16
  deriving DecidableEq

structure ProgHdr where
  type : BitVec 32
  off : BitVec 64
  vaddr : BitVec 64
  filesz : BitVec 64
  memsz : BitVec 64
  deriving DecidableEq

def elfHdrSize : Nat := 64
def progHdrSize : Nat := 56

def ElfHdr.parse (bytes : List (BitVec 8)) : ElfHdr where
  magic := BitVec.ofNat 32 (field bytes 0 4)
  entry := BitVec.ofNat 64 (field bytes 24 8)
  phoff := BitVec.ofNat 64 (field bytes 32 8)
  phnum := BitVec.ofNat 16 (field bytes 56 2)

def ProgHdr.parse (bytes : List (BitVec 8)) : ProgHdr where
  type := BitVec.ofNat 32 (field bytes 0 4)
  off := BitVec.ofNat 64 (field bytes 8 8)
  vaddr := BitVec.ofNat 64 (field bytes 16 8)
  filesz := BitVec.ofNat 64 (field bytes 32 8)
  memsz := BitVec.ofNat 64 (field bytes 40 8)

namespace Kernel

/-- The loop of `loaduvm` reads one page of the segment per iteration. -/
def loadLoop (pgdir : Nat) (addr : BitVec 64) (file : File) (offset sz : BitVec 32) :
    Nat → BitVec 32 → Kernel → Except VmHalt (Int × Kernel)
  | 0, _, kernel => .ok (0, kernel)
  | pages + 1, i, kernel => do
      match ← kernel.walkpgdir pgdir (addr + i.setWidth 64) false with
      | (none, _) => .error (.panic .missing)
      | (some (table, index), kernel) =>
        let pte ← kernel.loadEntry table index
        let frame := pteFrame pte
        let n := if (sz - i).toNat < PGSIZE then sz - i else BitVec.ofNat 32 PGSIZE
        match readi file (offset + i) n with
        | none => .ok (-1, kernel)
        | some bytes =>
          let stored ← if bytes = [] then .ok kernel
            else kernel.storePage frame (storeBytes (kernel.memory frame) 0 bytes)
          let loaded := if bytes = [] then stored else {stored with loaded := frame :: stored.loaded}
          if bytes.length ≠ n.toNat then .ok (-1, loaded)
          else loadLoop pgdir addr file offset sz pages (i + BitVec.ofNat 32 PGSIZE) loaded

/-- The index wraps to 0 before it reaches a size of more than `2 ^ 32 - PGSIZE` bytes. -/
def loaduvm (kernel : Kernel) (pgdir : Nat) (addr : BitVec 64) (file : File) (offset sz : BitVec 32) :
    Except VmHalt (Int × Kernel) :=
  if addr.toNat % PGSIZE ≠ 0 then
    .error (.panic .unaligned)
  else do
    let (ret, kernel) ← loadLoop pgdir addr file offset sz ((sz.toNat + (PGSIZE - 1)) / PGSIZE) 0 kernel
    if ret = 0 ∧ sz.toNat > 2 ^ 32 - PGSIZE then .error .endless else .ok (ret, kernel)

/-- One program header is skipped, loaded or rejected. A jump to `bad` is `none`. -/
def loadSegment (kernel : Kernel) (pgdir : Nat) (file : File) (sz : BitVec 64) (ph : ProgHdr) :
    Except VmHalt (Option (BitVec 64) × Kernel) :=
  if ph.type ≠ ELF_PROG_LOAD then
    .ok (some sz, kernel)
  else if ph.memsz < ph.filesz then
    .ok (none, kernel)
  else if ph.vaddr + ph.memsz < ph.vaddr then
    .ok (none, kernel)
  else do
    let (sz, kernel) ← kernel.allocuvm pgdir sz (ph.vaddr + ph.memsz)
    if sz = 0 then
      .ok (none, kernel)
    else if ph.vaddr.toNat % PGSIZE ≠ 0 then
      .ok (none, kernel)
    else
      let (ret, kernel) ← kernel.loaduvm pgdir ph.vaddr file (ph.off.setWidth 32) (ph.filesz.setWidth 32)
      if ret < 0 then .ok (none, kernel) else .ok (some sz, kernel)

/-- The loop over the program headers has the 32-bit offset of the next header. -/
def loadSegments (pgdir : Nat) (file : File) :
    Nat → BitVec 32 → BitVec 64 → Kernel → Except VmHalt (Option (BitVec 64) × Kernel)
  | 0, _, sz, kernel => .ok (some sz, kernel)
  | headers + 1, off, sz, kernel =>
    match readi file off (BitVec.ofNat 32 progHdrSize) with
    | none => .ok (none, kernel)
    | some bytes =>
      if bytes.length ≠ progHdrSize then
        .ok (none, kernel)
      else do
        match ← kernel.loadSegment pgdir file sz (ProgHdr.parse bytes) with
        | (none, kernel) => .ok (none, kernel)
        | (some sz, kernel) =>
          loadSegments pgdir file headers (off + BitVec.ofNat 32 progHdrSize) sz kernel

/-- The loop over the argument strings pushes each one with its NUL byte. The result is the stack pointer
and the addresses of the strings. -/
def pushArgs (pgdir : Nat) :
    List (List (BitVec 8)) → BitVec 64 → List (BitVec 64) → Kernel →
      Except VmHalt (Option (BitVec 64 × List (BitVec 64)) × Kernel)
  | [], sp, ustack, kernel => .ok (some (sp, ustack), kernel)
  | string :: rest, sp, ustack, kernel =>
    if ustack.length ≥ MAXARG then
      .ok (none, kernel)
    else do
      let sp := (sp - BitVec.ofNat 64 (string.length + 1)) &&& ~~~7
      let (ret, kernel) ← kernel.copyout pgdir sp (string ++ [0])
      if ret < 0 then .ok (none, kernel) else pushArgs pgdir rest sp (ustack ++ [sp]) kernel

end Kernel

/-- The bytes of a 64-bit word in memory order. -/
def wordBytes (word : BitVec 64) : List (BitVec 8) := (List.range 8).map (slot 8 word)

/-- The path component after the last slash. -/
def lastComponent (path : List (BitVec 8)) : List (BitVec 8) :=
  path.foldl (fun last byte => if byte = 0x2F then [] else last ++ [byte]) []

/-- The caller of `exec` owns the page table `pgdir`. The field `name` holds 15 bytes and a NUL byte. -/
structure ExecProc where
  pgdir : Nat
  sz : BitVec 64
  tf : Trapframe
  name : List (BitVec 8)

/-- The function returns its result, the process and the kernel. The path lookup is an input. -/
structure ExecResult where
  ret : Int
  proc : ExecProc
  kernel : Kernel

/-- The label `bad` frees the new page table. -/
def execBad (proc : ExecProc) (pgdir : Nat) (kernel : Kernel) : Except VmHalt ExecResult := do
  let kernel ← kernel.freevm pgdir
  .ok ⟨-1, proc, kernel⟩

/-- After the arguments the vector `ustack` is copied and the image is committed. -/
def execCommit (kernel : Kernel) (proc : ExecProc) (path : List (BitVec 8)) (pgdir : Nat) (entry sz sp : BitVec 64)
    (strings : List (BitVec 64)) : Except VmHalt ExecResult := do
  let argc := BitVec.ofNat 64 strings.length
  let argv := sp - (argc + 1) * 8
  let ustack := [0xffffffff, argc, argv] ++ strings ++ [0]
  let proc := {proc with tf := {proc.tf with rdi := argc, rsi := argv}}
  let sp := sp - (3 + argc + 1) * 8
  let (ret, kernel) ← kernel.copyout pgdir sp (ustack.flatMap wordBytes)
  if ret < 0 then
    execBad proc pgdir kernel
  else
    let committed : ExecProc :=
      {pgdir, sz, tf := {proc.tf with rip := entry, rcx := entry, rsp := sp}, name := (lastComponent path).take 15}
    let kernel ← kernel.freevm proc.pgdir
    .ok ⟨0, committed, kernel⟩

/-- The stack takes two pages above the segments, and the lower one is made inaccessible. -/
def execStack (kernel : Kernel) (proc : ExecProc) (path : List (BitVec 8)) (argv : List (List (BitVec 8)))
    (pgdir : Nat) (entry sz : BitVec 64) : Except VmHalt ExecResult := do
  let sz := PGROUNDUP sz
  let (sz, kernel) ← kernel.allocuvm pgdir sz (sz + BitVec.ofNat 64 (2 * PGSIZE))
  if sz = 0 then
    execBad proc pgdir kernel
  else
    let kernel ← kernel.clearpteu pgdir (sz - BitVec.ofNat 64 (2 * PGSIZE))
    match ← Kernel.pushArgs pgdir argv sz [] kernel with
    | (none, kernel) => execBad proc pgdir kernel
    | (some (sp, strings), kernel) => execCommit kernel proc path pgdir entry sz sp strings

/-- A size of 0 is the failure of `allocuvm` or `deallocuvm`. -/
def growTo (proc : ExecProc) : BitVec 64 × Kernel → Except VmHalt ExecResult
  | (sz, kernel) => if sz = 0 then .ok ⟨-1, proc, kernel⟩ else .ok ⟨0, {proc with sz}, kernel⟩

/-- The argument is a signed number of bytes. -/
def growproc (kernel : Kernel) (proc : ExecProc) (n : BitVec 64) : Except VmHalt ExecResult :=
  if n.toInt > 0 then
    kernel.allocuvm proc.pgdir proc.sz (proc.sz + n) >>= growTo proc
  else if n.toInt < 0 then
    kernel.deallocuvm proc.pgdir proc.sz (proc.sz + n) >>= growTo proc
  else
    .ok ⟨0, proc, kernel⟩

def exec (kernel : Kernel) (proc : ExecProc) (path : List (BitVec 8)) (inode : Option File)
    (argv : List (List (BitVec 8))) : Except VmHalt ExecResult :=
  match inode with
  | none => .ok ⟨-1, proc, kernel⟩
  | some file =>
    match readi file 0 (BitVec.ofNat 32 elfHdrSize) with
    | none => .ok ⟨-1, proc, kernel⟩
    | some bytes =>
      let elf := ElfHdr.parse bytes
      if bytes.length ≠ elfHdrSize then
        .ok ⟨-1, proc, kernel⟩
      else if elf.magic ≠ ELF_MAGIC then
        .ok ⟨-1, proc, kernel⟩
      else do
        let (pgdir, kernel) ← kernel.setupkvm
        match ← Kernel.loadSegments pgdir file elf.phnum.toNat (elf.phoff.setWidth 32)
            (BitVec.ofNat 64 PGSIZE) kernel with
        | (none, kernel) => execBad proc pgdir kernel
        | (some sz, kernel) => execStack kernel proc path argv pgdir elf.entry sz

end Xv6
