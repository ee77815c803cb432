import Mathlib.Tactic

namespace Xv6

/-- These are the saved user registers for the arguments of a system call and for the return to user code. -/
structure Trapframe where
  rdi : BitVec 64
  rsi : BitVec 64
  rdx : BitVec 64
  r10 : BitVec 64
  r8 : BitVec 64
  r9 : BitVec 64
  rcx : BitVec 64
  rip : BitVec 64
  rsp : BitVec 64

/-- The address space of a process maps some of its addresses to bytes. -/
structure Proc where
  sz : BitVec 64
  tf : Trapframe
  memory : BitVec 64 → Option (BitVec 8)

/-- The kernel halts at a panic or at a load from an unmapped address. -/
inductive SyscallHalt where
  | failedFetch
  | pageFault (addr : BitVec 64)
  deriving DecidableEq

def SyscallHalt.message : SyscallHalt → String
  | .failedFetch => "failed fetch"
  | .pageFault _ => "trap"

/-- The register that holds the argument with the given number. -/
def fetcharg (proc : Proc) : Nat → Except SyscallHalt (BitVec 64)
  | 0 => .ok proc.tf.rdi
  | 1 => .ok proc.tf.rsi
  | 2 => .ok proc.tf.rdx
  | 3 => .ok proc.tf.r10
  | 4 => .ok proc.tf.r8
  | 5 => .ok proc.tf.r9
  | _ => .error .failedFetch

/-- The pair holds the return value and the stored `int`. -/
def argint (proc : Proc) (n : Nat) : Except SyscallHalt (BitVec 32 × BitVec 32) := do
  let value ← fetcharg proc n
  .ok (0, value.setWidth 32)

/-- The pair holds the return value and the stored address. -/
def argaddr (proc : Proc) (n : Nat) : Except SyscallHalt (BitVec 32 × BitVec 64) := do
  let value ← fetcharg proc n
  .ok (0, value)

/-- The address and the size are compared after a conversion to 32 unsigned bits.
The pair holds the return value and the pointer stored through `pp`, if any. -/
def argptr (proc : Proc) (n : Nat) (size : BitVec 32) :
    Except SyscallHalt (BitVec 32 × Option (BitVec 64)) := do
  let (ret, i) ← argaddr proc n
  if ret.toInt < 0 then
    .ok (-1, none)
  else if size.toInt < 0 ∨ (i.setWidth 32).setWidth 64 ≥ proc.sz ∨
      (i.setWidth 32 + size).setWidth 64 > proc.sz then
    .ok (-1, none)
  else
    .ok (0, some i)

/-- The loop of `fetchstr` has `left` bytes before the end of the process memory. -/
def scan (memory : BitVec 64 → Option (BitVec 8)) (pp : BitVec 64) :
    Nat → BitVec 64 → Except SyscallHalt (BitVec 32)
  | 0, _ => .ok (-1)
  | left + 1, s =>
    match memory s with
    | none => .error (.pageFault s)
    | some byte => if byte = 0 then .ok ((s - pp).setWidth 32) else scan memory pp left (s + 1)

/-- The pointer is stored before the string is known to end. -/
def fetchstr (proc : Proc) (addr : BitVec 64) : Except SyscallHalt (BitVec 32 × Option (BitVec 64)) :=
  if addr ≥ proc.sz then
    .ok (-1, none)
  else do
    let ret ← scan proc.memory addr (proc.sz.toNat - addr.toNat) addr
    .ok (ret, some addr)

/-- A load of some bytes from the process memory. -/
def loadBytes (memory : BitVec 64 → Option (BitVec 8)) : Nat → BitVec 64 → Except SyscallHalt (List (BitVec 8))
  | 0, _ => .ok []
  | count + 1, s =>
    match memory s with
    | none => .error (.pageFault s)
    | some byte => (loadBytes memory count (s + 1)).map (byte :: ·)

/-- The pair holds the return value and the word stored through `ip`, if any. -/
def fetchaddr (proc : Proc) (addr : BitVec 64) : Except SyscallHalt (BitVec 32 × Option (BitVec 64)) :=
  if addr ≥ proc.sz ∨ addr + 8 > proc.sz then
    .ok (-1, none)
  else do
    let bytes ← loadBytes proc.memory 8 addr
    .ok (0, some (BitVec.ofNat 64 (bytes.foldr (fun byte rest => byte.toNat + 256 * rest) 0)))

/-- The argument passes through an `int`, so it is sign-extended to an address. -/
def argstr (proc : Proc) (n : Nat) : Except SyscallHalt (BitVec 32 × Option (BitVec 64)) := do
  let (ret, addr) ← argint proc n
  if ret.toInt < 0 then
    .ok (-1, none)
  else
    fetchstr proc (addr.signExtend 64)

end Xv6
