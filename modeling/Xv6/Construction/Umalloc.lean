import Xv6.Library.EventRun
import Xv6.Library.Extents
import Mathlib.Logic.Function.Basic

namespace Xv6
open Library

/-- The size of `union header` in bytes. -/
def headerSize : Nat := 16

/-- The fields of `union header`. The size counts headers and is an unsigned 32-bit number. -/
structure Header where
  ptr : Nat
  size : BitVec 32

/-- The allocator has the headers in memory and `freep`. The last fields say where the next region of `sbrk` may
start and how many units all regions have. -/
structure Umalloc where
  header : Nat → Header
  freep : Nat
  brk : Nat
  granted : Nat

/-- A loop that has used up its fuel spins. An event is blocked if `sbrk` or the program may not do it. -/
inductive UmallocHalt where
  | spins
  | blocked
  deriving DecidableEq

namespace Umalloc

def ptr (heap : Umalloc) (p : Nat) : Nat := (heap.header p).ptr

def size (heap : Umalloc) (p : Nat) : BitVec 32 := (heap.header p).size

def setPtr (heap : Umalloc) (p ptr : Nat) : Umalloc :=
  {heap with header := Function.update heap.header p {heap.header p with ptr}}

def setSize (heap : Umalloc) (p : Nat) (size : BitVec 32) : Umalloc :=
  {heap with header := Function.update heap.header p {heap.header p with size}}

def setFreep (heap : Umalloc) (p : Nat) : Umalloc := {heap with freep := p}

/-- The expression `p + n` of type `Header*`. -/
def plus (p : Nat) (n : BitVec 32) : Nat := p + headerSize * n.toNat

/-- The loop of `free` looks for the place of the block. -/
def freeLoop (heap : Umalloc) (bp : Nat) : Nat → Nat → Option Nat
  | 0, _ => none
  | fuel + 1, p =>
    if bp > p ∧ bp < heap.ptr p then some p
    else if p ≥ heap.ptr p ∧ (bp > p ∨ bp < heap.ptr p) then some p
    else heap.freeLoop bp fuel (heap.ptr p)

/-- The block is joined with the one after it or linked to it. -/
def joinUpper (heap : Umalloc) (bp p : Nat) : Umalloc :=
  if plus bp (heap.size bp) = heap.ptr p then
    (heap.setSize bp (heap.size bp + heap.size (heap.ptr p))).setPtr bp (heap.ptr (heap.ptr p))
  else heap.setPtr bp (heap.ptr p)

/-- The block is joined with the one before it or linked from it. -/
def joinLower (heap : Umalloc) (bp p : Nat) : Umalloc :=
  if plus p (heap.size p) = bp then
    (heap.setSize p (heap.size p + heap.size bp)).setPtr p (heap.ptr bp)
  else heap.setPtr p bp

def free (fuel : Nat) (heap : Umalloc) (ap : Nat) : Option Umalloc :=
  let bp := ap - headerSize
  match heap.freeLoop bp fuel heap.freep with
  | none => none
  | some p => some (((heap.joinUpper bp p).joinLower bp p).setFreep p)

/-- The program has one more region. -/
def grow (heap : Umalloc) (addr nu : Nat) : Umalloc :=
  {heap with brk := addr + headerSize * nu, granted := heap.granted + nu}

/-- A call of `sbrk` takes the next answer and fails when there is none. A region starts above all others and ends in
the address space, and all regions together have fewer units than the limit. -/
def sbrk (limit : Nat) (heap : Umalloc) (nu : Nat) : List Nat → Except UmallocHalt (Option Nat × Umalloc × List Nat)
  | [] => .ok (none, heap, [])
  | addr :: answers =>
    if heap.brk ≤ addr ∧ addr + headerSize * nu ≤ 2 ^ 64 ∧ heap.granted + nu < limit then
      .ok (some addr, heap.grow addr nu, answers)
    else .error .blocked

/-- A region has at least 4096 units. -/
def regionUnits (nu : BitVec 32) : BitVec 32 := if nu < 4096 then 4096 else nu

/-- The result is empty if `sbrk` failed. -/
def morecore (limit fuel : Nat) (heap : Umalloc) (nu : BitVec 32) (answers : List Nat) :
    Except UmallocHalt (Option (Umalloc × List Nat)) :=
  match heap.sbrk limit (regionUnits nu).toNat answers with
  | .error halt => .error halt
  | .ok (none, _, _) => .ok none
  | .ok (some hp, grown, rest) =>
    match (grown.setSize hp (regionUnits nu)).free fuel (hp + headerSize) with
    | none => .error .spins
    | some freed => .ok (some (freed, rest))

/-- A fitting block is unlinked, or its tail is cut off. -/
def take (heap : Umalloc) (prevp p : Nat) (nunits : BitVec 32) : Nat × Umalloc :=
  if heap.size p = nunits then (p + headerSize, (heap.setPtr prevp (heap.ptr p)).setFreep prevp)
  else
    let rest := heap.size p - nunits
    (plus p rest + headerSize, ((heap.setSize p rest).setSize (plus p rest) nunits).setFreep prevp)

/-- The loop of `malloc` looks for a block that fits. -/
def mallocLoop (limit : Nat) (nunits : BitVec 32) :
    Nat → List Nat → Umalloc → Nat → Nat → Except UmallocHalt (Nat × Umalloc)
  | 0, _, _, _, _ => .error .spins
  | fuel + 1, answers, heap, prevp, p =>
    if heap.size p ≥ nunits then .ok (heap.take prevp p nunits)
    else if p = heap.freep then
      match heap.morecore limit fuel nunits answers with
      | .error halt => .error halt
      | .ok none => .ok (0, heap)
      | .ok (some (heap, answers)) => mallocLoop limit nunits fuel answers heap heap.freep (heap.ptr heap.freep)
    else mallocLoop limit nunits fuel answers heap p (heap.ptr p)

/-- The number of headers that hold the bytes and one header. -/
def units (nbytes : BitVec 32) : BitVec 32 :=
  BitVec.ofNat 32 ((nbytes.toNat + headerSize - 1) / headerSize + 1)

/-- The first call links the base header to itself. -/
def prepare (base : Nat) (heap : Umalloc) : Umalloc :=
  if heap.freep = 0 then ((heap.setPtr base base).setSize base 0).setFreep base else heap

def malloc (limit base fuel : Nat) (heap : Umalloc) (nbytes : BitVec 32) (answers : List Nat) :
    Except UmallocHalt (Nat × Umalloc) :=
  let heap := heap.prepare base
  heap.mallocLoop limit (units nbytes) fuel answers heap.freep (heap.ptr heap.freep)

end Umalloc

/-- The system has the heap, the blocks that the program holds and the result of the last call of `malloc`. -/
structure UmallocSystem where
  heap : Umalloc
  live : List Extent
  ret : Nat

/-- A program calls `malloc` with the coming answers of `sbrk`, calls `free`, or stores into one of its blocks. -/
inductive UmallocEvent where
  | malloc (nbytes : BitVec 32) (answers : List Nat)
  | free (ap : Nat)
  | store (addr : Nat) (header : Header)

namespace UmallocSystem

/-- The result of `malloc` is zero, or the block is live. -/
def allocated (system : UmallocSystem) (ap : Nat) (heap : Umalloc) : UmallocSystem :=
  if ap = 0 then ⟨heap, system.live, 0⟩
  else ⟨heap, ⟨ap - headerSize, (heap.size (ap - headerSize)).toNat⟩ :: system.live, ap⟩

/-- The address is inside of a live block and not in its header. -/
def Owned (system : UmallocSystem) (addr : Nat) : Prop :=
  ∃ block ∈ system.live, block.start + headerSize ≤ addr ∧ addr + headerSize ≤ block.stop headerSize

instance (system : UmallocSystem) (addr : Nat) : Decidable (system.Owned addr) :=
  inferInstanceAs (Decidable (∃ block ∈ system.live, _))

def step (limit base fuel : Nat) (system : UmallocSystem) : UmallocEvent → Except UmallocHalt UmallocSystem
  | .malloc nbytes answers =>
    match system.heap.malloc limit base fuel nbytes answers with
    | .error halt => .error halt
    | .ok (ap, heap) => .ok (system.allocated ap heap)
  | .free ap =>
    match system.live.find? fun block => block.start + headerSize = ap with
    | none => .error .blocked
    | some block =>
      match system.heap.free fuel ap with
      | none => .error .spins
      | some heap => .ok {system with heap, live := system.live.erase block}
  | .store addr header =>
    if system.Owned addr then
      .ok {system with heap := {system.heap with header := Function.update system.heap.header addr header}}
    else .error .blocked

/-- The program starts with zeroed static variables. -/
def initial (base : Nat) : UmallocSystem where
  heap := ⟨fun _ => ⟨0, 0⟩, 0, base + headerSize, 0⟩
  live := []
  ret := 0

/-- A program runs its calls from the initial state. -/
def interleave (limit base fuel : Nat) (events : List UmallocEvent) : Except UmallocHalt UmallocSystem :=
  Library.runEvents (step limit base fuel) events (initial base)

end UmallocSystem
end Xv6
