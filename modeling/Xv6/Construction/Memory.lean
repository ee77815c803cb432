import Xv6.Library.Slots

namespace Xv6
open Library

def PGSIZE : Nat := 4096
def PHYSTOP : Nat := 0xE000000
def KERNBASE : BitVec 64 := 0xFFFF800000000000

def PTE_P : BitVec 64 := 0x001
def PTE_W : BitVec 64 := 0x002
def PTE_U : BitVec 64 := 0x004

/-- A page holds 4096 bytes or 512 page table entries. -/
abbrev Page := BitVec (8 * PGSIZE)

/-- These are the panics of the memory code. -/
inductive VmPanic where
  | kfree
  | remap
  | unaligned
  | missing
  | clearpteu
  | copyuvmEntry
  | copyuvmPage
  deriving DecidableEq

def VmPanic.message : VmPanic → String
  | .kfree => "kfree"
  | .remap => "remap"
  | .unaligned => "loaduvm: addr must be page aligned"
  | .missing => "loaduvm: address should exist"
  | .clearpteu => "clearpteu"
  | .copyuvmEntry => "copyuvm: pte should exist"
  | .copyuvmPage => "copyuvm: page not present"

/-- The kernel halts at a panic or at an access through a null or unmapped pointer. The loop of `loaduvm`
is endless when its 32-bit index wraps. -/
inductive VmHalt where
  | panic (reason : VmPanic)
  | fault
  | endless
  deriving DecidableEq

/-- The memory is indexed by frame number. The allocator keeps the links of its free list inside the free
pages, which hold no other data. The lists `grown` and `loaded` record the pages that `allocuvm` has mapped
and the pages in which `loaduvm` has stored bytes. -/
structure Kernel where
  memory : Nat → Page
  freelist : List Nat
  kend : Nat
  kpdpt : Nat
  grown : List Nat
  loaded : List Nat

/-- The kernel maps the first and the fourth gigabyte of physical memory. -/
def DirectMapped (frame : Nat) : Prop := frame < 0x40000 ∨ 0xC0000 ≤ frame ∧ frame < 0x100000

instance (frame : Nat) : Decidable (DirectMapped frame) := inferInstanceAs (Decidable (_ ∨ _ ∧ _))

/-- The entry points to this frame. -/
def pteFrame (pte : BitVec 64) : Nat := pte.toNat / PGSIZE

/-- The flags of an entry are its low twelve bits. -/
def pteFlags (pte : BitVec 64) : BitVec 64 := pte &&& 0xFFF

/-- The entry `V2P(page) | flags` points to a frame. -/
def pteOf (frame : Nat) (flags : BitVec 64) : BitVec 64 := BitVec.ofNat 64 (frame * PGSIZE) ||| flags

namespace Kernel

def setPage (kernel : Kernel) (frame : Nat) (page : Page) : Kernel :=
  {kernel with memory := Function.update kernel.memory frame page}

/-- The call `memset(page, 0, PGSIZE)` clears a page. -/
def clearPage (kernel : Kernel) (frame : Nat) : Kernel := kernel.setPage frame 0

def loadEntry (kernel : Kernel) (table index : Nat) : Except VmHalt (BitVec 64) :=
  if DirectMapped table then .ok (slot 64 (kernel.memory table) index) else .error .fault

/-- A load of a whole page through `P2V` of its address. -/
def readPage (kernel : Kernel) (frame : Nat) : Except VmHalt Page :=
  if DirectMapped frame then .ok (kernel.memory frame) else .error .fault

/-- A store through `P2V` of a page address. -/
def storePage (kernel : Kernel) (frame : Nat) (page : Page) : Except VmHalt Kernel :=
  if DirectMapped frame then .ok (kernel.setPage frame page) else .error .fault

def storeEntry (kernel : Kernel) (table index : Nat) (pte : BitVec 64) : Except VmHalt Kernel :=
  kernel.storePage table (setSlot (kernel.memory table) index pte)

/-- The bytes of the page from the offset on are replaced. -/
def storeBytes (page : Page) (offset : Nat) : List (BitVec 8) → Page
  | [] => page
  | byte :: rest => storeBytes (setSlot page offset byte) (offset + 1) rest

def kalloc (kernel : Kernel) : Option (Nat × Kernel) :=
  match kernel.freelist with
  | [] => none
  | frame :: rest => some (frame, {kernel with freelist := rest})

/-- A freed page is filled with the byte 1. -/
def junkPage : Page := BitVec.ofNat _ ((2 ^ (8 * PGSIZE) - 1) / 255)

def kfree (kernel : Kernel) (frame : Nat) : Except VmHalt Kernel :=
  if frame * PGSIZE < kernel.kend ∨ frame * PGSIZE ≥ PHYSTOP then
    .error (.panic .kfree)
  else
    let filled := kernel.setPage frame junkPage
    .ok {filled with freelist := frame :: kernel.freelist}

end Kernel
end Xv6
