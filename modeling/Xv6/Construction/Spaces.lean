import Xv6.Construction.Vm
import Xv6.Library.EventRun

namespace Xv6

/-- The page tables that exist share the memory. Each is named by the frame of its top table. -/
structure Spaces where
  kernel : Kernel
  live : List Nat

/-- The calls of the memory code on page tables. -/
inductive SpaceEvent where
  | setupkvm
  | allocuvm (pgdir : Nat) (oldsz newsz : BitVec 64)
  | deallocuvm (pgdir : Nat) (oldsz newsz : BitVec 64)
  | copyuvm (pgdir : Nat) (sz : BitVec 32)
  | clearpteu (pgdir : Nat) (uva : BitVec 64)
  | freevm (pgdir : Nat)

/-- A blocked event names no page table or a kernel address. In an exhausted event `kalloc` has returned 0. -/
inductive SpaceHalt where
  | blocked
  | exhausted
  | vm (halt : VmHalt)

namespace Spaces

/-- User addresses are below this limit. -/
def userTop : Nat := 2 ^ 47

/-- Without memory `allocuvm` returns 0 instead of a new size, and `copyuvm` returns a null pointer. -/
def step (spaces : Spaces) : SpaceEvent → Except SpaceHalt Spaces
  | .setupkvm => do
      let (d, kernel) ← spaces.kernel.setupkvm.mapError .vm
      .ok ⟨kernel, d :: spaces.live⟩
  | .allocuvm pgdir oldsz newsz =>
    if pgdir ∈ spaces.live ∧ newsz.toNat ≤ userTop then do
      let (size, kernel) ← (spaces.kernel.allocuvm pgdir oldsz newsz).mapError .vm
      if size = 0 ∧ newsz ≠ 0 then .error .exhausted else .ok {spaces with kernel}
    else .error .blocked
  | .deallocuvm pgdir oldsz newsz =>
    if pgdir ∈ spaces.live ∧ oldsz.toNat ≤ userTop then do
      let (_, kernel) ← (spaces.kernel.deallocuvm pgdir oldsz newsz).mapError .vm
      .ok {spaces with kernel}
    else .error .blocked
  | .copyuvm pgdir sz =>
    if pgdir ∈ spaces.live then do
      match ← (spaces.kernel.copyuvm pgdir sz).mapError .vm with
      | (none, _) => .error .exhausted
      | (some d, kernel) => .ok ⟨kernel, d :: spaces.live⟩
    else .error .blocked
  | .clearpteu pgdir uva =>
    if pgdir ∈ spaces.live ∧ uva.toNat < userTop then do
      let kernel ← (spaces.kernel.clearpteu pgdir uva).mapError .vm
      .ok {spaces with kernel}
    else .error .blocked
  | .freevm pgdir =>
    if pgdir ∈ spaces.live then do
      let kernel ← (spaces.kernel.freevm pgdir).mapError .vm
      .ok ⟨kernel, spaces.live.erase pgdir⟩
    else .error .blocked

/-- A sequence of calls begins without a page table. -/
def calls (kernel : Kernel) (events : List SpaceEvent) : Except SpaceHalt Spaces :=
  Library.runEvents step events ⟨kernel, []⟩

end Spaces
end Xv6
