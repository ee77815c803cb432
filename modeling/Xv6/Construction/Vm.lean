import Xv6.Construction.Memory

namespace Xv6
open Library

/-- A table index is nine bits of the address above the shift. -/
def px (shift : Nat) (va : BitVec 64) : Nat := ((va >>> shift) &&& 0x1FF).toNat

def PMX (va : BitVec 64) : Nat := px 39 va
def PDPX (va : BitVec 64) : Nat := px 30 va
def PDX (va : BitVec 64) : Nat := px 21 va
def PTX (va : BitVec 64) : Nat := px 12 va

def PGROUNDUP (sz : BitVec 64) : BitVec 64 := (sz + 0xFFF) &&& ~~~0xFFF
def PGROUNDDOWN (a : BitVec 64) : BitVec 64 := a &&& ~~~0xFFF

/-- The number of iterations of a loop that visits the pages from `a` while `a < last`. -/
def pagesUpTo (a last : BitVec 64) : Nat := (last.toNat - a.toNat + (PGSIZE - 1)) / PGSIZE

namespace Kernel

/-- One level of `walkpgdir` follows a present entry or allocates a cleared table. -/
def walkLevel (kernel : Kernel) (table index : Nat) (alloc : Bool) : Except VmHalt (Option Nat × Kernel) := do
  let entry ← kernel.loadEntry table index
  if entry &&& PTE_P ≠ 0 then
    .ok (some (pteFrame entry), kernel)
  else if alloc = false then
    .ok (none, kernel)
  else
    match kernel.kalloc with
    | none => .ok (none, kernel)
    | some (page, taken) => do
        let linked ← (taken.clearPage page).storeEntry table index (pteOf page (PTE_P ||| PTE_W ||| PTE_U))
        .ok (some page, linked)

/-- The result is the table and the index of the entry for the address. -/
def walkpgdir (kernel : Kernel) (pml4 : Nat) (va : BitVec 64) (alloc : Bool) :
    Except VmHalt (Option (Nat × Nat) × Kernel) := do
  match ← kernel.walkLevel pml4 (PMX va) alloc with
  | (none, kernel) => .ok (none, kernel)
  | (some pdp, kernel) =>
    match ← kernel.walkLevel pdp (PDPX va) alloc with
    | (none, kernel) => .ok (none, kernel)
    | (some pd, kernel) =>
      match ← kernel.walkLevel pd (PDX va) alloc with
      | (none, kernel) => .ok (none, kernel)
      | (some pgtab, kernel) => .ok (some (pgtab, PTX va), kernel)

/-- A failed `kalloc` makes the `memset` of `setupkvm` store through a null pointer. -/
def setupkvm (kernel : Kernel) : Except VmHalt (Nat × Kernel) :=
  match kernel.kalloc with
  | none => .error .fault
  | some (pml4, taken) => do
      let linked ← (taken.clearPage pml4).storeEntry pml4 256 (pteOf kernel.kpdpt (PTE_P ||| PTE_W))
      .ok (pml4, linked)

/-- The loop of `mappages` ends when it has reached the last page. -/
def mapLoop (pgdir : Nat) (perm : BitVec 64) :
    Nat → BitVec 64 → BitVec 64 → Kernel → Except VmHalt (Int × Kernel)
  | 0, _, _, kernel => .ok (0, kernel)
  | pages + 1, a, pa, kernel => do
      match ← kernel.walkpgdir pgdir a true with
      | (none, kernel) => .ok (-1, kernel)
      | (some (table, index), kernel) =>
        let pte ← kernel.loadEntry table index
        if pte &&& PTE_P ≠ 0 then
          .error (.panic .remap)
        else
          let mapped ← kernel.storeEntry table index (pa ||| perm ||| PTE_P)
          mapLoop pgdir perm pages (a + BitVec.ofNat 64 PGSIZE) (pa + BitVec.ofNat 64 PGSIZE) mapped

def mappages (kernel : Kernel) (pgdir : Nat) (va size pa perm : BitVec 64) : Except VmHalt (Int × Kernel) :=
  let a := PGROUNDDOWN va
  let last := PGROUNDDOWN (va + size - 1)
  mapLoop pgdir perm ((last - a).toNat / PGSIZE + 1) a pa kernel

/-- The loop of `deallocuvm` frees each present page and clears its entry. -/
def deallocLoop (pgdir : Nat) : Nat → BitVec 64 → Kernel → Except VmHalt Kernel
  | 0, _, kernel => .ok kernel
  | pages + 1, a, kernel => do
      match ← kernel.walkpgdir pgdir a false with
      | (none, kernel) => deallocLoop pgdir pages (a + BitVec.ofNat 64 PGSIZE) kernel
      | (some (table, index), kernel) =>
        let pte ← kernel.loadEntry table index
        if pte &&& PTE_P ≠ 0 then
          if pteFrame pte = 0 then
            .error (.panic .kfree)
          else
            let freed ← kernel.kfree (pteFrame pte)
            let cleared ← freed.storeEntry table index 0
            deallocLoop pgdir pages (a + BitVec.ofNat 64 PGSIZE) cleared
        else
          deallocLoop pgdir pages (a + BitVec.ofNat 64 PGSIZE) kernel

def deallocuvm (kernel : Kernel) (pgdir : Nat) (oldsz newsz : BitVec 64) :
    Except VmHalt (BitVec 64 × Kernel) :=
  if newsz ≥ oldsz then
    .ok (oldsz, kernel)
  else do
    let a := PGROUNDUP newsz
    let freed ← deallocLoop pgdir (pagesUpTo a oldsz) a kernel
    .ok (newsz, freed)

/-- The loop of `allocuvm` maps cleared pages until `a` reaches the new size. -/
def allocLoop (pgdir : Nat) (oldsz newsz : BitVec 64) :
    Nat → BitVec 64 → Kernel → Except VmHalt (BitVec 64 × Kernel)
  | 0, _, kernel => .ok (newsz, kernel)
  | pages + 1, a, kernel =>
    match kernel.kalloc with
    | none => do
        let (_, shrunk) ← kernel.deallocuvm pgdir newsz oldsz
        .ok (0, shrunk)
    | some (mem, taken) => do
        let (ret, mapped) ← (taken.clearPage mem).mappages pgdir a (BitVec.ofNat 64 PGSIZE)
          (BitVec.ofNat 64 (mem * PGSIZE)) (PTE_W ||| PTE_U)
        if ret < 0 then
          let (_, shrunk) ← mapped.deallocuvm pgdir newsz oldsz
          let freed ← shrunk.kfree mem
          .ok (0, freed)
        else
          allocLoop pgdir oldsz newsz pages (a + BitVec.ofNat 64 PGSIZE) {mapped with grown := mem :: mapped.grown}

def allocuvm (kernel : Kernel) (pgdir : Nat) (oldsz newsz : BitVec 64) : Except VmHalt (BitVec 64 × Kernel) :=
  if newsz ≥ KERNBASE then
    .ok (0, kernel)
  else if newsz < oldsz then
    .ok (oldsz, kernel)
  else
    let a := PGROUNDUP oldsz
    allocLoop pgdir oldsz newsz (pagesUpTo a newsz) a kernel

/-- The nested loops of `freevm` free the pages below a table before the table itself. -/
def freeTable : Nat → Nat → Kernel → Except VmHalt Kernel
  | 0, frame, kernel => kernel.kfree frame
  | level + 1, frame, kernel => do
      let emptied ← (List.range 512).foldlM (fun kernel index => do
        let entry ← kernel.loadEntry frame index
        if entry &&& PTE_P ≠ 0 then freeTable level (pteFrame entry) kernel else .ok kernel) kernel
      emptied.kfree frame

/-- The lower half of the top table belongs to the user. -/
def freevm (kernel : Kernel) (pml4 : Nat) : Except VmHalt Kernel := do
  let emptied ← (List.range 256).foldlM (fun kernel index => do
    let entry ← kernel.loadEntry pml4 index
    if entry &&& PTE_P ≠ 0 then freeTable 3 (pteFrame entry) kernel else .ok kernel) kernel
  emptied.kfree pml4

/-- The loop of `copyuvm` copies the present pages of a process into a new page table. When a page cannot be
allocated or mapped, the label `bad` frees the new table. -/
def copyuvmLoop (pgdir d : Nat) : Nat → BitVec 64 → Kernel → Except VmHalt (Option Nat × Kernel)
  | 0, _, kernel => .ok (some d, kernel)
  | pages + 1, i, kernel => do
      match ← kernel.walkpgdir pgdir i false with
      | (none, _) => .error (.panic .copyuvmEntry)
      | (some (table, index), kernel) =>
        let pte ← kernel.loadEntry table index
        if pte &&& PTE_P = 0 then
          .error (.panic .copyuvmPage)
        else
          match kernel.kalloc with
          | none => do
              let freed ← kernel.freevm d
              .ok (none, freed)
          | some (mem, taken) => do
              let page ← taken.readPage (pteFrame pte)
              let (ret, mapped) ← (taken.setPage mem page).mappages d i (BitVec.ofNat 64 PGSIZE)
                (BitVec.ofNat 64 (mem * PGSIZE)) (pteFlags pte)
              if ret < 0 then
                let freed ← mapped.freevm d
                .ok (none, freed)
              else
                copyuvmLoop pgdir d pages (i + BitVec.ofNat 64 PGSIZE) mapped

/-- The size has 32 bits, and page 0 is not copied. -/
def copyuvm (kernel : Kernel) (pgdir : Nat) (sz : BitVec 32) : Except VmHalt (Option Nat × Kernel) := do
  let (d, kernel) ← kernel.setupkvm
  copyuvmLoop pgdir d (pagesUpTo (BitVec.ofNat 64 PGSIZE) (sz.setWidth 64)) (BitVec.ofNat 64 PGSIZE) kernel

def clearpteu (kernel : Kernel) (pgdir : Nat) (uva : BitVec 64) : Except VmHalt Kernel := do
  match ← kernel.walkpgdir pgdir uva false with
  | (none, _) => .error (.panic .clearpteu)
  | (some (table, index), kernel) =>
    let pte ← kernel.loadEntry table index
    kernel.storeEntry table index (pte &&& ~~~PTE_U)

/-- The entry is read even when `walkpgdir` returned a null pointer. -/
def uva2ka (kernel : Kernel) (pgdir : Nat) (uva : BitVec 64) : Except VmHalt (Option Nat) := do
  match ← kernel.walkpgdir pgdir uva false with
  | (none, _) => .error .fault
  | (some (table, index), kernel) =>
    let pte ← kernel.loadEntry table index
    if pte &&& PTE_P = 0 then .ok none
    else if pte &&& PTE_U = 0 then .ok none
    else .ok (some (pteFrame pte))

/-- The present entry that the hardware finds for an address. -/
def userEntry (kernel : Kernel) (pgdir : Nat) (va : BitVec 64) : Option (BitVec 64) :=
  match kernel.walkpgdir pgdir va false with
  | .ok (some (table, index), _) =>
    let pte := slot 64 (kernel.memory table) index
    if pte &&& PTE_P ≠ 0 then some pte else none
  | _ => none

/-- The byte that the kernel reads at a user address. -/
def userByte (kernel : Kernel) (pgdir : Nat) (va : BitVec 64) : Option (BitVec 8) :=
  (kernel.userEntry pgdir va).map fun pte => slot 8 (kernel.memory (pteFrame pte)) (va.toNat % PGSIZE)

/-- Each iteration of `copyout` fills the rest of one page. -/
def copyLoop (pgdir : Nat) : Nat → BitVec 64 → List (BitVec 8) → Kernel → Except VmHalt (Int × Kernel)
  | 0, _, _, kernel => .ok (0, kernel)
  | fuel + 1, va, buf, kernel =>
    if buf = [] then
      .ok (0, kernel)
    else do
      let va0 := PGROUNDDOWN va
      match ← kernel.uva2ka pgdir va0 with
      | none => .ok (-1, kernel)
      | some frame =>
        let start := (va - va0).toNat
        let n := min (PGSIZE - start) buf.length
        let copied ← kernel.storePage frame (storeBytes (kernel.memory frame) start (buf.take n))
        copyLoop pgdir fuel (va0 + BitVec.ofNat 64 PGSIZE) (buf.drop n) copied

/-- Every iteration copies at least one byte. -/
def copyout (kernel : Kernel) (pgdir : Nat) (va : BitVec 64) (buf : List (BitVec 8)) :
    Except VmHalt (Int × Kernel) :=
  copyLoop pgdir buf.length va buf kernel

end Kernel
end Xv6
