import Xv6.Construction.Exec
import Xv6.Proof.Vm.Copy

namespace Xv6
open Library

/-- The page table of a process maps the pages from page 1 up to its size. -/
structure UserSpace (kernel : Kernel) (proc : ExecProc) (tree : List Nat → Option Nat) : Prop where
  heap : Heap kernel
  space : Table 4 kernel proc.pgdir tree
  positive : 0 < proc.sz.toNat
  mapped : ∀ page < 2 ^ 35, tree (pagePath page) ≠ none ↔ 1 ≤ page ∧ page < topPage proc.sz

section Pages
variable {k : Kernel} {root : Nat} {tree : List Nat → Option Nat} {proc : ExecProc}

theorem page_lt_topPage {va sz : BitVec 64} (below : va < sz) : va.toNat / PGSIZE < topPage sz := by
  have less := BitVec.lt_def.mp below
  simp only [topPage, PGSIZE]
  omega

theorem UserSpace.top_le (user : UserSpace k proc tree) : topPage proc.sz ≤ 0xE001 := by
  by_contra large
  have bound : 0xE002 ≤ 0xE001 := user.space.leaves_le fun page low high =>
    (user.mapped page (by omega)).mpr ⟨low, by omega⟩
  omega

theorem UserSpace.size_le (user : UserSpace k proc tree) : proc.sz.toNat ≤ 0xE001 * PGSIZE := by
  have bound := user.top_le
  simp only [topPage, PGSIZE] at bound ⊢
  omega

/-- A page is present exactly when it has a view. -/
theorem Table.present_iff (space : Table 4 k root tree) {sz va : BitVec 64} (user : va.toNat < 2 ^ 47)
    (mapped : ∀ page < 2 ^ 35, pageView k tree page ≠ none ↔ 1 ≤ page ∧ page < topPage sz) :
    (k.userEntry root va).isSome ↔ PGSIZE ≤ va.toNat ∧ va.toNat < topPage sz * PGSIZE := by
  have bound : va.toNat / PGSIZE < 2 ^ 35 := by
    simp only [PGSIZE]
    omega
  rw [(space.userEntry_eq rfl bound).1, Option.isSome_map, Option.isSome_iff_ne_none, mapped _ bound]
  simp only [PGSIZE]
  omega

theorem UserSpace.viewed (user : UserSpace k proc tree) {page : Nat} (below : page < 2 ^ 35) :
    pageView k tree page ≠ none ↔ 1 ≤ page ∧ page < topPage proc.sz :=
  user.space.pageView_ne_none.trans (user.mapped page below)

end Pages

/-- An image is the address space of a process. -/
theorem Image.userSpace {k : Kernel} {proc : ExecProc} {tree : List Nat → Option Nat} {closed : List Nat}
    (image : Image k proc.pgdir tree (topPage proc.sz) closed) (positive : 0 < proc.sz.toNat) : UserSpace k proc tree :=
  ⟨image.heap, image.space, positive, fun _ user => image.span.leaf_iff user⟩

/-- A process of the given size in the page table at frame 0x1000. -/
def sizedProc (sz : BitVec 64) : ExecProc := ⟨0x1000, sz, ⟨0, 0, 0, 0, 0, 0, 0, 0, 0⟩, []⟩

/-- The kernel after the pages at the addresses 0x1000 and 0x2000 have been mapped. -/
def pageKernel : Except VmHalt (BitVec 64 × Kernel) := do
  let (pgdir, kernel) ← (blankKernel 20).setupkvm
  kernel.allocuvm pgdir (BitVec.ofNat 64 PGSIZE) 0x3000

theorem pageKernel_space : ∃ k tree, pageKernel = .ok (0x3000, k) ∧ UserSpace k (sizedProc 0x3000) tree := by
  have heap : Heap (blankKernel 20) := ⟨by decide, by decide, by decide⟩
  obtain ⟨made, ran, image, _, free, _⟩ := setupkvm_image heap (show _ = 0x1000 :: List.range' 0x1001 19 from rfl)
  have start : Image made 0x1000 (rootTree 0x1000) (topPage (BitVec.ofNat 64 PGSIZE)) [] := image
  rcases start.allocuvm_outcome (show ¬(0x3000 : BitVec 64) ≥ KERNBASE by decide) (by decide) (by decide) with
    ⟨_, k, tree, grown, bigger, _⟩ | ⟨few, _⟩
  · refine ⟨k, tree, ?_, Image.userSpace bigger (by decide)⟩
    rw [pageKernel, ran, ok_bind]
    exact grown
  · rw [free] at few
    exact absurd few (by decide)

end Xv6
