import Xv6.Proof.Vm.Process

namespace Xv6
open Library

/-- The copy of a present entry has the flags of the entry. -/
theorem pteFlags_pteOf {pte : BitVec 64} (mem : Nat) (present : pte &&& PTE_P ≠ 0) :
    pteFlags (pteOf mem (pteFlags pte ||| PTE_P)) = pteFlags pte := by
  have one : ∀ bit, PTE_P.getLsbD bit = decide (bit = 0) := fun bit => by
    rw [show PTE_P = 1#64 from rfl, BitVec.getLsbD_one]
    simp
  have low : pte.getLsbD 0 = true := by
    by_contra absent
    apply present
    apply BitVec.eq_of_getLsbD_eq
    intro bit _
    rw [BitVec.getLsbD_and, one]
    by_cases zero : bit = 0
    · rw [zero, Bool.eq_false_of_not_eq_true absent]
      rfl
    · simp [zero]
  have kept : pteFlags pte ||| PTE_P = pteFlags pte := by
    apply BitVec.eq_of_getLsbD_eq
    intro bit _
    rw [BitVec.getLsbD_or, one, pteFlags, BitVec.getLsbD_and]
    by_cases zero : bit = 0
    · rw [zero, low]
      rfl
    · simp [zero]
  rw [kept, pteFlags, pteOf_and (by decide), pteFlags, BitVec.and_assoc, BitVec.and_self]

section Duplicate
variable {base after : Kernel} {pgdir d : Nat} {theirs : List Nat → Option Nat} {sz : BitVec 64}

/-- The size of a process with present pages has 32 bits. -/
theorem Table.size_setWidth (table : Table 4 base pgdir theirs)
    (present : ∀ page, 1 ≤ page → page < topPage sz → theirs (pagePath page) ≠ none) :
    topPage sz ≤ 0xE001 ∧ 1 + copiedPages (sz.setWidth 32) = max 1 (topPage sz) := by
  have bound := table.leaves_le present
  have same : ((sz.setWidth 32).setWidth 64).toNat = sz.toNat := by
    simp only [topPage, PGSIZE] at bound
    rw [BitVec.toNat_setWidth, BitVec.toNat_setWidth]
    omega
  refine ⟨bound, ?_⟩
  rw [copiedPages, topPage, same, ← topPage]
  omega

/-- A successful `copyuvm` maps exactly the pages of the parent below its size, each with its contents and its flags and
in a page of its own, and it changes no page of the parent. -/
theorem copyuvm_duplicates (heap : Heap base) (table : Table 4 base pgdir theirs)
    (present : ∀ page, 1 ≤ page → page < topPage sz → theirs (pagePath page) ≠ none)
    (ran : base.copyuvm pgdir (sz.setWidth 32) = .ok (some d, after)) :
    (∀ va : BitVec 64, va.toNat < 2 ^ 47 → ((after.userEntry d va).isSome ↔
      PGSIZE ≤ va.toNat ∧ va.toNat < topPage sz * PGSIZE)) ∧
    (∀ va : BitVec 64, PGSIZE ≤ va.toNat → va.toNat < topPage sz * PGSIZE → ∃ pte copy,
      base.userEntry pgdir va = some pte ∧ after.userEntry d va = some copy ∧ pteFlags copy = pteFlags pte ∧
      after.userByte d va = base.userByte pgdir va ∧ (∀ path, theirs path ≠ some (pteFrame copy)) ∧
      ∀ (other : BitVec 64) entry, other.toNat < 2 ^ 47 → after.userEntry d other = some entry →
        pteFrame entry = pteFrame copy → other.toNat / PGSIZE = va.toNat / PGSIZE) ∧
    ∀ path frame, theirs path = some frame → after.memory frame = base.memory frame := by
  obtain ⟨bound, pages⟩ := table.size_setWidth present
  obtain ⟨tree, copying, copied⟩ := copyuvm_copied heap table ran
  rw [pages] at copying copied
  have space := copying.span.space
  obtain ⟨_, old⟩ := copying.parent table
  have leaf : ∀ page < 2 ^ 35, pageView after tree page ≠ none ↔ 1 ≤ page ∧ page < topPage sz := by
    intro page user
    rw [space.pageView_ne_none, copying.span.leaf_iff user]
    omega
  refine ⟨fun va user => space.present_iff user leaf, ?_, fun path frame found => (old found).1⟩
  intro va low high
  have page : 1 ≤ va.toNat / PGSIZE ∧ va.toNat / PGSIZE < topPage sz := by
    simp only [PGSIZE] at low high ⊢
    omega
  obtain ⟨pte, content, mem, source, view⟩ := copied _ page.1 (by omega)
  obtain ⟨entry, byte⟩ := table.userEntry_eq rfl (show va.toNat / PGSIZE < 2 ^ 35 by omega)
  obtain ⟨entry', byte'⟩ := space.userEntry_eq rfl (show va.toNat / PGSIZE < 2 ^ 35 by omega)
  have found := (space.view_entry view).2
  rw [source] at entry byte
  rw [view] at entry' byte'
  refine ⟨pte, _, entry, entry', pteFlags_pteOf mem (table.view_entry source).1, byte'.trans byte.symm, ?_, ?_⟩
  · intro path mine
    exact (old mine).2 (.inr ⟨_, found⟩)
  · intro other copy user again same
    have bounded : other.toNat / PGSIZE < 2 ^ 35 := by
      simp only [PGSIZE]
      omega
    rw [(space.userEntry_eq rfl bounded).1, Option.map_eq_some_iff] at again
    obtain ⟨⟨_, content'⟩, view', rfl⟩ := again
    have found' := (space.view_entry view').2
    rw [same] at found'
    exact pagePath_inj bounded (by omega) (space.radix.injective found' found)

/-- The child of a process has a copy of its first page. -/
theorem copyuvm_duplicates_page : ∃ kernel tree d after, UserSpace kernel (sizedProc 0x3000) tree ∧
    kernel.copyuvm 0x1000 ((0x3000 : BitVec 64).setWidth 32) = .ok (some d, after) ∧
    after.userByte d 0x1000 = kernel.userByte 0x1000 0x1000 := by
  obtain ⟨kernel, tree, ran, user⟩ := pageKernel_space
  have copied : pageKernel.map (fun grown => (grown.2.copyuvm 0x1000 0x3000).toOption.map Prod.fst) =
      .ok (some (some 0x1006)) := by decide +kernel
  rw [ran] at copied
  have made : (kernel.copyuvm 0x1000 ((0x3000 : BitVec 64).setWidth 32)).toOption.map Prod.fst = _ := Except.ok.inj copied
  cases call : kernel.copyuvm 0x1000 ((0x3000 : BitVec 64).setWidth 32) with
  | error halt =>
    rw [call] at made
    cases made
  | ok result =>
    rw [call] at made
    obtain ⟨d, after⟩ := result
    obtain rfl : d = some 0x1006 := Option.some.inj made
    have whole := copyuvm_duplicates user.heap user.space
      (fun page low high => (user.mapped page (high.trans (by decide))).mpr ⟨low, high⟩) call
    obtain ⟨_, _, _, _, _, byte, _⟩ := whole.2.1 0x1000 (by decide) (by decide)
    exact ⟨kernel, tree, 0x1006, after, user, call, byte⟩

end Duplicate
end Xv6
