import Xv6.Construction.Trap
import Xv6.Proof.Vm.Table

namespace Xv6
open Library List Function Nat

section Addresses

theorem kernelAddr_add (frame index count : Nat) :
    kernelAddr frame index + BitVec.ofNat 64 (8 * count) = kernelAddr frame (index + count) := by
  have sum : frame * PGSIZE + 8 * (index + count) = frame * PGSIZE + 8 * index + 8 * count := by omega
  rw [kernelAddr, kernelAddr, sum, BitVec.ofNat_add (frame * PGSIZE + 8 * index), BitVec.add_assoc]

theorem kernelAddr_sub (frame index count : Nat) :
    kernelAddr frame (index + count) - BitVec.ofNat 64 (8 * count) = kernelAddr frame index := by
  rw [← kernelAddr_add, BitVec.add_sub_cancel]

/-- The address is the address of a word outside of the process table. -/
structure Located (ptable : BitVec 64) (frame index : Nat) (addr : BitVec 64) : Prop where
  outside : NPROC * procSize ≤ (addr - ptable).toNat
  aligned : (addr - KERNBASE).toNat % 8 = 0
  quotient : (addr - KERNBASE).toNat / PGSIZE = frame
  remainder : (addr - KERNBASE).toNat % PGSIZE / 8 = index
  mapped : DirectMapped frame

/-- The process table is part of the kernel image. -/
structure Placed (ptable : BitVec 64) (kend : Nat) : Prop where
  lower : KERNBASE ≤ ptable
  upper : ptable.toNat + NPROC * procSize ≤ KERNBASE.toNat + kend

theorem Placed.located {ptable : BitVec 64} {k : Kernel} {frame index : Nat} (placed : Placed ptable k.kend)
    (allocatable : k.Allocatable frame) (inside : index < 512) :
    Located ptable frame index (kernelAddr frame index) := by
  obtain ⟨above, below⟩ := allocatable
  have lower := BitVec.le_def.mp placed.lower
  have upper := placed.upper
  have base : KERNBASE.toNat = 0xFFFF800000000000 := rfl
  have page : PGSIZE = 4096 := rfl
  have top : PHYSTOP = 0xE000000 := rfl
  have table : NPROC * procSize = 14336 := rfl
  rw [page] at above below
  have value : (kernelAddr frame index).toNat = 0xFFFF800000000000 + (frame * 4096 + 8 * index) := by
    rw [kernelAddr, BitVec.toNat_add, base, BitVec.toNat_ofNat, page]
    omega
  have offset : (kernelAddr frame index - KERNBASE).toNat = frame * 4096 + 8 * index := by
    rw [BitVec.toNat_sub_of_le (by rw [BitVec.le_def]; omega), value, base]
    omega
  have apart : (kernelAddr frame index - ptable).toNat = (kernelAddr frame index).toNat - ptable.toNat :=
    BitVec.toNat_sub_of_le (by rw [BitVec.le_def]; omega)
  refine ⟨?_, ?_, ?_, ?_, Kernel.Allocatable.directMapped ⟨above, below⟩⟩
  · rw [apart]
    omega
  · rw [offset]
    omega
  all_goals
    rw [offset, page]
    omega

end Addresses

namespace Core
variable {core after : Core} {frame index : Nat} {addr : BitVec 64}

def onPage (core : Core) (frame : Nat) (page : Page) : Core := core.withKernel (core.machine.kernel.setPage frame page)

def page (core : Core) (frame : Nat) : Page := core.machine.kernel.memory frame

theorem loadWord_located (located : Located core.ptable frame index addr) :
    core.loadWord addr = .ok (slot 64 (core.page frame) index) := by
  have outside : ¬core.procOffset addr < NPROC * procSize := not_lt.mpr located.outside
  rw [loadWord, dif_neg outside, if_pos located.aligned, located.quotient, located.remainder, loadEntry_ok located.mapped]
  rfl

theorem storeWord_located (located : Located core.ptable frame index addr) (value : BitVec 64) :
    core.storeWord addr value = .ok (core.onPage frame (setSlot (core.page frame) index value)) := by
  have outside : ¬core.procOffset addr < NPROC * procSize := not_lt.mpr located.outside
  rw [storeWord, if_neg outside, if_pos located.aligned, located.quotient, located.remainder, storeEntry_ok located.mapped]
  rfl

@[simp] theorem onPage_page (core : Core) (frame : Nat) (page : Page) : (core.onPage frame page).page frame = page :=
  update_self _ _ _

theorem onPage_page_ne {other : Nat} (ne : other ≠ frame) (page : Page) :
    (core.onPage frame page).page other = core.page other := update_of_ne ne _ _

@[simp] theorem onPage_onPage (first second : Page) :
    (core.onPage frame first).onPage frame second = core.onPage frame second := by
  simp [onPage, withKernel, Machine.withKernel, Kernel.setPage]

@[simp] theorem setReg_setReg (r : Reg) (first second : BitVec 64) :
    (core.setReg r first).setReg r second = core.setReg r second := by
  simp [setReg]

@[simp] theorem setReg_onPage (r : Reg) (value : BitVec 64) (page : Page) :
    (core.setReg r value).onPage frame page = (core.onPage frame page).setReg r value := rfl

@[simp] theorem setReg_page (r : Reg) (value : BitVec 64) (frame : Nat) :
    (core.setReg r value).page frame = core.page frame := by
  rw [page, page, setReg]

@[simp] theorem setReg_self (r : Reg) (value : BitVec 64) : (core.setReg r value).reg r = value :=
  update_self _ _ _

theorem setReg_ne {r other : Reg} (ne : other ≠ r) (value : BitVec 64) :
    (core.setReg r value).reg other = core.reg other := update_of_ne ne _ _

theorem exec_nil (core : Core) : core.exec [] = .ok core := rfl

theorem exec_cons {insn : Insn} {insns : List Insn} (ran : core.step insn = .ok after) :
    core.exec (insn :: insns) = after.exec insns := by
  rw [exec, foldlM_cons, ran]
  rfl

theorem exec_append {first second : List Insn} (ran : core.exec first = .ok after) :
    core.exec (first ++ second) = after.exec second := by
  rw [exec] at ran
  rw [exec, foldlM_append, ran]
  rfl

/-- The words of a stack page are at their addresses. -/
def Stacked (core : Core) (frame : Nat) : Prop := ∀ index < 512, Located core.ptable frame index (kernelAddr frame index)

theorem step_push (stacked : core.Stacked frame) (rsp : core.reg .rsp = kernelAddr frame (index + 1))
    (inside : index < 512) (src : Source) :
    core.step (.push src) =
      .ok ((core.onPage frame (setSlot (core.page frame) index (core.value src))).setReg .rsp (kernelAddr frame index)) := by
  have below : core.reg .rsp - 8 = kernelAddr frame index := by
    rw [rsp]
    exact kernelAddr_sub frame index 1
  rw [step, below, storeWord_located (stacked index inside)]
  rfl

theorem step_pop (stacked : core.Stacked frame) (rsp : core.reg .rsp = kernelAddr frame index)
    (inside : index < 512) (dst : Reg) :
    core.step (.pop dst) =
      .ok ((core.setReg .rsp (kernelAddr frame (index + 1))).setReg dst (slot 64 (core.page frame) index)) := by
  have above : core.reg .rsp + 8 = kernelAddr frame (index + 1) := by
    rw [rsp]
    exact kernelAddr_add frame index 1
  rw [step, above, rsp, loadWord_located (stacked index inside)]
  rfl

/-- A sequence of pushes writes the operands in reverse order below the old top of the stack. -/
theorem exec_push (core : Core) (sources : List Source) (low : Nat) (stacked : core.Stacked frame) (kept : .reg .rsp ∉ sources)
    (rsp : core.reg .rsp = kernelAddr frame (low + sources.length)) (fits : low + sources.length ≤ 512) :
    ∃ page, core.exec (sources.map .push) = .ok ((core.onPage frame page).setReg .rsp (kernelAddr frame low)) ∧
      ∀ index, slot 64 page index = if index < low then slot 64 (core.page frame) index
        else ((sources.map core.value).reverse[index - low]?).getD (slot 64 (core.page frame) index) := by
  induction sources generalizing core with
  | nil =>
    refine ⟨core.page frame, ?_, by simp⟩
    have same : (core.onPage frame (core.page frame)).setReg .rsp (kernelAddr frame low) = core := by
      have top : core.reg .rsp = kernelAddr frame low := rsp
      rw [← top, onPage, page, Kernel.setPage, update_eq_self]
      simp [setReg, withKernel, Machine.withKernel]
    rw [same]
    rfl
  | cons src sources ih =>
    rw [length_cons, ← add_assoc] at rsp fits
    have first := step_push stacked rsp (by omega) src
    obtain ⟨page, ran, words⟩ := ih ((core.onPage frame (setSlot (core.page frame) (low + sources.length)
      (core.value src))).setReg .rsp (kernelAddr frame (low + sources.length))) stacked
        (fun member => kept (mem_cons_of_mem _ member)) (setReg_self _ _) (by omega)
    refine ⟨page, ?_, ?_⟩
    · rw [map_cons, exec_cons first, ran]
      simp
    · intro index
      have values : ∀ other ∈ sources, ((core.onPage frame (setSlot (core.page frame) (low + sources.length)
          (core.value src))).setReg .rsp (kernelAddr frame (low + sources.length))).value other = core.value other := by
        intro other member
        cases other with
        | imm value => rfl
        | reg r =>
          refine setReg_ne ?_ _
          rintro rfl
          exact kept (mem_cons_of_mem _ member)
      have other : ∀ index ≠ low + sources.length, slot 64 (setSlot (core.page frame) (low + sources.length)
          (core.value src)) index = slot 64 (core.page frame) index := fun index => slot_setSlot_ne _ _ _ _
      have count : (sources.map core.value).reverse.length = sources.length := by simp
      rw [words, map_congr_left values, map_cons, reverse_cons]
      change (if index < low then slot 64 ((core.onPage frame _).page frame) index
        else Option.getD _ (slot 64 ((core.onPage frame _).page frame) index)) = _
      rw [onPage_page]
      split
      · exact other index (by omega)
      · rcases lt_trichotomy index (low + sources.length) with before | rfl | beyond
        · rw [getElem?_append_left (by omega), other index (by omega)]
        · rw [getElem?_append_right (by omega), getElem?_eq_none (by omega),
            slot_setSlot_same _ _ _ (by simp only [PGSIZE]; omega), count, Nat.add_sub_cancel_left, Nat.sub_self]
          rfl
        · rw [getElem?_append_right (by omega), getElem?_eq_none (by omega),
            getElem?_eq_none (by simp; omega), other index (by omega)]

/-- The state after a sequence of pops has the words of the stack in the registers. -/
def popped (core : Core) (frame low : Nat) (regs : List Reg) : Core :=
  {core with reg := fun r =>
    if r = .rsp then kernelAddr frame (low + regs.length)
    else if r ∈ regs then slot 64 (core.page frame) (low + regs.idxOf r) else core.reg r}

theorem popped_rsp (core : Core) (frame low : Nat) (regs : List Reg) :
    (core.popped frame low regs).reg .rsp = kernelAddr frame (low + regs.length) := by
  unfold popped
  dsimp only
  rw [if_pos rfl]

theorem popped_reg {low : Nat} {regs : List Reg} {r : Reg} (top : r ≠ .rsp) (member : r ∈ regs) :
    (core.popped frame low regs).reg r = slot 64 (core.page frame) (low + regs.idxOf r) := by
  unfold popped
  dsimp only
  rw [if_neg top, if_pos member]

theorem exec_pop (core : Core) {regs : List Reg} {low : Nat} (stacked : core.Stacked frame) (kept : .rsp ∉ regs)
    (distinct : regs.Nodup) (rsp : core.reg .rsp = kernelAddr frame low) (fits : low + regs.length ≤ 512) :
    core.exec (regs.map .pop) = .ok (core.popped frame low regs) := by
  induction regs generalizing core low with
  | nil =>
    have same : core.popped frame low [] = core := by
      rw [popped]
      congr
      funext r
      by_cases top : r = .rsp
      · rw [if_pos top, top, rsp]
        rfl
      · rw [if_neg top, if_neg not_mem_nil]
    rw [same]
    rfl
  | cons dst regs ih =>
    rw [length_cons] at fits
    rw [nodup_cons] at distinct
    have apart : dst ≠ .rsp := fun same => kept (same ▸ (.head _))
    have rest : Reg.rsp ∉ regs := fun member => kept (mem_cons_of_mem _ member)
    have again := ih ((core.setReg .rsp (kernelAddr frame (low + 1))).setReg dst (slot 64 (core.page frame) low))
      stacked rest distinct.2 (by rw [setReg_ne apart.symm, setReg_self]) (by omega)
    rw [map_cons, exec_cons (step_pop stacked rsp (by omega) dst), again, popped, popped]
    congr 2
    funext r
    by_cases top : r = .rsp
    · rw [if_pos top, if_pos top, length_cons, add_right_comm, add_assoc]
    · rw [if_neg top, if_neg top]
      by_cases first : r = dst
      · subst first
        rw [if_neg distinct.1, if_pos mem_cons_self, setReg_self, idxOf_cons_self]
        rfl
      · by_cases later : r ∈ regs
        · rw [if_pos later, if_pos (mem_cons_of_mem _ later), idxOf_cons_ne _ (Ne.symm first),
            succ_eq_add_one, add_right_comm, add_assoc]
          rfl
        · rw [if_neg later, if_neg (by rw [mem_cons, not_or]; exact ⟨first, later⟩), setReg_ne first,
            setReg_ne top]

end Core
end Xv6
