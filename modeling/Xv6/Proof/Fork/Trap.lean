import Xv6.Proof.Fork.Stack
import Xv6.Proof.Fork.Success

namespace Xv6
open Library Nat
variable {index : Nat} {page : Page}

attribute [local irreducible] kernelAddr

/-- The registers of a trap frame in the order of their words. -/
def trapRegs : List Reg :=
  [.rax, .rbx, .rcx, .rdx, .rbp, .rsi, .rdi, .r8, .r9, .r10, .r11, .r12, .r13, .r14, .r15]

/-- The registers of `struct context` in the order of their words. -/
def contextRegs : List Reg := [.r15, .r14, .r13, .r12, .rbx, .rbp]

/-- The word of `tf->rsp`. -/
def trapRsp : Nat := 510

/-- The user registers that a trap frame holds. -/
def frameReg (page : Page) (r : Reg) : BitVec 64 :=
  if r = .rsp then slot 64 page trapRsp else slot 64 page (trapframeStart + trapRegs.idxOf r)

/-- The registers with which user mode continues after the instruction `syscall` with a result in `rax`. -/
def Core.resumed (core : Core) (rax : BitVec 64) : Reg → BitVec 64
  | .rax => rax
  | .rcx => core.rip
  | .r11 => core.rflags
  | r => core.reg r

/-- A process with a kernel stack runs in user mode, and the local storage of its processor points to it. -/
structure TrapReady (core : Core) (proc : Fin NPROC) (kstack locals : Nat) (theirs : List Nat → Option Nat) :
    Prop where
  ready : ForkReady core.machine proc theirs
  placed : Placed core.ptable core.machine.kernel.kend
  own : (core.machine.proc proc).kstack = kstack
  stack : core.machine.kernel.Allocatable kstack
  unowned : ¬Owned core.machine.kernel theirs kstack
  local_page : core.machine.kernel.Allocatable locals
  local_unowned : ¬Owned core.machine.kernel theirs locals
  apart : locals ≠ kstack
  fs : core.fs = kernelAddr locals 256
  current : slot 64 (core.page locals) 255 = core.procAddr proc
  alive : (core.machine.table.proc proc).killed = false

namespace Core
variable {core after : Core} {proc np : Fin NPROC} {locals frame index : Nat} {theirs : List Nat → Option Nat}
  {src : Operand}

theorem step_store {dst : Operand} (located : Located core.ptable frame index (core.address dst)) (src : Reg) :
    core.step (.store src dst) = .ok (core.onPage frame (setSlot (core.page frame) index (core.reg src))) :=
  storeWord_located located _

theorem step_load_of {value : BitVec 64} (loaded : core.loadWord (core.address src) = .ok value) (dst : Reg) :
    core.step (.load src dst) = .ok (core.setReg dst value) := by
  rw [step, loaded]
  rfl

theorem step_load (located : Located core.ptable frame index (core.address src)) (dst : Reg) :
    core.step (.load src dst) = .ok (core.setReg dst (slot 64 (core.page frame) index)) :=
  step_load_of (loadWord_located located) dst

theorem procOffset_procAddr (core : Core) (p : Fin NPROC) (field : Nat) (inside : field < procSize) :
    core.procOffset (core.procAddr p + BitVec.ofNat 64 field) = procSize * p + field := by
  have bounded := p.isLt
  have slots : NPROC = 64 := rfl
  have size : procSize = 224 := rfl
  have cancel : core.ptable + BitVec.ofNat 64 (procSize * p) + BitVec.ofNat 64 field - core.ptable =
      BitVec.ofNat 64 (procSize * p + field) := by
    rw [BitVec.ofNat_add, BitVec.add_assoc, BitVec.add_comm core.ptable, BitVec.add_sub_cancel]
  rw [procOffset, procAddr, cancel, BitVec.toNat_ofNat, size]
  omega

/-- The instruction `movq 0x10(%rax), %rax` loads the kernel stack of a process. -/
theorem loadWord_kstack (core : Core) (p : Fin NPROC) :
    core.loadWord (core.procAddr p + 0x10) = .ok (kernelAddr (core.machine.proc p).kstack 0) := by
  have offset : core.procOffset (core.procAddr p + 0x10) = procSize * p + kstackField :=
    core.procOffset_procAddr p kstackField (by decide)
  have bounded := p.isLt
  have slots : NPROC = 64 := rfl
  have size : procSize = 224 := rfl
  have field : kstackField = 16 := rfl
  have inside : core.procOffset (core.procAddr p + 0x10) < NPROC * procSize := by
    rw [offset, size, field]
    omega
  have place : core.procOffset (core.procAddr p + 0x10) % procSize = kstackField := by
    rw [offset, mul_add_mod]
    rfl
  have same : (⟨core.procOffset (core.procAddr p + 0x10) / procSize,
      Nat.div_lt_of_lt_mul (by rwa [Nat.mul_comm])⟩ : Fin NPROC) = p := by
    apply Fin.ext
    change core.procOffset (core.procAddr p + 0x10) / procSize = p
    rw [offset, size, field]
    omega
  rw [loadWord, dif_pos inside, if_pos place, same]

theorem proc_eq {p : Fin NPROC} (loaded : core.loadWord (core.fs - 8) = .ok (core.procAddr p)) : core.proc = .ok p := by
  have offset : core.procOffset (core.procAddr p) = procSize * p := by
    have zero := core.procOffset_procAddr p 0 (by decide)
    rwa [BitVec.add_zero] at zero
  have bounded := p.isLt
  have slots : NPROC = 64 := rfl
  have size : procSize = 224 := rfl
  have inside : core.procOffset (core.procAddr p) < NPROC * procSize := by
    rw [offset, size]
    omega
  rw [Core.proc, loaded]
  change (if inside : core.procOffset (core.procAddr p) < NPROC * procSize then _ else _) = _
  rw [dif_pos inside, if_pos (by rw [offset, mul_mod_right])]
  congr
  rw [offset, size]
  omega

end Core

section Enter
open Core
variable {core entered : Core} {proc : Fin NPROC} {kstack locals : Nat} {theirs : List Nat → Option Nat}

/-- The local storage after the store to `%fs:(0)`. -/
def Core.scratched (core : Core) (locals : Nat) : Core :=
  core.trap.onPage locals (setSlot (core.page locals) 256 (core.reg .rax))

/-- The kernel stack after the store of the user stack pointer. -/
def Core.switched (core : Core) (locals kstack : Nat) : Core :=
  (core.scratched locals).onPage kstack (setSlot (core.page kstack) trapRsp (core.reg .rsp))

namespace TrapReady

variable (ready : TrapReady core proc kstack locals theirs)
include ready

theorem at_local (inside : index < 512) : Located core.ptable locals index (kernelAddr locals index) := ready.placed.located ready.local_page inside

theorem at_stack (inside : index < 512) : Located core.ptable kstack index (kernelAddr kstack index) := ready.placed.located ready.stack inside

theorem at_scratch : Located core.ptable locals 256 (core.fs + 0) := by
  have same : core.fs + 0 = kernelAddr locals 256 := (BitVec.add_zero _).trans ready.fs
  rw [same]
  exact ready.at_local (by decide)

theorem at_proc : Located core.ptable locals 255 (core.fs + (-8)) := by
  have below : core.fs + (-8) = kernelAddr locals 255 := by
    rw [ready.fs]
    exact (BitVec.sub_eq_add_neg _ _).symm.trans (kernelAddr_sub locals 255 1)
  rw [below]
  exact ready.at_local (by decide)

/-- The store to `%fs:(0)` keeps the variable `proc`. -/
theorem scratched_proc : slot 64 ((core.scratched locals).page locals) 255 = core.procAddr proc := by
  rw [scratched, onPage_page, slot_setSlot_ne _ _ _ _ (by decide), ready.current]

/-- The loads find the top of the kernel stack. -/
theorem find_stack :
    core.trap.exec [.store .rax (.fs 0), .load (.fs (-8)) .rax, .load (.base 0x10 .rax) .rax, .add (4096 - 16) .rax] =
      .ok ((core.scratched locals).setReg .rax (kernelAddr kstack trapRsp)) := by
  have stored : core.trap.step (.store .rax (.fs 0)) = .ok (core.scratched locals) := step_store ready.at_scratch .rax
  have at_proc : Located (core.scratched locals).ptable locals 255 ((core.scratched locals).address (.fs (-8))) :=
    ready.at_proc
  have address : ((core.scratched locals).setReg .rax (core.procAddr proc)).address (.base 0x10 .rax) =
      core.procAddr proc + 0x10 := congrArg (· + 0x10) (setReg_self _ _)
  have field : ((core.scratched locals).setReg .rax (core.procAddr proc)).loadWord (core.procAddr proc + 0x10) =
      .ok (kernelAddr kstack 0) := by
    rw [← ready.own]
    exact loadWord_kstack _ proc
  have sum : kernelAddr kstack 0 + (4096 - 16) = kernelAddr kstack trapRsp := kernelAddr_add kstack 0 trapRsp
  rw [exec_cons stored, exec_cons (step_load at_proc .rax), ready.scratched_proc,
    exec_cons (step_load_of (address ▸ field) .rax), setReg_setReg, exec_cons rfl, setReg_self, sum, setReg_setReg]
  rfl

/-- The user stack pointer is stored, and `rax` has its value again. -/
theorem switch_stack : ((core.scratched locals).setReg .rax (kernelAddr kstack trapRsp)).exec
        [.store .rsp (.base 0 .rax), .mov .rax .rsp, .load (.fs 0) .rax] =
      .ok ((core.switched locals kstack).setReg .rsp (kernelAddr kstack trapRsp)) := by
  have at_rsp : Located ((core.scratched locals).setReg .rax (kernelAddr kstack trapRsp)).ptable kstack trapRsp
      (((core.scratched locals).setReg .rax (kernelAddr kstack trapRsp)).address (.base 0 .rax)) := by
    have same : ∀ addr : BitVec 64, addr + 0 = addr := BitVec.add_zero
    rw [address, setReg_self, same]
    exact ready.at_stack (by decide)
  have stored : ((core.scratched locals).setReg .rax (kernelAddr kstack trapRsp)).step (.store .rsp (.base 0 .rax)) =
      .ok ((core.switched locals kstack).setReg .rax (kernelAddr kstack trapRsp)) := by
    have page : ((core.scratched locals).setReg .rax (kernelAddr kstack trapRsp)).page kstack = core.page kstack :=
      onPage_page_ne ready.apart.symm _
    rw [step_store at_rsp, page]
    rfl
  have moved : ((core.switched locals kstack).setReg .rax (kernelAddr kstack trapRsp)).step (.mov .rax .rsp) =
      .ok (((core.switched locals kstack).setReg .rax (kernelAddr kstack trapRsp)).setReg .rsp
        (kernelAddr kstack trapRsp)) := by
    rw [step, setReg_self]
  have at_scratch : Located (core.switched locals kstack).ptable locals 256 (core.fs + 0) := ready.at_scratch
  have saved : slot 64 ((core.switched locals kstack).page locals) 256 = core.reg .rax := by
    rw [switched, onPage_page_ne ready.apart, scratched, onPage_page,
      slot_setSlot_same _ _ _ (by simp only [PGSIZE]; omega)]
  have loaded : (((core.switched locals kstack).setReg .rax (kernelAddr kstack trapRsp)).setReg .rsp
      (kernelAddr kstack trapRsp)).step (.load (.fs 0) .rax) =
        .ok ((core.switched locals kstack).setReg .rsp (kernelAddr kstack trapRsp)) := by
    have restored : ((core.switched locals kstack).setReg .rsp (kernelAddr kstack trapRsp)) =
        (((core.switched locals kstack).setReg .rax (kernelAddr kstack trapRsp)).setReg .rsp
          (kernelAddr kstack trapRsp)).setReg .rax (core.reg .rax) := by
      refine congrArg (fun reg => {core.switched locals kstack with reg}) ?_
      funext r
      cases r <;> rfl
    rw [restored, ← saved]
    exact step_load_of (loadWord_located at_scratch) .rax
  rw [exec_cons stored, exec_cons moved, exec_cons loaded]
  rfl

end TrapReady

/-- At the call of `syscall` the kernel stack has the user registers, and the argument points to them. -/
structure Entered (core : Core) (proc : Fin NPROC) (kstack locals : Nat) (own page : Page) (entered : Core) : Prop where
  machine : entered.machine =
    core.machine.withKernel ((core.machine.kernel.setPage locals own).setPage kstack page)
  ptable : entered.ptable = core.ptable
  fs : entered.fs = core.fs
  rdi : entered.reg .rdi = kernelAddr kstack trapframeStart
  rsp : entered.reg .rsp = kernelAddr kstack (trapframeStart - 1)
  current : slot 64 own 255 = core.procAddr proc
  ret : slot 64 page (trapframeStart - 1) = core.machine.syscallTrapret
  saved : ∀ r, frameReg page r = core.resumed (core.reg .rax) r

/-- The operands of the pushes of `syscall_entry`. -/
def entrySources : List Source :=
  [.reg .r11, .imm 0, .reg .rcx, .imm 0, .imm 0] ++ trapRegs.reverse.map .reg

/-- The pushed words are the trap frame. -/
theorem entry_saved
    (words : ∀ index, slot 64 page index = if index < trapframeStart then slot 64 ((core.switched locals kstack).page kstack) index
      else ((entrySources.map ((core.switched locals kstack).setReg .rsp (kernelAddr kstack trapRsp)).value).reverse[
        index - trapframeStart]?).getD (slot 64 ((core.switched locals kstack).page kstack) index)) (r : Reg) :
    frameReg page r = core.resumed (core.reg .rax) r := by
  by_cases top : r = .rsp
  · subst top
    have value := words trapRsp
    rw [if_neg (by decide)] at value
    rw [frameReg, if_pos rfl, value]
    change slot 64 ((core.switched locals kstack).page kstack) trapRsp = core.reg .rsp
    rw [switched, onPage_page, slot_setSlot_same _ _ _ (by decide)]
  · have value := words (trapframeStart + trapRegs.idxOf r)
    rw [if_neg (by omega), Nat.add_sub_cancel_left] at value
    rw [frameReg, if_neg top, value]
    cases r <;> first | rfl | exact absurd rfl top

theorem syscallEntry_eq : syscallEntry =
    [.store .rax (.fs 0), .load (.fs (-8)) .rax, .load (.base 0x10 .rax) .rax, .add (4096 - 16) .rax] ++
      ([.store .rsp (.base 0 .rax), .mov .rax .rsp, .load (.fs 0) .rax] ++
        (entrySources.map .push ++ [.mov .rsp .rdi])) := rfl

/-- The state after the last instruction before the call of `syscall`. -/
def Core.framed (core : Core) (locals kstack : Nat) (page : Page) : Core :=
  (((core.switched locals kstack).onPage kstack page).setReg .rsp (kernelAddr kstack trapframeStart)).setReg .rdi
    (kernelAddr kstack trapframeStart)

theorem TrapReady.frame (ready : TrapReady core proc kstack locals theirs) :
    ∃ page, core.trap.exec syscallEntry = .ok (core.framed locals kstack page) ∧
      ∀ r, frameReg page r = core.resumed (core.reg .rax) r := by
  have stacked : ((core.switched locals kstack).setReg .rsp (kernelAddr kstack trapRsp)).Stacked kstack :=
    fun index inside => ready.at_stack inside
  have length : trapframeStart + entrySources.length = trapRsp := by decide
  have top : ((core.switched locals kstack).setReg .rsp (kernelAddr kstack trapRsp)).reg .rsp =
      kernelAddr kstack (trapframeStart + entrySources.length) := by
    rw [length, setReg_self]
  obtain ⟨page, pushed, words⟩ := exec_push ((core.switched locals kstack).setReg .rsp (kernelAddr kstack trapRsp))
    entrySources trapframeStart stacked (by decide) top (by rw [length]; decide)
  rw [setReg_onPage, setReg_setReg] at pushed
  simp only [setReg_page] at words
  refine ⟨page, ?_, entry_saved words⟩
  rw [syscallEntry_eq, exec_append ready.find_stack, exec_append ready.switch_stack, exec_append pushed, exec_cons rfl,
    setReg_self]
  rfl

/-- The call pushes the address of `syscall_trapret` below the trap frame. -/
theorem frameReg_setSlot (page : Page) (value : BitVec 64) (r : Reg) :
    frameReg (setSlot page (trapframeStart - 1) value) r = frameReg page r := by
  have below : trapframeStart = 490 := rfl
  rw [frameReg, frameReg, slot_setSlot_ne _ _ _ _ (by decide), slot_setSlot_ne _ _ _ _ (by omega)]

/-- The state at the first instruction of `syscall`. -/
def Core.called (core : Core) (locals kstack : Nat) (page : Page) : Core :=
  ((core.framed locals kstack page).onPage kstack
    (setSlot page (trapframeStart - 1) core.machine.syscallTrapret)).setReg .rsp (kernelAddr kstack (trapframeStart - 1))

theorem TrapReady.enter (ready : TrapReady core proc kstack locals theirs) :
    ∃ entered own page, core.enter = .ok entered ∧ Entered core proc kstack locals own page entered := by
  obtain ⟨page, framed, saved⟩ := ready.frame
  have stacked : (core.framed locals kstack page).Stacked kstack := fun index inside => ready.at_stack inside
  have top : (core.framed locals kstack page).reg .rsp = kernelAddr kstack (trapframeStart - 1 + 1) :=
    (setReg_ne (by decide) _).trans (setReg_self _ _)
  have content : (core.framed locals kstack page).page kstack = page := by
    rw [Core.framed, setReg_page, setReg_page, onPage_page]
  have pushed := step_push stacked top (by decide) (.imm core.machine.syscallTrapret)
  rw [content] at pushed
  have ran : core.enter = .ok (core.called locals kstack page) := by
    refine bind_eq_ok.mpr ⟨_, framed, ?_⟩
    rw [exec_cons pushed, exec_nil, Core.called]
    rfl
  refine ⟨core.called locals kstack page, setSlot (core.page locals) 256 (core.reg .rax),
    setSlot page (trapframeStart - 1) core.machine.syscallTrapret, ran, ?_, rfl, rfl, ?_, setReg_self _ _, ?_,
    slot_setSlot_same _ _ _ (by decide), ?_⟩
  · rw [Core.called, Core.framed, setReg_onPage, setReg_onPage, onPage_onPage, Core.switched, onPage_onPage]
    rfl
  · rw [Core.called, setReg_ne (by decide), Core.framed, setReg_onPage, setReg_self]
  · rw [slot_setSlot_ne _ _ _ _ (by decide), ready.current]
  · intro r
    rw [frameReg_setSlot, saved]

end Enter

/-- User mode continues with these registers. -/
structure Resumes (core : Core) (regs : Reg → BitVec 64) : Prop where
  reg : core.reg = regs
  rip : core.rip = regs .rcx
  rflags : core.rflags = regs .r11 &&& 0x3C7FD7 ||| 2

section Return
open Core
variable {core : Core} {frame : Nat}

theorem mem_trapRegs {r : Reg} (top : r ≠ .rsp) : r ∈ trapRegs := by
  revert top
  cases r <;> decide

/-- The state after `retq`. -/
def Core.returned (core : Core) (frame index : Nat) : Core :=
  {core.setReg .rsp (kernelAddr frame (index + 1)) with rip := slot 64 (core.page frame) index}

theorem returned_rsp (core : Core) (frame index : Nat) :
    (core.returned frame index).reg .rsp = kernelAddr frame (index + 1) := by
  unfold Core.returned
  rw [setReg_self]

theorem ret_eq (stacked : core.Stacked frame) (rsp : core.reg .rsp = kernelAddr frame index) (inside : index < 512) :
    core.ret = .ok (core.returned frame index) := by
  have above : core.reg .rsp + 8 = kernelAddr frame (index + 1) := by
    rw [rsp]
    exact kernelAddr_add frame index 1
  rw [ret, above, rsp, loadWord_located (stacked index inside)]
  rfl

theorem syscallTrapret_eq : syscallTrapret = trapRegs.map .pop ++ [.add 40 .rsp, .cli, .load (.base 0 .rsp) .rsp] := rfl

/-- The state after `cli`. -/
def Core.masked (core : Core) : Core := {core with rflags := core.rflags &&& ~~~FL_IF}

theorem load_rsp (stacked : core.Stacked frame) (inside : index < 512) (rsp : core.reg .rsp = kernelAddr frame index)
    (dst : Reg) : core.step (.load (.base 0 .rsp) dst) = .ok (core.setReg dst (slot 64 (core.page frame) index)) := by
  have address : core.address (.base 0 .rsp) = kernelAddr frame index := (BitVec.add_zero _).trans rsp
  refine step_load_of ?_ dst
  rw [address, loadWord_located (stacked index inside)]

/-- The last instructions skip five words and load the user stack pointer. -/
theorem exec_skip (core : Core) (stacked : core.Stacked frame)
    (rsp : core.reg .rsp = kernelAddr frame (trapframeStart + trapRegs.length)) :
    ∃ restored, core.exec [.add 40 .rsp, .cli, .load (.base 0 .rsp) .rsp] = .ok restored ∧
      restored.reg = Function.update core.reg .rsp (slot 64 (core.page frame) trapRsp) := by
  have skipped : core.reg .rsp + 40 = kernelAddr frame trapRsp := by
    rw [rsp]
    exact kernelAddr_add frame (trapframeStart + trapRegs.length) 5
  have added : core.step (.add 40 .rsp) = .ok (core.setReg .rsp (kernelAddr frame trapRsp)) := by
    rw [step, skipped]
  have disabled : (core.setReg .rsp (kernelAddr frame trapRsp)).step .cli =
      .ok (core.setReg .rsp (kernelAddr frame trapRsp)).masked := rfl
  have top : (core.setReg .rsp (kernelAddr frame trapRsp)).masked.reg .rsp = kernelAddr frame trapRsp := by
    unfold Core.masked
    rw [setReg_self]
  have located : (core.setReg .rsp (kernelAddr frame trapRsp)).masked.Stacked frame := stacked
  have loaded := load_rsp located (by decide) top .rsp
  refine ⟨_, by rw [exec_cons added, exec_cons disabled, exec_cons loaded, exec_nil], ?_⟩
  exact Function.update_idem _ _ _

/-- The code of `syscall_trapret` loads the registers of the trap frame. -/
theorem exec_syscallTrapret (core : Core) (stacked : core.Stacked frame)
    (rsp : core.reg .rsp = kernelAddr frame trapframeStart) :
    ∃ restored, core.exec syscallTrapret = .ok restored ∧ restored.reg = frameReg (core.page frame) := by
  have popped := exec_pop core stacked (by decide) (show trapRegs.Nodup by decide) rsp (by decide)
  obtain ⟨restored, ran, regs⟩ := exec_skip (core.popped frame trapframeStart trapRegs) stacked (popped_rsp _ _ _ _)
  refine ⟨restored, ?_, ?_⟩
  · rw [syscallTrapret_eq, exec_append popped, ran]
  · funext r
    rw [regs, frameReg, Function.update_apply]
    by_cases last : r = .rsp
    · rw [if_pos last, if_pos last]
      rfl
    · rw [if_neg last, if_neg last, popped_reg last (mem_trapRegs last)]

/-- A return to `syscall_trapret` continues in user mode with the registers of the trap frame. -/
theorem trapret_resumes (core : Core) (stacked : core.Stacked frame)
    (rsp : core.reg .rsp = kernelAddr frame (trapframeStart - 1))
    (ret : slot 64 (core.page frame) (trapframeStart - 1) = core.machine.syscallTrapret) :
    ∃ final, core.trapret = .ok final ∧ Resumes final (frameReg (core.page frame)) := by
  have popped := ret_eq stacked rsp (by decide)
  obtain ⟨restored, ran, regs⟩ := exec_syscallTrapret (core.returned frame (trapframeStart - 1)) stacked
    (returned_rsp _ _ _)
  refine ⟨{restored with rip := restored.reg .rcx, rflags := restored.reg .r11 &&& 0x3C7FD7 ||| 2}, ?_, ?_⟩
  · refine bind_eq_ok.mpr ⟨_, popped, ?_⟩
    have label : (core.returned frame (trapframeStart - 1)).rip =
      (core.returned frame (trapframeStart - 1)).machine.syscallTrapret := ret
    rw [if_pos label]
    exact bind_eq_ok.mpr ⟨restored, ran, rfl⟩
  · exact ⟨regs, congrFun regs .rcx, congrArg (· &&& 0x3C7FD7 ||| 2) (congrFun regs .r11)⟩

theorem frameReg_congr {other : Page} (same : ∀ index, trapframeStart ≤ index → index < 512 →
    slot 64 page index = slot 64 other index) : frameReg page = frameReg other := by
  funext r
  have few : trapRegs.idxOf r ≤ 15 := List.idxOf_le_length
  have start : trapframeStart = 490 := rfl
  rw [frameReg, frameReg, same trapRsp (by decide) (by decide), same _ (by omega) (by omega)]

theorem frameReg_rax {user : Core} {rax : BitVec 64} (saved : ∀ r, frameReg page r = user.resumed rax r)
    (value : BitVec 64) : frameReg (setSlot page trapframeStart value) = user.resumed value := by
  funext r
  by_cases first : r = .rax
  · subst first
    exact slot_setSlot_same page trapframeStart value (by decide)
  · have later : trapRegs.idxOf r ≠ 0 := by
      revert first
      cases r <;> decide
    have same : user.resumed value r = user.resumed rax r := by
      cases r <;> first | rfl | exact absurd rfl first
    rw [same, ← saved, frameReg, frameReg, slot_setSlot_ne _ _ _ _ (by decide), slot_setSlot_ne _ _ _ _ (by omega)]

/-- The code after a C function sees the trap frame that was there before. -/
theorem CEffect.trapret {core : Core} (effect : CEffect core) (stacked : core.Stacked frame)
    (rsp : core.reg .rsp = kernelAddr frame (trapframeStart - 1))
    (ret : slot 64 (core.page frame) (trapframeStart - 1) = core.machine.syscallTrapret) :
    ∃ final, effect.after.trapret = .ok final ∧ Resumes final (frameReg (core.page frame)) := by
  have kept := effect.keeps frame (trapframeStart - 1) rsp (by decide)
  have same : effect.after.reg .rsp = kernelAddr frame (trapframeStart - 1) := (effect.saved .rsp rfl).trans rsp
  have located : effect.after.Stacked frame := by
    intro index inside
    rw [effect.ptable]
    exact stacked index inside
  have again : slot 64 (effect.after.page frame) (trapframeStart - 1) = effect.after.machine.syscallTrapret := by
    rw [kept.trapret, ← ret]
    exact kept.words _ (le_refl _) (by decide)
  have frames : frameReg (effect.after.page frame) = frameReg (core.page frame) :=
    frameReg_congr fun index low high => kept.words index (le_trans (sub_le _ _) low) high
  rw [← frames]
  exact trapret_resumes effect.after located same again

end Return
end Xv6
