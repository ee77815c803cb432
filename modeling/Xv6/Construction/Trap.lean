import Xv6.Construction.Fork

namespace Xv6
open Library

def KSTACKSIZE : Nat := 4096
def SYS_fork : BitVec 64 := 1

def FL_IF : BitVec 64 := 0x200

/-- The flags `FL_TF|FL_DF|FL_IF|FL_IOPL_3|FL_AC|FL_NT`. -/
def SFMASK : BitVec 64 := 0x100 ||| 0x400 ||| FL_IF ||| 0x3000 ||| 0x40000 ||| 0x4000

/-- The size of `struct proc` and the place of its field `kstack`. -/
def procSize : Nat := 224
def kstackField : Nat := 0x10

inductive Reg where
  | rax
  | rbx
  | rcx
  | rdx
  | rbp
  | rsi
  | rdi
  | rsp
  | r8
  | r9
  | r10
  | r11
  | r12
  | r13
  | r14
  | r15
  deriving DecidableEq

/-- A C function returns with the same values in these registers. -/
def Reg.calleeSaved : Reg → Bool
  | .rbx | .rbp | .rsp | .r12 | .r13 | .r14 | .r15 => true
  | _ => false

/-- The operand of a push. -/
inductive Source where
  | reg (r : Reg)
  | imm (value : BitVec 64)
  deriving DecidableEq

/-- A word in memory is addressed relative to the local storage of the processor or relative to a register. -/
inductive Operand where
  | fs (disp : BitVec 64)
  | base (disp : BitVec 64) (r : Reg)

/-- The instructions of `trapasm.S` and `swtch.S` but for the calls and the returns. -/
inductive Insn where
  | push (src : Source)
  | pop (dst : Reg)
  | mov (src dst : Reg)
  | load (src : Operand) (dst : Reg)
  | store (src : Reg) (dst : Operand)
  | add (value : BitVec 64) (dst : Reg)
  | cli

/-- The instructions of `syscall_entry` before the call of `syscall`. -/
def syscallEntry : List Insn :=
  [.store .rax (.fs 0),
    .load (.fs (-8)) .rax,
    .load (.base 0x10 .rax) .rax,
    .add (4096 - 16) .rax,
    .store .rsp (.base 0 .rax),
    .mov .rax .rsp,
    .load (.fs 0) .rax,
    .push (.reg .r11),
    .push (.imm 0),
    .push (.reg .rcx),
    .push (.imm 0),
    .push (.imm 0),
    .push (.reg .r15),
    .push (.reg .r14),
    .push (.reg .r13),
    .push (.reg .r12),
    .push (.reg .r11),
    .push (.reg .r10),
    .push (.reg .r9),
    .push (.reg .r8),
    .push (.reg .rdi),
    .push (.reg .rsi),
    .push (.reg .rbp),
    .push (.reg .rdx),
    .push (.reg .rcx),
    .push (.reg .rbx),
    .push (.reg .rax),
    .mov .rsp .rdi]

/-- The instructions of `syscall_trapret` before `sysretq`. -/
def syscallTrapret : List Insn :=
  [.pop .rax,
    .pop .rbx,
    .pop .rcx,
    .pop .rdx,
    .pop .rbp,
    .pop .rsi,
    .pop .rdi,
    .pop .r8,
    .pop .r9,
    .pop .r10,
    .pop .r11,
    .pop .r12,
    .pop .r13,
    .pop .r14,
    .pop .r15,
    .add 40 .rsp,
    .cli,
    .load (.base 0 .rsp) .rsp]

/-- The instructions of `swtch` before `retq`. -/
def swtch : List Insn :=
  [.push (.reg .rbp),
    .push (.reg .rbx),
    .push (.reg .r12),
    .push (.reg .r13),
    .push (.reg .r14),
    .push (.reg .r15),
    .store .rsp (.base 0 .rdi),
    .mov .rsi .rsp,
    .pop .r15,
    .pop .r14,
    .pop .r13,
    .pop .r12,
    .pop .rbx,
    .pop .rbp]

/-- The kernel faults, leaves the process for good or jumps to an unknown address. The model has no other system call
and no other place for the trap frame. -/
inductive TrapHalt where
  | fork (halt : ForkHalt)
  | fault
  | exits
  | astray
  | unmodelled

/-- A processor shares the memory with the others. The array `ptable.proc` is at an address of the kernel, and `fs` is
the base of the local storage. -/
structure Core where
  machine : Machine
  ptable : BitVec 64
  fs : BitVec 64
  reg : Reg → BitVec 64
  rip : BitVec 64
  rflags : BitVec 64

/-- The virtual address of a 64-bit word of a frame. -/
def kernelAddr (frame index : Nat) : BitVec 64 := KERNBASE + BitVec.ofNat 64 (frame * PGSIZE + 8 * index)

/-- The pointer `p->tf` of `allocproc`. -/
def tfAddr (kstack : Nat) : BitVec 64 :=
  kernelAddr kstack 0 + BitVec.ofNat 64 KSTACKSIZE - BitVec.ofNat 64 (8 * trapframeSize)

/-- The pointer `p->context` of `allocproc` is below the return address. -/
def contextAddr (kstack : Nat) : BitVec 64 := tfAddr kstack - 8 - BitVec.ofNat 64 (8 * contextSize)

namespace Core

def setReg (core : Core) (r : Reg) (value : BitVec 64) : Core := {core with reg := Function.update core.reg r value}

def withKernel (core : Core) (kernel : Kernel) : Core := {core with machine := core.machine.withKernel kernel}

/-- The address of a slot of the process table. -/
def procAddr (core : Core) (p : Fin NPROC) : BitVec 64 := core.ptable + BitVec.ofNat 64 (procSize * p)

/-- The place of an address in the process table. -/
def procOffset (core : Core) (addr : BitVec 64) : Nat := (addr - core.ptable).toNat

/-- A word of the process table is the field `kstack` of a slot. Every other word is in the frame of its address. -/
def loadWord (core : Core) (addr : BitVec 64) : Except TrapHalt (BitVec 64) :=
  if inside : core.procOffset addr < NPROC * procSize then
    if core.procOffset addr % procSize = kstackField then
      .ok (kernelAddr (core.machine.proc ⟨core.procOffset addr / procSize, Nat.div_lt_of_lt_mul (by
        rwa [Nat.mul_comm])⟩).kstack 0)
    else .error .unmodelled
  else if (addr - KERNBASE).toNat % 8 = 0 then
    (core.machine.kernel.loadEntry ((addr - KERNBASE).toNat / PGSIZE)
      ((addr - KERNBASE).toNat % PGSIZE / 8)).mapError fun _ => .fault
  else .error .unmodelled

def storeWord (core : Core) (addr value : BitVec 64) : Except TrapHalt Core :=
  if core.procOffset addr < NPROC * procSize then .error .unmodelled
  else if (addr - KERNBASE).toNat % 8 = 0 then
    ((core.machine.kernel.storeEntry ((addr - KERNBASE).toNat / PGSIZE)
      ((addr - KERNBASE).toNat % PGSIZE / 8) value).mapError fun _ => .fault).map core.withKernel
  else .error .unmodelled

def value (core : Core) : Source → BitVec 64
  | .reg r => core.reg r
  | .imm value => value

def address (core : Core) : Operand → BitVec 64
  | .fs disp => core.fs + disp
  | .base disp r => core.reg r + disp

def step (core : Core) : Insn → Except TrapHalt Core
  | .push src => do
      let stored ← core.storeWord (core.reg .rsp - 8) (core.value src)
      .ok (stored.setReg .rsp (core.reg .rsp - 8))
  | .pop dst => do
      let value ← core.loadWord (core.reg .rsp)
      .ok ((core.setReg .rsp (core.reg .rsp + 8)).setReg dst value)
  | .mov src dst => .ok (core.setReg dst (core.reg src))
  | .load src dst => do
      let value ← core.loadWord (core.address src)
      .ok (core.setReg dst value)
  | .store src dst => core.storeWord (core.address dst) (core.reg src)
  | .add value dst => .ok (core.setReg dst (core.reg dst + value))
  | .cli => .ok {core with rflags := core.rflags &&& ~~~FL_IF}

def exec (core : Core) (insns : List Insn) : Except TrapHalt Core := insns.foldlM step core

def ret (core : Core) : Except TrapHalt Core := do
  let rip ← core.loadWord (core.reg .rsp)
  .ok {core.setReg .rsp (core.reg .rsp + 8) with rip}

/-- The instruction `syscall` saves the address of the next instruction and the flags. -/
def trap (core : Core) : Core :=
  {(core.setReg .rcx core.rip).setReg .r11 core.rflags with rflags := core.rflags &&& ~~~SFMASK}

/-- The code of `syscall_entry` up to the call of `syscall`, which returns to `syscall_trapret`. -/
def enter (core : Core) : Except TrapHalt Core := do
  let framed ← core.trap.exec syscallEntry
  framed.exec [.push (.imm core.machine.syscallTrapret)]

/-- The variable `proc` of the processor. -/
def proc (core : Core) : Except TrapHalt (Fin NPROC) := do
  let addr ← core.loadWord (core.fs - 8)
  if inside : core.procOffset addr < NPROC * procSize then
    if core.procOffset addr % procSize = 0 then
      .ok ⟨core.procOffset addr / procSize, Nat.div_lt_of_lt_mul (by rwa [Nat.mul_comm])⟩
    else .error .unmodelled
  else .error .unmodelled

/-- The function `syscall` with its argument in `rdi`, up to the return of `fork`. -/
def syscall (core : Core) : Except TrapHalt (BitVec 32 × Machine) := do
  let proc ← core.proc
  if (core.machine.table.proc proc).killed then .error .exits
  else
    let num ← core.loadWord (core.reg .rdi)
    if num = SYS_fork ∧ core.reg .rdi = tfAddr (core.machine.proc proc).kstack then
      (core.machine.fork proc).mapError .fork
    else .error .unmodelled

/-- The return to the address on the stack, which is `syscall_trapret`. -/
def trapret (core : Core) : Except TrapHalt Core := do
  let returned ← core.ret
  if returned.rip = returned.machine.syscallTrapret then
    let restored ← returned.exec syscallTrapret
    .ok {restored with rip := restored.reg .rcx, rflags := restored.reg .r11 &&& 0x3C7FD7 ||| 2}
  else .error .astray

end Core

/-- The two states have the same words of a stack from an index on, and the same kernel. -/
structure Machine.Keeps (before after : Machine) (frame bottom : Nat) : Prop where
  kend : after.kernel.kend = before.kernel.kend
  trapret : after.syscallTrapret = before.syscallTrapret
  forkret : after.forkret = before.forkret
  words : ∀ index, bottom ≤ index → index < 512 →
    slot 64 (after.kernel.memory frame) index = slot 64 (before.kernel.memory frame) index

/-- A C function returns with any state that has the registers and the part of the stack that belong to the caller.
Other processors may have changed other memory. -/
structure CEffect (core : Core) where
  after : Core
  saved : ∀ r, r.calleeSaved = true → after.reg r = core.reg r
  ptable : after.ptable = core.ptable
  keeps : ∀ frame index, core.reg .rsp = kernelAddr frame index → index < 512 →
    core.machine.Keeps after.machine frame index

namespace Core

/-- The end of `syscall` stores the result, and the process returns to user mode. -/
def parentReturn (core : Core) (ret : BitVec 32) (effect : (core : Core) → CEffect core) : Except TrapHalt Core := do
  let stored ← core.storeWord (core.reg .rdi) (ret.signExtend 64)
  let proc ← core.proc
  if (core.machine.table.proc proc).killed then .error .exits
  else (effect stored).after.trapret

/-- The scheduler calls `swtch(&cpu->scheduler, p->context)` after the stores to `proc` and `p->state`. -/
def dispatch (core : Core) (p : Fin NPROC) (scheduler back : BitVec 64) : Except TrapHalt Core := do
  let current ← core.storeWord (core.fs - 8) (core.procAddr p)
  let running := {current with machine := current.machine.setState p .running}
  let called := (running.setReg .rdi scheduler).setReg .rsi (contextAddr (running.machine.proc p).kstack)
  let switched ← called.exec (.push (.imm back) :: swtch)
  switched.ret

/-- A new process runs `forkret` and returns to user mode. -/
def childReturn (core : Core) (p : Fin NPROC) (scheduler back : BitVec 64) (effect : (core : Core) → CEffect core) :
    Except TrapHalt Core := do
  let switched ← core.dispatch p scheduler back
  if switched.rip = switched.machine.forkret then (effect switched).after.trapret else .error .astray

end Core
end Xv6
