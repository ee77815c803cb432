import Xv6.Construction.Trap
import Mathlib.Data.BitVec
import Mathlib.Data.Nat.Digits.Defs

namespace Xv6

/-- A processor executes `swtch.S` in a flat memory of bytes. -/
structure FlatCore where
  memory : BitVec 64 → BitVec 8
  fs : BitVec 64
  reg : Reg → BitVec 64
  rip : BitVec 64
  rflags : BitVec 64

namespace FlatCore

/-- The word at an address has its low byte there. -/
def word (memory : BitVec 64 → BitVec 8) (addr : BitVec 64) : BitVec 64 :=
  BitVec.ofNat 64 (Nat.ofDigits 256 (List.ofFn fun i : Fin 8 => (memory (addr + BitVec.ofNat 64 i)).toNat))

def storeWord (core : FlatCore) (addr value : BitVec 64) : FlatCore :=
  {core with memory := fun x =>
    if (x - addr).toNat < 8 then BitVec.ofNat 8 (value.toNat / 256 ^ (x - addr).toNat) else core.memory x}

def setReg (core : FlatCore) (r : Reg) (value : BitVec 64) : FlatCore :=
  {core with reg := Function.update core.reg r value}

def value (core : FlatCore) : Source → BitVec 64
  | .reg r => core.reg r
  | .imm value => value

def address (core : FlatCore) : Operand → BitVec 64
  | .fs disp => core.fs + disp
  | .base disp r => core.reg r + disp

def step (core : FlatCore) : Insn → FlatCore
  | .push src => (core.storeWord (core.reg .rsp - 8) (core.value src)).setReg .rsp (core.reg .rsp - 8)
  | .pop dst => (core.setReg .rsp (core.reg .rsp + 8)).setReg dst (word core.memory (core.reg .rsp))
  | .mov src dst => core.setReg dst (core.reg src)
  | .load src dst => core.setReg dst (word core.memory (core.address src))
  | .store src dst => core.storeWord (core.address dst) (core.reg src)
  | .add value dst => core.setReg dst (core.reg dst + value)
  | .cli => {core with rflags := core.rflags &&& ~~~FL_IF}

def exec (core : FlatCore) (insns : List Insn) : FlatCore := insns.foldl step core

def ret (core : FlatCore) : FlatCore :=
  {core.setReg .rsp (core.reg .rsp + 8) with rip := word core.memory (core.reg .rsp)}

/-- The state in a call of `swtch` after the given number of its instructions. -/
def within (core : FlatCore) (back : BitVec 64) (count : Nat) : FlatCore :=
  core.exec (.push (.imm back) :: swtch.take count)

/-- A call of `swtch` that would return to the address `back` returns on the other stack. -/
def callSwtch (core : FlatCore) (back : BitVec 64) : FlatCore := (core.within back swtch.length).ret

/-- The stores of `co_new` into the stack that it allocated. -/
def coNew (core : FlatCore) (stack func coExit : BitVec 64) : FlatCore :=
  (core.storeWord (stack + 1000 + 8 * 6) func).storeWord (stack + 1000 + 8 * 7) coExit

/-- The execution from one state to the other leaves some bytes as they were. -/
def Spares (before after : FlatCore) (low : BitVec 64) (size : Nat) : Prop :=
  ∀ i < size, after.memory (low + BitVec.ofNat 64 i) = before.memory (low + BitVec.ofNat 64 i)

end FlatCore
end Xv6
