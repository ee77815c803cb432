import Xv6.Construction.File
import Xv6.Construction.Fs
import Xv6.Construction.Vm

namespace Xv6
open Library

/-- The fields of `struct proc` that describe the memory, the current directory and the name of a process. A page is
named by its frame, and frame 0 is the null pointer. -/
structure ProcImage where
  kstack : Nat
  pgdir : Nat
  sz : BitVec 64
  cwd : Option (Fin NINODE)
  name : List (BitVec 8)

/-- The kernel halts in the memory code or at the panic of `filedup`. The current directory of a process that forks
is not null. -/
inductive ForkHalt where
  | vm (halt : VmHalt)
  | filedup
  | nullInode
  deriving DecidableEq

/-- The state that `fork` reads and changes. The last two fields are the addresses that a new kernel stack holds. -/
structure Machine where
  kernel : Kernel
  table : Ptable
  proc : Fin NPROC → ProcImage
  file : Fin NFILE → FileSlot
  ofile : Fin NPROC → Fin NOFILE → Option (Fin NFILE)
  inodeRef : Fin NINODE → Int
  syscallTrapret : BitVec 64
  forkret : BitVec 64

/-- The trap frame is the last part of the kernel stack, in units of 64 bits. -/
def trapframeStart : Nat := 490
def trapframeSize : Nat := 22

/-- The context is below the trap frame and the return address. Its last field is `rip`. -/
def contextStart : Nat := 482
def contextSize : Nat := 7

/-- The stores of `allocproc` into a new kernel stack. -/
def initStack (trapret forkret : BitVec 64) (stack : Page) : Page :=
  let returning := setSlot stack (trapframeStart - 1) trapret
  let cleared := (List.range' contextStart contextSize).foldl
    (fun page index => setSlot page index (0 : BitVec 64)) returning
  setSlot cleared (contextStart + contextSize - 1) forkret

/-- The assignment `*np->tf = *proc->tf` copies the trap frame, and the child sees the result 0 in `rax`. -/
def copyTrapframe (parent stack : Page) : Page :=
  let copied := (List.range' trapframeStart trapframeSize).foldl
    (fun page index => setSlot page index (slot 64 parent index)) stack
  setSlot copied trapframeStart (0 : BitVec 64)

namespace Machine

def withKernel (machine : Machine) (kernel : Kernel) : Machine := {machine with kernel}

def withTable (machine : Machine) (table : Ptable) : Machine := {machine with table}

def setProc (machine : Machine) (p : Fin NPROC) (image : ProcImage) : Machine :=
  {machine with proc := Function.update machine.proc p image}

def setState (machine : Machine) (p : Fin NPROC) (state : ProcState) : Machine :=
  machine.withTable (machine.table.setState p state)

def setKstack (machine : Machine) (p : Fin NPROC) (kstack : Nat) : Machine :=
  machine.setProc p {machine.proc p with kstack}

def allocproc (machine : Machine) : Except ForkHalt (Option (Fin NPROC) × Machine) :=
  match machine.table.allocproc with
  | none => .ok (none, machine)
  | some (p, table) =>
    let embryo := machine.withTable table
    match embryo.kernel.kalloc with
    | none => .ok (none, (embryo.setKstack p 0).setState p .unused)
    | some (kstack, taken) => do
        let kernel ← (taken.storePage kstack
          (initStack machine.syscallTrapret machine.forkret (taken.memory kstack))).mapError .vm
        .ok (some p, (embryo.withKernel kernel).setKstack p kstack)

def filedup (machine : Machine) (f : Fin NFILE) : Except ForkHalt Machine :=
  if (machine.file f).ref < 1 then .error .filedup
  else .ok {machine with file := Function.update machine.file f {machine.file f with ref := (machine.file f).ref + 1}}

/-- One iteration of the loop of `fork` over the descriptors. -/
def dupSlot (proc np : Fin NPROC) (machine : Machine) (fd : Fin NOFILE) : Except ForkHalt Machine :=
  match machine.ofile proc fd with
  | none => .ok machine
  | some f => do
      let counted ← machine.filedup f
      .ok {counted with
        ofile := Function.update counted.ofile np (Function.update (counted.ofile np) fd (some f))}

/-- The current directory of the parent gets one more reference. -/
def idup (machine : Machine) (proc np : Fin NPROC) : Except ForkHalt Machine :=
  match (machine.proc proc).cwd with
  | none => .error .nullInode
  | some ip =>
    .ok ({machine with inodeRef := Function.update machine.inodeRef ip (machine.inodeRef ip + 1)}.setProc np
      {machine.proc np with cwd := some ip})

/-- The part of `fork` after the copy of the memory. -/
def startChild (machine : Machine) (proc np : Fin NPROC) : Except ForkHalt (BitVec 32 × Machine) := do
  let sized := machine.setProc np {machine.proc np with sz := (machine.proc proc).sz}
  let adopted := sized.withTable (sized.table.set np {sized.table.proc np with parent := some proc})
  let stack := (adopted.proc np).kstack
  let parent ← (adopted.kernel.readPage (adopted.proc proc).kstack).mapError .vm
  let kernel ← (adopted.kernel.storePage stack (copyTrapframe parent (adopted.kernel.memory stack))).mapError .vm
  let duped ← (List.finRange NOFILE).foldlM (dupSlot proc np) (adopted.withKernel kernel)
  let placed ← duped.idup proc np
  let named := placed.setProc np {placed.proc np with name := (placed.proc proc).name.take 15}
  .ok ((named.table.proc np).pid, named.setState np .runnable)

/-- The part of `fork` after `allocproc`. A copy that fails gives the kernel stack and the slot back. -/
def copyImage (machine : Machine) (proc np : Fin NPROC) : Except ForkHalt (BitVec 32 × Machine) := do
  match ← (machine.kernel.copyuvm (machine.proc proc).pgdir ((machine.proc proc).sz.setWidth 32)).mapError .vm with
  | (none, kernel) => do
      let freed ← (kernel.kfree (machine.proc np).kstack).mapError .vm
      let cleared := (machine.withKernel freed).setProc np {machine.proc np with pgdir := 0, kstack := 0}
      .ok (-1, cleared.setState np .unused)
  | (some d, kernel) =>
    ((machine.withKernel kernel).setProc np {machine.proc np with pgdir := d}).startChild proc np

def fork (machine : Machine) (proc : Fin NPROC) : Except ForkHalt (BitVec 32 × Machine) := do
  match ← machine.allocproc with
  | (none, machine) => .ok (-1, machine)
  | (some np, machine) => machine.copyImage proc np

end Machine
end Xv6
