import Xv6.Construction.Proc

namespace Xv6

/-- A frame that `kalloc` has returned is the kernel stack or the page table of a process. -/
inductive FrameUse where
  | stack (p : Fin NPROC)
  | table (p : Fin NPROC)
  deriving DecidableEq

/-- These calls take `ptable.lock`. -/
inductive LockedCall where
  | yield
  | sleep (addr : BitVec 64)
  | wakeup (addr : BitVec 64)
  | exit
  | wait
  | fork
  | kill (pid : BitVec 32)
  deriving DecidableEq

/-- The code to which a process returns from `sched`. A new process returns to `forkret`, which releases the lock as
`yield` does. -/
inductive SchedReturn where
  | release
  | sleep
  | wait
  | exit
  deriving DecidableEq

/-- A process is outside of the lock, has taken it for a call, has changed its state before `swtch`, is switched out,
is back from `swtch` or is about to release the lock. -/
inductive SchedStage where
  | free
  | entered (call : LockedCall)
  | switching (back : SchedReturn)
  | parked (back : SchedReturn)
  | resumed (back : SchedReturn)
  | releasing
  deriving DecidableEq

/-- A process can be interrupted between the steps of `fork` that are outside of the lock. -/
inductive ForkWork where
  | none
  | stacking (np : Fin NPROC)
  | copying (np : Fin NPROC)
  | starting (np : Fin NPROC)
  deriving DecidableEq

/-- The place of a process in the kernel. -/
structure KernelThread where
  work : ForkWork
  stage : SchedStage
  deriving DecidableEq

/-- The places of `scheduler`, with its variable `p`. It is at `running` while it waits for its process. -/
inductive SchedulerPlace where
  | idle
  | scanning (index : Nat)
  | chosen (p : Fin NPROC)
  | loaded (p : Fin NPROC)
  | marked (p : Fin NPROC)
  | running (p : Fin NPROC)
  | returned (p : Fin NPROC)
  | unloaded (p : Fin NPROC)
  deriving DecidableEq

/-- A processor has its current process, its page table and its stack. The page table is `kpml4` and the stack is the
one of the scheduler when there is no frame. -/
structure Cpu where
  proc : Option (Fin NPROC)
  cr3 : Option Nat
  stack : Option Nat
  place : SchedulerPlace
  deriving DecidableEq

/-- The processors share the process table, its lock and the allocator. The holder of the lock is a processor. -/
structure CpuSystem (C : Type) where
  table : Ptable
  initproc : Fin NPROC
  kstack : Fin NPROC → Option Nat
  pgdir : Fin NPROC → Option Nat
  thread : Fin NPROC → KernelThread
  kmem : Nat → Option FrameUse
  lock : Option C
  cpu : C → Cpu

/-- A processor continues, its process enters a call, an allocation in `fork` returns or fails, a child starts, or a
device interrupts. -/
inductive CpuAct where
  | advance
  | call (call : LockedCall)
  | kalloc (frame : Option Nat)
  | copyuvm (frame : Option Nat)
  | start
  | interrupt (addr : BitVec 64)

inductive CpuHalt where
  | blocked
  | panic (message : String)
  deriving DecidableEq

namespace CpuSystem
variable {C : Type} [DecidableEq C]

def state (system : CpuSystem C) (p : Fin NPROC) : ProcState := (system.table.proc p).state

def setCpu (system : CpuSystem C) (c : C) (cpu : Cpu) : CpuSystem C :=
  {system with cpu := Function.update system.cpu c cpu}

def setThread (system : CpuSystem C) (p : Fin NPROC) (thread : KernelThread) : CpuSystem C :=
  {system with thread := Function.update system.thread p thread}

def setStage (system : CpuSystem C) (p : Fin NPROC) (stage : SchedStage) : CpuSystem C :=
  system.setThread p {system.thread p with stage}

def withTable (system : CpuSystem C) (table : Ptable) : CpuSystem C := {system with table}

def withLock (system : CpuSystem C) (lock : Option C) : CpuSystem C := {system with lock}

/-- The call `release(&ptable.lock)` checks that its processor holds the lock. -/
def release (system : CpuSystem C) (c : C) : Except CpuHalt (CpuSystem C) :=
  if system.lock = some c then .ok (system.withLock none) else .error (.panic "release")

/-- The loop of the scheduler tests the next slot of the table, or ends. -/
def scanNext (system : CpuSystem C) (c : C) (index : Nat) : Except CpuHalt (CpuSystem C) :=
  let cpu := system.cpu c
  if inside : index < NPROC then
    if system.state ⟨index, inside⟩ = .runnable then
      .ok (system.setCpu c {cpu with proc := some ⟨index, inside⟩, place := .chosen ⟨index, inside⟩})
    else .ok (system.setCpu c {cpu with place := .scanning (index + 1)})
  else (system.release c).map fun released => released.setCpu c {cpu with place := .idle}

/-- The call `switchuvm(p)` loads the page table of the process. -/
def switchuvm (system : CpuSystem C) (c : C) (p : Fin NPROC) : Except CpuHalt (CpuSystem C) :=
  match system.pgdir p with
  | none => .error (.panic "switchuvm: no pgdir")
  | some frame => .ok (system.setCpu c {system.cpu c with cr3 := some frame, place := .loaded p})

/-- The call of `swtch` in the scheduler continues at the saved context on the stack of the process. -/
def swtchProc (system : CpuSystem C) (c : C) (p : Fin NPROC) : Except CpuHalt (CpuSystem C) :=
  match (system.thread p).stage with
  | .parked back =>
    .ok ((system.setStage p (.resumed back)).setCpu c
      {system.cpu c with stack := system.kstack p, place := .running p})
  | _ => .error .blocked

/-- The function `sched` continues at the saved context of the scheduler. -/
def sched (system : CpuSystem C) (c : C) (slot p : Fin NPROC) (back : SchedReturn) :
    Except CpuHalt (CpuSystem C) :=
  if system.lock ≠ some c then .error (.panic "sched ptable.lock")
  else if system.state p = .running then .error (.panic "sched running")
  else
    .ok ((system.setStage p (.parked back)).setCpu c {system.cpu c with stack := none, place := .returned slot})

def setUse (system : CpuSystem C) (frame : Nat) (use : Option FrameUse) : CpuSystem C :=
  {system with kmem := Function.update system.kmem frame use}

/-- The call `kfree` of a frame that a field of the process may name. -/
def kfree (system : CpuSystem C) : Option Nat → CpuSystem C
  | none => system
  | some frame => system.setUse frame none

/-- The function `wait` frees the stack and the page table of an exited child and clears its slot. -/
def collect (system : CpuSystem C) (child : Fin NPROC) : CpuSystem C :=
  let freed := (system.kfree (system.kstack child)).kfree (system.pgdir child)
  {freed with
    kstack := Function.update system.kstack child none
    table := system.table.reap child}

/-- One round of the loop in `wait`. -/
def wait (system : CpuSystem C) (p : Fin NPROC) : CpuSystem C :=
  match system.table.scan p with
  | .reaps child => (system.collect child).setStage p .releasing
  | .fails => system.setStage p .releasing
  | .sleeps => (system.withTable (system.table.sleep p (.proc p))).setStage p (.switching .wait)

/-- The section of `allocproc`. -/
def allocproc (system : CpuSystem C) (p : Fin NPROC) : CpuSystem C :=
  match system.table.allocproc with
  | none => system.setStage p .releasing
  | some (np, table) => (system.withTable table).setThread p ⟨.stacking np, .releasing⟩

/-- The section of a call under `ptable.lock`. -/
def locked (system : CpuSystem C) (p : Fin NPROC) : LockedCall → CpuSystem C
  | .yield => (system.withTable (system.table.setState p .runnable)).setStage p (.switching .release)
  | .sleep addr => (system.withTable (system.table.sleep p (.other addr))).setStage p (.switching .sleep)
  | .wakeup addr => (system.withTable (system.table.wakeup1 (.other addr))).setStage p .releasing
  | .exit => (system.withTable (system.table.exit system.initproc p)).setStage p (.switching .exit)
  | .wait => system.wait p
  | .fork => system.allocproc p
  | .kill pid => (system.withTable (system.table.kill pid).2).setStage p .releasing

/-- The code after `sched`. -/
def resume (system : CpuSystem C) (c : C) (p : Fin NPROC) : SchedReturn → Except CpuHalt (CpuSystem C)
  | .release => (system.release c).map (·.setStage p .free)
  | .sleep => .ok ((system.withTable (system.table.tidy p)).setStage p .releasing)
  | .wait => .ok ((system.withTable (system.table.tidy p)).setStage p (.entered .wait))
  | .exit => .error (.panic "zombie exit")

/-- A process with `ptable.lock` continues. -/
def advanceThread (system : CpuSystem C) (c : C) (slot p : Fin NPROC) : Except CpuHalt (CpuSystem C) :=
  match (system.thread p).stage with
  | .entered call => .ok (system.locked p call)
  | .switching back => system.sched c slot p back
  | .resumed back => system.resume c p back
  | .releasing => (system.release c).map (·.setStage p .free)
  | .free | .parked _ => .error .blocked

/-- A process enters a call. An interrupt can call `yield` between the steps of `fork`. -/
def enter (system : CpuSystem C) (c : C) (p : Fin NPROC) (call : LockedCall) : Except CpuHalt (CpuSystem C) :=
  if call = .exit ∧ p = system.initproc then .error (.panic "init exiting")
  else if (system.thread p).work = .none ∨ call = .yield then
    if system.lock = none then .ok ((system.withLock (some c)).setStage p (.entered call)) else .error .blocked
  else .error .blocked

/-- A failed `fork` gives the slot back. -/
def giveBack (system : CpuSystem C) (p np : Fin NPROC) : CpuSystem C :=
  (system.withTable (system.table.setState np .unused)).setThread p ⟨.none, .free⟩

/-- The new process gets its stack, and its context continues at `forkret`. -/
def stacked (system : CpuSystem C) (p np : Fin NPROC) (frame : Nat) : CpuSystem C :=
  ({system.setUse frame (some (.stack np)) with
    kstack := Function.update system.kstack np (some frame)}.setThread np ⟨.none, .parked .release⟩).setThread p
      ⟨.copying np, .free⟩

/-- The rest of `allocproc` after its section. The allocator returns a free frame or fails. -/
def stack (system : CpuSystem C) (p np : Fin NPROC) : Option Nat → Except CpuHalt (CpuSystem C)
  | none => .ok ({system with kstack := Function.update system.kstack np none}.giveBack p np)
  | some frame => if system.kmem frame = none then .ok (system.stacked p np frame) else .error .blocked

/-- A failure of `copyuvm` in `fork` frees the stack of the new process. -/
def uncopied (system : CpuSystem C) (np : Fin NPROC) : CpuSystem C :=
  {system.kfree (system.kstack np) with
    pgdir := Function.update system.pgdir np none
    kstack := Function.update system.kstack np none}

/-- The new process gets its page table and its parent. -/
def copied (system : CpuSystem C) (p np : Fin NPROC) (frame : Nat) : CpuSystem C :=
  {system.setUse frame (some (.table np)) with
    pgdir := Function.update system.pgdir np (some frame)
    table := system.table.set np {system.table.proc np with parent := some p}}.setThread p ⟨.starting np, .free⟩

/-- The call of `copyuvm` in `fork`. -/
def copyuvm (system : CpuSystem C) (p np : Fin NPROC) : Option Nat → Except CpuHalt (CpuSystem C)
  | none => .ok ((system.uncopied np).giveBack p np)
  | some frame => if system.kmem frame = none then .ok (system.copied p np frame) else .error .blocked

/-- The child becomes runnable. -/
def start (system : CpuSystem C) (p np : Fin NPROC) : CpuSystem C :=
  (system.withTable (system.table.setState np .runnable)).setThread p ⟨.none, .free⟩

/-- The process of a processor takes a step. -/
def runThread (system : CpuSystem C) (c : C) (slot p : Fin NPROC) (act : CpuAct) : Except CpuHalt (CpuSystem C) :=
  match act, system.thread p with
  | .advance, _ => system.advanceThread c slot p
  | .call call, ⟨_, .free⟩ => system.enter c p call
  | .kalloc frame, ⟨.stacking np, .free⟩ => system.stack p np frame
  | .copyuvm frame, ⟨.copying np, .free⟩ => system.copyuvm p np frame
  | .start, ⟨.starting np, .free⟩ => .ok (system.start p np)
  | _, _ => .error .blocked

/-- The scheduler of a processor takes a step. -/
def runScheduler (system : CpuSystem C) (c : C) : SchedulerPlace → Except CpuHalt (CpuSystem C)
  | .idle =>
    if system.lock = none then
      .ok ((system.withLock (some c)).setCpu c {system.cpu c with place := .scanning 0})
    else .error .blocked
  | .scanning index => system.scanNext c index
  | .chosen p => system.switchuvm c p
  | .loaded p =>
    .ok ((system.withTable (system.table.setState p .running)).setCpu c {system.cpu c with place := .marked p})
  | .marked p => system.swtchProc c p
  | .returned p => .ok (system.setCpu c {system.cpu c with cr3 := none, place := .unloaded p})
  | .unloaded p => .ok (system.setCpu c {system.cpu c with proc := none, place := .scanning (p.val + 1)})
  | .running _ => .error .blocked

/-- A device interrupt calls `wakeup` on a processor without a spin lock. -/
def interrupt (system : CpuSystem C) (addr : BitVec 64) : Except CpuHalt (CpuSystem C) :=
  if system.lock = none then .ok (system.withTable (system.table.wakeup1 (.other addr))) else .error .blocked

/-- A processor takes a step. The code of a process reads its process from the processor. -/
def step (system : CpuSystem C) (event : C × CpuAct) : Except CpuHalt (CpuSystem C) :=
  match event.2, (system.cpu event.1).place, (system.cpu event.1).proc with
  | .interrupt addr, _, _ => system.interrupt addr
  | act, .running slot, some p => system.runThread event.1 slot p act
  | .advance, place, _ => system.runScheduler event.1 place
  | _, _, _ => .error .blocked

/-- The first process has a stack and a page table after `userinit`, and the processors start their schedulers. -/
def initial : CpuSystem C where
  table := Ptable.set ⟨fun _ => .zero, 2⟩ ProcSystem.firstSlot {ProcSlot.zero with state := .runnable, pid := 1}
  initproc := ProcSystem.firstSlot
  kstack := Function.update (fun _ => none) ProcSystem.firstSlot (some 0)
  pgdir := Function.update (fun _ => none) ProcSystem.firstSlot (some 1)
  thread := fun _ => ⟨.none, .parked .release⟩
  kmem := fun frame =>
    if frame = 0 then some (.stack ProcSystem.firstSlot)
    else if frame = 1 then some (.table ProcSystem.firstSlot) else none
  lock := none
  cpu := fun _ => ⟨none, none, none, .idle⟩

/-- An interleaving runs the steps of the processors. -/
def interleave (events : List (C × CpuAct)) : Except CpuHalt (CpuSystem C) := Library.runEvents step events initial

end CpuSystem
end Xv6
