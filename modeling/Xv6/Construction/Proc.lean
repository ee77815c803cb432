import Xv6.Library.EventRun
import Mathlib.Logic.Function.Basic

namespace Xv6

def NPROC : Nat := 64

theorem NPROC_pos : 0 < NPROC := by decide

theorem one_lt_NPROC : 1 < NPROC := by decide

inductive ProcState where
  | unused
  | embryo
  | sleeping
  | runnable
  | running
  | zombie
  deriving DecidableEq

/-- A channel is an address. The function `wait` sleeps on the address of a process. -/
inductive Chan where
  | null
  | proc (p : Fin NPROC)
  | other (addr : BitVec 64)
  deriving DecidableEq

/-- The fields of `struct proc` that `proc.c` tests or changes under `ptable.lock`. -/
structure ProcSlot where
  state : ProcState
  pid : BitVec 32
  parent : Option (Fin NPROC)
  chan : Chan
  killed : Bool

def ProcSlot.zero : ProcSlot := ⟨.unused, 0, none, .null, false⟩

/-- The address that a parent pointer holds. -/
def parentChan : Option (Fin NPROC) → Chan
  | none => .null
  | some p => .proc p

structure Ptable where
  proc : Fin NPROC → ProcSlot
  nextpid : BitVec 32

namespace Ptable

def set (table : Ptable) (p : Fin NPROC) (value : ProcSlot) : Ptable :=
  {table with proc := Function.update table.proc p value}

def setState (table : Ptable) (p : Fin NPROC) (state : ProcState) : Ptable :=
  table.set p {table.proc p with state}

/-- The slot becomes an embryo with the next number. -/
def take (table : Ptable) (p : Fin NPROC) : Ptable :=
  {table.set p {table.proc p with state := .embryo, pid := table.nextpid} with nextpid := table.nextpid + 1}

/-- The section of `allocproc` under `ptable.lock` takes the first unused slot. -/
def allocproc (table : Ptable) : Option (Fin NPROC × Ptable) :=
  match (List.finRange NPROC).find? fun p => (table.proc p).state = .unused with
  | none => none
  | some p => some (p, table.take p)

def wakeup1 (table : Ptable) (chan : Chan) : Ptable :=
  {table with proc := fun p =>
    if (table.proc p).state = .sleeping ∧ (table.proc p).chan = chan then
      {table.proc p with state := .runnable}
    else table.proc p}

/-- One iteration of the loop in `exit` that passes abandoned children to init. -/
def passChild (initproc proc : Fin NPROC) (table : Ptable) (p : Fin NPROC) : Ptable :=
  if (table.proc p).parent = some proc then
    let passed := table.set p {table.proc p with parent := some initproc}
    if (table.proc p).state = .zombie then passed.wakeup1 (.proc initproc) else passed
  else table

/-- The section of `exit` under `ptable.lock`. -/
def exit (table : Ptable) (initproc proc : Fin NPROC) : Ptable :=
  ((List.finRange NPROC).foldl (passChild initproc proc)
    (table.wakeup1 (parentChan (table.proc proc).parent))).setState proc .zombie

inductive WaitScan where
  | reaps (child : Fin NPROC)
  | fails
  | sleeps

/-- The scan of `wait` finds the first exited child, or decides whether to sleep. -/
def scan (table : Ptable) (proc : Fin NPROC) : WaitScan :=
  match (List.finRange NPROC).find? fun p =>
    (table.proc p).parent = some proc ∧ (table.proc p).state = .zombie with
  | some child => .reaps child
  | none =>
    if (∀ p, (table.proc p).parent ≠ some proc) ∨ (table.proc proc).killed = true then .fails else .sleeps

/-- The function `wait` clears the slot of an exited child. -/
def reap (table : Ptable) (child : Fin NPROC) : Ptable :=
  table.set child {table.proc child with pid := 0, parent := none, killed := false, state := .unused}

/-- The section of `sleep` under `ptable.lock`. -/
def sleep (table : Ptable) (proc : Fin NPROC) (chan : Chan) : Ptable :=
  table.set proc {table.proc proc with chan, state := .sleeping}

/-- A process that runs again after `sleep` clears its channel. -/
def tidy (table : Ptable) (proc : Fin NPROC) : Ptable := table.set proc {table.proc proc with chan := .null}

/-- The scan of `kill` compares the number of every slot. -/
def kill (table : Ptable) (pid : BitVec 32) : BitVec 32 × Ptable :=
  match (List.finRange NPROC).find? fun p => (table.proc p).pid = pid with
  | some p =>
    (0, table.set p {table.proc p with
      killed := true
      state := if (table.proc p).state = .sleeping then .runnable else (table.proc p).state})
  | none => (-1, table)

end Ptable

/-- Each process is at one of these places of the kernel. The place `out` has the result of the last call. A process
can sleep on other channels there and in `exit`. -/
inductive ProcPlace where
  | out (ret : BitVec 32)
  | allocated (np : Fin NPROC)
  | copying (np : Fin NPROC)
  | starting (np : Fin NPROC)
  | exiting
  | waiting
  | asleep (ret : BitVec 32)
  | exitAsleep

/-- The history names a process by the number of its allocation. -/
inductive ProcRecord where
  | forked (child parent : Nat)
  | exited (child : Nat) (pid : BitVec 32)
  | reaped (child parent : Nat) (pid : BitVec 32)
  deriving DecidableEq

/-- The system has the process table, the place of each process and a record of the past. -/
structure ProcSystem where
  table : Ptable
  initproc : Fin NPROC
  place : Fin NPROC → ProcPlace
  serial : Fin NPROC → Nat
  births : Nat
  history : List ProcRecord

/-- A running process takes one section of `ptable.lock`, or one write of `fork` outside of the lock. -/
inductive ProcAct where
  | fork
  | kalloc (succeeds : Bool)
  | copyuvm (succeeds : Bool)
  | start
  | exit
  | leave
  | wait
  | kill (pid : BitVec 32)
  | sleep (addr : BitVec 64)
  | yield

/-- The events are the steps of the running processes, wakeups on other channels and the choices of a scheduler. -/
inductive ProcEvent where
  | run (p : Fin NPROC) (act : ProcAct)
  | wakeup (addr : BitVec 64)
  | schedule (p : Fin NPROC)

/-- A blocked event is not possible in the current state. -/
inductive ProcHalt where
  | blocked
  | initExiting

namespace ProcSystem

def state (system : ProcSystem) (p : Fin NPROC) : ProcState := (system.table.proc p).state

def parent (system : ProcSystem) (p : Fin NPROC) : Option (Fin NPROC) := (system.table.proc p).parent

def moveTo (system : ProcSystem) (p : Fin NPROC) (place : ProcPlace) : ProcSystem :=
  {system with place := Function.update system.place p place}

def withTable (system : ProcSystem) (table : Ptable) : ProcSystem := {system with table}

def record (system : ProcSystem) (entry : ProcRecord) : ProcSystem :=
  {system with history := system.history ++ [entry]}

/-- A new process gets the next number of the record. -/
def bear (system : ProcSystem) (np : Fin NPROC) : ProcSystem :=
  {system with
    serial := Function.update system.serial np system.births
    births := system.births + 1}

/-- The call `fork` begins with a slot of the table. -/
def fork (system : ProcSystem) (p : Fin NPROC) : ProcSystem :=
  match system.table.allocproc with
  | none => system.moveTo p (.out (-1))
  | some (np, table) => ((system.withTable table).bear np).moveTo p (.allocated np)

/-- A failed `fork` gives the slot back without the lock. -/
def giveBack (system : ProcSystem) (p np : Fin NPROC) : ProcSystem :=
  (system.withTable (system.table.setState np .unused)).moveTo p (.out (-1))

/-- The copy of the memory is complete, and the child gets its parent. -/
def adopt (system : ProcSystem) (p np : Fin NPROC) : ProcSystem :=
  (system.withTable (system.table.set np {system.table.proc np with parent := some p})).moveTo p (.starting np)

/-- The child becomes runnable, and both processes return from `fork`. -/
def start (system : ProcSystem) (p np : Fin NPROC) : ProcSystem :=
  (((system.withTable (system.table.setState np .runnable)).record
    (.forked (system.serial np) (system.serial p))).moveTo np (.out 0)).moveTo p (.out (system.table.proc np).pid)

/-- The last section of `exit`. -/
def leave (system : ProcSystem) (p : Fin NPROC) : ProcSystem :=
  ((system.withTable (system.table.exit system.initproc p)).record
    (.exited (system.serial p) (system.table.proc p).pid)).moveTo p (.out 0)

/-- The call `wait` returns the number of an exited child. -/
def collect (system : ProcSystem) (p child : Fin NPROC) : ProcSystem :=
  ((system.withTable (system.table.reap child)).record
    (.reaped (system.serial child) (system.serial p) (system.table.proc child).pid)).moveTo p
      (.out (system.table.proc child).pid)

/-- One round of the loop in `wait`. -/
def wait (system : ProcSystem) (p : Fin NPROC) : ProcSystem :=
  match system.table.scan p with
  | .reaps child => system.collect p child
  | .fails => system.moveTo p (.out (-1))
  | .sleeps => (system.withTable (system.table.sleep p (.proc p))).moveTo p .waiting

/-- The scheduler switches to a runnable process. A process in `wait` scans again before it gives up the lock. -/
def schedule (system : ProcSystem) (p : Fin NPROC) : ProcSystem :=
  let running := system.withTable (system.table.setState p .running)
  match system.place p with
  | .waiting => (running.withTable (running.table.tidy p)).wait p
  | .asleep ret => (running.withTable (running.table.tidy p)).moveTo p (.out ret)
  | .exitAsleep => (running.withTable (running.table.tidy p)).moveTo p .exiting
  | _ => running

/-- A running process takes a step at its place. -/
def act (system : ProcSystem) (p : Fin NPROC) : ProcAct → ProcPlace → Except ProcHalt ProcSystem
  | .fork, .out _ => .ok (system.fork p)
  | .kalloc true, .allocated np => .ok (system.moveTo p (.copying np))
  | .kalloc false, .allocated np => .ok (system.giveBack p np)
  | .copyuvm true, .copying np => .ok (system.adopt p np)
  | .copyuvm false, .copying np => .ok (system.giveBack p np)
  | .start, .starting np => .ok (system.start p np)
  | .exit, .out _ => if p = system.initproc then .error .initExiting else .ok (system.moveTo p .exiting)
  | .leave, .exiting => .ok (system.leave p)
  | .wait, .out _ => .ok (system.wait p)
  | .kill pid, .out _ =>
    .ok ((system.withTable (system.table.kill pid).2).moveTo p (.out (system.table.kill pid).1))
  | .sleep addr, .out ret =>
    .ok ((system.withTable (system.table.sleep p (.other addr))).moveTo p (.asleep ret))
  | .sleep addr, .exiting =>
    .ok ((system.withTable (system.table.sleep p (.other addr))).moveTo p .exitAsleep)
  | .yield, _ => .ok (system.withTable (system.table.setState p .runnable))
  | _, _ => .error .blocked

def step (system : ProcSystem) : ProcEvent → Except ProcHalt ProcSystem
  | .run p act => if system.state p = .running then system.act p act (system.place p) else .error .blocked
  | .wakeup addr => .ok (system.withTable (system.table.wakeup1 (.other addr)))
  | .schedule p => if system.state p = .runnable then .ok (system.schedule p) else .error .blocked

/-- The call of `allocproc` in `userinit` finds the first slot. -/
def firstSlot : Fin NPROC := ⟨0, NPROC_pos⟩

/-- The first process has the first number. -/
def initSerial : Nat := 1

/-- The table after `userinit` has the first process in its first slot. -/
def initial : ProcSystem where
  table := Ptable.set ⟨fun _ => .zero, 2⟩ firstSlot {ProcSlot.zero with state := .runnable, pid := 1}
  initproc := firstSlot
  place := fun _ => .out 0
  serial := fun _ => initSerial
  births := initSerial + 1
  history := []

/-- An interleaving runs its events from the table after `userinit`. -/
def interleave (events : List ProcEvent) : Except ProcHalt ProcSystem := Library.runEvents step events initial

end ProcSystem
end Xv6
