import Xv6.Construction.Pipe
import Xv6.Construction.Proc
import Xv6.Construction.Console

namespace Xv6

/-- The second loop of `piperead` copies at most the given number of bytes. -/
def Pipe.copy (pipe : Pipe) : Nat → Nat × Pipe
  | 0 => (0, pipe)
  | left + 1 =>
    if pipe.Empty then (0, pipe)
    else
      let (count, after) := pipe.load.2.copy left
      (count + 1, after)

/-- The calls whose loops sleep. -/
inductive SleepCall where
  | piperead (n : Int)
  | pipewrite (addr : Nat → BitVec 8) (n : Int)
  | consoleread (n : Int)
  | sysSleep (n : BitVec 32)
  | wait

/-- The variables of a call at its loop. -/
inductive SleepFrame where
  | piperead (n : Int)
  | pipewrite (addr : Nat → BitVec 8) (n : Int) (i : Nat)
  | consoleread (n target : Int)
  | sysSleep (n ticks0 : BitVec 32)

/-- The spin locks that protect the loop conditions. -/
inductive SleepLock where
  | pipe
  | input
  | tickslock
  deriving DecidableEq

inductive SleepHolder where
  | free
  | target
  | other
  deriving DecidableEq

/-- The process is before one of these steps. It enters a call, tests the loop condition, tests its flag, wakes readers,
takes `ptable.lock` in `sleep`, is asleep, or takes its lock again. -/
inductive SleepPlace where
  | out (ret : BitVec 32)
  | enter (call : SleepCall)
  | loop (frame : SleepFrame)
  | test (frame : SleepFrame)
  | waking (frame : SleepFrame)
  | falling (frame : SleepFrame)
  | asleep (frame : SleepFrame)
  | woken (frame : SleepFrame)
  | waiting

/-- The addresses of the channels. -/
structure SleepChans where
  nread : BitVec 64
  nwrite : BitVec 64
  input : BitVec 64
  ticks : BitVec 64

/-- One process of the table runs calls that sleep, and all others share its data. -/
structure SleepSystem where
  table : Ptable
  target : Fin NPROC
  chans : SleepChans
  pipe : Pipe
  input : Input
  ticks : BitVec 32
  lock : SleepLock → SleepHolder
  place : SleepPlace

/-- The process calls a function or takes its next step. The others call `kill`, use the locks and the data under them,
and change the table in their sections of `ptable.lock`. -/
inductive SleepEvent where
  | call (call : SleepCall)
  | advance
  | schedule
  | yield
  | kill (pid : BitVec 32)
  | acquire (lock : SleepLock)
  | release (lock : SleepLock)
  | setPipe (pipe : Pipe)
  | setInput (input : Input)
  | setTicks (ticks : BitVec 32)
  | setTable (table : Ptable)

inductive SleepHalt where
  | blocked

def SleepFrame.lock : SleepFrame → SleepLock
  | .piperead _ | .pipewrite _ _ _ => .pipe
  | .consoleread _ _ => .input
  | .sysSleep _ _ => .tickslock

def SleepFrame.chan (chans : SleepChans) : SleepFrame → Chan
  | .piperead _ => .other chans.nread
  | .pipewrite _ _ _ => .other chans.nwrite
  | .consoleread _ _ => .other chans.input
  | .sysSleep _ _ => .other chans.ticks

namespace SleepSystem

def proc (system : SleepSystem) : ProcSlot := system.table.proc system.target

def moveTo (system : SleepSystem) (place : SleepPlace) : SleepSystem := {system with place}

def setLock (system : SleepSystem) (lock : SleepLock) (holder : SleepHolder) : SleepSystem :=
  {system with lock := Function.update system.lock lock holder}

def withTable (system : SleepSystem) (table : Ptable) : SleepSystem := {system with table}

/-- The process takes a free lock. -/
def acquire (system : SleepSystem) (lock : SleepLock) (place : SleepPlace) : Except SleepHalt SleepSystem :=
  if system.lock lock = .free then .ok ((system.setLock lock .target).moveTo place) else .error .blocked

/-- The process releases the lock of its loop and returns. -/
def leave (system : SleepSystem) (lock : SleepLock) (ret : BitVec 32) : SleepSystem :=
  (system.setLock lock .free).moveTo (.out ret)

/-- One round of the loop in `wait` is one section of `ptable.lock`. -/
def wait (system : SleepSystem) : SleepSystem :=
  match system.table.scan system.target with
  | .reaps child => (system.withTable (system.table.reap child)).moveTo (.out (system.table.proc child).pid)
  | .fails => system.moveTo (.out (-1))
  | .sleeps => (system.withTable (system.table.sleep system.target (.proc system.target))).moveTo .waiting

/-- The process begins a call. The other calls first take a lock. -/
def enter (system : SleepSystem) : SleepCall → Except SleepHalt SleepSystem
  | .piperead n => system.acquire .pipe (.loop (.piperead n))
  | .pipewrite addr n => system.acquire .pipe (.loop (.pipewrite addr n 0))
  | .consoleread n => system.acquire .input (.loop (.consoleread n n))
  | .sysSleep n => system.acquire .tickslock (.loop (.sysSleep n system.ticks))
  | .wait => .ok system.wait

/-- The test of the loop condition, and the code after the loop. -/
def loop (system : SleepSystem) : SleepFrame → SleepSystem
  | .piperead n =>
    if system.pipe.Empty ∧ system.pipe.writeopen = true then system.moveTo (.test (.piperead n))
    else
      let (count, pipe) := system.pipe.copy n.toNat
      ({system with pipe, table := system.table.wakeup1 (.other system.chans.nwrite)}).leave .pipe
        (BitVec.ofNat 32 count)
  | .pipewrite addr n i =>
    if i < n then
      if system.pipe.Full then system.moveTo (.test (.pipewrite addr n i))
      else {system with pipe := system.pipe.store (addr i)}.moveTo (.loop (.pipewrite addr n (i + 1)))
    else (system.withTable (system.table.wakeup1 (.other system.chans.nread))).leave .pipe (BitVec.ofInt 32 n)
  | .consoleread n target =>
    if 0 < n then
      if system.input.Waits then system.moveTo (.test (.consoleread n target))
      else
        match system.input.take n target with
        | (.stop left, input) => {system with input}.leave .input (BitVec.ofInt 32 (target - left))
        | (.more left, input) => {system with input}.moveTo (.loop (.consoleread left target))
    else system.leave .input (BitVec.ofInt 32 (target - n))
  | .sysSleep n ticks0 =>
    if system.ticks - ticks0 < n then system.moveTo (.test (.sysSleep n ticks0)) else system.leave .tickslock 0

/-- The test of `proc->killed`. The loop of `pipewrite` also tests the read end and then wakes the readers. -/
def test (system : SleepSystem) : SleepFrame → SleepSystem
  | .pipewrite addr n i =>
    if system.pipe.readopen = false ∨ system.proc.killed = true then system.leave .pipe (-1)
    else system.moveTo (.waking (.pipewrite addr n i))
  | frame => if system.proc.killed = true then system.leave frame.lock (-1) else system.moveTo (.falling frame)

/-- The running process takes its next step. The section of `sleep` releases the lock of the loop. -/
def advance (system : SleepSystem) : Except SleepHalt SleepSystem :=
  match system.place with
  | .enter call => system.enter call
  | .loop frame => .ok (system.loop frame)
  | .test frame => .ok (system.test frame)
  | .waking frame =>
    .ok ((system.withTable (system.table.wakeup1 (.other system.chans.nread))).moveTo (.falling frame))
  | .falling frame =>
    .ok (((system.withTable (system.table.sleep system.target (frame.chan system.chans))).setLock frame.lock
      .free).moveTo (.asleep frame))
  | .woken frame => system.acquire frame.lock (.loop frame)
  | .out _ | .asleep _ | .waiting => .error .blocked

/-- The scheduler runs the process. A process that was asleep clears its channel, and `wait` scans again. -/
def schedule (system : SleepSystem) : SleepSystem :=
  let running := system.withTable (system.table.setState system.target .running)
  match system.place with
  | .asleep frame => (running.withTable (running.table.tidy system.target)).moveTo (.woken frame)
  | .waiting => (running.withTable (running.table.tidy system.target)).wait
  | _ => running

/-- A process without a spin lock can lose its processor. -/
def preemptible : SleepPlace → Bool
  | .out _ | .enter _ | .woken _ => true
  | _ => false

/-- The sections of the others leave the flag and the number of the process alone and can only wake it. -/
def Allows (system : SleepSystem) (table : Ptable) : Prop :=
  (table.proc system.target).killed = system.proc.killed ∧ (table.proc system.target).pid = system.proc.pid ∧
    (table.proc system.target).chan = system.proc.chan ∧
    ((table.proc system.target).state = system.proc.state ∨
      system.proc.state = .sleeping ∧ (table.proc system.target).state = .runnable)

instance (system : SleepSystem) (table : Ptable) : Decidable (system.Allows table) :=
  inferInstanceAs (Decidable (_ ∧ _))

def guarded (condition : Prop) [Decidable condition] (next : SleepSystem) : Except SleepHalt SleepSystem :=
  if condition then .ok next else .error .blocked

def step (system : SleepSystem) : SleepEvent → Except SleepHalt SleepSystem
  | .call call =>
    match system.place with
    | .out _ => guarded (system.proc.state = .running) (system.moveTo (.enter call))
    | _ => .error .blocked
  | .advance => if system.proc.state = .running then system.advance else .error .blocked
  | .schedule => guarded (system.proc.state = .runnable) system.schedule
  | .yield =>
    guarded (system.proc.state = .running ∧ preemptible system.place = true)
      (system.withTable (system.table.setState system.target .runnable))
  | .kill pid => .ok (system.withTable (system.table.kill pid).2)
  | .acquire lock => guarded (system.lock lock = .free) (system.setLock lock .other)
  | .release lock => guarded (system.lock lock = .other) (system.setLock lock .free)
  | .setPipe pipe => guarded (system.lock .pipe = .other) {system with pipe}
  | .setInput input => guarded (system.lock .input = .other) {system with input}
  | .setTicks ticks => guarded (system.lock .tickslock = .other) {system with ticks}
  | .setTable table => guarded (system.Allows table) (system.withTable table)

end SleepSystem
end Xv6
