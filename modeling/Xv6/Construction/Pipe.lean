import Xv6.Library.EventRun
import Mathlib.Logic.Function.Basic

namespace Xv6

def PIPESIZE : Nat := 512

/-- The fields of `struct pipe` without its lock. The counters are unsigned 32-bit numbers. -/
structure Pipe where
  data : Nat → BitVec 8
  nread : BitVec 32
  nwrite : BitVec 32
  readopen : Bool
  writeopen : Bool

/-- The test of `piperead` for an empty buffer. -/
def Pipe.Empty (pipe : Pipe) : Prop := pipe.nread = pipe.nwrite

/-- The test of `pipewrite` for a full buffer. -/
def Pipe.Full (pipe : Pipe) : Prop := pipe.nwrite = pipe.nread + BitVec.ofNat 32 PIPESIZE

instance (pipe : Pipe) : Decidable pipe.Empty := inferInstanceAs (Decidable (_ = _))

instance (pipe : Pipe) : Decidable pipe.Full := inferInstanceAs (Decidable (_ = _))

/-- The statement `p->data[p->nwrite++ % PIPESIZE] = byte`. -/
def Pipe.store (pipe : Pipe) (byte : BitVec 8) : Pipe :=
  {pipe with
    data := Function.update pipe.data (pipe.nwrite.toNat % PIPESIZE) byte
    nwrite := pipe.nwrite + 1}

/-- The expression `p->data[p->nread++ % PIPESIZE]`. -/
def Pipe.load (pipe : Pipe) : BitVec 8 × Pipe :=
  (pipe.data (pipe.nread.toNat % PIPESIZE), {pipe with nread := pipe.nread + 1})

/-- The pipe that `pipealloc` sets up in a page of arbitrary contents. -/
def Pipe.alloc (page : Nat → BitVec 8) : Pipe := ⟨page, 0, 0, true, true⟩

inductive PipeCall where
  | write (addr : Nat → BitVec 8) (n : Int)
  | read (n : Int)
  | close (writable : Bool)

/-- The channels are the addresses of two fields of the pipe. -/
inductive PipeChan where
  | nread
  | nwrite
  deriving DecidableEq

/-- A writer sleeps at one index, and a reader sleeps before it has copied anything. -/
inductive PipeWait where
  | write (addr : Nat → BitVec 8) (n : Int) (i : Nat)
  | read (n : Int)

def PipeWait.chan : PipeWait → PipeChan
  | .write _ _ _ => .nwrite
  | .read _ => .nread

/-- After a wakeup a process sleeps, releases the lock or ends `pipeclose`. -/
inductive PipeNext where
  | sleep (wait : PipeWait)
  | leave (ret : Int)
  | drop

/-- Each process is at one of these places. The place `out` has the result of the last call. -/
inductive PipePlace where
  | out (ret : Option Int)
  | entering (call : PipeCall)
  | writing (addr : Nat → BitVec 8) (n : Int) (i : Nat)
  | storing (addr : Nat → BitVec 8) (n : Int) (i : Nat)
  | reading (n : Int)
  | copying (n : Int) (bytes : List (BitVec 8))
  | loading (n : Int) (bytes : List (BitVec 8))
  | closing (writable : Bool)
  | waking (chan : PipeChan) (next : PipeNext)
  | falling (wait : PipeWait)
  | asleep (wait : PipeWait)
  | woken (wait : PipeWait)
  | leaving (ret : Int)
  | dropping

/-- The system has one pipe with its lock and any number of processes. The lists record all bytes that were
stored and copied out. -/
structure PipeSystem where
  pipe : Pipe
  lock : Option Nat
  freed : Bool
  killed : Nat → Bool
  place : Nat → PipePlace
  stored : List (BitVec 8)
  copied : List (BitVec 8)

/-- A process calls a function, takes the lock, or takes its next step while it holds the lock. -/
inductive PipeEvent where
  | call (pid : Nat) (call : PipeCall)
  | acquire (pid : Nat)
  | advance (pid : Nat)
  | kill (pid : Nat)

/-- A blocked event is not possible at the current place of its process. -/
inductive PipeHalt where
  | blocked

namespace PipeSystem

def moveTo (system : PipeSystem) (pid : Nat) (place : PipePlace) : PipeSystem :=
  {system with place := Function.update system.place pid place}

def release (system : PipeSystem) : PipeSystem := {system with lock := none}

/-- A process that sleeps on the channel becomes runnable. -/
def wake (chan : PipeChan) : PipePlace → PipePlace
  | .asleep wait => if wait.chan = chan then .woken wait else .asleep wait
  | place => place

/-- The call `wakeup` is one section of `ptable.lock`. -/
def wakeup (system : PipeSystem) (chan : PipeChan) : PipeSystem :=
  {system with place := fun pid => wake chan (system.place pid)}

/-- The call `kill` is one section of `ptable.lock`. It wakes a sleeping process. -/
def kill (system : PipeSystem) (pid : Nat) : PipeSystem :=
  {system with
    killed := Function.update system.killed pid true
    place := Function.update system.place pid (match system.place pid with
      | .asleep wait => .woken wait
      | place => place)}

/-- The place where a call stands once it holds the lock. -/
def enter : PipeCall → PipePlace
  | .write addr n => .writing addr n 0
  | .read n => .reading n
  | .close writable => .closing writable

/-- A woken process tests its loop condition again. -/
def resume : PipeWait → PipePlace
  | .write addr n i => .writing addr n i
  | .read n => .reading n

def acquire (system : PipeSystem) (pid : Nat) (place : PipePlace) : Except PipeHalt PipeSystem :=
  if system.lock = none ∧ system.freed = false then
    .ok ({system with lock := some pid}.moveTo pid place)
  else .error .blocked

/-- The loop tests of `pipewrite`. An early return releases the lock without a wakeup. -/
def pipewrite (system : PipeSystem) (pid : Nat) (addr : Nat → BitVec 8) (n : Int) (i : Nat) : PipeSystem :=
  if i < n then
    if system.pipe.Full then
      if system.pipe.readopen = false ∨ system.killed pid = true then
        system.release.moveTo pid (.out (some (-1)))
      else system.moveTo pid (.waking .nread (.sleep (.write addr n i)))
    else system.moveTo pid (.storing addr n i)
  else system.moveTo pid (.waking .nread (.leave n))

def storeByte (system : PipeSystem) (pid : Nat) (addr : Nat → BitVec 8) (n : Int) (i : Nat) : PipeSystem :=
  {system with
    pipe := system.pipe.store (addr i)
    stored := system.stored ++ [addr i]}.moveTo pid (.writing addr n (i + 1))

/-- The first loop of `piperead` waits for a byte or for the end of the pipe. -/
def piperead (system : PipeSystem) (pid : Nat) (n : Int) : PipeSystem :=
  if system.pipe.Empty ∧ system.pipe.writeopen = true then
    if system.killed pid = true then
      system.release.moveTo pid (.out (some (-1)))
    else system.moveTo pid (.falling (.read n))
  else system.moveTo pid (.copying n [])

/-- The tests of the second loop of `piperead`. -/
def copyTest (system : PipeSystem) (pid : Nat) (n : Int) (bytes : List (BitVec 8)) : PipeSystem :=
  if bytes.length < n ∧ ¬system.pipe.Empty then
    system.moveTo pid (.loading n bytes)
  else system.moveTo pid (.waking .nwrite (.leave bytes.length))

def loadByte (system : PipeSystem) (pid : Nat) (n : Int) (bytes : List (BitVec 8)) : PipeSystem :=
  let (byte, pipe) := system.pipe.load
  {system with
    pipe
    copied := system.copied ++ [byte]}.moveTo pid (.copying n (bytes ++ [byte]))

def pipeclose (system : PipeSystem) (pid : Nat) (writable : Bool) : PipeSystem :=
  if writable then
    {system with pipe := {system.pipe with writeopen := false}}.moveTo pid (.waking .nread .drop)
  else
    {system with pipe := {system.pipe with readopen := false}}.moveTo pid (.waking .nwrite .drop)

/-- The end of `pipeclose` frees the page when both ends are closed. -/
def dropEnd (system : PipeSystem) (pid : Nat) : PipeSystem :=
  {system.release with
    freed := system.freed || !system.pipe.readopen && !system.pipe.writeopen}.moveTo pid (.out none)

def after : PipeNext → PipePlace
  | .sleep wait => .falling wait
  | .leave ret => .leaving ret
  | .drop => .dropping

/-- A process that holds the lock takes its next step. -/
def advance (system : PipeSystem) (pid : Nat) : Except PipeHalt PipeSystem :=
  match system.place pid with
  | .writing addr n i => .ok (system.pipewrite pid addr n i)
  | .storing addr n i => .ok (system.storeByte pid addr n i)
  | .reading n => .ok (system.piperead pid n)
  | .copying n bytes => .ok (system.copyTest pid n bytes)
  | .loading n bytes => .ok (system.loadByte pid n bytes)
  | .closing writable => .ok (system.pipeclose pid writable)
  | .waking chan next => .ok ((system.wakeup chan).moveTo pid (after next))
  | .falling wait => .ok (system.release.moveTo pid (.asleep wait))
  | .leaving ret => .ok (system.release.moveTo pid (.out (some ret)))
  | .dropping => .ok (system.dropEnd pid)
  | _ => .error .blocked

def step (system : PipeSystem) : PipeEvent → Except PipeHalt PipeSystem
  | .call pid call =>
    match system.place pid with
    | .out _ => .ok (system.moveTo pid (.entering call))
    | _ => .error .blocked
  | .acquire pid =>
    match system.place pid with
    | .entering call => system.acquire pid (enter call)
    | .woken wait => system.acquire pid (resume wait)
    | _ => .error .blocked
  | .advance pid => system.advance pid
  | .kill pid => .ok (system.kill pid)

/-- A new pipe that no process uses yet. -/
def initial (page : Nat → BitVec 8) (killed : Nat → Bool) : PipeSystem where
  pipe := .alloc page
  lock := none
  freed := false
  killed := killed
  place := fun _ => .out none
  stored := []
  copied := []

/-- An interleaving runs its events from a new pipe. -/
def interleave (page : Nat → BitVec 8) (killed : Nat → Bool) (events : List PipeEvent) :
    Except PipeHalt PipeSystem :=
  Library.runEvents step events (initial page killed)

end PipeSystem
end Xv6
