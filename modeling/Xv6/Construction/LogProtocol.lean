import Xv6.Library.EventRun
import Xv6.Construction.Log

namespace Xv6

/-- These are the panics of the logging layer. -/
inductive LogPanic where
  | tooBig
  | outside
  | committing
  deriving DecidableEq

def LogPanic.message : LogPanic → String
  | .tooBig => "too big a transaction"
  | .outside => "log_write outside of trans"
  | .committing => "log.committing"

/-- An event halts the system when it panics or stores past `log.lh.block`.
A blocked event is not possible at the current place of its process. -/
inductive LogHalt where
  | blocked
  | panic (reason : LogPanic)
  | overrun
  deriving DecidableEq

/-- Each process is at one of these places of the logging layer. -/
inductive LogPlace where
  | idle
  | sleeping
  | woken
  | running
  | appending (blockno : BlockNo) (data : Block)
  | committing
  | committed

/-- The system consists of the shared logging layer and the place of each process. -/
structure LogSystem where
  kernel : LogState
  place : Nat → LogPlace

/-- Every lock-protected section is one event. The limit tests of `log_write` precede its section. -/
inductive LogEvent where
  | beginOp (pid : Nat)
  | retry (pid : Nat)
  | logWriteTest (pid : Nat) (blockno : BlockNo) (data : Block)
  | logWriteAppend (pid : Nat) (blockno : BlockNo)
  | endOp (pid : Nat)
  | commit (pid : Nat)
  | finish (pid : Nat)

def LogSystem.moveTo (system : LogSystem) (pid : Nat) (place : LogPlace) : LogSystem :=
  {system with place := Function.update system.place pid place}

def LogSystem.setLog (system : LogSystem) (log : Log) : LogSystem :=
  {system with kernel := {system.kernel with log}}

def LogPlace.wake : LogPlace → LogPlace
  | .sleeping => .woken
  | place => place

/-- The call `wakeup(&log)` makes every sleeper runnable. -/
def LogSystem.wakeup (system : LogSystem) : LogSystem :=
  {system with place := fun pid => (system.place pid).wake}

/-- The loop body of `begin_op` sleeps or admits the operation. -/
def beginOp (system : LogSystem) (pid : Nat) : LogSystem :=
  let log := system.kernel.log
  if log.committing then
    system.moveTo pid .sleeping
  else if log.lh.n + (log.outstanding + 1) * MAXOPBLOCKS > LOGSIZE then
    system.moveTo pid .sleeping
  else
    (system.setLog {log with outstanding := log.outstanding + 1}).moveTo pid .running

/-- The search finds the position of the block number or the first unused position. -/
def LogHeader.search (lh : LogHeader) (blockno : BlockNo) : Nat := lh.block.findIdx (· == blockno)

/-- The log absorbs a block that it holds. A store past the array has no defined result. -/
def LogHeader.logWrite (lh : LogHeader) (blockno : BlockNo) : Option LogHeader :=
  if lh.search blockno = lh.n then
    if room : lh.n < LOGSIZE then
      some ⟨lh.block ++ [blockno], by simpa [n] using room⟩
    else none
  else some ⟨lh.block.set (lh.search blockno) blockno, by simpa using lh.fits⟩

/-- The limit tests run before the lock is taken. -/
def logWriteTest (system : LogSystem) (pid : Nat) (blockno : BlockNo) (data : Block) :
    Except LogHalt LogSystem :=
  let log := system.kernel.log
  if log.lh.n ≥ LOGSIZE ∨ (log.lh.n : Int) ≥ log.size - 1 then
    .error (.panic .tooBig)
  else if log.outstanding < 1 then
    .error (.panic .outside)
  else
    .ok (system.moveTo pid (.appending blockno data))

/-- The locked section records the block number and pins the buffer. -/
def logWriteAppend (system : LogSystem) (pid : Nat) (blockno : BlockNo) (data : Block) :
    Except LogHalt LogSystem :=
  match system.kernel.log.lh.logWrite blockno with
  | some lh =>
    .ok {kernel := {system.kernel with
            log := {system.kernel.log with lh}
            dirty := Function.update system.kernel.dirty blockno (some data)}
         place := Function.update system.place pid .running}
  | none => .error .overrun

/-- The last outstanding operation becomes the committer. -/
def endOp (system : LogSystem) (pid : Nat) : Except LogHalt LogSystem :=
  let log := {system.kernel.log with outstanding := system.kernel.log.outstanding - 1}
  if log.committing then
    .error (.panic .committing)
  else if log.outstanding = 0 then
    .ok ((system.setLog {log with committing := true}).moveTo pid .committing)
  else
    .ok ((system.setLog log).wakeup.moveTo pid .idle)

/-- The committer runs `commit` without holding the lock. -/
def commitOp (system : LogSystem) (pid : Nat) : LogSystem :=
  {system with kernel := commit system.kernel}.moveTo pid .committed

/-- The final section of `end_op` reopens the log. -/
def finishOp (system : LogSystem) (pid : Nat) : LogSystem :=
  (system.setLog {system.kernel.log with committing := false}).wakeup.moveTo pid .idle

/-- Each event continues its process from the place where that process stands. -/
def LogSystem.step (system : LogSystem) : LogEvent → Except LogHalt LogSystem
  | .beginOp pid =>
    match system.place pid with
    | .idle => .ok (beginOp system pid)
    | _ => .error .blocked
  | .retry pid =>
    match system.place pid with
    | .woken => .ok (beginOp system pid)
    | _ => .error .blocked
  | .logWriteTest pid blockno data =>
    match system.place pid with
    | .running => logWriteTest system pid blockno data
    | _ => .error .blocked
  | .logWriteAppend pid blockno =>
    match system.place pid with
    | .appending pending data =>
      if blockno = pending then logWriteAppend system pid blockno data else .error .blocked
    | _ => .error .blocked
  | .endOp pid =>
    match system.place pid with
    | .running => endOp system pid
    | _ => .error .blocked
  | .commit pid =>
    match system.place pid with
    | .committing => .ok (commitOp system pid)
    | _ => .error .blocked
  | .finish pid =>
    match system.place pid with
    | .committed => .ok (finishOp system pid)
    | _ => .error .blocked

/-- The recovery leaves an empty log on the disk that `mkfs` lays out. -/
def LogSystem.initial (disk : Disk) : LogSystem where
  kernel := boot Mkfs.sb.logstart Mkfs.sb.nlog.toInt disk
  place := fun _ => .idle

/-- An interleaving runs its events from the initial system. -/
def interleave (disk : Disk) (events : List LogEvent) : Except LogHalt LogSystem :=
  Library.runEvents LogSystem.step events (LogSystem.initial disk)

end Xv6
