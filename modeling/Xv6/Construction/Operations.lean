import Xv6.Construction.Buffered
import Xv6.Construction.LogProtocol

namespace Xv6
open Library

/-- The device of the root file system. -/
def ROOTDEV : BitVec 32 := 1

/-- These are the panics of the disk driver and of `bwrite`. -/
inductive DiskPanic where
  | notLocked
  | nothingToDo
  | incorrectBlock
  | bwrite
  deriving DecidableEq

def DiskPanic.message : DiskPanic → String
  | .notLocked => "iderw: buf not locked"
  | .nothingToDo => "iderw: nothing to do"
  | .incorrectBlock => "incorrect blockno"
  | .bwrite => "bwrite"

/-- A process that calls `log_write` outside its own operation is not modelled further. -/
inductive OpHalt where
  | blocked
  | outside
  | cache (halt : BufHalt)
  | log (halt : LogHalt)
  | disk (reason : DiskPanic)
  | fs (reason : FsPanic)
  deriving DecidableEq

/-- The state that all processes share. -/
structure Shared where
  cache : Bcache
  log : Log
  disk : Disk

/-- What a step does to a block that other steps depend on. -/
inductive Access where
  | silent
  | modified (blockno : BlockNo)
  | logged (blockno : BlockNo)
  | wrote (caller : Writer) (blockno : BlockNo)
  deriving DecidableEq

/-- The rest of the program of a process. It can be inside `bget`, `brelse` or `log_write`. -/
inductive Task where
  | run (rest : BufM Unit)
  | acquiring (b : Fin NBUF) (rest : BufM Unit)
  | releasing (b : Fin NBUF) (rest : BufM Unit)
  | appending (b : Fin NBUF) (rest : BufM Unit)

def Task.done : Task := .run (.pure ())

namespace Shared

def buf (shared : Shared) (b : Fin NBUF) : Buf := shared.cache.buf b

def setBuf (shared : Shared) (b : Fin NBUF) (buf : Buf) : Shared := {shared with cache := shared.cache.setBuf b buf}

/-- The disk has no errors. The interrupt ends the request while the buffer is locked. -/
def iderw (shared : Shared) (b : Fin NBUF) : Except OpHalt Shared :=
  let buf := shared.buf b
  if buf.holder = none then .error (.disk .notLocked)
  else if buf.valid ∧ ¬buf.dirty then .error (.disk .nothingToDo)
  else if FSSIZE ≤ buf.blockno.toNat then .error (.disk .incorrectBlock)
  else if buf.dirty then
    .ok {shared.setBuf b {buf with valid := true, dirty := false} with
      disk := Function.update shared.disk buf.blockno buf.data}
  else .ok (shared.setBuf b {buf with valid := true, data := shared.disk buf.blockno})

def bwrite (shared : Shared) (b : Fin NBUF) : Except OpHalt Shared :=
  if (shared.buf b).holder = none then .error (.disk .bwrite)
  else (shared.setBuf b {shared.buf b with dirty := true}).iderw b

/-- The limit tests of `log_write` run before the lock is taken. -/
def logWriteTest (shared : Shared) : Except OpHalt Unit :=
  if shared.log.lh.n ≥ LOGSIZE ∨ (shared.log.lh.n : Int) ≥ shared.log.size - 1 then
    .error (.log (.panic .tooBig))
  else if shared.log.outstanding < 1 then .error (.log (.panic .outside))
  else .ok ()

/-- The locked section of `log_write` records the block number and pins the buffer. -/
def logWriteAppend (shared : Shared) (b : Fin NBUF) : Except OpHalt Shared :=
  match shared.log.lh.logWrite (shared.buf b).blockno with
  | some lh =>
    .ok {shared.setBuf b {shared.buf b with dirty := true} with log := {shared.log with lh}}
  | none => .error (.log .overrun)

/-- A process performs the next step of its program. -/
def act (shared : Shared) (inside : Bool) :
    (op : BufAct) → (op.Result → BufM Unit) → Except OpHalt (Access × Shared × Task)
  | .bget blockno, next =>
    match shared.cache.bget ROOTDEV blockno with
    | .ok (result, cache) => .ok (.silent, {shared with cache}, .acquiring result.buf (next result.buf))
    | .error halt => .error (.cache halt)
  | .look b, next => .ok (.silent, shared, .run (next (shared.buf b)))
  | .iderw b, next => (shared.iderw b).map fun after => (.silent, after, .run (next ()))
  | .store b data, next =>
    .ok (if inside then .modified (shared.buf b).blockno else .silent,
      shared.setBuf b {shared.buf b with data}, .run (next ()))
  | .logWrite b, next =>
    if inside then shared.logWriteTest.map fun _ => (.silent, shared, .appending b (next ()))
    else .error .outside
  | .bwrite caller b, next =>
    (shared.bwrite b).map fun after => (.wrote caller (shared.buf b).blockno, after, .run (next ()))
  | .brelse b, next =>
    if (shared.buf b).holder = none then .error (.cache (.panic .brelse))
    else .ok (.silent, {shared with cache := shared.cache.releasesleep b}, .releasing b (next ()))
  | .log, next => .ok (.silent, shared, .run (next shared.log))
  | .clear, next => .ok (.silent, {shared with log := {shared.log with lh := .empty}}, .run (next ()))
  | .panic reason, _ => .error (.fs reason)

/-- A process continues from the point of its program where it stands. -/
def advance (shared : Shared) (pid : Nat) (inside : Bool) : Task → Except OpHalt (Access × Shared × Task)
  | .run (.pure _) => .error .blocked
  | .run (.act op next) => shared.act inside op next
  | .acquiring b rest =>
    match shared.cache.acquiresleep b pid with
    | .ok cache => .ok (.silent, {shared with cache}, .run rest)
    | .error _ => .error .blocked
  | .releasing b rest => .ok (.silent, {shared with cache := shared.cache.brelse b}, .run rest)
  | .appending b rest =>
    (shared.logWriteAppend b).map fun after => (.logged (shared.buf b).blockno, after, .run rest)

end Shared

/-- Each process is outside an operation, asleep or just woken in `begin_op`, inside an operation or in `commit`. -/
inductive OpPlace where
  | outside (task : Task)
  | sleeping
  | woken
  | inside (task : Task)
  | committing (task : Task)

/-- The system consists of the super block, the device table, the shared state and the place of each process. -/
structure OpSystem where
  sb : Superblock
  devsw : Devsw
  shared : Shared
  place : Nat → OpPlace

/-- Every lock-protected section is one event. A process makes its calls one after another. -/
inductive OpEvent where
  | beginOp (pid : Nat)
  | retry (pid : Nat)
  | call (pid : Nat) (function : BufCall)
  | act (pid : Nat) (access : Access)
  | endOp (pid : Nat)
  | finish (pid : Nat)

namespace OpSystem

def moveTo (system : OpSystem) (pid : Nat) (place : OpPlace) : OpSystem :=
  {system with place := Function.update system.place pid place}

def setLog (system : OpSystem) (log : Log) : OpSystem :=
  {system with shared := {system.shared with log}}

/-- The call `wakeup(&log)` makes every sleeper runnable. -/
def wakeup (system : OpSystem) : OpSystem :=
  {system with place := fun pid =>
    match system.place pid with
    | .sleeping => .woken
    | place => place}

/-- The loop body of `begin_op` sleeps or admits the operation. -/
def beginOp (system : OpSystem) (pid : Nat) : OpSystem :=
  let log := system.shared.log
  if log.committing then system.moveTo pid .sleeping
  else if log.lh.n + (log.outstanding + 1) * MAXOPBLOCKS > LOGSIZE then system.moveTo pid .sleeping
  else (system.setLog {log with outstanding := log.outstanding + 1}).moveTo pid (.inside .done)

/-- The last outstanding operation starts the commit. -/
def endOp (system : OpSystem) (pid : Nat) : Except OpHalt OpSystem :=
  let log := {system.shared.log with outstanding := system.shared.log.outstanding - 1}
  if log.committing then .error (.log (.panic .committing))
  else if log.outstanding = 0 then
    .ok ((system.setLog {log with committing := true}).moveTo pid (.committing (.run BufM.commit)))
  else .ok ((system.setLog log).wakeup.moveTo pid (.outside .done))

/-- The final section of `end_op` reopens the log. -/
def finish (system : OpSystem) (pid : Nat) : OpSystem :=
  (system.setLog {system.shared.log with committing := false}).wakeup.moveTo pid (.outside .done)

/-- A process performs one step of its task. -/
def advance (system : OpSystem) (pid : Nat) (access : Access) (inside : Bool) (task : Task)
    (place : Task → OpPlace) : Except OpHalt OpSystem :=
  match system.shared.advance pid inside task with
  | .error halt => .error halt
  | .ok (actual, shared, rest) =>
    if actual = access then .ok ({system with shared}.moveTo pid (place rest)) else .error .blocked

/-- Each event continues its process from the place where that process stands. -/
def step (system : OpSystem) : OpEvent → Except OpHalt OpSystem
  | .beginOp pid =>
    match system.place pid with
    | .outside (.run (.pure _)) => .ok (system.beginOp pid)
    | _ => .error .blocked
  | .retry pid =>
    match system.place pid with
    | .woken => .ok (system.beginOp pid)
    | _ => .error .blocked
  | .call pid function =>
    match system.place pid with
    | .outside (.run (.pure _)) =>
      .ok (system.moveTo pid (.outside (.run (function.program system.sb system.devsw))))
    | .inside (.run (.pure _)) =>
      .ok (system.moveTo pid (.inside (.run (function.program system.sb system.devsw))))
    | _ => .error .blocked
  | .act pid access =>
    match system.place pid with
    | .outside task => system.advance pid access false task .outside
    | .inside task => system.advance pid access true task .inside
    | .committing task => system.advance pid access false task .committing
    | _ => .error .blocked
  | .endOp pid =>
    match system.place pid with
    | .inside (.run (.pure _)) => system.endOp pid
    | _ => .error .blocked
  | .finish pid =>
    match system.place pid with
    | .committing (.run (.pure _)) => .ok (system.finish pid)
    | _ => .error .blocked

/-- After the recovery the log is empty and no block is cached. -/
def initial (sb : Superblock) (devsw : Devsw) (disk : Disk) : OpSystem where
  sb := sb
  devsw := devsw
  shared := ⟨.binit, ⟨sb.logstart, sb.nlog.toInt, 0, false, .empty⟩, disk⟩
  place := fun _ => .outside .done

end OpSystem

/-- The blocks that were logged since the last commit. -/
def loggedSince (events : List OpEvent) : List BlockNo :=
  events.foldl (fun blocks event =>
    match event with
    | .act _ (.logged blockno) => blocks ++ [blockno]
    | .finish _ => []
    | _ => blocks) []

/-- The blocks that operations have modified and that no commit has installed since. -/
def modifiedSince (events : List OpEvent) : List BlockNo :=
  events.foldl (fun blocks event =>
    match event with
    | .act _ (.modified blockno) => blocks ++ [blockno]
    | .act _ (.wrote .installTrans blockno) => blocks.filter (· ≠ blockno)
    | _ => blocks) []

end Xv6
