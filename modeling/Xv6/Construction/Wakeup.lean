import Xv6.Construction.Proc

namespace Xv6

/-- A sleeper is a process. A waker is a process or an interrupt handler. -/
inductive WakeActor where
  | proc (p : Fin NPROC)
  | handler (number : Nat)
  deriving DecidableEq

/-- The lock `ptable.lock` passes between a process and the scheduler of its processor. -/
inductive WakeHolder where
  | actor (actor : WakeActor)
  | scheduler
  deriving DecidableEq

/-- A sleeper tests the condition, takes `ptable.lock`, releases its lock, sleeps, runs again with `ptable.lock` and
takes its lock again. A waker sets the condition and calls `wakeup`. A process that yields keeps whether it was about
to take its lock again. -/
inductive WakePlace where
  | out
  | testing
  | falling
  | entered
  | asleep
  | resumed
  | retaking
  | body
  | setting
  | announcing
  | waking
  | woken
  | finishing
  | yielded (retaking : Bool)
  | rescheduled (retaking : Bool)
  deriving DecidableEq

/-- The lock `lk` is `ptable.lock` or another lock, and it protects the condition `c`. The flag `unannounced` records
that `c` became true other than by a waker. -/
structure WakeSystem where
  table : Ptable
  chan : Chan
  shared : Bool
  ptableLock : Option WakeHolder
  otherLock : Option WakeHolder
  c : Bool
  unannounced : Bool
  place : WakeActor → WakePlace

/-- An actor can also visit the code after the loop, where the holder of `lk` changes the condition. The sections of
`ptable.lock` of the scheduler, of `yield` and of calls that wake one process are steps too. -/
inductive WakeEvent where
  | sleeper (p : Fin NPROC)
  | waker (actor : WakeActor)
  | visit (actor : WakeActor)
  | advance (actor : WakeActor)
  | change (actor : WakeActor) (value : Bool)
  | schedule (p : Fin NPROC)
  | relinquish
  | yield (p : Fin NPROC)
  | kill (p : Fin NPROC)

inductive WakeHalt where
  | blocked

namespace WakeSystem

def lk (system : WakeSystem) : Option WakeHolder := if system.shared then system.ptableLock else system.otherLock

def setLk (system : WakeSystem) (holder : Option WakeHolder) : WakeSystem :=
  if system.shared then {system with ptableLock := holder} else {system with otherLock := holder}

def setPtable (system : WakeSystem) (holder : Option WakeHolder) : WakeSystem := {system with ptableLock := holder}

def withTable (system : WakeSystem) (table : Ptable) : WakeSystem := {system with table}

def moveTo (system : WakeSystem) (actor : WakeActor) (place : WakePlace) : WakeSystem :=
  {system with place := Function.update system.place actor place}

def state (system : WakeSystem) (p : Fin NPROC) : ProcState := (system.table.proc p).state

/-- An interrupt handler needs no process. -/
def Running (system : WakeSystem) : WakeActor → Prop
  | .proc p => system.state p = .running
  | .handler _ => True

instance (system : WakeSystem) : DecidablePred system.Running
  | .proc p => inferInstanceAs (Decidable (system.state p = .running))
  | .handler _ => inferInstanceAs (Decidable True)

def guarded (condition : Prop) [Decidable condition] (next : WakeSystem) : Except WakeHalt WakeSystem :=
  if condition then .ok next else .error .blocked

/-- The call `acquire(lk)`. -/
def acquireLk (system : WakeSystem) (actor : WakeActor) (place : WakePlace) : Except WakeHalt WakeSystem :=
  guarded (system.lk = none) ((system.setLk (some (.actor actor))).moveTo actor place)

/-- The call `acquire(&ptable.lock)`. -/
def acquirePtable (system : WakeSystem) (actor : WakeActor) (place : WakePlace) : Except WakeHalt WakeSystem :=
  guarded (system.ptableLock = none) ((system.setPtable (some (.actor actor))).moveTo actor place)

/-- The test of the loop. The call `sleep` takes `ptable.lock` unless it is `lk`. -/
def test (system : WakeSystem) (actor : WakeActor) : Except WakeHalt WakeSystem :=
  if system.c then .ok (system.moveTo actor .body)
  else if system.shared then .ok (system.moveTo actor .entered)
  else system.acquirePtable actor .falling

/-- The process goes to sleep, and the scheduler continues with `ptable.lock`. -/
def fallAsleep (system : WakeSystem) (p : Fin NPROC) : WakeSystem :=
  ((system.withTable (system.table.sleep p system.chan)).setPtable (some .scheduler)).moveTo (.proc p) .asleep

/-- The end of `sleep`. It keeps `ptable.lock` when this is `lk`. -/
def wakeUp (system : WakeSystem) (p : Fin NPROC) : WakeSystem :=
  let tidied := system.withTable (system.table.tidy p)
  if system.shared then tidied.moveTo (.proc p) .testing else (tidied.setPtable none).moveTo (.proc p) .retaking

/-- An actor takes the next step of its program. -/
def advance (system : WakeSystem) (actor : WakeActor) : Except WakeHalt WakeSystem :=
  match system.place actor, actor with
  | .testing, _ => system.test actor
  | .falling, _ => .ok ((system.setLk none).moveTo actor .entered)
  | .entered, .proc p => .ok (system.fallAsleep p)
  | .resumed, .proc p => .ok (system.wakeUp p)
  | .retaking, _ => system.acquireLk actor .testing
  | .body, _ => .ok ((system.setLk none).moveTo actor .out)
  | .setting, _ => .ok ({system with c := true, unannounced := false}.moveTo actor .announcing)
  | .announcing, _ =>
    if system.shared then .ok (system.moveTo actor .waking) else system.acquirePtable actor .waking
  | .waking, _ => .ok ((system.withTable (system.table.wakeup1 system.chan)).moveTo actor .woken)
  | .woken, _ =>
    .ok (if system.shared then system.moveTo actor .finishing else (system.setPtable none).moveTo actor .finishing)
  | .finishing, _ => .ok ((system.setLk none).moveTo actor .out)
  | .rescheduled retaking, _ =>
    .ok ((system.setPtable none).moveTo actor (if retaking then .retaking else .out))
  | _, _ => .error .blocked

/-- The code between the loop and the release changes the condition. -/
def change (system : WakeSystem) (value : Bool) : WakeSystem :=
  {system with c := value, unannounced := if value = true ∧ system.c = false then true else system.unannounced}

/-- A scheduler takes `ptable.lock` or still has it and runs a process, which continues with the lock. -/
def schedule (system : WakeSystem) (p : Fin NPROC) : Except WakeHalt WakeSystem :=
  let running := (system.withTable (system.table.setState p .running)).setPtable (some (.actor (.proc p)))
  match system.place (.proc p) with
  | .asleep => .ok (running.moveTo (.proc p) .resumed)
  | .yielded retaking => .ok (running.moveTo (.proc p) (.rescheduled retaking))
  | _ => .error .blocked

/-- A process without a spin lock yields its processor. -/
def yield (system : WakeSystem) (p : Fin NPROC) : Except WakeHalt WakeSystem :=
  let runnable := (system.withTable (system.table.setState p .runnable)).setPtable (some .scheduler)
  match system.place (.proc p) with
  | .out => .ok (runnable.moveTo (.proc p) (.yielded false))
  | .retaking => .ok (runnable.moveTo (.proc p) (.yielded true))
  | _ => .error .blocked

def step (system : WakeSystem) : WakeEvent → Except WakeHalt WakeSystem
  | .sleeper p =>
    if system.place (.proc p) = .out ∧ system.state p = .running then system.acquireLk (.proc p) .testing
    else .error .blocked
  | .waker actor =>
    if system.place actor = .out ∧ system.Running actor then system.acquireLk actor .setting else .error .blocked
  | .visit actor =>
    if system.place actor = .out ∧ system.Running actor then system.acquireLk actor .body else .error .blocked
  | .advance actor => if system.Running actor then system.advance actor else .error .blocked
  | .change actor value => guarded (system.place actor = .body) (system.change value)
  | .schedule p =>
    if (system.ptableLock = none ∨ system.ptableLock = some .scheduler) ∧ system.state p = .runnable then
      system.schedule p
    else .error .blocked
  | .relinquish => guarded (system.ptableLock = some .scheduler) (system.setPtable none)
  | .yield p => if system.ptableLock = none ∧ system.state p = .running then system.yield p else .error .blocked
  | .kill p =>
    guarded (system.ptableLock = none ∧ system.state p = .sleeping)
      (system.withTable (system.table.setState p .runnable))

end WakeSystem
end Xv6
