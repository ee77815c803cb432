import Xv6.Library.EventRun
import Xv6.Library.LinkedList

namespace Xv6

/-- A user pointer is null at the address 0. -/
abbrev Ptr := BitVec 64

/-- These are the registers that `swtch` pushes and pops. -/
structure Registers where
  r15 : BitVec 64
  r14 : BitVec 64
  r13 : BitVec 64
  r12 : BitVec 64
  rbx : BitVec 64
  rbp : BitVec 64
  deriving DecidableEq

/-- Control runs on the stack of the host or on the stack of a coroutine. -/
inductive Thread where
  | host
  | co (coroutine : Ptr)
  deriving DecidableEq

/-- The saved `rip` leads to the entry of a function or back into a library function with its local
variables. The type `Code` holds the control points of the program that uses the library. A function that
returns into `co_exit` leaves it no place to return to. -/
inductive Rip (Code : Type) where
  | entry (func : Code)
  | coRun (back : Code)
  | coRunAll (tmp : Ptr) (back : Code)
  | coYield (back : Code)
  | coExit (tmp : Ptr) (back : Option Code)

/-- A context lies on the stack of the thread that saved it. The number tells its saves apart. -/
structure CoContext (Code : Type) where
  thread : Thread
  save : Nat
  regs : Registers
  rip : Rip Code

structure Coroutine (Code : Type) where
  context : Option (CoContext Code)
  next : Ptr
  stack : Ptr

/-- The running thread is in user code, with the last return value, or at the head of a library loop.
The two `Next` places follow the calls inside the loops of `co_run_all` and `co_exit`. -/
inductive CoControl (Code : Type) where
  | user (point : Code) (value : Option (BitVec 64))
  | newLoop (head co1 : Ptr) (back : Code)
  | runAllLoop (tmp : Ptr) (back : Code)
  | runAllNext (tmp : Ptr) (back : Code)
  | exitLoop (tmp prev : Ptr) (back : Option Code)
  | exitNext (tmp : Ptr) (back : Option Code)

/-- A switch to a context that is no longer on its stack goes astray on that stack. A blocked event is
not possible in the current state. -/
inductive CoHalt where
  | blocked
  | fault
  | astray (thread : Thread)
  deriving DecidableEq

/-- The memory holds the mapped `struct coroutine` values, and `owned` lists those that `malloc` returned.
A suspended thread has one live context. -/
structure CoMachine (Code : Type) where
  memory : Ptr → Option (Coroutine Code)
  owned : List Ptr
  hostContext : Option (CoContext Code)
  coCurrent : Ptr
  coList : Ptr
  running : Thread
  regs : Registers
  control : CoControl Code
  live : Thread → Option Nat
  saves : Nat

/-- The address of a context pointer variable. -/
inductive ContextSlot where
  | host
  | coroutine (p : Ptr)

/-- The result of `malloc` is an input. The garbage `prev` is the uninitialised variable of `co_exit`. -/
inductive CoCall (Code : Type) where
  | coNew (func : Code) (block : Option (Ptr × Coroutine Code)) (stack : Ptr) (garbage : Registers)
  | coRun
  | coRunAll
  | coYield
  | coExit (prev : Ptr)

/-- User code calls the library or returns from the function of a coroutine. A tick runs one library step. -/
inductive CoEvent (Code : Type) where
  | call (function : CoCall Code) (regs : Registers) (back : Code)
  | ret (regs : Registers) (prev : Ptr)
  | tick

section Coroutine
variable {Code : Type}

def Rip.control : Rip Code → CoControl Code
  | .entry func => .user func none
  | .coRun back => .user back (some 1)
  | .coRunAll tmp back => .runAllNext tmp back
  | .coYield back => .user back none
  | .coExit tmp back => .exitNext tmp back

namespace CoMachine

/-- A load through a null pointer faults. -/
def load (state : CoMachine Code) (p : Ptr) : Option (Coroutine Code) :=
  if p = 0 then none else state.memory p

def nextOf (state : CoMachine Code) (p : Ptr) : Option Ptr := (state.load p).map Coroutine.next

def contextOf (state : CoMachine Code) (p : Ptr) : Option (CoContext Code) :=
  (state.load p).bind Coroutine.context

def modify (state : CoMachine Code) (p : Ptr) (change : Coroutine Code → Coroutine Code) : CoMachine Code :=
  {state with memory := Function.update state.memory p ((state.memory p).map change)}

def storeContext (state : CoMachine Code) (context : CoContext Code) : ContextSlot → CoMachine Code
  | .host => {state with hostContext := some context}
  | .coroutine p => state.modify p fun co => {co with context := some context}

/-- A library function returns to user code. -/
def returns (state : CoMachine Code) (back : Code) (value : Option (BitVec 64)) : CoMachine Code :=
  {state with control := .user back value}

/-- The pops of `swtch` and its `retq` continue the thread of the context. -/
def resume (state : CoMachine Code) (context : CoContext Code) : CoMachine Code :=
  {state with
    running := context.thread
    regs := context.regs
    control := context.rip.control
    live := Function.update state.live context.thread none}

/-- The pushes of `swtch` save the running thread. -/
def suspend (state : CoMachine Code) (old : ContextSlot) (rip : Rip Code) : CoMachine Code :=
  {state.storeContext ⟨state.running, state.saves, state.regs, rip⟩ old with
    live := Function.update state.live state.running (some state.saves)
    saves := state.saves + 1}

/-- The function `swtch` saves the running thread through `old` and loads the context `new`. -/
def swtch (state : CoMachine Code) (old : ContextSlot) (new : Option (CoContext Code)) (rip : Rip Code) :
    Except CoHalt (CoMachine Code) :=
  match new with
  | none => .error .fault
  | some context =>
    let suspended := state.suspend old rip
    if suspended.live context.thread = some context.save then
      .ok (suspended.resume context)
    else
      .error (.astray context.thread)

/-- The call appends nothing to a nonempty list, because the final assignment changes only `head`.
The field `next` of the new block keeps the contents that `malloc` returned. -/
def coNew (state : CoMachine Code) (func : Code) (block : Option (Ptr × Coroutine Code)) (stack : Ptr)
    (garbage : Registers) (back : Code) : Except CoHalt (CoMachine Code) :=
  match block with
  | none => .ok (state.returns back (some 0))
  | some (co1, contents) =>
    if co1 = 0 ∨ co1 ∈ state.owned then
      .error .blocked
    else if stack = 0 then
      .ok ({state with memory := Function.update state.memory co1 (some {contents with stack})}.returns
        back (some 0))
    else
      let context : CoContext Code := ⟨.co co1, state.saves, garbage, .entry func⟩
      let created := {state with
        memory := Function.update state.memory co1 (some {contents with context := some context, stack})
        owned := co1 :: state.owned
        live := Function.update state.live (.co co1) (some state.saves)
        saves := state.saves + 1}
      if state.coList = 0 then
        .ok ({created with coList := co1}.returns back (some co1))
      else
        .ok {created with control := .newLoop state.coList co1 back}

/-- The switch inside `co_run` starts the first coroutine of the list. -/
def runFirst (state : CoMachine Code) (rip : Rip Code) : Except CoHalt (CoMachine Code) :=
  match state.load state.coList with
  | none => .error .fault
  | some co => {state with coCurrent := state.coList}.swtch .host co.context rip

def coRun (state : CoMachine Code) (back : Code) : Except CoHalt (CoMachine Code) :=
  if state.coList ≠ 0 then
    state.runFirst (.coRun back)
  else
    .ok (state.returns back (some 0))

def coRunAll (state : CoMachine Code) (back : Code) : Except CoHalt (CoMachine Code) :=
  if state.coList = 0 then
    .ok (state.returns back (some 0))
  else
    .ok {state with control := .runAllLoop state.coList back}

def coYield (state : CoMachine Code) (back : Code) : Except CoHalt (CoMachine Code) :=
  let tmp := state.coCurrent
  match state.load tmp with
  | none => .error .fault
  | some co =>
    if co.next ≠ 0 then
      match state.load co.next with
      | none => .error .fault
      | some following =>
        {state with coCurrent := co.next}.swtch (.coroutine tmp) following.context (.coYield back)
    else
      {state with coCurrent := 0}.swtch (.coroutine tmp) state.hostContext (.coYield back)

def exitReturns (state : CoMachine Code) : Option Code → Except CoHalt (CoMachine Code)
  | some back => .ok (state.returns back none)
  | none => .error (.astray state.running)

def coExit (state : CoMachine Code) (prev : Ptr) (back : Option Code) : Except CoHalt (CoMachine Code) :=
  if state.coCurrent = 0 then
    state.exitReturns back
  else
    .ok {state with control := .exitLoop state.coList prev back}

/-- The caller of `co_exit` leaves the list and switches. The context of `tmp` is its own old context. -/
def exitCurrent (state : CoMachine Code) (tmp prev : Ptr) (back : Option Code) (co : Coroutine Code) :
    Except CoHalt (CoMachine Code) :=
  if co.next ≠ 0 then
    if prev ≠ 0 then
      match state.load prev with
      | none => .error .fault
      | some _ =>
        let relinked := state.modify prev fun before => {before with next := co.next}
        {relinked with coList := co.next}.swtch (.coroutine state.coCurrent) co.context (.coExit tmp back)
    else
      {state with coList := co.next}.swtch (.coroutine state.coCurrent) co.context (.coExit tmp back)
  else
    {state with coList := 0}.swtch (.coroutine state.coCurrent) state.hostContext (.coExit tmp back)

/-- A tick runs one step of the library function that the running thread is in. -/
def tick (state : CoMachine Code) : Except CoHalt (CoMachine Code) :=
  match state.control with
  | .user _ _ => .error .blocked
  | .newLoop head co1 back =>
    match state.load head with
    | none => .error .fault
    | some co =>
      if co.next ≠ 0 then
        .ok {state with control := .newLoop co.next co1 back}
      else
        .ok (state.returns back (some co1))
  | .runAllLoop tmp back =>
    if tmp = 0 then
      .ok (state.returns back (some 1))
    else if state.coList ≠ 0 then
      state.runFirst (.coRunAll tmp back)
    else
      .ok {state with control := .runAllNext tmp back}
  | .runAllNext tmp back =>
    match state.load tmp with
    | none => .error .fault
    | some co => .ok {state with control := .runAllLoop co.next back}
  | .exitLoop tmp prev back =>
    if tmp = 0 then
      state.exitReturns back
    else
      match state.load tmp with
      | none => .error .fault
      | some co =>
        if tmp = state.coCurrent then
          state.exitCurrent tmp prev back co
        else
          .ok {state with control := .exitLoop co.next tmp back}
  | .exitNext tmp back =>
    match state.load tmp with
    | none => .error .fault
    | some co => .ok {state with control := .exitLoop co.next tmp back}

def call (state : CoMachine Code) (function : CoCall Code) (back : Code) : Except CoHalt (CoMachine Code) :=
  match function with
  | .coNew func block stack garbage => state.coNew func block stack garbage back
  | .coRun => state.coRun back
  | .coRunAll => state.coRunAll back
  | .coYield => state.coYield back
  | .coExit prev => state.coExit prev (some back)

/-- The return address of the function of a coroutine is `co_exit`. -/
def step (state : CoMachine Code) : CoEvent Code → Except CoHalt (CoMachine Code)
  | .call function regs back =>
    match state.control with
    | .user _ _ => {state with regs}.call function back
    | _ => .error .blocked
  | .ret regs prev =>
    match state.control, state.running with
    | .user _ _, .co _ => {state with regs}.coExit prev none
    | _, _ => .error .blocked
  | .tick => state.tick

/-- The host starts with empty globals over memory of arbitrary contents. -/
def initial (memory : Ptr → Option (Coroutine Code)) (regs : Registers) (start : Code) : CoMachine Code where
  memory
  owned := []
  hostContext := none
  coCurrent := 0
  coList := 0
  running := .host
  regs
  control := .user start none
  live := fun _ => none
  saves := 0

def run (events : List (CoEvent Code)) (state : CoMachine Code) : Except CoHalt (CoMachine Code) :=
  Library.runEvents step events state

end CoMachine
end Coroutine
end Xv6
