import Xv6.Construction.Coroutine

namespace Xv6
open Library CoMachine

section Switch
variable {Code : Type} {state s : CoMachine Code} {p q : Ptr} {nodes before after : List Ptr} {host : CoContext Code}
  {point : Code} {value : Option (BitVec 64)}

namespace CoMachine
variable {context : CoContext Code}

theorem load_of_ne (nonnull : p ≠ 0) : s.load p = s.memory p :=
  if_neg nonnull

@[simp] theorem load_null (s : CoMachine Code) : s.load 0 = none := if_pos rfl

theorem modify_load (s : CoMachine Code) (p q : Ptr) (change : Coroutine Code → Coroutine Code) :
    (s.modify p change).load q = if q = p then (s.load q).map change else s.load q := by
  by_cases null : q = 0
  · simp [load, null]
  · rw [load_of_ne null, load_of_ne null]
    by_cases same : q = p
    · subst same
      simp [modify]
    · simp [modify, same]

theorem modify_nextOf (s : CoMachine Code) (p q : Ptr) {change : Coroutine Code → Coroutine Code}
    (kept : ∀ co, (change co).next = co.next) : (s.modify p change).nextOf q = s.nextOf q := by
  rw [nextOf, modify_load]
  split
  · cases loaded : s.load q <;> simp [nextOf, loaded, kept]
  · rfl

@[simp] theorem suspend_nextOf (s : CoMachine Code) (old : ContextSlot) (rip : Rip Code) :
    (s.suspend old rip).nextOf = s.nextOf := by
  funext q
  cases old with
  | host => rfl
  | coroutine p => exact s.modify_nextOf p q fun _ => rfl

/-- A switch out of a coroutine stores its new context in its own slot. -/
theorem suspend_contextOf (s : CoMachine Code) (p q : Ptr) (rip : Rip Code) :
    (s.suspend (.coroutine p) rip).contextOf q =
      if q = p then (s.load q).map fun _ => ⟨s.running, s.saves, s.regs, rip⟩
      else s.contextOf q := by
  change ((s.modify p _).load q).bind Coroutine.context = _
  rw [modify_load]
  split
  · cases loaded : s.load q <;> simp
  · rfl

/-- A switch to the live context of another thread resumes that thread. -/
theorem swtch_live (old : ContextSlot) (rip : Rip Code) (other : context.thread ≠ s.running)
    (live : s.live context.thread = some context.save) :
    s.swtch old (some context) rip = .ok ((s.suspend old rip).resume context) := by
  have kept : (s.suspend old rip).live context.thread = some context.save := by
    simp [suspend, other, live]
  simp [swtch, kept]

/-- A switch to an older context of the running thread goes astray on its own stack. -/
theorem swtch_stale (old : ContextSlot) (rip : Rip Code) (own : context.thread = s.running)
    (older : context.save < s.saves) : s.swtch old (some context) rip = .error (.astray s.running) := by
  have lost : (s.suspend old rip).live context.thread ≠ some context.save := by
    simp only [suspend, own, Function.update_self, ne_eq, Option.some.injEq]
    omega
  rw [swtch, if_neg lost, own]

/-- After a switch the old thread is suspended at its new context, and the new thread has none. -/
theorem resume_live (s : CoMachine Code) (old : ContextSlot) (rip : Rip Code) (target : CoContext Code)
    {thread : Thread} (elsewhere : target.thread ≠ thread) :
    ((s.suspend old rip).resume target).live thread = if s.running = thread then some s.saves else s.live thread := by
  change Function.update (Function.update s.live s.running (some s.saves)) target.thread none thread = _
  rw [Function.update_of_ne elsewhere.symm]
  split
  case isTrue same => rw [same, Function.update_self]
  case isFalse ne => rw [Function.update_of_ne (Ne.symm ne)]

end CoMachine

/-- An observer sees the running thread at its control point and the globals of the library. -/
structure CoView (Code : Type) where
  thread : Thread
  regs : Registers
  control : CoControl Code
  coCurrent : Ptr
  coList : Ptr

def CoMachine.view (state : CoMachine Code) : CoView Code :=
  ⟨state.running, state.regs, state.control, state.coCurrent, state.coList⟩

/-- Every listed coroutine keeps its context on its own stack, and each one that does not run is
suspended there before its first instruction or inside `co_yield`. -/
structure CoReady (state : CoMachine Code) (nodes : List Ptr) : Prop where
  linked : Linked state.nextOf 0 state.coList nodes
  distinct : nodes.Nodup
  context : ∀ p ∈ nodes, ∃ context, state.contextOf p = some context ∧ context.thread = .co p ∧
    context.save < state.saves ∧ (state.running ≠ .co p →
      state.live (.co p) = some context.save ∧ ∃ point, context.rip.control = .user point none)

/-- The listed coroutine runs, and the host waits for it inside a switch of `co_run`. -/
structure CoTurn (state : CoMachine Code) (nodes : List Ptr) (p : Ptr) (host : CoContext Code) : Prop where
  ready : CoReady state nodes
  running : state.running = .co p
  current : state.coCurrent = p
  waiting : state.hostContext = some host
  thread : host.thread = .host
  live : state.live .host = some host.save

theorem CoReady.loaded (ready : CoReady s nodes) (member : p ∈ nodes) :
    ∃ co context, s.load p = some co ∧ co.context = some context ∧ s.contextOf p = some context := by
  obtain ⟨context, stored, _⟩ := ready.context p member
  cases loaded : s.load p with
  | none => simp [contextOf, loaded] at stored
  | some co =>
    have inside : co.context = some context := by simpa [contextOf, loaded] using stored
    exact ⟨co, context, rfl, inside, stored⟩

theorem CoReady.next {co : Coroutine Code} (ready : CoReady s (before ++ p :: after))
    (loaded : s.load p = some co) : co.next = after.headD 0 := by
  have link := ready.linked.next_eq
  rw [nextOf, loaded] at link
  exact Option.some.inj link

section
variable (ready : CoReady s nodes)
include ready

/-- A switch from the host to a listed coroutine keeps the list ready. -/
theorem CoReady.enter (rip : Rip Code) (target : CoContext Code) (host : s.running = .host) :
    CoReady ((s.suspend .host rip).resume target) nodes := by
  refine ⟨?_, ready.distinct, fun p member => ?_⟩
  · change Linked (s.suspend .host rip).nextOf 0 s.coList nodes
    rw [suspend_nextOf]
    exact ready.linked
  · obtain ⟨context, stored, own, older, live⟩ := ready.context p member
    refine ⟨context, stored, own, Nat.lt_succ_of_lt older, fun other => ?_⟩
    obtain ⟨alive, point⟩ := live (by simp [host])
    refine ⟨?_, point⟩
    rw [resume_live _ _ _ _ other, host, if_neg (by simp)]
    exact alive

/-- A switch out of a listed coroutine by `co_yield` keeps the list ready. -/
theorem CoReady.leave (member : p ∈ nodes) (running : s.running = .co p) (back : Code) {target : CoContext Code}
    (other : target.thread ≠ .co p) : CoReady ((s.suspend (.coroutine p) (.coYield back)).resume target) nodes := by
  obtain ⟨co, _, loaded, _⟩ := ready.loaded member
  refine ⟨?_, ready.distinct, fun q inside => ?_⟩
  · change Linked (s.suspend (.coroutine p) (.coYield back)).nextOf 0 s.coList nodes
    rw [suspend_nextOf]
    exact ready.linked
  · by_cases same : q = p
    · subst same
      refine ⟨⟨s.running, s.saves, s.regs, .coYield back⟩, ?_, running, Nat.lt_succ_self _, ?_⟩
      · change (s.suspend (.coroutine q) (.coYield back)).contextOf q = _
        rw [suspend_contextOf, if_pos rfl, loaded]
        rfl
      · refine fun _ => ⟨?_, back, rfl⟩
        rw [resume_live _ _ _ _ other, if_pos running]
    · obtain ⟨context, stored, own, older, live⟩ := ready.context q inside
      have apart : Thread.co q ≠ .co p := by simpa using same
      refine ⟨context, ?_, own, Nat.lt_succ_of_lt older, fun elsewhere => ?_⟩
      · change (s.suspend (.coroutine p) (.coYield back)).contextOf q = _
        rw [suspend_contextOf, if_neg same]
        exact stored
      · obtain ⟨alive, point⟩ := live (by rw [running]; exact apart.symm)
        refine ⟨?_, point⟩
        rw [resume_live _ _ _ _ elsewhere, running, if_neg apart.symm]
        exact alive

theorem CoReady.setRegs (regs : Registers) : CoReady {s with regs} nodes :=
  ⟨ready.linked, ready.distinct, ready.context⟩

theorem CoReady.setCurrent (coCurrent : Ptr) : CoReady {s with coCurrent} nodes :=
  ⟨ready.linked, ready.distinct, ready.context⟩

end

theorem CoTurn.setRegs (turn : CoTurn s nodes p host) (regs : Registers) : CoTurn {s with regs} nodes p host :=
  ⟨turn.ready.setRegs regs, turn.running, turn.current, turn.waiting, turn.thread, turn.live⟩

/-- The host starts the first coroutine at its saved context. -/
theorem CoReady.runFirst {first : Ptr} {rest : List Ptr} (ready : CoReady s (first :: rest))
    (host : s.running = .host) (rip : Rip Code) :
    ∃ next context, s.runFirst rip = .ok next ∧ s.contextOf first = some context ∧
      (∃ point, context.rip.control = .user point none) ∧
      next.view = ⟨.co first, context.regs, context.rip.control, first, s.coList⟩ ∧
      CoTurn next (first :: rest) first ⟨.host, s.saves, s.regs, rip⟩ ∧
      next.contextOf = s.contextOf := by
  obtain ⟨co, context, loaded, stored, found⟩ := ready.loaded List.mem_cons_self
  obtain ⟨same, found', thread, older, live⟩ := ready.context first List.mem_cons_self
  obtain rfl : context = same := Option.some.inj (found.symm.trans found')
  obtain ⟨alive, point⟩ := live (by simp [host])
  have start : s.coList = first := ready.linked.start
  have other : context.thread ≠ s.running := by simp [thread, host]
  refine ⟨({s with coCurrent := s.coList}.suspend .host rip).resume context, context, ?_, found,
    point, ?_, ⟨(ready.setCurrent s.coList).enter rip context host, thread, start, ?_, rfl, ?_⟩, rfl⟩
  · rw [CoMachine.runFirst, start, loaded]
    change CoMachine.swtch _ _ co.context _ = _
    rw [stored]
    exact swtch_live _ _ other (thread ▸ alive)
  · rw [← start, ← thread.trans (congrArg Thread.co start.symm)]
    rfl
  · change some (CoContext.mk s.running s.saves s.regs rip) = _
    rw [host]
  · rw [resume_live _ _ _ _ (by simp [thread])]
    exact if_pos host

/-- The state after a `co_yield` stores the point of the caller and keeps the other contexts. -/
theorem CoTurn.yielded (turn : CoTurn s nodes p host) (member : p ∈ nodes) (coCurrent : Ptr) (back : Code)
    (target : CoContext Code) (q : Ptr) :
    (({s with coCurrent}.suspend (.coroutine p) (.coYield back)).resume target).contextOf q =
      if q = p then some ⟨.co p, s.saves, s.regs, .coYield back⟩ else s.contextOf q := by
  obtain ⟨co, _, loaded, _⟩ := turn.ready.loaded member
  change (suspend {s with coCurrent} (.coroutine p) (.coYield back)).contextOf q = _
  rw [suspend_contextOf]
  by_cases same : q = p
  · subst same
    rw [if_pos rfl, if_pos rfl]
    change (s.load q).map _ = _
    rw [loaded, Option.map_some, turn.running]
  · rw [if_neg same, if_neg same]
    rfl

/-- A coroutine with a successor passes control to the saved context of that successor. -/
theorem CoTurn.coYield_next (turn : CoTurn s (before ++ p :: q :: after) p host) (back : Code) :
    ∃ next context, s.coYield back = .ok next ∧ s.contextOf q = some context ∧
      (∃ point, context.rip.control = .user point none) ∧
      next.view = ⟨.co q, context.regs, context.rip.control, q, s.coList⟩ ∧
      CoTurn next (before ++ p :: q :: after) q host ∧
      ∀ r, next.contextOf r =
        if r = p then some ⟨.co p, s.saves, s.regs, .coYield back⟩ else s.contextOf r := by
  have member : p ∈ before ++ p :: q :: after := by simp
  have following : q ∈ before ++ p :: q :: after := by simp
  have apart : q ≠ p := by
    have distinct := (List.nodup_append.mp turn.ready.distinct).2.1
    rintro rfl
    exact (List.nodup_cons.mp distinct).1 List.mem_cons_self
  obtain ⟨co, _, loaded, _⟩ := turn.ready.loaded member
  obtain ⟨successor, context, present, stored, found⟩ := turn.ready.loaded following
  obtain ⟨same, found', thread, older, live⟩ := turn.ready.context q following
  obtain rfl : context = same := Option.some.inj (found.symm.trans found')
  have elsewhere : s.running ≠ .co q := by simpa [turn.running] using apart.symm
  obtain ⟨alive, point⟩ := live elsewhere
  have link : co.next = q := turn.ready.next loaded
  have nonnull : co.next ≠ 0 := link ▸ turn.ready.linked.ne_null following
  have other : context.thread ≠ .co p := by simpa [thread] using apart
  refine ⟨({s with coCurrent := q}.suspend (.coroutine p) (.coYield back)).resume context, context, ?_,
    found, point, ?_, ⟨(turn.ready.setCurrent q).leave member turn.running back other, thread, rfl,
      turn.waiting, turn.thread, ?_⟩, turn.yielded member q back context⟩
  · simp only [coYield, turn.current, loaded, if_pos nonnull]
    rw [link, present]
    change CoMachine.swtch _ _ successor.context _ = _
    rw [stored]
    exact swtch_live _ _ (thread ▸ elsewhere.symm) (thread ▸ alive)
  · rw [← thread]
    rfl
  · rw [resume_live _ _ _ _ (by simp [thread])]
    rw [turn.running, if_neg (by simp)]
    exact turn.live

/-- The last coroutine passes control back to the host. -/
theorem CoTurn.coYield_last (turn : CoTurn s (before ++ [p]) p host) (back : Code) : ∃ next, s.coYield back = .ok next ∧
      next.view = ⟨.host, host.regs, host.rip.control, 0, s.coList⟩ ∧
      CoReady next (before ++ [p]) ∧
      ∀ r, next.contextOf r =
        if r = p then some ⟨.co p, s.saves, s.regs, .coYield back⟩ else s.contextOf r := by
  have member : p ∈ before ++ [p] := by simp
  obtain ⟨co, _, loaded, _⟩ := turn.ready.loaded member
  have link : ¬ co.next ≠ 0 := not_not.mpr (turn.ready.next loaded)
  have other : host.thread ≠ .co p := by simp [turn.thread]
  refine ⟨({s with coCurrent := 0}.suspend (.coroutine p) (.coYield back)).resume host, ?_, ?_,
    (turn.ready.setCurrent 0).leave member turn.running back other, turn.yielded member 0 back host⟩
  · simp only [coYield, turn.current, loaded, if_neg link, turn.waiting]
    refine swtch_live _ _ ?_ ?_
    · simpa [turn.running] using other
    · rw [turn.thread]
      exact turn.live
  · rw [← turn.thread]
    rfl

theorem step_call (user : s.control = .user point value) (function : CoCall Code) (regs : Registers)
    (back : Code) : s.step (.call function regs back) = call {s with regs} function back := by
  simp [step, user]

theorem CoTurn.step_next (turn : CoTurn s (before ++ p :: q :: after) p host)
    (user : s.control = .user point value) (regs : Registers) (back : Code) :
    ∃ next context, s.step (.call .coYield regs back) = .ok next ∧ s.contextOf q = some context ∧
      (∃ entry, context.rip.control = .user entry none) ∧
      next.view = ⟨.co q, context.regs, context.rip.control, q, s.coList⟩ ∧
      CoTurn next (before ++ p :: q :: after) q host ∧
      ∀ r, next.contextOf r =
        if r = p then some ⟨.co p, s.saves, regs, .coYield back⟩ else s.contextOf r := by
  rw [step_call user]
  exact (turn.setRegs regs).coYield_next back

theorem CoTurn.step_last (turn : CoTurn s (before ++ [p]) p host) (user : s.control = .user point value)
    (regs : Registers) (back : Code) :
    ∃ next, s.step (.call .coYield regs back) = .ok next ∧
      next.view = ⟨.host, host.regs, host.rip.control, 0, s.coList⟩ ∧
      CoReady next (before ++ [p]) ∧
      ∀ r, next.contextOf r =
        if r = p then some ⟨.co p, s.saves, regs, .coYield back⟩ else s.contextOf r := by
  rw [step_call user]
  exact (turn.setRegs regs).coYield_last back

end Switch

/-- Two new coroutines wait for their first turn. -/
def pairMachine : CoMachine Nat where
  memory := fun p =>
    if p = 0x1000 then some ⟨some ⟨.co 0x1000, 0, ⟨1, 1, 1, 1, 1, 1⟩, .entry 10⟩, 0x2000, 0x5000⟩
    else if p = 0x2000 then some ⟨some ⟨.co 0x2000, 1, ⟨2, 2, 2, 2, 2, 2⟩, .entry 20⟩, 0, 0x7000⟩
    else none
  owned := [0x2000, 0x1000]
  hostContext := none
  coCurrent := 0
  coList := 0x1000
  running := .host
  regs := ⟨0, 0, 0, 0, 0, 0⟩
  control := .user 0 none
  live := fun thread => if thread = .co 0x1000 then some 0 else if thread = .co 0x2000 then some 1 else none
  saves := 2

theorem pairMachine_ready : CoReady pairMachine [0x1000, 0x2000] where
  linked := ⟨rfl, by decide, 0x2000, rfl, rfl, by decide, 0, rfl, rfl⟩
  distinct := by decide
  context := by
    intro p member
    simp only [List.mem_cons, List.not_mem_nil, or_false] at member
    rcases member with rfl | rfl
    · exact ⟨_, rfl, rfl, by decide, fun _ => ⟨rfl, 10, rfl⟩⟩
    · exact ⟨_, rfl, rfl, by decide, fun _ => ⟨rfl, 20, rfl⟩⟩

end Xv6
