import Xv6.Proof.Coroutine.Switch

namespace Xv6
open Library List
open CoMachine (run step nextOf tick exitCurrent swtch_stale call initial)

section Exit
variable {Code : Type} {state s : CoMachine Code} {nodes rest before : List Ptr} {p tmp prev : Ptr}
  {host : CoContext Code} {point : Code} {value : Option (BitVec 64)} {event : CoEvent Code} {back : Option Code}

/-- A coroutine exits by a call of `co_exit` or by the return of its function. -/
inductive IsExit : CoEvent Code → Prop where
  | call (prev : Ptr) (regs : Registers) (back : Code) : IsExit (.call (.coExit prev) regs back)
  | ret (regs : Registers) (prev : Ptr) : IsExit (.ret regs prev)

/-- When control first leaves the exited coroutine, the list has lost exactly this coroutine, and
`co_current` designates the thread that runs. -/
def ExitRemoves (state : CoMachine Code) (nodes : List Ptr) (p : Ptr) (event : CoEvent Code) : Prop :=
  ∃ ticks after, CoMachine.run (event :: List.replicate ticks .tick) state = .ok after ∧
    (∀ earlier middle, earlier < ticks →
      CoMachine.run (event :: List.replicate earlier .tick) state = .ok middle → middle.running = .co p) ∧
    Linked after.nextOf 0 after.coList (nodes.erase p) ∧
    (after.running = .host ∧ after.coCurrent = 0 ∨
      ∃ q ∈ nodes.erase p, after.running = .co q ∧ after.coCurrent = q)

theorem CoReady.setControl (ready : CoReady s nodes) (control : CoControl Code) : CoReady {s with control} nodes :=
  ⟨ready.linked, ready.distinct, ready.context⟩

theorem CoTurn.setControl (turn : CoTurn s nodes p host) (control : CoControl Code)
    : CoTurn {s with control} nodes p host :=
  ⟨turn.ready.setControl control, turn.running, turn.current, turn.waiting, turn.thread, turn.live⟩

/-- The exit of a running coroutine enters the loop of `co_exit` at the head of the list. -/
theorem CoTurn.step_exit (turn : CoTurn s nodes p host) (member : p ∈ nodes)
    (user : s.control = .user point value) (exits : IsExit event) :
    ∃ regs prev back, s.step event = .ok {s with regs, control := .exitLoop s.coList prev back} := by
  have current : s.coCurrent ≠ 0 := turn.current ▸ turn.ready.linked.ne_null member
  cases exits with
  | call prev regs back =>
    refine ⟨regs, prev, some back, ?_⟩
    rw [step_call user]
    exact if_neg current
  | ret regs prev =>
    refine ⟨regs, prev, none, ?_⟩
    simp only [step, user, turn.running]
    exact if_neg current

/-- The loop of `co_exit` passes every coroutine before the current one. -/
theorem exitLoop_step {node : Ptr} (control : s.control = .exitLoop tmp prev back)
    (linked : Linked s.nextOf 0 tmp (node :: rest)) (other : node ≠ s.coCurrent) :
    ∃ following, s.tick = .ok {s with control := .exitLoop following node back} ∧ Linked s.nextOf 0 following rest := by
  obtain ⟨rfl, nonnull, following, link, tail⟩ := linked
  refine ⟨following, ?_, tail⟩
  cases loaded : s.load tmp with
  | none => simp [nextOf, loaded] at link
  | some co =>
    have next : co.next = following := by simpa [nextOf, loaded] using link
    simp only [tick, control, if_neg nonnull, loaded, if_neg other, next]

theorem exitLoop_walk {passed : List Ptr} (control : s.control = .exitLoop tmp prev back)
    (linked : Linked s.nextOf 0 tmp (passed ++ rest)) (absent : s.coCurrent ∉ passed) :
    ∃ last, run (replicate passed.length .tick) s =
      .ok {s with control := .exitLoop (rest.headD 0) last back} := by
  induction passed generalizing s tmp prev with
  | nil =>
    have start : tmp = rest.headD 0 := Linked.start linked
    refine ⟨prev, ?_⟩
    rw [← start, ← control]
    rfl
  | cons node passed ih =>
    have other : node ≠ s.coCurrent := fun same => absent (same ▸ (.head _))
    obtain ⟨following, ticked, tail⟩ := exitLoop_step control linked other
    have apart : s.coCurrent ∉ passed := fun inside => absent (mem_cons_of_mem node inside)
    let stepped : CoMachine Code := {s with control := .exitLoop following node back}
    have atLoop : stepped.control = .exitLoop following node back := rfl
    obtain ⟨last, walked⟩ := ih atLoop tail apart
    exact ⟨last, (runEvents_cons_ok ticked).trans walked⟩

/-- A coroutine with a successor switches to its own old context. -/
theorem CoTurn.exit_astray {after : List Ptr} {q : Ptr} (turn : CoTurn s (before ++ p :: q :: after) p host)
    (control : s.control = .exitLoop p prev back) : s.tick = .error .fault ∨ s.tick = .error (.astray (.co p)) := by
  have member : p ∈ before ++ p :: q :: after := by simp
  obtain ⟨co, context, loaded, stored, found⟩ := turn.ready.loaded member
  obtain ⟨same, found', thread, older, _⟩ := turn.ready.context p member
  obtain rfl : context = same := Option.some.inj (found.symm.trans found')
  have nonnull : p ≠ 0 := turn.ready.linked.ne_null member
  have link : co.next = q := turn.ready.next loaded
  have further : co.next ≠ 0 := link ▸ turn.ready.linked.ne_null (by simp)
  have ticked : s.tick = s.exitCurrent p prev back co := by
    simp only [tick, control, if_neg nonnull, loaded, turn.current, if_true]
  rw [ticked]
  unfold exitCurrent
  rw [if_pos further, stored]
  split
  · split
    · exact .inl rfl
    · right
      rw [← turn.running]
      exact swtch_stale _ _ (thread.trans turn.running.symm) older
  · right
    rw [← turn.running]
    exact swtch_stale _ _ (thread.trans turn.running.symm) older

/-- The last coroutine empties the list and returns to the host without a change of `co_current`. -/
theorem CoTurn.exit_last (turn : CoTurn s (before ++ [p]) p host) (control : s.control = .exitLoop p prev back) :
    ∃ next, s.tick = .ok next ∧ next.view = ⟨.host, host.regs, host.rip.control, p, 0⟩ ∧ next.nextOf = s.nextOf := by
  have member : p ∈ before ++ [p] := by simp
  obtain ⟨co, _, loaded, _⟩ := turn.ready.loaded member
  have nonnull : p ≠ 0 := turn.ready.linked.ne_null member
  have last : ¬ co.next ≠ 0 := not_not.mpr (turn.ready.next loaded)
  refine ⟨({s with coList := 0}.suspend (.coroutine p) (.coExit p back)).resume host, ?_, ?_, ?_⟩
  · simp only [tick, control, if_neg nonnull, loaded, turn.current, if_true, exitCurrent,
      if_neg last, turn.waiting]
    refine CoMachine.swtch_live _ _ ?_ ?_
    · simp [turn.thread, turn.running]
    · rw [turn.thread]
      exact turn.live
  · rw [← turn.thread, ← turn.current]
    rfl
  · change (CoMachine.suspend {s with coList := 0} (.coroutine p) (.coExit p back)).nextOf = _
    rw [CoMachine.suspend_nextOf]
    rfl

/-- The exit stays on the stack of its coroutine until the loop has found it. -/
theorem CoTurn.exit_walk (turn : CoTurn s (before ++ p :: rest) p host)
    (user : ∃ point value, s.control = .user point value) (exits : IsExit event) {ticks : Nat}
    (bound : ticks ≤ before.length) :
    ∃ middle tmp prev back, run (event :: replicate ticks .tick) s = .ok middle ∧
      CoTurn middle (before ++ p :: rest) p host ∧ middle.control = .exitLoop tmp prev back ∧
      (ticks = before.length → tmp = p) := by
  obtain ⟨point, value, inUser⟩ := user
  obtain ⟨regs, prev, back, stepped⟩ := turn.step_exit (by simp) inUser exits
  let entered : CoMachine Code := {s with regs, control := .exitLoop s.coList prev back}
  have atLoop : entered.control = .exitLoop s.coList prev back := rfl
  have absent : p ∉ before := by
    have apart := (nodup_append.mp turn.ready.distinct).2.2
    exact fun inside => apart p inside p (.head _) rfl
  have linked : Linked entered.nextOf 0 s.coList (before.take ticks ++ (before.drop ticks ++ p :: rest)) := by
    rw [← append_assoc, take_append_drop]
    exact turn.ready.linked
  have unseen : entered.coCurrent ∉ before.take ticks := by
    rw [turn.current]
    exact fun inside => absent (mem_of_mem_take inside)
  obtain ⟨last, walked⟩ := exitLoop_walk atLoop linked unseen
  rw [length_take, Nat.min_eq_left bound] at walked
  refine ⟨_, _, last, back, (runEvents_cons_ok stepped).trans walked, (turn.setRegs regs).setControl _, rfl, ?_⟩
  rintro rfl
  rw [drop_length]
  rfl

/-- A coroutine that exits leaves through its own old context or returns to the host as the current
coroutine, so no exit meets the contract. -/
theorem exit_never_removes (state : CoMachine Code) (nodes : List Ptr) (p : Ptr) (host : CoContext Code)
    (event : CoEvent Code) (turn : CoTurn state nodes p host) (member : p ∈ nodes)
    (user : ∃ point value, state.control = .user point value) (exits : IsExit event) :
    ¬ ExitRemoves state nodes p event := by
  rintro ⟨ticks, after, ran, inside, _, designated⟩
  obtain ⟨before, rest, rfl⟩ := append_of_mem member
  have notSelf : after.running ≠ .co p := by
    intro back
    rcases designated with ⟨onHost, _⟩ | ⟨q, listed, runs, _⟩
    · rw [back] at onHost
      cases onHost
    · obtain rfl : p = q := Thread.co.inj (back.symm.trans runs)
      exact turn.ready.distinct.not_mem_erase listed
  rcases Nat.lt_or_ge before.length ticks with beyond | within
  · obtain ⟨middle, tmp, prev, back, reached, middleTurn, control, found⟩ :=
      turn.exit_walk user exits (Nat.le_refl before.length)
    obtain rfl := found rfl
    have shorter : event :: replicate (before.length + 1) .tick <+: event :: replicate ticks .tick := by
      refine ⟨replicate (ticks - (before.length + 1)) .tick, ?_⟩
      rw [cons_append, replicate_append_replicate, Nat.add_sub_of_le beyond]
    obtain ⟨left, leaving⟩ := runEvents_prefix shorter ran
    have ticked : middle.tick = .ok left := by
      have split : event :: replicate (before.length + 1) .tick =
          (event :: replicate before.length .tick) ++ [.tick] := by
        rw [replicate_succ', cons_append]
      rw [split] at leaving
      obtain ⟨same, again, last⟩ := runEvents_snoc.mp leaving
      obtain rfl : middle = same := Except.ok.inj (reached.symm.trans again)
      exact last
    cases rest with
    | nil =>
      obtain ⟨next, ran', view, _⟩ := middleTurn.exit_last control
      obtain rfl : next = left := Except.ok.inj (ran'.symm.trans ticked)
      have onHost : next.running = .host := congrArg CoView.thread view
      have current : next.coCurrent = tmp := congrArg CoView.coCurrent view
      rcases Nat.lt_or_eq_of_le (Nat.succ_le_of_lt beyond) with later | rfl
      · have stays := inside _ next later leaving
        rw [onHost] at stays
        cases stays
      · obtain rfl : next = after := Except.ok.inj (leaving.symm.trans ran)
        rcases designated with ⟨_, cleared⟩ | ⟨q, _, runs, _⟩
        · exact turn.ready.linked.ne_null member (current.symm.trans cleared)
        · rw [onHost] at runs
          cases runs
    | cons q rest =>
      rcases middleTurn.exit_astray control with fault | astray
      · rw [fault] at ticked
        cases ticked
      · rw [astray] at ticked
        cases ticked
  · obtain ⟨middle, tmp, prev, back, reached, middleTurn, _⟩ := turn.exit_walk user exits within
    obtain rfl : middle = after := Except.ok.inj (reached.symm.trans ran)
    exact notSelf middleTurn.running

/-- A call returns to the host with the list, the current coroutine and all saved contexts unchanged. -/
def HostNoOp (state : CoMachine Code) (function : CoCall Code) (regs : Registers) (back : Code) : Prop :=
  ∃ next, state.step (.call function regs back) = .ok next ∧ next.running = .host ∧
    next.control = .user back none ∧ next.coList = state.coList ∧ next.coCurrent = state.coCurrent ∧
    next.contextOf = state.contextOf ∧ next.hostContext = state.hostContext

/-- While the host runs there is no current coroutine, and `co_yield` and `co_exit` do nothing. -/
def HostQuiet (state : CoMachine Code) : Prop :=
  state.coCurrent = 0 ∧ ∀ regs back, HostNoOp state .coYield regs back ∧ ∀ prev,
    HostNoOp state (.coExit prev) regs back

/-- Without a current coroutine `co_yield` follows a null pointer. -/
theorem coYield_null (user : s.control = .user point value) (current : s.coCurrent = 0) (regs : Registers)
    (back : Code) : s.step (.call .coYield regs back) = .error .fault := by
  rw [step_call user]
  simp only [call, CoMachine.coYield, current, CoMachine.load_null]

/-- No sequence of events leads the host to a state in which `co_yield` and `co_exit` do nothing. -/
theorem host_never_quiet (memory : Ptr → Option (Coroutine Code)) (regs : Registers) (start : Code)
    (events : List (CoEvent Code)) :
    ¬ ∃ state, CoMachine.run events (CoMachine.initial memory regs start) = .ok state ∧
      state.running = .host ∧ (∃ point value, state.control = .user point value) ∧ HostQuiet state := by
  rintro ⟨state, _, _, ⟨point, value, user⟩, current, quiet⟩
  obtain ⟨next, stepped, _⟩ := (quiet regs point).1
  rw [coYield_null user current] at stepped
  cases stepped

end Exit

/-- The first of two coroutines has started and the host waits in `co_run`. -/
def pairTurn : CoMachine Nat :=
  ({pairMachine with coCurrent := 0x1000}.suspend .host (.coRun 1)).resume
    ⟨.co 0x1000, 0, ⟨1, 1, 1, 1, 1, 1⟩, .entry 10⟩

theorem pairTurn_turn : CoTurn pairTurn [0x1000, 0x2000] 0x1000 ⟨.host, 2, ⟨0, 0, 0, 0, 0, 0⟩, .coRun 1⟩ where
  ready := (pairMachine_ready.setCurrent 0x1000).enter (.coRun 1) _ rfl
  running := rfl
  current := rfl
  waiting := rfl
  thread := rfl
  live := rfl

theorem exit_never_removes_first :
    ¬ ExitRemoves pairTurn [0x1000, 0x2000] 0x1000 (.call (.coExit 0) ⟨0, 0, 0, 0, 0, 0⟩ 11) :=
  exit_never_removes pairTurn [0x1000, 0x2000] 0x1000 _ _ pairTurn_turn (by simp) ⟨10, none, rfl⟩ (.call _ _ _)

/-- The exit of the first of two coroutines leads back onto its own stack. The exit of the second one
drops the first one from the list and leaves the second one current while the host runs. -/
theorem exit_of_pair_fails :
    CoMachine.run [.call (.coExit 0) ⟨0, 0, 0, 0, 0, 0⟩ 11, .tick] pairTurn = .error (.astray (.co 0x1000)) ∧
      ∃ after, CoMachine.run [.call .coYield ⟨0, 0, 0, 0, 0, 0⟩ 11, .call (.coExit 0) ⟨0, 0, 0, 0, 0, 0⟩ 21,
          .tick, .tick] pairTurn = .ok after ∧
        after.running = .host ∧ after.coCurrent = 0x2000 ∧ after.coList = 0 := by
  constructor
  · rfl
  · exact ⟨_, rfl, rfl, rfl, rfl⟩

/-- The host faults in `co_yield` before it has run a coroutine. After the exit of the only coroutine the
host runs while that coroutine is still current. -/
theorem host_unquiet_runs :
    CoMachine.run [.call .coYield ⟨0, 0, 0, 0, 0, 0⟩ 1]
        (CoMachine.initial (fun _ => none) ⟨0, 0, 0, 0, 0, 0⟩ 0) = .error .fault ∧
      ∃ after, CoMachine.run [.call (.coNew 10 (some (0x1000, ⟨none, 0, 0⟩)) 0x5000 ⟨0, 0, 0, 0, 0, 0⟩)
          ⟨0, 0, 0, 0, 0, 0⟩ 1, .call .coRun ⟨0, 0, 0, 0, 0, 0⟩ 2, .ret ⟨0, 0, 0, 0, 0, 0⟩ 0, .tick]
          (CoMachine.initial (fun _ => none) ⟨0, 0, 0, 0, 0, 0⟩ 0) = .ok after ∧
        after.running = .host ∧ after.control = .user 2 (some 1) ∧ after.coCurrent = 0x1000 := by
  constructor
  · rfl
  · exact ⟨_, rfl, rfl, rfl, rfl⟩

end Xv6
