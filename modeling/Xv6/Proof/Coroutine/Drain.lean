import Xv6.Proof.Coroutine.Exit

namespace Xv6
open Library CoView List

section Drain
variable {Code : Type}

/-- Each coroutine yields at the listed points and then exits. The list `exited` records the exits. -/
structure CoDrive (Code : Type) where
  machine : CoMachine Code
  yields : Ptr → List (Registers × Code)
  exited : List Ptr

variable {drive next : CoDrive Code} {point back : Code} {value : Option (BitVec 64)} {p tmp : Ptr}
  {leave : Ptr → CoEvent Code} {nodes : List Ptr} {host : CoContext Code}

/-- The running coroutine makes its next call, and library code runs on. A return to the host ends the
run of `co_run_all`. -/
def CoDrive.advance (leave : Ptr → CoEvent Code) (drive : CoDrive Code) : Except CoHalt (CoDrive Code) :=
  match drive.machine.control, drive.machine.running with
  | .user _ _, .host => .ok drive
  | .user _ _, .co p =>
    match drive.yields p with
    | point :: rest =>
      (drive.machine.step (.call .coYield point.1 point.2)).map fun machine =>
        {drive with machine, yields := Function.update drive.yields p rest}
    | [] => (drive.machine.step (leave p)).map fun machine => {drive with machine, exited := p :: drive.exited}
  | _, _ => drive.machine.tick.map fun machine => {drive with machine}

def CoDrive.run (leave : Ptr → CoEvent Code) : Nat → CoDrive Code → Except CoHalt (CoDrive Code)
  | 0, drive => .ok drive
  | steps + 1, drive =>
    match drive.advance leave with
    | .ok next => CoDrive.run leave steps next
    | .error halt => .error halt

/-- The call returns with the right value after every coroutine has exited and the list is empty. -/
def Drains (leave : Ptr → CoEvent Code) (nodes : List Ptr) (back : Code) (drive : CoDrive Code) : Prop :=
  ∃ steps last, drive.run leave steps = .ok last ∧ last.machine.running = .host ∧
    last.machine.control = .user back (some (if nodes = [] then 0 else 1)) ∧
    last.machine.coList = 0 ∧ ∀ p ∈ nodes, p ∈ last.exited

/-- The host is in `co_run_all` or has returned from it. -/
def CoControl.Hosted : CoControl Code → Prop
  | .user _ _ => True
  | .runAllLoop _ _ => True
  | .runAllNext _ _ => True
  | _ => False

/-- These are the phases of `co_run_all` over a list of at least two coroutines. -/
inductive DrainPhase (nodes : List Ptr) : CoDrive Code → Prop where
  | hosted {drive : CoDrive Code} (fresh : drive.exited = []) (ready : CoReady drive.machine nodes)
      (host : drive.machine.running = .host) (control : drive.machine.control.Hosted) : DrainPhase nodes drive
  | turn {drive : CoDrive Code} {p tmp : Ptr} {host : CoContext Code} {back point : Code}
      (fresh : drive.exited = []) (member : p ∈ nodes)
      (turn : CoTurn drive.machine nodes p host) (waits : host.rip = .coRunAll tmp back)
      (control : drive.machine.control = .user point none) : DrainPhase nodes drive
  | leaving {drive : CoDrive Code} {left after : List Ptr} {p tmp prev start : Ptr} {host : CoContext Code}
      {back : Code} {place : Option Code} (exited : drive.exited = [p])
      (remaining : left ++ p :: after <:+ nodes)
      (turn : CoTurn drive.machine nodes p host) (waits : host.rip = .coRunAll tmp back)
      (control : drive.machine.control = .exitLoop start prev place)
      (linked : Linked drive.machine.nextOf 0 start (left ++ p :: after)) : DrainPhase nodes drive
  | emptied {drive : CoDrive Code} {p : Ptr} (exited : drive.exited = [p]) (host : drive.machine.running = .host)
      (empty : drive.machine.coList = 0) (control : drive.machine.control.Hosted) : DrainPhase nodes drive

/-- The running thread executes library code. -/
def CoControl.Library (control : CoControl Code) : Prop := ∀ point value, control ≠ .user point value

attribute [simp] CoControl.Library CoControl.Hosted

theorem CoDrive.advance_host (leave : Ptr → CoEvent Code) (user : drive.machine.control = .user point value)
    (host : drive.machine.running = .host) : drive.advance leave = .ok drive := by
  simp [advance, user, host]

theorem CoDrive.advance_yield (leave : Ptr → CoEvent Code) {next : Registers × Code} {rest : List (Registers × Code)}
    (user : drive.machine.control = .user point value) (running : drive.machine.running = .co p)
    (yields : drive.yields p = next :: rest) :
    drive.advance leave = (drive.machine.step (.call .coYield next.1 next.2)).map fun machine =>
      {drive with machine, yields := Function.update drive.yields p rest} := by
  simp [advance, user, running, yields]

theorem CoDrive.advance_leave (leave : Ptr → CoEvent Code) (user : drive.machine.control = .user point value)
    (running : drive.machine.running = .co p) (yields : drive.yields p = []) :
    drive.advance leave =
      (drive.machine.step (leave p)).map fun machine => {drive with machine, exited := p :: drive.exited} := by
  simp [advance, user, running, yields]

theorem CoDrive.advance_tick (leave : Ptr → CoEvent Code) (library : drive.machine.control.Library) :
    drive.advance leave = drive.machine.tick.map fun machine => {drive with machine} := by
  unfold advance
  split
  case h_1 user _ => exact absurd user (library _ _)
  case h_2 user _ => exact absurd user (library _ _)
  case h_3 => rfl

theorem ok_of_map {A B H : Type} {outcome : Except H A} {f : A → B} {value : B}
    (mapped : outcome.map f = .ok value) : ∃ result, outcome = .ok result ∧ f result = value := by
  cases outcome with
  | ok result => exact ⟨result, rfl, Except.ok.inj mapped⟩
  | error halt => cases mapped

/-- On the host the loop of `co_run_all` moves on or starts the first coroutine. -/
theorem CoDrive.advance_hosted (host : drive.machine.running = .host) (control : drive.machine.control.Hosted)
    (advanced : drive.advance leave = .ok next) :
    (∃ place : CoControl Code, place.Hosted ∧ next = {drive with machine := {drive.machine with control := place}}) ∨
      ∃ tmp back machine, drive.machine.coList ≠ 0 ∧ drive.machine.runFirst (.coRunAll tmp back) = .ok machine ∧
        next = {drive with machine} := by
  cases place : drive.machine.control with
  | user point value =>
    rw [CoDrive.advance_host leave place host] at advanced
    cases advanced
    exact .inl ⟨_, control, rfl⟩
  | runAllLoop tmp back =>
    rw [CoDrive.advance_tick leave (by simp [place])] at advanced
    obtain ⟨machine, ticked, rfl⟩ := ok_of_map advanced
    simp only [CoMachine.tick, place] at ticked
    split at ticked
    · cases ticked
      exact .inl ⟨_, by trivial, rfl⟩
    · split at ticked
      · next nonempty => exact .inr ⟨tmp, back, machine, nonempty, ticked, rfl⟩
      · cases ticked
        exact .inl ⟨_, by trivial, rfl⟩
  | runAllNext tmp back =>
    rw [CoDrive.advance_tick leave (by simp [place])] at advanced
    obtain ⟨machine, ticked, rfl⟩ := ok_of_map advanced
    simp only [CoMachine.tick, place] at ticked
    split at ticked
    · cases ticked
    · cases ticked
      exact .inl ⟨_, by trivial, rfl⟩
  | newLoop | exitLoop | exitNext => exact absurd control (by simp [place])

theorem DrainPhase.step_hosted (nonempty : nodes ≠ []) (fresh : drive.exited = []) (ready : CoReady drive.machine nodes)
    (host : drive.machine.running = .host) (control : drive.machine.control.Hosted)
    (advanced : drive.advance leave = .ok next) : DrainPhase nodes next := by
  obtain ⟨first, rest, rfl⟩ := exists_cons_of_ne_nil nonempty
  rcases CoDrive.advance_hosted host control advanced with ⟨place, hosted, rfl⟩ | ⟨tmp, back, machine, _, ticked, rfl⟩
  · exact .hosted fresh (ready.setControl _) host hosted
  · obtain ⟨started, context, ran, _, ⟨point, entry⟩, view, turn, _⟩ := ready.runFirst host (.coRunAll tmp back)
    obtain rfl : started = machine := Except.ok.inj (ran.symm.trans ticked)
    exact .turn fresh (.head _) turn rfl ((congrArg CoView.control view).trans entry)

/-- A coroutine at its turn yields or enters the loop of `co_exit`. -/
theorem DrainPhase.step_turn (exits : ∀ p ∈ nodes, IsExit (leave p)) (fresh : drive.exited = []) (member : p ∈ nodes)
    (turn : CoTurn drive.machine nodes p host) (waits : host.rip = .coRunAll tmp back)
    (control : drive.machine.control = .user point none) (advanced : drive.advance leave = .ok next)
    : DrainPhase nodes next := by
  obtain ⟨before, after, rfl⟩ := append_of_mem member
  cases yields : drive.yields p with
  | nil =>
    rw [CoDrive.advance_leave leave control turn.running yields] at advanced
    obtain ⟨machine, stepped, rfl⟩ := ok_of_map advanced
    obtain ⟨regs, prev, place, entered⟩ := turn.step_exit member control (exits p member)
    obtain rfl := Except.ok.inj (entered.symm.trans stepped)
    exact .leaving (by rw [fresh]) (suffix_refl _) ((turn.setRegs regs).setControl _) waits rfl turn.ready.linked
  | cons point rest =>
    rw [CoDrive.advance_yield leave control turn.running yields] at advanced
    obtain ⟨machine, stepped, rfl⟩ := ok_of_map advanced
    cases after with
    | nil =>
      obtain ⟨machine', ran, view, ready, _⟩ := turn.step_last control point.1 point.2
      obtain rfl : machine' = machine := Except.ok.inj (ran.symm.trans stepped)
      refine .hosted fresh ready (congrArg thread view) ?_
      have place : machine'.control = host.rip.control := congrArg CoView.control view
      simp [place, waits, Rip.control]
    | cons q after =>
      obtain ⟨machine', context, ran, _, ⟨entry, inUser⟩, view, nextTurn, _⟩ :=
        turn.step_next control point.1 point.2
      obtain rfl : machine' = machine := Except.ok.inj (ran.symm.trans stepped)
      exact .turn fresh (by simp) nextTurn waits ((congrArg CoView.control view).trans inUser)

/-- The loop of `co_exit` ends on the host with an empty list, or it never leaves the coroutine. -/
theorem DrainPhase.step_leaving {left after : List Ptr} {prev start : Ptr} {place : Option Code}
    (exited : drive.exited = [p]) (remaining : left ++ p :: after <:+ nodes) (turn : CoTurn drive.machine nodes p host)
    (waits : host.rip = .coRunAll tmp back) (control : drive.machine.control = .exitLoop start prev place)
    (linked : Linked drive.machine.nextOf 0 start (left ++ p :: after)) (advanced : drive.advance leave = .ok next)
    : DrainPhase nodes next := by
  rw [CoDrive.advance_tick leave (by simp [control])] at advanced
  obtain ⟨machine, ticked, rfl⟩ := ok_of_map advanced
  obtain ⟨before, rfl⟩ := remaining
  cases left with
  | nil =>
    obtain rfl : start = p := linked.1
    cases after with
    | nil =>
      obtain ⟨machine', ran, view, _⟩ := turn.exit_last control
      obtain rfl : machine' = machine := Except.ok.inj (ran.symm.trans ticked)
      refine .emptied exited (congrArg thread view) (congrArg coList view) ?_
      have place : machine'.control = host.rip.control := congrArg CoView.control view
      simp [place, waits, Rip.control]
    | cons q after =>
      rcases turn.exit_astray control with fault | astray
      · rw [fault] at ticked
        cases ticked
      · rw [astray] at ticked
        cases ticked
  | cons node left =>
    have other : node ≠ drive.machine.coCurrent := by
      have distinct := (nodup_append.mp turn.ready.distinct).2.1
      have unlike := (nodup_cons.mp distinct).1
      rw [turn.current]
      rintro rfl
      exact unlike (by simp)
    obtain ⟨following, ran, tail⟩ := exitLoop_step control linked other
    obtain rfl := Except.ok.inj (ran.symm.trans ticked)
    exact .leaving exited ⟨before ++ [node], by simp⟩ (turn.setControl _) waits rfl tail

/-- With an empty list `co_run_all` runs no further coroutine. -/
theorem DrainPhase.step_emptied (exited : drive.exited = [p]) (host : drive.machine.running = .host)
    (empty : drive.machine.coList = 0) (control : drive.machine.control.Hosted)
    (advanced : drive.advance leave = .ok next) : DrainPhase nodes next := by
  rcases CoDrive.advance_hosted host control advanced with ⟨place, hosted, rfl⟩ | ⟨_, _, _, nonempty, _⟩
  · exact .emptied exited host empty hosted
  · exact absurd empty nonempty

theorem DrainPhase.run {last : CoDrive Code} (nonempty : nodes ≠ []) (exits : ∀ p ∈ nodes, IsExit (leave p))
    (phase : DrainPhase nodes drive) {steps : Nat} (ran : drive.run leave steps = .ok last)
    : DrainPhase nodes last := by
  induction steps generalizing drive with
  | zero =>
    cases ran
    exact phase
  | succ steps ih =>
    rw [CoDrive.run] at ran
    split at ran
    case h_1 next advanced =>
      refine ih ?_ ran
      cases phase with
      | hosted fresh ready host control =>
        exact .step_hosted nonempty fresh ready host control advanced
      | turn fresh member turn waits control =>
        exact .step_turn exits fresh member turn waits control advanced
      | leaving exited remaining turn waits control linked =>
        exact .step_leaving exited remaining turn waits control linked advanced
      | emptied exited host empty control =>
        exact .step_emptied exited host empty control advanced
    case h_2 => cases ran

/-- At most one coroutine exits in a run of `co_run_all`. -/
theorem DrainPhase.exited_le (phase : DrainPhase nodes drive) : drive.exited.length ≤ 1 := by
  cases phase with
  | hosted fresh | turn fresh => simp [fresh]
  | leaving exited | emptied exited => simp [exited]

theorem CoDrive.run_succ (advanced : drive.advance leave = .ok next) (steps : Nat) :
    drive.run leave (steps + 1) = next.run leave steps := by
  simp [run, advanced]

theorem CoDrive.run_add {middle : CoDrive Code} {first : Nat} (ran : drive.run leave first = .ok middle)
    (second : Nat) : drive.run leave (first + second) = middle.run leave second := by
  induction first generalizing drive with
  | zero =>
    cases ran
    rw [Nat.zero_add]
  | succ first ih =>
    cases advanced : drive.advance leave with
    | ok next =>
      rw [run_succ advanced] at ran
      rw [Nat.add_right_comm, run_succ advanced]
      exact ih ran
    | error halt => simp [run, advanced] at ran

theorem CoDrive.run_returned (leave : Ptr → CoEvent Code) (user : drive.machine.control = .user point value)
    (host : drive.machine.running = .host) (steps : Nat) : drive.run leave steps = .ok drive := by
  induction steps with
  | zero => rfl
  | succ steps ih =>
    rw [run_succ (advance_host leave user host)]
    exact ih

/-- The outcome of a returned run does not depend on the number of steps. -/
theorem CoDrive.returned_unique {first second : CoDrive Code} {n m : Nat} {place : Code} {other : Option (BitVec 64)}
    (ran : drive.run leave n = .ok first) (user : first.machine.control = .user place value)
    (host : first.machine.running = .host) (again : drive.run leave m = .ok second)
    (user' : second.machine.control = .user point other) (host' : second.machine.running = .host) : first = second := by
  have forward := run_add ran m
  have backward := run_add again n
  rw [run_returned leave user host] at forward
  rw [run_returned leave user' host', Nat.add_comm] at backward
  exact Except.ok.inj (forward.symm.trans backward)

/-- After the only coroutine has given control back, `co_run_all` returns 1. -/
theorem CoDrive.run_finish (leave : Ptr → CoEvent Code) (control : drive.machine.control = .runAllNext p back)
    (final : drive.machine.nextOf p = some 0) :
    drive.run leave 2 = .ok {drive with machine := drive.machine.returns back (some 1)} := by
  cases loaded : drive.machine.load p with
  | none => simp [CoMachine.nextOf, loaded] at final
  | some co =>
    have next : co.next = 0 := by simpa [CoMachine.nextOf, loaded] using final
    have first : drive.advance leave =
        .ok {drive with machine := {drive.machine with control := .runAllLoop 0 back}} := by
      rw [advance_tick leave (by simp [control])]
      simp only [CoMachine.tick, control, loaded, next]
      rfl
    rw [run_succ first, run_succ]
    · rfl
    · rw [advance_tick leave (by simp)]
      rfl

/-- The call of `co_run_all` on one coroutine starts that coroutine. -/
theorem CoReady.single_turn (leave : Ptr → CoEvent Code) (ready : CoReady drive.machine [p])
    (host : drive.machine.running = .host) (control : drive.machine.control = .runAllLoop p back) :
    ∃ next context point, drive.advance leave = .ok next ∧ CoTurn next.machine ([] ++ [p]) p context ∧
      context.rip = .coRunAll p back ∧ next.machine.control = .user point none ∧ next.machine.coList = p ∧
      next.yields = drive.yields ∧ next.exited = drive.exited := by
  have start : drive.machine.coList = p := ready.linked.start
  have nonnull : p ≠ 0 := ready.linked.ne_null mem_cons_self
  obtain ⟨machine, context, ran, _, ⟨point, entry⟩, view, turn, _⟩ := ready.runFirst host (.coRunAll p back)
  refine ⟨{drive with machine}, _, point, ?_, turn, rfl, (congrArg CoView.control view).trans entry,
    (congrArg coList view).trans start, rfl, rfl⟩
  rw [CoDrive.advance_tick leave (by simp [control])]
  simp only [CoMachine.tick, control, if_neg nonnull, start, if_pos nonnull, ran]
  rfl

/-- A single coroutine that yields is still listed when `co_run_all` returns. -/
theorem CoReady.single_yields (leave : Ptr → CoEvent Code) (ready : CoReady drive.machine [p])
    (host : drive.machine.running = .host) (control : drive.machine.control = .runAllLoop p back)
    (yields : drive.yields p ≠ []) :
    ∃ last, drive.run leave 4 = .ok last ∧ last.machine.running = .host ∧
      last.machine.control = .user back (some 1) ∧ last.machine.coList = p := by
  obtain ⟨point, rest, planned⟩ := exists_cons_of_ne_nil yields
  obtain ⟨first, context, entry, started, turn, waits, inUser, list, kept, _⟩ :=
    ready.single_turn leave host control
  obtain ⟨machine, stepped, view, after, _⟩ := turn.step_last inUser point.1 point.2
  obtain ⟨running, _, place, _, listed⟩ := mk.inj view
  rw [← kept] at planned
  have advanced := CoDrive.advance_yield leave inUser turn.running planned
  rw [stepped] at advanced
  let yielded : CoDrive Code := {first with machine, yields := Function.update first.yields p rest}
  have control : yielded.machine.control = .runAllNext p back := by
    rw [place, waits]
    rfl
  have finish := CoDrive.run_finish leave control after.linked.next_eq
  refine ⟨{yielded with machine := yielded.machine.returns back (some 1)}, ?_, running, rfl, listed.trans list⟩
  rw [CoDrive.run_succ started, CoDrive.run_succ advanced]
  exact finish

/-- A single coroutine that exits at once is drained. -/
theorem CoReady.single_exits (ready : CoReady drive.machine [p]) (host : drive.machine.running = .host)
    (control : drive.machine.control = .runAllLoop p back) (yields : drive.yields p = []) (exits : IsExit (leave p)) :
    ∃ last, drive.run leave 5 = .ok last ∧ last.machine.running = .host ∧
      last.machine.control = .user back (some 1) ∧ last.machine.coList = 0 ∧ p ∈ last.exited := by
  obtain ⟨first, context, entry, started, turn, waits, inUser, list, kept, _⟩ :=
    ready.single_turn leave host control
  obtain ⟨regs, prev, place, stepped⟩ := turn.step_exit (by simp) inUser exits
  rw [← kept] at yields
  have left := CoDrive.advance_leave leave inUser turn.running yields
  rw [stepped] at left
  let exiting : CoMachine Code := {first.machine with regs, control := .exitLoop first.machine.coList prev place}
  have exitTurn : CoTurn exiting ([] ++ [p]) p context := (turn.setRegs regs).setControl _
  have atLoop : exiting.control = .exitLoop p prev place := by rw [← list]
  obtain ⟨machine, ticked, view, links⟩ := exitTurn.exit_last atLoop
  obtain ⟨running, _, resumed, _, empty⟩ := mk.inj view
  let gone : CoDrive Code := {first with machine := exiting, exited := p :: first.exited}
  have advanced : gone.advance leave = .ok {gone with machine} := by
    rw [CoDrive.advance_tick leave (by simp [gone, exiting])]
    rw [ticked]
    rfl
  let emptied : CoDrive Code := {gone with machine}
  have control : emptied.machine.control = .runAllNext p back := by
    rw [resumed, waits]
    rfl
  have final : emptied.machine.nextOf p = some 0 := by
    rw [links]
    exact turn.ready.linked.next_eq
  have finish := CoDrive.run_finish leave control final
  refine ⟨{emptied with machine := emptied.machine.returns back (some 1)}, ?_, running, rfl, empty, .head _⟩
  rw [CoDrive.run_succ started, CoDrive.run_succ left]
  rw [CoDrive.run_succ advanced]
  exact finish

/-- The call `co_run_all` drains the list exactly when the list is empty or holds one coroutine that exits
without a yield. -/
theorem drains_iff (state called : CoMachine Code) (nodes : List Ptr) (yields : Ptr → List (Registers × Code))
    (leave : Ptr → CoEvent Code) (regs : Registers) (back : Code) (ready : CoReady state nodes)
    (host : state.running = .host) (user : ∃ point value, state.control = .user point value)
    (exits : ∀ p ∈ nodes, IsExit (leave p)) (calls : state.step (.call .coRunAll regs back) = .ok called) :
    Drains leave nodes back ⟨called, yields, []⟩ ↔ nodes = [] ∨ ∃ p, nodes = [p] ∧ yields p = [] := by
  obtain ⟨point, value, inUser⟩ := user
  rw [step_call inUser] at calls
  change (if state.coList = 0 then _ else _) = _ at calls
  have start : state.coList = nodes.headD 0 := ready.linked.start
  match nodes with
  | [] =>
    have none : state.coList = 0 := start
    rw [if_pos none] at calls
    cases calls
    exact iff_of_true ⟨0, _, rfl, host, rfl, none, by simp⟩ (.inl rfl)
  | [p] =>
    have listed : state.coList ≠ 0 := start ▸ ready.linked.ne_null mem_cons_self
    rw [if_neg listed] at calls
    cases calls
    let drive : CoDrive Code := ⟨{state with regs, control := .runAllLoop state.coList back}, yields, []⟩
    have control : drive.machine.control = .runAllLoop p back := congrArg (CoControl.runAllLoop · back) start
    have single : CoReady drive.machine [p] := (ready.setRegs regs).setControl _
    constructor
    · rintro ⟨steps, last, ran, onHost, returned, empty, _⟩
      refine .inr ⟨p, rfl, ?_⟩
      by_contra planned
      obtain ⟨stuck, again, stuckHost, stuckReturned, still⟩ := single.single_yields leave host control planned
      obtain rfl := CoDrive.returned_unique ran returned onHost again stuckReturned stuckHost
      exact ready.linked.ne_null (.head _) (still.symm.trans empty)
    · rintro (impossible | ⟨q, same, none⟩)
      · cases impossible
      · obtain rfl : p = q := (cons.inj same).1
        obtain ⟨last, ran, onHost, returned, empty, exited⟩ :=
          single.single_exits host control none (exits p (.head _))
        exact ⟨5, last, ran, onHost, returned, empty, by simpa using exited⟩
  | p :: q :: rest =>
    have listed : state.coList ≠ 0 := start ▸ ready.linked.ne_null mem_cons_self
    rw [if_neg listed] at calls
    cases calls
    refine iff_of_false ?_ (by simp)
    rintro ⟨steps, last, ran, _, _, _, all⟩
    have phase : DrainPhase (p :: q :: rest) last := by
      refine .run (by simp) exits ?_ ran
      exact .hosted rfl ((ready.setRegs regs).setControl _) host trivial
    have few := phase.exited_le
    have many := (ready.distinct.subperm fun r member => all r member).length_le
    simp only [length_cons] at many
    omega

end Drain

/-- The host has called `co_run_all` on two coroutines that yield the given number of times. -/
def pairDrive (count : Nat) : CoDrive Nat where
  machine := {pairMachine with regs := ⟨0, 0, 0, 0, 0, 0⟩, control := .runAllLoop 0x1000 1}
  yields := fun _ => List.replicate count (⟨0, 0, 0, 0, 0, 0⟩, 11)
  exited := []

def pairLeave (_ : Ptr) : CoEvent Nat := .ret ⟨0, 0, 0, 0, 0, 0⟩ 0

theorem drains_iff_pair :
    Drains pairLeave [0x1000, 0x2000] 1 (pairDrive 3) ↔
      [0x1000, 0x2000] = ([] : List Ptr) ∨ ∃ p : Ptr, [0x1000, 0x2000] = [p] ∧ (pairDrive 3).yields p = [] :=
  drains_iff pairMachine (pairDrive 3).machine [0x1000, 0x2000] (pairDrive 3).yields pairLeave
    ⟨0, 0, 0, 0, 0, 0⟩ 1 pairMachine_ready rfl ⟨0, none, rfl⟩ (fun _ _ => .ret _ _) rfl

/-- Two coroutines that yield three times are both alive when `co_run_all` returns. -/
theorem drain_returns_early :
    (∃ last, (pairDrive 3).run pairLeave 20 = .ok last ∧ last.machine.control = .user 1 (some 1) ∧
      last.machine.coList = 0x1000 ∧ last.exited = []) ∧
      ¬ Drains pairLeave [0x1000, 0x2000] 1 (pairDrive 3) := by
  have early : ∃ last, (pairDrive 3).run pairLeave 20 = .ok last ∧ last.machine.running = .host ∧
      last.machine.control = .user 1 (some 1) ∧ last.machine.coList = 0x1000 ∧ last.exited = [] :=
    ⟨_, rfl, rfl, rfl, rfl, rfl⟩
  obtain ⟨last, ran, host, returned, list, none⟩ := early
  refine ⟨⟨last, ran, returned, list, none⟩, ?_⟩
  rintro ⟨steps, other, again, otherHost, otherReturned, empty, _⟩
  obtain rfl := CoDrive.returned_unique ran returned host again otherReturned otherHost
  rw [list] at empty
  exact absurd empty (by decide)

end Xv6
