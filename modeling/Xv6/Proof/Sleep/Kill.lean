import Xv6.Construction.Sleep
import Xv6.Proof.Proc.Kill

namespace Xv6
open Library Ptable

/-- The process has tested its flag and has not taken `ptable.lock` in `sleep` yet. -/
def SleepPlace.Commits : SleepPlace → Prop
  | .waking _ | .falling _ => True
  | _ => False

/-- The process is at the call of `sleep` in one of the loops. -/
def SleepPlace.Sleeps : SleepPlace → Prop
  | .asleep _ | .waiting => True
  | _ => False

instance : (place : SleepPlace) → Decidable place.Sleeps
  | .asleep _ | .waiting => isTrue trivial
  | .out _ | .enter _ | .loop _ | .test _ | .waking _ | .falling _ | .woken _ => isFalse id

namespace Ptable
variable {table : Ptable} {p : Fin NPROC}

/-- The scan of `wait` goes to sleep only if the flag is clear. -/
theorem scan_sleeps_unkilled (found : table.scan p = .sleeps) : (table.proc p).killed = false := by
  rw [scan] at found
  split at found
  · cases found
  · split at found
    · cases found
    · next stays => exact Bool.eq_false_iff.mpr fun killed => stays (.inr killed)

/-- A process that still sleeps after a call of `kill` is not the one that the call has found. -/
theorem kill_sleeping {pid : BitVec 32} (sleeping : ((table.kill pid).2.proc p).state = .sleeping) :
    (table.kill pid).2.proc p = table.proc p := by
  rcases kill_cases table pid with ⟨q, same, first⟩ | absent
  · rw [kill_first same first] at sleeping ⊢
    by_cases here : p = q
    · rw [here, set_self] at sleeping
      split at sleeping
      · cases sleeping
      · next awake => exact absurd sleeping awake
    · exact set_of_ne _ here
  · rw [kill_missing absent]

end Ptable

namespace SleepSystem
variable {system s next last : SleepSystem} {event : SleepEvent}

/-- The process sleeps in a loop although it has been killed. -/
def Lost (system : SleepSystem) : Prop :=
  system.place.Sleeps ∧ system.proc.state = .sleeping ∧ system.proc.killed = true

instance (system : SleepSystem) : Decidable system.Lost := inferInstanceAs (Decidable (_ ∧ _))

/-- The process is killed between the test of its flag and the change of its state. -/
def Slips (system : SleepSystem) (event : SleepEvent) : Prop :=
  ∃ pid, event = .kill pid ∧ system.place.Commits ∧ ((system.table.kill pid).2.proc system.target).killed = true

/-- A process that is about to sleep has not been killed, and one that sleeps has not been killed since. -/
structure Alert (system : SleepSystem) : Prop where
  commits : system.place.Commits → system.proc.killed = false
  awake : system.proc.state = .sleeping → system.place.Sleeps ∧ system.proc.killed = false

theorem Alert.not_lost (alert : s.Alert) : ¬s.Lost := by
  rintro ⟨_, sleeping, killed⟩
  rw [(alert.awake sleeping).2] at killed
  cases killed

/-- A step that neither commits the process to sleep nor puts it to sleep keeps it alert. -/
theorem Alert.of_awake (state : next.proc.state ≠ .sleeping) (place : ¬next.place.Commits) : next.Alert :=
  ⟨fun commits => absurd commits place, fun sleeping => absurd sleeping state⟩

theorem awake_of_running (running : s.proc.state = .running) : s.proc.state ≠ .sleeping := by
  rw [running]
  decide

/-- A step of the running process outside of the loops' last steps leaves it awake. -/
theorem Alert.of_running (running : s.proc.state = .running) (same : next.proc = s.proc)
    (place : ¬next.place.Commits) : next.Alert := by
  apply Alert.of_awake _ place
  rw [same]
  exact awake_of_running running

/-- A wakeup by the running process does not change its own fields. -/
theorem wakeup1_proc_eq (chan : Chan) (running : s.proc.state = .running) :
    (s.table.wakeup1 chan).proc s.target = s.proc := by
  rw [wakeup1_proc, roused, if_neg]
  · rfl
  · rintro ⟨_, sleeping, _⟩
    exact awake_of_running running sleeping

section
variable (running : s.proc.state = .running)
include running

/-- The loop of `wait` tests the flag in the same section in which it goes to sleep. -/
theorem wait_alert : s.wait.Alert := by
  rw [wait]
  split
  · next child found =>
      have zombie := (scan_reaps found).2
      have ne : s.target ≠ child := by
        intro same
        rw [← same] at zombie
        exact absurd (zombie.symm.trans running) (by decide)
      apply Alert.of_running running _ id
      exact set_of_ne _ ne
  · exact .of_running running rfl id
  · next found =>
      refine ⟨False.elim, fun _ => ⟨trivial, ?_⟩⟩
      change ((s.table.sleep s.target (.proc s.target)).proc s.target).killed = false
      rw [sleep, set_self]
      exact scan_sleeps_unkilled found

theorem acquire_alert {lock : SleepLock} {place : SleepPlace} (goes : ¬place.Commits)
    (ran : s.acquire lock place = .ok next) : next.Alert := by
  rw [acquire] at ran
  split at ran
  · cases ran
    exact .of_running running rfl goes
  · cases ran

theorem enter_alert {call : SleepCall} (ran : s.enter call = .ok next) : next.Alert := by
  cases call with
  | piperead | pipewrite | consoleread | sysSleep => exact acquire_alert running id ran
  | wait =>
    cases ran
    exact wait_alert running

theorem loop_alert (frame : SleepFrame) : (s.loop frame).Alert := by
  cases frame with
  | piperead n =>
    rw [loop]
    split
    · exact .of_running running rfl id
    · exact .of_running running (wakeup1_proc_eq _ running) id
  | pipewrite addr n i =>
    rw [loop]
    split
    · split <;> exact .of_running running rfl id
    · exact .of_running running (wakeup1_proc_eq _ running) id
  | consoleread n target =>
    rw [loop]
    split
    · split
      · exact .of_running running rfl id
      · split <;> exact .of_running running rfl id
    · exact .of_running running rfl id
  | sysSleep n ticks0 =>
    rw [loop]
    split <;> exact .of_running running rfl id

/-- A process that goes on to sleep has found its flag clear. -/
theorem test_alert (frame : SleepFrame) : (s.test frame).Alert := by
  have commits : s.proc.killed ≠ true → ∀ place, (s.moveTo place).Alert := by
    intro unkilled place
    exact ⟨fun _ => Bool.eq_false_iff.mpr unkilled, fun sleeping => absurd sleeping (awake_of_running running)⟩
  unfold test
  split
  · split
    · exact .of_running running rfl id
    · next stays => exact commits (fun killed => stays (.inr killed)) _
  · split
    · exact .of_running running rfl id
    · next unkilled => exact commits unkilled _

end

theorem advance_alert (alert : s.Alert) (running : s.proc.state = .running)
    (ran : s.advance = .ok next) : next.Alert := by
  unfold advance at ran
  split at ran
  case h_1 => exact enter_alert running ran
  case h_2 frame _ =>
    cases ran
    exact loop_alert running frame
  case h_3 frame _ =>
    cases ran
    exact test_alert running frame
  case h_4 frame here =>
    cases ran
    have unkilled := alert.commits (by rw [here]; trivial)
    have same := wakeup1_proc_eq (.other s.chans.nread) running
    refine ⟨fun _ => ?_, fun sleeping => ?_⟩
    · change ((s.table.wakeup1 (.other s.chans.nread)).proc s.target).killed = false
      rw [same]
      exact unkilled
    · change ((s.table.wakeup1 (.other s.chans.nread)).proc s.target).state = .sleeping at sleeping
      rw [same] at sleeping
      exact absurd sleeping (awake_of_running running)
  case h_5 frame here =>
    cases ran
    have unkilled := alert.commits (by rw [here]; trivial)
    refine ⟨False.elim, fun _ => ⟨trivial, ?_⟩⟩
    change ((s.table.sleep s.target (frame.chan s.chans)).proc s.target).killed = false
    rw [sleep, set_self]
    exact unkilled
  case h_6 => exact acquire_alert running id ran
  case h_7 => cases ran
  case h_8 => cases ran
  case h_9 => cases ran

theorem schedule_alert (alert : s.Alert) : s.schedule.Alert := by
  have running : (s.withTable (s.table.setState s.target .running)).proc.state = .running := by
    change ((s.table.setState s.target .running).proc s.target).state = .running
    rw [setState, set_self]
  have tidy : (s.withTable ((s.table.setState s.target .running).tidy s.target)).proc.state = .running := by
    change (((s.table.setState s.target .running).tidy s.target).proc s.target).state = .running
    rw [tidy, set_self]
    exact running
  rw [schedule]
  split
  · exact .of_awake (awake_of_running tidy) id
  · exact wait_alert tidy
  · refine ⟨fun commits => ?_, fun sleeping => absurd sleeping (awake_of_running running)⟩
    change ((s.table.setState s.target .running).proc s.target).killed = false
    rw [setState, set_self]
    exact alert.commits commits

theorem kill_alert {pid : BitVec 32} (alert : s.Alert) (calm : ¬s.Slips (.kill pid)) :
    (s.withTable (s.table.kill pid).2).Alert := by
  refine ⟨fun commits => ?_, fun sleeping => ?_⟩
  · apply Bool.eq_false_iff.mpr
    intro killed
    exact calm ⟨pid, rfl, commits, killed⟩
  · change ((s.table.kill pid).2.proc s.target).state = .sleeping at sleeping
    change s.place.Sleeps ∧ ((s.table.kill pid).2.proc s.target).killed = false
    have unhit := kill_sleeping sleeping
    rw [unhit] at sleeping ⊢
    apply alert.awake
    exact sleeping

theorem guarded_ok {condition : Prop} [Decidable condition] {result : SleepSystem}
    (ran : guarded condition result = .ok next) : condition ∧ next = result := by
  rw [guarded] at ran
  split at ran
  · next holds => exact ⟨holds, (Except.ok.inj ran).symm⟩
  · cases ran

theorem step_alert (alert : s.Alert) (calm : ¬s.Slips event) (stepped : s.step event = .ok next) : next.Alert := by
  cases event with
  | call call =>
    rw [step] at stepped
    split at stepped
    · obtain ⟨running, rfl⟩ := guarded_ok stepped
      exact .of_running running rfl id
    · cases stepped
  | advance =>
    rw [step] at stepped
    split at stepped
    · next running => exact advance_alert alert running stepped
    · cases stepped
  | schedule =>
    obtain ⟨_, rfl⟩ := guarded_ok stepped
    exact schedule_alert alert
  | yield =>
    obtain ⟨⟨_, preempted⟩, rfl⟩ := guarded_ok stepped
    apply Alert.of_awake
    · change ((s.table.setState s.target .runnable).proc s.target).state ≠ .sleeping
      rw [setState, set_self]
      simp
    · intro commits
      change s.place.Commits at commits
      cases here : s.place with
      | waking | falling =>
        rw [here] at preempted
        cases preempted
      | _ =>
        rw [here] at commits
        exact commits
  | kill pid =>
    cases stepped
    exact kill_alert alert calm
  | acquire | release | setPipe | setInput | setTicks =>
    obtain ⟨_, rfl⟩ := guarded_ok stepped
    exact ⟨alert.commits, alert.awake⟩
  | setTable table =>
    obtain ⟨⟨killed, _, _, state⟩, rfl⟩ := guarded_ok stepped
    refine ⟨fun commits => killed.trans (alert.commits commits), fun sleeping => ?_⟩
    change (table.proc s.target).state = .sleeping at sleeping
    change _ ∧ (table.proc s.target).killed = false
    rw [killed]
    rcases state with same | ⟨_, woken⟩
    · exact alert.awake (same.symm.trans sleeping)
    · rw [woken] at sleeping
      cases sleeping

/-- The process runs outside of the calls. -/
structure Begins (system : SleepSystem) : Prop where
  place : ∃ ret, system.place = .out ret
  state : system.proc.state = .running

/-- In every run in which no `kill` falls between the test of the flag and the section of `sleep`, the process never
sleeps in one of the loops with its flag set. -/
theorem kill_reaches_sleeper {events : List SleepEvent} (begins : system.Begins)
    (calm : ∀ earlier event state, earlier ++ [event] <+: events → runEvents step earlier system = .ok state →
      ¬state.Slips event) (ran : runEvents step events system = .ok last) : ¬last.Lost := by
  suffices alert : last.Alert from alert.not_lost
  induction events using List.reverseRecOn generalizing last with
  | nil =>
    cases ran
    obtain ⟨ret, here⟩ := begins.place
    apply Alert.of_awake (awake_of_running begins.state)
    rw [here]
    exact id
  | append_singleton events event ih =>
    obtain ⟨middle, reached, stepped⟩ := runEvents_snoc.mp ran
    have alert := ih (fun earlier event state inside => calm earlier event state
      (inside.trans (List.prefix_append _ _))) reached
    exact step_alert alert (calm events event middle (List.prefix_refl _) reached) stepped

/-- The process with number 1 runs alone. The pipe has the given indices. -/
def sleeper (nread nwrite : BitVec 32) : SleepSystem where
  table := ⟨fun p => if p.val = 0 then ⟨.running, 1, none, .null, false⟩ else .zero, 2⟩
  target := ⟨0, NPROC_pos⟩
  chans := ⟨8, 16, 24, 32⟩
  pipe := ⟨fun _ => 0, nread, nwrite, true, true⟩
  input := ⟨fun _ => 0, 0, 0, 0⟩
  ticks := 0
  lock := fun _ => .free
  place := .out 0

theorem sleeper_begins (nread nwrite : BitVec 32) : (sleeper nread nwrite).Begins := ⟨⟨0, rfl⟩, rfl⟩

/-- The process is killed after it has gone to sleep on an empty pipe, and it runs on. -/
def killedAsleep : List SleepEvent :=
  [.call (.piperead 1), .advance, .advance, .advance, .advance, .kill 1, .schedule, .advance, .advance, .advance]

theorem kill_reaches_sleeper_asleep :
    ∃ last, runEvents step killedAsleep (sleeper 0 0) = .ok last ∧ last.proc.killed = true ∧ ¬last.Lost := by
  have observed : (runEvents step killedAsleep (sleeper 0 0)).toOption.map (fun system => system.proc.killed) =
      some true := by decide +kernel
  have before : (runEvents step (killedAsleep.take 5) (sleeper 0 0)).toOption.map (fun system =>
      decide system.place.Sleeps) = some true := by decide +kernel
  obtain ⟨last, ran, killed⟩ := exists_ok_of_observed observed
  obtain ⟨asleep, slept, sleeps⟩ := exists_ok_of_observed before
  refine ⟨last, ran, killed, kill_reaches_sleeper (sleeper_begins 0 0) ?_ ran⟩
  rintro earlier event state ⟨later, whole⟩ reached ⟨pid, rfl, commits, _⟩
  have position : killedAsleep[earlier.length]? = some (.kill pid) := by
    rw [← whole]
    simp
  have five : earlier.length = 5 := by
    have inside : earlier.length < killedAsleep.length := by
      rw [← whole]
      simp
    simp only [killedAsleep, List.length_cons, List.length_nil] at inside
    interval_cases length : earlier.length <;> simp [killedAsleep] at position ⊢
  have first : earlier = killedAsleep.take 5 := by
    rw [← whole, List.append_assoc, ← five, List.take_left]
  rw [first, slept] at reached
  cases reached
  have falling := of_decide_eq_true sleeps
  cases here : asleep.place with
  | waking | falling =>
    rw [here] at falling
    exact falling
  | _ =>
    rw [here] at commits
    exact commits

theorem lost_of_observed {outcome : Except SleepHalt SleepSystem}
    (observed : outcome.toOption.map (fun s => decide s.Lost) = some true) :
    ∃ last, outcome = .ok last ∧ last.Lost := by
  obtain ⟨last, ran, lost⟩ := exists_ok_of_observed observed
  exact ⟨last, ran, of_decide_eq_true lost⟩

/-- In each of the other loops, a `kill` after the test of the flag is lost. -/
theorem kill_lost_to_sleeper :
    (∃ last, runEvents step [.call (.piperead 1), .advance, .advance, .advance, .kill 1, .advance] (sleeper 0 0) =
      .ok last ∧ last.Lost) ∧
    (∃ last, runEvents step [.call (.pipewrite (fun _ => 7) 1), .advance, .advance, .advance, .advance, .kill 1, .advance]
      (sleeper 0 512) = .ok last ∧ last.Lost) ∧
    (∃ last, runEvents step [.call (.consoleread 1), .advance, .advance, .advance, .kill 1, .advance] (sleeper 0 0) =
      .ok last ∧ last.Lost) ∧
    ∃ last, runEvents step [.call (.sysSleep 5), .advance, .advance, .advance, .kill 1, .advance] (sleeper 0 0) =
      .ok last ∧ last.Lost := by
  refine ⟨lost_of_observed ?_, lost_of_observed ?_, lost_of_observed ?_, lost_of_observed ?_⟩ <;> decide +kernel

end SleepSystem
end Xv6
