import Xv6.Construction.Proc

namespace Xv6
open Library List

/-- A process in one of these states has returned from `fork` and has not exited. -/
def ProcState.Alive : ProcState → Prop
  | .sleeping | .runnable | .running => True
  | _ => False

theorem ProcState.Alive.used {state : ProcState} (alive : state.Alive) : state ≠ .unused := by
  rintro rfl
  exact alive

theorem ProcState.Alive.undead {state : ProcState} (alive : state.Alive) : state ≠ .zombie := by
  rintro rfl
  exact alive

/-- The slot that a process fills in `fork`. -/
def ProcPlace.forks : ProcPlace → Option (Fin NPROC)
  | .allocated np | .copying np | .starting np => some np
  | _ => none

/-- A process at one of these places is in `exit`. -/
def ProcPlace.Leaves : ProcPlace → Prop
  | .exiting | .exitAsleep => True
  | _ => False

namespace Ptable
variable {table : Ptable} {p q head initproc : Fin NPROC} {first second wakes : Prop}

@[simp] theorem set_self (value : ProcSlot) : (table.set p value).proc p = value := Function.update_self ..

theorem set_of_ne (value : ProcSlot) (ne : q ≠ p) : (table.set p value).proc q = table.proc q :=
  Function.update_of_ne ne ..

theorem set_proc (value : ProcSlot) (q : Fin NPROC) :
    (table.set p value).proc q = if q = p then value else table.proc q := by
  simp [set, Function.update_apply]

/-- The fields of a process after a call of `wakeup1` that happens under a condition. -/
def roused (wakes : Prop) [Decidable wakes] (chan : Chan) (old : ProcSlot) : ProcSlot :=
  if wakes ∧ old.state = .sleeping ∧ old.chan = chan then {old with state := .runnable} else old

/-- The fields of a process after the loop of `exit` has passed it to init. -/
def handed (initproc proc : Fin NPROC) (old : ProcSlot) : ProcSlot :=
  {old with parent := if old.parent = some proc then some initproc else old.parent}

theorem roused_congr [Decidable first] [Decidable second] (same : first ↔ second) (chan : Chan) (old : ProcSlot)
    : roused first chan old = roused second chan old := by
  simp only [roused, same]

/-- Two calls of `wakeup1` on one channel wake the same processes as one call. -/
theorem roused_roused [Decidable first] [Decidable second] (chan : Chan) (old : ProcSlot) :
    roused first chan (roused second chan old) = roused (second ∨ first) chan old := by
  by_cases sleeps : old.state = .sleeping ∧ old.chan = chan
  · by_cases wakes : second <;> simp [roused, sleeps, wakes]
  · simp [roused, sleeps]

theorem handed_roused [Decidable wakes] (chan : Chan) (old : ProcSlot) :
    handed initproc p (roused wakes chan old) = roused wakes chan (handed initproc p old) := by
  by_cases sleeps : wakes ∧ old.state = .sleeping ∧ old.chan = chan
  · rw [roused, roused, if_pos sleeps]
    exact (if_pos sleeps).symm
  · rw [roused, roused, if_neg sleeps]
    exact (if_neg sleeps).symm

@[simp] theorem roused_parent [Decidable wakes] (chan : Chan) (old : ProcSlot) :
    (roused wakes chan old).parent = old.parent := by
  simp [roused, apply_ite]

@[simp] theorem roused_pid [Decidable wakes] (chan : Chan) (old : ProcSlot) :
    (roused wakes chan old).pid = old.pid := by
  simp [roused, apply_ite]

@[simp] theorem roused_chan [Decidable wakes] (chan : Chan) (old : ProcSlot) :
    (roused wakes chan old).chan = old.chan := by
  simp [roused, apply_ite]

theorem roused_state [Decidable wakes] (chan : Chan) (old : ProcSlot) :
    (roused wakes chan old).state = if wakes ∧ old.state = .sleeping ∧ old.chan = chan then .runnable else old.state :=
  apply_ite ProcSlot.state ..

theorem wakeup1_proc (chan : Chan) (q : Fin NPROC) : (table.wakeup1 chan).proc q = roused True chan (table.proc q) := by
  simp [wakeup1, roused]

/-- The slot holds a child of the process that has exited. -/
def ZombieChild (table : Ptable) (proc p : Fin NPROC) : Prop :=
  (table.proc p).parent = some proc ∧ (table.proc p).state = .zombie

instance (table : Ptable) (proc p : Fin NPROC) : Decidable (table.ZombieChild proc p) :=
  inferInstanceAs (Decidable (_ ∧ _))

theorem passChild_proc (q : Fin NPROC) : (passChild initproc p table head).proc q =
      roused (table.ZombieChild p head) (.proc initproc)
        (if q = head then handed initproc p (table.proc q) else table.proc q) := by
  by_cases child : (table.proc head).parent = some p
  · by_cases dead : (table.proc head).state = .zombie
    · by_cases here : q = head
      · subst here
        simp [passChild, child, dead, wakeup1, roused, handed]
      · simp [passChild, child, dead, wakeup1, roused, ZombieChild, here, set_of_ne]
    · by_cases here : q = head
      · subst here
        simp [passChild, child, dead, roused, handed, ZombieChild]
      · simp [passChild, child, dead, roused, ZombieChild, here, set_of_ne]
  · by_cases here : q = head
    · subst here
      simp [passChild, child, roused, handed, ZombieChild]
    · simp [passChild, child, roused, ZombieChild, here]

/-- The loop of `exit` passes every child in its list and wakes init if one of them has exited. -/
theorem passChildren_proc {slots : List (Fin NPROC)} (once : slots.Nodup) (table : Ptable) (q : Fin NPROC) :
    (slots.foldl (passChild initproc p) table).proc q =
      roused (∃ child ∈ slots, table.ZombieChild p child) (.proc initproc)
        (if q ∈ slots then handed initproc p (table.proc q) else table.proc q) := by
  induction slots generalizing table with
  | nil => simp [roused]
  | cons head rest ih =>
    obtain ⟨outside, once⟩ := nodup_cons.mp once
    have same : ∀ child ∈ rest, (passChild initproc p table head).ZombieChild p child ↔ table.ZombieChild p child := by
      intro child inside
      have ne : child ≠ head := fun equal => outside (equal ▸ inside)
      simp only [ZombieChild, passChild_proc, if_neg ne, roused]
      split <;> simp_all
    have either : (table.ZombieChild p head ∨ ∃ child ∈ rest, (passChild initproc p table head).ZombieChild p child) ↔
        ∃ child ∈ head :: rest, table.ZombieChild p child := by
      rw [exists_mem_cons_iff]
      exact or_congr_right (exists_congr fun child => and_congr_right (same child))
    rw [foldl_cons, ih once, passChild_proc]
    by_cases here : q = head
    · rw [if_neg (here ▸ outside), if_pos here, if_pos (here ▸ mem_cons_self), roused_roused]
      exact roused_congr either ..
    · by_cases inside : q ∈ rest
      · rw [if_pos inside, if_neg here, if_pos (mem_cons_of_mem _ inside), handed_roused, roused_roused]
        exact roused_congr either ..
      · rw [if_neg inside, if_neg here, if_neg (by simp [here, inside]), roused_roused]
        exact roused_congr either ..

/-- The section of `exit` wakes the parent, passes all children and may wake init. -/
theorem exit_proc (q : Fin NPROC) : (table.exit initproc p).proc q =
      let passed := roused (∃ child, table.ZombieChild p child) (.proc initproc)
        (handed initproc p (roused True (parentChan (table.proc p).parent) (table.proc q)))
      if q = p then {passed with state := .zombie} else passed := by
  have same : ∀ child, (table.wakeup1 (parentChan (table.proc p).parent)).ZombieChild p child ↔ table.ZombieChild p child := by
    intro child
    simp only [ZombieChild, wakeup1_proc, roused_parent, roused_state]
    split <;> simp_all
  simp only [exit, setState, set_proc, passChildren_proc (nodup_finRange _), mem_finRange, if_true,
    true_and, wakeup1_proc, same]
  split <;> simp_all

theorem scan_reaps {child : Fin NPROC} (found : table.scan p = .reaps child) : table.ZombieChild p child := by
  unfold scan at found
  split at found
  case h_1 first search =>
    cases found
    simpa [ZombieChild] using find?_some search
  case h_2 => split at found <;> cases found

theorem scan_sleeps (found : table.scan p = .sleeps) (child : Fin NPROC) : ¬table.ZombieChild p child := by
  unfold scan at found
  split at found
  case h_1 => cases found
  case h_2 search =>
    intro dead
    have missing := find?_eq_none.mp search child (mem_finRange child)
    simp only [decide_eq_true_eq] at missing
    exact missing dead

theorem allocproc_some {np : Fin NPROC} {taken : Ptable} (found : table.allocproc = some (np, taken)) :
    (table.proc np).state = .unused ∧ taken = table.take np := by
  unfold allocproc at found
  split at found
  · cases found
  case h_2 search =>
    cases found
    have unused := find?_some search
    exact ⟨of_decide_eq_true unused, rfl⟩

/-- A call of `kill` changes only the flag of one process and may wake it. -/
theorem kill_proc (pid : BitVec 32) (q : Fin NPROC) : ((table.kill pid).2.proc q).parent = (table.proc q).parent ∧
      ((table.kill pid).2.proc q).pid = (table.proc q).pid ∧
      ((table.kill pid).2.proc q).chan = (table.proc q).chan ∧
      (((table.kill pid).2.proc q).state = (table.proc q).state ∨
        (table.proc q).state = .sleeping ∧ ((table.kill pid).2.proc q).state = .runnable) := by
  unfold kill
  split
  case h_1 found search =>
    simp only [set_proc]
    split
    case isTrue here =>
      subst here
      split <;> simp_all
    case isFalse => simp
  case h_2 => simp

end Ptable

namespace ProcSystem

def chan (system : ProcSystem) (p : Fin NPROC) : Chan := (system.table.proc p).chan

def pid (system : ProcSystem) (p : Fin NPROC) : BitVec 32 := (system.table.proc p).pid

/-- The state after the first section of `fork`. -/
def taken (system : ProcSystem) (p np : Fin NPROC) : ProcSystem :=
  ((system.withTable (system.table.take np)).bear np).moveTo p (.allocated np)

/-- This relation lists everything that one event can do. -/
inductive Step (system : ProcSystem) : ProcEvent → ProcSystem → Prop where
  | crowded {p : Fin NPROC} {ret : BitVec 32} (runs : system.state p = .running) (here : system.place p = .out ret) :
      Step system (.run p .fork) (system.moveTo p (.out (-1)))
  | take {p np : Fin NPROC} {ret : BitVec 32} (runs : system.state p = .running) (here : system.place p = .out ret)
      (free : system.state np = .unused) :
      Step system (.run p .fork) (system.taken p np)
  | stack {p np : Fin NPROC} (runs : system.state p = .running) (here : system.place p = .allocated np) :
      Step system (.run p (.kalloc true)) (system.moveTo p (.copying np))
  | giveBack {p np : Fin NPROC} {act : ProcAct} (runs : system.state p = .running)
      (here : system.place p = .allocated np ∨ system.place p = .copying np) :
      Step system (.run p act) (system.giveBack p np)
  | adopt {p np : Fin NPROC} (runs : system.state p = .running) (here : system.place p = .copying np) :
      Step system (.run p (.copyuvm true)) (system.adopt p np)
  | start {p np : Fin NPROC} (runs : system.state p = .running) (here : system.place p = .starting np) :
      Step system (.run p .start) (system.start p np)
  | exit {p : Fin NPROC} {ret : BitVec 32} (runs : system.state p = .running) (here : system.place p = .out ret)
      (other : p ≠ system.initproc) : Step system (.run p .exit) (system.moveTo p .exiting)
  | leave {p : Fin NPROC} (runs : system.state p = .running) (here : system.place p = .exiting) :
      Step system (.run p .leave) (system.leave p)
  | wait {p : Fin NPROC} {ret : BitVec 32} (runs : system.state p = .running) (here : system.place p = .out ret) :
      Step system (.run p .wait) (system.wait p)
  | kill {p : Fin NPROC} {ret pid : BitVec 32} (runs : system.state p = .running) (here : system.place p = .out ret) :
      Step system (.run p (.kill pid))
        ((system.withTable (system.table.kill pid).2).moveTo p (.out (system.table.kill pid).1))
  | sleep {p : Fin NPROC} {addr : BitVec 64} {place : ProcPlace} (runs : system.state p = .running)
      (here : (∃ ret, system.place p = .out ret ∧ place = .asleep ret) ∨
        system.place p = .exiting ∧ place = .exitAsleep) :
      Step system (.run p (.sleep addr)) ((system.withTable (system.table.sleep p (.other addr))).moveTo p place)
  | yield {p : Fin NPROC} (runs : system.state p = .running) :
      Step system (.run p .yield) (system.withTable (system.table.setState p .runnable))
  | wakeup {addr : BitVec 64} : Step system (.wakeup addr) (system.withTable (system.table.wakeup1 (.other addr)))
  | schedule {p : Fin NPROC} (ready : system.state p = .runnable) : Step system (.schedule p) (system.schedule p)

variable {s next : ProcSystem} {event : ProcEvent} {p : Fin NPROC}

theorem fork_step {ret : BitVec 32} (runs : s.state p = .running) (here : s.place p = .out ret) :
    Step s (.run p .fork) (s.fork p) := by
  unfold fork
  split
  · exact .crowded runs here
  case h_2 np table found =>
    obtain ⟨free, rfl⟩ := Ptable.allocproc_some found
    exact .take runs here free

/-- A round of `wait` returns a child, fails, or sleeps without an exited child. -/
theorem wait_cases (s : ProcSystem) (p : Fin NPROC) :
    (∃ child, s.table.ZombieChild p child ∧ s.wait p = s.collect p child) ∨ s.wait p = s.moveTo p (.out (-1)) ∨
      (∀ child, ¬s.table.ZombieChild p child) ∧
        s.wait p = (s.withTable (s.table.sleep p (.proc p))).moveTo p .waiting := by
  cases found : s.table.scan p with
  | reaps child =>
    left
    refine ⟨child, Ptable.scan_reaps found, ?_⟩
    simp [wait, found]
  | fails =>
    right
    left
    simp [wait, found]
  | sleeps =>
    right
    right
    refine ⟨Ptable.scan_sleeps found, ?_⟩
    simp [wait, found]

theorem act_step {act : ProcAct} (runs : s.state p = .running)
    (ran : s.act p act (s.place p) = .ok next) : Step s (.run p act) next := by
  unfold ProcSystem.act at ran
  split at ran
  case h_1 here => exact Except.ok.inj ran ▸ fork_step runs here
  case h_2 here => exact Except.ok.inj ran ▸ .stack runs here
  case h_3 here => exact Except.ok.inj ran ▸ .giveBack runs (.inl here)
  case h_4 here => exact Except.ok.inj ran ▸ .adopt runs here
  case h_5 here => exact Except.ok.inj ran ▸ .giveBack runs (.inr here)
  case h_6 here => exact Except.ok.inj ran ▸ .start runs here
  case h_7 here =>
    split at ran
    · cases ran
    case isFalse other => exact Except.ok.inj ran ▸ .exit runs here other
  case h_8 here => exact Except.ok.inj ran ▸ .leave runs here
  case h_9 here => exact Except.ok.inj ran ▸ .wait runs here
  case h_10 here => exact Except.ok.inj ran ▸ .kill runs here
  case h_11 ret here => exact Except.ok.inj ran ▸ .sleep runs (.inl ⟨ret, here, rfl⟩)
  case h_12 here => exact Except.ok.inj ran ▸ .sleep runs (.inr ⟨here, rfl⟩)
  case h_13 => exact Except.ok.inj ran ▸ .yield runs
  case h_14 => cases ran

/-- Every event that is possible is a step. -/
theorem step_sound (ran : s.step event = .ok next) : Step s event next := by
  cases event with
  | run p act =>
    simp only [step] at ran
    split at ran
    case isTrue runs => exact act_step runs ran
    case isFalse => cases ran
  | wakeup addr => exact Except.ok.inj ran ▸ .wakeup
  | schedule p =>
    simp only [step] at ran
    split at ran
    case isTrue ready => exact Except.ok.inj ran ▸ .schedule ready
    case isFalse => cases ran

end ProcSystem
end Xv6
