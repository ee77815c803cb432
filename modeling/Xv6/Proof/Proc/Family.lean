import Xv6.Proof.Proc.Steps

namespace Xv6
open Library
open Ptable (set_proc wakeup1_proc kill_proc take setState exit_proc handed reap)

attribute [grind] ProcState.Alive ProcPlace.forks ProcPlace.Leaves

namespace ProcSystem
variable {system s next : ProcSystem} {event : ProcEvent} {p np child : Fin NPROC} {place : ProcPlace} {table : Ptable}

@[simp] theorem moveTo_table : (s.moveTo p place).table = s.table := rfl

@[simp] theorem moveTo_state (q : Fin NPROC) : (s.moveTo p place).state q = s.state q := rfl

@[simp] theorem moveTo_chan (q : Fin NPROC) : (s.moveTo p place).chan q = s.chan q := rfl

@[grind =] theorem moveTo_place (q : Fin NPROC) : (s.moveTo p place).place q = if q = p then place else s.place q :=
  Function.update_apply ..

@[simp] theorem withTable_table : (s.withTable table).table = table := rfl

@[simp, grind =] theorem withTable_place (q : Fin NPROC) : (s.withTable table).place q = s.place q := rfl

theorem withTable_state (q : Fin NPROC) : (s.withTable table).state q = (table.proc q).state := rfl

theorem withTable_chan (q : Fin NPROC) : (s.withTable table).chan q = (table.proc q).chan := rfl

/-- Every process that has left `fork` has a parent that can still call `wait`. -/
structure Family (system : ProcSystem) : Prop where
  initAlive : (system.state system.initproc).Alive
  initStays : ¬(system.place system.initproc).Leaves
  unused : ∀ p, system.state p = .unused → system.parent p = none
  embryo : ∀ p q, system.state p = .embryo → system.parent p = some q → system.place q = .starting p
  parented : ∀ p, (system.state p).Alive ∨ system.state p = .zombie → p ≠ system.initproc →
    ∃ q, system.parent p = some q ∧ q ≠ p ∧ (system.state q).Alive
  forking : ∀ q np, (system.place q).forks = some np → (system.state q).Alive ∧ system.state np = .embryo
  sole : ∀ q r np, (system.place q).forks = some np → (system.place r).forks = some np → q = r
  starter : ∀ q np, system.place q = .starting np → system.parent np = some q

/-- A step of this kind moves living processes only between living states and touches no call of `fork`. -/
structure Calm (system next : ProcSystem) : Prop where
  initproc : next.initproc = system.initproc
  serial : next.serial = system.serial
  births : next.births = system.births
  history : next.history = system.history
  pid : ∀ q, next.pid q = system.pid q
  parent : ∀ q, next.parent q = system.parent q
  state : ∀ q, next.state q = system.state q ∨ (system.state q).Alive ∧ (next.state q).Alive
  forks : ∀ q, (next.place q).forks = (system.place q).forks
  starting : ∀ q np, next.place q = .starting np ↔ system.place q = .starting np
  stays : ¬(system.place system.initproc).Leaves → ¬(next.place system.initproc).Leaves

theorem Calm.alive (calm : Calm s next) (q : Fin NPROC) : (next.state q).Alive ↔ (s.state q).Alive := by
  rcases calm.state q with same | ⟨before, after⟩
  · rw [same]
  · exact iff_of_true after before

theorem Calm.dead (calm : Calm s next) {q : Fin NPROC} {state : ProcState} (dead : ¬state.Alive) :
    next.state q = state ↔ s.state q = state := by
  rcases calm.state q with same | ⟨before, after⟩
  · rw [same]
  · apply iff_of_false
    · intro equal
      exact dead (equal ▸ after)
    · intro equal
      exact dead (equal ▸ before)

theorem Family.calm (family : s.Family) (calm : Calm s next) : next.Family where
  initAlive := by
    rw [calm.initproc, calm.alive]
    exact family.initAlive
  initStays := by
    rw [calm.initproc]
    exact calm.stays family.initStays
  unused p free := by
    rw [calm.parent]
    exact family.unused p ((calm.dead id).mp free)
  embryo p q new has := by
    rw [calm.parent] at has
    rw [calm.starting]
    exact family.embryo p q ((calm.dead id).mp new) has
  parented p left other := by
    rw [calm.alive, calm.dead id] at left
    obtain ⟨q, has, ne, alive⟩ := family.parented p left (calm.initproc ▸ other)
    exact ⟨q, (calm.parent p).trans has, ne, (calm.alive q).mpr alive⟩
  forking q np forks := by
    rw [calm.alive, calm.dead id]
    exact family.forking q np (calm.forks q ▸ forks)
  sole q r np first second := family.sole q r np (calm.forks q ▸ first) (calm.forks r ▸ second)
  starter q np starts := by
    rw [calm.parent]
    exact family.starter q np ((calm.starting q np).mp starts)

/-- A table changes only states of living processes, between living states. -/
structure Stirred (before after : Ptable) : Prop where
  pid : ∀ q, (after.proc q).pid = (before.proc q).pid
  parent : ∀ q, (after.proc q).parent = (before.proc q).parent
  state : ∀ q, (after.proc q).state = (before.proc q).state ∨
    (before.proc q).state.Alive ∧ (after.proc q).state.Alive

theorem Stirred.trans {first second third : Ptable} (one : Stirred first second) (two : Stirred second third) :
    Stirred first third where
  pid q := (two.pid q).trans (one.pid q)
  parent q := (two.parent q).trans (one.parent q)
  state q := by
    rcases two.state q with same | ⟨before, after⟩
    · rw [same]
      exact one.state q
    · rcases one.state q with same | ⟨alive, _⟩
      · exact .inr ⟨same ▸ before, after⟩
      · exact .inr ⟨alive, after⟩

/-- A living process gets another living state or another channel. -/
theorem Stirred.set {value : ProcSlot} (before : (table.proc p).state.Alive) (after : value.state.Alive)
    (pid : value.pid = (table.proc p).pid) (parent : value.parent = (table.proc p).parent) :
    Stirred table (table.set p value) where
  pid q := by
    rw [set_proc]
    split
    case isTrue here => exact here ▸ pid
    case isFalse => rfl
  parent q := by
    rw [set_proc]
    split
    case isTrue here => exact here ▸ parent
    case isFalse => rfl
  state q := by
    rw [set_proc]
    split
    case isTrue here => exact .inr ⟨here ▸ before, after⟩
    case isFalse => exact .inl rfl

theorem Stirred.wakeup1 (chan : Chan) : Stirred table (table.wakeup1 chan) where
  pid q := by rw [wakeup1_proc, Ptable.roused_pid]
  parent q := by rw [wakeup1_proc, Ptable.roused_parent]
  state q := by
    rw [wakeup1_proc, Ptable.roused_state]
    split
    case isTrue sleeps => exact .inr ⟨sleeps.2.1 ▸ trivial, trivial⟩
    case isFalse => exact .inl rfl

theorem Stirred.kill (pid : BitVec 32) : Stirred table (table.kill pid).2 where
  pid q := (kill_proc pid q).2.1
  parent q := (kill_proc pid q).1
  state q := by
    rcases (kill_proc pid q).2.2.2 with same | ⟨sleeps, wakes⟩
    · exact .inl same
    · rw [sleeps, wakes]
      exact .inr ⟨trivial, trivial⟩

theorem Calm.withTable (stirred : Stirred s.table table) : Calm s (s.withTable table) where
  initproc := rfl
  serial := rfl
  births := rfl
  history := rfl
  pid := stirred.pid
  parent := stirred.parent
  state := stirred.state
  forks _ := rfl
  starting _ _ := Iff.rfl
  stays := id

theorem Calm.refl : Calm s s := .withTable ⟨fun _ => rfl, fun _ => rfl, fun _ => .inl rfl⟩

theorem Calm.trans {middle : ProcSystem} (one : Calm s middle) (two : Calm middle next) : Calm s next where
  initproc := two.initproc.trans one.initproc
  serial := two.serial.trans one.serial
  births := two.births.trans one.births
  history := two.history.trans one.history
  pid q := (two.pid q).trans (one.pid q)
  parent q := (two.parent q).trans (one.parent q)
  state := (Stirred.trans ⟨one.pid, one.parent, one.state⟩ ⟨two.pid, two.parent, two.state⟩).state
  forks q := (two.forks q).trans (one.forks q)
  starting q np := (two.starting q np).trans (one.starting q np)
  stays outside := by
    have further := two.stays
    rw [one.initproc] at further
    exact further (one.stays outside)

theorem Calm.moveTo (same : place.forks = (s.place p).forks)
    (starting : ∀ np, place = .starting np ↔ s.place p = .starting np)
    (stays : p = s.initproc → place.Leaves → (s.place p).Leaves) : Calm s (s.moveTo p place) where
  initproc := rfl
  serial := rfl
  births := rfl
  history := rfl
  pid _ := rfl
  parent _ := rfl
  state _ := .inl rfl
  forks q := by
    rw [moveTo_place]
    split
    case isTrue here => rw [here, same]
    case isFalse => rfl
  starting q np := by
    rw [moveTo_place]
    split
    case isTrue here => rw [here, starting]
    case isFalse => rfl
  stays outside := by
    rw [moveTo_place]
    split
    case isTrue here =>
      intro leaves
      apply outside
      rw [here]
      exact stays here.symm leaves
    case isFalse => exact outside

theorem ProcPlace.not_starting (idle : place.forks = none) (np : Fin NPROC) : place ≠ .starting np := by
  rintro rfl
  cases idle

theorem Calm.idle (idle : (s.place p).forks = none) (goes : place.forks = none)
    (stays : p = s.initproc → place.Leaves → (s.place p).Leaves) : Calm s (s.moveTo p place) := by
  apply Calm.moveTo _ _ stays
  · rw [idle, goes]
  · intro np
    exact iff_of_false (ProcPlace.not_starting goes np) (ProcPlace.not_starting idle np)

@[grind =] theorem taken_state (q : Fin NPROC) : (s.taken p np).state q = if q = np then .embryo else s.state q := by
  simp only [state, taken, moveTo_table, bear, withTable, take, set_proc]
  split <;> rfl

@[grind =] theorem taken_parent (q : Fin NPROC) : (s.taken p np).parent q = s.parent q := by
  simp only [parent, taken, moveTo_table, bear, withTable, take, set_proc]
  split
  case isTrue here => rw [here]
  case isFalse => rfl

@[grind =] theorem taken_place (q : Fin NPROC) :
    (s.taken p np).place q = if q = p then .allocated np else s.place q := Function.update_apply ..

@[grind =] theorem taken_initproc : (s.taken p np).initproc = s.initproc := rfl

/-- An unused slot has no children, so it can become an embryo. -/
theorem Family.taken (family : s.Family) (alive : (s.state p).Alive) (idle : (s.place p).forks = none)
    (free : s.state np = .unused) : (s.taken p np).Family where
  initAlive := by
    have alive := family.initAlive
    grind
  initStays := by
    have stays := family.initStays
    grind
  unused q free := by
    rw [taken_parent]
    apply family.unused
    grind
  embryo q r new has := by
    rw [taken_parent] at has
    have orphan := family.unused np free
    have starts := family.embryo q r
    grind
  parented q left other := by
    have held := family.parented q
    grind
  forking q slot forks := by
    have busy := family.forking q slot
    grind
  sole q r slot first second := by
    have alone := family.sole q r slot
    have used := fun other => (family.forking other slot · |>.2)
    grind
  starter q slot starts := by
    rw [taken_parent]
    apply family.starter
    grind

@[grind =] theorem giveBack_state (q : Fin NPROC) : (s.giveBack p np).state q = if q = np then .unused else s.state q := by
  simp only [state, giveBack, moveTo_table, withTable_table, setState, set_proc]
  split <;> rfl

@[grind =] theorem giveBack_parent (q : Fin NPROC) : (s.giveBack p np).parent q = s.parent q := by
  simp only [parent, giveBack, moveTo_table, withTable_table, setState, set_proc]
  split
  case isTrue here => rw [here]
  case isFalse => rfl

@[grind =] theorem giveBack_place (q : Fin NPROC) :
    (s.giveBack p np).place q = if q = p then .out (-1) else s.place q := Function.update_apply ..

@[grind =] theorem giveBack_initproc : (s.giveBack p np).initproc = s.initproc := rfl

/-- A process has no parent before the memory is copied. -/
theorem Family.orphan (family : s.Family) (here : s.place p = .allocated np ∨ s.place p = .copying np) :
    s.parent np = none := by
  have forks : (s.place p).forks = some np := by
    rcases here with here | here <;> rw [here] <;> rfl
  cases has : s.parent np with
  | none => rfl
  | some q =>
    have starts := family.embryo np q (family.forking p np forks).2 has
    have same := family.sole q p np (by rw [starts]; rfl) forks
    subst same
    rcases here with here | here <;> rw [here] at starts <;> cases starts

theorem Family.giveBack (family : s.Family)
    (here : s.place p = .allocated np ∨ s.place p = .copying np) : (s.giveBack p np).Family where
  initAlive := by
    have alive := family.initAlive
    have busy := family.forking p np
    grind
  initStays := by
    have stays := family.initStays
    grind
  unused q free := by
    rw [giveBack_parent]
    have orphan := family.orphan here
    have others := family.unused q
    grind
  embryo q r new has := by
    rw [giveBack_parent] at has
    have starts := family.embryo q r
    grind
  parented q left other := by
    have held := family.parented q
    have busy := family.forking p np
    grind
  forking q slot forks := by
    have busy := family.forking q slot
    have own := family.forking p np
    have alone := family.sole q p np
    grind
  sole q r slot first second := by
    have alone := family.sole q r slot
    grind
  starter q slot starts := by
    rw [giveBack_parent]
    apply family.starter
    grind

@[grind =] theorem adopt_state (q : Fin NPROC) : (s.adopt p np).state q = s.state q := by
  simp only [state, adopt, moveTo_table, withTable_table, set_proc]
  split
  case isTrue here => rw [here]
  case isFalse => rfl

@[grind =] theorem adopt_parent (q : Fin NPROC) : (s.adopt p np).parent q = if q = np then some p else s.parent q := by
  simp only [parent, adopt, moveTo_table, withTable_table, set_proc]
  split <;> rfl

@[grind =] theorem adopt_place (q : Fin NPROC) :
    (s.adopt p np).place q = if q = p then .starting np else s.place q := Function.update_apply ..

@[grind =] theorem adopt_initproc : (s.adopt p np).initproc = s.initproc := rfl

theorem Family.adopt (family : s.Family) (here : s.place p = .copying np) : (s.adopt p np).Family where
  initAlive := by
    rw [adopt_state, adopt_initproc]
    exact family.initAlive
  initStays := by
    have stays := family.initStays
    grind
  unused q free := by
    have others := family.unused q
    have busy := family.forking p np
    grind
  embryo q r new has := by
    have starts := family.embryo q r
    grind
  parented q left other := by
    have held := family.parented q
    have busy := family.forking p np
    grind
  forking q slot forks := by
    have busy := family.forking q slot
    grind
  sole q r slot first second := by
    have alone := family.sole q r slot
    grind
  starter q slot starts := by
    have held := family.starter q slot
    have alone := family.sole q p np
    grind

@[grind =] theorem start_state (q : Fin NPROC) : (s.start p np).state q = if q = np then .runnable else s.state q := by
  simp only [state, start, moveTo_table, record, withTable_table, setState, set_proc]
  split <;> rfl

@[grind =] theorem start_parent (q : Fin NPROC) : (s.start p np).parent q = s.parent q := by
  simp only [parent, start, moveTo_table, record, withTable_table, setState, set_proc]
  split
  case isTrue here => rw [here]
  case isFalse => rfl

@[grind =] theorem start_place (q : Fin NPROC) :
    (s.start p np).place q = if q = p then .out (s.table.proc np).pid else if q = np then .out 0 else s.place q := by
  rw [start, moveTo_place, moveTo_place]
  rfl

@[grind =] theorem start_initproc : (s.start p np).initproc = s.initproc := rfl

theorem Family.start (family : s.Family) (here : s.place p = .starting np) : (s.start p np).Family where
  initAlive := by
    have alive := family.initAlive
    grind
  initStays := by
    have stays := family.initStays
    grind
  unused q free := by
    rw [start_parent]
    apply family.unused
    grind
  embryo q r new has := by
    rw [start_parent] at has
    have starts := family.embryo q r
    have busy := family.forking r q
    have own := family.forking p np
    grind
  parented q left other := by
    have held := family.parented q
    have busy := family.forking p np
    have starts := family.starter p np here
    grind
  forking q slot forks := by
    have busy := family.forking q slot
    have alone := family.sole q p np
    grind
  sole q r slot first second := by
    have alone := family.sole q r slot
    grind
  starter q slot starts := by
    rw [start_parent]
    apply family.starter
    grind

theorem leave_self : (s.leave p).state p = .zombie := by
  simp [state, leave, record, exit_proc]

theorem leave_state (s : ProcSystem) {q : Fin NPROC} (ne : q ≠ p) :
    (s.leave p).state q = s.state q ∨ s.state q = .sleeping ∧ (s.leave p).state q = .runnable := by
  simp only [state, leave, moveTo_table, record, withTable_table, exit_proc, if_neg ne, Ptable.roused_state,
    handed]
  split <;> split <;> simp_all

@[grind =] theorem leave_parent (q : Fin NPROC) :
    (s.leave p).parent q = if s.parent q = some p then some s.initproc else s.parent q := by
  simp only [parent, leave, moveTo_table, record, withTable_table, exit_proc]
  split <;> simp only [Ptable.roused_parent, handed] <;> rfl

@[grind =] theorem leave_place (q : Fin NPROC) :
    (s.leave p).place q = if q = p then .out 0 else s.place q := Function.update_apply ..

@[grind =] theorem leave_initproc : (s.leave p).initproc = s.initproc := rfl

theorem Family.not_init (family : s.Family) (here : s.place p = .exiting) : p ≠ s.initproc := by
  rintro rfl
  apply family.initStays
  rw [here]
  trivial

theorem Family.leave (family : s.Family) (alive : (s.state p).Alive) (here : s.place p = .exiting) :
    (s.leave p).Family := by
  have other := family.not_init here
  have states : ∀ q, q ≠ p → (s.leave p).state q = s.state q ∨
      s.state q = .sleeping ∧ (s.leave p).state q = .runnable := fun q => leave_state s
  have ends : (s.leave p).state p = .zombie := leave_self
  constructor
  case initAlive =>
    have alive := family.initAlive
    grind
  case initStays =>
    have stays := family.initStays
    grind
  case unused =>
    intro q free
    have orphan := family.unused q
    grind
  case embryo =>
    intro q r new has
    have starts := family.embryo q
    grind
  case parented =>
    intro q left ne
    have held := family.parented q
    have initAlive := family.initAlive
    grind
  case forking =>
    intro q slot forks
    have busy := family.forking q slot
    grind
  case sole =>
    intro q r slot first second
    have alone := family.sole q r slot
    grind
  case starter =>
    intro q slot starts
    have held := family.starter q slot
    grind

@[grind =] theorem collect_state (q : Fin NPROC) : (s.collect p child).state q = if q = child then .unused else s.state q := by
  simp only [state, collect, moveTo_table, record, withTable_table, reap, set_proc]
  split <;> rfl

@[grind =] theorem collect_parent (q : Fin NPROC) : (s.collect p child).parent q = if q = child then none else s.parent q := by
  simp only [parent, collect, moveTo_table, record, withTable_table, reap, set_proc]
  split <;> rfl

@[grind =] theorem collect_place (q : Fin NPROC) :
    (s.collect p child).place q = if q = p then .out (s.table.proc child).pid else s.place q :=
  Function.update_apply ..

@[grind =] theorem collect_initproc : (s.collect p child).initproc = s.initproc := rfl

/-- An exited process has no children, so its slot can be cleared. -/
theorem Family.collect (family : s.Family) (idle : (s.place p).forks = none)
    (dead : s.state child = .zombie) : (s.collect p child).Family where
  initAlive := by
    have alive := family.initAlive
    grind
  initStays := by
    have stays := family.initStays
    grind
  unused q free := by
    have orphan := family.unused q
    grind
  embryo q r new has := by
    have starts := family.embryo q r
    grind
  parented q left other := by
    have held := family.parented q
    grind
  forking q slot forks := by
    have busy := family.forking q slot
    grind
  sole q r slot first second := by
    have alone := family.sole q r slot
    grind
  starter q slot starts := by
    have held := family.starter q slot
    have busy := family.forking q slot
    grind

/-- The changes of the family that a step can make. -/
inductive Change (system : ProcSystem) : ProcSystem → Prop where
  | none : Change system system
  | taken {p np : Fin NPROC} (alive : (system.state p).Alive) (idle : (system.place p).forks = none)
      (free : system.state np = .unused) : Change system (system.taken p np)
  | giveBack {p np : Fin NPROC} (here : system.place p = .allocated np ∨ system.place p = .copying np) :
      Change system (system.giveBack p np)
  | adopt {p np : Fin NPROC} (here : system.place p = .copying np) : Change system (system.adopt p np)
  | start {p np : Fin NPROC} (here : system.place p = .starting np) : Change system (system.start p np)
  | leave {p : Fin NPROC} (alive : (system.state p).Alive) (here : system.place p = .exiting) :
      Change system (system.leave p)
  | collect {p child : Fin NPROC} (idle : (system.place p).forks = none) (dead : system.table.ZombieChild p child) :
      Change system (system.collect p child)

theorem Family.change (family : s.Family) (change : Change s next) : next.Family := by
  cases change with
  | none => exact family
  | taken alive idle free => exact family.taken alive idle free
  | giveBack here => exact family.giveBack here
  | adopt here => exact family.adopt here
  | start here => exact family.start here
  | leave alive here => exact family.leave alive here
  | collect idle dead => exact family.collect idle dead.2

theorem wait_change (alive : (s.state p).Alive) (idle : (s.place p).forks = none) :
    ∃ middle, Calm s middle ∧ Change middle (s.wait p) := by
  rcases wait_cases s p with ⟨child, dead, ended⟩ | failed | ⟨none, sleeps⟩
  · rw [ended]
    exact ⟨s, .refl, .collect idle dead⟩
  · rw [failed]
    exact ⟨_, .idle idle rfl fun _ => False.elim, .none⟩
  · rw [sleeps]
    have calm : Calm s (s.withTable (s.table.sleep p (.proc p))) := .withTable (.set alive trivial rfl rfl)
    exact ⟨_, calm.trans (.idle idle rfl fun _ => False.elim), .none⟩

theorem schedule_change (ready : s.state p = .runnable) : ∃ middle, Calm s middle ∧ Change middle (s.schedule p) := by
  have alive : (s.table.proc p).state.Alive := by
    rw [show (s.table.proc p).state = _ from ready]
    trivial
  have runs : Stirred s.table (s.table.setState p .running) := .set alive trivial rfl rfl
  have running : ((s.table.setState p .running).proc p).state.Alive := by
    rw [setState, Ptable.set_self]
    trivial
  have calm : Calm s (s.withTable ((s.table.setState p .running).tidy p)) :=
    .withTable (runs.trans (.set running running rfl rfl))
  unfold ProcSystem.schedule
  split
  case h_1 here =>
    have awake := (calm.alive p).mpr alive
    obtain ⟨middle, further, change⟩ := wait_change awake (by rw [withTable_place, here]; rfl)
    exact ⟨middle, calm.trans further, change⟩
  case h_2 ret here =>
    refine ⟨_, calm.trans (.idle ?_ rfl fun _ => False.elim), .none⟩
    rw [withTable_place, here]
    rfl
  case h_3 here =>
    refine ⟨_, calm.trans (.idle ?_ rfl ?_), .none⟩
    · rw [withTable_place, here]
      rfl
    · intro _ _
      rw [withTable_place, here]
      trivial
  case h_4 => exact ⟨_, .withTable runs, .none⟩

/-- Every step is a calm step and then at most one change of the family. -/
theorem Step.change (stepped : Step s event next) : ∃ middle, Calm s middle ∧ Change middle next := by
  have living : ∀ {p}, s.state p = .running → (s.state p).Alive := by
    intro p runs
    rw [runs]
    trivial
  have outside : ∀ {p ret}, s.place p = .out ret → (s.place p).forks = none := by
    intro p ret here
    rw [here]
    rfl
  cases stepped with
  | crowded runs here => exact ⟨_, .idle (outside here) rfl fun _ => False.elim, .none⟩
  | take runs here free => exact ⟨s, .refl, .taken (living runs) (outside here) free⟩
  | stack runs here =>
    refine ⟨_, .moveTo ?_ ?_ fun _ => False.elim, .none⟩
    · rw [here]
      rfl
    · intro slot
      rw [here]
      exact iff_of_false nofun nofun
  | giveBack runs here => exact ⟨s, .refl, .giveBack here⟩
  | adopt runs here => exact ⟨s, .refl, .adopt here⟩
  | start runs here => exact ⟨s, .refl, .start here⟩
  | exit runs here other => exact ⟨_, .idle (outside here) rfl fun same => absurd same other, .none⟩
  | leave runs here => exact ⟨s, .refl, .leave (living runs) here⟩
  | wait runs here => exact wait_change (living runs) (outside here)
  | kill runs here =>
    exact ⟨_, (Calm.withTable (.kill _)).trans (.idle (outside here) rfl fun _ => False.elim), .none⟩
  | @sleep p addr place runs here =>
    have calm : Calm s (s.withTable (s.table.sleep p (.other addr))) :=
      .withTable (.set (living runs) trivial rfl rfl)
    refine ⟨_, calm.trans (.idle ?_ ?_ ?_), .none⟩
    · rcases here with ⟨ret, here, -⟩ | ⟨here, -⟩ <;> rw [withTable_place, here] <;> rfl
    · rcases here with ⟨ret, -, rfl⟩ | ⟨-, rfl⟩ <;> rfl
    · rcases here with ⟨ret, -, rfl⟩ | ⟨here, -⟩
      · exact fun _ => False.elim
      · intro _ _
        rw [withTable_place, here]
        trivial
  | @yield p runs =>
    have stirred : Stirred s.table (s.table.setState p .runnable) := .set (living runs) trivial rfl rfl
    exact ⟨_, .withTable stirred, .none⟩
  | wakeup => exact ⟨_, .withTable (.wakeup1 _), .none⟩
  | schedule ready => exact schedule_change ready

theorem Family.step (family : s.Family) (stepped : Step s event next) : next.Family := by
  obtain ⟨middle, calm, change⟩ := stepped.change
  exact (family.calm calm).change change

theorem initial_state (q : Fin NPROC) : initial.state q = if q = firstSlot then .runnable else .unused := by
  simp only [state, initial, set_proc]
  split <;> rfl

theorem initial_parent (q : Fin NPROC) : initial.parent q = none := by
  simp only [parent, initial, set_proc]
  split <;> rfl

theorem initial_family : initial.Family where
  initAlive := by
    rw [show initial.initproc = firstSlot from rfl, initial_state, if_pos rfl]
    trivial
  initStays := id
  unused p _ := initial_parent p
  embryo p q _ has := by
    rw [initial_parent] at has
    cases has
  parented p left other := by
    rw [initial_state, if_neg (show p ≠ firstSlot from other)] at left
    exact left.elim False.elim nofun
  forking q np forks := by cases forks
  sole q r np forks := by cases forks
  starter q np starts := by cases starts

theorem interleave_family {events : List ProcEvent} (ran : interleave events = .ok s) : s.Family := by
  apply runEvents_invariant (fun _ => Family) initial_family _ ran
  intro events state event next family stepped
  exact family.step (step_sound stepped)

end ProcSystem
end Xv6
