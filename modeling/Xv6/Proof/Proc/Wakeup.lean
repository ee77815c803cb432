import Xv6.Construction.Wakeup
import Xv6.Proof.Proc.Steps

namespace Xv6
open Library WakeSystem Ptable

namespace WakePlace

/-- An actor at one of these places holds `ptable.lock`. -/
def HoldsPtable (shared : Bool) : WakePlace → Prop
  | .falling | .entered | .resumed | .waking | .woken | .rescheduled _ => True
  | .testing | .body | .setting | .announcing | .finishing => shared = true
  | .out | .asleep | .retaking | .yielded _ => False

/-- An actor at one of these places holds `lk`, which is not `ptable.lock`. -/
def HoldsOther (shared : Bool) : WakePlace → Prop
  | .testing | .falling | .body | .setting | .announcing | .waking | .woken | .finishing => shared = false
  | .out | .entered | .asleep | .resumed | .retaking | .yielded _ | .rescheduled _ => False

/-- A sleeper at one of these places has found the condition false and still holds `lk`. -/
def Commits (shared : Bool) : WakePlace → Prop
  | .falling => True
  | .entered => shared = true
  | _ => False

/-- A waker at one of these places has set the condition and has not woken the sleepers. -/
def Announces : WakePlace → Prop
  | .announcing | .waking => True
  | _ => False

/-- An actor at such a place holds `lk`. -/
def HoldsLk (shared : Bool) (place : WakePlace) : Prop :=
  if shared then place.HoldsPtable shared else place.HoldsOther shared

theorem Commits.holdsLk {shared : Bool} {place : WakePlace} (commits : place.Commits shared) :
    place.HoldsLk shared := by
  cases shared <;> cases place <;> simp_all [Commits, HoldsLk, HoldsPtable, HoldsOther]

theorem Announces.holdsLk {place : WakePlace} (announces : place.Announces) (shared : Bool) : place.HoldsLk shared := by
  cases shared <;> cases place <;> simp_all [Announces, HoldsLk, HoldsPtable, HoldsOther]

end WakePlace

namespace WakeSystem
variable {system s next last : WakeSystem} {event : WakeEvent} {actor : WakeActor} {place : WakePlace}
  {holder : Option WakeHolder} {p : Fin NPROC}

def SleepsOn (system : WakeSystem) (p : Fin NPROC) : Prop :=
  system.state p = .sleeping ∧ (system.table.proc p).chan = system.chan

instance (system : WakeSystem) (p : Fin NPROC) : Decidable (system.SleepsOn p) := inferInstanceAs (Decidable (_ ∧ _))

/-- An actor that holds a lock at its place is the holder of that lock. -/
structure Excludes (system : WakeSystem) : Prop where
  ptable : ∀ actor, (system.place actor).HoldsPtable system.shared → system.ptableLock = some (.actor actor)
  other : ∀ actor, (system.place actor).HoldsOther system.shared → system.otherLock = some (.actor actor)
  apart : ∀ actor, system.place actor = .falling → system.shared = false

/-- The holder of a lock is not another actor than this one. -/
def Foreign (actor : WakeActor) (holder : Option WakeHolder) : Prop :=
  ∀ other, holder = some (.actor other) → other = actor

/-- One actor moves and changes only locks that no other actor holds. -/
structure Moves (system next : WakeSystem) (actor : WakeActor) (place : WakePlace) : Prop where
  moved : next.place = Function.update system.place actor place
  shared : next.shared = system.shared
  chan : next.chan = system.chan
  ptable : next.ptableLock = system.ptableLock ∨ Foreign actor system.ptableLock
  other : next.otherLock = system.otherLock ∨ Foreign actor system.otherLock
  ptableSelf : place.HoldsPtable system.shared → next.ptableLock = some (.actor actor)
  otherSelf : place.HoldsOther system.shared → next.otherLock = some (.actor actor)
  apart : place = .falling → system.shared = false

theorem Moves.place_self (moves : s.Moves next actor place) : next.place actor = place := by
  rw [moves.moved, Function.update_self]

theorem Moves.place_of_ne (moves : s.Moves next actor place) {other : WakeActor} (ne : other ≠ actor) :
    next.place other = s.place other := by
  rw [moves.moved, Function.update_of_ne ne]

/-- A lock that a moving actor does not take from another one stays with its holder. -/
theorem Moves.lock (moves : s.Moves next actor place) {holds : WakePlace → Prop} {before : Option WakeHolder}
    (kept : holder = before ∨ Foreign actor before) (self : holds place → holder = some (.actor actor))
    (owns : ∀ other, holds (s.place other) → before = some (.actor other)) (other : WakeActor)
    (here : holds (next.place other)) : holder = some (.actor other) := by
  by_cases same : other = actor
  · rw [same, moves.place_self] at here
    rw [same, self here]
  · rw [moves.place_of_ne same] at here
    have owned := owns other here
    rcases kept with kept | foreign
    · rw [kept, owned]
    · exact absurd (foreign other owned) same

theorem Excludes.moves (excludes : s.Excludes) (moves : s.Moves next actor place) : next.Excludes := by
  constructor
  · rw [moves.shared]
    exact moves.lock moves.ptable moves.ptableSelf excludes.ptable
  · rw [moves.shared]
    exact moves.lock moves.other moves.otherSelf excludes.other
  · intro other falling
    rw [moves.shared]
    by_cases same : other = actor
    · rw [same, moves.place_self] at falling
      exact moves.apart falling
    · rw [moves.place_of_ne same] at falling
      exact excludes.apart other falling

/-- An actor that holds `lk` at its place is its holder. -/
theorem Excludes.lk (excludes : s.Excludes) (holds : (s.place actor).HoldsLk s.shared) :
    s.lk = some (.actor actor) := by
  rw [WakePlace.HoldsLk] at holds
  rw [WakeSystem.lk]
  by_cases shared : s.shared = true
  · rw [if_pos shared] at holds ⊢
    exact excludes.ptable actor holds
  · rw [if_neg shared] at holds ⊢
    exact excludes.other actor holds

/-- While the condition holds by the act of a waker, a waker still has to wake the sleepers, or there are none. -/
structure Attentive (system : WakeSystem) : Prop where
  excludes : system.Excludes
  calm : ∀ actor, (system.place actor).Commits system.shared → system.c = false
  woken : system.c = true → system.unannounced = false →
    (∃ actor, (system.place actor).Announces) ∨ ∀ p, ¬system.SleepsOn p ∧ system.place (.proc p) ≠ .entered

/-- A step that keeps the condition keeps the system attentive if it only puts committed sleepers to sleep. -/
theorem Attentive.moves (attentive : s.Attentive) (moves : s.Moves next actor place) (same : next.c = s.c)
    (flag : next.unannounced = s.unannounced) (commits : place.Commits s.shared ∨ place = .entered → s.c = false)
    (announces : (s.place actor).Announces → place.Announces)
    (sleepers : ∀ q, next.SleepsOn q → s.SleepsOn q ∨ s.place (.proc q) = .entered) : next.Attentive := by
  refine ⟨attentive.excludes.moves moves, ?_, ?_⟩
  · intro other committed
    rw [moves.shared] at committed
    rw [same]
    by_cases self : other = actor
    · rw [self, moves.place_self] at committed
      exact commits (.inl committed)
    · rw [moves.place_of_ne self] at committed
      exact attentive.calm other committed
  · intro holds announced
    rw [same] at holds
    rw [flag] at announced
    rcases attentive.woken holds announced with ⟨waker, waking⟩ | none
    · refine .inl ⟨waker, ?_⟩
      by_cases self : waker = actor
      · rw [self] at waking ⊢
        rw [moves.place_self]
        exact announces waking
      · rw [moves.place_of_ne self]
        exact waking
    · refine .inr fun q => ⟨?_, ?_⟩
      · intro sleeps
        rcases sleepers q sleeps with slept | entered
        · exact (none q).1 slept
        · exact (none q).2 entered
      · intro entered
        by_cases self : .proc q = actor
        · rw [self, moves.place_self] at entered
          rw [commits (.inr entered)] at holds
          cases holds
        · rw [moves.place_of_ne self] at entered
          exact (none q).2 entered

theorem foreign_none : Foreign actor none := nofun

theorem foreign_scheduler : Foreign actor (some .scheduler) := nofun

theorem foreign_self : Foreign actor (some (.actor actor)) := by
  intro other same
  cases same
  rfl

theorem moves_setLk (foreign : Foreign actor s.lk)
    (ptable : place.HoldsPtable s.shared → s.shared = true ∧ holder = some (.actor actor))
    (other : place.HoldsOther s.shared → holder = some (.actor actor)) (apart : place ≠ .falling) :
    s.Moves ((s.setLk holder).moveTo actor place) actor place := by
  cases shared : s.shared with
  | false =>
    simp only [lk, shared, Bool.false_eq_true, if_false] at foreign
    constructor <;> simp [setLk, moveTo, shared]
    · exact .inr foreign
    · intro holds
      exact absurd (ptable (shared ▸ holds)).1 (by simp [shared])
    · intro holds
      exact other (shared ▸ holds)
  | true =>
    simp only [lk, shared, if_true] at foreign
    constructor <;> simp [setLk, moveTo, shared, apart]
    · exact .inr foreign
    · intro holds
      exact (ptable (shared ▸ holds)).2
    · intro holds
      cases place <;> cases holds

/-- An actor changes `ptable.lock` when it is free or its own, or takes it over from a scheduler. -/
theorem moves_setPtable (excludes : s.Excludes) (table : Ptable)
    (lock : holder = s.ptableLock ∨ Foreign actor s.ptableLock)
    (ptable : place.HoldsPtable s.shared → holder = some (.actor actor))
    (other : place.HoldsOther s.shared → (s.place actor).HoldsOther s.shared)
    (apart : place = .falling → s.shared = false) :
    s.Moves (((s.withTable table).setPtable holder).moveTo actor place) actor place where
  moved := rfl
  shared := rfl
  chan := rfl
  ptable := lock
  other := .inl rfl
  ptableSelf := ptable
  otherSelf holds := excludes.other actor (other holds)
  apart := apart

theorem setLk_moveTo_c : ((s.setLk holder).moveTo actor place).c = s.c := by
  simp [setLk, moveTo, apply_ite]

theorem setLk_moveTo_unannounced : ((s.setLk holder).moveTo actor place).unannounced = s.unannounced := by
  simp [setLk, moveTo, apply_ite]

theorem setLk_moveTo_sleepsOn : ((s.setLk holder).moveTo actor place).SleepsOn p ↔ s.SleepsOn p := by
  simp [SleepsOn, state, setLk, moveTo, apply_ite]

/-- An actor that takes or releases `lk` and does not commit to sleep keeps the system attentive. -/
theorem Attentive.setLk (attentive : s.Attentive) (foreign : Foreign actor s.lk)
    (ptable : place.HoldsPtable s.shared → s.shared = true ∧ holder = some (.actor actor))
    (other : place.HoldsOther s.shared → holder = some (.actor actor)) (quiet : ¬(s.place actor).Announces)
    (stays : ¬place.Commits s.shared ∧ place ≠ .entered) : ((s.setLk holder).moveTo actor place).Attentive := by
  have apart : place ≠ .falling := by
    intro falling
    apply stays.1
    rw [falling]
    trivial
  apply attentive.moves (moves_setLk foreign ptable other apart) setLk_moveTo_c setLk_moveTo_unannounced
  · intro commits
    exact absurd commits (not_or.mpr stays)
  · intro announces
    exact absurd announces quiet
  · intro q sleeps
    exact .inl (setLk_moveTo_sleepsOn.mp sleeps)

theorem Attentive.acquireLk (attentive : s.Attentive) (fits : place = .testing ∨ place = .setting ∨ place = .body)
    (quiet : ¬(s.place actor).Announces) (ran : s.acquireLk actor place = .ok next) : next.Attentive := by
  rw [WakeSystem.acquireLk, guarded] at ran
  split at ran
  · next free =>
      cases ran
      have foreign : Foreign actor s.lk := free ▸ foreign_none
      rcases fits with rfl | rfl | rfl
      all_goals exact attentive.setLk foreign (fun shared => ⟨shared, rfl⟩) (fun _ => rfl) quiet ⟨id, nofun⟩
  · cases ran

/-- An actor outside of the loop and of a call of `wakeup` releases `lk`. -/
theorem Attentive.releaseLk (attentive : s.Attentive) (holds : (s.place actor).HoldsLk s.shared)
    (quiet : ¬(s.place actor).Announces) : ((s.setLk none).moveTo actor .out).Attentive := by
  have foreign : Foreign actor s.lk := by
    rw [attentive.excludes.lk holds]
    exact foreign_self
  exact attentive.setLk foreign False.elim False.elim quiet ⟨id, nofun⟩

/-- A change of the process table that puts no process to sleep on the channel. -/
def Rouses (system : WakeSystem) (table : Ptable) : Prop := ∀ q, (system.withTable table).SleepsOn q → system.SleepsOn q

theorem rouses_self : s.Rouses s.table := fun _ => id

theorem rouses_setState {state : ProcState} (awake : state ≠ .sleeping) : s.Rouses (s.table.setState p state) := by
  intro q sleeps
  by_cases same : q = p
  · have asleep := sleeps.1
    rw [same] at asleep
    change ((s.table.setState p state).proc p).state = .sleeping at asleep
    rw [setState, set_self] at asleep
    exact absurd asleep awake
  · have kept : (s.table.setState p state).proc q = s.table.proc q := set_of_ne _ same
    rw [SleepsOn, WakeSystem.state] at sleeps ⊢
    change ((s.table.setState p state).proc q).state = _ ∧ ((s.table.setState p state).proc q).chan = _
      at sleeps
    rw [kept] at sleeps
    exact sleeps

theorem rouses_tidy (running : s.state p = .running) : s.Rouses (s.table.tidy p) := by
  intro q sleeps
  rw [SleepsOn, state] at sleeps ⊢
  change ((s.table.tidy p).proc q).state = _ ∧ ((s.table.tidy p).proc q).chan = _ at sleeps
  rw [tidy] at sleeps
  by_cases same : q = p
  · rw [same, set_self] at sleeps
    exact absurd (sleeps.1.symm.trans running) nofun
  · rw [set_of_ne _ same] at sleeps
    exact sleeps

section
variable (attentive : s.Attentive)
include attentive

/-- An actor that keeps, takes or gives up `ptable.lock` keeps the system attentive. -/
theorem Attentive.setPtable {table : Ptable} (rouses : s.Rouses table)
    (lock : holder = s.ptableLock ∨ Foreign actor s.ptableLock)
    (ptable : place.HoldsPtable s.shared → holder = some (.actor actor))
    (other : place.HoldsOther s.shared → (s.place actor).HoldsOther s.shared)
    (commits : place.Commits s.shared ∨ place = .entered → s.c = false)
    (apart : place = .falling → s.shared = false) (announces : (s.place actor).Announces → place.Announces) :
    (((s.withTable table).setPtable holder).moveTo actor place).Attentive := by
  apply attentive.moves (moves_setPtable attentive.excludes table lock ptable other apart) rfl rfl commits announces
  intro q sleeps
  exact .inl (rouses q sleeps)

/-- An actor that moves with the locks that it has keeps the system attentive. -/
theorem Attentive.withTable {table : Ptable} (rouses : s.Rouses table)
    (ptable : place.HoldsPtable s.shared → (s.place actor).HoldsPtable s.shared)
    (other : place.HoldsOther s.shared → (s.place actor).HoldsOther s.shared)
    (commits : place.Commits s.shared ∨ place = .entered → s.c = false) (apart : place = .falling → s.shared = false)
    (announces : (s.place actor).Announces → place.Announces) : ((s.withTable table).moveTo actor place).Attentive :=
  attentive.setPtable rouses (.inl rfl) (fun holds => attentive.excludes.ptable actor (ptable holds)) other commits apart
    announces

theorem Attentive.test (here : s.place actor = .testing) (ran : s.test actor = .ok next) : next.Attentive := by
  have quiet : ¬(s.place actor).Announces := here ▸ id
  rw [WakeSystem.test] at ran
  split at ran
  · cases ran
    exact attentive.withTable rouses_self (here ▸ id) (here ▸ id) (by simp [WakePlace.Commits]) nofun
      fun announces => absurd announces quiet
  · next fails =>
      have calm : s.c = false := Bool.eq_false_iff.mpr fails
      split at ran
      · next shared =>
          cases ran
          exact attentive.withTable rouses_self (fun _ => here ▸ shared) False.elim (fun _ => calm) nofun
            fun announces => absurd announces quiet
      · next other =>
          rw [acquirePtable, guarded] at ran
          split at ran
          · next free =>
              cases ran
              have apart : s.shared = false := Bool.eq_false_iff.mpr other
              exact attentive.setPtable rouses_self (.inr (free ▸ foreign_none)) (fun _ => rfl) (here ▸ id) (fun _ => calm)
                (fun _ => apart) fun announces => absurd announces quiet
          · cases ran

/-- A sleeper with `ptable.lock` releases its own lock. -/
theorem Attentive.fall (here : s.place actor = .falling) : ((s.setLk none).moveTo actor .entered).Attentive := by
  have apart := attentive.excludes.apart actor here
  have held : s.ptableLock = some (.actor actor) := attentive.excludes.ptable actor (here ▸ trivial)
  have mine : s.otherLock = some (.actor actor) := attentive.excludes.other actor (here ▸ apart)
  have moves : s.Moves ((s.setLk none).moveTo actor .entered) actor .entered := by
    rw [WakeSystem.setLk, if_neg (by simp [apart])]
    exact ⟨rfl, rfl, rfl, .inl rfl, .inr (mine ▸ foreign_self), fun _ => held, False.elim, nofun⟩
  apply attentive.moves moves setLk_moveTo_c setLk_moveTo_unannounced
  · intro _
    exact attentive.calm actor (here ▸ trivial)
  · rw [here]
    exact False.elim
  · intro q sleeps
    exact .inl (setLk_moveTo_sleepsOn.mp sleeps)

theorem Attentive.fallAsleep (here : s.place (.proc p) = .entered) : (s.fallAsleep p).Attentive := by
  have held : s.ptableLock = some (.actor (.proc p)) := attentive.excludes.ptable _ (here ▸ trivial)
  have foreign : Foreign (.proc p) s.ptableLock := held ▸ foreign_self
  have moves : s.Moves (s.fallAsleep p) (.proc p) .asleep :=
    moves_setPtable attentive.excludes (s.table.sleep p s.chan) (.inr foreign) False.elim False.elim nofun
  apply attentive.moves moves rfl rfl
  · rintro (commits | entered)
    · cases commits
    · cases entered
  · rw [here]
    exact False.elim
  · intro q sleeps
    by_cases same : q = p
    · rw [same]
      exact .inr here
    · have kept : (s.table.sleep p s.chan).proc q = s.table.proc q := set_of_ne _ same
      rw [SleepsOn, state] at sleeps
      change ((s.table.sleep p s.chan).proc q).state = _ ∧ ((s.table.sleep p s.chan).proc q).chan = _ at sleeps
      rw [kept] at sleeps
      exact .inl sleeps

theorem Attentive.wakeUp (here : s.place (.proc p) = .resumed) (running : s.state p = .running) :
    (s.wakeUp p).Attentive := by
  have held : s.ptableLock = some (.actor (.proc p)) := attentive.excludes.ptable _ (here ▸ trivial)
  have quiet : ¬(s.place (.proc p)).Announces := here ▸ id
  rw [WakeSystem.wakeUp]
  split
  · next shared =>
      have other : ¬WakePlace.testing.HoldsOther s.shared := by
        rw [shared]
        exact nofun
      exact attentive.withTable (rouses_tidy running) (fun _ => here ▸ trivial) (fun holds => absurd holds other)
        (by simp [WakePlace.Commits]) nofun fun announces => absurd announces quiet
  · exact attentive.setPtable (rouses_tidy running) (.inr (held ▸ foreign_self)) False.elim False.elim
      (by simp [WakePlace.Commits]) nofun fun announces => absurd announces quiet

end

/-- No sleeper commits while another actor holds `lk`. -/
theorem Excludes.uncommitted (excludes : s.Excludes) (holds : (s.place actor).HoldsLk s.shared)
    (free : ¬(s.place actor).Commits s.shared) (other : WakeActor) : ¬(s.place other).Commits s.shared := by
  intro commits
  have mine := excludes.lk holds
  rw [excludes.lk commits.holdsLk] at mine
  cases mine
  exact free commits

section
variable (attentive : s.Attentive)
include attentive

theorem Attentive.decides (moves : s.Moves next actor place) (holds : (s.place actor).HoldsLk s.shared)
    (free : ¬(s.place actor).Commits s.shared) (stays : ¬place.Commits s.shared)
    (woken : next.c = true → next.unannounced = false →
      (∃ actor, (next.place actor).Announces) ∨ ∀ p, ¬next.SleepsOn p ∧ next.place (.proc p) ≠ .entered) :
    next.Attentive := by
  refine ⟨attentive.excludes.moves moves, ?_, woken⟩
  intro other commits
  rw [moves.shared] at commits
  by_cases same : other = actor
  · rw [same, moves.place_self] at commits
    exact absurd commits stays
  · rw [moves.place_of_ne same] at commits
    exact absurd commits (attentive.excludes.uncommitted holds free other)

/-- A waker sets the condition and has to wake the sleepers. -/
theorem Attentive.set (here : s.place actor = .setting) :
    ({s with c := true, unannounced := false}.moveTo actor .announcing).Attentive := by
  have holds : (s.place actor).HoldsLk s.shared := by
    rw [here]
    cases s.shared <;> rfl
  have moves : s.Moves ({s with c := true, unannounced := false}.moveTo actor .announcing) actor .announcing := by
    refine ⟨rfl, rfl, rfl, .inl rfl, .inl rfl, ?_, ?_, nofun⟩
    · intro shared
      exact attentive.excludes.ptable actor (here ▸ shared)
    · intro other
      exact attentive.excludes.other actor (here ▸ other)
  apply attentive.decides moves holds (here ▸ id) id
  intro _ _
  refine .inl ⟨actor, ?_⟩
  rw [moves.place_self]
  trivial

theorem Attentive.change (here : s.place actor = .body) (value : Bool) : (s.change value).Attentive := by
  have holds : (s.place actor).HoldsLk s.shared := by
    rw [here]
    cases s.shared <;> rfl
  have moves : s.Moves (s.change value) actor .body := by
    refine ⟨?_, rfl, rfl, .inl rfl, .inl rfl, ?_, ?_, nofun⟩
    · rw [← here, Function.update_eq_self]
      rfl
    · intro shared
      exact attentive.excludes.ptable actor (here ▸ shared)
    · intro other
      exact attentive.excludes.other actor (here ▸ other)
  apply attentive.decides moves holds (here ▸ id) id
  intro becomes announced
  rw [WakeSystem.change] at becomes announced
  split at announced
  · cases announced
  · next kept =>
      have already : s.c = true := by
        by_contra changes
        exact kept ⟨becomes, Bool.eq_false_iff.mpr changes⟩
      exact attentive.woken already announced

/-- A waker wakes every sleeper while no other one is between its test and its sleep. -/
theorem Attentive.wakeup1 (here : s.place actor = .waking) :
    ((s.withTable (s.table.wakeup1 s.chan)).moveTo actor .woken).Attentive := by
  have held : s.ptableLock = some (.actor actor) := attentive.excludes.ptable actor (here ▸ trivial)
  have moves : s.Moves ((s.withTable (s.table.wakeup1 s.chan)).moveTo actor .woken) actor .woken :=
    moves_setPtable attentive.excludes _ (.inl rfl) (fun _ => held) (here ▸ id) nofun
  have holds : (s.place actor).HoldsLk s.shared := by
    rw [here]
    cases s.shared
    · rfl
    · trivial
  apply attentive.decides moves holds (here ▸ id) id
  intro _ _
  refine .inr fun q => ⟨?_, ?_⟩
  · rintro ⟨asleep, chan⟩
    change ((s.table.wakeup1 s.chan).proc q).state = .sleeping at asleep
    change ((s.table.wakeup1 s.chan).proc q).chan = s.chan at chan
    rw [wakeup1_proc, roused] at asleep chan
    split at asleep
    · cases asleep
    · next stays =>
        rw [if_neg stays] at chan
        exact stays ⟨trivial, asleep, chan⟩
  · intro entered
    by_cases same : .proc q = actor
    · rw [same, moves.place_self] at entered
      cases entered
    · rw [moves.place_of_ne same] at entered
      have owned := attentive.excludes.ptable (.proc q) (entered ▸ trivial)
      rw [held] at owned
      cases owned
      exact same rfl

theorem Attentive.announce (here : s.place actor = .announcing)
    (ran : (if s.shared then .ok (s.moveTo actor .waking) else s.acquirePtable actor .waking) =
      (.ok next : Except WakeHalt WakeSystem)) : next.Attentive := by
  split at ran
  · next shared =>
      cases ran
      exact attentive.withTable rouses_self (fun _ => here ▸ shared) (here ▸ id) (by simp [WakePlace.Commits]) nofun
        fun _ => trivial
  · rw [acquirePtable, guarded] at ran
    split at ran
    · next free =>
        cases ran
        exact attentive.setPtable rouses_self (.inr (free ▸ foreign_none)) (fun _ => rfl) (here ▸ id)
          (by simp [WakePlace.Commits]) nofun fun _ => trivial
    · cases ran

/-- An actor releases `ptable.lock` and goes to a place without it. -/
theorem Attentive.releasePtable (held : (s.place actor).HoldsPtable s.shared) (quiet : ¬(s.place actor).Announces)
    (ptable : ¬place.HoldsPtable s.shared) (other : place.HoldsOther s.shared → (s.place actor).HoldsOther s.shared) :
    ((s.setPtable none).moveTo actor place).Attentive := by
  have owned : s.ptableLock = some (.actor actor) := attentive.excludes.ptable actor held
  have leaves : ¬(place.Commits s.shared ∨ place = .entered) := by
    rintro (commits | rfl)
    · cases place <;> first | exact ptable trivial | cases commits
    · exact ptable trivial
  apply attentive.setPtable rouses_self (.inr (owned ▸ foreign_self))
  · intro holds
    exact absurd holds ptable
  · exact other
  · intro commits
    exact absurd commits leaves
  · rintro rfl
    exact absurd (.inl trivial) leaves
  · intro announces
    exact absurd announces quiet

theorem Attentive.finish (here : s.place actor = .woken) :
    (if s.shared then s.moveTo actor .finishing else (s.setPtable none).moveTo actor .finishing).Attentive := by
  have quiet : ¬(s.place actor).Announces := here ▸ id
  split
  · next shared =>
      exact attentive.withTable rouses_self (fun _ => here ▸ trivial) (here ▸ id) (by simp [WakePlace.Commits]) nofun
        fun announces => absurd announces quiet
  · next other => exact attentive.releasePtable (here ▸ trivial) quiet other (here ▸ id)

theorem Attentive.advance (running : s.Running actor) (ran : s.advance actor = .ok next) : next.Attentive := by
  rw [advance.eq_def] at ran
  split at ran
  · next here => exact attentive.test here ran
  · next here =>
      cases ran
      exact attentive.fall here
  · next here =>
      cases ran
      exact attentive.fallAsleep here
  · next here =>
      cases ran
      exact attentive.wakeUp here running
  · next here => exact attentive.acquireLk (.inl rfl) (here ▸ id) ran
  · next here =>
      cases ran
      apply attentive.releaseLk _ (here ▸ id)
      rw [here]
      cases s.shared <;> rfl
  · next here =>
      cases ran
      exact attentive.set here
  · next here => exact attentive.announce here ran
  · next here =>
      cases ran
      exact attentive.wakeup1 here
  · next here =>
      cases ran
      exact attentive.finish here
  · next here =>
      cases ran
      apply attentive.releaseLk _ (here ▸ id)
      rw [here]
      cases s.shared <;> rfl
  · next again here =>
      cases ran
      cases again
      all_goals exact attentive.releasePtable (here ▸ trivial) (here ▸ id) id False.elim
  · cases ran

theorem Attentive.schedule (foreign : Foreign (.proc p) s.ptableLock) (ran : s.schedule p = .ok next) :
    next.Attentive := by
  have rouses : s.Rouses (s.table.setState p .running) := rouses_setState nofun
  rw [WakeSystem.schedule] at ran
  split at ran
  · next here =>
      cases ran
      exact attentive.setPtable rouses (.inr foreign) (fun _ => rfl) False.elim (by simp [WakePlace.Commits])
        nofun (here ▸ id)
  · next here =>
      cases ran
      exact attentive.setPtable rouses (.inr foreign) (fun _ => rfl) False.elim (by simp [WakePlace.Commits])
        nofun (here ▸ id)
  · cases ran

theorem Attentive.yield (free : s.ptableLock = none) (ran : s.yield p = .ok next) : next.Attentive := by
  have rouses : s.Rouses (s.table.setState p .runnable) := rouses_setState nofun
  rw [WakeSystem.yield] at ran
  split at ran
  · next here =>
      cases ran
      exact attentive.setPtable rouses (.inr (free ▸ foreign_none)) False.elim False.elim (by simp [WakePlace.Commits])
        nofun (here ▸ id)
  · next here =>
      cases ran
      exact attentive.setPtable rouses (.inr (free ▸ foreign_none)) False.elim False.elim (by simp [WakePlace.Commits])
        nofun (here ▸ id)
  · cases ran

theorem Attentive.relinquish (held : s.ptableLock = some .scheduler) : (s.setPtable none).Attentive := by
  refine ⟨⟨?_, attentive.excludes.other, attentive.excludes.apart⟩, attentive.calm, attentive.woken⟩
  intro actor holds
  have owned := attentive.excludes.ptable actor holds
  rw [held] at owned
  cases owned

theorem Attentive.kill : (s.withTable (s.table.setState p .runnable)).Attentive := by
  have rouses : s.Rouses (s.table.setState p .runnable) := rouses_setState nofun
  refine ⟨⟨attentive.excludes.ptable, attentive.excludes.other, attentive.excludes.apart⟩, attentive.calm, ?_⟩
  intro holds announced
  rcases attentive.woken holds announced with waking | none
  · exact .inl waking
  · exact .inr fun q => ⟨fun sleeps => (none q).1 (rouses q sleeps), (none q).2⟩

/-- Every step keeps the system attentive. -/
theorem Attentive.step (ran : s.step event = .ok next) : next.Attentive := by
  rw [step.eq_def] at ran
  split at ran
  · split at ran
    · next here => exact attentive.acquireLk (.inl rfl) (here.1 ▸ id) ran
    · cases ran
  · split at ran
    · next here => exact attentive.acquireLk (.inr (.inl rfl)) (here.1 ▸ id) ran
    · cases ran
  · split at ran
    · next here => exact attentive.acquireLk (.inr (.inr rfl)) (here.1 ▸ id) ran
    · cases ran
  · split at ran
    · next running => exact attentive.advance running ran
    · cases ran
  · rw [guarded] at ran
    split at ran
    · next value here =>
        cases ran
        exact attentive.change here value
    · cases ran
  · split at ran
    · next free =>
        rcases free.1 with none | scheduler
        · exact attentive.schedule (none ▸ foreign_none) ran
        · exact attentive.schedule (scheduler ▸ foreign_scheduler) ran
    · cases ran
  · rw [guarded] at ran
    split at ran
    · next held =>
        cases ran
        exact attentive.relinquish held
    · cases ran
  · split at ran
    · next free => exact attentive.yield free.1 ran
    · cases ran
  · rw [guarded] at ran
    split at ran
    · cases ran
      exact attentive.kill
    · cases ran

end

/-- No actor has begun, both locks are free and no process sleeps on the channel. A process that does not run is at a
yield. -/
structure Quiet (system : WakeSystem) : Prop where
  idle : ∀ actor, system.place actor = .out ∨ system.place actor = .yielded false
  ptable : system.ptableLock = none
  other : system.otherLock = none
  sleepers : ∀ p, ¬system.SleepsOn p

theorem Quiet.idle_not (quiet : s.Quiet) {motive : WakePlace → Prop} (out : ¬motive .out)
    (yielded : ¬motive (.yielded false)) (actor : WakeActor) : ¬motive (s.place actor) := by
  rcases quiet.idle actor with here | here
  · rw [here]
    exact out
  · rw [here]
    exact yielded

theorem Quiet.attentive (quiet : s.Quiet) : s.Attentive := by
  refine ⟨⟨?_, ?_, ?_⟩, ?_, ?_⟩
  · intro actor holds
    exact absurd holds (quiet.idle_not id id actor)
  · intro actor holds
    exact absurd holds (quiet.idle_not id id actor)
  · intro actor falling
    exact absurd falling (quiet.idle_not (motive := (· = .falling)) nofun nofun actor)
  · intro actor commits
    exact absurd commits (quiet.idle_not id id actor)
  · intro _ _
    exact .inr fun p => ⟨quiet.sleepers p, quiet.idle_not (motive := (· = .entered)) nofun nofun (.proc p)⟩

/-- No interleaving of sleepers and wakers leaves a process asleep on the channel while `lk` is free and the condition
holds, unless the condition was made true other than by a waker. -/
theorem no_lost_wakeup {initial : WakeSystem} {events : List WakeEvent} (quiet : initial.Quiet)
    (reached : runEvents step events initial = .ok last) (free : last.lk = none) (holds : last.c = true)
    (sleeps : last.SleepsOn p) : last.unannounced = true := by
  have attentive : last.Attentive :=
    runEvents_invariant (fun _ => Attentive) quiet.attentive (fun _ _ _ _ before ran => before.step ran) reached
  by_contra announced
  rcases attentive.woken holds (Bool.eq_false_iff.mpr announced) with ⟨actor, announces⟩ | none
  · have held := attentive.excludes.lk (announces.holdsLk last.shared)
    rw [free] at held
    cases held
  · exact (none p).1 sleeps

/-- One process runs, and the lock is not `ptable.lock`. -/
def lonely : WakeSystem where
  table := Ptable.set ⟨fun _ => .zero, 2⟩ ProcSystem.firstSlot {ProcSlot.zero with state := .running, pid := 1}
  chan := .other 8
  shared := false
  ptableLock := none
  otherLock := none
  c := false
  unannounced := false
  place := fun _ => .out

/-- A process falls asleep, and a handler makes the condition true without a wakeup. -/
def forgetfulRun : List WakeEvent :=
  let sleeper := .proc ProcSystem.firstSlot
  [.sleeper ProcSystem.firstSlot, .advance sleeper, .advance sleeper, .advance sleeper, .relinquish,
    .visit (.handler 0), .change (.handler 0) true, .advance (.handler 0)]

theorem lonely_quiet : lonely.Quiet := by
  refine ⟨fun _ => .inl rfl, rfl, rfl, ?_⟩
  decide +kernel

theorem no_lost_wakeup_forgetful : ∃ last,
    lonely.Quiet ∧ runEvents step forgetfulRun lonely = .ok last ∧ last.lk = none ∧ last.c = true ∧
      last.SleepsOn ProcSystem.firstSlot ∧ last.unannounced = true := by
  have observed : ((runEvents step forgetfulRun lonely).toOption.map fun last =>
      decide (last.lk = none ∧ last.c = true ∧ last.SleepsOn ProcSystem.firstSlot)) = some true := by
    decide +kernel
  obtain ⟨last, reached, final⟩ := exists_ok_of_observed observed
  obtain ⟨free, holds, sleeps⟩ := of_decide_eq_true final
  exact ⟨last, lonely_quiet, reached, free, holds, sleeps, no_lost_wakeup lonely_quiet reached free holds sleeps⟩

end WakeSystem
end Xv6
