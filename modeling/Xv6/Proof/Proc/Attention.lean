import Xv6.Proof.Proc.Family

namespace Xv6
open Library Ptable

namespace ProcSystem
variable {system s next : ProcSystem} {event : ProcEvent} {p q np child : Fin NPROC} {place : ProcPlace}
  {table : Ptable}

/-- If the process sleeps in `wait`, then it has no exited child. -/
def Attends (system : ProcSystem) (p : Fin NPROC) : Prop :=
  system.place p = .waiting → system.state p = .runnable ∨
    system.state p = .sleeping ∧ system.chan p = .proc p ∧ ∀ child, ¬system.table.ZombieChild p child

/-- A process in `wait` stays attentive if it wakes up or gets no exited child. -/
theorem Attends.keep (attends : s.Attends q) (place : next.place q = .waiting → s.place q = .waiting)
    (state : s.state q = .runnable ∨ s.state q = .sleeping → next.state q = s.state q ∨ next.state q = .runnable)
    (chan : next.place q = .waiting → next.chan q = s.chan q)
    (zombies : next.state q = .sleeping → s.chan q = .proc q → ∀ child, next.table.ZombieChild q child →
      s.table.ZombieChild q child) : next.Attends q := by
  intro waits
  rcases attends (place waits) with ready | ⟨sleeps, own, none⟩
  · rcases state (.inl ready) with same | wakes
    · exact .inl (same.trans ready)
    · exact .inl wakes
  · rcases state (.inr sleeps) with same | wakes
    · refine .inr ⟨same.trans sleeps, (chan waits).trans own, ?_⟩
      intro child dead
      exact none child (zombies (same.trans sleeps) own child dead)
    · exact .inl wakes

theorem leave_chan (q : Fin NPROC) : (s.leave p).chan q = s.chan q := by
  simp only [chan, leave, moveTo_table, record, withTable_table, exit_proc]
  split <;> simp [handed]

/-- A process that sleeps on its own address and still sleeps after an exit was neither the parent of the exited
process nor init with a new exited child. -/
theorem leave_asleep (ne : q ≠ p) (own : s.chan q = .proc q) (asleep : s.state q = .sleeping)
    (sleeps : (s.leave p).state q = .sleeping) :
    s.parent p ≠ some q ∧ (q = s.initproc → ∀ child, ¬s.table.ZombieChild p child) := by
  simp only [state, leave, moveTo_table, record, withTable_table, exit_proc, if_neg ne,
    roused_state, handed, roused_chan] at sleeps
  simp only [state] at asleep
  simp only [chan] at own
  constructor
  · intro parent
    simp only [ProcSystem.parent] at parent
    simp [asleep, own, parent, parentChan] at sleeps
  · intro init child dead
    subst init
    by_cases wakes : Chan.proc s.initproc = parentChan (s.table.proc p).parent
    · simp [asleep, own, wakes] at sleeps
    · have some : ∃ child, s.table.ZombieChild p child := ⟨child, dead⟩
      simp [asleep, own, wakes, some] at sleeps

section
variable (attends : s.Attends q)
include attends

theorem Attends.leave (family : s.Family) (alive : (s.state p).Alive) (here : s.place p = .exiting) :
    (s.leave p).Attends q := by
  by_cases ne : q = p
  · intro waits
    rw [leave_place, if_pos ne] at waits
    cases waits
  apply attends.keep
  · intro waits
    rwa [leave_place, if_neg ne] at waits
  · intro _
    rcases leave_state s ne with same | ⟨_, wakes⟩
    · exact .inl same
    · exact .inr wakes
  · intro _
    exact leave_chan q
  · intro sleeps own child dead
    have asleep : s.state q = .sleeping := by
      rcases leave_state s ne with same | ⟨asleep, _⟩
      · exact same.symm.trans sleeps
      · exact asleep
    obtain ⟨notParent, notInit⟩ := leave_asleep ne own asleep sleeps
    obtain ⟨has, dead⟩ := dead
    change (s.leave p).parent child = some q at has
    change (s.leave p).state child = .zombie at dead
    have other := family.not_init here
    rw [leave_parent] at has
    by_cases self : child = p
    · obtain ⟨r, parent, outside, _⟩ := family.parented p (.inl alive) other
      rw [self, parent, if_neg (by simpa using outside)] at has
      exact absurd (parent.trans has) notParent
    · have was : s.state child = .zombie := by
        rcases leave_state s self with same | ⟨_, wakes⟩
        · exact same.symm.trans dead
        · rw [wakes] at dead
          cases dead
      split at has
      case isTrue mine =>
        cases has
        exact absurd ⟨mine, was⟩ (notInit rfl child)
      case isFalse => exact ⟨has, was⟩

/-- A change of one slot that makes no zombie does not disturb the other processes. -/
theorem Attends.edit {r : Fin NPROC} {value : ProcSlot}
    (slots : next.table.proc = Function.update s.table.proc r value) (living : value.state ≠ .zombie)
    (idle : q = r → next.place r ≠ .waiting) (place : next.place q = .waiting → s.place q = .waiting) :
    next.Attends q := by
  by_cases same : q = r
  · intro waits
    exact absurd (same ▸ waits) (idle same)
  · have other : next.table.proc q = s.table.proc q := by
      rw [slots]
      exact Function.update_of_ne same ..
    apply attends.keep place
    · exact fun _ => .inl (congrArg ProcSlot.state other)
    · exact fun _ => congrArg ProcSlot.chan other
    · intro _ _ child dead
      unfold Ptable.ZombieChild at dead
      rw [slots, Function.update_apply] at dead
      split at dead
      · exact absurd dead.2 living
      · exact dead

/-- A wakeup keeps every process in its state or makes it runnable. -/
theorem Attends.wakes (parent : ∀ r, (table.proc r).parent = s.parent r) (chan : (table.proc q).chan = s.chan q)
    (state : ∀ r, (table.proc r).state = s.state r ∨ (table.proc r).state = .runnable) :
    (s.withTable table).Attends q := by
  apply attends.keep
  · exact id
  · exact fun _ => state q
  · exact fun _ => chan
  · intro _ _ child dead
    constructor
    · exact (parent child).symm.trans dead.1
    · rcases state child with same | wakes
      · exact same.symm.trans dead.2
      · exact absurd (wakes.symm.trans dead.2) nofun

theorem Attends.moveTo (goes : place ≠ .waiting) : (s.moveTo p place).Attends q := by
  apply attends.keep
  · intro waits
    rw [moveTo_place] at waits
    split at waits
    · exact absurd waits goes
    · exact waits
  · exact fun _ => .inl rfl
  · exact fun _ => rfl
  · exact fun _ _ _ => id

end

/-- The process itself does not need to be attentive when it goes elsewhere. -/
theorem Attends.moves (goes : place ≠ .waiting) : (s.moveTo p place).Attends p := by
  intro waits
  rw [moveTo_place, if_pos rfl] at waits
  exact absurd waits goes

/-- A round of `wait` needs only that the other processes are attentive. -/
theorem Attends.wait (alive : (s.state p).Alive) (attends : ∀ q, q ≠ p → s.Attends q) (q : Fin NPROC) :
    (s.wait p).Attends q := by
  rcases wait_cases s p with ⟨child, dead, ended⟩ | failed | ⟨none, sleeps⟩
  · rw [ended]
    by_cases same : q = p
    · rw [same]
      exact .moves (by simp)
    · apply (attends q same).keep
      · intro waits
        rwa [collect_place, if_neg same] at waits
      · intro known
        rw [collect_state]
        split
        case isTrue here =>
          rw [here, show s.state child = .zombie from dead.2] at known
          rcases known with known | known <;> cases known
        case isFalse => exact .inl rfl
      · intro _
        simp only [chan, collect, moveTo_table, record, withTable_table, reap, set_proc]
        split
        case isTrue here => rw [here]
        case isFalse => rfl
      · intro _ _ other left
        change (s.collect p child).parent other = some q ∧ (s.collect p child).state other = .zombie at left
        rw [collect_parent, collect_state] at left
        split at left
        · cases left.1
        · exact left
  · rw [failed]
    by_cases same : q = p
    · rw [same]
      exact .moves (by simp)
    · exact (attends q same).moveTo (by simp)
  · rw [sleeps]
    by_cases same : q = p
    · subst same
      intro _
      right
      refine ⟨?_, ?_, ?_⟩
      · simp [moveTo_state, withTable_state, sleep]
      · simp [moveTo_chan, withTable_chan, sleep]
      · intro child dead
        apply none child
        unfold Ptable.ZombieChild at dead
        rw [moveTo_table, withTable_table, sleep, set_proc] at dead
        split at dead
        · cases dead.2
        · exact dead
    · apply (attends q same).edit rfl
      · simp
      · exact fun equal => absurd equal same
      · intro waits
        rwa [moveTo_place, if_neg same] at waits

theorem resume_proc : ((s.table.setState p .running).tidy p).proc =
    Function.update s.table.proc p {s.table.proc p with state := .running, chan := .null} := by
  simp [Ptable.tidy, Ptable.setState, Ptable.set]

theorem Attends.schedule (attends : ∀ q, s.Attends q) (q : Fin NPROC) : (s.schedule p).Attends q := by
  unfold ProcSystem.schedule
  split
  case h_1 here =>
    apply Attends.wait
    · rw [withTable_state, withTable_table, resume_proc, Function.update_self]
      trivial
    · intro other ne
      exact (attends other).edit resume_proc nofun (fun same => absurd same ne) id
  case h_2 ret here =>
    apply (attends q).edit resume_proc
    · exact nofun
    · intro _
      rw [moveTo_place, if_pos rfl]
      exact nofun
    · grind
  case h_3 here =>
    apply (attends q).edit resume_proc
    · exact nofun
    · intro _
      rw [moveTo_place, if_pos rfl]
      exact nofun
    · grind
  case h_4 elsewhere _ _ => exact (attends q).edit rfl nofun (fun _ => elsewhere) id

theorem Attends.step (family : s.Family) (attends : ∀ q, s.Attends q) (stepped : Step s event next)
    (q : Fin NPROC) : next.Attends q := by
  have busy : ∀ {p state}, s.state p = state → state ≠ .runnable → state ≠ .sleeping → s.place p ≠ .waiting := by
    intro p state known notReady notAsleep waits
    rcases attends p waits with ready | ⟨asleep, -⟩
    · exact notReady (known.symm.trans ready)
    · exact notAsleep (known.symm.trans asleep)
  cases stepped with
  | crowded | stack | exit => exact (attends q).moveTo nofun
  | @take p np ret runs here free =>
    have unused := busy free nofun nofun
    apply (attends q).edit rfl
    · exact nofun
    all_goals grind
  | @giveBack p np act runs here =>
    have new := busy (family.forking p np (by rcases here with here | here <;> rw [here] <;> rfl)).2 nofun nofun
    apply (attends q).edit rfl
    · exact nofun
    all_goals grind
  | @adopt p np runs here =>
    have embryo := (family.forking p np (by rw [here]; rfl)).2
    have new := busy embryo nofun nofun
    apply (attends q).edit rfl
    · exact fun dead => nomatch embryo.symm.trans dead
    all_goals grind
  | @start p np runs here =>
    apply (attends q).edit rfl
    · exact nofun
    all_goals grind
  | leave runs here => exact (attends q).leave family (by rw [runs]; trivial) here
  | wait runs here => exact .wait (by rw [runs]; trivial) (fun other _ => attends other) q
  | @kill p ret pid runs here =>
    apply Attends.moveTo
    case goes => exact nofun
    apply (attends q).wakes
    · exact fun r => (kill_proc pid r).1
    · exact (kill_proc pid q).2.2.1
    · intro r
      exact (kill_proc pid r).2.2.2.imp id And.right
  | @sleep p addr place runs here =>
    have awake := busy runs nofun nofun
    apply (attends q).edit rfl
    · exact nofun
    · grind
    · grind
  | @yield p runs => exact (attends q).edit rfl nofun (fun _ => busy runs nofun nofun) id
  | wakeup =>
    apply (attends q).wakes
    · intro r
      rw [wakeup1_proc, roused_parent]
      rfl
    · rw [wakeup1_proc, roused_chan]
      rfl
    · intro r
      rw [wakeup1_proc, roused_state]
      split
      · exact .inr rfl
      · exact .inl rfl
  | schedule _ => exact .schedule attends q

theorem interleave_attends {events : List ProcEvent} (ran : interleave events = .ok s) (q : Fin NPROC) :
    s.Attends q := by
  have both : s.Family ∧ ∀ q, s.Attends q := by
    apply runEvents_invariant (fun _ s => s.Family ∧ ∀ q, s.Attends q) _ _ ran
    · exact ⟨initial_family, fun _ waits => nomatch waits⟩
    · intro events state event next held stepped
      have stepped := step_sound stepped
      exact ⟨held.1.step stepped, .step held.1 held.2 stepped⟩
  exact both.2 q

end ProcSystem
end Xv6
