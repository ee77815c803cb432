import Xv6.Proof.Log.Steps
import Xv6.Proof.Log.History

namespace Xv6
open Library Function
variable {system s next : LogSystem} {ops : Finset Nat} {pid : Nat} {target : LogPlace}

/-- An admitted operation is between `begin_op` and `end_op`. -/
def LogPlace.Active : LogPlace → Prop
  | .running => True
  | .appending _ _ => True
  | _ => False

/-- A committer is between the two sections of `end_op`. -/
def LogPlace.Closing : LogPlace → Prop
  | .committing => True
  | .committed => True
  | _ => False

/-- A caller of `begin_op` waits for its admission. -/
def LogPlace.Waiting : LogPlace → Prop
  | .sleeping => True
  | .woken => True
  | _ => False

@[simp] theorem LogPlace.wake_active (place : LogPlace) : place.wake.Active ↔ place.Active := by
  cases place <;> rfl

@[simp] theorem LogPlace.wake_closing (place : LogPlace) : place.wake.Closing ↔ place.Closing := by
  cases place <;> rfl

@[simp] theorem LogPlace.wake_waiting (place : LogPlace) : place.wake.Waiting ↔ place.Waiting := by
  cases place <;> simp [wake, Waiting]

@[simp] theorem LogSystem.moveTo_kernel (s : LogSystem) (pid : Nat) (place : LogPlace) :
    (s.moveTo pid place).kernel = s.kernel := rfl

@[simp] theorem LogSystem.moveTo_place (s : LogSystem) (pid : Nat) (place : LogPlace) :
    (s.moveTo pid place).place = update s.place pid place := rfl

@[simp] theorem LogSystem.setLog_log (s : LogSystem) (log : Log) : (s.setLog log).kernel.log = log := rfl

@[simp] theorem LogSystem.setLog_place (s : LogSystem) (log : Log) : (s.setLog log).place = s.place := rfl

@[simp] theorem LogSystem.wakeup_kernel (s : LogSystem) : s.wakeup.kernel = s.kernel := rfl

/-- The admitted operations are counted, and a commit excludes them. -/
structure LogInvariant (system : LogSystem) (ops : Finset Nat) : Prop where
  active : ∀ pid, pid ∈ ops ↔ (system.place pid).Active
  outstanding : system.kernel.log.outstanding = ops.card
  closing : ∀ pid, (system.place pid).Closing → system.kernel.log.committing = true
  single : ∀ first second, (system.place first).Closing → (system.place second).Closing → first = second
  quiet : system.kernel.log.committing = true → ops = ∅

theorem LogInvariant.relocate (held : LogInvariant s ops)
    (active : ∀ pid, (next.place pid).Active ↔ (s.place pid).Active)
    (closing : ∀ pid, (next.place pid).Closing ↔ (s.place pid).Closing)
    (outstanding : next.kernel.log.outstanding = s.kernel.log.outstanding)
    (committing : next.kernel.log.committing = s.kernel.log.committing) : LogInvariant next ops where
  active pid := (held.active pid).trans (active pid).symm
  outstanding := outstanding.trans held.outstanding
  closing pid inside := committing.trans (held.closing pid ((closing pid).mp inside))
  single first second inFirst inSecond :=
    held.single first second ((closing first).mp inFirst) ((closing second).mp inSecond)
  quiet busy := held.quiet (committing.symm.trans busy)

/-- The status of one process decides the status of all processes after a move. -/
theorem update_status (place : Nat → LogPlace) (pid : Nat) (target : LogPlace) (status : LogPlace → Prop)
    (same : status target ↔ status (place pid)) (other : Nat) :
    status (update place pid target other) ↔ status (place other) := by
  by_cases equal : other = pid
  · subst other
    rw [update_self]
    exact same
  · rw [update_of_ne equal]

/-- A status that the moved process does not take belongs to another process. -/
theorem update_status_ne {place : Nat → LogPlace} {other : Nat} (status : LogPlace → Prop) (lacks : ¬ status target)
    (taken : status (update place pid target other)) : other ≠ pid ∧ status (place other) := by
  have ne : other ≠ pid := by
    rintro rfl
    rw [update_self] at taken
    exact lacks taken
  rw [update_of_ne ne] at taken
  exact ⟨ne, taken⟩

/-- The operation that leaves the running place disappears from the set. -/
theorem mem_erase_iff_active (place : Nat → LogPlace) (pid : Nat) (target : LogPlace) (ops : Finset Nat)
    (inactive : ¬ target.Active) (active : ∀ other, other ∈ ops ↔ (place other).Active) (other : Nat) :
    other ∈ ops.erase pid ↔ (update place pid target other).Active := by
  by_cases equal : other = pid
  · subst other
    simp [inactive]
  · rw [update_of_ne equal, Finset.mem_erase, active other]
    exact and_iff_right equal

theorem EntersOp.place {event : LogEvent} (enters : EntersOp s event pid) :
    ¬ (s.place pid).Active ∧ ¬ (s.place pid).Closing := by
  rcases enters with ⟨_, idle⟩ | ⟨_, woken⟩
  · simp [idle, LogPlace.Active, LogPlace.Closing]
  · simp [woken, LogPlace.Active, LogPlace.Closing]

section
variable (held : LogInvariant s ops)
include held

theorem LogInvariant.sleep (inactive : ¬ (s.place pid).Active) (idle : ¬ (s.place pid).Closing) :
    LogInvariant (s.moveTo pid .sleeping) ops := by
  refine held.relocate ?_ ?_ rfl rfl
  · exact update_status s.place pid .sleeping _ (iff_of_false id inactive)
  · exact update_status s.place pid .sleeping _ (iff_of_false id idle)

theorem LogInvariant.accept (inactive : ¬ (s.place pid).Active) (idle : ¬ (s.place pid).Closing)
    (opened : s.kernel.log.committing ≠ true) :
    LogInvariant ((s.setLog {s.kernel.log with
      outstanding := s.kernel.log.outstanding + 1}).moveTo pid .running) (insert pid ops) := by
  have closing := update_status s.place pid .running LogPlace.Closing (iff_of_false id idle)
  constructor
  · intro other
    by_cases equal : other = pid
    · subst other
      simp [LogPlace.Active]
    · simp [equal, held.active other]
  · have absent : pid ∉ ops := fun member => inactive ((held.active pid).mp member)
    simp [held.outstanding, Finset.card_insert_of_notMem absent]
  · intro other inside
    exact held.closing other ((closing other).mp inside)
  · intro first second inFirst inSecond
    exact held.single first second ((closing first).mp inFirst) ((closing second).mp inSecond)
  · intro committing
    exact absurd committing opened

/-- A move between the running place and the locked section of `log_write` keeps the operations. -/
theorem LogInvariant.logWrite (before : (s.place pid).Active) (after : target.Active)
    (moved : next.place = update s.place pid target)
    (outstanding : next.kernel.log.outstanding = s.kernel.log.outstanding)
    (committing : next.kernel.log.committing = s.kernel.log.committing) : LogInvariant next ops := by
  have open_ (place : LogPlace) (active : place.Active) : ¬ place.Closing := by
    cases place <;> simp_all [LogPlace.Active, LogPlace.Closing]
  refine held.relocate ?_ ?_ outstanding committing
  · rw [moved]
    exact update_status s.place pid target _ (by simp [before, after])
  · rw [moved]
    exact update_status s.place pid target _ (by simp [open_ _ before, open_ _ after])

attribute [simp] LogPlace.Active LogPlace.Closing LogPlace.Waiting

/-- An operation that ends leaves the set of operations. -/
theorem LogInvariant.card_erase (running : (s.place pid).Active) :
    s.kernel.log.outstanding - 1 = (ops.erase pid).card := by
  have member : pid ∈ ops := (held.active pid).mpr running
  have positive := Finset.card_pos.mpr ⟨pid, member⟩
  rw [held.outstanding, Finset.card_erase_of_mem member]
  omega

theorem LogInvariant.last (running : s.place pid = .running) (opened : s.kernel.log.committing = false)
    (alone : s.kernel.log.outstanding - 1 = 0) :
    LogInvariant ((s.setLog {s.kernel.log with
      outstanding := s.kernel.log.outstanding - 1, committing := true}).moveTo pid .committing)
      (ops.erase pid) := by
  have active : (s.place pid).Active := by simp [running]
  have card := held.card_erase active
  have only (other : Nat) (inside : (update s.place pid .committing other).Closing) : other = pid := by
    by_contra ne
    rw [update_of_ne ne] at inside
    simp [held.closing other inside] at opened
  constructor
  · exact mem_erase_iff_active s.place pid .committing ops (by simp) held.active
  · exact card
  · intro other inside
    rfl
  · intro first second inFirst inSecond
    exact (only first inFirst).trans (only second inSecond).symm
  · intro _
    apply Finset.card_eq_zero.mp
    omega

end

/-- No committer remains when the only possible one returns. -/
theorem not_closing_after_wakeup (place : Nat → LogPlace) (pid : Nat)
    (others : ∀ other, other ≠ pid → ¬ (place other).Closing) (other : Nat) :
    ¬ (update (fun pid => (place pid).wake) pid .idle other).Closing := by
  by_cases equal : other = pid
  · subst other
    rw [update_self]
    exact id
  · rw [update_of_ne equal, LogPlace.wake_closing]
    exact others other equal

variable (held : LogInvariant s ops)
include held

theorem LogInvariant.leave (running : s.place pid = .running) (opened : s.kernel.log.committing = false) :
    LogInvariant ((s.setLog {s.kernel.log with
      outstanding := s.kernel.log.outstanding - 1}).wakeup.moveTo pid .idle) (ops.erase pid) := by
  have active : (s.place pid).Active := by simp [running]
  have card := held.card_erase active
  have none := not_closing_after_wakeup s.place pid fun other _ inside => by
    simp [held.closing other inside] at opened
  constructor
  · exact mem_erase_iff_active (fun pid => (s.place pid).wake) pid .idle ops
      (by simp) fun other => (held.active other).trans (LogPlace.wake_active _).symm
  · exact card
  · intro other inside
    exact absurd inside (none other)
  · intro first second inFirst
    exact absurd inFirst (none first)
  · intro committing
    exact absurd committing (by simp [opened])

theorem LogInvariant.commit (closing : s.place pid = .committing) : LogInvariant (commitOp s pid) ops := by
  refine held.relocate ?_ ?_ (by rw [commitOp_log]) (by rw [commitOp_log])
  · exact update_status s.place pid .committed _ (by simp [closing])
  · exact update_status s.place pid .committed _ (by simp [closing])

theorem LogInvariant.finish (closed : s.place pid = .committed) : LogInvariant (finishOp s pid) ops := by
  have inside : (s.place pid).Closing := by simp [closed]
  have none := not_closing_after_wakeup s.place pid fun other ne member =>
    ne (held.single other pid member inside)
  constructor
  · intro other
    have moved := update_status (fun pid => (s.place pid).wake) pid .idle LogPlace.Active
      (by simp [closed, LogPlace.wake]) other
    exact (held.active other).trans (moved.trans (LogPlace.wake_active _)).symm
  · exact held.outstanding
  · intro other member
    exact absurd member (none other)
  · intro first second inFirst
    exact absurd inFirst (none first)
  · intro committing
    cases committing

end Xv6
