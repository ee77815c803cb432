import Mathlib.Tactic

namespace Xv6.Library

section Fuel
variable {E A B : Type} {run : Except E A} {next : A → Except E B} {result : B} {value : A}

/-- A computation with a first part that has a value has this value itself exactly when its second part has it. -/
theorem bind_eq_ok : run >>= next = .ok result ↔ ∃ value, run = .ok value ∧ next value = .ok result := by
  cases run with
  | error halt =>
    constructor
    · intro same
      cases same
    · rintro ⟨value, same, _⟩
      cases same
  | ok value =>
    constructor
    · intro same
      exact ⟨value, rfl, same⟩
    · rintro ⟨other, same, final⟩
      cases same
      exact final

theorem mapError_eq_ok {F : Type} {f : E → F} (ran : run.mapError f = .ok value) : run = .ok value := by
  cases run with
  | error halt => cases ran
  | ok other =>
    cases ran
    rfl

/-- A computation does not end with an error that neither of its parts ends with. -/
theorem bind_ne_error {halt : E} (first : run ≠ .error halt)
    (second : ∀ value, run = .ok value → next value ≠ .error halt) : run >>= next ≠ .error halt := by
  cases run with
  | error other =>
    intro same
    cases same
    exact first rfl
  | ok value => exact second value rfl

variable {halt : E} {good middle : A → Prop} {enough few : Prop}

/-- The result of a run is good, and the run does not end with the given error if the fuel is enough. -/
structure Yields (run : Except E A) (halt : E) (good : A → Prop) (enough : Prop) : Prop where
  sound : ∀ {result}, run = .ok result → good result
  halts : enough → run ≠ .error halt

theorem Yields.ok {value : A} (holds : good value) : Yields (.ok value) halt good enough where
  sound same := by
    cases same
    exact holds
  halts _ same := by cases same

theorem Yields.error {other : E} (stops : other = halt → ¬enough) : Yields (.error other) halt good enough where
  sound same := by cases same
  halts fuel same := by
    cases same
    exact stops rfl fuel

theorem Yields.mono (yields : Yields run halt middle few) (weaker : enough → few)
    (result : ∀ value, middle value → good value) : Yields run halt good enough where
  sound ran := result _ (yields.sound ran)
  halts fuel := yields.halts (weaker fuel)

theorem Yields.bind {good : B → Prop} (yields : Yields run halt middle few) (weaker : enough → few)
    (second : ∀ value, middle value → Yields (next value) halt good enough) : Yields (run >>= next) halt good enough where
  sound ran := by
    obtain ⟨value, early, late⟩ := bind_eq_ok.mp ran
    exact (second value (yields.sound early)).sound late
  halts fuel := bind_ne_error (yields.halts (weaker fuel)) fun value early =>
    (second value (yields.sound early)).halts fuel

/-- From some amount of fuel on, the computation has a value. -/
def Settles (run : Nat → Except E A) (value : A) : Prop := ∃ enough, ∀ fuel ≥ enough, run fuel = .ok value

theorem Settles.const (value : A) : Settles (fun _ => (.ok value : Except E A)) value := ⟨0, fun _ _ => rfl⟩

/-- A computation uses up one unit of fuel at its beginning. -/
theorem Settles.succ {run : Nat → Except E A} (settles : Settles (fun fuel => run (fuel + 1)) value) :
    Settles run value := by
  obtain ⟨enough, reached⟩ := settles
  refine ⟨enough + 1, fun fuel more => ?_⟩
  cases fuel with
  | zero => exact absurd more (Nat.not_succ_le_zero enough)
  | succ fuel => exact reached fuel (Nat.le_of_succ_le_succ more)

/-- The parts of a computation settle one after the other. -/
theorem Settles.bind {run : Nat → Except E A} {next : Nat → A → Except E B} (first : Settles run value)
    (second : Settles (fun fuel => next fuel value) result) : Settles (fun fuel => run fuel >>= next fuel) result := by
  obtain ⟨early, reached⟩ := first
  obtain ⟨late, finished⟩ := second
  refine ⟨max early late, fun fuel more => ?_⟩
  show run fuel >>= next fuel = .ok result
  rw [reached fuel ((Nat.le_max_left early late).trans more)]
  exact finished fuel ((Nat.le_max_right early late).trans more)

end Fuel
end Xv6.Library
