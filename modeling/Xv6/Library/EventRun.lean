import Mathlib.Tactic

namespace Xv6.Library
open List

section EventRun
variable {S E H : Type} {step : S → E → Except H S} {event : E} {rest first second events : List E}
  {state s next last : S} {halt : H} {T : Type} {outcome : Except H S}

/-- The events happen in order until one of them halts the system. -/
def runEvents (step : S → E → Except H S) : List E → S → Except H S
  | [], state => .ok state
  | event :: rest, state =>
    match step state event with
    | .ok next => runEvents step rest next
    | .error halt => .error halt

@[simp] theorem runEvents_nil (s : S) : runEvents step [] s = .ok s := rfl

theorem runEvents_cons_ok (ran : step s event = .ok next) :
    runEvents step (event :: rest) s = runEvents step rest next := by
  simp [runEvents, ran]

/-- A run reaches a state exactly when it reaches some middle state first. -/
theorem runEvents_append : runEvents step (first ++ second) s = .ok last ↔
      ∃ middle, runEvents step first s = .ok middle ∧ runEvents step second middle = .ok last := by
  induction first generalizing s with
  | nil => simp
  | cons event rest ih =>
    rw [cons_append]
    cases ran : step s event with
    | ok next =>
      rw [runEvents_cons_ok ran, runEvents_cons_ok ran]
      exact ih
    | error halt => simp [runEvents, ran]

/-- A run of one more event ends with one more step. -/
theorem runEvents_snoc : runEvents step (events ++ [event]) s = .ok last ↔
      ∃ middle, runEvents step events s = .ok middle ∧ step middle event = .ok last := by
  rw [runEvents_append]
  refine exists_congr fun middle => and_congr_right fun _ => ?_
  cases ran : step middle event <;> simp [runEvents, ran]

/-- A halted run halts at one of its events and has reached the state before it. -/
theorem runEvents_error : runEvents step events s = .error halt ↔
      ∃ earlier event middle, earlier ++ [event] <+: events ∧
        runEvents step earlier s = .ok middle ∧ step middle event = .error halt := by
  induction events generalizing s with
  | nil => simp [runEvents]
  | cons event rest ih =>
    constructor
    · intro halted
      cases ran : step s event with
      | ok next =>
        rw [runEvents_cons_ok ran] at halted
        obtain ⟨earlier, last, middle, inside, reached, final⟩ := ih.mp halted
        refine ⟨event :: earlier, last, middle, ?_, ?_, final⟩
        · exact cons_prefix_cons.mpr ⟨rfl, inside⟩
        · rw [runEvents_cons_ok ran]
          exact reached
      | error other =>
        simp only [runEvents, ran, Except.error.injEq] at halted
        subst other
        exact ⟨[], event, s, cons_prefix_cons.mpr ⟨rfl, nil_prefix⟩, rfl, ran⟩
    · rintro ⟨earlier, last, middle, inside, reached, final⟩
      cases earlier with
      | nil =>
        obtain ⟨rfl, _⟩ := cons_prefix_cons.mp inside
        simp only [runEvents_nil, Except.ok.injEq] at reached
        subst middle
        simp [runEvents, final]
      | cons head earlier =>
        obtain ⟨rfl, within⟩ := cons_prefix_cons.mp inside
        cases ran : step s head with
        | ok next =>
          rw [runEvents_cons_ok ran] at reached ⊢
          exact ih.mpr ⟨earlier, last, middle, within, reached, final⟩
        | error other => simp [runEvents, ran] at reached

theorem runEvents_prefix {earlier : List E} (inside : earlier <+: events) (ran : runEvents step events s = .ok last)
    : ∃ middle, runEvents step earlier s = .ok middle := by
  obtain ⟨later, rfl⟩ := inside
  obtain ⟨middle, reached, _⟩ := runEvents_append.mp ran
  exact ⟨middle, reached⟩

/-- A property of the history and the state that each step preserves holds after every run. -/
theorem runEvents_invariant (property : List E → S → Prop) {initial : S} (start : property [] initial)
    (preserved : ∀ events s event next, property events s → step s event = .ok next →
      property (events ++ [event]) next) (ran : runEvents step events initial = .ok last) : property events last := by
  induction events using reverseRecOn generalizing last with
  | nil =>
    simp only [runEvents_nil, Except.ok.injEq] at ran
    exact ran ▸ start
  | append_singleton earlier event ih =>
    obtain ⟨middle, reached, final⟩ := runEvents_snoc.mp ran
    exact preserved earlier middle event last (ih reached) final

/-- An observation of a finished run comes from the state that the run reached. -/
theorem exists_ok_of_observed {observe : S → T} {value : T} (observed : outcome.toOption.map observe = some value) :
    ∃ s, outcome = .ok s ∧ observe s = value := by
  cases outcome with
  | ok s => exact ⟨s, rfl, Option.some.inj observed⟩
  | error halt => cases observed

/-- The events happen in order, and each reached state is observed. -/
def observeEvents {T : Type} (step : S → E → Except H S) (observe : S → T) :
    List E → S → Except H (List T × S)
  | [], state => .ok ([], state)
  | event :: rest, state =>
    match step state event with
    | .error halt => .error halt
    | .ok next =>
      match observeEvents step observe rest next with
      | .error halt => .error halt
      | .ok (seen, last) => .ok (observe next :: seen, last)

theorem observeEvents_cons {observe : S → T} {seen : List T} (ran : step s event = .ok next)
    (further : observeEvents step observe rest next = .ok (seen, last)) :
    observeEvents step observe (event :: rest) s = .ok (observe next :: seen, last) := by
  simp [observeEvents, ran, further]

theorem observeEvents_append {observe : S → T} {middle : S} {early late : List T}
    (ran : observeEvents step observe first s = .ok (early, middle))
    (further : observeEvents step observe second middle = .ok (late, last)) :
    observeEvents step observe (first ++ second) s = .ok (early ++ late, last) := by
  induction first generalizing s early with
  | nil =>
    cases ran
    exact further
  | cons event rest ih =>
    simp only [observeEvents] at ran
    split at ran
    · cases ran
    case h_2 next stepped =>
      split at ran
      · cases ran
      case h_2 seen reached tail =>
        cases ran
        rw [cons_append, cons_append]
        exact observeEvents_cons stepped (ih tail)

/-- The reason for which a run halted, if it did. -/
def haltOf : Except H S → Option H
  | .ok _ => none
  | .error halt => some halt

theorem haltOf_eq_some : haltOf outcome = some halt ↔ outcome = .error halt := by
  cases outcome <;> simp [haltOf]

/-- A loop over the first numbers ends well when every iteration carries the invariant one number further. -/
theorem foldlM_range {count : Nat} {body : S → Nat → Except H S} (invariant : Nat → S → Prop)
    (start : invariant 0 s) (iterate : ∀ index < count, ∀ current, invariant index current →
      ∃ next, body current index = .ok next ∧ invariant (index + 1) next) :
    ∃ last, (range count).foldlM body s = .ok last ∧ invariant count last := by
  induction count with
  | zero => exact ⟨s, rfl, start⟩
  | succ count ih =>
    obtain ⟨middle, ran, holds⟩ := ih fun index inside => iterate index (by omega)
    obtain ⟨last, final, ends⟩ := iterate count (by omega) middle holds
    refine ⟨last, ?_, ends⟩
    rw [range_succ, foldlM_append, ran]
    change (foldlM body middle [count] : Except H S) = .ok last
    rw [foldlM_cons, final]
    rfl

end EventRun
end Xv6.Library
