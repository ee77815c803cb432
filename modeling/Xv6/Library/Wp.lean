import Mathlib.Tactic

namespace Xv6.Library

/-- A program reads and writes a state and can halt. -/
abbrev Prog (S H : Type) := StateT S (Except H)

section Wp
variable {S H A B : Type} {state s : S} {good other : A → S → Prop} {bad worse : H → Prop} {program : Prog S H A}
  {value : A} {next : S} {halt : H} {first : Prog S H B} {second : B → Prog S H A}

/-- The weakest precondition of a program. A result satisfies the first predicate, and a halt the second one. -/
def wp (program : Prog S H A) (good : A → S → Prop) (bad : H → Prop) (state : S) : Prop :=
  match program state with
  | .ok (value, next) => good value next
  | .error halt => bad halt

theorem wp_ok (meets : wp program good bad s) (ran : program s = .ok (value, next)) : good value next := by
  rw [wp, ran] at meets
  exact meets

theorem wp_error (meets : wp program good bad s) (ran : program s = .error halt) : bad halt := by
  rw [wp, ran] at meets
  exact meets

/-- A program that cannot halt has a result. -/
theorem wp_exists (meets : wp program good (fun _ => False) s) :
    ∃ value next, program s = .ok (value, next) ∧ good value next := by
  cases ran : program s with
  | ok result => exact ⟨result.1, result.2, rfl, wp_ok meets ran⟩
  | error halt => exact (wp_error meets ran).elim

/-- A program with one possible outcome has this outcome. -/
theorem wp_eq {last : S} (meets : wp program (fun result next => next = last ∧ result = value) (fun _ => False) s) :
    program s = .ok (value, last) := by
  obtain ⟨_, _, ran, rfl, rfl⟩ := wp_exists meets
  exact ran

/-- The rest of a program runs after its first part. -/
theorem bind_ran {value : B} (ran : first s = .ok (value, next)) : (first >>= second) s = second value next := by
  change Except.bind (first s) _ = _
  rw [ran]
  rfl

theorem bind_halted (ran : first s = .error halt) : (first >>= second) s = .error halt := by
  change Except.bind (first s) _ = _
  rw [ran]
  rfl

theorem wp_mono (meets : wp program good bad s) (result : ∀ value next, good value next → other value next)
    (halt : ∀ reason, bad reason → worse reason) : wp program other worse s := by
  unfold wp at meets ⊢
  cases ran : program s with
  | ok outcome =>
    rw [ran] at meets
    exact result _ _ meets
  | error reason =>
    rw [ran] at meets
    exact halt _ meets

theorem wp_imp (meets : wp program good bad s) (result : ∀ value next, good value next → other value next)
    : wp program other bad s :=
  wp_mono meets result fun _ => id

theorem wp_and (first : wp program good bad s) (second : wp program other worse s) :
    wp program (fun value next => good value next ∧ other value next) (fun reason => bad reason ∧ worse reason) s := by
  unfold wp at first second ⊢
  split <;> simp_all

/-- A fact that does not depend on the result holds after every program. -/
theorem wp_const {fact : Prop} (holds : fact) : wp program (fun _ _ => fact) (fun _ => True) s := by
  unfold wp
  split
  · exact holds
  · trivial

@[simp] theorem wp_pure (value : A) : wp (pure value : Prog S H A) good bad s ↔ good value s := Iff.rfl

@[simp] theorem wp_bind (first : Prog S H B) (second : B → Prog S H A) :
    wp (first >>= second) good bad s ↔ wp first (fun value next => wp (second value) good bad next) bad s := by
  simp only [wp, bind, StateT.bind, Except.bind]
  cases first s <;> rfl

@[simp] theorem wp_get {good : S → S → Prop} : wp (get : Prog S H S) good bad s ↔ good s s := Iff.rfl

@[simp] theorem wp_modify {good : PUnit → S → Prop} (change : S → S) :
    wp (modify change : Prog S H PUnit) good bad s ↔ good ⟨⟩ (change s) := Iff.rfl

@[simp] theorem wp_set {good : PUnit → S → Prop} (next : S) :
    wp (set next : Prog S H PUnit) good bad s ↔ good ⟨⟩ next := Iff.rfl

theorem wp_ite {first second : Prog S H A} (test : Prop) [Decidable test] :
    wp (if test then first else second) good bad s ↔ if test then wp first good bad s else wp second good bad s := by
  split <;> rfl

/-- A loop over a list carries an invariant about the part of the list that is done. -/
theorem wp_forM {items : List B} {body : B → Prog S H PUnit} (invariant : List B → S → Prop) (start : invariant [] s)
    (iterate : ∀ done item later current, items = done ++ item :: later → invariant done current →
      wp (body item) (fun _ next => invariant (done ++ [item]) next) bad current) :
    wp (items.forM body) (fun _ next => invariant items next) bad s := by
  suffices further : ∀ later done current, items = done ++ later → invariant done current →
      wp (later.forM body) (fun _ next => invariant items next) bad current from further items [] s rfl start
  intro later
  induction later with
  | nil =>
    intro done current whole holds
    rw [List.append_nil] at whole
    exact whole ▸ holds
  | cons item rest ih =>
    intro done current whole holds
    change wp (body item >>= fun _ => rest.forM body) _ _ _
    rw [wp_bind]
    apply wp_imp (iterate done item rest current whole holds)
    intro _ next carried
    exact ih (done ++ [item]) next (by rw [whole, List.append_assoc]; rfl) carried

/-- The loop handles a range of `left` items from an offset on, one block of `width` items at a time. -/
def forChunks (width : Nat) (body : Nat → Nat → Nat → A → Prog S H A) : Nat → Nat → Nat → A → Prog S H A
  | 0, _, _, value => pure value
  | fuel + 1, off, left, value =>
    if left = 0 then pure value
    else do
      let m := min left (width - off % width)
      let value ← body (off / width) (off % width) m value
      forChunks width body fuel (off + m) (left - m) value

/-- The invariant moves along the range with the offset. -/
theorem wp_forChunks {width fuel off left : Nat} {body : Nat → Nat → Nat → A → Prog S H A}
    (invariant : Nat → A → S → Prop) (positive : 0 < width) (enough : left ≤ fuel) (start : invariant off value s)
    (iterate : ∀ here value current, off ≤ here → here < off + left → invariant here value current →
      wp (body (here / width) (here % width) (min (off + left - here) (width - here % width)) value)
        (fun value next => invariant (here + min (off + left - here) (width - here % width)) value next) bad current) :
    wp (forChunks width body fuel off left value) (fun value next => invariant (off + left) value next) bad s := by
  suffices further : ∀ fuel here rest value current, off ≤ here → here + rest = off + left → rest ≤ fuel →
      invariant here value current →
      wp (forChunks width body fuel here rest value) (fun value next => invariant (off + left) value next) bad
        current from further fuel off left value s le_rfl rfl enough start
  intro fuel
  induction fuel with
  | zero =>
    intro here rest value current _ sum few holds
    obtain rfl : here = off + left := by omega
    exact holds
  | succ fuel ih =>
    intro here rest value current above sum few holds
    rw [forChunks]
    split
    · obtain rfl : here = off + left := by omega
      exact holds
    · have inside := Nat.mod_lt here positive
      obtain rfl : rest = off + left - here := by omega
      rw [wp_bind]
      apply wp_imp (iterate here value current above (by omega) holds)
      intro value next carried
      exact ih _ _ _ _ (by omega) (by omega) (by omega) carried

end Wp
end Xv6.Library
