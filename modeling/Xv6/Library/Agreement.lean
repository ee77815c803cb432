import Xv6.Library.Wp

namespace Xv6.Library

section Agreement
variable {S T H G A B X Y : Type}

/-- Two runs both halt, or both end with related results and states. -/
def Agree (first : Except H (A × S)) (second : Except G (B × T)) (related : A → S → B → T → Prop) : Prop :=
  match first, second with
  | .ok (a, s), .ok (b, t) => related a s b t
  | .error _, .error _ => True
  | _, _ => False

variable {related after : A → S → B → T → Prop} {first : Except H (A × S)} {second : Except G (B × T)}

section
variable (agree : Agree first second related)
include agree

theorem Agree.imp (implies : ∀ a s b t, related a s b t → after a s b t) : Agree first second after := by
  unfold Agree at agree ⊢
  split at agree
  · exact implies _ _ _ _ agree
  · trivial
  · exact agree

/-- A fact about the second run is kept with the relation. -/
theorem Agree.and_right {fact : B → T → Prop} (holds : ∀ b t, second = .ok (b, t) → fact b t) :
    Agree first second fun a s b t => related a s b t ∧ fact b t := by
  unfold Agree at agree ⊢
  split at agree
  · exact ⟨agree, holds _ _ rfl⟩
  · trivial
  · exact agree

theorem Agree.of_left {a : A} {s : S} (ran : first = .ok (a, s)) : ∃ b t, second = .ok (b, t) ∧ related a s b t := by
  subst ran
  cases second with
  | ok result => exact ⟨result.1, result.2, rfl, agree⟩
  | error halt => exact agree.elim

theorem Agree.of_right {b : B} {t : T} (ran : second = .ok (b, t)) : ∃ a s, first = .ok (a, s) ∧ related a s b t := by
  subst ran
  cases first with
  | ok result => exact ⟨result.1, result.2, rfl, agree⟩
  | error halt => exact agree.elim

end

theorem Agree.bind {one : Prog S H A} {two : Prog T G B} {next : A → Prog S H X} {other : B → Prog T G Y}
    {last : X → S → Y → T → Prop} {s : S} {t : T} (agree : Agree (one s) (two t) related)
    (each : ∀ a s b t, related a s b t → Agree (next a s) (other b t) last) :
    Agree ((one >>= next) s) ((two >>= other) t) last := by
  change Agree (Except.bind (one s) fun result => next result.1 result.2)
    (Except.bind (two t) fun result => other result.1 result.2) last
  cases left : one s with
  | ok result =>
    rw [left] at agree
    obtain ⟨b, u, right, holds⟩ := agree.of_left rfl
    rw [right]
    exact each _ _ _ _ holds
  | error halt =>
    rw [left] at agree
    cases right : two t with
    | ok result =>
      rw [right] at agree
      exact agree.elim
    | error reason => trivial

/-- Two loops over one range agree if their iterations do. -/
theorem agree_forChunks {width fuel off left : Nat} {body : Nat → Nat → Nat → A → Prog S H A}
    {other : Nat → Nat → Nat → B → Prog T G B} {a : A} {s : S} {b : B} {t : T} (related : Nat → A → S → B → T → Prop)
    (positive : 0 < width) (enough : left ≤ fuel) (start : related off a s b t)
    (iterate : ∀ here a s b t, off ≤ here → here < off + left → related here a s b t →
      Agree (body (here / width) (here % width) (min (off + left - here) (width - here % width)) a s)
        (other (here / width) (here % width) (min (off + left - here) (width - here % width)) b t)
        (related (here + min (off + left - here) (width - here % width)))) :
    Agree (forChunks width body fuel off left a s) (forChunks width other fuel off left b t)
      (related (off + left)) := by
  suffices further : ∀ fuel here rest a s b t, off ≤ here → here + rest = off + left → rest ≤ fuel →
      related here a s b t →
      Agree (forChunks width body fuel here rest a s) (forChunks width other fuel here rest b t)
        (related (off + left)) from further fuel off left a s b t le_rfl rfl enough start
  intro fuel
  induction fuel with
  | zero =>
    intro here rest a s b t _ sum few holds
    obtain rfl : here = off + left := by omega
    exact holds
  | succ fuel ih =>
    intro here rest a s b t above sum few holds
    rw [forChunks, forChunks]
    split
    · obtain rfl : here = off + left := by omega
      exact holds
    · have inside := Nat.mod_lt here positive
      obtain rfl : rest = off + left - here := by omega
      apply Agree.bind (iterate here a s b t above (by omega) holds)
      intro a s b t carried
      exact ih _ _ _ _ _ _ (by omega) (by omega) (by omega) carried

end Agreement
end Xv6.Library
