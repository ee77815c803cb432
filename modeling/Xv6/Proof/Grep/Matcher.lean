import Xv6.Construction.Grep

namespace Xv6.Grep
variable {c x : BitVec 8} {re text : List (BitVec 8)}

/-- A part of a pattern is a repeated character, the end of the text or a character. -/
inductive Part where
  | star (x : BitVec 8)
  | stop
  | one (x : BitVec 8)

/-- A pattern is read from left to right. -/
def parts : List (BitVec 8) → List Part
  | [] => []
  | x :: re =>
    if re.head? = some (charByte '*') then .star x :: parts re.tail
    else if x = charByte '$' ∧ re = [] then [.stop]
    else .one x :: parts re
  termination_by re => re.length

/-- The character `.` stands for any character, and any other one for itself. -/
def Fits (x c : BitVec 8) : Prop := x = charByte '.' ∨ x = c

/-- The parts match a word before the rest of the text. -/
def Matches : List Part → List (BitVec 8) → List (BitVec 8) → Prop
  | [], word, _ => word = []
  | .star x :: parts, word, rest => ∃ first last, word = first ++ last ∧ (∀ c ∈ first, Fits x c) ∧ Matches parts last rest
  | .stop :: parts, word, rest => rest = [] ∧ word = [] ∧ Matches parts word rest
  | .one x :: parts, word, rest => ∃ c last, word = c :: last ∧ Fits x c ∧ Matches parts last rest

/-- The loop for a star stops after some instances of the character. -/
theorem matchstar_iff : matchstar c re text = true ↔
    ∃ first last, text = first ++ last ∧ (∀ x ∈ first, Fits c x) ∧ matchhere re last = true := by
  induction text with
  | nil =>
    rw [matchstar]
    simp
  | cons t text hyp =>
    rw [matchstar]
    constructor
    · intro found
      by_cases here : matchhere re (t :: text) = true
      · exact ⟨[], t :: text, rfl, (by simp), here⟩
      · simp only [here, Bool.false_eq_true, ↓reduceIte, Bool.if_false_right, Bool.and_eq_true,
          decide_eq_true_eq] at found
        obtain ⟨first, last, rfl, fits, after⟩ := hyp.mp found.2
        refine ⟨t :: first, last, rfl, ?_, after⟩
        rintro x (_ | ⟨_, member⟩)
        · exact found.1.symm.imp id Eq.symm
        · exact fits x member
    · rintro ⟨first, last, split, fits, after⟩
      by_cases here : matchhere re (t :: text) = true
      · rw [if_pos here]
      · rw [if_neg here]
        cases first with
        | nil =>
          rw [split] at here
          exact absurd after here
        | cons x first =>
          obtain ⟨rfl, rfl⟩ := List.cons.inj split
          rw [if_pos ((fits t (.head _)).symm.imp Eq.symm id)]
          exact hyp.mpr ⟨first, last, rfl, fun x member => fits x (.tail _ member), after⟩

/-- The recursion matches a prefix of the text. -/
theorem matchhere_iff : matchhere re text = true ↔ ∃ word rest, text = word ++ rest ∧ Matches (parts re) word rest := by
  fun_induction parts re generalizing text with
  | case1 =>
    rw [matchhere]
    exact ⟨fun _ => ⟨[], text, rfl, rfl⟩, fun _ => rfl⟩
  | case2 x re star hyp =>
    rw [matchhere.eq_def]
    simp only [star, ↓reduceIte, matchstar_iff]
    constructor
    · rintro ⟨first, last, rfl, fits, after⟩
      obtain ⟨word, rest, rfl, found⟩ := hyp.mp after
      exact ⟨first ++ word, rest, (List.append_assoc ..).symm, first, word, rfl, fits, found⟩
    · rintro ⟨_, rest, rfl, first, word, rfl, fits, found⟩
      exact ⟨first, word ++ rest, List.append_assoc .., fits, hyp.mpr ⟨word, rest, rfl, found⟩⟩
  | case3 x re star stop =>
    rw [matchhere.eq_def]
    simp [stop, Matches]
  | case4 x re star stop hyp =>
    rw [matchhere.eq_def]
    cases text with
    | nil => simp [star, stop, Matches]
    | cons t text =>
      simp only [star, stop, ↓reduceIte, Bool.if_false_right, Bool.and_eq_true, decide_eq_true_eq, hyp]
      constructor
      · rintro ⟨fits, word, rest, rfl, found⟩
        exact ⟨t :: word, rest, rfl, t, word, rfl, fits, found⟩
      · rintro ⟨_, rest, split, c, word, rfl, fits, found⟩
        obtain ⟨rfl, rfl⟩ := List.cons.inj split
        exact ⟨fits, word, rest, rfl, found⟩

theorem matchLoop_iff : matchLoop re text = true ↔ ∃ before after, text = before ++ after ∧ matchhere re after = true := by
  induction text with
  | nil =>
    rw [matchLoop]
    simp
  | cons t text hyp =>
    rw [matchLoop]
    by_cases here : matchhere re (t :: text) = true
    · rw [if_pos here]
      exact ⟨fun _ => ⟨[], t :: text, rfl, here⟩, fun _ => rfl⟩
    · rw [if_neg here, hyp]
      constructor
      · rintro ⟨before, after, rfl, found⟩
        exact ⟨t :: before, after, rfl, found⟩
      · rintro ⟨_ | ⟨_, before⟩, after, split, found⟩
        · rw [split] at here
          exact absurd found here
        · exact ⟨before, after, (List.cons.inj split).2, found⟩

/-- The matcher finds a substring that the pattern describes, and a prefix for a pattern with `^`. -/
theorem match_finds_pattern (re text : List (BitVec 8)) : match_ re text = true ↔
    if re.head? = some (charByte '^') then ∃ word rest, text = word ++ rest ∧ Matches (parts re.tail) word rest
    else ∃ before word rest, text = before ++ word ++ rest ∧ Matches (parts re) word rest := by
  rw [match_]
  split
  · exact matchhere_iff
  · simp only [matchLoop_iff, matchhere_iff, List.append_assoc]
    constructor
    · rintro ⟨before, _, rfl, word, rest, rfl, found⟩
      exact ⟨before, word, rest, rfl, found⟩
    · rintro ⟨before, word, rest, rfl, found⟩
      exact ⟨before, _, rfl, word, rest, rfl, found⟩

end Xv6.Grep
