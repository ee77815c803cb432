import Xv6.Proof.Shell.Complete

namespace Xv6.Shell
open Library List Nat
variable {result : Cmd Slice × List (BitVec 8)} {cmd : Cmd Slice}

section Terminate
variable {line buffer : List (BitVec 8)} {cmd : Cmd Slice} {slice : Slice}

/-- The zero bytes replace only bytes outside of words. -/
structure Punctured (line buffer : List (BitVec 8)) : Prop where
  length : buffer.length = line.length
  kept : ∀ {place : Nat} {c : BitVec 8}, (line)[place]? = some c → WordByte c → buffer[place]? = some c

/-- The byte after a string is zero, or the string ends with the line. -/
def Ended (line buffer : List (BitVec 8)) (slice : Slice) : Prop :=
  slice.eq = [] ∨ buffer[line.length - slice.eq.length]? = some 0

theorem Whole.parts (whole : Whole line slice) :
    ∃ before, line = before ++ (text slice ++ slice.eq) ∧ line.length - slice.q.length = before.length ∧
      line.length - slice.eq.length = before.length + (text slice).length := by
  obtain ⟨before, same⟩ := whole.inside
  have length := congrArg length whole.split
  have total := congrArg List.length same
  rw [length_append] at length total
  exact ⟨before, by rw [← whole.split, same], by omega, by omega⟩

theorem terminate_punctured (punctured : Punctured line buffer) (whole : Whole line slice) :
    Punctured line (terminate line.length buffer slice) := by
  obtain ⟨before, same, _, position⟩ := whole.parts
  refine ⟨by rw [terminate, length_set, punctured.length], ?_⟩
  intro index c found word
  rw [terminate, position, getElem?_set_ne]
  · exact punctured.kept found word
  · rintro rfl
    rw [same, ← append_assoc, ← length_append, getElem?_append_right (Nat.le_refl _), Nat.sub_self] at found
    cases rest : slice.eq with
    | nil =>
      rw [rest] at found
      cases found
    | cons d more =>
      rw [rest] at found
      cases found
      exact whole.stop _ more rest word

theorem terminate_ended (punctured : Punctured line buffer) (whole : Whole line slice) :
    Ended line (terminate line.length buffer slice) slice := by
  cases rest : slice.eq with
  | nil => exact .inl rest
  | cons d more =>
    obtain ⟨before, same, _, position⟩ := whole.parts
    have total := congrArg length same
    rw [length_append, length_append, rest, length_cons] at total
    refine .inr ?_
    rw [terminate, position, getElem?_set_self]
    rw [punctured.length]
    omega

theorem terminate_keeps (length : Nat) (other : Slice) (ended : Ended line buffer slice) :
    Ended line (terminate length buffer other) slice := by
  refine ended.imp_right fun zero => ?_
  rw [terminate, List.getElem?_set]
  have bounded := (List.getElem?_eq_some_iff.mp zero).1
  split
  · rename_i same
    rw [same, if_pos bounded]
  · exact zero

/-- All strings of a command end with a zero byte, and all words are kept. -/
structure Terminated (line : List (BitVec 8)) (cmd : Cmd Slice) (buffer after : List (BitVec 8)) : Prop where
  punctured : Punctured line after
  ended : cmd.All (Ended line after)
  keeps : ∀ {slice}, Ended line buffer slice → Ended line after slice

theorem foldl_terminated {argv : List Slice} (punctured : Punctured line buffer) (whole : ∀ arg ∈ argv, Whole line arg) :
    Terminated line (.exec argv) buffer (argv.foldl (terminate line.length) buffer) := by
  induction argv generalizing buffer with
  | nil => exact ⟨punctured, fun arg member => absurd member not_mem_nil, id⟩
  | cons arg argv ih =>
    have first := whole arg mem_cons_self
    obtain ⟨again, ended, keeps⟩ := ih (terminate_punctured punctured first) fun other member =>
      whole other (mem_cons_of_mem arg member)
    refine ⟨again, ?_, fun old => keeps (terminate_keeps line.length arg old)⟩
    intro other member
    rcases mem_cons.mp member with rfl | later
    · exact keeps (terminate_ended punctured first)
    · exact ended other later

theorem Terminated.both {left right : Cmd Slice} {middle after : List (BitVec 8)}
    (first : Terminated line left buffer middle) (second : Terminated line right middle after) :
    (left.All (Ended line after) ∧ right.All (Ended line after)) ∧
      ∀ {slice}, Ended line buffer slice → Ended line after slice :=
  ⟨⟨first.ended.imp second.keeps, second.ended⟩, fun old => second.keeps (first.keeps old)⟩

theorem nulterminate_terminated (punctured : Punctured line buffer) (all : cmd.All (Whole line)) :
    Terminated line cmd buffer (nulterminate line.length cmd buffer) := by
  induction cmd generalizing buffer with
  | exec argv => exact foldl_terminated punctured all
  | redir inner file mode fd ih =>
    obtain ⟨again, ended, keeps⟩ := ih punctured all.1
    refine ⟨terminate_punctured again all.2, ⟨?_, terminate_ended again all.2⟩, ?_⟩
    · exact ended.imp (terminate_keeps line.length file)
    · exact fun old => terminate_keeps line.length file (keeps old)
  | pipe left right ihl ihr | list left right ihl ihr =>
    have first := ihl punctured all.1
    have second := ihr first.punctured all.2
    exact ⟨second.punctured, (first.both second).1, (first.both second).2⟩
  | back inner ih =>
    obtain ⟨again, ended, keeps⟩ := ih punctured all
    exact ⟨again, ended, keeps⟩

/-- The string at a pointer into the line with the zero bytes. -/
def readString (buffer : List (BitVec 8)) (slice : Slice) : List (BitVec 8) :=
  cstring (buffer.drop (buffer.length - slice.q.length))

/-- After the zero bytes are written, the string at a word is the word. -/
theorem readString_eq (clean : 0 ∉ line) (punctured : Punctured line buffer) (whole : Whole line slice)
    (ended : Ended line buffer slice) : readString buffer slice = text slice := by
  obtain ⟨before, same, start, stop⟩ := whole.parts
  have kept : ∀ index < (text slice).length, buffer[before.length + index]? = (text slice)[index]? := by
    intro index inside
    have found : (text slice)[index]? = some (text slice)[index] := getElem?_eq_getElem inside
    rw [found]
    refine punctured.kept ?_ (whole.word _ (getElem_mem inside))
    rw [same, getElem?_append_right (Nat.le_add_right _ _), Nat.add_sub_cancel_left,
      getElem?_append_left inside, found]
  have split : buffer.drop before.length = text slice ++ buffer.drop (before.length + (text slice).length) := by
    apply ext_getElem?
    intro index
    rw [getElem?_drop]
    by_cases inside : index < (text slice).length
    · rw [kept index inside, getElem?_append_left inside]
    · rw [getElem?_append_right (by omega), getElem?_drop]
      congr 1
      omega
  have nonzero : ∀ c ∈ text slice, decide (c ≠ 0) = true := by
    intro c member
    refine decide_eq_true ?_
    rintro rfl
    refine clean ?_
    rw [same]
    exact mem_append_right _ (mem_append_left _ member)
  have rest : cstring (buffer.drop (before.length + (text slice).length)) = [] := by
    rcases ended with none | zero
    · have total := congrArg length same
      rw [length_append, length_append, none, length_nil] at total
      rw [drop_eq_nil_of_le (by rw [punctured.length]; omega)]
      rfl
    · rw [stop] at zero
      obtain ⟨bounded, value⟩ := List.getElem?_eq_some_iff.mp zero
      rw [drop_eq_getElem_cons bounded, value]
      rfl
  rw [cstring] at rest
  rw [readString, punctured.length, start, split, cstring, takeWhile_append_of_pos nonzero, rest, append_nil]

end Terminate

/-- The tree that the shell works with has the strings of the line with the zero bytes. -/
def parsedTree (result : Cmd Slice × List (BitVec 8)) : Tree := result.1.map (readString result.2)

section Parse
variable {bytes : List (BitVec 8)} {fuel : Nat} {s : List (BitVec 8)}

theorem cstring_clean (bytes : List (BitVec 8)) : 0 ∉ cstring bytes := by
  intro zero
  have passed := mem_takeWhile_imp zero
  exact absurd rfl (of_decide_eq_true passed)

theorem skip_eq_nil (clean : 0 ∉ s) : skip s = [] ↔ tokens s = [] := by
  rw [← tokens_skip]
  cases skipped : skip s with
  | nil => simp [tokens]
  | cons c rest =>
    have inside := skip_suffix s
    rw [skipped] at inside
    have nonzero : c ≠ 0 := by
      rintro rfl
      exact clean (inside.mem (.head _))
    have visible : c ∉ whitespace := of_decide_eq_false (dropWhile_stop skipped)
    obtain ⟨tok, scanned⟩ := scan_token nonzero visible rest
    rw [scanned.tokens]
    simp

section
variable (ran : parseline fuel (cstring bytes) = .ok (cmd, s))
include ran

/-- The call `parsecmd` accepts what `parseline` uses up. -/
theorem parsecmd_eq : parsecmd fuel bytes =
      if tokens s = [] then .ok (cmd, nulterminate (cstring bytes).length cmd (cstring bytes))
      else .error (.panic .syntaxError) := by
  have clean := cstring_clean bytes
  have sound := ((parsers_sound clean fuel).lines (suffix_refl _)).sound ran
  have clear := clean_suffix clean sound.rest
  rw [parsecmd, ran]
  change (if skip s ≠ [] then _ else _) = _
  rw [ite_not]
  simp only [skip_eq_nil clear]

/-- Every string of the command is a word of the line and is read back whole. -/
theorem strings_read : cmd.All fun slice =>
    Whole (cstring bytes) slice ∧
      readString (nulterminate (cstring bytes).length cmd (cstring bytes)) slice = text slice := by
  have clean := cstring_clean bytes
  have sound := ((parsers_sound clean fuel).lines (suffix_refl _)).sound ran
  have untouched : Punctured (cstring bytes) (cstring bytes) := ⟨rfl, fun found _ => found⟩
  have terminated := nulterminate_terminated untouched sound.slices
  have both := sound.slices.and terminated.ended
  exact both.imp fun pair => ⟨pair.1, readString_eq clean terminated.punctured pair.1 pair.2⟩

/-- The strings of the tree are the words of the line. -/
theorem parsedTree_eq : parsedTree (cmd, nulterminate (cstring bytes).length cmd (cstring bytes)) = cmd.map text :=
  Cmd.map_congr ((strings_read ran).imp And.right)

end

/-- A tree that `parsecmd` returns has a derivation. -/
theorem parsecmd_sound (ran : parsecmd fuel bytes = .ok result) :
    Line (tokens (cstring bytes)) (parsedTree result) := by
  have clean := cstring_clean bytes
  obtain ⟨⟨cmd, s⟩, parsed, _⟩ := bind_eq_ok.mp ran
  rw [parsecmd_eq parsed] at ran
  have sound := ((parsers_sound clean fuel).lines (suffix_refl _)).sound parsed
  obtain ⟨used, split, derived⟩ := sound.derived
  split at ran
  · rename_i spent
    cases ran
    rw [spent, append_nil] at split
    rw [parsedTree_eq parsed, split]
    exact derived
  · cases ran

/-- Every derivation of the whole line is found. -/
theorem parsecmd_complete {tree : Tree} (derivation : Line (tokens (cstring bytes)) tree) :
    ∃ enough, ∀ fuel ≥ enough, (parsecmd fuel bytes).map parsedTree = .ok tree := by
  have whole : tokens (cstring bytes) = tokens (cstring bytes) ++ [] := (append_nil _).symm
  obtain ⟨cmd, s, ⟨enough, settles⟩, shape, spent, _⟩ := derivation.found (cstring_clean bytes) whole
    (fun tok head => by cases head)
  refine ⟨enough, fun fuel more => ?_⟩
  have ran := settles fuel more
  rw [parsecmd_eq ran, if_pos spent]
  change Except.ok (parsedTree _) = _
  rw [parsedTree_eq ran, shape]

/-- The parser always stops. With enough fuel it returns exactly the tree of the derivation of the line, and it panics
when there is none. -/
theorem parsecmd_accepts_grammar (bytes : List (BitVec 8)) :
    ∃ enough, ∀ fuel ≥ enough, parsecmd fuel bytes ≠ .error .outOfFuel ∧
      ∀ tree, (parsecmd fuel bytes).map parsedTree = .ok tree ↔ Line (tokens (cstring bytes)) tree := by
  have halts : ∀ fuel ≥ 4 * (tokens (cstring bytes)).length + 4, parsecmd fuel bytes ≠ .error .outOfFuel := by
    intro fuel more
    refine bind_ne_error (((parsers_sound (cstring_clean bytes) fuel).lines (suffix_refl _)).halts more) ?_
    rintro ⟨cmd, s⟩ _
    dsimp only
    split <;> simp
  have sound : ∀ fuel tree, (parsecmd fuel bytes).map parsedTree = .ok tree → Line (tokens (cstring bytes)) tree := by
    intro fuel tree ran
    cases parsed : parsecmd fuel bytes with
    | error halt =>
      rw [parsed] at ran
      cases ran
    | ok result =>
      rw [parsed] at ran
      cases ran
      exact parsecmd_sound parsed
  by_cases derivable : ∃ tree, Line (tokens (cstring bytes)) tree
  · obtain ⟨tree, derivation⟩ := derivable
    obtain ⟨enough, found⟩ := parsecmd_complete derivation
    refine ⟨max enough (4 * (tokens (cstring bytes)).length + 4), fun fuel more => ⟨halts fuel (by omega), ?_⟩⟩
    intro other
    refine ⟨sound fuel other, fun again => ?_⟩
    obtain ⟨later, same⟩ := parsecmd_complete again
    have unique : tree = other := by
      have one := found (max enough later) (le_max_left _ _)
      have two := same (max enough later) (le_max_right _ _)
      exact Except.ok.inj (one.symm.trans two)
    rw [← unique]
    exact found fuel (by omega)
  · refine ⟨4 * (tokens (cstring bytes)).length + 4, fun fuel more => ⟨halts fuel more, fun tree => ?_⟩⟩
    refine ⟨sound fuel tree, fun derivation => ?_⟩
    exact absurd ⟨tree, derivation⟩ derivable

end Parse
end Xv6.Shell
