import Mathlib.Data.List.TakeWhile
import Xv6.Construction.Shell

namespace Xv6.Shell
open List

/-- The tokens of the shell. -/
inductive Token where
  | word (text : List (BitVec 8))
  | less
  | greater
  | append
  | bar
  | ampersand
  | semicolon
  | opening
  | closing
  deriving DecidableEq

variable {c : BitVec 8} {tok : Token} {s : List (BitVec 8)} {rest : List Token}

/-- The value that `gettoken` returns for a token. -/
def Token.kind : Token → BitVec 8
  | .word _ => charByte 'a'
  | .less => charByte '<'
  | .greater => charByte '>'
  | .append => charByte '+'
  | .bar => charByte '|'
  | .ampersand => charByte '&'
  | .semicolon => charByte ';'
  | .opening => charByte '('
  | .closing => charByte ')'

/-- The symbol that a token begins with. -/
def Token.lead : Token → Option (BitVec 8)
  | .word _ => none
  | .append => some (charByte '>')
  | tok => some tok.kind

/-- The symbols that are tokens whatever follows. -/
def symbolToken (c : BitVec 8) : Option Token :=
  [Token.less, .bar, .ampersand, .semicolon, .opening, .closing].find? fun tok => tok.kind = c

/-- A byte of a word begins a new word unless the next byte belongs to the same word. -/
def joinWord (c : BitVec 8) : List (BitVec 8) → List Token → List Token
  | d :: _, .word text :: rest => if WordByte d then .word (c :: text) :: rest else .word [c] :: .word text :: rest
  | _, rest => .word [c] :: rest

local instance tokenLawful : LawfulBEq (BitVec 8) := inferInstance

/-- The token sequence of a line. Whitespace separates tokens, two adjacent signs `>` are one token, and a word is as
long as possible. -/
def tokens : List (BitVec 8) → List Token
  | [] => []
  | c :: s =>
    if c ∈ whitespace then tokens s
    else if c = charByte '>' then
      match s with
      | d :: more => if d = charByte '>' then .append :: tokens more else .greater :: tokens (d :: more)
      | [] => [.greater]
    else
      match symbolToken c with
      | some tok => tok :: tokens s
      | none => joinWord c s (tokens s)

/-- A byte that is neither whitespace nor the sign `>`. -/
theorem tokens_plain (visible : c ∉ whitespace) (other : c ≠ charByte '>') (s : List (BitVec 8)) :
    tokens (c :: s) = match symbolToken c with
      | some tok => tok :: tokens s
      | none => joinWord c s (tokens s) := by
  cases s <;> simp only [tokens, if_neg visible, if_neg other]

theorem tokens_space (space : c ∈ whitespace) (s : List (BitVec 8)) : tokens (c :: s) = tokens s := by
  cases s <;> simp only [tokens, if_pos space]

theorem tokens_skip (s : List (BitVec 8)) : tokens (skip s) = tokens s := by
  induction s with
  | nil => rfl
  | cons c s ih =>
    by_cases space : c ∈ whitespace
    · rw [tokens_space space, ← ih]
      simp [skip, space]
    · simp [skip, space]

/-- No symbol and no sign `>` is part of a word. -/
theorem symbolToken_word (word : WordByte c) : symbolToken c = none ∧ c ≠ charByte '>' := by
  obtain ⟨_, outside⟩ := word
  simp only [symbols, mem_cons, not_mem_nil, or_false, not_or] at outside
  obtain ⟨less, bar, greater, ampersand, semicolon, opening, closing⟩ := outside
  refine ⟨?_, greater⟩
  simp [symbolToken, Token.kind, Ne.symm less, Ne.symm bar, Ne.symm ampersand, Ne.symm semicolon, Ne.symm opening,
    Ne.symm closing]

theorem tokens_cons_word (word : WordByte c) (s : List (BitVec 8)) : tokens (c :: s) = joinWord c s (tokens s) := by
  obtain ⟨none, other⟩ := symbolToken_word word
  rw [tokens_plain word.1 other, none]

/-- The first token of a line that begins with a word is the longest word. -/
theorem tokens_word (word : WordByte c) (s : List (BitVec 8)) :
    tokens (c :: s) = .word (c :: s.takeWhile fun d => WordByte d) :: tokens (s.dropWhile fun d => WordByte d) := by
  induction s generalizing c with
  | nil =>
    rw [tokens_cons_word word]
    rfl
  | cons d s ih =>
    rw [tokens_cons_word word]
    by_cases longer : WordByte d
    · rw [ih longer]
      simp [joinWord, longer]
    · have stop : joinWord c (d :: s) (tokens (d :: s)) = .word [c] :: tokens (d :: s) := by
        cases tokens (d :: s) with
        | nil => rfl
        | cons tok rest => cases tok <;> simp [joinWord, longer]
      rw [stop]
      simp [longer]

/-- A line that begins with a symbol. -/
theorem tokens_symbol (found : symbolToken c = some tok) (s : List (BitVec 8)) : tokens (c :: s) = tok :: tokens s := by
  have kind : tok.kind = c := by
    have member := find?_some found
    simpa using member
  have plain : ∀ tok ∈ [Token.less, .bar, .ampersand, .semicolon, .opening, .closing],
      tok.kind ∉ whitespace ∧ tok.kind ≠ charByte '>' := by decide
  obtain ⟨visible, other⟩ := plain tok (mem_of_find?_eq_some found)
  rw [kind] at visible other
  rw [tokens_plain visible other, found]

/-- A line that begins with the sign `>`. -/
theorem tokens_append (s : List (BitVec 8)) : tokens (charByte '>' :: charByte '>' :: s) = .append :: tokens s := by
  have visible : charByte '>' ∉ whitespace := by decide
  simp only [tokens, if_neg visible, if_true]

theorem tokens_greater (single : ∀ more, s ≠ charByte '>' :: more) :
    tokens (charByte '>' :: s) = .greater :: tokens s := by
  have visible : charByte '>' ∉ whitespace := by decide
  cases s with
  | nil => simp only [tokens, if_neg visible, if_true]
  | cons d more =>
    have other : d ≠ charByte '>' := by
      rintro rfl
      exact single more rfl
    rw [tokens.eq_def]
    simp only [if_neg visible, if_true, if_neg other]

/-- The string of a slice. -/
def text (slice : Slice) : List (BitVec 8) := slice.q.take (slice.q.length - slice.eq.length)

/-- The slice holds a whole word of the line. -/
structure Whole (line : List (BitVec 8)) (slice : Slice) : Prop where
  inside : slice.q <:+ line
  split : slice.q = text slice ++ slice.eq
  word : ∀ c ∈ text slice, WordByte c
  stop : ∀ c rest, slice.eq = c :: rest → ¬WordByte c

theorem text_append (word rest : List (BitVec 8)) : text ⟨word ++ rest, rest⟩ = word := by
  simp [text]

/-- The call `gettoken` returns the first token of the line. -/
structure Lexed (s : List (BitVec 8)) (result : Gettoken) (tok : Token) : Prop where
  ret : result.ret = tok.kind
  tokens : tokens s = tok :: tokens result.rest
  rest : result.rest <:+ s
  word : ∀ word, tok = .word word → Whole s result.slice ∧ text result.slice = word

/-- The scan of a visible byte finds the first token. -/
structure Scanned (c : BitVec 8) (s : List (BitVec 8)) (tok : Token) : Prop where
  ret : (scan (c :: s)).1 = tok.kind
  lead : tok.lead = if c ∈ symbols then some c else none
  tokens : tokens (c :: s) = tok :: tokens (scan (c :: s)).2
  rest : (scan (c :: s)).2 <:+ c :: s
  word : ∀ word, tok = .word word →
    Whole (c :: s) ⟨c :: s, (scan (c :: s)).2⟩ ∧ text ⟨c :: s, (scan (c :: s)).2⟩ = word

theorem scan_symbol (found : symbolToken c = some tok) (s : List (BitVec 8)) : Scanned c s tok := by
  have kind : tok.kind = c := by
    have member := find?_some found
    simpa using member
  have plain : ∀ tok ∈ [Token.less, .bar, .ampersand, .semicolon, .opening, .closing],
      tok.kind ≠ 0 ∧ (∀ word, tok ≠ .word word) ∧ (tok.lead = if tok.kind ∈ symbols then some tok.kind else none) ∧
        tok.kind ∈ [charByte '|', charByte '(', charByte ')', charByte ';', charByte '&', charByte '<'] := by
    simp only [forall_mem_cons, not_mem_nil, false_imp_iff, implies_true, and_true, ne_eq, reduceCtorEq,
      not_false_eq_true, true_and]
    decide
  obtain ⟨nonzero, wordless, lead, listed⟩ := plain tok (mem_of_find?_eq_some found)
  rw [kind] at nonzero listed lead
  have result : scan (c :: s) = (c, s) := by
    rw [scan.eq_def]
    simp only [if_neg nonzero, if_pos listed]
  refine ⟨?_, lead, ?_, ?_, fun word same => absurd same (wordless word)⟩
  · rw [result, kind]
  · rw [result]
    exact tokens_symbol found s
  · rw [result]
    exact suffix_cons c s

theorem scan_greater (s : List (BitVec 8)) : ∃ tok, Scanned (charByte '>') s tok := by
  have nonzero : charByte '>' ≠ 0 := by decide
  have unlisted : charByte '>' ∉
      [charByte '|', charByte '(', charByte ')', charByte ';', charByte '&', charByte '<'] := by decide
  by_cases double : ∃ more, s = charByte '>' :: more
  · obtain ⟨more, rfl⟩ := double
    have result : scan (charByte '>' :: charByte '>' :: more) = (charByte '+', more) := by
      rw [scan.eq_def]
      simp only [if_neg nonzero, if_neg unlisted, if_true]
    refine ⟨.append, ?_, by decide, ?_, ?_, fun word same => by cases same⟩
    · rw [result]
      rfl
    · rw [result]
      exact tokens_append more
    · rw [result]
      exact (suffix_cons _ more).trans (suffix_cons _ _)
  · have single : ∀ more, s ≠ charByte '>' :: more := fun more same => double ⟨more, same⟩
    have result : scan (charByte '>' :: s) = (charByte '>', s) := by
      rw [scan.eq_def]
      simp only [if_neg nonzero, if_neg unlisted, if_true]
      cases s with
      | nil => rfl
      | cons d more =>
        have other : d ≠ charByte '>' := by
          rintro rfl
          exact single more rfl
        simp only [if_neg other]
    refine ⟨.greater, ?_, by decide, ?_, ?_, fun word same => by cases same⟩
    · rw [result]
      rfl
    · rw [result]
      exact tokens_greater single
    · rw [result]
      exact suffix_cons _ s

theorem dropWhile_stop {p : BitVec 8 → Bool} {rest : List (BitVec 8)} (left : s.dropWhile p = c :: rest)
    : p c = false := by
  have nonempty : s.dropWhile p ≠ [] := by
    rw [left]
    exact cons_ne_nil c rest
  have head := head_dropWhile_not p nonempty
  simpa only [left, head_cons] using head

theorem scan_word (nonzero : c ≠ 0) (word : WordByte c) (s : List (BitVec 8)) :
    Scanned c s (.word (c :: s.takeWhile fun d => WordByte d)) := by
  obtain ⟨none, other⟩ := symbolToken_word word
  have unlisted : c ∉ [charByte '|', charByte '(', charByte ')', charByte ';', charByte '&', charByte '<'] := by
    intro listed
    have symbolic : ∀ c ∈ [charByte '|', charByte '(', charByte ')', charByte ';', charByte '&', charByte '<'],
        c ∈ symbols := by decide
    exact word.2 (symbolic c listed)
  have result : scan (c :: s) = (charByte 'a', s.dropWhile fun d => WordByte d) := by
    rw [scan.eq_def]
    simp only [if_neg nonzero, if_neg unlisted, if_neg other]
    simp [word]
  have whole : c :: s = (c :: s.takeWhile fun d => WordByte d) ++ s.dropWhile fun d => WordByte d := by
    rw [cons_append, takeWhile_append_dropWhile]
  have string : text ⟨c :: s, s.dropWhile fun d => WordByte d⟩ = c :: s.takeWhile fun d => WordByte d := by
    conv_lhs => rw [whole]
    exact text_append _ _
  refine ⟨?_, (if_neg word.2).symm, ?_, ?_, ?_⟩
  · rw [result]
    rfl
  · rw [result]
    exact tokens_word word s
  · rw [result]
    exact (dropWhile_suffix _).trans (suffix_cons c s)
  · rintro found ⟨⟩
    rw [result]
    refine ⟨⟨suffix_refl _, ?_, ?_, ?_⟩, string⟩
    · rw [string]
      exact whole
    · rw [string]
      intro d member
      rcases mem_cons.mp member with rfl | later
      · exact word
      · have passed := mem_takeWhile_imp later
        exact of_decide_eq_true passed
    · intro d rest left
      exact of_decide_eq_false (dropWhile_stop left)

/-- Every visible byte begins a token. -/
theorem scan_token (nonzero : c ≠ 0) (visible : c ∉ whitespace) (s : List (BitVec 8)) : ∃ tok, Scanned c s tok := by
  by_cases symbolic : c ∈ symbols
  · have known : ∀ c ∈ symbols, c = charByte '>' ∨ (symbolToken c).isSome := by decide
    rcases known c symbolic with rfl | found
    · exact scan_greater s
    · obtain ⟨tok, same⟩ := Option.isSome_iff_exists.mp found
      exact ⟨tok, scan_symbol same s⟩
  · exact ⟨_, scan_word nonzero ⟨visible, symbolic⟩ s⟩

theorem skip_suffix (s : List (BitVec 8)) : skip s <:+ s := dropWhile_suffix _

/-- The call `gettoken` finds the first token, and at the end of the line it returns 0. -/
theorem gettoken_lexed (clean : 0 ∉ s) :
    (tokens s = [] ∧ (gettoken s).ret = 0 ∧ (gettoken s).rest = []) ∨ ∃ tok, Lexed s (gettoken s) tok := by
  have same := tokens_skip s
  have inside := skip_suffix s
  cases skipped : skip s with
  | nil =>
    rw [skipped] at same
    have result : gettoken s = ⟨0, ⟨[], []⟩, []⟩ := by
      rw [gettoken, skipped]
      rfl
    exact .inl ⟨same.symm, by rw [result], by rw [result]⟩
  | cons c rest =>
    rw [skipped] at same inside
    have nonzero : c ≠ 0 := by
      rintro rfl
      exact clean (inside.mem (.head _))
    have visible : c ∉ whitespace := of_decide_eq_false (dropWhile_stop skipped)
    obtain ⟨tok, scanned⟩ := scan_token nonzero visible rest
    have result : gettoken s = ⟨(scan (c :: rest)).1, ⟨c :: rest, (scan (c :: rest)).2⟩, skip (scan (c :: rest)).2⟩ := by
      rw [gettoken, skipped]
    refine .inr ⟨tok, ?_⟩
    rw [result]
    refine ⟨scanned.ret, ?_, ?_, ?_⟩
    · rw [tokens_skip, ← same, scanned.tokens]
    · exact ((skip_suffix _).trans scanned.rest).trans inside
    · intro word kind
      obtain ⟨whole, string⟩ := scanned.word word kind
      exact ⟨⟨inside, whole.split, whole.word, whole.stop⟩, string⟩

/-- The first token begins with one of the symbols. -/
def startsWith (toks : List (BitVec 8)) : List Token → Bool
  | [] => false
  | tok :: _ => match tok.lead with
    | none => false
    | some c => c ∈ toks

/-- The call `peek` tests the first token. -/
theorem peek_eq {toks : List (BitVec 8)} (clean : 0 ∉ s) (symbolic : toks ⊆ symbols) :
    peek s toks = (startsWith toks (tokens s), skip s) := by
  have same := tokens_skip s
  rw [peek]
  cases skipped : skip s with
  | nil =>
    rw [skipped] at same
    rw [← same]
    rfl
  | cons c rest =>
    rw [skipped] at same
    have nonzero : c ≠ 0 := by
      rintro rfl
      have inside := skip_suffix s
      rw [skipped] at inside
      exact clean (inside.mem (.head _))
    have visible : c ∉ whitespace := of_decide_eq_false (dropWhile_stop skipped)
    obtain ⟨tok, scanned⟩ := scan_token nonzero visible rest
    rw [← same, scanned.tokens, startsWith, scanned.lead]
    by_cases symbol : c ∈ symbols
    · rw [if_pos symbol]
      exact congrArg (·, c :: rest) (decide_eq_decide.mpr (and_iff_right nonzero))
    · have absent : c ∉ toks := fun listed => symbol (symbolic listed)
      simp [symbol, absent]

theorem skip_skip (s : List (BitVec 8)) : skip (skip s) = skip s := by
  cases skipped : skip s with
  | nil => rfl
  | cons c rest =>
    have visible : c ∉ whitespace := of_decide_eq_false (dropWhile_stop skipped)
    simp [skip, visible]

theorem gettoken_skip (s : List (BitVec 8)) : gettoken (skip s) = gettoken s := by
  rw [gettoken, skip_skip]
  rfl

/-- The symbols that `peek` asks for one at a time. -/
def plainTokens : List Token := [.bar, .ampersand, .semicolon, .opening, .closing]

/-- Only the token itself begins with such a symbol. -/
theorem lead_plain (plain : tok ∈ plainTokens) (other : Token) : other.lead = some tok.kind ↔ other = tok := by
  cases other with
  | word text =>
    have ne : Token.word text ≠ tok := by
      rintro rfl
      simp [plainTokens] at plain
    simp [Token.lead, ne]
  | _ =>
    revert tok
    decide

/-- A single symbol is found exactly when it is the first token. -/
theorem peek_plain (clean : 0 ∉ s) (plain : tok ∈ plainTokens) :
    peek s [tok.kind] = (decide ((tokens s).head? = some tok), skip s) := by
  have symbolic : ∀ tok ∈ plainTokens, [tok.kind] ⊆ symbols := by decide
  rw [peek_eq clean (symbolic tok plain)]
  refine congrArg (·, skip s) ?_
  cases tokens s with
  | nil => rfl
  | cons first rest =>
    have lead : startsWith [tok.kind] (first :: rest) = decide (first.lead = some tok.kind) := by
      rw [startsWith]
      cases first.lead <;> simp
    rw [lead]
    simp only [lead_plain plain, head?_cons, Option.some.injEq]

/-- The cursor moves over the first token. -/
theorem gettoken_head (clean : 0 ∉ s) (first : tokens s = tok :: rest)
    : Lexed s (gettoken s) tok ∧ tokens (gettoken s).rest = rest := by
  rcases gettoken_lexed clean with ⟨none, _⟩ | ⟨found, lexed⟩
  · rw [none] at first
    cases first
  · obtain ⟨rfl, same⟩ := cons.inj (lexed.tokens.symm.trans first)
    exact ⟨lexed, same⟩

theorem gettoken_first (clean : 0 ∉ s) (first : tokens s = tok :: rest) :
    Lexed s (gettoken (skip s)) tok ∧ tokens (gettoken (skip s)).rest = rest := by
  rw [gettoken_skip]
  exact gettoken_head clean first

end Xv6.Shell
