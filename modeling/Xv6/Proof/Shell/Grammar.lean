import Xv6.Library.Fuel
import Xv6.Proof.Shell.Tokens

namespace Xv6
open List

/-- The strings of a command are replaced. -/
def Cmd.map {S T : Type} (f : S → T) : Cmd S → Cmd T
  | .exec argv => .exec (argv.map f)
  | .redir cmd file mode fd => .redir (cmd.map f) (f file) mode fd
  | .pipe left right => .pipe (left.map f) (right.map f)
  | .list left right => .list (left.map f) (right.map f)
  | .back cmd => .back (cmd.map f)

/-- All strings of a command have a property. -/
def Cmd.All {S : Type} (p : S → Prop) : Cmd S → Prop
  | .exec argv => ∀ arg ∈ argv, p arg
  | .redir cmd file _ _ => cmd.All p ∧ p file
  | .pipe left right => left.All p ∧ right.All p
  | .list left right => left.All p ∧ right.All p
  | .back cmd => cmd.All p

namespace Cmd
variable {S T : Type} {cmd : Cmd S} {p q : S → Prop}

theorem All.imp (all : cmd.All p) (weaker : ∀ {word}, p word → q word) : cmd.All q := by
  induction cmd with
  | exec argv => exact fun arg member => weaker (all arg member)
  | redir inner file mode fd ih => exact ⟨ih all.1, weaker all.2⟩
  | pipe left right ihl ihr | list left right ihl ihr => exact ⟨ihl all.1, ihr all.2⟩
  | back inner ih => exact ih all

theorem All.and (first : cmd.All p) (second : cmd.All q) : cmd.All fun word => p word ∧ q word := by
  induction cmd with
  | exec argv => exact fun arg member => ⟨first arg member, second arg member⟩
  | redir inner file mode fd ih => exact ⟨ih first.1 second.1, first.2, second.2⟩
  | pipe left right ihl ihr | list left right ihl ihr => exact ⟨ihl first.1 second.1, ihr first.2 second.2⟩
  | back inner ih => exact ih first second

theorem map_congr {f g : S → T} (same : cmd.All fun word => f word = g word) : cmd.map f = cmd.map g := by
  induction cmd with
  | exec argv => rw [map, map, map_congr_left same]
  | redir inner file mode fd ih => rw [map, map, ih same.1, same.2]
  | pipe left right ihl ihr | list left right ihl ihr => rw [map, map, ihl same.1, ihr same.2]
  | back inner ih => rw [map, map, ih same]

end Cmd

namespace Shell
open Library

/-- The tree of a command has the words of the line. -/
abbrev Tree := Cmd (List (BitVec 8))

structure Redirection where
  file : List (BitVec 8)
  mode : BitVec 32
  fd : BitVec 32

/-- A later redirection is outside of an earlier one. -/
def Redirection.wrap (tree : Tree) (redirection : Redirection) : Tree :=
  .redir tree redirection.file redirection.mode redirection.fd

/-- The mode and the descriptor of the three redirection signs. -/
def Token.redirection : Token → Option (BitVec 32 × BitVec 32)
  | .less => some (O_RDONLY, 0)
  | .greater => some (O_WRONLY ||| O_CREATE, 1)
  | .append => some (O_WRONLY ||| O_CREATE, 1)
  | _ => none

/-- The rule `redir*` with `redir ::= ('<' | '>' | '>>') word`. -/
inductive Redirs : List Token → List Redirection → Prop
  | nil : Redirs [] []
  | cons {tok : Token} {file : List (BitVec 8)} {mode fd : BitVec 32} {used : List Token}
      {redirections : List Redirection} (sign : tok.redirection = some (mode, fd)) (rest : Redirs used redirections) :
      Redirs (tok :: .word file :: used) (⟨file, mode, fd⟩ :: redirections)

/-- The rule `(word redir*)*`. -/
inductive Args : List Token → List (List (BitVec 8)) → List Redirection → Prop
  | nil : Args [] [] []
  | cons {word : List (BitVec 8)} {used more : List Token} {words : List (List (BitVec 8))}
      {redirections others : List Redirection} (redirs : Redirs used redirections) (rest : Args more words others) :
      Args (.word word :: (used ++ more)) (word :: words) (redirections ++ others)

mutual

/-- The rule `line ::= pipe '&'* [';' line]`. -/
inductive Line : List Token → Tree → Prop
  | single {used : List Token} {tree : Tree} (pipe : Pipeline used tree) (count : Nat) :
      Line (used ++ List.replicate count .ampersand) (Cmd.back^[count] tree)
  | list {used more : List Token} {tree right : Tree} (pipe : Pipeline used tree) (count : Nat)
      (rest : Line more right) :
      Line (used ++ (List.replicate count .ampersand ++ .semicolon :: more)) (.list (Cmd.back^[count] tree) right)

/-- The rule `pipe ::= exec ['|' pipe]`. -/
inductive Pipeline : List Token → Tree → Prop
  | single {used : List Token} {tree : Tree} (command : Command used tree) : Pipeline used tree
  | pipe {used more : List Token} {left right : Tree} (command : Command used left) (rest : Pipeline more right) :
      Pipeline (used ++ .bar :: more) (.pipe left right)

/-- The rule `exec ::= '(' line ')' redir* | redir* (word redir*)*` with at most `MAXARGS - 1` words. -/
inductive Command : List Token → Tree → Prop
  | block {used more : List Token} {tree : Tree} {redirections : List Redirection} (line : Line used tree)
      (redirs : Redirs more redirections) :
      Command (.opening :: (used ++ .closing :: more)) (redirections.foldl Redirection.wrap tree)
  | exec {used more : List Token} {words : List (List (BitVec 8))} {redirections others : List Redirection}
      (redirs : Redirs used redirections) (args : Args more words others) (few : words.length ≤ MAXARGS - 1) :
      Command (used ++ more) ((redirections ++ others).foldl Redirection.wrap (.exec words))

end

/-- A parse of a part of the line uses up the tokens of a derivation. -/
structure Sound (line s : List (BitVec 8)) (derivation : List Token → Tree → Prop)
    (result : Cmd Slice × List (BitVec 8)) : Prop where
  rest : result.2 <:+ s
  slices : result.1.All (Whole line)
  derived : ∃ used, tokens s = used ++ tokens result.2 ∧ derivation used (result.1.map text)

section Sound
variable {line s : List (BitVec 8)} {cmd : Cmd Slice} {result : Cmd Slice × List (BitVec 8)} {tok : Token} {arg : Slice}
  {words : List (List (BitVec 8))} {redirections : List Redirection} {fuel : Nat}

theorem clean_suffix (clean : 0 ∉ line) (inside : s <:+ line) : 0 ∉ s := fun zero => clean (inside.mem zero)

theorem Whole.widen {slice : Slice} (whole : Whole s slice) (inside : s <:+ line) : Whole line slice :=
  {whole with inside := whole.inside.trans inside}

/-- A returned letter `a` means a word. -/
theorem word_of_kind (kind : tok.kind = charByte 'a') : ∃ word, tok = .word word := by
  cases tok with
  | word word => exact ⟨word, rfl⟩
  | _ => exact absurd kind (by decide)

theorem kind_ne_zero (tok : Token) : tok.kind ≠ 0 := by
  cases tok with
  | word text => exact (by decide : charByte 'a' ≠ 0)
  | _ => decide

/-- The words are added below the redirections. -/
theorem addArg_map (shape : cmd.map text = redirections.foldl Redirection.wrap (.exec words)) :
    (addArg arg cmd).map text = redirections.foldl Redirection.wrap (.exec (words ++ [text arg])) := by
  induction redirections using reverseRecOn generalizing cmd with
  | nil =>
    cases cmd with
    | exec argv =>
      simp only [Cmd.map, foldl_nil, Cmd.exec.injEq] at shape
      simp [addArg, Cmd.map, shape]
    | _ => cases shape
  | append_singleton earlier last ih =>
    rw [foldl_append] at shape ⊢
    cases cmd with
    | redir inner file mode fd =>
      simp only [Cmd.map, foldl_cons, foldl_nil, Redirection.wrap, Cmd.redir.injEq] at shape ⊢
      obtain ⟨below, string, rfl, rfl⟩ := shape
      rw [addArg, Cmd.map, ih below, string]
    | _ => cases shape

theorem addArg_all {p : Slice → Prop} (all : cmd.All p) (new : p arg) : (addArg arg cmd).All p := by
  induction cmd with
  | exec argv =>
    intro other member
    rcases mem_append.mp member with old | last
    · exact all other old
    · rw [mem_singleton.mp last]
      exact new
  | redir inner file mode fd ih => exact ⟨ih all.1, all.2⟩
  | pipe | list | back => exact all

/-- The signs that begin a redirection. -/
theorem startsWith_sign (tok : Token) (rest : List Token) :
    startsWith [charByte '<', charByte '>'] (tok :: rest) = tok.redirection.isSome := by
  cases tok <;> rfl

/-- The sign of a redirection decides the mode and the descriptor. -/
theorem redirect_sign {mode fd : BitVec 32} (sign : tok.redirection = some (mode, fd)) (cmd : Cmd Slice) (file : Slice) :
    redirect tok.kind cmd file = .redir cmd file mode fd := by
  cases tok with
  | less | greater | append =>
    cases sign
    rfl
  | _ => cases sign

theorem Sound.skip {derivation : List Token → Tree → Prop} (all : cmd.All (Whole line))
    (derived : derivation [] (cmd.map text)) : Sound line s derivation (cmd, Shell.skip s) where
  rest := skip_suffix s
  slices := all
  derived := ⟨[], (tokens_skip s).symm, derived⟩

theorem Sound.length {derivation : List Token → Tree → Prop} (sound : Sound line s derivation result) :
    (tokens result.2).length ≤ (tokens s).length := by
  obtain ⟨used, split, _⟩ := sound.derived
  rw [split, length_append]
  exact Nat.le_add_left _ _

theorem Lexed.length {result : Gettoken} {tok : Token} (lexed : Lexed s result tok) :
    (Shell.tokens s).length = (Shell.tokens result.rest).length + 1 := by
  rw [lexed.tokens, length_cons]

theorem parseredirs_sound (clean : 0 ∉ line) (inside : s <:+ line) (all : cmd.All (Whole line)) :
    Yields (parseredirs fuel cmd s) .outOfFuel (Sound line s fun used tree => ∃ redirections, Redirs used redirections ∧
      tree = redirections.foldl Redirection.wrap (cmd.map text)) ((tokens s).length < fuel) := by
  induction fuel generalizing cmd s with
  | zero => exact .error fun _ => Nat.not_lt_zero _
  | succ fuel ih =>
    have clear := clean_suffix clean inside
    rw [parseredirs, peek_eq clear (by decide)]
    dsimp only
    by_cases found : startsWith [charByte '<', charByte '>'] (tokens s) = true
    · rw [if_pos found]
      cases first : tokens s with
      | nil =>
        rw [first] at found
        cases found
      | cons tok rest =>
        rw [first, startsWith_sign] at found
        obtain ⟨⟨mode, fd⟩, sign⟩ := Option.isSome_iff_exists.mp found
        obtain ⟨lexed, left⟩ := gettoken_first clear first
        have further := lexed.rest.trans inside
        have clearer := clean_suffix clean further
        split
        · exact .error (by simp)
        · rename_i letter
          rw [not_not] at letter
          rcases gettoken_lexed clearer with ⟨_, zero, _⟩ | ⟨file, named⟩
          · rw [zero] at letter
            exact absurd letter (by decide)
          · obtain ⟨word, rfl⟩ := word_of_kind (named.ret.symm.trans letter)
            obtain ⟨whole, string⟩ := named.word word rfl
            rw [lexed.ret, redirect_sign sign]
            have wider : (Cmd.redir cmd (gettoken (gettoken (skip s)).rest).slice mode fd).All (Whole line) :=
              ⟨all, whole.widen further⟩
            apply (ih (named.rest.trans further) wider).mono
            · rw [← first, lexed.length, named.length]
              omega
            · rintro result ⟨ending, slices, used, split, redirections, derived, shape⟩
              refine ⟨ending.trans (named.rest.trans lexed.rest), slices, tok :: .word word :: used, ?_,
                ⟨word, mode, fd⟩ :: redirections, .cons sign derived, ?_⟩
              · rw [lexed.tokens, named.tokens, split]
                rfl
              · rw [shape, Cmd.map, string]
                rfl
    · rw [if_neg found]
      exact .ok (.skip all ⟨[], .nil, rfl⟩)

/-- The symbols that end the words of a command. -/
def Token.ends : Token → Bool
  | .bar => true
  | .closing => true
  | .ampersand => true
  | .semicolon => true
  | _ => false

theorem startsWith_ends (tok : Token) (rest : List Token) :
    startsWith [charByte '|', charByte ')', charByte '&', charByte ';'] (tok :: rest) = tok.ends := by
  cases tok <;> rfl

theorem argLoop_sound {argc : Nat} (clean : 0 ∉ line) (inside : s <:+ line) (all : cmd.All (Whole line))
    (shape : cmd.map text = redirections.foldl Redirection.wrap (.exec words)) (few : argc < MAXARGS) :
    Yields (argLoop fuel cmd argc s) .outOfFuel (Sound line s fun used tree => ∃ more others, Args used more others ∧
      argc + more.length < MAXARGS ∧
      tree = (redirections ++ others).foldl Redirection.wrap (.exec (words ++ more))) ((tokens s).length < fuel) := by
  induction fuel generalizing cmd argc s words redirections with
  | zero => exact .error fun _ => Nat.not_lt_zero _
  | succ fuel ih =>
    have clear := clean_suffix clean inside
    have stopped : ∃ more others, Args [] more others ∧ argc + more.length < MAXARGS ∧
        cmd.map text = (redirections ++ others).foldl Redirection.wrap (.exec (words ++ more)) :=
      ⟨[], [], .nil, few, by rw [append_nil, append_nil, shape]⟩
    rw [argLoop, peek_eq clear (by decide)]
    dsimp only
    split
    · exact .ok (.skip all stopped)
    · rw [gettoken_skip]
      rcases gettoken_lexed clear with ⟨none, zero, ended⟩ | ⟨tok, lexed⟩
      · rw [if_pos zero, ended]
        exact .ok ⟨nil_suffix, all, [], none, stopped⟩
      · rw [if_neg (by rw [lexed.ret]; exact kind_ne_zero tok)]
        split
        · exact .error (by simp)
        · rename_i letter
          rw [not_not] at letter
          split
          · exact .error (by simp)
          · rename_i room
            obtain ⟨word, rfl⟩ := word_of_kind (lexed.ret.symm.trans letter)
            obtain ⟨whole, string⟩ := lexed.word word rfl
            have further := lexed.rest.trans inside
            have less := lexed.length
            apply (parseredirs_sound clean further (addArg_all all (whole.widen inside))).bind (by omega)
            intro middle parsed
            obtain ⟨used, split, added, redirs, below⟩ := parsed.derived
            have fewer := parsed.length
            rw [addArg_map shape, ← foldl_append, string] at below
            apply (ih (parsed.rest.trans further) parsed.slices below (by omega)).mono (by omega)
            intro result done
            obtain ⟨later, final, more, others, args, fits, tree⟩ := done.derived
            refine ⟨(done.rest.trans parsed.rest).trans lexed.rest, done.slices, .word word :: (used ++ later), ?_,
              word :: more, added ++ others, .cons redirs args, ?_, ?_⟩
            · rw [lexed.tokens, split, final, cons_append, append_assoc]
            · rw [length_cons]
              omega
            · rw [tree, append_assoc, append_assoc]
              rfl

/-- A plain symbol at the head of the line is found and used up, or the cursor stays before the next token. -/
theorem peek_cases (clear : 0 ∉ s) (plain : tok ∈ plainTokens) :
    peek s [tok.kind] = (true, skip s) ∧ Lexed s (gettoken (skip s)) tok ∨ peek s [tok.kind] = (false, skip s) := by
  rw [peek_plain clear plain]
  by_cases found : (tokens s).head? = some tok
  · obtain ⟨rest, first⟩ := head?_eq_some_iff.mp found
    rw [decide_eq_true found]
    exact .inl ⟨rfl, (gettoken_first clear first).1⟩
  · rw [decide_eq_false found]
    exact .inr rfl

theorem backLoop_sound (clean : 0 ∉ line) (inside : s <:+ line) (all : cmd.All (Whole line)) :
    Yields (backLoop fuel cmd s) .outOfFuel (Sound line s fun used tree => ∃ count, used = replicate count .ampersand ∧
      tree = Cmd.back^[count] (cmd.map text)) ((tokens s).length < fuel) := by
  induction fuel generalizing cmd s with
  | zero => exact .error fun _ => Nat.not_lt_zero _
  | succ fuel ih =>
    rw [backLoop]
    rcases peek_cases (clean_suffix clean inside) (show Token.ampersand ∈ plainTokens by decide)
      with ⟨peeked, lexed⟩ | peeked
    · erw [peeked]
      have wider : (Cmd.back cmd).All (Whole line) := all
      apply (ih (lexed.rest.trans inside) wider).mono
      · rw [lexed.length]
        omega
      · rintro result ⟨ending, slices, used, split, count, rfl, tree⟩
        refine ⟨ending.trans lexed.rest, slices, .ampersand :: replicate count .ampersand, ?_, count + 1, ?_, ?_⟩
        · rw [lexed.tokens, split]
          rfl
        · rw [replicate_succ]
        · rw [tree]
          rfl
    · erw [peeked]
      exact .ok (.skip all ⟨0, rfl, rfl⟩)

/-- The specifications of the parsing functions, which need four units of fuel for each token. -/
structure ParsersSound (line : List (BitVec 8)) (fuel : Nat) : Prop where
  lines : ∀ {s}, s <:+ line →
    Yields (parseline fuel s) .outOfFuel (Sound line s Line) (4 * (tokens s).length + 4 ≤ fuel)
  pipe : ∀ {s}, s <:+ line →
    Yields (parsepipe fuel s) .outOfFuel (Sound line s Pipeline) (4 * (tokens s).length + 3 ≤ fuel)
  exec : ∀ {s}, s <:+ line →
    Yields (parseexec fuel s) .outOfFuel (Sound line s Command) (4 * (tokens s).length + 2 ≤ fuel)
  block : ∀ {s}, s <:+ line →
    Yields (parseblock fuel s) .outOfFuel (Sound line s Command) (4 * (tokens s).length + 1 ≤ fuel)

variable (clean : 0 ∉ line)
include clean

section
variable (smaller : ParsersSound line fuel)
include smaller

theorem parseline_sound (inside : s <:+ line) :
    Yields (parseline (fuel + 1) s) .outOfFuel (Sound line s Line) (4 * (tokens s).length + 4 ≤ fuel + 1) := by
  rw [parseline]
  apply (smaller.pipe inside).bind (by omega)
  intro first piped
  have nearer := piped.rest.trans inside
  have less := piped.length
  apply (backLoop_sound clean nearer piped.slices).bind (by omega)
  intro second backed
  have nearest := backed.rest.trans nearer
  have fewer := backed.length
  obtain ⟨used, split, derived⟩ := piped.derived
  obtain ⟨_, again, count, rfl, shape⟩ := backed.derived
  dsimp only
  rcases peek_cases (clean_suffix clean nearest) (show Token.semicolon ∈ plainTokens by decide)
    with ⟨peeked, lexed⟩ | peeked
  · erw [peeked]
    have fewest := lexed.length
    apply (smaller.lines (lexed.rest.trans nearest)).bind (by omega)
    intro result final
    obtain ⟨more, remaining, other⟩ := final.derived
    refine .ok ⟨final.rest.trans (lexed.rest.trans (backed.rest.trans piped.rest)), ⟨backed.slices, final.slices⟩,
      used ++ (replicate count .ampersand ++ .semicolon :: more), ?_, ?_⟩
    · rw [split, again, lexed.tokens, remaining]
      simp
    · rw [Cmd.map, shape]
      exact .list derived count other
  · erw [peeked]
    refine .ok ⟨(skip_suffix second.2).trans (backed.rest.trans piped.rest), backed.slices,
      used ++ replicate count .ampersand, ?_, ?_⟩
    · rw [split, again, tokens_skip, append_assoc]
    · rw [shape]
      exact .single derived count

theorem parsepipe_sound (inside : s <:+ line) :
    Yields (parsepipe (fuel + 1) s) .outOfFuel (Sound line s Pipeline) (4 * (tokens s).length + 3 ≤ fuel + 1) := by
  rw [parsepipe]
  apply (smaller.exec inside).bind (by omega)
  intro first parsed
  have nearer := parsed.rest.trans inside
  have less := parsed.length
  obtain ⟨used, split, derived⟩ := parsed.derived
  dsimp only
  rcases peek_cases (clean_suffix clean nearer) (show Token.bar ∈ plainTokens by decide) with ⟨peeked, lexed⟩ | peeked
  · erw [peeked]
    have fewer := lexed.length
    apply (smaller.pipe (lexed.rest.trans nearer)).bind (by omega)
    intro result final
    obtain ⟨more, remaining, other⟩ := final.derived
    refine .ok ⟨final.rest.trans (lexed.rest.trans parsed.rest), ⟨parsed.slices, final.slices⟩, used ++ .bar :: more, ?_,
      .pipe derived other⟩
    rw [split, lexed.tokens, remaining]
    simp
  · erw [peeked]
    exact .ok ⟨(skip_suffix first.2).trans parsed.rest, parsed.slices, used, by rw [split, tokens_skip], .single derived⟩

theorem parseexec_sound (inside : s <:+ line) :
    Yields (parseexec (fuel + 1) s) .outOfFuel (Sound line s Command) (4 * (tokens s).length + 2 ≤ fuel + 1) := by
  have skipped := (skip_suffix s).trans inside
  have same := tokens_skip s
  rw [parseexec]
  rcases peek_cases (clean_suffix clean inside) (show Token.opening ∈ plainTokens by decide) with ⟨peeked, _⟩ | peeked
  · erw [peeked]
    apply (smaller.block skipped).mono
    · rw [same]
      omega
    · rintro result ⟨ending, slices, derived⟩
      exact ⟨ending.trans (skip_suffix s), slices, by rw [← same]; exact derived⟩
  · erw [peeked]
    have none : (Cmd.exec ([] : List Slice)).All (Whole line) := fun arg member => absurd member not_mem_nil
    apply (parseredirs_sound clean skipped none).bind (by rw [same]; omega)
    intro first parsed
    have less := parsed.length
    obtain ⟨used, split, redirections, redirs, shape⟩ := parsed.derived
    rw [same] at less split
    have bare : first.1.map text = redirections.foldl Redirection.wrap (.exec []) := shape
    apply (argLoop_sound clean (parsed.rest.trans skipped) parsed.slices bare (by decide)).mono (by omega)
    intro result words
    obtain ⟨more, final, args, others, derived, few, tree⟩ := words.derived
    refine ⟨(words.rest.trans parsed.rest).trans (skip_suffix s), words.slices, used ++ more, ?_, ?_⟩
    · rw [split, final, append_assoc]
    · rw [tree, nil_append]
      exact .exec redirs derived (by omega)

theorem parseblock_sound (inside : s <:+ line) :
    Yields (parseblock (fuel + 1) s) .outOfFuel (Sound line s Command) (4 * (tokens s).length + 1 ≤ fuel + 1) := by
  rw [parseblock]
  rcases peek_cases (clean_suffix clean inside) (show Token.opening ∈ plainTokens by decide)
    with ⟨peeked, opened⟩ | peeked
  · erw [peeked]
    have nearer := opened.rest.trans inside
    have fewer := opened.length
    apply (smaller.lines nearer).bind (by omega)
    intro first parsed
    have nearest := parsed.rest.trans nearer
    have less := parsed.length
    obtain ⟨used, split, derived⟩ := parsed.derived
    dsimp only
    rcases peek_cases (clean_suffix clean nearest) (show Token.closing ∈ plainTokens by decide)
      with ⟨found, closed⟩ | missing
    · erw [found]
      have fewest := closed.length
      apply (parseredirs_sound clean (closed.rest.trans nearest) parsed.slices).mono (by omega)
      intro result outer
      obtain ⟨more, remaining, redirections, redirs, tree⟩ := outer.derived
      refine ⟨outer.rest.trans (closed.rest.trans (parsed.rest.trans opened.rest)), outer.slices,
        .opening :: (used ++ .closing :: more), ?_, ?_⟩
      · rw [opened.tokens, split, closed.tokens, remaining]
        simp
      · rw [tree]
        exact .block derived redirs
    · erw [missing]
      exact .error (by simp)
  · erw [peeked]
    exact .error (by simp)

end

/-- All parsing functions meet their specifications with any fuel. -/
theorem parsers_sound (fuel : Nat) : ParsersSound line fuel := by
  induction fuel with
  | zero => exact ⟨fun _ => .error (by omega), fun _ => .error (by omega), fun _ => .error (by omega),
      fun _ => .error (by omega)⟩
  | succ fuel ih => exact ⟨parseline_sound clean ih, parsepipe_sound clean ih, parseexec_sound clean ih,
      parseblock_sound clean ih⟩

end Sound
end Shell
end Xv6
