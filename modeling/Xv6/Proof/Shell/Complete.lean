import Xv6.Proof.Shell.Grammar

namespace Xv6.Shell
open Library List Token Redirection
open Settles (succ)
variable {words : List (List (BitVec 8))} {count : Nat} {rest used : List Token} {redirections : List Redirection}

/-- With enough fuel a parse returns the tree and leaves the given tokens. -/
def Completes (run : Nat → Except ShellHalt (Cmd Slice × List (BitVec 8))) (tree : Tree) (rest : List Token) : Prop :=
  ∃ cmd s, Settles run (cmd, s) ∧ cmd.map text = tree ∧ tokens s = rest ∧ 0 ∉ s

/-- The tokens begin with one of the given ones, or there are none. -/
def Follows (allowed : List Token) (rest : List Token) : Prop := ∀ tok, rest.head? = some tok → tok ∈ allowed

section Loops
variable {s : List (BitVec 8)} {cmd : Cmd Slice} {used rest : List Token} {redirections : List Redirection}

theorem clean_skip (clean : 0 ∉ s) : 0 ∉ skip s := clean_suffix clean (skip_suffix s)

theorem Redirs.complete (redirs : Redirs used redirections) (cmd : Cmd Slice) (clean : 0 ∉ s)
    (split : tokens s = used ++ rest) (ended : startsWith [charByte '<', charByte '>'] rest = false) :
    Completes (fun fuel => parseredirs fuel cmd s) (redirections.foldl wrap (cmd.map text)) rest := by
  induction redirs generalizing s cmd with
  | nil =>
    rw [nil_append] at split
    refine ⟨cmd, skip s, succ ?_, rfl, by rw [tokens_skip, split], clean_skip clean⟩
    simp only [parseredirs]
    rw [peek_eq clean (by decide), split]
    simp only [ended]
    exact .const _
  | @cons tok file mode fd more others sign redirs ih =>
    rw [cons_append, cons_append] at split
    obtain ⟨lexed, left⟩ := gettoken_first clean split
    have clear := clean_suffix clean lexed.rest
    obtain ⟨named, remaining⟩ := gettoken_head clear left
    obtain ⟨_, string⟩ := named.word file rfl
    obtain ⟨result, ending, settles, shape, final, clearer⟩ :=
      ih (.redir cmd (gettoken (gettoken (skip s)).rest).slice mode fd) (clean_suffix clear named.rest) remaining
    refine ⟨result, ending, succ ?_, ?_, final, clearer⟩
    · simp only [parseredirs]
      rw [peek_eq clean (by decide), split, startsWith_sign, sign]
      have letter : (gettoken (gettoken (skip s)).rest).ret = charByte 'a' := named.ret
      simp only [Option.isSome_some, if_true, letter, ne_eq, not_true_eq_false, if_false, lexed.ret, redirect_sign sign]
      exact settles
    · rw [shape, Cmd.map, string]
      rfl

theorem ends_command : ∀ tok ∈ [bar, .closing, .ampersand, .semicolon],
    tok.ends = true ∧ tok.redirection.isSome = false := by decide

theorem Args.startsWith (args : Args used words redirections)
    (follows : Follows [.bar, .closing, .ampersand, .semicolon] rest) :
    Shell.startsWith [charByte '<', charByte '>'] (used ++ rest) = false := by
  cases args with
  | nil =>
    cases rest with
    | nil => rfl
    | cons tok more =>
      rw [nil_append, startsWith_sign]
      exact (ends_command tok (follows tok rfl)).2
  | cons redirs rest => rfl

theorem Args.complete {argc : Nat} {before : List (List (BitVec 8))} {others : List Redirection}
    (args : Args used words others) (clean : 0 ∉ s) (split : tokens s = used ++ rest)
    (follows : Follows [.bar, .closing, .ampersand, .semicolon] rest)
    (shape : cmd.map text = redirections.foldl wrap (.exec before)) (few : argc + words.length < MAXARGS) :
    Completes (fun fuel => argLoop fuel cmd argc s)
      ((redirections ++ others).foldl wrap (.exec (before ++ words))) rest := by
  induction args generalizing s cmd argc before redirections with
  | nil =>
    rw [nil_append] at split
    cases rest with
    | nil =>
      have ended : (gettoken s).ret = 0 ∧ (gettoken s).rest = [] := by
        rcases gettoken_lexed clean with ⟨_, zero, none⟩ | ⟨tok, lexed⟩
        · exact ⟨zero, none⟩
        · rw [lexed.tokens] at split
          cases split
      refine ⟨cmd, [], succ ?_, by rw [shape, append_nil, append_nil], rfl, not_mem_nil⟩
      simp only [argLoop]
      rw [peek_eq clean (by decide), split]
      simp only [Shell.startsWith, gettoken_skip, ended]
      exact .const _
    | cons tok more =>
      have stops := (ends_command tok (follows tok rfl)).1
      refine ⟨cmd, skip s, succ ?_, by rw [shape, append_nil, append_nil], ?_, clean_skip clean⟩
      · simp only [argLoop]
        rw [peek_eq clean (by decide), split, startsWith_ends]
        simp only [stops]
        exact .const _
      · rw [tokens_skip, split]
  | @cons word early late words added others redirs args ih =>
    rw [cons_append, append_assoc] at split
    obtain ⟨lexed, left⟩ := gettoken_head clean split
    obtain ⟨_, string⟩ := lexed.word word rfl
    rw [length_cons] at few
    have room : ¬argc + 1 ≥ MAXARGS := by omega
    obtain ⟨middle, next, settled, wrapped, remaining, clear⟩ :=
      redirs.complete (addArg (gettoken s).slice cmd) (clean_suffix clean lexed.rest) left (args.startsWith follows)
    rw [addArg_map shape, ← foldl_append, string] at wrapped
    have less : argc + 1 + words.length < MAXARGS := by omega
    obtain ⟨result, ending, settles, tree, final, clearer⟩ := ih clear remaining wrapped less
    refine ⟨result, ending, succ ?_, ?_, final, clearer⟩
    · simp only [argLoop]
      rw [peek_eq clean (by decide), split, startsWith_ends]
      have nonzero : charByte 'a' ≠ 0 := by decide
      simp only [ends, gettoken_skip, Bool.false_eq_true, if_false, lexed.ret, kind, if_neg nonzero, ne_eq,
        not_true_eq_false, if_neg room]
      exact settled.bind settles
    · rw [tree, append_assoc, append_assoc]
      rfl

theorem backLoop_complete (cmd : Cmd Slice) (clean : 0 ∉ s) (split : tokens s = replicate count .ampersand ++ rest)
    (other : rest.head? ≠ some .ampersand) :
    Completes (fun fuel => backLoop fuel cmd s) (Cmd.back^[count] (cmd.map text)) rest := by
  have peeked : peek s [charByte '&'] = _ := peek_plain clean (show ampersand ∈ plainTokens by decide)
  induction count generalizing s cmd with
  | zero =>
    refine ⟨cmd, skip s, succ ?_, rfl, by rw [tokens_skip, split]; rfl, clean_skip clean⟩
    simp only [backLoop]
    rw [peeked, split]
    simp only [replicate_zero, nil_append, other, decide_false]
    exact .const _
  | succ count ih =>
    rw [replicate_succ, cons_append] at split
    obtain ⟨lexed, left⟩ := gettoken_first clean split
    have clear := clean_suffix clean lexed.rest
    obtain ⟨result, ending, settles, tree, final, clearer⟩ := ih (.back cmd) clear left
      (peek_plain clear (show ampersand ∈ plainTokens by decide))
    refine ⟨result, ending, succ ?_, tree, final, clearer⟩
    simp only [backLoop]
    rw [peeked, split]
    simp only [head?_cons, decide_true]
    exact settles

end Loops

theorem follows_ampersands (follows : Follows [.closing, .ampersand, .semicolon] rest) :
    Follows [.closing, .ampersand, .semicolon] (replicate count .ampersand ++ rest) := by
  cases count with
  | zero => exact follows
  | succ count =>
    rintro tok ⟨⟩
    decide

/-- Neither words nor redirections begin with a parenthesis. -/
theorem Redirs.head_ne (redirs : Redirs used redirections) (other : rest.head? ≠ some .opening)
    : (used ++ rest).head? ≠ some .opening := by
  cases redirs with
  | nil => exact other
  | cons sign more =>
    rintro ⟨⟩
    cases sign

theorem Args.head_ne (args : Args used words redirections) (other : rest.head? ≠ some .opening) :
    (used ++ rest).head? ≠ some .opening := by
  cases args with
  | nil => exact other
  | cons redirs more =>
    rintro ⟨⟩

/-- After a complete part, a single symbol is found exactly when it is the next token. -/
theorem peek_rest {s : List (BitVec 8)} {tok : Token} (clean : 0 ∉ s) (remaining : tokens s = rest)
    (plain : tok ∈ plainTokens) : peek s [tok.kind] = (decide (rest.head? = some tok), skip s) := by
  rw [peek_plain clean plain, remaining]

/-- The parsing functions find every derivation of the given rule. -/
def LineFound (used : List Token) (tree : Tree) : Prop :=
  ∀ {s rest}, 0 ∉ s → tokens s = used ++ rest → Follows [.closing] rest →
    Completes (fun fuel => parseline fuel s) tree rest

def PipelineFound (used : List Token) (tree : Tree) : Prop :=
  ∀ {s rest}, 0 ∉ s → tokens s = used ++ rest → Follows [.closing, .ampersand, .semicolon] rest →
    Completes (fun fuel => parsepipe fuel s) tree rest

def CommandFound (used : List Token) (tree : Tree) : Prop :=
  ∀ {s rest}, 0 ∉ s → tokens s = used ++ rest → Follows [.bar, .closing, .ampersand, .semicolon] rest →
    Completes (fun fuel => parseexec fuel s) tree rest

section Rules
variable {first more : List Token} {inner left right : Tree} {redirections others : List Redirection}

theorem line_single (pipe : PipelineFound first inner) (count : Nat) :
    LineFound (first ++ replicate count .ampersand) (Cmd.back^[count] inner) := by
  intro s rest clean split follows
  rw [append_assoc] at split
  have other : rest.head? ≠ some .ampersand := fun head => absurd (follows _ head) (by decide)
  have none : rest.head? ≠ some .semicolon := fun head => absurd (follows _ head) (by decide)
  have wider : Follows [.closing, .ampersand, .semicolon] (replicate count .ampersand ++ rest) :=
    follows_ampersands fun tok head => mem_cons.mpr (.inl (mem_singleton.mp (follows tok head)))
  obtain ⟨cmd, next, settled, shape, remaining, clear⟩ := pipe clean split wider
  obtain ⟨result, ending, settles, tree, final, clearer⟩ := backLoop_complete cmd clear remaining other
  have peeked : peek ending [charByte ';'] = _ :=
    peek_rest clearer final (show semicolon ∈ plainTokens by decide)
  refine ⟨result, skip ending, succ ?_, by rw [tree, shape], by rw [tokens_skip, final], clean_skip clearer⟩
  simp only [parseline]
  refine settled.bind (settles.bind ?_)
  rw [peeked]
  simp only [none, decide_false]
  exact .const _

theorem line_list (pipe : PipelineFound first inner) (count : Nat) (line : LineFound more right) :
    LineFound (first ++ (replicate count .ampersand ++ .semicolon :: more))
      (.list (Cmd.back^[count] inner) right) := by
  intro s rest clean split follows
  rw [append_assoc, append_assoc, cons_append] at split
  have wider : Follows [.closing, .ampersand, .semicolon]
      (replicate count .ampersand ++ .semicolon :: (more ++ rest)) := by
    refine follows_ampersands ?_
    rintro tok ⟨⟩
    decide
  obtain ⟨cmd, next, settled, shape, remaining, clear⟩ := pipe clean split wider
  obtain ⟨result, ending, settles, tree, final, clearer⟩ := backLoop_complete cmd clear remaining (by simp)
  have peeked : peek ending [charByte ';'] = _ :=
    peek_rest clearer final (show semicolon ∈ plainTokens by decide)
  obtain ⟨lexed, left⟩ := gettoken_first clearer final
  obtain ⟨other, last, ended, same, spent, clearest⟩ :=
    line (clean_suffix clearer lexed.rest) left follows
  refine ⟨.list result other, last, succ ?_, by rw [Cmd.map, tree, shape, same], spent, clearest⟩
  simp only [parseline]
  refine settled.bind (settles.bind ?_)
  rw [peeked]
  simp only [head?_cons, decide_true]
  exact ended.bind (.const _)

theorem pipeline_single (command : CommandFound first inner) : PipelineFound first inner := by
  intro s rest clean split follows
  have wider : Follows [.bar, .closing, .ampersand, .semicolon] rest := fun tok head =>
    mem_cons_of_mem _ (follows tok head)
  have other : rest.head? ≠ some .bar := fun head => absurd (follows _ head) (by decide)
  obtain ⟨cmd, next, settled, shape, remaining, clear⟩ := command clean split wider
  have peeked : peek next [charByte '|'] = _ := peek_rest clear remaining (show bar ∈ plainTokens by decide)
  refine ⟨cmd, skip next, succ ?_, shape, by rw [tokens_skip, remaining], clean_skip clear⟩
  simp only [parsepipe]
  refine settled.bind ?_
  rw [peeked]
  simp only [other, decide_false]
  exact .const _

theorem pipeline_pipe (command : CommandFound first left) (pipe : PipelineFound more right) :
    PipelineFound (first ++ .bar :: more) (.pipe left right) := by
  intro s rest clean split follows
  rw [append_assoc, cons_append] at split
  have bar : Follows [.bar, .closing, .ampersand, .semicolon] (.bar :: (more ++ rest)) := by
    rintro tok ⟨⟩
    decide
  obtain ⟨cmd, next, settled, shape, remaining, clear⟩ := command clean split bar
  have peeked : peek next [charByte '|'] = _ := peek_rest clear remaining (show Token.bar ∈ plainTokens by decide)
  obtain ⟨lexed, left⟩ := gettoken_first clear remaining
  obtain ⟨other, ending, settles, tree, final, clearer⟩ :=
    pipe (clean_suffix clear lexed.rest) left follows
  refine ⟨.pipe cmd other, ending, succ ?_, by rw [Cmd.map, shape, tree], final, clearer⟩
  simp only [parsepipe]
  refine settled.bind ?_
  rw [peeked]
  simp only [head?_cons, decide_true]
  exact settles.bind (.const _)

theorem command_block (line : LineFound first inner) (redirs : Redirs more redirections) :
    CommandFound (.opening :: (first ++ .closing :: more)) (redirections.foldl wrap inner) := by
  intro s rest clean split follows
  have peeked : peek s [charByte '('] = _ := peek_plain clean (show opening ∈ plainTokens by decide)
  rw [cons_append, append_assoc, cons_append] at split
  have closing : Follows [.closing] (.closing :: (more ++ rest)) := by
    rintro tok ⟨⟩
    decide
  have ended : Shell.startsWith [charByte '<', charByte '>'] rest = false := Args.nil.startsWith follows
  have again : peek (skip s) [charByte '('] = _ :=
    peek_rest (clean_skip clean) ((tokens_skip s).trans split) (show opening ∈ plainTokens by decide)
  obtain ⟨lexed, left⟩ := gettoken_first (clean_skip clean) ((tokens_skip s).trans split)
  obtain ⟨cmd, next, settled, shape, remaining, clear⟩ :=
    line (clean_suffix (clean_skip clean) lexed.rest) left closing
  have closes : peek next [charByte ')'] = _ :=
    peek_rest clear remaining (show Token.closing ∈ plainTokens by decide)
  obtain ⟨closed, outer⟩ := gettoken_first clear remaining
  obtain ⟨result, ending, settles, tree, final, clearer⟩ :=
    redirs.complete cmd (clean_suffix clear closed.rest) outer ended
  refine ⟨result, ending, succ ?_, by rw [tree, shape], final, clearer⟩
  simp only [parseexec]
  rw [peeked, split]
  simp only [head?_cons, decide_true]
  refine succ ?_
  simp only [parseblock]
  rw [again]
  simp only [head?_cons, decide_true]
  refine settled.bind ?_
  rw [closes]
  simp only [head?_cons, decide_true]
  exact settles

theorem command_exec (redirs : Redirs first redirections) (args : Args more words others)
    (few : words.length ≤ MAXARGS - 1) :
    CommandFound (first ++ more) ((redirections ++ others).foldl wrap (.exec words)) := by
  intro s rest clean split follows
  have peeked : peek s [charByte '('] = _ := peek_plain clean (show opening ∈ plainTokens by decide)
  rw [append_assoc] at split
  have less : 0 + words.length < MAXARGS := by
    have value : MAXARGS = 10 := rfl
    omega
  have plain : (tokens s).head? ≠ some .opening := by
    rw [split]
    exact redirs.head_ne (args.head_ne fun head => absurd (follows _ head) (by decide))
  obtain ⟨cmd, next, settled, shape, remaining, clear⟩ := redirs.complete (.exec []) (clean_skip clean)
    ((tokens_skip s).trans split) (args.startsWith follows)
  obtain ⟨result, ending, settles, tree, final, clearer⟩ := args.complete clear remaining follows shape less
  refine ⟨result, ending, succ ?_, tree, final, clearer⟩
  simp only [parseexec]
  rw [peeked]
  simp only [plain, decide_false]
  exact settled.bind settles

/-- Every derivation of a line is found. -/
theorem Line.found (derivation : Line first inner) : LineFound first inner :=
  @Line.rec (fun used tree _ => LineFound used tree) (fun used tree _ => PipelineFound used tree)
    (fun used tree _ => CommandFound used tree) (fun _ count pipe => line_single pipe count)
    (fun _ count _ pipe line => line_list pipe count line) (fun _ command => pipeline_single command)
    (fun _ _ command pipe => pipeline_pipe command pipe) (fun _ redirs line => command_block line redirs)
    command_exec first inner derivation

end Rules
end Xv6.Shell
