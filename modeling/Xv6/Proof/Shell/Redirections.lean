import Xv6.Proof.Shell.Parsed
import Xv6.Proof.Shell.Pipelines

namespace Xv6.Shell
open List

/-- The command and the process after the given number of calls of `runcmd` for the case `REDIR`. -/
def enters {S : Type} : Nat → Cmd S → ShellProc S → Option (Cmd S × ShellProc S)
  | 0, cmd, proc => some (cmd, proc)
  | count + 1, .redir cmd file mode fd, proc => (proc.redirect file mode fd).bind (enters count cmd)
  | _ + 1, _, _ => none

/-- The tokens are a simple command or a block, with its redirections from left to right. -/
inductive Written : List Token → List Redirection → Tree → Prop
  | simple {used more : List Token} {words : List (List (BitVec 8))} {redirections others : List Redirection}
      (redirs : Redirs used redirections) (args : Args more words others) (few : words.length ≤ MAXARGS - 1) :
      Written (used ++ more) (redirections ++ others) (.exec words)
  | block {used more : List Token} {tree : Tree} {redirections : List Redirection} (line : Line used tree)
      (redirs : Redirs more redirections) : Written (.opening :: (used ++ .closing :: more)) redirections tree

/-- A call of `open` has the name of the file and the mode. -/
abbrev Opening := List (BitVec 8) × BitVec 32

/-- The calls of `open` for the redirections. -/
def opens (redirections : List Redirection) : List Opening := redirections.map fun entry => (entry.file, entry.mode)

/-- The last of the files that are opened for reading is the input. -/
def lastInput (input : Target (List (BitVec 8))) (openings : List Opening) : Target (List (BitVec 8)) :=
  openings.foldl (fun last entry => if entry.2 = O_RDONLY then .file entry.1 entry.2 else last) input

/-- The last of the files that are opened for writing is the output. -/
def lastOutput (output : Target (List (BitVec 8))) (openings : List Opening) : Target (List (BitVec 8)) :=
  openings.foldl (fun last entry => if entry.2 = O_RDONLY then last else .file entry.1 entry.2) output

/-- The files are opened from left to right, so that the command runs with the last input and the last output. -/
def InOrder (redirections : List Redirection) (command tree : Tree) (input output error : Target (List (BitVec 8)))
    (opened : List Opening) : Prop :=
  enters redirections.length tree ⟨standard input output error, opened⟩ =
    some (command, ⟨standard (lastInput input (opens redirections)) (lastOutput output (opens redirections)) error,
      opened ++ opens redirections⟩)

section Order
variable {redirections others : List Redirection} {used : List Token} {tree command : Tree}
  {input output error : Target (List (BitVec 8))} {opened : List Opening}

/-- The mode and the descriptor of a redirection belong together. -/
def Redirection.Sign (redirection : Redirection) : Prop :=
  ∃ tok : Token, tok.redirection = some (redirection.mode, redirection.fd)

theorem Redirs.signs (redirs : Redirs used redirections) : ∀ entry ∈ redirections, entry.Sign := by
  induction redirs with
  | nil => exact fun entry member => absurd member not_mem_nil
  | cons sign rest ih =>
    intro entry member
    rcases mem_cons.mp member with rfl | later
    · exact ⟨_, sign⟩
    · exact ih entry later

theorem Args.signs {words : List (List (BitVec 8))} (args : Args used words redirections) :
    ∀ entry ∈ redirections, entry.Sign := by
  induction args with
  | nil => exact fun entry member => absurd member not_mem_nil
  | cons redirs rest ih =>
    intro entry member
    rcases mem_append.mp member with early | late
    · exact redirs.signs entry early
    · exact ih entry late

theorem Written.signs (written : Written used redirections command) : ∀ entry ∈ redirections, entry.Sign := by
  cases written with
  | simple redirs args few =>
    intro entry member
    rcases mem_append.mp member with early | late
    · exact redirs.signs entry early
    · exact args.signs entry late
  | block line redirs => exact redirs.signs

theorem Written.line (written : Written used redirections command) :
    Line used (redirections.foldl Redirection.wrap command) := by
  have single : ∀ {tokens tree}, Command tokens tree → Line tokens tree := by
    intro tokens tree derived
    have line := Line.single (.single derived) 0
    rw [replicate_zero, append_nil] at line
    exact line
  cases written with
  | simple redirs args few => exact single (.exec redirs args few)
  | block line redirs => exact single (.block line redirs)

/-- One redirection replaces the input or the output. -/
theorem redirect_standard {entry : Redirection} (sign : entry.Sign) :
    (ShellProc.mk (standard input output error) opened).redirect entry.file entry.mode entry.fd =
      some ⟨standard (lastInput input (opens [entry])) (lastOutput output (opens [entry])) error,
        opened ++ opens [entry]⟩ := by
  obtain ⟨tok, sign⟩ := sign
  obtain ⟨file, mode, fd⟩ := entry
  cases tok with
  | less | greater | append =>
    cases sign
    rfl
  | _ => cases sign

/-- The outer redirections come later in the text and are executed first. -/
theorem enters_wrap (signs : ∀ entry ∈ redirections, entry.Sign) (command : Tree)
    (input output error : Target (List (BitVec 8))) (opened : List Opening) :
    enters redirections.length (redirections.foldl Redirection.wrap command) ⟨standard input output error, opened⟩ =
      some (command, ⟨standard (lastInput input (opens redirections).reverse)
        (lastOutput output (opens redirections).reverse) error, opened ++ (opens redirections).reverse⟩) := by
  induction redirections using reverseRecOn generalizing input output opened with
  | nil => simp [enters, opens, lastInput, lastOutput]
  | append_singleton earlier last ih =>
    have first : (ShellProc.mk (standard input output error) opened).redirect last.file last.mode last.fd = _ :=
      redirect_standard (signs last (by simp))
    rw [length_append, length_singleton, foldl_append, foldl_cons, foldl_nil, Redirection.wrap,
      enters, first, Option.bind_some, ih fun entry member => signs entry (mem_append_left _ member)]
    simp [opens, lastInput, lastOutput]

/-- The calls for the case `REDIR` come before the command. -/
theorem runcmd_enters {S : Type} {count : Nat} {cmd inner : Cmd S} {proc after : ShellProc S}
    (entered : enters count cmd proc = some (inner, after)) (branch : List Bool) :
    runcmd branch cmd proc = runcmd branch inner after := by
  induction count generalizing cmd proc with
  | zero =>
    cases entered
    rfl
  | succ count ih =>
    cases cmd with
    | redir cmd file mode fd =>
      obtain ⟨next, opened, rest⟩ := Option.bind_eq_some_iff.mp entered
      rw [runcmd, opened]
      exact ih rest
    | _ => cases entered

/-- The redirections of a command that `parsecmd` accepts take effect from left to right exactly when the list of the
files and modes is the same in both directions. -/
theorem redirections_in_order_iff {bytes : List (BitVec 8)} (written : Written (tokens (cstring bytes)) redirections command)
    (input output error : Target (List (BitVec 8))) (opened : List Opening) :
    ∃ tree, (∃ enough, ∀ fuel ≥ enough, (parsecmd fuel bytes).map parsedTree = .ok tree) ∧
      (∃ proc, enters redirections.length tree ⟨standard input output error, opened⟩ = some (command, proc) ∧
        ∀ branch, runcmd branch tree ⟨standard input output error, opened⟩ = runcmd branch command proc) ∧
      (InOrder redirections command tree input output error opened ↔ (opens redirections).reverse = opens redirections) := by
  have entered := enters_wrap written.signs command input output error opened
  refine ⟨_, parsecmd_complete written.line, ⟨_, entered, runcmd_enters entered⟩, ?_⟩
  rw [InOrder, entered]
  constructor
  · intro same
    have opens := congrArg (fun result => result.2.opened) (Option.some.inj same)
    exact append_cancel_left opens
  · intro same
    rw [same]

/-- The input of the line `a<b` is redirected. -/
theorem redirections_in_order_iff_input : ∃ tree,
    (∃ enough, ∀ fuel ≥ enough, (parsecmd fuel [charByte 'a', charByte '<', charByte 'b']).map parsedTree = .ok tree) ∧
    InOrder [⟨[charByte 'b'], O_RDONLY, 0⟩] (.exec [[charByte 'a']]) tree (.inherited 0) (.inherited 1) (.inherited 2)
      [] := by
  have lexed : tokens (cstring [charByte 'a', charByte '<', charByte 'b']) =
      [] ++ (.word [charByte 'a'] :: ([.less, .word [charByte 'b']] ++ [])) := by decide +kernel
  have written : Written ([] ++ (.word [charByte 'a'] :: ([.less, .word [charByte 'b']] ++ [])))
      ([] ++ ([⟨[charByte 'b'], O_RDONLY, 0⟩] ++ [])) (.exec [[charByte 'a']]) :=
    .simple .nil (.cons (.cons rfl .nil) .nil) (by decide)
  rw [← lexed] at written
  obtain ⟨tree, parsed, _, order⟩ := redirections_in_order_iff written (.inherited 0) (.inherited 1) (.inherited 2) []
  exact ⟨tree, parsed, order.mpr rfl⟩

/-- The line `a>b>c` opens the file `c` before the file `b` and writes to the file `b`. -/
theorem first_output_wins : ∃ tree,
    (parsecmd 9 [charByte 'a', charByte '>', charByte 'b', charByte '>', charByte 'c']).map parsedTree = .ok tree ∧
    Written (tokens (cstring [charByte 'a', charByte '>', charByte 'b', charByte '>', charByte 'c']))
      [⟨[charByte 'b'], O_WRONLY ||| O_CREATE, 1⟩, ⟨[charByte 'c'], O_WRONLY ||| O_CREATE, 1⟩] (.exec [[charByte 'a']]) ∧
    enters 2 tree ⟨standard (.inherited 0) (.inherited 1) (.inherited 2), []⟩ = some (.exec [[charByte 'a']],
      ⟨standard (.inherited 0) (.file [charByte 'b'] (O_WRONLY ||| O_CREATE)) (.inherited 2),
        [([charByte 'c'], O_WRONLY ||| O_CREATE), ([charByte 'b'], O_WRONLY ||| O_CREATE)]⟩) ∧
    ¬InOrder [⟨[charByte 'b'], O_WRONLY ||| O_CREATE, 1⟩, ⟨[charByte 'c'], O_WRONLY ||| O_CREATE, 1⟩]
      (.exec [[charByte 'a']]) tree (.inherited 0) (.inherited 1) (.inherited 2) [] := by
  have lexed : tokens (cstring [charByte 'a', charByte '>', charByte 'b', charByte '>', charByte 'c']) =
      [] ++ (.word [charByte 'a'] :: ([.greater, .word [charByte 'b'], .greater, .word [charByte 'c']] ++ [])) := by
    decide +kernel
  refine ⟨.redir (.redir (.exec [[charByte 'a']]) [charByte 'b'] (O_WRONLY ||| O_CREATE) 1) [charByte 'c']
    (O_WRONLY ||| O_CREATE) 1, by decide +kernel, ?_, by decide +kernel, ?_⟩
  · rw [lexed]
    exact .simple .nil (.cons (.cons rfl (.cons rfl .nil)) .nil) (by decide)
  · rw [InOrder]
    decide +kernel

end Order
end Xv6.Shell
