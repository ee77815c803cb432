import Xv6.Proof.Shell.Parsed

namespace Xv6

/-- All argument lists of a command have a property. -/
def Cmd.Argvs {S : Type} (p : List S → Prop) : Cmd S → Prop
  | .exec argv => p argv
  | .redir cmd _ _ _ => cmd.Argvs p
  | .pipe left right => left.Argvs p ∧ right.Argvs p
  | .list left right => left.Argvs p ∧ right.Argvs p
  | .back cmd => cmd.Argvs p

/-- The array `argv` of an `execcmd` after `memset` and the assignments of the parser. -/
def argvArray {S : Type} (argv : List S) : List (Option S) :=
  argv.map some ++ List.replicate (MAXARGS - argv.length) none

namespace Cmd
variable {S T : Type} {cmd : Cmd S}

theorem Argvs.imp {p q : List S → Prop} (all : cmd.Argvs p) (weaker : ∀ {argv}, p argv → q argv) : cmd.Argvs q := by
  induction cmd with
  | exec argv => exact weaker all
  | redir inner file mode fd ih | back inner ih => exact ih all
  | pipe left right ihl ihr | list left right ihl ihr => exact ⟨ihl all.1, ihr all.2⟩

theorem Argvs.of_map {f : S → T} {bound : Nat} (few : (cmd.map f).Argvs (·.length < bound)) : cmd.Argvs (·.length < bound) := by
  induction cmd with
  | exec argv =>
    rw [map, Argvs, List.length_map] at few
    exact few
  | redir inner file mode fd ih | back inner ih => exact ih few
  | pipe left right ihl ihr | list left right ihl ihr => exact ⟨ihl few.1, ihr few.2⟩

end Cmd

namespace Shell
open Library
variable {tree : Tree}

theorem argvs_wrap {p : List (List (BitVec 8)) → Prop} (redirections : List Redirection) (inner : tree.Argvs p) :
    (redirections.foldl Redirection.wrap tree).Argvs p := by
  induction redirections generalizing tree with
  | nil => exact inner
  | cons redirection rest ih => exact ih inner

theorem argvs_back {p : List (List (BitVec 8)) → Prop} (count : Nat) (inner : tree.Argvs p) :
    (Cmd.back^[count] tree).Argvs p := by
  induction count generalizing tree with
  | zero => exact inner
  | succ count ih => exact ih inner

/-- A derivation has fewer than `MAXARGS` words in each command. -/
theorem Line.few {used : List Token} (derivation : Line used tree) : tree.Argvs (·.length < MAXARGS) :=
  @Line.rec (fun _ tree _ => tree.Argvs (·.length < MAXARGS)) (fun _ tree _ => tree.Argvs (·.length < MAXARGS))
    (fun _ tree _ => tree.Argvs (·.length < MAXARGS)) (fun _ count pipe => argvs_back count pipe)
    (fun _ count _ pipe line => ⟨argvs_back count pipe, line⟩) (fun _ command => command)
    (fun _ _ command pipe => ⟨command, pipe⟩) (fun {_ _ _ redirections} _ _ line => argvs_wrap redirections line)
    (fun _ _ few => argvs_wrap _ (Nat.lt_succ_of_le few)) used tree derivation

/-- A list with fewer than `MAXARGS` words is followed by a null pointer in its array. -/
theorem argvArray_null {S : Type} {argv : List S} (few : argv.length < MAXARGS) :
    (argvArray argv)[argv.length]? = some none := by
  have last : MAXARGS - argv.length = MAXARGS - argv.length - 1 + 1 := by omega
  rw [argvArray, List.getElem?_append_right (by rw [List.length_map]), List.length_map, Nat.sub_self, last,
    List.replicate_succ, List.getElem?_cons_zero]

/-- Every string of an accepted line is a word of the line, it is read back whole from the line with the zero bytes,
and the words of a command are followed by a null pointer. -/
theorem nulterminate_keeps_words {fuel : Nat} {bytes buffer : List (BitVec 8)} {cmd : Cmd Slice}
    (ran : parsecmd fuel bytes = .ok (cmd, buffer)) :
    Line (tokens (cstring bytes)) (cmd.map text) ∧
      cmd.All (fun slice => Whole (cstring bytes) slice ∧ readString buffer slice = text slice) ∧
      cmd.Argvs fun argv => (argvArray argv)[argv.length]? = some none := by
  obtain ⟨⟨other, s⟩, parsed, _⟩ := bind_eq_ok.mp ran
  have accepted := ran
  rw [parsecmd_eq parsed] at accepted
  split at accepted
  · cases accepted
    have derivation := parsecmd_sound ran
    rw [parsedTree_eq parsed] at derivation
    exact ⟨derivation, strings_read parsed, derivation.few.of_map.imp argvArray_null⟩
  · cases accepted

/-- The words of the line `a>b` end where the sign begins and where the line ends. -/
theorem nulterminate_keeps_words_redirection : ∃ cmd buffer,
    parsecmd 9 [charByte 'a', charByte '>', charByte 'b'] = .ok (cmd, buffer) ∧
    cmd.All fun slice => readString buffer slice = text slice := by
  cases ran : parsecmd 9 [charByte 'a', charByte '>', charByte 'b'] with
  | error halt =>
    have accepted : (parsecmd 9 [charByte 'a', charByte '>', charByte 'b']).isOk = true := by decide +kernel
    rw [ran] at accepted
    cases accepted
  | ok result => exact ⟨result.1, result.2, rfl, (nulterminate_keeps_words ran).2.1.imp And.right⟩

end Shell
end Xv6
