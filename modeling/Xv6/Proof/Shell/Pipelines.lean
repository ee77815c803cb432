import Xv6.Construction.Runcmd

namespace Xv6
open List Target
variable {S : Type}

/-- A command of programs and pipes. -/
def Cmd.Piped : Cmd S → Prop
  | .exec _ => True
  | .pipe left right => left.Piped ∧ right.Piped
  | _ => False

/-- The programs of a command from left to right. -/
def Cmd.leaves : Cmd S → List (List S)
  | .exec argv => [argv]
  | .redir cmd _ _ _ => cmd.leaves
  | .pipe left right => left.leaves ++ right.leaves
  | .list left right => left.leaves ++ right.leaves
  | .back cmd => cmd.leaves

/-- Exactly the descriptors 0, 1 and 2 are open. -/
def standard (input output error : Target S) : List (Option (Target S)) :=
  some input :: some output :: some error :: List.replicate (NOFILE - 3) none

/-- The program and the descriptors of a process that reaches the case `EXEC`. -/
def Reached.leaf : Reached S → Option (List S × List (Option (Target S)))
  | .exec argv proc => some (argv, proc.ofile)
  | .waits _ _ => none

/-- The programs with the standard descriptors of a pipeline. -/
def wired (error : Target S) (programs : List (List S)) (inputs outputs : List (Target S)) :
    List (List S × List (Option (Target S))) :=
  programs.zipWith (fun argv ends => (argv, standard ends.1 ends.2 error)) (inputs.zip outputs)

/-- The target is no end of a pipe of the branch. -/
def Target.Outside (branch : List Bool) (target : Target S) : Prop :=
  ∀ pipe, branch <+: pipe → target ≠ .readEnd pipe ∧ target ≠ .writeEnd pipe

/-- The processes of a pipeline in the given branch. -/
structure Wiring (branch : List Bool) (input output error : Target S) (cmd : Cmd S) (pipes : List (List Bool))
    (result : List (Reached S)) : Prop where
  inner : ∀ pipe ∈ pipes, branch <+: pipe
  nodup : pipes.Nodup
  count : pipes.length + 1 = cmd.leaves.length
  leaves : result.filterMap Reached.leaf =
    wired error cmd.leaves (input :: pipes.map .readEnd) (pipes.map .writeEnd ++ [output])
  waits : ∀ pipe proc, Reached.waits pipe proc ∈ result →
    some (.readEnd pipe) ∉ proc.ofile ∧ some (.writeEnd pipe) ∉ proc.ofile

section Branches
variable {branch pipe : List Bool} {side : Bool} {target : Target S}

theorem branch_ne (inner : branch ++ [side] <+: pipe) : pipe ≠ branch := by
  rintro rfl
  have longer := inner.length_le
  simp at longer

theorem Target.Outside.inner (outside : target.Outside branch) : target.Outside (branch ++ [side]) :=
  fun pipe below => outside pipe ((prefix_append _ _).trans below)

theorem outside_ends : (readEnd branch : Target S).Outside (branch ++ [side]) ∧
    (writeEnd branch : Target S).Outside (branch ++ [side]) := by
  constructor
  · intro pipe below
    exact ⟨fun same => branch_ne below (readEnd.inj same).symm, nofun⟩
  · intro pipe below
    exact ⟨nofun, fun same => branch_ne below (writeEnd.inj same).symm⟩

theorem branches_disjoint (left : branch ++ [false] <+: pipe) : ¬branch ++ [true] <+: pipe := by
  intro right
  have same := prefix_of_prefix_length_le left right (by simp)
  rw [prefix_append_right_inj, cons_prefix_cons] at same
  cases same.1

end Branches

section Wired
variable {branch : List Bool} {input output error : Target S} {cmd left right : Cmd S}
  {pipes others : List (List Bool)} {lefts rights : List (Reached S)} {opened : List (S × BitVec 32)}

/-- The calls of `pipe`, `close` and `dup` leave each process with three descriptors. -/
theorem runcmd_pipe (branch : List Bool) (left right : Cmd S) (opened : List (S × BitVec 32)) :
    Shell.runcmd branch (.pipe left right) ⟨standard input output error, opened⟩ = (do
      let lefts ← Shell.runcmd (branch ++ [false]) left ⟨standard input (.writeEnd branch) error, opened⟩
      let rights ← Shell.runcmd (branch ++ [true]) right ⟨standard (.readEnd branch) output error, opened⟩
      some (lefts ++ rights ++ [.waits branch ⟨standard input output error, opened⟩])) := rfl

theorem mem_standard {target : Target S} : some target ∈ standard input output error ↔
    target = input ∨ target = output ∨ target = error := by
  simp [standard]

theorem Wiring.exec (argv : List S) :
    Wiring branch input output error (.exec argv) [] [.exec argv ⟨standard input output error, opened⟩] where
  inner pipe member := absurd member not_mem_nil
  nodup := nodup_nil
  count := rfl
  leaves := rfl
  waits pipe proc member := by cases mem_singleton.mp member

theorem Wiring.pipe (first : Wiring (branch ++ [false]) input (.writeEnd branch) error left pipes lefts)
    (second : Wiring (branch ++ [true]) (.readEnd branch) output error right others rights)
    (one : input.Outside branch) (two : output.Outside branch) (three : error.Outside branch) :
    Wiring branch input output error (.pipe left right) (pipes ++ branch :: others)
      (lefts ++ rights ++ [.waits branch ⟨standard input output error, opened⟩]) where
  inner pipe member := by
    rcases mem_append.mp member with early | late
    · exact (prefix_append _ _).trans (first.inner pipe early)
    · rcases mem_cons.mp late with rfl | late
      · exact prefix_refl _
      · exact (prefix_append _ _).trans (second.inner pipe late)
  nodup := by
    rw [nodup_append, nodup_cons]
    refine ⟨first.nodup, ⟨fun member => branch_ne (second.inner _ member) rfl, second.nodup⟩, ?_⟩
    intro pipe early other late same
    subst same
    rcases mem_cons.mp late with rfl | late
    · exact branch_ne (first.inner _ early) rfl
    · exact branches_disjoint (first.inner _ early) (second.inner _ late)
  count := by
    have few := first.count
    have many := second.count
    rw [Cmd.leaves, length_append, length_append, length_cons]
    omega
  leaves := by
    have split : input :: (pipes ++ branch :: others).map readEnd =
        (input :: pipes.map .readEnd) ++ (.readEnd branch :: others.map .readEnd) := by simp
    have again : (pipes ++ branch :: others).map writeEnd ++ [output] =
        (pipes.map .writeEnd ++ [.writeEnd branch]) ++ (others.map .writeEnd ++ [output]) := by simp
    have count := first.count
    rw [filterMap_append, filterMap_append, first.leaves, second.leaves, wired, wired, wired, split, again,
      zip_append (by simp), Cmd.leaves, zipWith_append (by simp; omega)]
    exact append_nil _
  waits pipe proc member := by
    rw [append_assoc, mem_append, mem_append, mem_singleton] at member
    rcases member with early | late | last
    · exact first.waits pipe proc early
    · exact second.waits pipe proc late
    · obtain ⟨rfl, rfl⟩ := Reached.waits.inj last
      have here := prefix_refl pipe
      rw [mem_standard, mem_standard]
      constructor
      · rintro (same | same | same)
        · exact (one pipe here).1 same.symm
        · exact (two pipe here).1 same.symm
        · exact (three pipe here).1 same.symm
      · rintro (same | same | same)
        · exact (one pipe here).2 same.symm
        · exact (two pipe here).2 same.symm
        · exact (three pipe here).2 same.symm

theorem runcmd_wiring (piped : cmd.Piped) (one : input.Outside branch) (two : output.Outside branch)
    (three : error.Outside branch) :
    ∃ result pipes, Shell.runcmd branch cmd ⟨standard input output error, opened⟩ = some result ∧
      Wiring branch input output error cmd pipes result := by
  induction cmd generalizing branch input output with
  | exec argv => exact ⟨_, [], rfl, .exec argv⟩
  | pipe left right ihl ihr =>
    obtain ⟨lefts, pipes, early, first⟩ := ihl piped.1 one.inner outside_ends.2 three.inner
    obtain ⟨rights, others, late, second⟩ := ihr piped.2 outside_ends.1 two.inner three.inner
    refine ⟨lefts ++ rights ++ [.waits branch ⟨standard input output error, opened⟩], pipes ++ branch :: others, ?_,
      first.pipe second one two three⟩
    rw [runcmd_pipe, early, late]
    rfl
  | redir | list | back => cases piped

/-- A pipeline of any shape reaches each of its programs with exactly three descriptors. They are the ends of the pipes
to its neighbours, and nobody waits with an end of its own pipe. -/
theorem pipeline_wired (piped : cmd.Piped) (first second third : Nat) (opened : List (S × BitVec 32)) :
    ∃ result, ∃ pipes : List (List Bool), Shell.runcmd [] cmd
        ⟨standard (.inherited first) (.inherited second) (.inherited third), opened⟩ = some result ∧
      pipes.Nodup ∧ pipes.length + 1 = cmd.leaves.length ∧
      result.filterMap Reached.leaf = wired (.inherited third) cmd.leaves
        (.inherited first :: pipes.map .readEnd) (pipes.map .writeEnd ++ [.inherited second]) ∧
      ∀ pipe proc, Reached.waits pipe proc ∈ result →
        some (.readEnd pipe) ∉ proc.ofile ∧ some (.writeEnd pipe) ∉ proc.ofile := by
  have outside : ∀ file, (.inherited file : Target S).Outside [] := fun _ _ _ => ⟨nofun, nofun⟩
  obtain ⟨result, pipes, ran, wiring⟩ := runcmd_wiring piped (outside first) (outside second) (outside third)
  exact ⟨result, pipes, ran, wiring.nodup, wiring.count, wiring.leaves, wiring.waits⟩

/-- The three programs of a pipeline that branches to the left. -/
theorem pipeline_wired_three : ∃ result, ∃ pipes : List (List Bool),
    Shell.runcmd [] (.pipe (.pipe (.exec [1]) (.exec [2])) (.exec [3]))
      ⟨standard (.inherited 0) (.inherited 0) (.inherited 0), []⟩ = some result ∧ pipes.Nodup ∧
    result.filterMap Reached.leaf = wired (.inherited 0) [[1], [2], [3]]
      (.inherited 0 :: pipes.map .readEnd) (pipes.map .writeEnd ++ [.inherited 0]) := by
  have piped : (Cmd.pipe (.pipe (.exec [1]) (.exec [2])) (.exec [3])).Piped := ⟨⟨trivial, trivial⟩, trivial⟩
  obtain ⟨result, pipes, ran, nodup, _, leaves, _⟩ := pipeline_wired piped 0 0 0 []
  exact ⟨result, pipes, ran, nodup, leaves⟩

end Wired
end Xv6
