import Xv6.Construction.Shell

namespace Xv6

/-- A descriptor refers to a file that was open before, to a file that the shell opened or to an end of a pipe. A pipe
is named by the branch of the command that creates it. -/
inductive Target (S : Type) where
  | inherited (file : Nat)
  | file (name : S) (mode : BitVec 32)
  | readEnd (pipe : List Bool)
  | writeEnd (pipe : List Bool)
  deriving DecidableEq

/-- A process of the shell has its descriptors. The list `opened` records its calls of `open`. -/
structure ShellProc (S : Type) where
  ofile : List (Option (Target S))
  opened : List (S × BitVec 32)
  deriving DecidableEq

namespace ShellProc
variable {S : Type}

/-- The lowest free slot is taken. -/
def fdalloc (proc : ShellProc S) (target : Target S) : Option (Nat × ShellProc S) :=
  (proc.ofile.findIdx? Option.isNone).map fun fd => (fd, {proc with ofile := proc.ofile.set fd (some target)})

def close (proc : ShellProc S) (fd : Nat) : ShellProc S := {proc with ofile := proc.ofile.set fd none}

def dup (proc : ShellProc S) (fd : Nat) : Option (Nat × ShellProc S) := do
  let target ← proc.ofile[fd]?.join
  proc.fdalloc target

def openFile (proc : ShellProc S) (file : S) (mode : BitVec 32) : Option (Nat × ShellProc S) := do
  let (fd, proc) ← proc.fdalloc (.file file mode)
  some (fd, {proc with opened := proc.opened ++ [(file, mode)]})

def pipe (proc : ShellProc S) (name : List Bool) : Option ((Nat × Nat) × ShellProc S) := do
  let (fd0, proc) ← proc.fdalloc (.readEnd name)
  let (fd1, proc) ← proc.fdalloc (.writeEnd name)
  some ((fd0, fd1), proc)

/-- The child on one side of a pipe puts its end in the place of a standard descriptor. -/
def connect (proc : ShellProc S) (p : Nat × Nat) (fd side : Nat) : Option (ShellProc S) := do
  let (_, proc) ← (proc.close fd).dup side
  some ((proc.close p.1).close p.2)

/-- The case `REDIR` closes the descriptor and opens the file. -/
def redirect (proc : ShellProc S) (file : S) (mode fd : BitVec 32) : Option (ShellProc S) :=
  ((proc.close fd.toNat).openFile file mode).map Prod.snd

end ShellProc

/-- A process reaches the case `EXEC`, or it waits for its children. -/
inductive Reached (S : Type) where
  | exec (argv : List S) (proc : ShellProc S)
  | waits (branch : List Bool) (proc : ShellProc S)

/-- The processes that run a command. The processes share no descriptor table, so their order does not matter. There is
no result if a call fails. -/
def Shell.runcmd {S : Type} : List Bool → Cmd S → ShellProc S → Option (List (Reached S))
  | _, .exec argv, proc => some [.exec argv proc]
  | branch, .redir cmd file mode fd, proc => (proc.redirect file mode fd).bind (runcmd branch cmd)
  | branch, .list left right, proc => do
    let lefts ← runcmd (branch ++ [false]) left proc
    let rights ← runcmd (branch ++ [true]) right proc
    some (lefts ++ .waits branch proc :: rights)
  | branch, .pipe left right, proc => do
    let (p, proc) ← proc.pipe branch
    let lefts ← (proc.connect p 1 p.2).bind (runcmd (branch ++ [false]) left)
    let rights ← (proc.connect p 0 p.1).bind (runcmd (branch ++ [true]) right)
    some (lefts ++ rights ++ [.waits branch ((proc.close p.1).close p.2)])
  | branch, .back cmd, proc => runcmd (branch ++ [false]) cmd proc

end Xv6
