import Xv6.Construction.Pipe
import Xv6.Construction.Proc
import Xv6.Library.Wp

namespace Xv6
open Library

def NOFILE : Nat := 16
def NFILE : Nat := 100

def O_RDONLY : BitVec 32 := 0x000
def O_WRONLY : BitVec 32 := 0x001
def O_RDWR : BitVec 32 := 0x002
def O_CREATE : BitVec 32 := 0x200

inductive FileType where
  | none
  | pipe
  | inode
  deriving DecidableEq

/-- The fields of `struct file`. A pipe is named by its page and an inode by its place in the inode cache. -/
structure FileSlot where
  type : FileType
  ref : Int
  readable : Bool
  writable : Bool
  pipe : Nat
  ip : Nat
  off : BitVec 32

def FileSlot.zero : FileSlot := ⟨.none, 0, false, false, 0, 0, 0⟩

/-- A blocked event is not possible in the current state. -/
inductive FileHalt where
  | filedup
  | fileclose
  | initExiting
  | blocked
  deriving DecidableEq

/-- The page allocator has a free list and the pages that other parts of the kernel use. A page that holds a pipe is
seen as its `struct pipe`. The lists `allocated` and `freed` record the pages that pipes were given and gave back. -/
structure FileKernel where
  file : Fin NFILE → FileSlot
  ofile : Fin NPROC → Fin NOFILE → Option (Fin NFILE)
  table : Ptable
  initproc : Fin NPROC
  freelist : List Nat
  others : List Nat
  pipe : Nat → Pipe
  allocated : List Nat
  freed : List Nat

abbrev FileM := Prog FileKernel FileHalt

namespace FileKernel

def setFile (kernel : FileKernel) (f : Fin NFILE) (file : FileSlot) : FileKernel :=
  {kernel with file := Function.update kernel.file f file}

def setSlot (kernel : FileKernel) (p : Fin NPROC) (fd : Fin NOFILE) (slot : Option (Fin NFILE)) : FileKernel :=
  {kernel with ofile := Function.update kernel.ofile p (Function.update (kernel.ofile p) fd slot)}

def setPipe (kernel : FileKernel) (page : Nat) (pipe : Pipe) : FileKernel :=
  {kernel with pipe := Function.update kernel.pipe page pipe}

end FileKernel

namespace FileM

def filealloc : FileM (Option (Fin NFILE)) := do
  let kernel ← get
  match (List.finRange NFILE).find? fun f => (kernel.file f).ref = 0 with
  | some f => do
      modify fun kernel => kernel.setFile f {kernel.file f with ref := 1}
      pure (some f)
  | none => pure none

def filedup (f : Fin NFILE) : FileM Unit := do
  let kernel ← get
  if (kernel.file f).ref < 1 then throw .filedup
  else modify fun kernel => kernel.setFile f {kernel.file f with ref := (kernel.file f).ref + 1}

def kalloc : FileM (Option Nat) := do
  let kernel ← get
  match kernel.freelist with
  | [] => pure none
  | page :: rest => do
      set {kernel with freelist := rest}
      pure (some page)

def kfree (page : Nat) : FileM Unit := modify fun kernel => {kernel with freelist := page :: kernel.freelist}

/-- A page that no end refers to is freed. -/
def pipeclose (page : Nat) (writable : Bool) : FileM Unit := do
  modify fun kernel => kernel.setPipe page
    (if writable then {kernel.pipe page with writeopen := false} else {kernel.pipe page with readopen := false})
  let kernel ← get
  if (kernel.pipe page).readopen = false ∧ (kernel.pipe page).writeopen = false then do
    kfree page
    modify fun kernel => {kernel with freed := page :: kernel.freed}
  else pure ()

/-- The last reference closes the pipe end or puts the inode. The inode cache is not part of this state. -/
def fileclose (f : Fin NFILE) : FileM Unit := do
  let kernel ← get
  let ff := kernel.file f
  if ff.ref < 1 then throw .fileclose
  else if ff.ref - 1 > 0 then modify fun kernel => kernel.setFile f {ff with ref := ff.ref - 1}
  else do
    modify fun kernel => kernel.setFile f {ff with ref := 0, type := .none}
    match ff.type with
    | .pipe => pipeclose ff.pipe ff.writable
    | .inode => pure ()
    | .none => pure ()

/-- The assignments of `pipealloc` to the pipe and to its two files. -/
def connect (f0 f1 : Fin NFILE) (page : Nat) : FileM Unit := do
  modify fun kernel => {kernel with allocated := page :: kernel.allocated}
  modify fun kernel => kernel.setPipe page
    {kernel.pipe page with readopen := true, writeopen := true, nwrite := 0, nread := 0}
  modify fun kernel => kernel.setFile f0
    {kernel.file f0 with type := .pipe, readable := true, writable := false, pipe := page}
  modify fun kernel => kernel.setFile f1
    {kernel.file f1 with type := .pipe, readable := false, writable := true, pipe := page}

def pipealloc : FileM (Option (Fin NFILE × Fin NFILE)) := do
  match ← filealloc with
  | none => pure none
  | some f0 => do
      match ← filealloc with
      | none => do
          fileclose f0
          pure none
      | some f1 => do
          match ← kalloc with
          | none => do
              fileclose f0
              fileclose f1
              pure none
          | some page => do
              connect f0 f1 page
              pure (some (f0, f1))

def fdalloc (p : Fin NPROC) (f : Fin NFILE) : FileM (Option (Fin NOFILE)) := do
  let kernel ← get
  match (List.finRange NOFILE).find? fun fd => kernel.ofile p fd = none with
  | some fd => do
      modify fun kernel => kernel.setSlot p fd (some f)
      pure (some fd)
  | none => pure none

/-- The descriptor of an open file of the process. -/
def argfd (p : Fin NPROC) (fd : Int) : FileM (Option (Fin NOFILE × Fin NFILE)) := do
  let kernel ← get
  if inside : 0 ≤ fd ∧ fd < NOFILE then
    let index : Fin NOFILE := ⟨fd.toNat, by omega⟩
    pure ((kernel.ofile p index).map fun f => (index, f))
  else pure none

def sysDup (p : Fin NPROC) (fd : Int) : FileM Int := do
  match ← argfd p fd with
  | none => pure (-1)
  | some (_, f) => do
      match ← fdalloc p f with
      | none => pure (-1)
      | some fd => do
          filedup f
          pure fd

def sysClose (p : Fin NPROC) (fd : Int) : FileM Int := do
  match ← argfd p fd with
  | none => pure (-1)
  | some (fd, f) => do
      modify fun kernel => kernel.setSlot p fd none
      fileclose f
      pure 0

/-- The inode is the result of the search or creation of the path. -/
def sysOpen (p : Fin NPROC) (inode : Option Nat) (omode : BitVec 32) : FileM Int := do
  match inode with
  | none => pure (-1)
  | some ip => do
      match ← filealloc with
      | none => pure (-1)
      | some f => do
          match ← fdalloc p f with
          | none => do
              fileclose f
              pure (-1)
          | some fd => do
              modify fun kernel => kernel.setFile f {kernel.file f with
                type := .inode
                ip := ip
                off := 0
                readable := omode &&& O_WRONLY = 0
                writable := omode &&& O_WRONLY ≠ 0 ∨ omode &&& O_RDWR ≠ 0}
              pure fd

/-- The argument says whether the address for the two descriptors is valid. -/
def sysPipe (p : Fin NPROC) (valid : Bool) : FileM Int := do
  if valid then do
    match ← pipealloc with
    | none => pure (-1)
    | some (rf, wf) => do
        match ← fdalloc p rf with
        | none => do
            fileclose rf
            fileclose wf
            pure (-1)
        | some fd0 => do
            match ← fdalloc p wf with
            | none => do
                modify fun kernel => kernel.setSlot p fd0 none
                fileclose rf
                fileclose wf
                pure (-1)
            | some _ => pure 0
  else pure (-1)

/-- One iteration of the loop of `fork` over the descriptors. -/
def dupSlot (p np : Fin NPROC) (fd : Fin NOFILE) : FileM Unit := do
  let kernel ← get
  match kernel.ofile p fd with
  | none => pure ()
  | some f => do
      filedup f
      modify fun kernel => kernel.setSlot np fd (some f)

/-- The argument says whether there is memory for the kernel stack and the copy of the parent. -/
def fork (p : Fin NPROC) (memory : Bool) : FileM (BitVec 32) := do
  let kernel ← get
  match kernel.table.allocproc with
  | none => pure (-1)
  | some (np, table) => do
      set {kernel with table}
      if memory then do
        modify fun kernel => {kernel with table := kernel.table.set np {kernel.table.proc np with parent := some p}}
        (List.finRange NOFILE).forM (dupSlot p np)
        modify fun kernel => {kernel with table := kernel.table.setState np .runnable}
        pure (table.proc np).pid
      else do
        modify fun kernel => {kernel with table := kernel.table.setState np .unused}
        pure (-1)

/-- One iteration of the loop of `exit` over the descriptors. -/
def closeSlot (p : Fin NPROC) (fd : Fin NOFILE) : FileM Unit := do
  let kernel ← get
  match kernel.ofile p fd with
  | none => pure ()
  | some f => do
      fileclose f
      modify fun kernel => kernel.setSlot p fd none

def exit (p : Fin NPROC) : FileM Unit := do
  let kernel ← get
  if p = kernel.initproc then throw .initExiting
  else do
    (List.finRange NOFILE).forM (closeSlot p)
    modify fun kernel => {kernel with table := kernel.table.exit kernel.initproc p}

/-- The call blocks while no child has exited. -/
def wait (p : Fin NPROC) : FileM (BitVec 32) := do
  let kernel ← get
  match kernel.table.scan p with
  | .reaps child => do
      set {kernel with table := kernel.table.reap child}
      pure (kernel.table.proc child).pid
  | .fails => pure (-1)
  | .sleeps => throw .blocked

end FileM

/-- Each call is one event. Other parts of the kernel allocate and free their own pages. -/
inductive FileEvent where
  | sysOpen (p : Fin NPROC) (inode : Option Nat) (omode : BitVec 32)
  | dup (p : Fin NPROC) (fd : Int)
  | close (p : Fin NPROC) (fd : Int)
  | pipe (p : Fin NPROC) (valid : Bool)
  | fork (p : Fin NPROC) (memory : Bool)
  | exit (p : Fin NPROC)
  | wait (p : Fin NPROC)
  | kalloc
  | kfree (page : Nat)

namespace FileKernel

/-- A process that has started and has not exited can make calls. -/
def CanCall (kernel : FileKernel) (p : Fin NPROC) : Prop :=
  (kernel.table.proc p).state = .sleeping ∨ (kernel.table.proc p).state = .runnable ∨
    (kernel.table.proc p).state = .running

instance (kernel : FileKernel) (p : Fin NPROC) : Decidable (kernel.CanCall p) := inferInstanceAs (Decidable (_ ∨ _ ∨ _))

/-- Another part of the kernel takes a page. -/
def takePage (kernel : FileKernel) : Except FileHalt FileKernel :=
  match kernel.freelist with
  | [] => .error .blocked
  | page :: rest => .ok {kernel with freelist := rest, others := page :: kernel.others}

/-- Another part of the kernel frees one of its pages. -/
def givePage (kernel : FileKernel) (page : Nat) : Except FileHalt FileKernel :=
  if page ∈ kernel.others then
    .ok {kernel with freelist := page :: kernel.freelist, others := kernel.others.erase page}
  else .error .blocked

/-- A process makes a call and uses its result. -/
def perform {A : Type} (kernel : FileKernel) (p : Fin NPROC) (program : FileM A) : Except FileHalt FileKernel :=
  if kernel.CanCall p then (program kernel).map Prod.snd else .error .blocked

def step (kernel : FileKernel) : FileEvent → Except FileHalt FileKernel
  | .sysOpen p inode omode => kernel.perform p (FileM.sysOpen p inode omode)
  | .dup p fd => kernel.perform p (FileM.sysDup p fd)
  | .close p fd => kernel.perform p (FileM.sysClose p fd)
  | .pipe p valid => kernel.perform p (FileM.sysPipe p valid)
  | .fork p memory => kernel.perform p (FileM.fork p memory)
  | .exit p => kernel.perform p (FileM.exit p)
  | .wait p => kernel.perform p (FileM.wait p)
  | .kalloc => kernel.takePage
  | .kfree page => kernel.givePage page

/-- After `userinit` the first process runs, no file is open and the allocator has some pages. -/
def boot (freelist : List Nat) (page : Nat → Pipe) : FileKernel where
  file := fun _ => .zero
  ofile := fun _ _ => none
  table := ProcSystem.initial.table
  initproc := ProcSystem.firstSlot
  freelist := freelist
  others := []
  pipe := page
  allocated := []
  freed := []

end FileKernel
end Xv6
