import Xv6.Library.Fuel
import Xv6.Proof.Fork.Failure

namespace Xv6
open Library Function Machine

section Success
variable {machine m after forked : Machine} {proc np : Fin NPROC} {theirs : List Nat → Option Nat} {kernel k : Kernel}
  {frame : Nat} {page : Page} {pid : BitVec 32}

/-- The steps of `fork` after the copy of the trap frame do not change the memory, the process table and the kernel
stacks. -/
structure SameKernel (machine after : Machine) : Prop where
  kernel : after.kernel = machine.kernel
  table : after.table = machine.table
  kstack : ∀ p, (after.proc p).kstack = (machine.proc p).kstack
  trapret : after.syscallTrapret = machine.syscallTrapret
  forkret : after.forkret = machine.forkret

theorem SameKernel.refl (m : Machine) : SameKernel m m := ⟨rfl, rfl, fun _ => rfl, rfl, rfl⟩

theorem SameKernel.trans {middle : Machine} (early : SameKernel m middle) (late : SameKernel middle after) :
    SameKernel m after where
  kernel := late.kernel.trans early.kernel
  table := late.table.trans early.table
  kstack p := (late.kstack p).trans (early.kstack p)
  trapret := late.trapret.trans early.trapret
  forkret := late.forkret.trans early.forkret

theorem SameKernel.setProc (p : Fin NPROC) {image : ProcImage} (same : image.kstack = (m.proc p).kstack) :
    SameKernel m (m.setProc p image) := by
  refine ⟨rfl, rfl, fun q => ?_, rfl, rfl⟩
  change (update m.proc p image q).kstack = _
  rw [update_apply]
  split
  · rename_i here
    rw [same, here]
  · rfl

theorem dupSlot_same {fd : Fin NOFILE} (ran : dupSlot proc np m fd = .ok after) : SameKernel m after := by
  rw [dupSlot] at ran
  split at ran
  · cases ran
    exact .refl m
  · rw [filedup] at ran
    split at ran
    · cases ran
    · cases ran
      exact ⟨rfl, rfl, fun _ => rfl, rfl, rfl⟩

theorem dupSlots_same {fds : List (Fin NOFILE)} (ran : fds.foldlM (dupSlot proc np) m = .ok after) :
    SameKernel m after := by
  induction fds generalizing m with
  | nil =>
    cases ran
    exact .refl _
  | cons fd fds ih =>
    obtain ⟨middle, first, rest⟩ := bind_eq_ok.mp ran
    exact (dupSlot_same first).trans (ih rest)

theorem idup_same (ran : m.idup proc np = .ok after) : SameKernel m after := by
  rw [idup] at ran
  split at ran
  · cases ran
  · cases ran
    have counted : ∀ inodeRef, SameKernel m {m with inodeRef} := fun _ => ⟨rfl, rfl, fun _ => rfl, rfl, rfl⟩
    exact (counted _).trans (.setProc np rfl)

/-- The child after `fork` has the trap frame of the parent on its kernel stack. -/
structure Started (machine : Machine) (proc np : Fin NPROC) (pid : BitVec 32) (forked : Machine) : Prop where
  kend : forked.kernel.kend = machine.kernel.kend
  kstack : ∀ p, (forked.proc p).kstack = (machine.proc p).kstack
  trapret : forked.syscallTrapret = machine.syscallTrapret
  forkret : forked.forkret = machine.forkret
  memory : forked.kernel.memory = Function.update machine.kernel.memory (machine.proc np).kstack
    (copyTrapframe (machine.kernel.memory (machine.proc proc).kstack)
      (machine.kernel.memory (machine.proc np).kstack))
  pid : pid = (forked.table.proc np).pid

theorem readPage_eq (ran : k.readPage frame = .ok page) : page = k.memory frame := by
  rw [Kernel.readPage] at ran
  split at ran
  · exact (Except.ok.inj ran).symm
  · cases ran

theorem storePage_eq {after : Kernel} (ran : k.storePage frame page = .ok after) : after = k.setPage frame page := by
  rw [Kernel.storePage] at ran
  split at ran
  · exact (Except.ok.inj ran).symm
  · cases ran

theorem startChild_started (ran : m.startChild proc np = .ok (pid, forked)) : Started m proc np pid forked := by
  rw [startChild] at ran
  obtain ⟨parent, loaded, ran⟩ := bind_eq_ok.mp ran
  obtain ⟨k, stored, ran⟩ := bind_eq_ok.mp ran
  obtain ⟨duped, copied, ran⟩ := bind_eq_ok.mp ran
  obtain ⟨placed, counted, ran⟩ := bind_eq_ok.mp ran
  have sized : SameKernel m (m.setProc np {m.proc np with sz := (m.proc proc).sz}) :=
    .setProc np rfl
  have named : ∀ name, SameKernel placed (placed.setProc np {placed.proc np with name}) := fun _ => .setProc np rfl
  have late := (dupSlots_same copied).trans ((idup_same counted).trans (named ((placed.proc proc).name.take 15)))
  have page := readPage_eq (mapError_eq_ok loaded)
  have filled := storePage_eq (mapError_eq_ok stored)
  have same : ∀ p, ((m.setProc np {m.proc np with sz := (m.proc proc).sz}).proc p).kstack =
    (m.proc p).kstack := sized.kstack
  have memory : k.memory = update m.kernel.memory (m.proc np).kstack
      (copyTrapframe (m.kernel.memory (m.proc proc).kstack) (m.kernel.memory (m.proc np).kstack)) := by
    rw [filled, page]
    simp only [withTable, same]
    rfl
  have kend : k.kend = m.kernel.kend := by
    rw [filled]
    rfl
  cases ran
  refine ⟨?_, ?_, late.trapret, late.forkret, ?_, ?_⟩
  · exact (congrArg Kernel.kend late.kernel).trans kend
  · exact fun p => (late.kstack p).trans (same p)
  · exact (congrArg Kernel.memory late.kernel).trans memory
  · simp [setState, withTable, Ptable.setState, Ptable.set]

/-- After a successful `fork` the new kernel stack has a copy of the trap frame, and no other page that was in use
has changed. -/
structure Forked (machine : Machine) (proc np : Fin NPROC) (pid : BitVec 32) (forked : Machine) (stack : Nat) :
    Prop where
  kend : forked.kernel.kend = machine.kernel.kend
  trapret : forked.syscallTrapret = machine.syscallTrapret
  forkret : forked.forkret = machine.forkret
  kstack : (forked.proc np).kstack = stack
  listed : stack ∈ machine.kernel.freelist
  child : forked.kernel.memory stack = copyTrapframe (machine.kernel.memory (machine.proc proc).kstack)
    (initStack machine.syscallTrapret machine.forkret (machine.kernel.memory stack))
  others : ∀ frame ∉ machine.kernel.freelist, machine.kernel.Allocatable frame →
    forked.kernel.memory frame = machine.kernel.memory frame
  pid : pid = (forked.table.proc np).pid

theorem returned_state (np : Fin NPROC) (k : Kernel) (image : ProcImage) :
    ((m.returned np k image).table.proc np).state = .unused := by
  rw [returned_proc, if_pos rfl]

theorem copyImage_started {d : Nat} {copied : Kernel}
    (copy : m.kernel.copyuvm (m.proc proc).pgdir ((m.proc proc).sz.setWidth 32) = .ok (some d, copied))
    (ran : m.copyImage proc np = .ok (pid, forked)) : Started (m.withKernel copied) proc np pid forked := by
  rw [copyImage, copy] at ran
  have same : SameKernel (m.withKernel copied)
      ((m.withKernel copied).setProc np {m.proc np with pgdir := d}) := .setProc np rfl
  have started := startChild_started ran
  refine ⟨started.kend, fun p => (started.kstack p).trans (same.kstack p), started.trapret, started.forkret, ?_,
    started.pid⟩
  rw [started.memory, same.kstack, same.kstack]
  rfl

theorem fork_forked (ready : ForkReady m proc theirs) (first : m.firstUnused = some np)
    (allocatable : m.kernel.Allocatable (m.proc proc).kstack)
    (used : (m.proc proc).kstack ∉ m.kernel.freelist) (ran : m.fork proc = .ok (pid, forked))
    (runnable : (forked.table.proc np).state = .runnable) : ∃ stack, Forked m proc np pid forked stack := by
  have failed : ∀ {k image}, m.fork proc ≠ .ok (-1, m.returned np k image) := by
    intro k image again
    obtain rfl := congrArg Prod.snd (Except.ok.inj (ran.symm.trans again))
    rw [returned_state] at runnable
    cases runnable
  cases free : m.kernel.freelist with
  | nil => exact absurd (fork_stackless first free) failed
  | cons stack rest =>
    have some_free : rest ≠ [] := by
      intro empty
      have fault : m.fork proc = .error (.vm .fault) := by
        refine fork_halted ready first free ?_
        rw [Kernel.copyuvm, setupkvm_exhausted empty]
        rfl
      rw [fault] at ran
      cases ran
    have enough : 1 + growCost 1 (m.pages proc) ≤ rest.length := by
      by_contra few
      obtain ⟨last, short, _⟩ := ready.copy_short first free some_free (Nat.lt_of_not_le few)
      exact failed short
    have taken : Filled _ _ _ _ (m.stacked stack rest) := ready.old.fill ready.heap free _
    obtain ⟨d, copied, tree, copy, copying⟩ := copyuvm_enough taken.heap taken.space ready.present enough
    have parent := ready.allocated_parent first stack rest
    have own : (m.allocated np stack rest).proc np = _ := allocated_kstack stack rest
    rw [fork_allocated ready first free] at ran
    have started := copyImage_started (by rw [parent]; exact copy) ran
    have absent : stack ∉ rest := fun listed => taken.unowned (.inl listed)
    have kept : ∀ frame ∉ rest, m.kernel.Allocatable frame →
        copied.memory frame = (m.stacked stack rest).memory frame := fun frame used valid =>
      (copying.evolves.outside frame List.not_mem_nil valid (not_owned_none used)).1
    have inherited : ∀ frame ∉ stack :: rest, m.kernel.Allocatable frame →
        copied.memory frame = m.kernel.memory frame := by
      intro frame outside valid
      rw [List.mem_cons, not_or] at outside
      rw [kept frame outside.2 valid]
      exact setPage_memory_ne outside.1 _
    have child := started.kstack np
    have memory := started.memory
    rw [show ((m.allocated np stack rest).withKernel copied).proc np = _ from own] at child memory
    rw [show ((m.allocated np stack rest).withKernel copied).proc proc = _ from parent] at memory
    rw [free] at used
    refine ⟨stack, started.kend.trans copying.evolves.kend, started.trapret, started.forkret, child, ?_, ?_, ?_,
      started.pid⟩
    · exact free ▸ .head _
    · rw [memory]
      change update copied.memory stack (copyTrapframe (copied.memory _) (copied.memory stack)) stack = _
      rw [update_self, inherited _ used allocatable, kept stack absent taken.allocatable]
      exact congrArg _ (update_self _ _ _)
    · intro frame outside valid
      rw [free] at outside
      have ne : frame ≠ stack := by
        rintro rfl
        exact outside List.mem_cons_self
      rw [memory, ← inherited frame outside valid]
      exact update_of_ne ne _ _

end Success
end Xv6
