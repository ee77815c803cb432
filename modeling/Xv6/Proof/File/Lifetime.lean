import Xv6.Proof.File.References

namespace Xv6
open Library FileM Ptable FileKernel

namespace Ptable
variable {p q : Fin NPROC}

theorem exit_state (table : Ptable) (initproc : Fin NPROC) (ne : q ≠ p) :
    ((table.exit initproc p).proc q).state = (table.proc q).state ∨
      ((table.exit initproc p).proc q).state = .runnable := by
  rw [exit_proc]
  rw [if_neg ne, roused_state]
  split
  · exact .inr rfl
  · rw [handed, roused_state]
    split
    · exact .inr rfl
    · exact .inl rfl

end Ptable

namespace FileKernel
variable {bad : FileHalt → Prop}

section Calls
variable {kernel k next : FileKernel} {f : Fin NFILE} {p np : Fin NPROC} {fd : Fin NOFILE} {slot : Option (Fin NFILE)}

/-- The call `fileclose` reads and changes no descriptor. -/
theorem wp_fileclose_setSlot {good : Unit → FileKernel → Prop} : wp (fileclose f) good bad (k.setSlot p fd slot) ↔
      wp (fileclose f) (fun value next => good value (next.setSlot p fd slot)) bad k := by
  rw [fileclose]
  simp only [wp_bind, wp_get]
  have same : (k.setSlot p fd slot).file f = k.file f := rfl
  rw [same]
  split
  · rfl
  · split
    · rfl
    · simp only [wp_bind, wp_modify]
      cases (k.file f).type with
      | none | inode => rfl
      | pipe =>
        simp only [pipeclose, kfree, wp_bind, wp_modify, wp_get, wp_ite, wp_pure]
        rfl

variable (counted : k.Counted [])
include counted

theorem Counted.closeSlot : wp (closeSlot p fd) (fun _ next => next.Counted [] ∧ next.ofile p fd = none ∧
      (∀ other, k.ofile p other = none → next.ofile p other = none) ∧ next.table = k.table ∧
      next.initproc = k.initproc) (fun _ => False) k := by
  rw [FileM.closeSlot, wp_bind, wp_get]
  split
  case h_1 empty => exact ⟨counted, empty, fun _ same => same, rfl, rfl⟩
  case h_2 f held =>
    rw [wp_bind]
    simp only [wp_modify]
    have closed := (counted.clear held).fileclose List.mem_cons_self
    rw [List.erase_cons_head] at closed
    have moved := wp_fileclose_setSlot.mp closed
    apply wp_imp moved
    rintro _ next ⟨after, ofile, table, initproc⟩
    refine ⟨after, setSlot_self, ?_, table, initproc⟩
    intro other empty
    rw [ofile]
    by_cases here : other = fd
    · rw [here, setSlot_self]
    · rw [setSlot_of_ne_fd here]
      exact empty

theorem Counted.exit : wp (exit p) (fun _ next => next.Counted []) (fun halt => halt = .initExiting) k := by
  rw [FileM.exit, wp_bind, wp_get]
  split
  · rfl
  · rw [wp_bind]
    have loop : wp ((List.finRange NOFILE).forM (FileM.closeSlot p)) (fun _ next => next.Counted [] ∧
        (∀ fd ∈ List.finRange NOFILE, next.ofile p fd = none) ∧ next.table = k.table) (fun _ => False) k := by
      apply wp_forM fun done (next : FileKernel) => next.Counted [] ∧ (∀ fd ∈ done, next.ofile p fd = none) ∧
        next.table = k.table
      · exact ⟨counted, nofun, rfl⟩
      · rintro done fd later current _ ⟨between, closed, table⟩
        apply wp_imp between.closeSlot
        rintro _ after ⟨still, now, others, same, _⟩
        refine ⟨still, ?_, same.trans table⟩
        intro other member
        rcases List.mem_append.mp member with old | new
        · exact others other (closed other old)
        · rw [List.mem_singleton.mp new]
          exact now
    apply wp_mono loop
    · rintro _ last ⟨after, closed, table⟩
      rw [wp_modify]
      apply after.setTable
      intro q gone
      by_cases here : q = p
      · right
        intro fd
        rw [here]
        exact closed fd (List.mem_finRange fd)
      · left
        rw [Vacant] at gone ⊢
        rcases exit_state last.table last.initproc here with same | woken
        · rw [same] at gone
          exact gone
        · rw [woken] at gone
          rcases gone with wrong | wrong <;> cases wrong
    · exact fun _ => False.elim

theorem Counted.wait : wp (wait p) (fun _ next => next.Counted []) (fun halt => halt = .blocked) k := by
  rw [FileM.wait, wp_bind, wp_get]
  split
  case h_1 child found =>
    rw [wp_bind, wp_set, wp_pure]
    have zombie := (scan_reaps found).2
    apply counted.setTable
    intro q gone
    left
    by_cases here : q = child
    · rw [here]
      exact .inr zombie
    · rw [Vacant] at gone ⊢
      rw [reap, set_of_ne _ here] at gone
      exact gone
  case h_2 => exact counted
  case h_3 => rfl

theorem Counted.dupSlot (ne : np ≠ p) (free : k.ofile np fd = none) (present : ¬k.Vacant np) :
    wp (dupSlot p np fd) (fun _ next => next.Counted [] ∧ next.ofile p = k.ofile p ∧
      (∀ other ≠ fd, next.ofile np other = k.ofile np other) ∧ next.table = k.table) (fun _ => False)
      k := by
  rw [FileM.dupSlot, wp_bind, wp_get]
  split
  case h_1 => exact ⟨counted, rfl, fun _ _ => rfl, rfl⟩
  case h_2 f held =>
    have used := counted.referenced held
    rw [wp_bind, filedup, wp_bind, wp_get, if_neg (by omega), wp_modify, wp_modify]
    refine ⟨(counted.dup used).install free present, ?_, ?_, rfl⟩
    · rw [setSlot_of_ne ne.symm]
      rfl
    · intro other apart
      rw [setSlot_of_ne_fd apart]
      rfl

/-- The loop of `fork` gives the child a descriptor for each open file of the parent. -/
theorem Counted.dupSlots (ne : np ≠ p) (empty : ∀ fd, k.ofile np fd = none) (present : ¬k.Vacant np) :
    wp ((List.finRange NOFILE).forM (FileM.dupSlot p np)) (fun _ next => next.Counted [] ∧ next.table = k.table)
      (fun _ => False) k := by
  have loop : wp ((List.finRange NOFILE).forM (FileM.dupSlot p np)) (fun _ next => next.Counted [] ∧
      (∀ fd ∉ List.finRange NOFILE, next.ofile np fd = none) ∧ next.table = k.table) (fun _ => False) k := by
    apply wp_forM fun done (next : FileKernel) => next.Counted [] ∧ (∀ fd ∉ done, next.ofile np fd = none) ∧
      next.table = k.table
    · exact ⟨counted, fun fd _ => empty fd, rfl⟩
    · rintro done fd later current whole ⟨between, unset, same⟩
      have fresh : fd ∉ done := by
        have once := List.nodup_finRange NOFILE
        rw [whole] at once
        intro member
        exact (List.disjoint_of_nodup_append once) member List.mem_cons_self
      have stands : ¬current.Vacant np := by
        rw [Vacant, same]
        exact present
      apply wp_imp (between.dupSlot ne (unset fd fresh) stands)
      rintro _ after ⟨still, _, rest, table⟩
      refine ⟨still, ?_, table.trans same⟩
      intro other outside
      rw [List.mem_append, List.mem_singleton, not_or] at outside
      rw [rest other outside.2]
      exact unset other outside.1
  apply wp_imp loop
  rintro _ next ⟨after, _, same⟩
  exact ⟨after, same⟩

/-- A change of one slot of the process table that leaves a process there or had none there. -/
theorem Counted.setSlotState (np : Fin NPROC) {table : Ptable} (others : ∀ q ≠ np, table.proc q = k.table.proc q)
    (here : ({k with table} : FileKernel).Vacant np → ∀ fd, k.ofile np fd = none) : {k with table}.Counted [] := by
  apply counted.setTable
  intro q gone
  by_cases same : q = np
  · subst same
    exact .inr (here gone)
  · left
    rw [Vacant] at gone ⊢
    rw [others q same] at gone
    exact gone

theorem Counted.fork (present : ¬k.Vacant p) (memory : Bool) :
    wp (fork p memory) (fun _ next => next.Counted []) (fun _ => False) k := by
  rw [FileM.fork, wp_bind, wp_get]
  split
  case h_1 => exact counted
  case h_2 np table found =>
    obtain ⟨unused, rfl⟩ := allocproc_some found
    have empty := counted.vacant np (.inl unused)
    have ne : np ≠ p := by
      rintro rfl
      exact present (.inl unused)
    have others : ∀ q ≠ np, (k.table.take np).proc q = k.table.proc q := by
      intro q apart
      exact set_of_ne _ apart
    rw [wp_bind, wp_set]
    split
    case isFalse =>
      rw [wp_bind, wp_modify, wp_pure]
      apply counted.setSlotState np
      · intro q apart
        exact (set_of_ne _ apart).trans (others q apart)
      · exact fun _ => empty
    case isTrue =>
      rw [wp_bind, wp_modify, wp_bind]
      generalize shape : (k.table.take np).set np {(k.table.take np).proc np with parent := some p} = child
      have embryo : (child.proc np).state = .embryo := by
        rw [← shape, set_self, take]
        simp
      have begun : {k with table := child}.Counted [] := by
        apply counted.setSlotState np
        · intro q apart
          rw [← shape]
          exact (set_of_ne _ apart).trans (others q apart)
        · exact fun _ => empty
      have stands : ¬{k with table := child}.Vacant np := by
        rw [Vacant, embryo]
        rintro (wrong | wrong) <;> cases wrong
      apply wp_imp (begun.dupSlots ne empty stands)
      rintro _ final ⟨after, _⟩
      rw [wp_bind, wp_modify, wp_pure]
      apply after.setSlotState np
      · intro q apart
        exact set_of_ne _ apart
      · intro gone
        rw [Vacant, setState, set_self] at gone
        rcases gone with wrong | wrong <;> cases wrong

end Calls

section Run
variable {kernel k next : FileKernel} {p : Fin NPROC} {event : FileEvent} {freelist : List Nat} {page : Nat → Pipe}

theorem CanCall.present (can : k.CanCall p) : ¬k.Vacant p := by
  rintro (unused | zombie)
  · rcases can with sleeping | runnable | running
    · exact absurd (unused.symm.trans sleeping) nofun
    · exact absurd (unused.symm.trans runnable) nofun
    · exact absurd (unused.symm.trans running) nofun
  · rcases can with sleeping | runnable | running
    · exact absurd (zombie.symm.trans sleeping) nofun
    · exact absurd (zombie.symm.trans runnable) nofun
    · exact absurd (zombie.symm.trans running) nofun

theorem Counted.pages (counted : k.Counted []) (file : next.file = k.file) (ofile : next.ofile = k.ofile)
    (table : next.table = k.table) (pipes : next.Pipes) : next.Counted [] where
  refs f := by
    rw [file, slots, ofile]
    exact counted.refs f
  idle f := by
    rw [file]
    exact counted.idle f
  vacant q := by
    rw [Vacant, table, ofile]
    exact counted.vacant q
  pipes := pipes

/-- The references are counted after the step, and a halt is no panic of the file layer. -/
def Safe (outcome : Except FileHalt FileKernel) : Prop :=
  (∀ next, outcome = .ok next → next.Counted []) ∧
    ∀ halt, outcome = .error halt → halt = .initExiting ∨ halt = .blocked

theorem safe_error {halt : FileHalt} (allowed : halt = .initExiting ∨ halt = .blocked) : Safe (.error halt) := by
  constructor
  · intro next same
    cases same
  · intro other same
    cases same
    exact allowed

theorem safe_ok (counted : next.Counted []) : Safe (.ok next) := by
  constructor
  · intro other same
    cases same
    exact counted
  · intro halt same
    cases same

/-- A call that keeps the references counted is safe. -/
theorem safe_perform {A : Type} {program : FileM A}
    (meets : k.CanCall p → wp program (fun _ next => next.Counted []) bad k)
    (halts : ∀ halt, bad halt → halt = .initExiting ∨ halt = .blocked) : Safe (k.perform p program) := by
  rw [perform]
  split
  case isTrue can =>
    cases ran : program k with
    | ok result =>
      have holds := wp_ok (meets can) ran
      exact safe_ok holds
    | error reason => exact safe_error (halts reason (wp_error (meets can) ran))
  case isFalse => exact safe_error (.inr rfl)

theorem Counted.step (counted : k.Counted []) (event : FileEvent) : Safe (k.step event) := by
  have never : ∀ halt : FileHalt, False → halt = .initExiting ∨ halt = .blocked := fun _ => False.elim
  cases event with
  | sysOpen p inode omode => exact safe_perform (fun can => counted.sysOpen can.present inode omode) never
  | dup p fd => exact safe_perform (fun can => counted.sysDup can.present fd) never
  | close p fd => exact safe_perform (fun _ => counted.sysClose fd) never
  | pipe p valid => exact safe_perform (fun can => counted.sysPipe can.present valid) never
  | fork p memory => exact safe_perform (fun can => counted.fork can.present memory) never
  | exit p => exact safe_perform (fun _ => counted.exit) fun _ => .inl
  | wait p => exact safe_perform (fun _ => counted.wait) fun _ => .inr
  | kalloc =>
    rw [FileKernel.step]
    cases ran : k.takePage with
    | ok next =>
      have pipes := counted.pipes.takePage ran
      rw [takePage] at ran
      split at ran
      · cases ran
      · cases ran
        exact safe_ok (counted.pages rfl rfl rfl pipes)
    | error halt =>
      rw [takePage] at ran
      split at ran
      · cases ran
        exact safe_error (.inr rfl)
      · cases ran
  | kfree page =>
    rw [FileKernel.step]
    cases ran : k.givePage page with
    | ok next =>
      have pipes := counted.pipes.givePage ran
      rw [givePage] at ran
      split at ran
      · cases ran
        exact safe_ok (counted.pages rfl rfl rfl pipes)
      · cases ran
    | error halt =>
      rw [givePage] at ran
      split at ran
      · cases ran
      · cases ran
        exact safe_error (.inr rfl)

theorem boot_counted (distinct : freelist.Nodup) : (boot freelist page).Counted [] := by
  have unpiped : ∀ any, ¬(boot freelist page).Piped any := by
    rintro any ⟨f, writable, type, _⟩
    cases type
  refine ⟨?_, fun _ _ => rfl, fun _ _ _ => rfl, ?_⟩
  · intro f
    have none : (boot freelist page).slots f = 0 := by
      rw [slots, occurrences_eq_zero]
      rintro slot same
      cases same
    rw [none]
    rfl
  · refine ⟨?_, ?_, ?_, ?_, ?_, ?_⟩
    · rintro f g any writable ⟨type, _⟩
      cases type
    · exact fun any _ piped => absurd piped (unpiped any)
    · exact fun any piped => absurd piped (unpiped any)
    · change (freelist ++ []).Nodup
      rw [List.append_nil]
      exact distinct
    · exact fun any piped => absurd piped (unpiped any)
    · exact fun _ _ => rfl

theorem run_counted {events : List FileEvent} (distinct : freelist.Nodup)
    (ran : runEvents step events (boot freelist page) = .ok k) : k.Counted [] := by
  apply runEvents_invariant (fun _ k => k.Counted []) (boot_counted distinct) _ ran
  intro _ k event next counted stepped
  exact (counted.step event).1 next stepped

/-- A descriptor of some process refers to this end of the pipe. -/
def Holds (kernel : FileKernel) (page : Nat) (writable : Bool) : Prop :=
  ∃ p fd f, kernel.ofile p fd = some f ∧ kernel.IsEnd f page writable

theorem Counted.holds_iff (counted : k.Counted []) (page : Nat) (writable : Bool) :
    k.Holds page writable ↔ ∃ f, k.IsEnd f page writable := by
  constructor
  · rintro ⟨p, fd, f, _, is⟩
    exact ⟨f, is⟩
  · rintro ⟨f, is⟩
    have used : (k.file f).ref ≠ 0 := by
      intro zero
      have type := counted.idle f zero
      rw [is.1] at type
      cases type
    have positive : 0 < k.slots f := by
      have count := counted.refs f
      rw [List.count_nil] at count
      omega
    obtain ⟨slot, held⟩ := occurrences_pos.mp positive
    exact ⟨slot.1, slot.2, f, held, is⟩

/-- Each file counts its descriptors, `filedup` and `fileclose` do not panic, and a pipe is given back once for each
time that it was allocated, as soon as no descriptor for its ends is left. -/
theorem file_lifetime (freelist : List Nat) (page : Nat → Pipe) (events : List FileEvent) (kernel : FileKernel)
    (distinct : freelist.Nodup) (ran : runEvents step events (boot freelist page) = .ok kernel) :
    (∀ f, (kernel.file f).ref = kernel.slots f) ∧
    (∀ event, kernel.step event ≠ .error .filedup ∧ kernel.step event ≠ .error .fileclose) ∧
    (∀ page, kernel.Holds page false ∨ kernel.Holds page true →
      kernel.allocated.count page = kernel.freed.count page + 1 ∧ page ∉ kernel.freelist ∧
        (∀ writable, (kernel.pipe page).isOpen writable = true ↔ kernel.Holds page writable)) ∧
    (∀ page, ¬kernel.Holds page false → ¬kernel.Holds page true →
      kernel.allocated.count page = kernel.freed.count page) ∧
    (∀ p fd f, kernel.ofile p fd = some f → (kernel.file f).type = .pipe →
      (kernel.file f).pipe ∉ kernel.freelist) := by
  have counted := run_counted distinct ran
  have piped : ∀ page, kernel.Piped page ↔ kernel.Holds page false ∨ kernel.Holds page true := by
    intro page
    rw [counted.holds_iff, counted.holds_iff]
    constructor
    · rintro ⟨f, writable, is⟩
      cases writable with
      | false => exact .inl ⟨f, is⟩
      | true => exact .inr ⟨f, is⟩
    · rintro (⟨f, is⟩ | ⟨f, is⟩)
      · exact ⟨f, false, is⟩
      · exact ⟨f, true, is⟩
  refine ⟨?_, ?_, ?_, ?_, ?_⟩
  · intro f
    have count := counted.refs f
    rw [List.count_nil] at count
    omega
  · intro event
    constructor
    all_goals
      intro halts
      rcases (counted.step event).2 _ halts with wrong | wrong <;> cases wrong
  · intro page held
    have now := (piped page).mpr held
    refine ⟨counted.pipes.used page now, (counted.pipes.apart page now).1, ?_⟩
    intro writable
    rw [counted.holds_iff]
    exact counted.pipes.ends page writable now
  · intro page first second
    apply counted.pipes.returned
    rw [piped]
    rintro (held | held)
    · exact first held
    · exact second held
  · intro p fd f held type
    exact (counted.pipes.apart _ ⟨f, _, type, rfl, rfl⟩).1

/-- A process opens a pipe, forks and closes its read end. -/
theorem file_lifetime_sharedPipe :
    ∃ kernel, runEvents step [.pipe ProcSystem.firstSlot true, .fork ProcSystem.firstSlot true,
        .close ProcSystem.firstSlot 0] (boot [7, 8] fun _ => .alloc fun _ => 0) = .ok kernel ∧
      (kernel.file ⟨0, by decide⟩).ref = kernel.slots ⟨0, by decide⟩ ∧ (kernel.file ⟨0, by decide⟩).ref = 1 := by
  have observed : (runEvents step [.pipe ProcSystem.firstSlot true, .fork ProcSystem.firstSlot true,
      .close ProcSystem.firstSlot 0] (boot [7, 8] fun _ => .alloc fun _ => 0)).toOption.map
        (fun kernel => (kernel.file ⟨0, by decide⟩).ref) = some 1 := by
    decide +kernel
  obtain ⟨kernel, ran, one⟩ := exists_ok_of_observed observed
  exact ⟨kernel, ran, (file_lifetime [7, 8] _ _ kernel (by decide) ran).1 _, one⟩

end Run
end FileKernel
end Xv6
