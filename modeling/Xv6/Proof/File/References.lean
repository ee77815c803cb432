import Xv6.Library.Occurrences
import Xv6.Proof.File.Pipes
import Xv6.Proof.Proc.Steps

namespace Xv6
open Library List Function FileM

namespace FileKernel

/-- The number of descriptors of all processes for a file. -/
def slots (kernel : FileKernel) (f : Fin NFILE) : Nat :=
  occurrences (fun slot : Fin NPROC × Fin NOFILE => kernel.ofile slot.1 slot.2) (some f)

/-- A slot in one of these states holds no process. -/
def Vacant (kernel : FileKernel) (p : Fin NPROC) : Prop :=
  (kernel.table.proc p).state = .unused ∨ (kernel.table.proc p).state = .zombie

/-- The references to a file are the descriptors for it and those that the running call has pending. -/
structure Counted (kernel : FileKernel) (pending : List (Fin NFILE)) : Prop where
  refs : ∀ f, (kernel.file f).ref = kernel.slots f + pending.count f
  idle : ∀ f, (kernel.file f).ref = 0 → (kernel.file f).type = .none
  vacant : ∀ p, kernel.Vacant p → ∀ fd, kernel.ofile p fd = none
  pipes : kernel.Pipes

section Counted
variable {k next : FileKernel} {pending : List (Fin NFILE)} {f : Fin NFILE} {p np : Fin NPROC} {fd : Fin NOFILE}
  {slot : Option (Fin NFILE)} {bad : FileHalt → Prop} {rest : List Nat} {page : Nat} {f0 f1 : Fin NFILE}

theorem setSlot_self : (k.setSlot p fd slot).ofile p fd = slot := by
  rw [setSlot]
  simp

theorem setSlot_of_ne_fd {other : Fin NOFILE} (ne : other ≠ fd) :
    (k.setSlot p fd slot).ofile p other = k.ofile p other := by
  rw [setSlot]
  simp [ne]

theorem setSlot_of_ne {q : Fin NPROC} (ne : q ≠ p) : (k.setSlot p fd slot).ofile q = k.ofile q := by
  rw [setSlot]
  simp [ne]

theorem slots_setSlot (k : FileKernel) (p : Fin NPROC) (fd : Fin NOFILE) (slot : Option (Fin NFILE)) (f : Fin NFILE) :
    (k.setSlot p fd slot).slots f + (if k.ofile p fd = some f then 1 else 0) =
      k.slots f + if slot = some f then 1 else 0 := by
  have updated : (fun place : Fin NPROC × Fin NOFILE => (k.setSlot p fd slot).ofile place.1 place.2) =
      update (fun place : Fin NPROC × Fin NOFILE => k.ofile place.1 place.2) (p, fd) slot := by
    funext ⟨q, other⟩
    by_cases owner : q = p
    · subst owner
      by_cases here : other = fd
      · subst here
        rw [setSlot_self, update_self]
      · rw [setSlot_of_ne_fd here, update_of_ne]
        intro same
        exact here (Prod.mk.inj same).2
    · rw [setSlot_of_ne owner, update_of_ne]
      intro same
      exact owner (Prod.mk.inj same).1
  rw [slots, updated]
  exact occurrences_update _ (p, fd) slot (some f)

section
variable (counted : k.Counted pending)
include counted

theorem Counted.referenced (held : k.ofile p fd = some f) : 1 ≤ (k.file f).ref := by
  have positive : 0 < k.slots f := occurrences_pos.mpr ⟨(p, fd), held⟩
  rw [counted.refs]
  omega

theorem Counted.pending_referenced (held : f ∈ pending) : 1 ≤ (k.file f).ref := by
  have positive := count_pos_iff.mpr held
  rw [counted.refs]
  omega

/-- The order of the pending references does not matter. -/
theorem Counted.perm {order : List (Fin NFILE)} (same : pending.Perm order) : k.Counted order where
  refs f := by
    rw [← same.count_eq]
    exact counted.refs f
  idle := counted.idle
  vacant := counted.vacant
  pipes := counted.pipes

/-- The number of references of a file changes with those that belong to no descriptor. -/
theorem Counted.setRef {ref : Int} {left : List (Fin NFILE)} (positive : 0 < ref)
    (own : ref + pending.count f = (k.file f).ref + left.count f)
    (others : ∀ g ≠ f, left.count g = pending.count g) : (k.setFile f {k.file f with ref}).Counted left where
  refs g := by
    have before := counted.refs g
    change _ = (k.slots g : Int) + _
    by_cases here : g = f
    · subst here
      rw [setFile_self]
      change ref = _
      omega
    · rw [setFile_of_ne here, others g here]
      exact before
  idle g := by
    by_cases here : g = f
    · rw [here, setFile_self]
      intro zero
      change ref = 0 at zero
      omega
    · rw [setFile_of_ne here]
      exact counted.idle g
  vacant := counted.vacant
  pipes := counted.pipes.setFile rfl rfl rfl

/-- The call `filealloc` has a reference to an unused file. -/
theorem Counted.alloc (unused : (k.file f).ref = 0) : (k.setFile f {k.file f with ref := 1}).Counted (f :: pending) := by
  apply counted.setRef Int.one_pos
  · rw [count_cons_self, unused]
    omega
  · exact fun g here => count_cons_of_ne here.symm

theorem Counted.dup (used : 1 ≤ (k.file f).ref) :
    (k.setFile f {k.file f with ref := (k.file f).ref + 1}).Counted (f :: pending) := by
  apply counted.setRef
  · omega
  · rw [count_cons_self]
    omega
  · exact fun g here => count_cons_of_ne here.symm

theorem Counted.lower (held : f ∈ pending) (more : (k.file f).ref - 1 > 0) :
    (k.setFile f {k.file f with ref := (k.file f).ref - 1}).Counted (pending.erase f) := by
  have positive := count_pos_iff.mpr held
  apply counted.setRef more
  · rw [count_erase_self]
    omega
  · exact fun g here => count_erase_of_ne here

/-- The last reference is given up, and the pipes are as they have to be afterwards. -/
theorem Counted.last (held : f ∈ pending) (used : 1 ≤ (k.file f).ref) (only : ¬(k.file f).ref - 1 > 0)
    (file : next.file = (k.dropped f).file) (ofile : next.ofile = k.ofile)
    (table : next.table = k.table) (pipes : next.Pipes) : next.Counted (pending.erase f) where
  refs g := by
    have before := counted.refs g
    have same : next.slots g = k.slots g := by
      rw [slots, ofile, slots]
    rw [file, same]
    by_cases here : g = f
    · subst here
      have positive := count_pos_iff.mpr held
      rw [dropped, setFile_self, count_erase_self]
      change (0 : Int) = _
      omega
    · rw [dropped, setFile_of_ne here, count_erase_of_ne here]
      exact before
  idle g := by
    rw [file]
    by_cases here : g = f
    · rw [here, dropped, setFile_self]
      exact fun _ => rfl
    · rw [dropped, setFile_of_ne here]
      exact counted.idle g
  vacant q gone := by
    rw [Vacant, table] at gone
    rw [ofile]
    exact counted.vacant q gone
  pipes := pipes

theorem Counted.fileclose (held : f ∈ pending) :
    wp (fileclose f) (fun _ next => next.Counted (pending.erase f) ∧ next.ofile = k.ofile ∧
      next.table = k.table ∧ next.initproc = k.initproc) (fun _ => False) k := by
  have used := counted.pending_referenced held
  rw [FileM.fileclose, wp_bind, wp_get]
  rw [if_neg (by omega)]
  split
  case isTrue more => exact ⟨counted.lower held more, rfl, rfl, rfl⟩
  case isFalse only =>
    rw [wp_bind, wp_modify]
    have plain : (k.file f).type ≠ .pipe → (k.dropped f).Counted (pending.erase f) ∧
        (k.dropped f).ofile = k.ofile ∧ (k.dropped f).table = k.table ∧
        (k.dropped f).initproc = k.initproc := by
      intro other
      refine ⟨counted.last held used only rfl rfl rfl ?_, rfl, rfl, rfl⟩
      exact counted.pipes.retype other nofun
    cases type : (k.file f).type with
    | pipe =>
      apply wp_imp (counted.pipes.pipeclose ⟨type, rfl, rfl⟩)
      rintro _ next ⟨pipes, file, ofile, table, initproc⟩
      exact ⟨counted.last held used only file ofile table pipes, ofile, table, initproc⟩
    | inode | none =>
      rw [wp_pure]
      apply plain
      rw [type]
      nofun

end

theorem Counted.install (counted : k.Counted (f :: pending)) (free : k.ofile p fd = none)
    (present : ¬k.Vacant p) : (k.setSlot p fd (some f)).Counted pending where
  refs g := by
    have before := counted.refs g
    have moved := slots_setSlot k p fd (some f) g
    rw [free] at moved
    change (k.file g).ref = _
    by_cases here : g = f
    · subst here
      rw [count_cons_self] at before
      simp only [reduceCtorEq, if_false, if_true] at moved
      omega
    · have apart : f ≠ g := fun same => here same.symm
      rw [count_cons_of_ne apart] at before
      simp only [reduceCtorEq, Option.some.injEq, apart, if_false] at moved
      omega
  idle := counted.idle
  vacant q gone other := by
    have ne : q ≠ p := by
      rintro rfl
      exact present gone
    rw [setSlot_of_ne ne]
    exact counted.vacant q gone other
  pipes := counted.pipes.congr (fun _ _ _ => Iff.rfl) rfl rfl rfl rfl rfl

theorem Counted.clear (counted : k.Counted pending) (held : k.ofile p fd = some f) :
    (k.setSlot p fd none).Counted (f :: pending) where
  refs g := by
    have before := counted.refs g
    have moved := slots_setSlot k p fd none g
    rw [held] at moved
    change (k.file g).ref = _
    by_cases here : g = f
    · subst here
      rw [count_cons_self]
      simp only [reduceCtorEq, if_false, if_true] at moved
      omega
    · have apart : f ≠ g := fun same => here same.symm
      rw [count_cons_of_ne apart]
      simp only [reduceCtorEq, Option.some.injEq, apart, if_false] at moved
      omega
  idle := counted.idle
  vacant q gone other := by
    by_cases here : q = p
    · subst here
      by_cases same : other = fd
      · rw [same, setSlot_self]
      · rw [setSlot_of_ne_fd same]
        exact counted.vacant q gone other
    · rw [setSlot_of_ne here]
      exact counted.vacant q gone other
  pipes := counted.pipes.congr (fun _ _ _ => Iff.rfl) rfl rfl rfl rfl rfl

/-- A change of the process table that vacates only slots without descriptors. -/
theorem Counted.setTable (counted : k.Counted pending) (table : Ptable)
    (vacates : ∀ q, {k with table}.Vacant q → k.Vacant q ∨ ∀ fd, k.ofile q fd = none) :
    {k with table}.Counted pending where
  refs := counted.refs
  idle := counted.idle
  vacant q gone := by
    rcases vacates q gone with before | empty
    · exact counted.vacant q before
    · exact empty
  pipes := counted.pipes.congr (fun _ _ _ => Iff.rfl) rfl rfl rfl rfl rfl

theorem wp_filealloc {good : Option (Fin NFILE) → FileKernel → Prop} (none : good none k)
    (some : ∀ f, (k.file f).ref = 0 → good (some f) (k.setFile f {k.file f with ref := 1})) :
    wp filealloc good bad k := by
  rw [filealloc, wp_bind, wp_get]
  split
  case h_1 f found =>
    have zero := find?_some found
    rw [decide_eq_true_eq] at zero
    rw [wp_bind, wp_modify, wp_pure]
    exact some f zero
  case h_2 => exact none

theorem wp_fdalloc {good : Option (Fin NOFILE) → FileKernel → Prop} (none : good none k)
    (some : ∀ fd, k.ofile p fd = .none → good (some fd) (k.setSlot p fd (.some f))) :
    wp (fdalloc p f) good bad k := by
  rw [fdalloc, wp_bind, wp_get]
  split
  case h_1 fd found =>
    have free := find?_some found
    rw [decide_eq_true_eq] at free
    rw [wp_bind, wp_modify, wp_pure]
    exact some fd free
  case h_2 => exact none

theorem wp_argfd {good : Option (Fin NOFILE × Fin NFILE) → FileKernel → Prop} {arg : Int} (none : good none k)
    (some : ∀ fd f, k.ofile p fd = .some f → good (some (fd, f)) k) : wp (argfd p arg) good bad k := by
  rw [argfd, wp_bind, wp_get]
  split
  case isTrue inside =>
    rw [wp_pure]
    cases held : k.ofile p ⟨arg.toNat, by omega⟩ with
    | none => exact none
    | some f => exact some _ f held
  case isFalse => exact none

theorem Counted.closes (counted : k.Counted pending) (held : f ∈ pending) {A : Type} {rest : FileM A}
    {good : A → FileKernel → Prop}
    (further : ∀ next, next.Counted (pending.erase f) → next.ofile = k.ofile → next.table = k.table →
      next.initproc = k.initproc → wp rest good bad next) : wp (FileM.fileclose f >>= fun _ => rest) good bad k := by
  rw [wp_bind]
  apply wp_mono (counted.fileclose held)
  · rintro _ next ⟨after, ofile, table, initproc⟩
    exact further next after ofile table initproc
  · exact fun _ => False.elim

theorem Counted.sysClose (counted : k.Counted []) (arg : Int) :
    wp (sysClose p arg) (fun _ next => next.Counted []) (fun _ => False) k := by
  rw [FileM.sysClose, wp_bind]
  apply wp_argfd
  · exact counted
  · intro fd f held
    rw [wp_bind, wp_modify]
    apply (counted.clear held).closes mem_cons_self
    intro next after _ _ _
    rw [erase_cons_head] at after
    exact after

theorem Counted.sysDup (counted : k.Counted []) (present : ¬k.Vacant p) (arg : Int) :
    wp (sysDup p arg) (fun _ next => next.Counted []) (fun _ => False) k := by
  rw [FileM.sysDup, wp_bind]
  apply wp_argfd
  · exact counted
  · intro fd f held
    rw [wp_bind]
    apply wp_fdalloc
    · exact counted
    · intro other free
      have used := counted.referenced held
      rw [wp_bind, filedup, wp_bind, wp_get]
      change wp (if (k.file f).ref < 1 then _ else _) _ _ _
      rw [if_neg (by omega), wp_modify, wp_pure]
      exact (counted.dup used).install free present

theorem Counted.sysOpen (counted : k.Counted []) (present : ¬k.Vacant p) (inode : Option Nat)
    (omode : BitVec 32) : wp (sysOpen p inode omode) (fun _ next => next.Counted []) (fun _ => False) k := by
  cases inode with
  | none => exact counted
  | some ip =>
    rw [FileM.sysOpen, wp_bind]
    apply wp_filealloc
    · exact counted
    · intro f unused
      have allocated := counted.alloc unused
      rw [wp_bind]
      apply wp_fdalloc
      · apply allocated.closes mem_cons_self
        intro next after _ _ _
        rw [erase_cons_head] at after
        exact after
      · intro fd free
        have installed := allocated.install free present
        rw [wp_bind, wp_modify, wp_pure]
        have type := counted.idle f unused
        constructor
        · intro g
          have before := installed.refs g
          by_cases here : g = f
          · rw [here, setFile_self]
            rw [here] at before
            exact before
          · rw [setFile_of_ne here]
            exact before
        · intro g
          by_cases here : g = f
          · rw [here, setFile_self]
            intro zero
            have one : (((k.setFile f {k.file f with ref := 1}).setSlot p fd (some f)).file f).ref = 1 := by
              change ((k.setFile f {k.file f with ref := 1}).file f).ref = 1
              rw [setFile_self]
            rw [one] at zero
            cases zero
          · rw [setFile_of_ne here]
            exact installed.idle g
        · exact installed.vacant
        · apply installed.pipes.retype
          · change ((k.setFile f {k.file f with ref := 1}).file f).type ≠ .pipe
            rw [setFile_self]
            rw [type]
            nofun
          · nofun

theorem Counted.takeFree (counted : k.Counted pending) (free : k.freelist = page :: rest) :
    {k with freelist := rest}.Counted pending where
  refs := counted.refs
  idle := counted.idle
  vacant := counted.vacant
  pipes := by
    have pipes := counted.pipes
    have distinct := pipes.distinct
    rw [free, cons_append, nodup_cons] at distinct
    refine ⟨pipes.single, pipes.ends, ?_, distinct.2, pipes.used, pipes.returned⟩
    intro other now
    obtain ⟨notFree, notOther⟩ := pipes.apart other now
    rw [free, mem_cons, not_or] at notFree
    exact ⟨notFree.2, notOther⟩

theorem halfConnected_ref (g : Fin NFILE) : ((k.halfConnected f0 page).file g).ref = (k.file g).ref := by
  rw [halfConnected]
  by_cases first : g = f0
  · rw [first, setFile_self]
  · rw [setFile_of_ne first]
    rfl

theorem connected_ref (g : Fin NFILE) : ((k.connected f0 f1 page).file g).ref = (k.file g).ref := by
  rw [connected]
  by_cases second : g = f1
  · rw [second, setFile_self]
    exact halfConnected_ref f1
  · rw [setFile_of_ne second]
    exact halfConnected_ref g

theorem connected_type {g : Fin NFILE} (first : g ≠ f0) (second : g ≠ f1) :
    ((k.connected f0 f1 page).file g).type = (k.file g).type := by
  rw [connected, setFile_of_ne second, halfConnected, setFile_of_ne first]
  rfl

/-- The assignments of `pipealloc` make a pipe in the page at the head of the free list. -/
theorem Counted.connect (counted : k.Counted pending) (free : k.freelist = page :: rest) (ne : f0 ≠ f1)
    (type0 : (k.file f0).type ≠ .pipe) (type1 : (k.file f1).type ≠ .pipe) (used0 : (k.file f0).ref ≠ 0)
    (used1 : (k.file f1).ref ≠ 0) :
    ({k with freelist := rest}.connected f0 f1 page).Counted pending := by
  have taken := counted.takeFree free
  have distinct := counted.pipes.distinct
  rw [free, cons_append, nodup_cons, mem_append, not_or] at distinct
  have fresh : ¬k.Piped page := by
    intro piped
    apply (counted.pipes.apart page piped).1
    rw [free]
    exact .head _
  refine ⟨?_, ?_, taken.vacant, taken.pipes.connect ne type0 type1 distinct.1.1 distinct.1.2 fresh⟩
  · intro g
    rw [connected_ref]
    exact taken.refs g
  · intro g
    rw [connected_ref]
    intro zero
    have first : g ≠ f0 := by
      rintro rfl
      exact used0 zero
    have second : g ≠ f1 := by
      rintro rfl
      exact used1 zero
    rw [connected_type first second]
    exact taken.idle g zero

/-- The result of `pipealloc` is nothing or two pending references to the ends of a new pipe. -/
theorem Counted.pipealloc (counted : k.Counted []) :
    wp pipealloc (fun result next => next.ofile = k.ofile ∧ next.table = k.table ∧
      (result = none ∧ next.Counted [] ∨ ∃ rf wf, result = some (rf, wf) ∧ next.Counted [wf, rf]))
      (fun _ => False) k := by
  rw [FileM.pipealloc, wp_bind]
  apply wp_filealloc
  · exact ⟨rfl, rfl, .inl ⟨rfl, counted⟩⟩
  · intro f0 unused0
    have one := counted.alloc unused0
    rw [wp_bind]
    apply wp_filealloc
    · apply one.closes mem_cons_self
      intro next after ofile table _
      rw [erase_cons_head] at after
      exact ⟨ofile, table, .inl ⟨rfl, after⟩⟩
    · intro f1 unused1
      have ne : f0 ≠ f1 := by
        rintro rfl
        rw [setFile_self] at unused1
        cases unused1
      have two := one.alloc unused1
      rw [wp_bind, kalloc, wp_bind, wp_get]
      split
      case h_1 =>
        rw [wp_pure]
        apply two.closes (mem_cons_of_mem _ (.head _))
        intro middle between ofile table _
        have left : [f1, f0].erase f0 = [f1] := by
          rw [erase_cons_tail (by simpa using ne.symm), erase_cons_head]
        rw [left] at between
        apply between.closes mem_cons_self
        intro next after again also _
        rw [erase_cons_head] at after
        exact ⟨again.trans ofile, also.trans table, .inl ⟨rfl, after⟩⟩
      case h_2 page rest free =>
        rw [wp_bind, wp_set, wp_pure, wp_bind]
        have type0 := counted.idle f0 unused0
        have type1 := one.idle f1 unused1
        have connects := two.connect free ne
        rw [setFile_self, setFile_of_ne ne, setFile_self] at connects
        rw [FileM.connect, wp_bind, wp_modify, wp_bind, wp_modify, wp_bind, wp_modify, wp_modify, wp_pure]
        refine ⟨rfl, rfl, .inr ⟨f0, f1, rfl, connects ?_ ?_ ?_ ?_⟩⟩
        · rw [type0]
          nofun
        · rw [type1]
          nofun
        all_goals nofun

theorem Counted.sysPipe (counted : k.Counted []) (present : ¬k.Vacant p) (valid : Bool) :
    wp (sysPipe p valid) (fun _ next => next.Counted []) (fun _ => False) k := by
  rw [FileM.sysPipe]
  split
  case isFalse => exact counted
  case isTrue =>
    rw [wp_bind]
    apply wp_imp counted.pipealloc
    rintro result middle ⟨ofile, table, ⟨rfl, after⟩ | ⟨rf, wf, rfl, after⟩⟩
    · exact after
    · have here : ¬middle.Vacant p := by
        rw [Vacant, table]
        exact present
      have both : middle.Counted [rf, wf] := after.perm (List.Perm.swap ..)
      rw [wp_bind]
      apply wp_fdalloc
      · apply both.closes mem_cons_self
        intro next one _ _ _
        rw [erase_cons_head] at one
        apply one.closes mem_cons_self
        intro last none _ _ _
        rw [erase_cons_head] at none
        exact none
      · intro fd0 free0
        have installed := both.install free0 here
        rw [wp_bind]
        apply wp_fdalloc
        · rw [wp_bind, wp_modify]
          have own : (middle.setSlot p fd0 (some rf)).ofile p fd0 = some rf := setSlot_self
          apply (installed.clear own).closes mem_cons_self
          intro next one _ _ _
          rw [erase_cons_head] at one
          apply one.closes mem_cons_self
          intro last none _ _ _
          rw [erase_cons_head] at none
          exact none
        · intro fd1 free1
          exact installed.install free1 here

end Counted
end FileKernel
end Xv6
