import Xv6.Construction.File

namespace Xv6
open Library Function List

def Pipe.isOpen (pipe : Pipe) (writable : Bool) : Bool := if writable then pipe.writeopen else pipe.readopen

namespace FileKernel

/-- The file is an end of the pipe in the page. -/
def IsEnd (kernel : FileKernel) (f : Fin NFILE) (page : Nat) (writable : Bool) : Prop :=
  (kernel.file f).type = .pipe ∧ (kernel.file f).pipe = page ∧ (kernel.file f).writable = writable

/-- The page holds a pipe that a file refers to. -/
def Piped (kernel : FileKernel) (page : Nat) : Prop := ∃ f writable, kernel.IsEnd f page writable

/-- Each pipe has at most one file for each end, and its flags tell which ends have one. Its page is not free, and
the record has one page given for each page given back and for each pipe in use. -/
structure Pipes (kernel : FileKernel) : Prop where
  single : ∀ f g page writable, kernel.IsEnd f page writable → kernel.IsEnd g page writable → f = g
  ends : ∀ page writable, kernel.Piped page →
    ((kernel.pipe page).isOpen writable = true ↔ ∃ f, kernel.IsEnd f page writable)
  apart : ∀ page, kernel.Piped page → page ∉ kernel.freelist ∧ page ∉ kernel.others
  distinct : (kernel.freelist ++ kernel.others).Nodup
  used : ∀ page, kernel.Piped page → kernel.allocated.count page = kernel.freed.count page + 1
  returned : ∀ page, ¬kernel.Piped page → kernel.allocated.count page = kernel.freed.count page

section Pipes
variable {kernel k next : FileKernel} {f f0 f1 : Fin NFILE} {page : Nat} {writable : Bool}

theorem Piped.congr (ends : ∀ f page writable, next.IsEnd f page writable ↔ k.IsEnd f page writable) (page : Nat) :
    next.Piped page ↔ k.Piped page := by
  rw [Piped, Piped]
  simp only [ends]

theorem Pipes.congr (pipes : k.Pipes) (ends : ∀ f page writable, next.IsEnd f page writable ↔ k.IsEnd f page writable)
    (pipe : next.pipe = k.pipe) (freelist : next.freelist = k.freelist) (others : next.others = k.others)
    (allocated : next.allocated = k.allocated) (freed : next.freed = k.freed) : next.Pipes := by
  have piped := Piped.congr ends
  constructor
  · simp only [ends]
    exact pipes.single
  · simp only [ends, piped, pipe]
    exact pipes.ends
  · simp only [piped, freelist, others]
    exact pipes.apart
  · rw [freelist, others]
    exact pipes.distinct
  · simp only [piped, allocated, freed]
    exact pipes.used
  · simp only [piped, allocated, freed]
    exact pipes.returned

theorem setFile_self (file : FileSlot) : (k.setFile f file).file f = file := update_self ..

theorem setFile_of_ne {g : Fin NFILE} (ne : g ≠ f) (file : FileSlot) :
    (k.setFile f file).file g = k.file g := update_of_ne ne ..

theorem Pipes.setFile (pipes : k.Pipes) {file : FileSlot} (type : file.type = (k.file f).type)
    (pipe : file.pipe = (k.file f).pipe) (writable : file.writable = (k.file f).writable) :
    (k.setFile f file).Pipes := by
  apply pipes.congr
  · intro g page end_
    by_cases here : g = f
    · rw [here, IsEnd, setFile_self, type, pipe, writable]
      rfl
    · rw [IsEnd, setFile_of_ne here]
      rfl
  all_goals rfl

/-- A file that is no pipe becomes another kind of file. -/
theorem Pipes.retype (pipes : k.Pipes) {file : FileSlot} (before : (k.file f).type ≠ .pipe)
    (after : file.type ≠ .pipe) : (k.setFile f file).Pipes := by
  apply pipes.congr
  · intro g page end_
    by_cases here : g = f
    · rw [here, IsEnd, IsEnd, setFile_self]
      exact iff_of_false (fun now => after now.1) (fun old => before old.1)
    · rw [IsEnd, setFile_of_ne here]
      rfl
  all_goals rfl

/-- The kernel after `pipealloc` has set up a pipe and its read end. -/
def halfConnected (kernel : FileKernel) (f0 : Fin NFILE) (page : Nat) : FileKernel :=
  ({kernel with allocated := page :: kernel.allocated}.setPipe page
    {kernel.pipe page with readopen := true, writeopen := true, nwrite := 0, nread := 0}).setFile f0
      {kernel.file f0 with type := .pipe, readable := true, writable := false, pipe := page}

/-- The kernel after `pipealloc` has set up both ends. -/
def connected (kernel : FileKernel) (f0 f1 : Fin NFILE) (page : Nat) : FileKernel :=
  (kernel.halfConnected f0 page).setFile f1
    {(kernel.halfConnected f0 page).file f1 with type := .pipe, readable := false, writable := true, pipe := page}

theorem connected_isEnd (page : Nat) (ne : f0 ≠ f1) (none0 : (k.file f0).type ≠ .pipe)
    (none1 : (k.file f1).type ≠ .pipe) (g : Fin NFILE) (other : Nat) (end_ : Bool) :
    (k.connected f0 f1 page).IsEnd g other end_ ↔
      k.IsEnd g other end_ ∨ other = page ∧ (g = f0 ∧ end_ = false ∨ g = f1 ∧ end_ = true) := by
  rw [IsEnd, connected]
  by_cases second : g = f1
  · subst second
    rw [setFile_self]
    have old : ¬k.IsEnd g other end_ := fun is => none1 is.1
    have first : g ≠ f0 := ne.symm
    simp [old, first, eq_comm]
  · rw [setFile_of_ne second, halfConnected]
    by_cases first : g = f0
    · subst first
      rw [setFile_self]
      have old : ¬k.IsEnd g other end_ := fun is => none0 is.1
      simp [old, second, eq_comm]
    · rw [setFile_of_ne first]
      simp [first, second, IsEnd, setPipe]

/-- A new pipe in a page that nobody uses. -/
theorem Pipes.connect (pipes : k.Pipes) (ne : f0 ≠ f1) (none0 : (k.file f0).type ≠ .pipe)
    (none1 : (k.file f1).type ≠ .pipe) (taken : page ∉ k.freelist) (foreign : page ∉ k.others)
    (fresh : ¬k.Piped page) : (k.connected f0 f1 page).Pipes := by
  have ends := connected_isEnd page ne none0 none1
  have unused : ∀ g end_, ¬k.IsEnd g page end_ := fun g end_ is => fresh ⟨g, end_, is⟩
  have piped : ∀ other, (k.connected f0 f1 page).Piped other ↔ k.Piped other ∨ other = page := by
    intro other
    simp only [Piped, ends]
    constructor
    · rintro ⟨g, end_, old | ⟨same, _⟩⟩
      · exact .inl ⟨g, end_, old⟩
      · exact .inr same
    · rintro (⟨g, end_, old⟩ | same)
      · exact ⟨g, end_, .inl old⟩
      · exact ⟨f0, false, .inr ⟨same, .inl ⟨rfl, rfl⟩⟩⟩
  constructor
  · intro g h other end_ first second
    rw [ends] at first second
    rcases first with first | ⟨rfl, first⟩
    · rcases second with second | ⟨rfl, _⟩
      · exact pipes.single g h other end_ first second
      · exact absurd first (unused g end_)
    · rcases second with second | ⟨_, second⟩
      · exact absurd second (unused h end_)
      · rcases first with ⟨rfl, rfl⟩ | ⟨rfl, rfl⟩
        · rcases second with ⟨rfl, _⟩ | ⟨_, wrong⟩
          · rfl
          · cases wrong
        · rcases second with ⟨_, wrong⟩ | ⟨rfl, _⟩
          · cases wrong
          · rfl
  · intro other end_ now
    simp only [ends]
    by_cases here : other = page
    · subst here
      have opened : ((k.connected f0 f1 other).pipe other).isOpen end_ = true := by
        change (update k.pipe other _ other).isOpen end_ = true
        rw [update_self]
        cases end_ <;> rfl
      apply iff_of_true opened
      cases end_ with
      | false => exact ⟨f0, .inr ⟨rfl, .inl ⟨rfl, rfl⟩⟩⟩
      | true => exact ⟨f1, .inr ⟨rfl, .inr ⟨rfl, rfl⟩⟩⟩
    · have before := ((piped other).mp now).resolve_right here
      have same : (k.connected f0 f1 page).pipe other = k.pipe other := update_of_ne here ..
      rw [same, pipes.ends other end_ before]
      simp [here]
  · intro other now
    rcases (piped other).mp now with before | rfl
    · exact pipes.apart other before
    · exact ⟨taken, foreign⟩
  · exact pipes.distinct
  · intro other now
    change (page :: k.allocated).count other = k.freed.count other + 1
    by_cases here : other = page
    · rw [here, count_cons_self, pipes.returned page fresh]
    · rw [count_cons_of_ne fun same => here same.symm]
      exact pipes.used other (((piped other).mp now).resolve_right here)
  · intro other unpiped
    rw [piped, not_or] at unpiped
    change (page :: k.allocated).count other = k.freed.count other
    rw [count_cons_of_ne fun same => unpiped.2 same.symm]
    exact pipes.returned other unpiped.1

/-- The kernel after the first assignment of `pipeclose`. -/
def shut (kernel : FileKernel) (page : Nat) (writable : Bool) : FileKernel := kernel.setPipe page
  (if writable then {kernel.pipe page with writeopen := false} else {kernel.pipe page with readopen := false})

theorem shut_isOpen (end_ : Bool) :
    ((k.shut page writable).pipe page).isOpen end_ = (!(end_ == writable) && (k.pipe page).isOpen end_) := by
  change (update k.pipe page _ page).isOpen end_ = _
  rw [update_self]
  cases writable <;> cases end_ <;> simp [Pipe.isOpen]

theorem shut_isOpen_of_ne {other : Nat} (ne : other ≠ page) :
    (k.shut page writable).pipe other = k.pipe other := update_of_ne ne ..

/-- The kernel after the last reference to a file has been given up. -/
def dropped (kernel : FileKernel) (f : Fin NFILE) : FileKernel :=
  kernel.setFile f {kernel.file f with ref := 0, type := .none}

theorem dropped_isEnd (g : Fin NFILE) (other : Nat) (end_ : Bool) :
    (k.dropped f).IsEnd g other end_ ↔ g ≠ f ∧ k.IsEnd g other end_ := by
  rw [IsEnd, dropped]
  by_cases here : g = f
  · rw [here, setFile_self]
    simp
  · rw [setFile_of_ne here]
    simp [here, IsEnd]

/-- The only file of an end closes the end. The page is freed if the other end has no file. -/
theorem Pipes.pipeclose (pipes : k.Pipes) (isEnd : k.IsEnd f page writable) :
    wp (FileM.pipeclose page writable) (fun _ next => next.Pipes ∧ next.file = (k.dropped f).file ∧
      next.ofile = k.ofile ∧ next.table = k.table ∧ next.initproc = k.initproc) (fun _ => False)
      (k.dropped f) := by
  have before : k.Piped page := ⟨f, writable, isEnd⟩
  obtain ⟨notFree, notOther⟩ := pipes.apart page before
  have open_ : ∀ end_, (((k.dropped f).shut page writable).pipe page).isOpen end_ = true ↔
      ∃ g, (k.dropped f).IsEnd g page end_ := by
    intro end_
    have same : ((k.dropped f).pipe page) = k.pipe page := rfl
    rw [shut_isOpen, same, Bool.and_eq_true, pipes.ends page end_ before]
    simp only [dropped_isEnd]
    constructor
    · rintro ⟨ne, g, is⟩
      refine ⟨g, ?_, is⟩
      rintro rfl
      rw [isEnd.2.2.symm.trans is.2.2] at ne
      simp at ne
    · rintro ⟨g, ne, is⟩
      refine ⟨?_, g, is⟩
      have apart : end_ ≠ writable := by
        rintro rfl
        exact ne (pipes.single g f page end_ is isEnd)
      simp [apart]
  have elsewhere : ∀ other ≠ page, ∀ end_, (k.dropped f).Piped other →
      ((((k.dropped f).shut page writable).pipe other).isOpen end_ = true ↔ ∃ g, (k.dropped f).IsEnd g other end_) := by
    rintro other ne end_ ⟨g, any, is⟩
    have old := ((dropped_isEnd g other any).mp is).2
    rw [shut_isOpen_of_ne ne]
    change (k.pipe other).isOpen end_ = true ↔ _
    rw [pipes.ends other end_ ⟨g, any, old⟩]
    simp only [dropped_isEnd]
    constructor
    · rintro ⟨h, held⟩
      refine ⟨h, ?_, held⟩
      rintro rfl
      exact ne (held.2.1.symm.trans isEnd.2.1)
    · rintro ⟨h, _, held⟩
      exact ⟨h, held⟩
  have piped : ∀ other ≠ page, (k.dropped f).Piped other ↔ k.Piped other := by
    intro other ne
    simp only [Piped, dropped_isEnd]
    constructor
    · rintro ⟨g, end_, _, is⟩
      exact ⟨g, end_, is⟩
    · rintro ⟨g, end_, is⟩
      refine ⟨g, end_, ?_, is⟩
      rintro rfl
      exact ne (is.2.1.symm.trans isEnd.2.1)
  have single : ∀ g h other end_, (k.dropped f).IsEnd g other end_ → (k.dropped f).IsEnd h other end_ → g = h := by
    intro g h other end_ first second
    exact pipes.single g h other end_ ((dropped_isEnd ..).mp first).2 ((dropped_isEnd ..).mp second).2
  have shutEnds : ∀ other end_, (k.dropped f).Piped other →
      ((((k.dropped f).shut page writable).pipe other).isOpen end_ = true ↔ ∃ g, (k.dropped f).IsEnd g other end_) := by
    intro other end_ now
    by_cases here : other = page
    · rw [here]
      exact open_ end_
    · exact elsewhere other here end_ now
  rw [FileM.pipeclose, wp_bind, wp_modify, wp_bind, wp_get]
  change wp (if (((k.dropped f).shut page writable).pipe page).readopen = false ∧
    (((k.dropped f).shut page writable).pipe page).writeopen = false then _ else _) _ _ _
  split
  case isTrue closed =>
    have unpiped : ¬(k.dropped f).Piped page := by
      rintro ⟨g, end_, is⟩
      have opened := (open_ end_).mpr ⟨g, is⟩
      rw [Pipe.isOpen, closed.1, closed.2, ite_self] at opened
      cases opened
    rw [wp_bind, FileM.kfree, wp_modify, wp_modify]
    refine ⟨⟨single, shutEnds, ?_, ?_, ?_, ?_⟩, rfl, rfl, rfl, rfl⟩
    · intro other now
      have ne : other ≠ page := by
        rintro rfl
        exact unpiped now
      obtain ⟨free, foreign⟩ := pipes.apart other ((piped other ne).mp now)
      refine ⟨?_, foreign⟩
      rw [mem_cons, not_or]
      exact ⟨ne, free⟩
    · rw [cons_append, nodup_cons, mem_append, not_or]
      exact ⟨⟨notFree, notOther⟩, pipes.distinct⟩
    · intro other now
      have ne : other ≠ page := by
        rintro rfl
        exact unpiped now
      rw [count_cons_of_ne ne.symm]
      exact pipes.used other ((piped other ne).mp now)
    · intro other now
      by_cases here : other = page
      · rw [here, count_cons_self]
        exact pipes.used page before
      · rw [count_cons_of_ne fun same => here same.symm]
        exact pipes.returned other fun old => now ((piped other here).mpr old)
  case isFalse opened =>
    have still : (k.dropped f).Piped page := by
      by_contra unpiped
      apply opened
      have closed : ∀ end_, (((k.dropped f).shut page writable).pipe page).isOpen end_ ≠ true := by
        intro end_ now
        obtain ⟨g, is⟩ := (open_ end_).mp now
        exact unpiped ⟨g, end_, is⟩
      exact ⟨Bool.eq_false_iff.mpr (closed false), Bool.eq_false_iff.mpr (closed true)⟩
    have every : ∀ other, (k.dropped f).Piped other ↔ k.Piped other := by
      intro other
      by_cases here : other = page
      · rw [here]
        exact iff_of_true still before
      · exact piped other here
    rw [wp_pure]
    refine ⟨⟨single, shutEnds, ?_, pipes.distinct, ?_, ?_⟩, rfl, rfl, rfl, rfl⟩
    · intro other now
      exact pipes.apart other ((every other).mp now)
    · intro other now
      exact pipes.used other ((every other).mp now)
    · intro other unpiped
      exact pipes.returned other fun old => unpiped ((every other).mpr old)

/-- Another part of the kernel takes a page or frees one of its own. -/
theorem Pipes.takePage (pipes : k.Pipes) (ran : k.takePage = .ok next) : next.Pipes := by
  rw [FileKernel.takePage] at ran
  split at ran
  · cases ran
  case h_2 page rest free =>
    cases ran
    have distinct := pipes.distinct
    rw [free] at distinct
    refine ⟨pipes.single, pipes.ends, ?_, ?_, pipes.used, pipes.returned⟩
    · intro other now
      obtain ⟨notFree, notOther⟩ := pipes.apart other now
      rw [free, mem_cons, not_or] at notFree
      exact ⟨notFree.2, by simp [notFree.1, notOther]⟩
    · exact (perm_middle.nodup_iff).mpr distinct

theorem Pipes.givePage (pipes : k.Pipes) (ran : k.givePage page = .ok next) : next.Pipes := by
  rw [FileKernel.givePage] at ran
  split at ran
  case isTrue member =>
    cases ran
    have distinct := pipes.distinct
    refine ⟨pipes.single, pipes.ends, ?_, ?_, pipes.used, pipes.returned⟩
    · intro other now
      obtain ⟨notFree, notOther⟩ := pipes.apart other now
      have ne : other ≠ page := by
        rintro rfl
        exact notOther member
      exact ⟨by simp [ne, notFree], fun still => notOther (mem_of_mem_erase still)⟩
    · have back : (page :: (k.freelist ++ k.others.erase page)).Perm (k.freelist ++ k.others) :=
        perm_middle.symm.trans ((perm_cons_erase member).symm.append_left k.freelist)
      exact back.nodup_iff.mpr distinct
  · cases ran

end Pipes
end FileKernel
end Xv6
