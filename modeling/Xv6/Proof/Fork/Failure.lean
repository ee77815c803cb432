import Xv6.Construction.Fork
import Xv6.Proof.Vm.Copy

namespace Xv6
open Library List Function Machine
variable {kernel k : Kernel}

namespace Machine

/-- The slot that `allocproc` takes. -/
def firstUnused (machine : Machine) : Option (Fin NPROC) :=
  (List.finRange NPROC).find? fun p => (machine.table.proc p).state = .unused

/-- The number of pages of the process that `fork` copies. -/
def pages (machine : Machine) (proc : Fin NPROC) : Nat := copiedPages ((machine.proc proc).sz.setWidth 32)

/-- The state after `fork` has given the slot back. -/
def returned (machine : Machine) (np : Fin NPROC) (kernel : Kernel) (image : ProcImage) : Machine :=
  (((machine.withTable (machine.table.take np)).withKernel kernel).setProc np image).setState np .unused

end Machine

/-- A running process has a page table with all of its pages. -/
structure ForkReady (machine : Machine) (proc : Fin NPROC) (theirs : List Nat → Option Nat) : Prop where
  heap : Heap machine.kernel
  old : Table 4 machine.kernel (machine.proc proc).pgdir theirs
  running : (machine.table.proc proc).state = .running
  present : ∀ page, 1 ≤ page → page < topPage (((machine.proc proc).sz.setWidth 32).setWidth 64) →
    theirs (pagePath page) ≠ none

/-- The free pages, the slots, the reference counts and the memory of the parent are as before. -/
structure Unchanged (machine : Machine) (proc : Fin NPROC) (theirs : List Nat → Option Nat) (after : Machine) :
    Prop where
  free : ∀ frame, frame ∈ after.kernel.freelist ↔ frame ∈ machine.kernel.freelist
  state : ∀ p, (after.table.proc p).state = (machine.table.proc p).state
  pid : ∀ p, (after.table.proc p).pid = (machine.table.proc p).pid
  killed : ∀ p, (after.table.proc p).killed = (machine.table.proc p).killed
  files : ∀ f, (after.file f).ref = (machine.file f).ref
  inodes : ∀ ip, after.inodeRef ip = machine.inodeRef ip
  parent : after.proc proc = machine.proc proc
  memory : ∀ path frame, theirs path = some frame → after.kernel.memory frame = machine.kernel.memory frame

section Fork
variable {machine m : Machine} {proc np : Fin NPROC} {theirs : List Nat → Option Nat}

theorem allocproc_of_firstUnused (first : m.firstUnused = some np) :
    m.table.allocproc = some (np, m.table.take np) := by
  rw [firstUnused] at first
  rw [Ptable.allocproc, first]

theorem allocproc_of_full (full : m.firstUnused = none) : m.table.allocproc = none := by
  rw [firstUnused] at full
  rw [Ptable.allocproc, full]

theorem firstUnused_state (first : m.firstUnused = some np) : (m.table.proc np).state = .unused := by
  have found := find?_some first
  simpa using found

theorem ForkReady.ne (ready : ForkReady m proc theirs) (first : m.firstUnused = some np) : proc ≠ np := by
  rintro rfl
  have state := firstUnused_state first
  rw [ready.running] at state
  cases state

theorem Unchanged.refl (m : Machine) (proc : Fin NPROC) (theirs : List Nat → Option Nat) : Unchanged m proc theirs m :=
  ⟨fun _ => .rfl, fun _ => rfl, fun _ => rfl, fun _ => rfl, fun _ => rfl, fun _ => rfl, rfl, fun _ _ _ => rfl⟩

theorem returned_proc (k : Kernel) (image : ProcImage) (p : Fin NPROC) : (m.returned np k image).table.proc p =
      if p = np then {m.table.proc np with state := .unused, pid := m.table.nextpid}
      else m.table.proc p := by
  by_cases same : p = np
  · subst same
    simp [returned, setState, withTable, withKernel, setProc,
      Ptable.setState, Ptable.set, Ptable.take]
  · simp [returned, setState, withTable, withKernel, setProc,
      Ptable.setState, Ptable.set, Ptable.take, same]

/-- After the slot is given back, the state is unchanged exactly when the free pages are and the slot had the next
number before. -/
theorem ForkReady.unchanged_iff (ready : ForkReady m proc theirs) (first : m.firstUnused = some np) (k : Kernel)
    (image : ProcImage) (memory : ∀ path frame, theirs path = some frame → k.memory frame = m.kernel.memory frame) :
    Unchanged m proc theirs (m.returned np k image) ↔ (m.table.proc np).pid = m.table.nextpid ∧
        ∀ frame, frame ∈ k.freelist ↔ frame ∈ m.kernel.freelist := by
  have vacant := firstUnused_state first
  constructor
  · intro unchanged
    have pid := unchanged.pid np
    rw [returned_proc, if_pos rfl] at pid
    exact ⟨pid.symm, unchanged.free⟩
  · rintro ⟨pid, free⟩
    have slot : ∀ p, (m.returned np k image).table.proc p = m.table.proc p := by
      intro p
      rw [returned_proc]
      split
      · rename_i same
        rw [same, ← pid, ← vacant]
      · rfl
    have other := update_of_ne (ready.ne first) image m.proc
    exact ⟨free, fun p => congrArg _ (slot p), fun p => congrArg _ (slot p), fun p => congrArg _ (slot p),
      fun _ => rfl, fun _ => rfl, other, memory⟩

theorem fork_full (full : m.firstUnused = none) : m.fork proc = .ok (-1, m) := by
  rw [fork, allocproc, allocproc_of_full full]
  rfl

theorem kalloc_nil (free : k.freelist = []) : k.kalloc = none := by
  rw [Kernel.kalloc, free]

theorem kalloc_cons {frame : Nat} {rest : List Nat} (free : k.freelist = frame :: rest) :
    k.kalloc = some (frame, {k with freelist := rest}) := by
  rw [Kernel.kalloc, free]

/-- Without a page for the kernel stack the slot is given back. -/
theorem fork_stackless (first : m.firstUnused = some np) (free : m.kernel.freelist = []) :
    m.fork proc = .ok (-1, m.returned np m.kernel {m.proc np with kstack := 0}) := by
  have exhausted : (m.withTable (m.table.take np)).kernel.kalloc = none := kalloc_nil free
  rw [fork, allocproc, allocproc_of_firstUnused first]
  dsimp only
  rw [exhausted]
  rfl

section Stack
variable {stack : Nat} {rest : List Nat} {halt : VmHalt} {copied last : Kernel}

/-- The memory after `allocproc` has initialized the kernel stack. -/
def Machine.stacked (machine : Machine) (stack : Nat) (rest : List Nat) : Kernel :=
  machine.kernel.fillPage stack rest
    (initStack machine.syscallTrapret machine.forkret (machine.kernel.memory stack))

/-- The process table and the memory after `allocproc`. -/
def Machine.allocated (machine : Machine) (np : Fin NPROC) (stack : Nat) (rest : List Nat) : Machine :=
  ((machine.withTable (machine.table.take np)).withKernel (machine.stacked stack rest)).setKstack np stack

theorem allocproc_stacked (ready : ForkReady m proc theirs) (first : m.firstUnused = some np)
    (free : m.kernel.freelist = stack :: rest) : m.allocproc = .ok (some np, m.allocated np stack rest) := by
  have taken : (m.withTable (m.table.take np)).kernel.kalloc =
      some (stack, {m.kernel with freelist := rest}) := kalloc_cons free
  have listed : stack ∈ m.kernel.freelist := by
    rw [free]
    exact .head _
  rw [allocproc, allocproc_of_firstUnused first]
  dsimp only
  rw [taken]
  dsimp only
  rw [storePage_ok (ready.heap.free stack listed).directMapped]
  rfl

theorem copyImage_halted (copy : m.kernel.copyuvm (m.proc proc).pgdir ((m.proc proc).sz.setWidth 32) = .error halt) :
    m.copyImage proc np = .error (.vm halt) := by
  rw [copyImage, copy]
  rfl

theorem copyImage_failed
    (copy : m.kernel.copyuvm (m.proc proc).pgdir ((m.proc proc).sz.setWidth 32) = .ok (none, copied))
    (freed : copied.kfree (m.proc np).kstack = .ok last) :
    m.copyImage proc np = .ok (-1, ((m.withKernel last).setProc np
      {m.proc np with pgdir := 0, kstack := 0}).setState np .unused) := by
  rw [copyImage, copy]
  change (copied.kfree (m.proc np).kstack).mapError ForkHalt.vm >>= _ = _
  rw [freed]
  rfl

theorem fork_allocated (ready : ForkReady m proc theirs) (first : m.firstUnused = some np)
    (free : m.kernel.freelist = stack :: rest) : m.fork proc = (m.allocated np stack rest).copyImage proc np := by
  rw [fork, allocproc_stacked ready first free]
  rfl

/-- The copy reads the image of the parent. -/
theorem ForkReady.allocated_parent (ready : ForkReady m proc theirs) (first : m.firstUnused = some np)
    (stack : Nat) (rest : List Nat) : (m.allocated np stack rest).proc proc = m.proc proc :=
  update_of_ne (ready.ne first) _ _

theorem allocated_kstack (stack : Nat) (rest : List Nat) :
    (m.allocated np stack rest).proc np = {m.proc np with kstack := stack} :=
  update_self _ _ _

variable (ready : ForkReady m proc theirs)
include ready

variable (first : m.firstUnused = some np)
include first

theorem fork_halted (free : m.kernel.freelist = stack :: rest)
    (copy : (m.stacked stack rest).copyuvm (m.proc proc).pgdir ((m.proc proc).sz.setWidth 32) = .error halt) :
    m.fork proc = .error (.vm halt) := by
  rw [fork_allocated ready first free]
  refine copyImage_halted ?_
  rw [ready.allocated_parent first]
  exact copy

theorem fork_failed (free : m.kernel.freelist = stack :: rest)
    (copy : (m.stacked stack rest).copyuvm (m.proc proc).pgdir ((m.proc proc).sz.setWidth 32) =
      .ok (none, copied)) (freed : copied.kfree stack = .ok last) :
    m.fork proc = .ok (-1, m.returned np last {m.proc np with pgdir := 0, kstack := 0}) := by
  have parent := ready.allocated_parent first stack rest
  have own : (m.allocated np stack rest).proc np = _ := allocated_kstack stack rest
  rw [fork_allocated ready first free, copyImage_failed (by rw [parent]; exact copy) (by rw [own]; exact freed), own]
  simp only [allocated, returned, setKstack, setProc, withKernel,
    withTable, update_idem]

/-- When memory runs out during the copy, the parent keeps its memory and the free pages are those of the copy and
the kernel stack. -/
theorem ForkReady.copy_short (free : m.kernel.freelist = stack :: rest)
    (some_free : rest ≠ []) (few : rest.length < 1 + growCost 1 (m.pages proc)) :
    ∃ last, m.fork proc = .ok (-1, m.returned np last {m.proc np with pgdir := 0, kstack := 0}) ∧
      (∀ path frame, theirs path = some frame → last.memory frame = m.kernel.memory frame) ∧
      ((∀ frame, frame ∈ last.freelist ↔ frame ∈ m.kernel.freelist) ↔
        ∃ count < m.pages proc, rest.length = 1 + growCost 1 count) := by
  have taken : Filled _ _ _ _ (m.stacked stack rest) := ready.old.fill ready.heap free _
  obtain ⟨copied, copy, undone, whole⟩ := copyuvm_short taken.heap taken.space ready.present some_free few
  have absent : stack ∉ rest := fun listed => taken.unowned (.inl listed)
  have allocatable : copied.Allocatable stack := by
    rw [Kernel.Allocatable, undone.kend]
    exact taken.allocatable
  obtain ⟨last, ran, freed⟩ := Freed.kfree undone.heap allocatable fun listed => absent (undone.freelist listed)
  refine ⟨last, fork_failed ready first free copy ran, ?_, Iff.trans ?_ whole⟩
  · intro path frame found
    have ne : frame ≠ stack := by
      rintro rfl
      exact taken.unowned (.inr ⟨path, found⟩)
    obtain ⟨valid, used⟩ := taken.space.frames found
    rw [freed.memory frame ne, undone.memory frame used valid]
    exact setPage_memory_ne ne _
  · rw [free]
    constructor
    · intro same frame listed
      have again := (freed.freelist frame).mp ((same frame).mpr (mem_cons_of_mem stack listed))
      refine again.resolve_right ?_
      rintro rfl
      exact absent listed
    · intro subset frame
      rw [freed.freelist, mem_cons, or_comm]
      exact or_congr_right ⟨fun listed => undone.freelist listed, fun listed => subset listed⟩

end Stack

/-- When the free pages do not suffice for the kernel stack, the top table and the copy, `fork` fails without a trace
exactly when no slot is unused, or when the slot has the next number already and memory runs out at the kernel stack
or at a page of the user. -/
theorem fork_unchanged_iff (ready : ForkReady machine proc theirs)
    (short : machine.kernel.freelist.length < 2 + growCost 1 (machine.pages proc)) :
    (∃ after, machine.fork proc = .ok (-1, after) ∧ Unchanged machine proc theirs after) ↔
      ∀ np, machine.firstUnused = some np → (machine.table.proc np).pid = machine.table.nextpid ∧
        (machine.kernel.freelist = [] ∨
          ∃ count < machine.pages proc, machine.kernel.freelist.length = 2 + growCost 1 count) := by
  cases first : machine.firstUnused with
  | none =>
    refine iff_of_true ⟨machine, fork_full first, .refl machine proc theirs⟩ ?_
    intro np found
    cases found
  | some np =>
    simp only [Option.some.injEq, forall_eq']
    have settle : ∀ {kernel image}, machine.fork proc = .ok (-1, machine.returned np kernel image) →
        ((∃ after, machine.fork proc = .ok (-1, after) ∧ Unchanged machine proc theirs after) ↔
          Unchanged machine proc theirs (machine.returned np kernel image)) := by
      intro kernel image ran
      constructor
      · rintro ⟨after, again, unchanged⟩
        obtain rfl := congrArg Prod.snd (Except.ok.inj (ran.symm.trans again))
        exact unchanged
      · intro unchanged
        exact ⟨_, ran, unchanged⟩
    cases free : machine.kernel.freelist with
    | nil =>
      rw [settle (fork_stackless first free), ready.unchanged_iff first _ _ fun _ _ _ => rfl]
      simp
    | cons stack rest =>
      rw [free, length_cons] at short
      cases tail : rest with
      | nil =>
        have fault : machine.fork proc = .error (.vm .fault) := by
          refine fork_halted ready first free ?_
          rw [Kernel.copyuvm, setupkvm_exhausted tail]
          rfl
        refine iff_of_false ?_ ?_
        · rintro ⟨after, ran, _⟩
          rw [fault] at ran
          cases ran
        · rintro ⟨_, empty | ⟨count, _, same⟩⟩
          · cases empty
          · rw [length_singleton] at same
            omega
      | cons second others =>
        obtain ⟨last, ran, memory, whole⟩ := ready.copy_short first free (by rw [tail]; simp) (by omega)
        rw [settle ran, ready.unchanged_iff first _ _ memory, whole, ← tail]
        refine and_congr_right fun _ => ?_
        constructor
        · rintro ⟨count, below, same⟩
          exact .inr ⟨count, below, by rw [length_cons]; omega⟩
        · rintro (empty | ⟨count, below, same⟩)
          · cases empty
          · rw [length_cons] at same
            exact ⟨count, below, by omega⟩

end Fork

/-- The flags of the entries of a page table. -/
def tableFlags : BitVec 64 := PTE_P ||| PTE_W ||| PTE_U

/-- One user page is mapped as page 1 of a process. -/
def onePageKernel (free : Nat) : Kernel :=
  ((((blankKernel free).setEntry 0x600 0 (pteOf 0x601 tableFlags)).setEntry 0x601 0 (pteOf 0x602 tableFlags)).setEntry
    0x602 0 (pteOf 0x603 tableFlags)).setEntry 0x603 1 (pteOf 0x604 tableFlags)

def onePageTree : List Nat → Option Nat :=
  Function.update (Function.update (Function.update (Function.update (rootTree 0x600) ([] ++ [0]) (some 0x601))
    ([0] ++ [0]) (some 0x602)) ([0, 0] ++ [0]) (some 0x603)) ([0, 0, 0] ++ [1]) (some 0x604)

def firstProc : Fin NPROC := ⟨0, NPROC_pos⟩
def secondProc : Fin NPROC := ⟨1, one_lt_NPROC⟩

/-- The first process runs, and the next slot has a number from its last use. -/
def onePageMachine (free : Nat) (pid : BitVec 32) : Machine where
  kernel := onePageKernel free
  table := ⟨Function.update (Function.update (fun _ => .zero) firstProc
    {ProcSlot.zero with state := .running, pid := 1}) secondProc {ProcSlot.zero with pid}, 2⟩
  proc _ := ⟨0x605, 0x600, 0x2000, some ⟨0, NINODE_pos⟩, []⟩
  file _ := .zero
  ofile _ _ := none
  inodeRef _ := 1
  syscallTrapret := 0
  forkret := 0

theorem Table.linkOne {root table : Nat} {tree : List Nat → Option Nat} (path : List Nat) (index page : Nat)
    (space : Table 4 k root tree) (here : tree path = some table) (deep : path.length < 4)
    (inside : index < levelWidth path.length) (vacant : tree (path ++ [index]) = none)
    (allocatable : k.Allocatable page) (unowned : ¬Owned k tree page) (cleared : k.memory page = 0) :
    Table 4 (k.setEntry table index (pteOf page tableFlags)) root
      (update tree (path ++ [index]) (some page)) :=
  space.link here deep inside vacant allocatable unowned (fun _ => cleared) (by decide) (by decide)

theorem blankKernel_unowned {free page : Nat} (used : page ∉ (blankKernel free).freelist) (other : page ≠ 0x600) :
    ¬Owned (blankKernel free) (rootTree 0x600) page := by
  rintro (listed | ⟨path, found⟩)
  · exact used listed
  · exact other (rootTree_some found).2

theorem onePage_table : Table 4 (onePageKernel 2) 0x600 onePageTree := by
  have top : Table 4 (blankKernel 2) 0x600 (rootTree 0x600) :=
    rootTree_table (by decide) (by decide) fun index _ => slot_zero 64 index
  have apart : ∀ page ∈ [0x601, 0x602, 0x603, 0x604], ¬Owned (blankKernel 2) (rootTree 0x600) page := by
    intro page member
    refine blankKernel_unowned ?_ ?_
    all_goals
      revert page
      decide
  have second := Table.linkOne [] 0 0x601 top rfl (by decide) (by decide) rfl (by decide) (apart _ (by decide)) rfl
  have third := Table.linkOne [0] 0 0x602 second rfl (by decide) (by decide) rfl (by decide)
    (by rw [owned_link rfl, not_or]; exact ⟨by decide, apart _ (by decide)⟩) (setPage_memory_ne (by decide) _)
  have fourth := Table.linkOne [0, 0] 0 0x603 third rfl (by decide) (by decide) rfl (by decide)
    (by rw [owned_link rfl, owned_link rfl, not_or, not_or]; exact ⟨by decide, by decide, apart _ (by decide)⟩)
    ((setPage_memory_ne (by decide) _).trans (setPage_memory_ne (by decide) _))
  exact .linkOne [0, 0, 0] 1 0x604 fourth rfl (by decide) (by decide) rfl (by decide)
    (by rw [owned_link rfl, owned_link rfl, owned_link rfl, not_or, not_or, not_or]
        exact ⟨by decide, by decide, by decide, apart _ (by decide)⟩)
    ((setPage_memory_ne (by decide) _).trans ((setPage_memory_ne (by decide) _).trans (setPage_memory_ne (by decide) _)))

theorem onePageMachine_ready : ForkReady (onePageMachine 2 2) firstProc onePageTree where
  heap := ⟨by decide, by decide, by decide⟩
  old := onePage_table
  running := rfl
  present := by
    intro page one below
    have top : topPage (BitVec.setWidth 64 (BitVec.setWidth 32 ((onePageMachine 2 2).proc firstProc).sz)) = 2 := by decide
    obtain rfl : page = 1 := by omega
    exact Option.some_ne_none 0x604

/-- With two free pages the copy of the first user page has no memory, and nothing changes when the number of the slot
is the next one. -/
theorem fork_unchanged_iff_two_pages :
    ∃ after, (onePageMachine 2 2).fork firstProc = .ok (-1, after) ∧
      Unchanged (onePageMachine 2 2) firstProc onePageTree after := by
  refine (fork_unchanged_iff onePageMachine_ready (by decide)).mpr ?_
  intro np first
  have found : (onePageMachine 2 2).firstUnused = some secondProc := by decide
  obtain rfl := Option.some.inj (found.symm.trans first)
  exact ⟨rfl, .inr ⟨0, by decide, rfl⟩⟩

/-- The result, the free pages and the number of the second slot after a call. -/
def forkView (machine : Machine) : Except ForkHalt (BitVec 32 × List Nat × BitVec 32) :=
  (machine.fork firstProc).map fun result =>
    (result.1, result.2.kernel.freelist, (result.2.table.proc secondProc).pid)

theorem forkView_unchanged {m : Machine} {theirs : List Nat → Option Nat}
    (clean : ∃ after, m.fork firstProc = .ok (-1, after) ∧ Unchanged m firstProc theirs after) :
    ∃ freelist, forkView m = .ok (-1, freelist, (m.table.proc secondProc).pid) ∧
      ∀ frame, frame ∈ freelist ↔ frame ∈ m.kernel.freelist := by
  obtain ⟨after, ran, unchanged⟩ := clean
  refine ⟨after.kernel.freelist, ?_, unchanged.free⟩
  rw [forkView, ran, ← unchanged.pid]
  rfl

/-- Without a free page the slot gets a new number. With one free page the kernel stores through a null pointer. With
three free pages one page is lost. -/
theorem fork_leaves_traces :
    (forkView (onePageMachine 0 0) = .ok (-1, [], 2) ∧ forkView (onePageMachine 1 2) = .error (.vm .fault) ∧
      forkView (onePageMachine 3 2) = .ok (-1, [0x1000, 0x1001], 2)) ∧
    ∀ machine ∈ [onePageMachine 0 0, onePageMachine 1 2, onePageMachine 3 2], ∀ theirs,
      ¬∃ after, machine.fork firstProc = .ok (-1, after) ∧ Unchanged machine firstProc theirs after := by
  have stackless : forkView (onePageMachine 0 0) = .ok (-1, [], 2) := by decide +kernel
  have fault : forkView (onePageMachine 1 2) = .error (.vm .fault) := by decide +kernel
  have lost : forkView (onePageMachine 3 2) = .ok (-1, [0x1000, 0x1001], 2) := by decide +kernel
  refine ⟨⟨stackless, fault, lost⟩, ?_⟩
  intro machine member theirs clean
  obtain ⟨freelist, view, same⟩ := forkView_unchanged clean
  simp only [mem_cons, not_mem_nil, or_false] at member
  rcases member with rfl | rfl | rfl
  · rw [stackless] at view
    have pid : (2 : BitVec 32) = ((onePageMachine 0 0).table.proc secondProc).pid :=
      congrArg (fun triple => triple.2.2) (Except.ok.inj view)
    exact absurd pid (by decide)
  · rw [fault] at view
    cases view
  · rw [lost] at view
    obtain rfl : [0x1000, 0x1001] = freelist := congrArg (fun triple => triple.2.1) (Except.ok.inj view)
    exact absurd ((same 0x1002).mpr (by decide)) (by decide)

end Xv6
