import Xv6.Construction.Cpu
import Xv6.Proof.Proc.Steps

namespace Xv6
open Library Function Ptable
variable {state : ProcState}

/-- A slot in one of these states belongs to a process that has a stack and a page table. -/
def ProcState.Live : ProcState → Prop
  | .unused | .embryo => False
  | .sleeping | .runnable | .running | .zombie => True

/-- A scheduler may choose such a process, now or after a wakeup. -/
def ProcState.Waits : ProcState → Prop
  | .sleeping | .runnable => True
  | .unused | .embryo | .running | .zombie => False

theorem ProcState.Waits.live (waits : state.Waits) : state.Live := by
  cases state <;> trivial

/-- The changes of the state of one process by another process with `ptable.lock`. -/
inductive ProcState.Stirs : ProcState → ProcState → Prop where
  | same {state : ProcState} : Stirs state state
  | woken : Stirs .sleeping .runnable
  | reaped : Stirs .zombie .unused
  | taken : Stirs .unused .embryo

namespace ProcState.Stirs
variable {before after : ProcState} (stirs : before.Stirs after)
include stirs

theorem running_after (runs : before = .running) : after = .running := by
  cases stirs <;> first | exact runs | cases runs

theorem running_before (runs : after = .running) : before = .running := by
  cases stirs <;> first | exact runs | cases runs

theorem embryo_after (embryo : before = .embryo) : after = .embryo := by
  cases stirs <;> first | exact embryo | cases embryo

theorem waits_before (waits : after.Waits) : before.Waits := by
  cases stirs <;> exact waits

theorem live_before (live : after.Live) : before.Live := by
  cases stirs <;> first | exact live | cases live

end ProcState.Stirs

/-- The stages at which a process holds `ptable.lock`. -/
def SchedStage.Holds : SchedStage → Prop
  | .entered _ | .switching _ | .resumed _ | .releasing => True
  | .free | .parked _ => False

/-- A process on a processor is running until it has changed its state before `swtch`. -/
def SchedStage.Fits : SchedStage → ProcState → Prop
  | .free, state | .entered _, state | .resumed _, state | .releasing, state => state = .running
  | .switching _, state => state.Live ∧ state ≠ .running
  | .parked _, _ => False

theorem SchedStage.Fits.live {stage : SchedStage} (fits : stage.Fits state) : state.Live := by
  cases stage <;> first | exact fits.1 | (cases fits; trivial) | cases fits

/-- The slot that a process fills in `fork`. -/
def ForkWork.slot : ForkWork → Option (Fin NPROC)
  | .none => Option.none
  | .stacking np | .copying np | .starting np => some np

/-- The new process that already has a stack. -/
def ForkWork.stacked : ForkWork → Option (Fin NPROC)
  | .none | .stacking _ => Option.none
  | .copying np | .starting np => some np

/-- The new process that already has a page table. -/
def ForkWork.copied : ForkWork → Option (Fin NPROC)
  | .none | .stacking _ | .copying _ => Option.none
  | .starting np => some np

theorem ForkWork.slot_of_stacked {work : ForkWork} {np : Fin NPROC} (stacked : work.stacked = some np) :
    work.slot = some np := by
  cases work <;> first | exact stacked | cases stacked

theorem ForkWork.stacked_of_copied {work : ForkWork} {np : Fin NPROC} (copied : work.copied = some np) :
    work.stacked = some np := by
  cases work <;> first | exact copied | cases copied

namespace CpuSystem
open ForkWork (slot_of_stacked stacked_of_copied)
variable {C : Type} {system s next : CpuSystem C} {c d : C} {p q np : Fin NPROC} {cpu : Cpu} {frame stack : Nat}
  {table : Ptable} {child : Fin NPROC}

def stage (system : CpuSystem C) (p : Fin NPROC) : SchedStage := (system.thread p).stage

def work (system : CpuSystem C) (p : Fin NPROC) : ForkWork := (system.thread p).work

/-- The process has a saved context. -/
def Parked (system : CpuSystem C) (p : Fin NPROC) : Prop := ∃ back, system.stage p = .parked back

/-- The registers of a processor fit its place and its process. -/
inductive Shape (system : CpuSystem C) : Cpu → Prop where
  | idle : Shape system ⟨none, none, none, .idle⟩
  | scanning {index : Nat} : Shape system ⟨none, none, none, .scanning index⟩
  | chosen {p : Fin NPROC} (ready : system.state p = .runnable) (parked : system.Parked p) :
      Shape system ⟨some p, none, none, .chosen p⟩
  | loaded {p : Fin NPROC} (ready : system.state p = .runnable) (parked : system.Parked p) :
      Shape system ⟨some p, system.pgdir p, none, .loaded p⟩
  | marked {p : Fin NPROC} (runs : system.state p = .running) (parked : system.Parked p) :
      Shape system ⟨some p, system.pgdir p, none, .marked p⟩
  | running {p : Fin NPROC} (fits : (system.stage p).Fits (system.state p)) :
      Shape system ⟨some p, system.pgdir p, system.kstack p, .running p⟩
  | returned {p : Fin NPROC} (live : (system.state p).Live) (stopped : system.state p ≠ .running) :
      Shape system ⟨some p, system.pgdir p, none, .returned p⟩
  | unloaded {p : Fin NPROC} (live : (system.state p).Live) (stopped : system.state p ≠ .running) :
      Shape system ⟨some p, none, none, .unloaded p⟩

/-- A processor at such a place holds `ptable.lock`. -/
def Holds (system : CpuSystem C) (cpu : Cpu) : Prop :=
  match cpu.place with
  | .idle => False
  | .running p => (system.stage p).Holds
  | _ => True

/-- A step does not change what a processor depends on. -/
structure Keeps (system next : CpuSystem C) (q : Fin NPROC) : Prop where
  state : next.state q = system.state q
  kstack : next.kstack q = system.kstack q
  pgdir : next.pgdir q = system.pgdir q
  stage : next.stage q = system.stage q

theorem Shape.live (shape : s.Shape cpu) (current : cpu.proc = some q) : (s.state q).Live := by
  cases shape <;> cases current
  case chosen ready _ => exact ready ▸ trivial
  case loaded ready _ => exact ready ▸ trivial
  case marked runs _ => exact runs ▸ trivial
  case running fits => exact fits.live
  case returned live _ => exact live
  case unloaded live _ => exact live

theorem Keeps.parked (keeps : s.Keeps next q) (parked : s.Parked q) : next.Parked q := by
  obtain ⟨back, stage⟩ := parked
  exact ⟨back, keeps.stage.trans stage⟩

theorem Shape.keeps (shape : s.Shape cpu) (keeps : ∀ q, cpu.proc = some q → s.Keeps next q) : next.Shape cpu := by
  cases shape with
  | idle => exact .idle
  | scanning => exact .scanning
  | @chosen p ready parked =>
    have kept := keeps p rfl
    exact .chosen (kept.state.trans ready) (kept.parked parked)
  | @loaded p ready parked =>
    have kept := keeps p rfl
    rw [← kept.pgdir]
    exact .loaded (kept.state.trans ready) (kept.parked parked)
  | @marked p runs parked =>
    have kept := keeps p rfl
    rw [← kept.pgdir]
    exact .marked (kept.state.trans runs) (kept.parked parked)
  | @running p fits =>
    have kept := keeps p rfl
    rw [← kept.stage, ← kept.state] at fits
    rw [← kept.pgdir, ← kept.kstack]
    exact .running fits
  | @returned p live stopped =>
    have kept := keeps p rfl
    rw [← kept.state] at live stopped
    rw [← kept.pgdir]
    exact .returned live stopped
  | @unloaded p live stopped =>
    have kept := keeps p rfl
    rw [← kept.state] at live stopped
    exact .unloaded live stopped

theorem Keeps.holds (keeps : ∀ q, cpu.proc = some q → s.Keeps next q) (shape : s.Shape cpu)
    (holds : next.Holds cpu) : s.Holds cpu := by
  cases shape with
  | @running p fits =>
    change (next.stage p).Holds at holds
    rw [(keeps p rfl).stage] at holds
    exact holds
  | _ => exact holds

/-- Every processor fits its process, at most one processor has a process, and only its place decides whether it holds
`ptable.lock`. -/
structure Coherent (system : CpuSystem C) : Prop where
  shape : ∀ c, system.Shape (system.cpu c)
  lock : ∀ c, system.Holds (system.cpu c) → system.lock = some c
  alone : ∀ c d p, (system.cpu c).proc = some p → (system.cpu d).proc = some p → c = d
  running : ∀ p, system.state p = .running → ∃ c, (system.cpu c).proc = some p
  waiting : ∀ p, (system.state p).Waits → system.Parked p ∨ ∃ c, (system.cpu c).place = .running p

/-- A processor without `ptable.lock` runs its process outside of the lock. -/
theorem Coherent.unlocked (coherent : s.Coherent) (other : s.lock ≠ some d) (current : (s.cpu d).proc = some q) :
    (s.cpu d).place = .running q ∧ s.stage q = .free ∧ s.state q = .running := by
  have shape := coherent.shape d
  have lock := coherent.lock d
  generalize s.cpu d = cpu at shape lock current ⊢
  cases shape <;> cases current
  case running fits =>
    cases stage : s.stage q with
    | free =>
      rw [stage] at fits
      exact ⟨rfl, rfl, fits⟩
    | parked back =>
      rw [stage] at fits
      cases fits
    | _ =>
      have holds : s.Holds ⟨some q, s.pgdir q, s.kstack q, .running q⟩ := by
        change (s.stage q).Holds
        rw [stage]
        trivial
      exact absurd (lock holds) other
  all_goals exact absurd (lock trivial) other

/-- While no processor has `ptable.lock`, a process is running exactly if it is the process of one processor. -/
theorem Coherent.running_iff (coherent : s.Coherent) (free : s.lock = none) :
    s.state p = .running ↔ ∃! c, (s.cpu c).proc = some p := by
  constructor
  · intro runs
    obtain ⟨c, current⟩ := coherent.running p runs
    exact ⟨c, current, fun d also => coherent.alone d c p also current⟩
  · rintro ⟨c, current, _⟩
    have other : s.lock ≠ some c := by
      rw [free]
      exact nofun
    exact (coherent.unlocked other current).2.2

theorem Shape.of_running (shape : s.Shape cpu) (here : cpu.place = .running p) :
    cpu = ⟨some p, s.pgdir p, s.kstack p, .running p⟩ ∧ (s.stage p).Fits (s.state p) := by
  cases shape <;> cases here
  case running fits => exact ⟨rfl, fits⟩

/-- A step of a processor while no other one has `ptable.lock`. -/
theorem Coherent.quiet_step (coherent : s.Coherent) (quiet : ∀ d, d ≠ c → s.lock ≠ some d)
    (cpus : ∀ d, d ≠ c → next.cpu d = s.cpu d)
    (frame : ∀ q, s.state q = .running → (s.cpu c).proc ≠ some q → s.Keeps next q)
    (shape : next.Shape (next.cpu c)) (lock : next.Holds (next.cpu c) → next.lock = some c)
    (takes : ∀ q, (next.cpu c).proc = some q → (s.cpu c).proc = some q ∨ s.state q ≠ .running)
    (running : ∀ q, next.state q = .running →
      (next.cpu c).proc = some q ∨ s.state q = .running ∧ (s.cpu c).proc ≠ some q)
    (waiting : ∀ q, (next.state q).Waits → next.Parked q ∨ (next.cpu c).place = .running q ∨
      (s.state q).Waits ∧ next.stage q = s.stage q ∧ (s.cpu c).place ≠ .running q) : next.Coherent := by
  have kept : ∀ d, d ≠ c → ∀ q, (s.cpu d).proc = some q → s.Keeps next q := by
    intro d ne q current
    apply frame q (coherent.unlocked (quiet d ne) current).2.2
    intro also
    exact ne (coherent.alone d c q current also)
  constructor
  · intro d
    by_cases same : d = c
    · rw [same]
      exact shape
    · rw [cpus d same]
      exact (coherent.shape d).keeps (kept d same)
  · intro d holds
    by_cases same : d = c
    · rw [same] at holds ⊢
      exact lock holds
    · rw [cpus d same] at holds
      exact absurd (coherent.lock d (Keeps.holds (kept d same) (coherent.shape d) holds)) (quiet d same)
  · have once : ∀ d q, d ≠ c → (s.cpu d).proc = some q → (next.cpu c).proc ≠ some q := by
      intro d q ne current taken
      rcases takes q taken with before | awake
      · exact ne (coherent.alone d c q current before)
      · exact awake (coherent.unlocked (quiet d ne) current).2.2
    intro d e q first second
    by_cases left : d = c
    · by_cases right : e = c
      · rw [left, right]
      · rw [left] at first
        rw [cpus e right] at second
        exact absurd first (once e q right second)
    · rw [cpus d left] at first
      by_cases right : e = c
      · rw [right] at second
        exact absurd second (once d q left first)
      · rw [cpus e right] at second
        exact coherent.alone d e q first second
  · intro q runs
    rcases running q runs with here | ⟨before, elsewhere⟩
    · exact ⟨c, here⟩
    · obtain ⟨d, current⟩ := coherent.running q before
      have ne : d ≠ c := by
        rintro rfl
        exact elsewhere current
      exact ⟨d, (cpus d ne).symm ▸ current⟩
  · intro q waits
    rcases waiting q waits with parked | here | ⟨before, stage, elsewhere⟩
    · exact .inl parked
    · exact .inr ⟨c, here⟩
    · rcases coherent.waiting q before with ⟨back, parked⟩ | ⟨d, place⟩
      · exact .inl ⟨back, stage.trans parked⟩
      · have ne : d ≠ c := by
          rintro rfl
          exact elsewhere place
        exact .inr ⟨d, (cpus d ne).symm ▸ place⟩

/-- The process of a processor takes a step while no other processor has `ptable.lock`. -/
theorem Coherent.act (coherent : s.Coherent) (here : (s.cpu c).place = .running p)
    (quiet : ∀ d, d ≠ c → s.lock ≠ some d) (cpus : next.cpu = s.cpu) (threads : ∀ q, q ≠ p → next.stage q = s.stage q)
    (stirs : ∀ q, q ≠ p → (s.state q).Stirs (next.state q))
    (kstacks : ∀ q, s.state q = .running → next.kstack q = s.kstack q) (tables : next.pgdir = s.pgdir)
    (own : next.kstack p = s.kstack p) (fits : (next.stage p).Fits (next.state p))
    (lock : (next.stage p).Holds → next.lock = some c) : next.Coherent := by
  obtain ⟨registers, _⟩ := (coherent.shape c).of_running here
  have current : (s.cpu c).proc = some p := by rw [registers]
  have other : ∀ q, (s.cpu c).proc ≠ some q → q ≠ p := by
    rintro q elsewhere rfl
    exact elsewhere current
  apply coherent.quiet_step quiet
  · intro d _
    rw [cpus]
  · intro q runs elsewhere
    have same := (stirs q (other q elsewhere)).running_after runs
    exact ⟨same.trans runs.symm, kstacks q runs, by rw [tables], threads q (other q elsewhere)⟩
  · rw [cpus, registers, ← tables, ← own]
    exact .running fits
  · intro holds
    rw [cpus, registers] at holds
    exact lock holds
  · intro q taken
    rw [cpus] at taken
    exact .inl taken
  · intro q runs
    rw [cpus]
    by_cases same : q = p
    · rw [same]
      exact .inl current
    · refine .inr ⟨(stirs q same).running_before runs, ?_⟩
      rw [current]
      rintro ⟨⟩
      exact same rfl
  · intro q waits
    rw [cpus]
    by_cases same : q = p
    · rw [same]
      exact .inr (.inl here)
    · refine .inr (.inr ⟨(stirs q same).waits_before waits, threads q same, ?_⟩)
      rw [here]
      rintro ⟨⟩
      exact same rfl

/-- A step of `fork` outside of the lock changes only a slot without a process. -/
theorem Coherent.unlocked_step (coherent : s.Coherent) (cpus : next.cpu = s.cpu)
    (lock : next.lock = s.lock) (frame : ∀ q, (s.state q).Live → s.Keeps next q)
    (born : ∀ q, ¬(s.state q).Live → next.state q ≠ .running ∧ ((next.state q).Waits → next.Parked q)) :
    next.Coherent := by
  have kept : ∀ c q, (s.cpu c).proc = some q → s.Keeps next q := by
    intro c q current
    exact frame q ((coherent.shape c).live current)
  constructor
  · intro c
    rw [cpus]
    exact (coherent.shape c).keeps (kept c)
  · intro c holds
    rw [cpus] at holds
    rw [lock]
    exact coherent.lock c (Keeps.holds (kept c) (coherent.shape c) holds)
  · rw [cpus]
    exact coherent.alone
  · intro q runs
    rw [cpus]
    by_cases live : (s.state q).Live
    · rw [(frame q live).state] at runs
      exact coherent.running q runs
    · exact absurd runs (born q live).1
  · intro q waits
    rw [cpus]
    by_cases live : (s.state q).Live
    · have same := frame q live
      rw [same.state] at waits
      rcases coherent.waiting q waits with parked | placed
      · exact .inl (same.parked parked)
      · exact .inr placed
    · exact .inl ((born q live).2 waits)

/-- The frames of the live processes and of the children in `fork` are allocated to them. -/
structure Provisioned (system : CpuSystem C) : Prop where
  stack : ∀ p, (system.state p).Live ∨ (∃ q, (system.work q).stacked = some p) →
    ∃ frame, system.kstack p = some frame ∧ system.kmem frame = some (.stack p)
  table : ∀ p, (system.state p).Live ∨ (∃ q, (system.work q).copied = some p) →
    ∃ frame, system.pgdir p = some frame ∧ system.kmem frame = some (.table p)
  embryo : ∀ q np, (system.work q).slot = some np → system.state np = .embryo
  alone : ∀ q r np, (system.work q).slot = some np → (system.work r).slot = some np → q = r
  context : ∀ q np, (system.work q).stacked = some np → system.Parked np

theorem Coherent.stack_use (coherent : s.Coherent) (provisioned : s.Provisioned) (here : (s.cpu d).stack = some frame) :
    ∃ q, (s.cpu d).proc = some q ∧ s.kmem frame = some (.stack q) := by
  have shape := coherent.shape d
  generalize s.cpu d = cpu at shape here
  cases shape with
  | @running q fits =>
    obtain ⟨own, stored, use⟩ := provisioned.stack q (.inl fits.live)
    rw [stored] at here
    cases here
    exact ⟨q, rfl, use⟩
  | _ => cases here

theorem Coherent.table_use (coherent : s.Coherent) (provisioned : s.Provisioned) (here : (s.cpu d).cr3 = some frame) :
    ∃ q, (s.cpu d).proc = some q ∧ s.kmem frame = some (.table q) := by
  have shape := coherent.shape d
  have loaded : ∃ q, (s.cpu d).proc = some q ∧ s.pgdir q = some frame := by
    generalize s.cpu d = cpu at shape here ⊢
    cases shape <;> first | cases here | exact ⟨_, rfl, here⟩
  obtain ⟨q, current, own⟩ := loaded
  obtain ⟨table, stored, use⟩ := provisioned.table q (.inl (shape.live current))
  rw [stored] at own
  cases own
  exact ⟨q, current, use⟩

structure Sound (system : CpuSystem C) : Prop where
  coherent : system.Coherent
  provisioned : system.Provisioned

/-- A step that moves no frame keeps the provision of the processes that were live before. -/
theorem Provisioned.keep (provisioned : s.Provisioned) (kstack : next.kstack = s.kstack)
    (pgdir : next.pgdir = s.pgdir) (kmem : next.kmem = s.kmem) (works : ∀ q, next.work q = s.work q)
    (live : ∀ q, (next.state q).Live → (s.state q).Live)
    (embryo : ∀ q, s.state q = .embryo → next.state q = .embryo ∧ next.stage q = s.stage q) : next.Provisioned := by
  constructor
  · intro p owns
    rw [kstack, kmem]
    simp only [works] at owns
    exact provisioned.stack p (owns.imp_left (live p))
  · intro p owns
    rw [pgdir, kmem]
    simp only [works] at owns
    exact provisioned.table p (owns.imp_left (live p))
  · intro q np fills
    rw [works] at fills
    exact (embryo np (provisioned.embryo q np fills)).1
  · intro q r np first second
    rw [works] at first second
    exact provisioned.alone q r np first second
  · intro q np stacked
    rw [works] at stacked
    obtain ⟨back, parked⟩ := provisioned.context q np stacked
    exact ⟨back, (embryo np (provisioned.embryo q np (slot_of_stacked stacked))).2.trans parked⟩

@[simp] theorem thread_setThread (s : CpuSystem C) (p : Fin NPROC) (thread : KernelThread) :
    (s.setThread p thread).thread p = thread := update_self ..

theorem thread_setThread_of_ne (s : CpuSystem C) (thread : KernelThread) (ne : q ≠ p) :
    (s.setThread p thread).thread q = s.thread q := update_of_ne ne ..

@[simp] theorem stage_setStage (s : CpuSystem C) (p : Fin NPROC) (stage : SchedStage) :
    (s.setStage p stage).stage p = stage := by
  rw [CpuSystem.stage, setStage, thread_setThread]

theorem stage_setStage_of_ne (s : CpuSystem C) (stage : SchedStage) (ne : q ≠ p) :
    (s.setStage p stage).stage q = s.stage q := by
  rw [CpuSystem.stage, setStage, thread_setThread_of_ne _ _ ne, CpuSystem.stage]

theorem work_setStage (s : CpuSystem C) (p q : Fin NPROC) (stage : SchedStage) :
    (s.setStage p stage).work q = s.work q := by
  by_cases same : q = p
  · rw [same, work, setStage, thread_setThread, work]
  · rw [work, setStage, thread_setThread_of_ne _ _ same, work]

/-- The process of a processor changes the table and the lock and goes to its next stage. -/
theorem Sound.acted (sound : s.Sound) (here : (s.cpu c).place = .running p)
    (quiet : ∀ d, d ≠ c → s.lock ≠ some d) {lock : Option C} {stage : SchedStage}
    (stirs : ∀ q, q ≠ p → (s.state q).Stirs (table.proc q).state) (fits : stage.Fits (table.proc p).state)
    (held : stage.Holds → lock = some c) : (((s.withTable table).withLock lock).setStage p stage).Sound := by
  obtain ⟨registers, before⟩ := (sound.coherent.shape c).of_running here
  constructor
  · apply sound.coherent.act here quiet
    · rfl
    · intro q ne
      exact stage_setStage_of_ne _ _ ne
    · exact stirs
    · intro q _
      rfl
    · rfl
    · rfl
    · rw [stage_setStage]
      exact fits
    · rw [stage_setStage]
      exact held
  · apply sound.provisioned.keep
    · rfl
    · rfl
    · rfl
    · intro q
      exact work_setStage _ p q stage
    · intro q live
      by_cases same : q = p
      · rw [same]
        exact before.live
      · exact (stirs q same).live_before live
    · intro q embryo
      have ne : q ≠ p := by
        rintro rfl
        have live := before.live
        rw [embryo] at live
        exact live
      exact ⟨(stirs q ne).embryo_after embryo, stage_setStage_of_ne _ _ ne⟩

theorem stirs_set {value : ProcSlot} : ∀ q, q ≠ p → (table.proc q).state.Stirs ((table.set p value).proc q).state := by
  intro q ne
  rw [set_of_ne _ ne]
  exact .same

theorem stirs_roused (wakes : Prop) [Decidable wakes] (chan : Chan) (old : ProcSlot) :
    old.state.Stirs (roused wakes chan old).state := by
  rw [roused_state]
  split
  · next woken =>
      rw [woken.2.1]
      exact .woken
  · exact .same

theorem stirs_wakeup1 (chan : Chan) (q : Fin NPROC) :
    (table.proc q).state.Stirs ((table.wakeup1 chan).proc q).state := by
  rw [wakeup1_proc]
  exact stirs_roused True chan _

theorem stirs_kill (pid : BitVec 32) (q : Fin NPROC) :
    (table.proc q).state.Stirs ((table.kill pid).2.proc q).state := by
  rcases (kill_proc pid q).2.2.2 with same | ⟨asleep, awake⟩
  · rw [same]
    exact .same
  · rw [asleep, awake]
    exact .woken

theorem stirs_exit {initproc : Fin NPROC} :
    ∀ q, q ≠ p → (table.proc q).state.Stirs ((table.exit initproc p).proc q).state := by
  intro q ne
  rw [exit_proc, if_neg ne]
  have first := stirs_roused True (parentChan (table.proc p).parent) (table.proc q)
  rw [roused_state]
  split
  · next woken =>
      have asleep : (roused True (parentChan (table.proc p).parent) (table.proc q)).state = .sleeping :=
        woken.2.1
      rw [asleep] at first
      generalize (table.proc q).state = before at first
      cases first
      exact .woken
  · exact first

theorem Coherent.quiet (coherent : s.Coherent) (holds : s.Holds (s.cpu c)) : ∀ d, d ≠ c → s.lock ≠ some d := by
  intro d ne
  rw [coherent.lock c holds]
  rintro ⟨⟩
  exact ne rfl

/-- The function `wait` frees the stack and the page table of a process that no processor uses. -/
theorem Sound.unused (sound : s.Sound) (held : s.lock = some c) (here : (s.cpu c).place = .running p)
    (zombie : s.state child = .zombie) (runs : s.state p = .running) :
    (s.cpu d).stack ≠ s.kstack child ∧ (s.cpu d).cr3 ≠ s.pgdir child := by
  have live : (s.state child).Live := by
    rw [zombie]
    trivial
  have absent : (s.cpu d).proc ≠ some child := by
    intro current
    by_cases same : d = c
    · obtain ⟨registers, _⟩ := (sound.coherent.shape c).of_running here
      rw [same, registers] at current
      cases current
      cases zombie.symm.trans runs
    · have other : s.lock ≠ some d := by
        rw [held]
        rintro ⟨⟩
        exact same rfl
      cases zombie.symm.trans (sound.coherent.unlocked other current).2.2
  constructor
  · obtain ⟨frame, stored, use⟩ := sound.provisioned.stack child (.inl live)
    rw [stored]
    intro loaded
    obtain ⟨q, current, owner⟩ := sound.coherent.stack_use sound.provisioned loaded
    rw [use] at owner
    cases owner
    exact absent current
  · obtain ⟨frame, stored, use⟩ := sound.provisioned.table child (.inl live)
    rw [stored]
    intro loaded
    obtain ⟨q, current, owner⟩ := sound.coherent.table_use sound.provisioned loaded
    rw [use] at owner
    cases owner
    exact absent current

theorem collect_eq {table : Nat} (stored : s.kstack child = some stack) (loaded : s.pgdir child = some table) :
    s.collect child = {s with
      kmem := update (update s.kmem stack none) table none
      kstack := update s.kstack child none
      table := s.table.reap child} := by
  rw [collect, stored, loaded]
  rfl

theorem reap_state (ne : q ≠ child) : ((s.table.reap child).proc q).state = s.state q := by
  rw [reap, set_of_ne _ ne]
  rfl

/-- A step that frees the frames of one slot keeps the frames of the others. -/
theorem kmem_freed {table : Nat} {use : FrameUse} (stacked : s.kmem stack = some (.stack child))
    (loaded : s.kmem table = some (.table child)) (owned : s.kmem frame = some use)
    (other : use ≠ .stack child ∧ use ≠ .table child) :
    update (update s.kmem stack none) table none frame = some use := by
  have first : frame ≠ table := by
    rintro rfl
    rw [owned] at loaded
    exact other.2 (Option.some.inj loaded)
  have second : frame ≠ stack := by
    rintro rfl
    rw [owned] at stacked
    exact other.1 (Option.some.inj stacked)
  rw [update_of_ne first, update_of_ne second, owned]

/-- The function `wait` keeps the system sound when it frees an exited child. -/
theorem Sound.collect (sound : s.Sound) (here : (s.cpu c).place = .running p) (held : s.lock = some c)
    (runs : s.state p = .running) (zombie : s.state child = .zombie) :
    ((s.collect child).setStage p .releasing).Sound := by
  have live : (s.state child).Live := by
    rw [zombie]
    trivial
  have ne : p ≠ child := by
    rintro rfl
    cases runs.symm.trans zombie
  obtain ⟨stack, stored, stacked⟩ := sound.provisioned.stack child (.inl live)
  obtain ⟨table, pointed, loaded⟩ := sound.provisioned.table child (.inl live)
  rw [collect_eq stored pointed]
  have quiet : ∀ d, d ≠ c → s.lock ≠ some d := by
    intro d other
    rw [held]
    rintro ⟨⟩
    exact other rfl
  have survives : ∀ q, ((s.table.reap child).proc q).state.Live → q ≠ child ∧ (s.state q).Live := by
    intro q after
    have other : q ≠ child := by
      rintro rfl
      rw [reap, set_self] at after
      exact after
    rw [reap_state other] at after
    exact ⟨other, after⟩
  have unborn : ∀ q np, (s.work q).slot = some np → np ≠ child := by
    rintro q np fills rfl
    cases zombie.symm.trans (sound.provisioned.embryo q np fills)
  have before {read : ForkWork → Option (Fin NPROC)} (slots : ∀ {work slot}, read work = some slot → work.slot = some slot)
      {q : Fin NPROC} (owns : ((s.table.reap child).proc q).state.Live ∨ ∃ r, read (s.work r) = some q) :
      q ≠ child ∧ ((s.state q).Live ∨ ∃ r, read (s.work r) = some q) := by
    rcases owns with after | ⟨r, fills⟩
    · exact ⟨(survives q after).1, .inl (survives q after).2⟩
    · exact ⟨unborn r q (slots fills), .inr ⟨r, fills⟩⟩
  constructor
  · apply sound.coherent.act here quiet
    · rfl
    · intro q other
      exact stage_setStage_of_ne _ _ other
    · intro q _
      change (s.state q).Stirs ((s.table.reap child).proc q).state
      by_cases same : q = child
      · rw [same, zombie, reap, set_self]
        exact .reaped
      · rw [reap_state same]
        exact .same
    · intro q awake
      have other : q ≠ child := by
        rintro rfl
        cases awake.symm.trans zombie
      exact update_of_ne other ..
    · rfl
    · exact update_of_ne ne ..
    · rw [stage_setStage]
      exact (reap_state ne).trans runs
    · intro _
      exact held
  · constructor
    · intro q owns
      simp only [work_setStage] at owns
      obtain ⟨other, owned⟩ := before slot_of_stacked owns
      obtain ⟨frame, own, use⟩ := sound.provisioned.stack q owned
      refine ⟨frame, (update_of_ne other ..).trans own, kmem_freed stacked loaded use ⟨?_, nofun⟩⟩
      rintro ⟨⟩
      exact other rfl
    · intro q owns
      simp only [work_setStage] at owns
      obtain ⟨other, owned⟩ := before (fun copied => slot_of_stacked (stacked_of_copied copied)) owns
      obtain ⟨frame, own, use⟩ := sound.provisioned.table q owned
      refine ⟨frame, own, kmem_freed stacked loaded use ⟨nofun, ?_⟩⟩
      rintro ⟨⟩
      exact other rfl
    · intro q np fills
      rw [work_setStage] at fills
      exact (reap_state (unborn q np fills)).trans (sound.provisioned.embryo q np fills)
    · intro q r np first second
      rw [work_setStage] at first second
      exact sound.provisioned.alone q r np first second
    · intro q np fills
      rw [work_setStage] at fills
      have other : np ≠ p := by
        rintro rfl
        cases runs.symm.trans (sound.provisioned.embryo q np (slot_of_stacked fills))
      obtain ⟨back, parked⟩ := sound.provisioned.context q np fills
      exact ⟨back, (stage_setStage_of_ne _ _ other).trans parked⟩

/-- A step of a process in `fork` changes only the slot that no other process fills. -/
structure Fills (system next : CpuSystem C) (p np : Fin NPROC) : Prop where
  works : ∀ q, q ≠ p → next.work q = system.work q ∨ next.work q = .none
  own : ∀ slot, (next.work p).slot = some slot → slot = np
  only : ∀ q, q ≠ p → (system.work q).slot ≠ some np
  states : ∀ q, q ≠ np → next.state q = system.state q
  stages : ∀ q, q ≠ np → q ≠ p → next.stage q = system.stage q
  kstacks : ∀ q, q ≠ np → next.kstack q = system.kstack q
  pgdirs : ∀ q, q ≠ np → next.pgdir q = system.pgdir q
  frames : ∀ frame use, system.kmem frame = some use → use ≠ .stack np → use ≠ .table np →
    next.kmem frame = some use

theorem Fills.before (fills : s.Fills next p np) (ne : q ≠ p) {slot : Fin NPROC}
    {read : ForkWork → Option (Fin NPROC)} (empty : read .none = none) (after : read (next.work q) = some slot) :
    read (s.work q) = some slot := by
  rcases fills.works q ne with same | none
  · rw [same] at after
    exact after
  · rw [none, empty] at after
    cases after

/-- A slot that owns frames after a step of `fork` is the filled one or owned them before. -/
theorem Fills.owns (fills : s.Fills next p np) {read : ForkWork → Option (Fin NPROC)} (empty : read .none = none)
    (slots : ∀ {work slot}, read work = some slot → work.slot = some slot)
    (owns : (next.state q).Live ∨ ∃ r, read (next.work r) = some q) :
    (q = np ∧ ((next.state np).Live ∨ read (next.work p) = some np)) ∨
      (q ≠ np ∧ ((s.state q).Live ∨ ∃ r, read (s.work r) = some q)) := by
  by_cases same : q = np
  · refine .inl ⟨same, ?_⟩
    rw [same] at owns
    rcases owns with live | ⟨r, filled⟩
    · exact .inl live
    · by_cases self : r = p
      · exact .inr (self ▸ filled)
      · exact absurd (slots (fills.before self empty filled)) (fills.only r self)
  · refine .inr ⟨same, ?_⟩
    rw [fills.states q same] at owns
    rcases owns with live | ⟨r, filled⟩
    · exact .inl live
    · by_cases self : r = p
      · rw [self] at filled
        exact absurd (fills.own q (slots filled)) same
      · exact .inr ⟨r, fills.before self empty filled⟩

/-- The provision after a step of `fork` depends on the slot that the step fills. -/
theorem Provisioned.fills (provisioned : s.Provisioned) (fills : s.Fills next p np)
    (runs : s.state p = .running) (stack : (next.state np).Live ∨ (next.work p).stacked = some np →
      ∃ frame, next.kstack np = some frame ∧ next.kmem frame = some (.stack np))
    (table : (next.state np).Live ∨ (next.work p).copied = some np →
      ∃ frame, next.pgdir np = some frame ∧ next.kmem frame = some (.table np))
    (embryo : (next.work p).slot = some np → next.state np = .embryo)
    (context : (next.work p).stacked = some np → next.Parked np) : next.Provisioned := by
  constructor
  · intro q owns
    rcases fills.owns rfl slot_of_stacked owns with ⟨rfl, mine⟩ | ⟨other, before⟩
    · exact stack mine
    · obtain ⟨frame, stored, use⟩ := provisioned.stack q before
      refine ⟨frame, (fills.kstacks q other).trans stored, fills.frames frame _ use ?_ nofun⟩
      rintro ⟨⟩
      exact other rfl
  · intro q owns
    rcases fills.owns rfl (fun copied => slot_of_stacked (stacked_of_copied copied)) owns with ⟨rfl, mine⟩ | ⟨other, before⟩
    · exact table mine
    · obtain ⟨frame, stored, use⟩ := provisioned.table q before
      refine ⟨frame, (fills.pgdirs q other).trans stored, fills.frames frame _ use nofun ?_⟩
      rintro ⟨⟩
      exact other rfl
  · intro q slot taken
    by_cases self : q = p
    · rw [self] at taken
      obtain rfl := fills.own slot taken
      exact embryo taken
    · have before := fills.before self rfl taken
      have other : slot ≠ np := by
        rintro rfl
        exact fills.only q self before
      exact (fills.states slot other).trans (provisioned.embryo q slot before)
  · intro q r slot first second
    by_cases left : q = p
    · by_cases right : r = p
      · rw [left, right]
      · rw [left] at first
        obtain rfl := fills.own slot first
        exact absurd (fills.before right rfl second) (fills.only r right)
    · have before := fills.before left rfl first
      by_cases right : r = p
      · rw [right] at second
        obtain rfl := fills.own slot second
        exact absurd before (fills.only q left)
      · exact provisioned.alone q r slot before (fills.before right rfl second)
  · intro q slot stacked
    by_cases self : q = p
    · rw [self] at stacked
      obtain rfl := fills.own slot (slot_of_stacked stacked)
      exact context stacked
    · have before := fills.before self rfl stacked
      have other : slot ≠ np := by
        rintro rfl
        exact fills.only q self (slot_of_stacked before)
      have alive : slot ≠ p := by
        rintro rfl
        cases runs.symm.trans (provisioned.embryo q slot (slot_of_stacked before))
      obtain ⟨back, parked⟩ := provisioned.context q slot before
      exact ⟨back, (fills.stages slot other alive).trans parked⟩

theorem take_state (ne : q ≠ np) : ((s.table.take np).proc q).state = s.state q := by
  exact congrArg ProcSlot.state (set_of_ne _ ne)

theorem take_state_self : ((s.table.take np).proc np).state = .embryo := by
  exact congrArg ProcSlot.state (set_self _)

/-- The section of `allocproc` takes a slot that no process is filling. -/
theorem Sound.take (sound : s.Sound) (here : (s.cpu c).place = .running p) (held : s.lock = some c)
    (runs : s.state p = .running) (unused : s.state np = .unused) :
    ((s.withTable (s.table.take np)).setThread p ⟨.stacking np, .releasing⟩).Sound := by
  have ne : p ≠ np := by
    rintro rfl
    cases runs.symm.trans unused
  have quiet : ∀ d, d ≠ c → s.lock ≠ some d := by
    intro d other
    rw [held]
    rintro ⟨⟩
    exact other rfl
  have own : ((s.withTable (s.table.take np)).setThread p ⟨.stacking np, .releasing⟩).work p = .stacking np :=
    congrArg KernelThread.work (thread_setThread _ _ _)
  constructor
  · apply sound.coherent.act here quiet
    · rfl
    · intro q other
      exact congrArg KernelThread.stage (thread_setThread_of_ne _ _ other)
    · intro q _
      change (s.state q).Stirs ((s.table.take np).proc q).state
      by_cases same : q = np
      · rw [same, unused, take_state_self]
        exact .taken
      · rw [take_state same]
        exact .same
    · intro q _
      rfl
    · rfl
    · rfl
    · rw [CpuSystem.stage, thread_setThread]
      exact (take_state ne).trans runs
    · intro _
      exact held
  · have fills : s.Fills ((s.withTable (s.table.take np)).setThread p ⟨.stacking np, .releasing⟩) p np := by
      constructor
      · intro q other
        exact .inl (congrArg KernelThread.work (thread_setThread_of_ne _ _ other))
      · intro slot taken
        rw [own] at taken
        exact (Option.some.inj taken).symm
      · intro q _ taken
        cases unused.symm.trans (sound.provisioned.embryo q np taken)
      · intro q other
        exact take_state other
      · intro q _ other
        exact congrArg KernelThread.stage (thread_setThread_of_ne _ _ other)
      · intro q _
        rfl
      · intro q _
        rfl
      · intro frame use owned _ _
        exact owned
    have unborn : ¬((s.table.take np).proc np).state.Live := by
      rw [take_state_self]
      exact id
    apply sound.provisioned.fills fills runs
    · rintro (live | stacked)
      · exact absurd live unborn
      · rw [own] at stacked
        cases stacked
    · rintro (live | copied)
      · exact absurd live unborn
      · rw [own] at copied
        cases copied
    · intro _
      exact take_state_self
    · intro stacked
      rw [own] at stacked
      cases stacked

end CpuSystem
end Xv6
