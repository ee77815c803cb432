import Xv6.Proof.Proc.Cpu

namespace Xv6
open Library Function CpuSystem Ptable ProcSystem
namespace CpuSystem
variable {C : Type} {system s next : CpuSystem C} {c d : C} {p q np : Fin NPROC} {frame : Nat} {table : Ptable}
  {cpu : Cpu} {back : SchedReturn} {events : List (C × CpuAct)}

theorem Provisioned.only (provisioned : s.Provisioned) (taken : (s.work p).slot = some np) :
    ∀ q, q ≠ p → (s.work q).slot ≠ some np := by
  intro q ne also
  exact ne (provisioned.alone q p np also taken)

/-- A step of `fork` outside of `ptable.lock` keeps the system sound if it leaves a sound slot. -/
theorem Sound.forks (sound : s.Sound) (runs : s.state p = .running) (free : s.stage p = .free)
    (taken : (s.work p).slot = some np) (cpus : next.cpu = s.cpu) (lock : next.lock = s.lock) {work : ForkWork}
    (self : next.thread p = ⟨work, .free⟩) (own : ∀ slot, work.slot = some slot → slot = np)
    (others : ∀ q, q ≠ np → q ≠ p → next.thread q = s.thread q)
    (child : next.work np = s.work np ∨ next.work np = .none) (states : ∀ q, q ≠ np → next.state q = s.state q)
    (kstacks : ∀ q, q ≠ np → next.kstack q = s.kstack q) (pgdirs : ∀ q, q ≠ np → next.pgdir q = s.pgdir q)
    (frames : ∀ frame use, s.kmem frame = some use → use ≠ .stack np → use ≠ .table np → next.kmem frame = some use)
    (born : next.state np ≠ .running) (parked : (next.state np).Waits ∨ work.stacked = some np → next.Parked np)
    (stack : (next.state np).Live ∨ work.stacked = some np →
      ∃ frame, next.kstack np = some frame ∧ next.kmem frame = some (.stack np))
    (table : (next.state np).Live ∨ work.copied = some np →
      ∃ frame, next.pgdir np = some frame ∧ next.kmem frame = some (.table np))
    (embryo : work.slot = some np → next.state np = .embryo) : next.Sound := by
  have unborn := sound.provisioned.embryo p np taken
  obtain rfl : next.work p = work := congrArg KernelThread.work self
  have stage : next.stage p = s.stage p := (congrArg KernelThread.stage self).trans free.symm
  have fills : s.Fills next p np := by
    refine ⟨?_, own, sound.provisioned.only taken, states, ?_, kstacks, pgdirs, frames⟩
    · intro q other
      by_cases same : q = np
      · rw [same]
        exact child
      · exact .inl (congrArg KernelThread.work (others q same other))
    · intro q first second
      exact congrArg KernelThread.stage (others q first second)
  constructor
  · apply sound.coherent.unlocked_step cpus lock
    · intro q live
      have ne : q ≠ np := by
        rintro rfl
        rw [unborn] at live
        exact live
      refine ⟨states q ne, kstacks q ne, pgdirs q ne, ?_⟩
      by_cases self : q = p
      · rw [self]
        exact stage
      · exact fills.stages q ne self
    · intro q dead
      by_cases same : q = np
      · rw [same]
        exact ⟨born, fun waits => parked (.inl waits)⟩
      · rw [states q same]
        refine ⟨?_, fun waits => absurd waits.live dead⟩
        intro running
        rw [running] at dead
        exact dead trivial
  · exact sound.provisioned.fills fills runs stack table embryo fun stacked => parked (.inr stacked)

theorem Sound.child_ne (sound : s.Sound) (runs : s.state p = .running)
    (taken : (s.work p).slot = some np) : np ≠ p := by
  rintro rfl
  cases runs.symm.trans (sound.provisioned.embryo np np taken)

theorem Sound.child_parked (sound : s.Sound) (stacked : (s.work p).stacked = some np)
    (child : next.thread np = s.thread np) : next.Parked np := by
  obtain ⟨back, stage⟩ := sound.provisioned.context p np stacked
  exact ⟨back, (congrArg KernelThread.stage child).trans stage⟩

theorem setState_state_self (state : ProcState) : ((s.table.setState np state).proc np).state = state := by
  rw [setState, set_self]

theorem setState_state (state : ProcState) (ne : q ≠ np) : ((s.table.setState np state).proc q).state = s.state q := by
  rw [setState, set_of_ne _ ne]
  rfl

theorem kmem_setUse {other : Nat} {use owner : FrameUse} (free : s.kmem frame = none)
    (owned : s.kmem other = some owner) : (s.setUse frame (some use)).kmem other = some owner := by
  have ne : other ≠ frame := by
    rintro rfl
    rw [free] at owned
    cases owned
  exact (update_of_ne ne ..).trans owned

theorem copied_state (q : Fin NPROC) : (s.copied p np frame).state q = s.state q := by
  change ((s.table.set np {s.table.proc np with parent := some p}).proc q).state = _
  rw [set_proc]
  split
  · next same =>
      rw [same]
      rfl
  · rfl

section
variable (sound : s.Sound) (runs : s.state p = .running) (free : s.stage p = .free)
include sound runs free

/-- A failed `fork` leaves an unused slot. The frames of the other slots stay allocated. -/
theorem Sound.giveBack (taken : (s.work p).slot = some np) {failed : CpuSystem C} (cpus : failed.cpu = s.cpu)
    (lock : failed.lock = s.lock) (table : failed.table = s.table) (threads : failed.thread = s.thread)
    (kstacks : ∀ q, q ≠ np → failed.kstack q = s.kstack q) (pgdirs : ∀ q, q ≠ np → failed.pgdir q = s.pgdir q)
    (frames : ∀ frame use, s.kmem frame = some use → use ≠ .stack np → use ≠ .table np → failed.kmem frame = some use) :
    (failed.giveBack p np).Sound := by
  have others : ∀ q, q ≠ p → (failed.giveBack p np).thread q = s.thread q := by
    intro q other
    rw [← threads]
    exact thread_setThread_of_ne _ _ other
  have unused : (failed.giveBack p np).state np = .unused := setState_state_self .unused
  refine sound.forks runs free taken cpus lock (thread_setThread _ _ _) nofun (fun q _ => others q)
    (.inl (congrArg KernelThread.work (others np (sound.child_ne runs taken)))) ?_ kstacks pgdirs frames ?_ ?_ ?_ ?_ nofun
  · intro q other
    refine (setState_state .unused other).trans ?_
    rw [state, table]
    rfl
  all_goals
    rw [unused]
    exact nofun

theorem Sound.stacked (work : s.work p = .stacking np) (empty : s.kmem frame = none) :
    (s.stacked p np frame).Sound := by
  have taken : (s.work p).slot = some np := by
    rw [work]
    rfl
  have unborn : (s.stacked p np frame).state np = .embryo := sound.provisioned.embryo p np taken
  have child : (s.stacked p np frame).thread np = ⟨.none, .parked .release⟩ := by
    rw [CpuSystem.stacked, thread_setThread_of_ne _ _ (sound.child_ne runs taken), thread_setThread]
  refine sound.forks runs free taken rfl rfl (thread_setThread _ _ _) ?_ ?_ (.inr (congrArg KernelThread.work child))
    (fun _ _ => rfl) (fun q other => update_of_ne other ..) (fun _ _ => rfl)
    (fun other use owned _ _ => kmem_setUse empty owned) ?_ ?_ ?_ ?_ fun _ => unborn
  · intro slot filled
    exact (Option.some.inj filled).symm
  · intro q first second
    rw [CpuSystem.stacked, thread_setThread_of_ne _ _ second, thread_setThread_of_ne _ _ first]
    rfl
  · rw [unborn]
    exact nofun
  · intro _
    exact ⟨.release, congrArg KernelThread.stage child⟩
  · intro _
    exact ⟨frame, update_self .., update_self ..⟩
  · rw [unborn]
    exact nofun

theorem Sound.stack (work : s.work p = .stacking np) {frame : Option Nat} (ran : s.stack p np frame = .ok next) :
    next.Sound := by
  cases frame with
  | none =>
    cases ran
    have taken : (s.work p).slot = some np := by
      rw [work]
      rfl
    apply sound.giveBack runs free taken
    · rfl
    · rfl
    · rfl
    · rfl
    · intro q other
      exact update_of_ne other ..
    · intro q _
      rfl
    · intro frame use owned _ _
      exact owned
  | some frame =>
    rw [CpuSystem.stack] at ran
    split at ran
    · next empty =>
        cases ran
        exact sound.stacked runs free work empty
    · cases ran

theorem Sound.copied (work : s.work p = .copying np) (empty : s.kmem frame = none) : (s.copied p np frame).Sound := by
  have stacked : (s.work p).stacked = some np := by
    rw [work]
    rfl
  have taken := ForkWork.slot_of_stacked stacked
  have unborn : (s.copied p np frame).state np = .embryo :=
    (copied_state np).trans (sound.provisioned.embryo p np taken)
  have others : ∀ q, q ≠ p → (s.copied p np frame).thread q = s.thread q := by
    intro q other
    exact thread_setThread_of_ne _ _ other
  have child := others np (sound.child_ne runs taken)
  refine sound.forks runs free taken rfl rfl (thread_setThread _ _ _) ?_ (fun q _ => others q)
    (.inl (congrArg KernelThread.work child)) (fun q _ => copied_state q) (fun _ _ => rfl)
    (fun q other => update_of_ne other ..) (fun other use owned _ _ => kmem_setUse empty owned) ?_
    (fun _ => sound.child_parked stacked child) ?_ ?_ fun _ => unborn
  · intro slot filled
    exact (Option.some.inj filled).symm
  · rw [unborn]
    exact nofun
  · intro _
    obtain ⟨own, stored, use⟩ := sound.provisioned.stack np (.inr ⟨p, stacked⟩)
    exact ⟨own, stored, kmem_setUse empty use⟩
  · intro _
    exact ⟨frame, update_self .., update_self ..⟩

theorem Sound.copyuvm (work : s.work p = .copying np) {frame : Option Nat} (ran : s.copyuvm p np frame = .ok next) :
    next.Sound := by
  cases frame with
  | none =>
    cases ran
    have stacked : (s.work p).stacked = some np := by
      rw [work]
      rfl
    obtain ⟨frame, stored, use⟩ := sound.provisioned.stack np (.inr ⟨p, stacked⟩)
    rw [uncopied, stored]
    apply sound.giveBack runs free (ForkWork.slot_of_stacked stacked)
    · rfl
    · rfl
    · rfl
    · rfl
    · intro q other
      exact update_of_ne other ..
    · intro q other
      exact update_of_ne other ..
    · intro other owner owned foreign _
      have ne : other ≠ frame := by
        rintro rfl
        rw [use] at owned
        exact foreign (Option.some.inj owned).symm
      exact (update_of_ne ne ..).trans owned
  | some frame =>
    rw [CpuSystem.copyuvm] at ran
    split at ran
    · next empty =>
        cases ran
        exact sound.copied runs free work empty
    · cases ran

theorem Sound.start (work : s.work p = .starting np) : (s.start p np).Sound := by
  have copied : (s.work p).copied = some np := by
    rw [work]
    rfl
  have stacked := ForkWork.stacked_of_copied copied
  have taken := ForkWork.slot_of_stacked stacked
  have others : ∀ q, q ≠ p → (s.start p np).thread q = s.thread q := by
    intro q other
    exact thread_setThread_of_ne _ _ other
  have child := others np (sound.child_ne runs taken)
  have ready : (s.start p np).state np = .runnable := setState_state_self .runnable
  refine sound.forks runs free taken rfl rfl (thread_setThread _ _ _) nofun (fun q _ => others q)
    (.inl (congrArg KernelThread.work child)) (fun q other => setState_state .runnable other) (fun _ _ => rfl)
    (fun _ _ => rfl) (fun _ _ owned _ _ => owned) ?_ (fun _ => sound.child_parked stacked child) ?_ ?_ nofun
  · rw [ready]
    exact nofun
  · intro _
    exact sound.provisioned.stack np (.inr ⟨p, stacked⟩)
  · intro _
    exact sound.provisioned.table np (.inr ⟨p, copied⟩)

end

theorem fits_switching {state : ProcState} (same : (table.proc p).state = state) (live : state.Live)
    (other : state ≠ .running) (back : SchedReturn) : (SchedStage.switching back).Fits (table.proc p).state := by
  rw [same]
  exact ⟨live, other⟩

theorem sleep_state {chan : Chan} : ((table.sleep p chan).proc p).state = .sleeping := by
  rw [sleep, set_self]

theorem exit_state {initproc : Fin NPROC} : ((table.exit initproc p).proc p).state = .zombie := by
  rw [exit_proc, if_pos rfl]

/-- The section of a call under `ptable.lock` keeps the system sound. -/
theorem Sound.locked (sound : s.Sound) (here : (s.cpu c).place = .running p) (held : s.lock = some c)
    (quiet : ∀ d, d ≠ c → s.lock ≠ some d) (runs : s.state p = .running) (call : LockedCall) :
    (s.locked p call).Sound := by
  have still {table : Ptable} (stirs : (s.state p).Stirs (table.proc p).state) :
      SchedStage.releasing.Fits (table.proc p).state := by
    exact stirs.running_after runs
  cases call with
  | yield =>
    apply sound.acted here quiet stirs_set _ fun _ => held
    exact fits_switching (setState_state_self .runnable) trivial nofun _
  | sleep addr =>
    apply sound.acted here quiet stirs_set _ fun _ => held
    exact fits_switching sleep_state trivial nofun _
  | wakeup addr =>
    apply sound.acted here quiet (fun q _ => stirs_wakeup1 _ q) _ fun _ => held
    exact still (stirs_wakeup1 _ p)
  | exit =>
    apply sound.acted here quiet stirs_exit _ fun _ => held
    exact fits_switching exit_state trivial nofun _
  | wait =>
    rw [CpuSystem.locked, CpuSystem.wait]
    split
    · next child found => exact sound.collect here held runs (scan_reaps found).2
    · exact sound.acted here quiet (fun q _ => .same) runs fun _ => held
    · apply sound.acted here quiet stirs_set _ fun _ => held
      exact fits_switching sleep_state trivial nofun _
  | fork =>
    rw [CpuSystem.locked, CpuSystem.allocproc]
    split
    · exact sound.acted here quiet (fun q _ => .same) runs fun _ => held
    · next np table found =>
        obtain ⟨unused, rfl⟩ := allocproc_some found
        exact sound.take here held runs unused
  | kill pid =>
    apply sound.acted here quiet (fun q _ => stirs_kill pid q) _ fun _ => held
    exact still (stirs_kill pid p)

theorem Sound.tidy (sound : s.Sound) (here : (s.cpu c).place = .running p) (held : s.lock = some c)
    (quiet : ∀ d, d ≠ c → s.lock ≠ some d) (runs : s.state p = .running) {stage : SchedStage}
    (fits : stage.Fits .running) : ((s.withTable (s.table.tidy p)).setStage p stage).Sound := by
  have same : ((s.table.tidy p).proc p).state = .running := by
    rw [Ptable.tidy, Ptable.set_self]
    exact runs
  apply sound.acted here quiet stirs_set _ fun _ => held
  change stage.Fits ((s.table.tidy p).proc p).state
  rw [same]
  exact fits

theorem Sound.enter (sound : s.Sound) (here : (s.cpu c).place = .running p) (runs : s.state p = .running)
    {call : LockedCall} (ran : s.enter c p call = .ok next) : next.Sound := by
  rw [CpuSystem.enter] at ran
  split at ran
  · cases ran
  split at ran
  · split at ran
    · next free =>
        cases ran
        have quiet : ∀ d, d ≠ c → s.lock ≠ some d := by
          intro d _
          rw [free]
          exact nofun
        exact sound.acted here quiet (fun q _ => .same) runs fun _ => rfl
    · cases ran
  · cases ran

/-- A wakeup by an interrupt while no processor has `ptable.lock` wakes processes that are switched out. -/
theorem Sound.interrupt (sound : s.Sound) {addr : BitVec 64} (ran : s.interrupt addr = .ok next) : next.Sound := by
  rw [CpuSystem.interrupt] at ran
  split at ran
  · next free =>
      cases ran
      have stirs : ∀ q, (s.state q).Stirs ((s.table.wakeup1 (.other addr)).proc q).state :=
        fun q => stirs_wakeup1 _ q
      have unlocked : ∀ d, s.lock ≠ some d := by
        intro d
        rw [free]
        exact nofun
      constructor
      · constructor
        · intro d
          apply (sound.coherent.shape d).keeps
          intro q current
          have runs := (sound.coherent.unlocked (unlocked d) current).2.2
          exact ⟨((stirs q).running_after runs).trans runs.symm, rfl, rfl, rfl⟩
        · exact sound.coherent.lock
        · exact sound.coherent.alone
        · intro q runs
          exact sound.coherent.running q ((stirs q).running_before runs)
        · intro q waits
          exact sound.coherent.waiting q ((stirs q).waits_before waits)
      · apply sound.provisioned.keep
        · rfl
        · rfl
        · rfl
        · intro q
          rfl
        · intro q live
          exact (stirs q).live_before live
        · intro q embryo
          exact ⟨(stirs q).embryo_after embryo, rfl⟩
  · cases ran

theorem initial_state (ne : q ≠ firstSlot) : (initial : CpuSystem C).state q = .unused :=
  congrArg ProcSlot.state (set_of_ne _ ne)

theorem initial_sound : (initial : CpuSystem C).Sound := by
  have ready : (initial : CpuSystem C).state firstSlot = .runnable :=
    congrArg ProcSlot.state (set_self _)
  have first : ∀ q, ((initial : CpuSystem C).state q).Live → q = firstSlot := by
    intro q live
    by_contra ne
    rw [initial_state ne] at live
    exact live
  constructor
  · constructor
    · intro c
      exact .idle
    · intro c holds
      cases holds
    · intro c d p current
      cases current
    · intro p runs
      have live : ((initial : CpuSystem C).state p).Live := by
        rw [runs]
        trivial
      rw [first p live, ready] at runs
      cases runs
    · intro p _
      exact .inl ⟨.release, rfl⟩
  · constructor
    · rintro p (live | ⟨q, stacked⟩)
      · rw [first p live]
        exact ⟨0, rfl, rfl⟩
      · cases stacked
    · rintro p (live | ⟨q, copied⟩)
      · rw [first p live]
        exact ⟨1, rfl, rfl⟩
      · cases copied
    · intro q np taken
      cases taken
    · intro q r np taken
      cases taken
    · intro q np stacked
      cases stacked

variable [DecidableEq C]

section
variable (sound : s.Sound)
include sound

theorem Sound.release (here : (s.cpu c).place = .running p) (quiet : ∀ d, d ≠ c → s.lock ≠ some d)
    (runs : s.state p = .running) (ran : (s.release c).map (·.setStage p .free) = .ok next) : next.Sound := by
  rw [CpuSystem.release] at ran
  split at ran
  · cases ran
    exact sound.acted here quiet (fun q _ => .same) runs False.elim
  · cases ran

/-- A processor that no other one disturbs changes its registers and the stage or the state of its process. -/
theorem Sound.dispatch (quiet : ∀ d, d ≠ c → s.lock ≠ some d) (cpus : next.cpu = update s.cpu c cpu)
    (kstack : next.kstack = s.kstack) (pgdir : next.pgdir = s.pgdir) (kmem : next.kmem = s.kmem)
    (works : ∀ q, next.work q = s.work q)
    (others : ∀ q, (s.cpu c).proc ≠ some q → next.state q = s.state q ∧ next.stage q = s.stage q)
    (shape : next.Shape cpu) (lock : next.Holds cpu → next.lock = some c)
    (takes : ∀ q, cpu.proc = some q → (s.cpu c).proc = some q ∨ s.state q ≠ .running)
    (drops : ∀ q, (s.cpu c).proc = some q → next.state q = .running → cpu.proc = some q)
    (waits : ∀ q, (s.cpu c).proc = some q → (next.state q).Waits → next.Parked q ∨
      (s.state q).Waits ∧ next.stage q = s.stage q ∧ (s.cpu c).place ≠ .running q) : next.Sound := by
  have registers : next.cpu c = cpu := by
    rw [cpus]
    exact update_self ..
  constructor
  · apply sound.coherent.quiet_step quiet
    · intro d ne
      rw [cpus]
      exact update_of_ne ne ..
    · intro q _ elsewhere
      exact ⟨(others q elsewhere).1, by rw [kstack], by rw [pgdir], (others q elsewhere).2⟩
    · rw [registers]
      exact shape
    · rw [registers]
      exact lock
    · rw [registers]
      exact takes
    · intro q running
      rw [registers]
      by_cases current : (s.cpu c).proc = some q
      · exact .inl (drops q current running)
      · rw [(others q current).1] at running
        exact .inr ⟨running, current⟩
    · intro q ready
      by_cases current : (s.cpu c).proc = some q
      · exact (waits q current ready).imp_right .inr
      · rw [(others q current).1] at ready
        refine .inr (.inr ⟨ready, (others q current).2, fun here => current ?_⟩)
        rw [((sound.coherent.shape c).of_running here).1]
  · apply sound.provisioned.keep kstack pgdir kmem works
    · intro q live
      by_cases current : (s.cpu c).proc = some q
      · exact (sound.coherent.shape c).live current
      · rw [(others q current).1] at live
        exact live
    · intro q embryo
      have elsewhere : (s.cpu c).proc ≠ some q := by
        intro current
        have live := (sound.coherent.shape c).live current
        rw [embryo] at live
        exact live
      exact ⟨(others q elsewhere).1.trans embryo, (others q elsewhere).2⟩

/-- The registers after `sched` belong to the scheduler, and the page table of the process is still loaded. -/
theorem Sound.sched (here : (s.cpu c).place = .running p) (held : s.lock = some c)
    (quiet : ∀ d, d ≠ c → s.lock ≠ some d) (ran : s.sched c p p back = .ok next) : next.Sound := by
  obtain ⟨registers, fits⟩ := (sound.coherent.shape c).of_running here
  have current : (s.cpu c).proc = some p := by rw [registers]
  rw [CpuSystem.sched] at ran
  split at ran
  · cases ran
  split at ran
  · cases ran
  next stopped =>
  cases ran
  rw [registers]
  refine sound.dispatch quiet rfl rfl rfl rfl (work_setStage _ p · _) ?_ ?_ ?_ ?_ ?_ ?_
  · intro q elsewhere
    refine ⟨rfl, stage_setStage_of_ne _ _ ?_⟩
    rintro rfl
    exact elsewhere current
  · exact .returned fits.live stopped
  · exact fun _ => held
  · intro q taken
    exact .inl (current.trans taken)
  · intro q same running
    cases current.symm.trans same
    exact absurd running stopped
  · intro q same _
    cases current.symm.trans same
    exact .inl ⟨back, stage_setStage _ p _⟩

section
variable (quiet : ∀ d, d ≠ c → s.lock ≠ some d)
include quiet

theorem Sound.setCpu {lock : Option C} (shape : s.Shape cpu)
    (outside : ∀ q, (s.cpu c).place ≠ .running q) (held : s.Holds cpu → lock = some c)
    (takes : ∀ q, cpu.proc = some q → (s.cpu c).proc = some q ∨ s.state q ≠ .running)
    (drops : ∀ q, (s.cpu c).proc = some q → s.state q = .running → cpu.proc = some q) :
    ((s.withLock lock).setCpu c cpu).Sound := by
  have keeps : ∀ q, s.Keeps ((s.withLock lock).setCpu c cpu) q := fun _ => ⟨rfl, rfl, rfl, rfl⟩
  refine sound.dispatch quiet rfl rfl rfl rfl (fun _ => rfl) (fun _ _ => ⟨rfl, rfl⟩)
    (shape.keeps fun q _ => keeps q) ?_ ?_ ?_ ?_
  · intro holds
    exact held (Keeps.holds (fun q _ => keeps q) shape holds)
  · exact takes
  · exact drops
  · intro q _ waits
    exact .inr ⟨waits, rfl, outside q⟩

theorem Sound.mark (held : s.lock = some c)
    (here : s.cpu c = ⟨some p, s.pgdir p, none, .loaded p⟩) (parked : s.Parked p) :
    ((s.withTable (s.table.setState p .running)).setCpu c {s.cpu c with place := .marked p}).Sound := by
  have current : (s.cpu c).proc = some p := by rw [here]
  rw [here]
  refine sound.dispatch quiet rfl rfl rfl rfl (fun _ => rfl) ?_ ?_ ?_ ?_ ?_ ?_
  · intro q elsewhere
    refine ⟨setState_state .running ?_, rfl⟩
    rintro rfl
    exact elsewhere current
  · exact .marked (setState_state_self .running) parked
  · exact fun _ => held
  · intro q taken
    exact .inl (current.trans taken)
  · intro q same _
    exact current.symm.trans same
  · intro q same waits
    cases current.symm.trans same
    change ((s.table.setState p .running).proc p).state.Waits at waits
    rw [setState_state_self] at waits
    exact waits.elim

/-- The process continues at its saved context with `ptable.lock`. -/
theorem Sound.swtchProc (held : s.lock = some c)
    (here : s.cpu c = ⟨some p, s.pgdir p, none, .marked p⟩) (runs : s.state p = .running) :
    ((s.setStage p (.resumed back)).setCpu c {s.cpu c with stack := s.kstack p, place := .running p}).Sound := by
  have current : (s.cpu c).proc = some p := by rw [here]
  rw [here]
  refine sound.dispatch quiet rfl rfl rfl rfl (work_setStage _ p · _) ?_ ?_ ?_ ?_ ?_ ?_
  · intro q elsewhere
    refine ⟨rfl, stage_setStage_of_ne _ _ ?_⟩
    rintro rfl
    exact elsewhere current
  · apply Shape.running
    change (stage (s.setStage p _) p).Fits (s.state p)
    rw [stage_setStage]
    exact runs
  · exact fun _ => held
  · intro q taken
    exact .inl (current.trans taken)
  · intro q same _
    exact current.symm.trans same
  · intro q same waits
    cases current.symm.trans same
    change (s.state p).Waits at waits
    rw [runs] at waits
    exact waits.elim

theorem Sound.scanNext (held : s.lock = some c) {index : Nat}
    (here : s.cpu c = ⟨none, none, none, .scanning index⟩) (ran : s.scanNext c index = .ok next) : next.Sound := by
  have outside : ∀ q, (s.cpu c).place ≠ .running q := by
    intro q
    rw [here]
    exact nofun
  have drops : ∀ (cpu : Cpu) q, (s.cpu c).proc = some q → s.state q = .running → cpu.proc = some q := by
    intro cpu q current
    rw [here] at current
    cases current
  rw [CpuSystem.scanNext, here] at ran
  split at ran
  · next inside =>
      split at ran
      · next ready =>
          cases ran
          have parked : s.Parked ⟨index, inside⟩ := by
            have waits : (s.state ⟨index, inside⟩).Waits := by
              rw [ready]
              trivial
            rcases sound.coherent.waiting _ waits with parked | ⟨d, place⟩
            · exact parked
            · have ne : d ≠ c := by
                rintro rfl
                exact outside _ place
              obtain ⟨registers, _⟩ := (sound.coherent.shape d).of_running place
              have current : (s.cpu d).proc = some ⟨index, inside⟩ := by rw [registers]
              cases ready.symm.trans (sound.coherent.unlocked (quiet d ne) current).2.2
          apply sound.setCpu quiet (.chosen ready parked) outside (fun _ => held) _ (drops _)
          rintro q ⟨⟩
          refine .inr ?_
          rw [ready]
          exact nofun
      · cases ran
        exact sound.setCpu quiet .scanning outside (fun _ => held) nofun (drops _)
  · rw [CpuSystem.release, if_pos held] at ran
    cases ran
    exact sound.setCpu quiet .idle outside False.elim nofun (drops _)

end

theorem Sound.runScheduler (ran : s.runScheduler c (s.cpu c).place = .ok next) : next.Sound := by
  have shape := sound.coherent.shape c
  have lock := sound.coherent.lock c
  have quiet : s.Holds (s.cpu c) → _ := sound.coherent.quiet
  generalize here : s.cpu c = cpu at shape ran lock quiet
  cases shape with
  | idle =>
    rw [CpuSystem.runScheduler] at ran
    split at ran
    · next free =>
        cases ran
        rw [here]
        apply sound.setCpu _ .scanning
        · intro q
          rw [here]
          exact nofun
        · intro _
          rfl
        · exact nofun
        · intro q current
          rw [here] at current
          cases current
        · intro d _
          rw [free]
          exact nofun
    · cases ran
  | scanning => exact sound.scanNext (quiet trivial) (lock trivial) here ran
  | @chosen p ready parked =>
    rw [CpuSystem.runScheduler, CpuSystem.switchuvm] at ran
    split at ran
    · cases ran
    · next frame loaded =>
        cases ran
        rw [here, ← loaded]
        apply sound.setCpu (quiet trivial) (.loaded ready parked)
        · intro q
          rw [here]
          exact nofun
        · intro _
          exact lock trivial
        · intro q taken
          rw [here]
          exact .inl taken
        · intro q current _
          rw [here] at current
          exact current
  | @loaded p ready parked =>
    cases ran
    exact sound.mark (quiet trivial) (lock trivial) here parked
  | @marked p runs parked =>
    rw [CpuSystem.runScheduler, CpuSystem.swtchProc] at ran
    split at ran
    · cases ran
      exact sound.swtchProc (quiet trivial) (lock trivial) here runs
    · cases ran
  | running => cases ran
  | @returned p live stopped =>
    cases ran
    rw [here]
    apply sound.setCpu (quiet trivial) (.unloaded live stopped)
    · intro q
      rw [here]
      exact nofun
    · intro _
      exact lock trivial
    · intro q taken
      rw [here]
      exact .inl taken
    · intro q current _
      rw [here] at current
      exact current
  | @unloaded p live stopped =>
    cases ran
    rw [here]
    apply sound.setCpu (quiet trivial) .scanning
    · intro q
      rw [here]
      exact nofun
    · intro _
      exact lock trivial
    · exact nofun
    · intro q current runs
      rw [here] at current
      cases current
      exact absurd runs stopped

theorem Sound.advanceThread (here : (s.cpu c).place = .running p) (ran : s.advanceThread c p p = .ok next) :
    next.Sound := by
  obtain ⟨registers, fits⟩ := (sound.coherent.shape c).of_running here
  have holds : s.Holds (s.cpu c) = (s.stage p).Holds := by
    rw [registers]
    rfl
  have lock := sound.coherent.lock c
  have quiet : s.Holds (s.cpu c) → _ := sound.coherent.quiet
  rw [holds] at lock quiet
  rw [CpuSystem.advanceThread] at ran
  split at ran
  · next call stage =>
      rw [CpuSystem.stage, stage] at fits lock quiet
      cases ran
      exact sound.locked here (lock trivial) (quiet trivial) fits call
  · next back stage =>
      rw [CpuSystem.stage, stage] at lock quiet
      exact sound.sched here (lock trivial) (quiet trivial) ran
  · next back stage =>
      rw [CpuSystem.stage, stage] at fits lock quiet
      cases back with
      | release => exact sound.release here (quiet trivial) fits ran
      | sleep | wait =>
        cases ran
        exact sound.tidy here (lock trivial) (quiet trivial) fits rfl
      | exit => cases ran
  · next stage =>
      rw [CpuSystem.stage, stage] at fits lock quiet
      exact sound.release here (quiet trivial) fits ran
  all_goals cases ran

theorem Sound.runThread (here : (s.cpu c).place = .running p) {act : CpuAct}
    (ran : s.runThread c p p act = .ok next) : next.Sound := by
  obtain ⟨_, fits⟩ := (sound.coherent.shape c).of_running here
  rw [stage] at fits
  rw [runThread.eq_def] at ran
  split at ran
  · exact sound.advanceThread here ran
  · next thread =>
      rw [thread] at fits
      exact sound.enter here fits ran
  · next thread =>
      rw [thread] at fits
      exact sound.stack fits (congrArg KernelThread.stage thread) (congrArg KernelThread.work thread) ran
  · next thread =>
      rw [thread] at fits
      exact sound.copyuvm fits (congrArg KernelThread.stage thread) (congrArg KernelThread.work thread) ran
  · next thread =>
      rw [thread] at fits
      cases ran
      exact sound.start fits (congrArg KernelThread.stage thread) (congrArg KernelThread.work thread)
  · cases ran

theorem Sound.step {event : C × CpuAct} (ran : s.step event = .ok next) : next.Sound := by
  rw [step.eq_def] at ran
  split at ran
  · exact sound.interrupt ran
  · next slot p place proc _ =>
      obtain ⟨registers, _⟩ := (sound.coherent.shape event.1).of_running place
      rw [registers] at proc
      cases proc
      exact sound.runThread place ran
  · exact sound.runScheduler ran
  · cases ran

end

theorem interleave_sound (ran : interleave events = .ok s) : s.Sound :=
  runEvents_invariant (fun _ => Sound) initial_sound (fun _ _ _ _ before stepped => before.step stepped) ran

/-- The processor is in `wait`, and its next step frees the stack and the page table of an exited child. -/
def Reaps (system : CpuSystem C) (c : C) (child : Fin NPROC) : Prop :=
  ∃ slot p, (system.cpu c).place = .running slot ∧ (system.cpu c).proc = some p ∧
    (system.thread p).stage = .entered .wait ∧ system.table.scan p = .reaps child

/-- For any number of processors and every interleaving, a process is running exactly if one processor has it while
`ptable.lock` is free. The function `wait` frees only a stack and a page table that no processor uses. -/
theorem one_processor_per_process {events : List (C × CpuAct)} (ran : interleave events = .ok system) :
    (system.lock = none → ∀ p, system.state p = .running ↔ ∃! c, (system.cpu c).proc = some p) ∧
      ∀ c child, system.Reaps c child → ∀ d, (system.cpu d).stack ≠ system.kstack child ∧
        (system.cpu d).cr3 ≠ system.pgdir child := by
  have sound := interleave_sound ran
  constructor
  · intro free p
    exact sound.coherent.running_iff free
  · rintro c child ⟨slot, p, place, proc, stage, found⟩ d
    obtain ⟨registers, fits⟩ := (sound.coherent.shape c).of_running place
    rw [registers] at proc
    cases proc
    rw [CpuSystem.stage, stage] at fits
    have holds : system.Holds (system.cpu c) := by
      rw [registers]
      change (system.thread slot).stage.Holds
      rw [stage]
      trivial
    exact sound.unused (sound.coherent.lock c holds) place (scan_reaps found).2 fits

/-- The first process forks on one of two processors, the child runs and exits on the other one, and the first process
calls `wait`. -/
def reapRun : List (Bool × CpuAct) :=
  List.replicate 6 (false, .advance) ++
    [(false, .call .fork), (false, .advance), (false, .advance), (false, .kalloc (some 2)),
      (false, .copyuvm (some 3)), (false, .start)] ++
    List.replicate 7 (true, .advance) ++ [(true, .call .exit)] ++ List.replicate 67 (true, .advance) ++
    [(false, .call .wait)]

def secondSlot : Fin NPROC := ⟨1, one_lt_NPROC⟩

def scanFinds (system : CpuSystem Bool) (p child : Fin NPROC) : Bool :=
  match system.table.scan p with
  | .reaps found => found = child
  | _ => false

theorem scan_of_scanFinds {s : CpuSystem Bool} {child : Fin NPROC} (finds : scanFinds s p child = true) :
    s.table.scan p = .reaps child := by
  rw [scanFinds] at finds
  split at finds
  · next found same => rw [same, of_decide_eq_true finds]
  · cases finds

theorem one_processor_per_process_reapRun : ∃ system, interleave reapRun = .ok system ∧
    system.Reaps false secondSlot ∧
      (system.lock = none → ∀ p, system.state p = .running ↔ ∃! c, (system.cpu c).proc = some p) ∧
      ∀ c child, system.Reaps c child → ∀ d, (system.cpu d).stack ≠ system.kstack child ∧
        (system.cpu d).cr3 ≠ system.pgdir child := by
  have observed : ((interleave reapRun).toOption.map fun system =>
      decide ((system.cpu false).place = .running firstSlot ∧
        (system.cpu false).proc = some firstSlot ∧
        (system.thread firstSlot).stage = .entered .wait ∧
        scanFinds system firstSlot secondSlot = true)) = some true := by
    decide +kernel
  obtain ⟨system, ran, final⟩ := exists_ok_of_observed observed
  obtain ⟨place, proc, stage, finds⟩ := of_decide_eq_true final
  have reaps : system.Reaps false secondSlot :=
    ⟨firstSlot, firstSlot, place, proc, stage, scan_of_scanFinds finds⟩
  exact ⟨system, ran, reaps, one_processor_per_process ran⟩

section Checks
variable {message : String}

end Checks

end CpuSystem
end Xv6
