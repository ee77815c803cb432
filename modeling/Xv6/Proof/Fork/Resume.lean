import Xv6.Proof.Fork.Trap

namespace Xv6
open Library List Nat

attribute [local irreducible] kernelAddr

section Parent
open Core
variable {user entered : Core} {proc np : Fin NPROC} {kstack locals stack : Nat} {theirs : List Nat → Option Nat}
  {own page : Page} {pid : BitVec 32} {forked later : Machine}

theorem tfAddr_eq (kstack : Nat) : tfAddr kstack = kernelAddr kstack trapframeStart := by
  have top : kernelAddr kstack 0 + BitVec.ofNat 64 KSTACKSIZE = kernelAddr kstack (trapframeStart + trapframeSize) :=
    kernelAddr_add kstack 0 512
  rw [tfAddr, top, kernelAddr_sub]

theorem contextAddr_eq (kstack : Nat) : contextAddr kstack = kernelAddr kstack contextStart := by
  have below : kernelAddr kstack trapframeStart - 8 = kernelAddr kstack (contextStart + contextSize) :=
    kernelAddr_sub kstack (contextStart + contextSize) 1
  rw [contextAddr, tfAddr_eq, below, kernelAddr_sub]

/-- The stores of `syscall_entry` are in pages of the kernel. -/
theorem TrapReady.forkReady (ready : TrapReady user proc kstack locals theirs)
    (s : Entered user proc kstack locals own page entered) : ForkReady entered.machine proc theirs := by
  have leaf : ∀ {frame}, ¬Owned user.machine.kernel theirs frame → ∀ {place}, theirs place = some frame →
      place.length = 4 := fun unowned _ found => absurd (.inr ⟨_, found⟩) unowned
  rw [s.machine]
  exact ⟨(ready.ready.heap.setPage locals own).setPage kstack page,
    (ready.ready.old.setPage (leaf ready.local_unowned) own).setPage (leaf ready.unowned) page,
    ready.ready.running, ready.ready.present⟩

theorem Entered.stack_page (s : Entered user proc kstack locals own page entered) : entered.page kstack = page := by
  rw [Core.page, s.machine]
  exact Function.update_self _ _ _

theorem Entered.local_page (s : Entered user proc kstack locals own page entered) (apart : locals ≠ kstack) :
    entered.page locals = own := by
  rw [Core.page, s.machine]
  exact (Function.update_of_ne apart _ _).trans (Function.update_self _ _ _)

variable (ready : TrapReady user proc kstack locals theirs)
include ready

theorem TrapReady.stacked {core : Core} (ptable : core.ptable = user.ptable) : core.Stacked kstack := by
  intro index inside
  rw [ptable]
  exact ready.at_stack inside

theorem TrapReady.current_proc {core : Core} (ptable : core.ptable = user.ptable) (fs : core.fs = user.fs)
    (current : slot 64 (core.page locals) 255 = user.procAddr proc) : core.proc = .ok proc := by
  have located : Located core.ptable locals 255 (core.fs - 8) := by
    have below : user.fs - 8 = kernelAddr locals 255 := by
      rw [ready.fs]
      exact kernelAddr_sub locals 255 1
    rw [ptable, fs, below]
    exact ready.at_local (by decide)
  have same : user.procAddr proc = core.procAddr proc := by rw [procAddr, procAddr, ptable]
  refine proc_eq ?_
  rw [loadWord_located located, current, same]

variable (s : Entered user proc kstack locals own page entered)
include s

theorem TrapReady.syscall_eq
    (number : user.reg .rax = SYS_fork) : entered.syscall = (entered.machine.fork proc).mapError .fork := by
  have named := ready.current_proc s.ptable s.fs (by rw [s.local_page ready.apart, s.current])
  have alive : (entered.machine.table.proc proc).killed = false := by
    rw [s.machine]
    exact ready.alive
  have first : entered.loadWord (entered.reg .rdi) = .ok SYS_fork := by
    have rax : slot 64 page trapframeStart = user.reg .rax := s.saved .rax
    rw [s.rdi, loadWord_located (ready.stacked s.ptable trapframeStart (by decide)), s.stack_page, rax, number]
  have frame : entered.reg .rdi = tfAddr (entered.machine.proc proc).kstack := by
    rw [s.rdi, tfAddr_eq, s.machine]
    exact congrArg (kernelAddr · trapframeStart) ready.own.symm
  rw [Core.syscall, named]
  change (if (entered.machine.table.proc proc).killed = true then _ else entered.loadWord (entered.reg .rdi) >>= _) = _
  rw [alive, first]
  have called : SYS_fork = SYS_fork ∧ entered.reg .rdi = tfAddr (entered.machine.proc proc).kstack := ⟨rfl, frame⟩
  exact if_pos called

/-- The kernel stack of the parent is as before when `fork` returns. -/
theorem TrapReady.forked_stack
    (started : Forked entered.machine proc np pid forked stack) : forked.kernel.memory kstack = page := by
  have used : kstack ∉ entered.machine.kernel.freelist := by
    rw [s.machine]
    exact fun free => ready.unowned (.inl free)
  have allocatable : entered.machine.kernel.Allocatable kstack := by
    rw [s.machine]
    exact ready.stack
  rw [started.others kstack used allocatable]
  exact s.stack_page

theorem TrapReady.forked_local
    (started : Forked entered.machine proc np pid forked stack) : forked.kernel.memory locals = own := by
  have used : locals ∉ entered.machine.kernel.freelist := by
    rw [s.machine]
    exact fun free => ready.local_unowned (.inl free)
  have allocatable : entered.machine.kernel.Allocatable locals := by
    rw [s.machine]
    exact ready.local_page
  rw [started.others locals used allocatable]
  exact s.local_page ready.apart

/-- The parent returns with the same registers and the number of the child. -/
theorem TrapReady.parentReturn
    (started : Forked entered.machine proc np pid forked stack)
    (stackKept : forked.Keeps later kstack (trapframeStart - 1)) (localKept : forked.Keeps later locals 255)
    (alive : (later.table.proc proc).killed = false) (effect : (core : Core) → CEffect core) :
    ∃ final, Core.parentReturn {entered with machine := later} pid effect = .ok final ∧
      Resumes final (user.resumed (pid.signExtend 64)) := by
  obtain ⟨core, same⟩ : ∃ core : Core, core = {entered with machine := later} := ⟨_, rfl⟩
  have m : core.machine = later := congrArg Core.machine same
  have ptable : core.ptable = user.ptable := (congrArg Core.ptable same).trans s.ptable
  have fs : core.fs = user.fs := (congrArg Core.fs same).trans s.fs
  have reg : core.reg = entered.reg := by rw [same]
  have words : ∀ index, trapframeStart - 1 ≤ index → index < 512 →
      slot 64 (core.page kstack) index = slot 64 page index := by
    intro index low high
    rw [Core.page, m, stackKept.words index low high, ready.forked_stack s started]
  have current : slot 64 (core.page locals) 255 = user.procAddr proc := by
    rw [Core.page, m, localKept.words 255 (le_refl _) (by decide), ready.forked_local s started, s.current]
  have stacked := ready.stacked ptable
  have stored := storeWord_located (stacked trapframeStart (by decide)) (pid.signExtend 64)
  have rsp : (core.onPage kstack (setSlot (core.page kstack) trapframeStart (pid.signExtend 64))).reg .rsp =
      kernelAddr kstack (trapframeStart - 1) := (congrFun reg .rsp).trans s.rsp
  have ret : slot 64 ((core.onPage kstack (setSlot (core.page kstack) trapframeStart (pid.signExtend 64))).page kstack)
      (trapframeStart - 1) = core.machine.syscallTrapret := by
    rw [onPage_page, slot_setSlot_ne _ _ _ _ (by decide), words _ (le_refl _) (by decide), s.ret, m,
      stackKept.trapret, started.trapret, s.machine]
    rfl
  obtain ⟨final, ran, resumes⟩ := CEffect.trapret
    (effect (core.onPage kstack (setSlot (core.page kstack) trapframeStart (pid.signExtend 64)))) stacked rsp ret
  refine ⟨final, ?_, ?_⟩
  · rw [← same, Core.parentReturn, reg, s.rdi]
    refine bind_eq_ok.mpr ⟨_, stored, ?_⟩
    refine bind_eq_ok.mpr ⟨proc, ready.current_proc ptable fs current, ?_⟩
    rw [m, if_neg (by rw [alive]; decide)]
    exact ran
  · have frames : frameReg (setSlot (core.page kstack) trapframeStart (pid.signExtend 64)) =
        frameReg (setSlot page trapframeStart (pid.signExtend 64)) := by
      refine frameReg_congr fun index low high => ?_
      by_cases first : index = trapframeStart
      · rw [first, slot_setSlot_same _ _ _ (by decide), slot_setSlot_same _ _ _ (by decide)]
      · rw [slot_setSlot_ne _ _ _ _ first, slot_setSlot_ne _ _ _ _ first,
          words index (le_trans (sub_le _ _) low) high]
    rw [onPage_page, frames, frameReg_rax s.saved] at resumes
    exact resumes

end Parent

/-- The address is the address of a word that is not in the page. -/
def Elsewhere (ptable : BitVec 64) (stack : Nat) (addr : BitVec 64) : Prop :=
  ∃ frame index, frame ≠ stack ∧ Located ptable frame index addr

/-- The stack of the scheduler, its variable `proc` and `cpu->scheduler` are not in the kernel stack of a process. -/
structure SchedulerReady (core : Core) (stack : Nat) (scheduler : BitVec 64) : Prop where
  current : Elsewhere core.ptable stack (core.fs - 8)
  pushes : ∀ count < 7, Elsewhere core.ptable stack (core.reg .rsp - BitVec.ofNat 64 (8 * (count + 1)))
  save : Elsewhere core.ptable stack scheduler

/-- The state has the same page, the same kernel stacks and the same code. -/
structure SameStack (core after : Core) (stack : Nat) : Prop where
  page : after.page stack = core.page stack
  ptable : after.ptable = core.ptable
  proc : after.machine.proc = core.machine.proc
  trapret : after.machine.syscallTrapret = core.machine.syscallTrapret
  forkret : after.machine.forkret = core.machine.forkret

section Child
open Core
variable {core after : Core} {stack : Nat} {addr : BitVec 64}

theorem SameStack.refl (core : Core) (stack : Nat) : SameStack core core stack := ⟨rfl, rfl, rfl, rfl, rfl⟩

theorem SameStack.trans {middle : Core} (early : SameStack core middle stack) (late : SameStack middle after stack) :
    SameStack core after stack where
  page := late.page.trans early.page
  ptable := late.ptable.trans early.ptable
  proc := late.proc.trans early.proc
  trapret := late.trapret.trans early.trapret
  forkret := late.forkret.trans early.forkret

theorem SameStack.setReg (core : Core) (stack : Nat) (r : Reg) (value : BitVec 64) :
    SameStack core (core.setReg r value) stack := ⟨rfl, rfl, rfl, rfl, rfl⟩

theorem storeWord_elsewhere (elsewhere : Elsewhere core.ptable stack addr) (value : BitVec 64) :
    ∃ after, core.storeWord addr value = .ok after ∧ SameStack core after stack ∧ after.reg = core.reg := by
  obtain ⟨frame, index, ne, located⟩ := elsewhere
  exact ⟨_, storeWord_located located value, ⟨onPage_page_ne ne.symm _, rfl, rfl, rfl, rfl⟩, rfl⟩

theorem push_elsewhere (core : Core) (sources : List Source) (elsewhere : ∀ count < sources.length,
      Elsewhere core.ptable stack (core.reg .rsp - BitVec.ofNat 64 (8 * (count + 1)))) :
    ∃ after, core.exec (sources.map .push) = .ok after ∧ SameStack core after stack ∧
      ∀ r ≠ .rsp, after.reg r = core.reg r := by
  induction sources generalizing core with
  | nil => exact ⟨core, rfl, .refl core stack, fun _ _ => rfl⟩
  | cons src sources ih =>
    obtain ⟨stored, ran, same, regs⟩ := storeWord_elsewhere (elsewhere 0 (succ_pos _)) (core.value src)
    have pushed : core.step (.push src) = .ok (stored.setReg .rsp (core.reg .rsp - 8)) := by
      rw [step]
      exact bind_eq_ok.mpr ⟨stored, ran, rfl⟩
    have below : ∀ count, core.reg .rsp - 8 - BitVec.ofNat 64 (8 * (count + 1)) =
        core.reg .rsp - BitVec.ofNat 64 (8 * (count + 1 + 1)) := by
      intro count
      rw [mul_add 8 (count + 1) 1, BitVec.ofNat_add, BitVec.add_comm]
      exact BitVec.sub_sub (core.reg .rsp) 8 _
    obtain ⟨after, rest, again, kept⟩ := ih (stored.setReg .rsp (core.reg .rsp - 8)) (by
      intro count inside
      rw [setReg_self, below]
      have other := elsewhere (count + 1) (succ_lt_succ inside)
      rw [← same.ptable] at other
      exact other)
    refine ⟨after, ?_, same.trans ((SameStack.setReg stored stack _ _).trans again), ?_⟩
    · rw [map_cons, exec_cons pushed, rest]
    · intro r other
      rw [kept r other, setReg_ne other, regs]

theorem swtch_eq (back : BitVec 64) : Insn.push (.imm back) :: swtch =
    ([.imm back, .reg .rbp, .reg .rbx, .reg .r12, .reg .r13, .reg .r14, .reg .r15] : List Source).map .push ++
      ([.store .rsp (.base 0 .rdi), .mov .rsi .rsp] ++ contextRegs.map .pop) := rfl

/-- The switch leaves the stack of the scheduler for the stack of a process. -/
theorem exec_swtch (core : Core) (back : BitVec 64) (stacked : core.Stacked stack)
    (pushes : ∀ count < 7, Elsewhere core.ptable stack (core.reg .rsp - BitVec.ofNat 64 (8 * (count + 1))))
    (save : Elsewhere core.ptable stack (core.reg .rdi)) (context : core.reg .rsi = kernelAddr stack contextStart) :
    ∃ after, core.exec (.push (.imm back) :: swtch) = .ok after ∧ SameStack core after stack ∧
      after.reg .rsp = kernelAddr stack (contextStart + contextRegs.length) := by
  obtain ⟨pushed, first, early, regs⟩ := push_elsewhere core
    [.imm back, .reg .rbp, .reg .rbx, .reg .r12, .reg .r13, .reg .r14, .reg .r15] pushes
  have target : Elsewhere pushed.ptable stack (pushed.address (.base 0 .rdi)) := by
    have same : pushed.address (.base 0 .rdi) = core.reg .rdi :=
      (BitVec.add_zero _).trans (regs .rdi (by decide))
    rw [same, early.ptable]
    exact save
  obtain ⟨saved, second, middle, kept⟩ := storeWord_elsewhere target (pushed.reg .rsp)
  have stored : pushed.step (.store .rsp (.base 0 .rdi)) = .ok saved := second
  have moved : saved.step (.mov .rsi .rsp) = .ok (saved.setReg .rsp (kernelAddr stack contextStart)) := by
    rw [step, kept, regs .rsi (by decide), context]
  have located : (saved.setReg .rsp (kernelAddr stack contextStart)).Stacked stack := by
    intro index inside
    have same : saved.ptable = core.ptable := middle.ptable.trans early.ptable
    change Located saved.ptable stack index (kernelAddr stack index)
    rw [same]
    exact stacked index inside
  have popped := exec_pop (saved.setReg .rsp (kernelAddr stack contextStart)) located (by decide)
    (show contextRegs.Nodup by decide) (setReg_self _ _) (by decide)
  have switched : SameStack saved
      ((saved.setReg .rsp (kernelAddr stack contextStart)).popped stack contextStart contextRegs) stack :=
    ⟨rfl, rfl, rfl, rfl, rfl⟩
  refine ⟨_, ?_, early.trans (middle.trans switched), popped_rsp _ _ _ _⟩
  rw [swtch_eq, exec_append first, cons_append, exec_cons stored, cons_append, exec_cons moved,
    nil_append, popped]

/-- The words of a new kernel stack from the context on. -/
structure NewStack (user : Core) (trapret forkret : BitVec 64) (page : Page) : Prop where
  forkret : slot 64 page (contextStart + contextSize - 1) = forkret
  trapret : slot 64 page (trapframeStart - 1) = trapret
  saved : frameReg page = user.resumed 0

theorem slot_copyTrapframe (parent child : Page) (index : Nat) : slot 64 (copyTrapframe parent child) index =
      if index = trapframeStart then 0
      else if index ∈ range' trapframeStart trapframeSize then slot 64 parent index
      else slot 64 child index := by
  have fits : ∀ place ∈ range' trapframeStart trapframeSize, 64 * place + 64 ≤ 8 * PGSIZE := by decide
  rw [copyTrapframe]
  split
  · rename_i first
    rw [first, slot_setSlot_same _ _ _ (by decide)]
  · rename_i other
    rw [slot_setSlot_ne _ _ _ _ other, slot_foldl_setSlot _ _ _ fits]

theorem slot_initStack (trapret forkret : BitVec 64) (stack : Page) :
    slot 64 (initStack trapret forkret stack) (contextStart + contextSize - 1) = forkret ∧
      slot 64 (initStack trapret forkret stack) (trapframeStart - 1) = trapret := by
  have fits : ∀ place ∈ range' contextStart contextSize, 64 * place + 64 ≤ 8 * PGSIZE := by decide
  rw [initStack]
  refine ⟨slot_setSlot_same _ _ _ (by decide), ?_⟩
  rw [slot_setSlot_ne _ _ _ _ (by decide), slot_foldl_setSlot _ _ _ fits, if_neg (by decide),
    slot_setSlot_same _ _ _ (by decide)]

/-- The stores of `allocproc` and `fork` agree with `swtch`, `forkret` and `syscall_trapret`. -/
theorem newStack_copy {user : Core} {page : Page} {rax : BitVec 64} (trapret forkret : BitVec 64) (old : Page)
    (saved : ∀ r, frameReg page r = user.resumed rax r) :
    NewStack user trapret forkret (copyTrapframe page (initStack trapret forkret old)) := by
  obtain ⟨first, second⟩ := slot_initStack trapret forkret old
  refine ⟨?_, ?_, ?_⟩
  · rw [slot_copyTrapframe, if_neg (by decide), if_neg (by decide), first]
  · rw [slot_copyTrapframe, if_neg (by decide), if_neg (by decide), second]
  · rw [← frameReg_rax saved 0]
    refine frameReg_congr fun index low high => ?_
    rw [slot_copyTrapframe]
    split
    · rename_i start
      rw [start, slot_setSlot_same _ _ _ (by decide)]
    · rename_i other
      have start : trapframeStart = 490 := rfl
      have size : trapframeSize = 22 := rfl
      rw [slot_setSlot_ne _ _ _ _ other, if_pos]
      rw [mem_range'_1]
      omega

theorem NewStack.congr {user : Core} {trapret forkret : BitVec 64} {page other : Page}
    (new : NewStack user trapret forkret page)
    (same : ∀ index, contextStart ≤ index → index < 512 → slot 64 other index = slot 64 page index) :
    NewStack user trapret forkret other := by
  refine ⟨(same _ (by decide) (by decide)).trans new.forkret, (same _ (by decide) (by decide)).trans new.trapret, ?_⟩
  rw [← new.saved]
  exact frameReg_congr fun index low high => same index (le_trans (by decide) low) high

/-- A new process returns to user mode with the registers of its parent. -/
theorem childReturn_resumes {user : Core} {np : Fin NPROC} {scheduler back : BitVec 64} (core : Core)
    (stacked : core.Stacked stack) (ready : SchedulerReady core stack scheduler)
    (kstack : (core.machine.proc np).kstack = stack)
    (new : NewStack user core.machine.syscallTrapret core.machine.forkret (core.page stack))
    (effect : (core : Core) → CEffect core) :
    ∃ final, core.childReturn np scheduler back effect = .ok final ∧ Resumes final (user.resumed 0) := by
  obtain ⟨stored, ran, early, regs⟩ := storeWord_elsewhere ready.current (core.procAddr np)
  obtain ⟨called, same⟩ : ∃ called : Core, called =
    ({stored with machine := stored.machine.setState np .running}.setReg .rdi scheduler).setReg .rsi
      (contextAddr ((stored.machine.setState np .running).proc np).kstack) := ⟨_, rfl⟩
  have start : SameStack stored called stack := by
    rw [same]
    exact ⟨rfl, rfl, rfl, rfl, rfl⟩
  have begun := early.trans start
  have other : ∀ r, r ≠ .rdi → r ≠ .rsi → called.reg r = core.reg r := by
    intro r first second
    rw [same, setReg_ne second, setReg_ne first]
    exact congrFun regs r
  have located : ∀ {s : Core}, SameStack core s stack → s.Stacked stack := by
    intro s kept index inside
    rw [kept.ptable]
    exact stacked index inside
  have pushes : ∀ count < 7, Elsewhere called.ptable stack (called.reg .rsp - BitVec.ofNat 64 (8 * (count + 1))) := by
    rw [begun.ptable, other .rsp (by decide) (by decide)]
    exact ready.pushes
  have save : Elsewhere called.ptable stack (called.reg .rdi) := by
    have argument : called.reg .rdi = scheduler := by rw [same, setReg_ne (by decide), setReg_self]
    rw [begun.ptable, argument]
    exact ready.save
  have context : called.reg .rsi = kernelAddr stack contextStart := by
    rw [same, setReg_self, contextAddr_eq, ← kstack, ← early.proc]
    rfl
  obtain ⟨switched, moved, late, rsp⟩ := exec_swtch called back (located begun) pushes save context
  have whole := begun.trans late
  have popped := ret_eq (located whole) rsp (by decide)
  have again : SameStack core (switched.returned stack (contextStart + contextRegs.length)) stack :=
    whole.trans ⟨rfl, rfl, rfl, rfl, rfl⟩
  have dispatched : core.dispatch np scheduler back =
      .ok (switched.returned stack (contextStart + contextRegs.length)) := by
    refine bind_eq_ok.mpr ⟨stored, ran, ?_⟩
    dsimp only
    rw [← same]
    exact bind_eq_ok.mpr ⟨switched, moved, popped⟩
  have label : (switched.returned stack (contextStart + contextRegs.length)).rip =
      (switched.returned stack (contextStart + contextRegs.length)).machine.forkret := by
    rw [again.forkret, ← new.forkret, ← whole.page]
    rfl
  have ret : slot 64 ((switched.returned stack (contextStart + contextRegs.length)).page stack) (trapframeStart - 1) =
      (switched.returned stack (contextStart + contextRegs.length)).machine.syscallTrapret := by
    rw [again.page, again.trapret, new.trapret]
  obtain ⟨final, last, resumes⟩ := CEffect.trapret (effect _) (located again) (returned_rsp _ _ _) ret
  rw [again.page, new.saved] at resumes
  refine ⟨final, bind_eq_ok.mpr ⟨_, dispatched, ?_⟩, resumes⟩
  rw [if_pos label]
  exact last

end Child

theorem signExtend_low (value : BitVec 32) : (value.signExtend 64).setWidth 32 = value := by
  ext bit inside
  simp only [BitVec.getElem_setWidth, BitVec.getLsbD_signExtend]
  simp [inside, lt_trans inside (show 32 < 64 by decide)]

section Fork
variable {user : Core} {proc : Fin NPROC} {kstack locals : Nat} {theirs : List Nat → Option Nat}

/-- After a successful `fork` the parent returns to user mode with its registers and the number of the child. The child
returns with the same registers and the result 0. -/
theorem fork_resumes (ready : TrapReady user proc kstack locals theirs) (number : user.reg .rax = SYS_fork) :
    ∃ entered, user.enter = .ok entered ∧
      ∀ pid forked np, entered.syscall = .ok (pid, forked) → entered.machine.firstUnused = some np →
        (forked.table.proc np).state = .runnable →
        (∀ later effect, forked.Keeps later kstack (trapframeStart - 1) → forked.Keeps later locals 255 →
          (later.table.proc proc).killed = false →
          ∃ final, Core.parentReturn {entered with machine := later} pid effect = .ok final ∧
            Resumes final (user.resumed (final.reg .rax)) ∧
            (final.reg .rax).setWidth 32 = (forked.table.proc np).pid) ∧
        ∀ (core : Core) scheduler back effect, core.ptable = user.ptable →
          (core.machine.proc np).kstack = (forked.proc np).kstack →
          forked.Keeps core.machine (forked.proc np).kstack contextStart →
          SchedulerReady core (forked.proc np).kstack scheduler →
          ∃ final, core.childReturn np scheduler back effect = .ok final ∧ Resumes final (user.resumed 0) := by
  obtain ⟨entered, own, page, ran, state⟩ := ready.enter
  have forkReady := ready.forkReady state
  refine ⟨entered, ran, ?_⟩
  intro pid forked np called first runnable
  rw [ready.syscall_eq state number] at called
  have stackEq : (entered.machine.proc proc).kstack = kstack := by
    rw [state.machine]
    exact ready.own
  have allocatable : entered.machine.kernel.Allocatable (entered.machine.proc proc).kstack := by
    rw [stackEq, state.machine]
    exact ready.stack
  have used : (entered.machine.proc proc).kstack ∉ entered.machine.kernel.freelist := by
    rw [stackEq, state.machine]
    exact fun free => ready.unowned (.inl free)
  obtain ⟨stack, started⟩ := fork_forked forkReady first allocatable used (mapError_eq_ok called) runnable
  refine ⟨?_, ?_⟩
  · intro later effect stackKept localKept alive
    obtain ⟨final, returned, resumes⟩ := ready.parentReturn state started stackKept localKept alive effect
    have rax : final.reg .rax = pid.signExtend 64 := congrFun resumes.reg .rax
    refine ⟨final, returned, ?_, ?_⟩
    · rw [rax]
      exact resumes
    · rw [rax, ← started.pid]
      exact signExtend_low pid
  · intro core scheduler back effect ptable own kept ready'
    rw [started.kstack] at own kept ready'
    have valid : user.machine.kernel.Allocatable stack := by
      have listed := started.listed
      rw [state.machine] at listed
      exact ready.ready.heap.free stack listed
    have stacked : core.Stacked stack := by
      intro index inside
      rw [ptable]
      exact ready.placed.located valid inside
    have parent : entered.machine.kernel.memory (entered.machine.proc proc).kstack = page := by
      rw [stackEq]
      exact state.stack_page
    have new := newStack_copy entered.machine.syscallTrapret entered.machine.forkret
      (entered.machine.kernel.memory stack) state.saved
    rw [← parent, ← started.child, ← started.trapret, ← started.forkret, ← kept.trapret, ← kept.forkret] at new
    exact childReturn_resumes core stacked ready' own (new.congr kept.words) effect

end Fork

/-- Two pages are free, and the local storage of the processor points to the first slot of the process table. -/
def idleKernel : Kernel := (blankKernel 2).setEntry 0x606 255 (KERNBASE + 0x100000)

/-- The first process has a page that `fork` does not copy. -/
def idleMachine : Machine where
  kernel := idleKernel
  table := ⟨Function.update (fun _ => .zero) firstProc {ProcSlot.zero with state := .running, pid := 1}, 2⟩
  proc _ := ⟨0x605, 0x600, 0x1000, some ⟨0, NINODE_pos⟩, []⟩
  file _ := .zero
  ofile _ _ := none
  inodeRef _ := 1
  syscallTrapret := 0x3000
  forkret := 0x4000

def idleCore : Core where
  machine := idleMachine
  ptable := KERNBASE + 0x100000
  fs := kernelAddr 0x606 256
  reg
    | .rax => SYS_fork
    | .rbx => 7
    | _ => 0
  rip := 0x1004
  rflags := 0x202

theorem idleCore_ready : TrapReady idleCore firstProc 0x605 0x606 (rootTree 0x600) where
  ready := by
    refine ⟨⟨by decide, by decide, by decide⟩, rootTree_table (by decide) (by decide) ?_, rfl, ?_⟩
    · intro index _
      exact slot_zero 64 index
    · intro page one below
      have top : topPage (BitVec.setWidth 64 (BitVec.setWidth 32 (idleMachine.proc firstProc).sz)) = 1 := by decide
      exact absurd (lt_of_lt_of_eq below top) (not_lt.mpr one)
  placed := ⟨by decide, by decide⟩
  own := rfl
  stack := by decide
  unowned := by
    rintro (listed | ⟨path, found⟩)
    · exact absurd listed (by decide)
    · exact absurd (rootTree_some found).2 (by decide)
  local_page := by decide
  local_unowned := by
    rintro (listed | ⟨path, found⟩)
    · exact absurd listed (by decide)
    · exact absurd (rootTree_some found).2 (by decide)
  apart := by decide
  fs := rfl
  current := by decide +kernel
  alive := rfl

/-- A C function that changes nothing. -/
def CEffect.still (core : Core) : CEffect core := ⟨core, fun _ _ => rfl, rfl, fun _ _ _ _ => ⟨rfl, rfl, rfl, fun _ _ _ => rfl⟩⟩

/-- A scheduler on another processor. -/
def idleScheduler (machine : Machine) : Core where
  machine := machine
  ptable := KERNBASE + 0x100000
  fs := kernelAddr 0x607 256
  reg
    | .rsp => kernelAddr 0x608 7
    | _ => 0
  rip := 0
  rflags := 0

theorem idle_elsewhere {frame index : Nat} (allocatable : idleKernel.Allocatable frame) (inside : index < 512)
    (ne : frame ≠ 0x1000) : Elsewhere (KERNBASE + 0x100000) 0x1000 (kernelAddr frame index) :=
  ⟨frame, index, ne, idleCore_ready.placed.located allocatable inside⟩

theorem idleScheduler_ready (m : Machine) : SchedulerReady (idleScheduler m) 0x1000 (kernelAddr 0x609 0) where
  current := by
    have below : kernelAddr 0x607 256 - 8 = kernelAddr 0x607 255 := kernelAddr_sub 0x607 255 1
    change Elsewhere _ _ (kernelAddr 0x607 256 - 8)
    rw [below]
    exact idle_elsewhere (by decide) (by decide) (by decide)
  pushes := by
    intro count few
    have below : kernelAddr 0x608 7 - BitVec.ofNat 64 (8 * (count + 1)) = kernelAddr 0x608 (6 - count) := by
      have sum : 7 = 6 - count + (count + 1) := by omega
      rw [sum, kernelAddr_sub]
    change Elsewhere _ _ (kernelAddr 0x608 7 - _)
    rw [below]
    exact idle_elsewhere (by decide) (by omega) (by decide)
  save := idle_elsewhere (by decide) (by decide) (by decide)

/-- The facts about a call of `fork` in the example. -/
def idleView : Bool :=
  match idleCore.enter with
  | .error _ => false
  | .ok entered =>
    match entered.syscall with
    | .error _ => false
    | .ok (_, forked) =>
      entered.machine.firstUnused = some secondProc ∧ (forked.table.proc secondProc).state = .runnable ∧
        (forked.table.proc firstProc).killed = false ∧ (forked.proc secondProc).kstack = 0x1000

theorem idle_forks : ∃ entered pid forked, idleCore.enter = .ok entered ∧ entered.syscall = .ok (pid, forked) ∧
    entered.machine.firstUnused = some secondProc ∧ (forked.table.proc secondProc).state = .runnable ∧
    (forked.table.proc firstProc).killed = false ∧ (forked.proc secondProc).kstack = 0x1000 := by
  have holds : idleView = true := by decide +kernel
  rw [idleView] at holds
  split at holds
  · cases holds
  · rename_i entered ran
    split at holds
    · cases holds
    · rename_i pid forked called
      exact ⟨entered, pid, forked, ran, called, of_decide_eq_true holds⟩

/-- A parent with 7 in `rbx` and its child return with 7 in `rbx`, and the child sees the result 0. -/
theorem fork_resumes_idle :
    ∃ entered pid forked parent child, idleCore.enter = .ok entered ∧ entered.syscall = .ok (pid, forked) ∧
      Core.parentReturn {entered with machine := forked} pid .still = .ok parent ∧
      (idleScheduler forked).childReturn secondProc (kernelAddr 0x609 0) 0x5000 .still = .ok child ∧
      parent.reg .rbx = 7 ∧ (parent.reg .rax).setWidth 32 = (forked.table.proc secondProc).pid ∧
      child.reg .rbx = 7 ∧ child.reg .rax = 0 ∧ child.rip = 0x1004 := by
  obtain ⟨entered, pid, forked, ran, called, first, runnable, alive, kstack⟩ := idle_forks
  obtain ⟨other, again, results⟩ := fork_resumes idleCore_ready rfl
  obtain rfl : entered = other := Except.ok.inj (ran.symm.trans again)
  obtain ⟨parents, children⟩ := results pid forked secondProc called first runnable
  have keeps : ∀ frame bottom, forked.Keeps forked frame bottom := fun _ _ => ⟨rfl, rfl, rfl, fun _ _ _ => rfl⟩
  obtain ⟨parent, returned, same, low⟩ := parents forked .still (keeps _ _) (keeps _ _) alive
  obtain ⟨child, scheduled, registers⟩ := children (idleScheduler forked) (kernelAddr 0x609 0) 0x5000 .still rfl rfl
    (keeps _ _) (kstack ▸ idleScheduler_ready forked)
  exact ⟨entered, pid, forked, parent, child, ran, called, returned, scheduled, congrFun same.reg .rbx, low,
    congrFun registers.reg .rbx, congrFun registers.reg .rax, registers.rip⟩

end Xv6
