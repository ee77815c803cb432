import Xv6.Construction.LogProtocol
import Xv6.Proof.Log.Crash

namespace Xv6
open Library LogSystem

/-- The guard of `begin_op` keeps an operation asleep. -/
def Log.Closed (log : Log) : Prop :=
  log.committing = true ∨ log.lh.n + (log.outstanding + 1) * MAXOPBLOCKS > LOGSIZE

/-- An event enters the loop of `begin_op` from its call or from its sleep. -/
def EntersOp (system : LogSystem) (event : LogEvent) (pid : Nat) : Prop :=
  (event = .beginOp pid ∧ system.place pid = .idle) ∨ (event = .retry pid ∧ system.place pid = .woken)

/-- This relation lists everything that one event can do. -/
inductive LogStep (system : LogSystem) : LogEvent → LogSystem → Prop where
  | sleep {event : LogEvent} (pid : Nat) (enters : EntersOp system event pid)
      (closed : system.kernel.log.Closed) : LogStep system event (system.moveTo pid .sleeping)
  | accept {event : LogEvent} (pid : Nat) (enters : EntersOp system event pid)
      (opened : ¬ system.kernel.log.Closed) :
      LogStep system event ((system.setLog {system.kernel.log with
        outstanding := system.kernel.log.outstanding + 1}).moveTo pid .running)
  | test (pid : Nat) (blockno : BlockNo) (data : Block) (running : system.place pid = .running)
      (room : system.kernel.log.lh.n < LOGSIZE)
      (fits : (system.kernel.log.lh.n : Int) < system.kernel.log.size - 1)
      (inTrans : 1 ≤ system.kernel.log.outstanding) :
      LogStep system (.logWriteTest pid blockno data) (system.moveTo pid (.appending blockno data))
  | append (pid : Nat) (blockno : BlockNo) (data : Block) (lh : LogHeader)
      (pending : system.place pid = .appending blockno data)
      (stored : system.kernel.log.lh.logWrite blockno = some lh) :
      LogStep system (.logWriteAppend pid blockno)
        {kernel := {system.kernel with
            log := {system.kernel.log with lh}
            dirty := Function.update system.kernel.dirty blockno (some data)}
         place := Function.update system.place pid .running}
  | last (pid : Nat) (running : system.place pid = .running)
      (opened : system.kernel.log.committing = false)
      (alone : system.kernel.log.outstanding - 1 = 0) :
      LogStep system (.endOp pid) ((system.setLog {system.kernel.log with
        outstanding := system.kernel.log.outstanding - 1, committing := true}).moveTo pid .committing)
  | leave (pid : Nat) (running : system.place pid = .running)
      (opened : system.kernel.log.committing = false)
      (others : system.kernel.log.outstanding - 1 ≠ 0) :
      LogStep system (.endOp pid) ((system.setLog {system.kernel.log with
        outstanding := system.kernel.log.outstanding - 1}).wakeup.moveTo pid .idle)
  | commit (pid : Nat) (closing : system.place pid = .committing) :
      LogStep system (.commit pid) (commitOp system pid)
  | finish (pid : Nat) (closed : system.place pid = .committed) :
      LogStep system (.finish pid) (finishOp system pid)

theorem beginOp_step (s : LogSystem) (event : LogEvent) (pid : Nat) (enters : EntersOp s event pid) :
    LogStep s event (beginOp s pid) := by
  unfold beginOp
  dsimp only
  split
  case isTrue committing => exact .sleep pid enters (.inl committing)
  case isFalse idle =>
    split
    case isTrue full => exact .sleep pid enters (.inr full)
    case isFalse room => exact .accept pid enters (not_or.mpr ⟨idle, room⟩)

theorem logWriteTest_step (s next : LogSystem) (pid : Nat) (blockno : BlockNo) (data : Block)
    (running : s.place pid = .running) (ran : logWriteTest s pid blockno data = .ok next) :
    LogStep s (.logWriteTest pid blockno data) next := by
  unfold logWriteTest at ran
  dsimp only at ran
  split at ran
  · cases ran
  case isFalse room =>
    split at ran
    · cases ran
    case isFalse inTrans =>
      cases ran
      rw [not_or] at room
      exact .test pid blockno data running (by omega) (by omega) (by omega)

theorem logWriteAppend_step (s next : LogSystem) (pid : Nat) (blockno : BlockNo) (data : Block)
    (pending : s.place pid = .appending blockno data) (ran : logWriteAppend s pid blockno data = .ok next) :
    LogStep s (.logWriteAppend pid blockno) next := by
  unfold logWriteAppend at ran
  split at ran
  case h_1 lh stored =>
    cases ran
    exact .append pid blockno data lh pending stored
  · cases ran

theorem endOp_step (s next : LogSystem) (pid : Nat) (running : s.place pid = .running)
    (ran : endOp s pid = .ok next) : LogStep s (.endOp pid) next := by
  unfold endOp at ran
  dsimp only at ran
  split at ran
  · cases ran
  case isFalse opened =>
    split at ran
    case isTrue alone =>
      cases ran
      exact .last pid running (Bool.not_eq_true _ ▸ opened) alone
    case isFalse others =>
      cases ran
      exact .leave pid running (Bool.not_eq_true _ ▸ opened) others

/-- A completed event is one of the listed steps. -/
theorem LogStep.of_step {s next : LogSystem} {event : LogEvent} (ran : s.step event = .ok next) :
    LogStep s event next := by
  cases event with
  | beginOp pid =>
    simp only [step] at ran
    split at ran <;> cases ran
    exact beginOp_step s _ pid (.inl ⟨rfl, by assumption⟩)
  | retry pid =>
    simp only [step] at ran
    split at ran <;> cases ran
    exact beginOp_step s _ pid (.inr ⟨rfl, by assumption⟩)
  | logWriteTest pid blockno data =>
    simp only [step] at ran
    split at ran
    · exact logWriteTest_step s next pid blockno data (by assumption) ran
    · cases ran
  | logWriteAppend pid blockno =>
    simp only [step] at ran
    split at ran
    case h_1 pending data waiting =>
      split at ran
      case isTrue same =>
        subst pending
        exact logWriteAppend_step s next pid blockno data waiting ran
      · cases ran
    · cases ran
  | endOp pid =>
    simp only [step] at ran
    split at ran
    · exact endOp_step s next pid (by assumption) ran
    · cases ran
  | commit pid =>
    simp only [step] at ran
    split at ran <;> cases ran
    exact .commit pid (by assumption)
  | finish pid =>
    simp only [step] at ran
    split at ran <;> cases ran
    exact .finish pid (by assumption)

/-- The header absorbs a block that it holds and appends any other block. -/
theorem LogHeader.logWrite_block {lh next : LogHeader} {blockno : BlockNo} (stored : lh.logWrite blockno = some next) :
    next.block = if blockno ∈ lh.block then lh.block else lh.block ++ [blockno] := by
  unfold logWrite at stored
  split at stored
  case isTrue missing =>
    have absent : blockno ∉ lh.block := by
      intro member
      have found := List.findIdx_lt_length_of_exists (p := (· == blockno)) ⟨blockno, member, by simp⟩
      exact absurd missing (Nat.ne_of_lt found)
    split at stored
    · cases stored
      rw [if_neg absent]
    · cases stored
  case isFalse found =>
    have bound : lh.search blockno < lh.block.length :=
      Nat.lt_of_le_of_ne List.findIdx_le_length found
    have same : lh.block[lh.search blockno] = blockno :=
      eq_of_beq (List.findIdx_getElem (p := (· == blockno)) (w := bound))
    have unchanged : lh.block.set (lh.search blockno) blockno = lh.block := by
      conv_lhs =>
        arg 3
        rw [← same]
      exact List.set_getElem_self bound
    cases stored
    rw [if_pos (same ▸ List.getElem_mem bound)]
    exact unchanged

/-- A header with a free position or the block itself takes the block. -/
theorem LogHeader.logWrite_some {lh : LogHeader} {blockno : BlockNo}
    (room : blockno ∈ lh.block ∨ lh.n < LOGSIZE) : ∃ next, lh.logWrite blockno = some next := by
  unfold logWrite
  split
  case isTrue missing =>
    rcases room with member | free
    · have found := List.findIdx_lt_length_of_exists (p := (· == blockno)) ⟨blockno, member, by simp⟩
      exact absurd missing (Nat.ne_of_lt found)
    · exact ⟨_, dif_pos free⟩
  case isFalse found => exact ⟨_, rfl⟩

theorem LogHeader.eq_empty {lh : LogHeader} (empty : lh.block = []) : lh = LogHeader.empty := by
  cases lh
  simp only at empty
  subst empty
  rfl

/-- A commit empties the header and keeps the rest of the descriptor. -/
theorem commit_log (state : LogState) : (commit state).log = {state.log with lh := .empty} := by
  unfold commit
  split
  case isTrue logged =>
    change {(installTrans (writeHead (writeLog state))).log with lh := .empty} = _
    rw [installTrans, copyBlocks_log, writeHead_log, writeLog, copyBlocks_log]
  case isFalse idle =>
    have empty : state.log.lh = LogHeader.empty :=
      LogHeader.eq_empty (List.length_eq_zero_iff.mp (Nat.eq_zero_of_not_pos idle))
    rw [← empty]

@[simp] theorem commitOp_log (s : LogSystem) (pid : Nat) :
    (commitOp s pid).kernel.log = {s.kernel.log with lh := .empty} :=
  commit_log s.kernel

end Xv6
