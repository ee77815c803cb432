import Xv6.Proof.Log.Operations
import Xv6.Proof.Log.Region
import Mathlib.Algebra.BigOperators.Group.Finset.Basic
import Mathlib.Algebra.Order.BigOperators.Group.Finset

namespace Xv6
open Library Function List Finset LogSystem
variable {system s next : LogSystem} {event : LogEvent} {disk : Disk} {events : List LogEvent} {ops rest : Finset Nat}
  {pid : Nat} {blockno : BlockNo} {data : Block}

/-- An operation counts a block when its append completes. -/
def appendedStep (pid : Nat) (blocks : Finset BlockNo) : LogEvent → Finset BlockNo
  | .beginOp caller => if caller = pid then ∅ else blocks
  | .logWriteAppend caller blockno => if caller = pid then insert blockno blocks else blocks
  | _ => blocks

/-- These are the distinct blocks that the current operation of a process has appended. -/
def appendedBlocks (pid : Nat) (events : List LogEvent) : Finset BlockNo :=
  events.foldl (appendedStep pid) ∅

@[simp] theorem appendedBlocks_snoc (pid : Nat) (events : List LogEvent) (event : LogEvent) :
    appendedBlocks pid (events ++ [event]) = appendedStep pid (appendedBlocks pid events) event := by
  simp [appendedBlocks]

/-- The number of blocks that an operation may still append. -/
def owed (events : List LogEvent) (pid : Nat) : Nat := MAXOPBLOCKS - (appendedBlocks pid events).card

/-- The logged blocks and the blocks still owed by the admitted operations fit in the header. -/
structure LogReserved (events : List LogEvent) (system : LogSystem) (ops : Finset Nat) : Prop where
  appended : ∀ pid ∈ ops, ∀ blockno ∈ appendedBlocks pid events, blockno ∈ transactionBlocks events
  called : ∀ pid, appendedBlocks pid events ⊆ opBlocks pid events
  pending : ∀ pid blockno data, system.place pid = .appending blockno data → blockno ∈ opBlocks pid events
  waiting : ∀ pid, (system.place pid).Waiting → appendedBlocks pid events = ∅
  reserve : (transactionBlocks events).length + ∑ pid ∈ ops, owed events pid ≤ LOGSIZE

/-- The header lists exactly the blocks of the current transaction. -/
theorem LogStep.entries (step : LogStep s event next) :
    next.kernel.log.lh.block = transactionStep s.kernel.log.lh.block event := by
  cases step with
  | sleep pid enters closed | accept pid enters opened => rcases enters with ⟨rfl, _⟩ | ⟨rfl, _⟩ <;> rfl
  | append pid blockno data lh pending stored => exact LogHeader.logWrite_block stored
  | commit pid closing =>
    rw [commitOp_log]
    rfl
  | _ => rfl

theorem interleave_entries (ran : interleave disk events = .ok s) :
    s.kernel.log.lh.block = transactionBlocks events := by
  refine runEvents_invariant (fun events s => s.kernel.log.lh.block = transactionBlocks events) rfl ?_ ran
  intro events state event next held stepped
  rw [(LogStep.of_step stepped).entries, held, transactionBlocks_snoc]

/-- Events without log writes keep the reservation of the remaining operations. -/
theorem LogReserved.relocate (held : LogReserved events s ops) (fewer : rest ⊆ ops)
    (transaction : ∀ blocks, transactionStep blocks event = blocks)
    (called : ∀ pid blocks, opStep pid blocks event = blocks)
    (appended : ∀ pid blocks, appendedStep pid blocks event = blocks)
    (pending : ∀ pid blockno data, next.place pid = .appending blockno data → s.place pid = .appending blockno data)
    (waiting : ∀ pid, (next.place pid).Waiting → (s.place pid).Waiting) :
    LogReserved (events ++ [event]) next rest := by
  have sameOwed (pid : Nat) : owed (events ++ [event]) pid = owed events pid := by
    rw [owed, appendedBlocks_snoc, appended, owed]
  constructor
  · intro pid member
    rw [appendedBlocks_snoc, appended, transactionBlocks_snoc, transaction]
    exact held.appended pid (fewer member)
  · intro pid
    rw [appendedBlocks_snoc, appended, opBlocks_snoc, called]
    exact held.called pid
  · intro pid blockno data place
    rw [opBlocks_snoc, called]
    exact held.pending pid blockno data (pending pid blockno data place)
  · intro pid place
    rw [appendedBlocks_snoc, appended]
    exact held.waiting pid (waiting pid place)
  · rw [transactionBlocks_snoc, transaction, sum_congr rfl fun pid _ => sameOwed pid]
    exact (Nat.add_le_add_left (sum_le_sum_of_subset fewer) _).trans held.reserve

/-- An event that enters `begin_op` starts an empty operation and keeps the others. -/
theorem EntersOp.history (enters : EntersOp s event pid) (held : LogReserved events s ops) :
    transactionBlocks (events ++ [event]) = transactionBlocks events ∧ appendedBlocks pid (events ++ [event]) = ∅ ∧
      ∀ other, other ≠ pid → appendedBlocks other (events ++ [event]) = appendedBlocks other events ∧
        opBlocks other (events ++ [event]) = opBlocks other events := by
  rcases enters with ⟨rfl, idle⟩ | ⟨rfl, woken⟩
  · refine ⟨by simp [transactionStep], by simp [appendedStep], fun other ne => ?_⟩
    simp [appendedStep, opStep, ne.symm]
  · refine ⟨by simp [transactionStep], ?_, fun other ne => ?_⟩
    · rw [appendedBlocks_snoc]
      exact held.waiting pid (by simp [woken])
    · simp [appendedStep, opStep]

section
variable (held : LogReserved events s ops)
include held

/-- A process that enters `begin_op` sleeps or joins the operations with its full budget. -/
theorem LogReserved.enter {target : LogPlace} (enters : EntersOp s event pid)
    (notPending : ∀ blockno data, target ≠ .appending blockno data)
    (moved : next.place = update s.place pid target) (fewer : rest ⊆ insert pid ops)
    (reserve : (transactionBlocks events).length + ∑ other ∈ rest, owed (events ++ [event]) other ≤ LOGSIZE) :
    LogReserved (events ++ [event]) next rest := by
  obtain ⟨transaction, fresh, others⟩ := enters.history held
  constructor
  · intro other member
    by_cases equal : other = pid
    · subst other
      simp [fresh]
    · rw [(others other equal).1, transaction]
      exact held.appended other (mem_of_mem_insert_of_ne (fewer member) equal)
  · intro other
    by_cases equal : other = pid
    · subst other
      simp [fresh]
    · rw [(others other equal).1, (others other equal).2]
      exact held.called other
  · intro other blockno data place
    rw [moved] at place
    obtain ⟨ne, before⟩ := update_status_ne (· = .appending blockno data) (notPending blockno data) place
    rw [(others other ne).2]
    exact held.pending other blockno data before
  · intro other place
    by_cases equal : other = pid
    · subst other
      exact fresh
    · rw [moved, update_of_ne equal] at place
      rw [(others other equal).1]
      exact held.waiting other place
  · rw [transaction]
    exact reserve

theorem LogReserved.sleep (enters : EntersOp s event pid) (absent : pid ∉ ops) :
    LogReserved (events ++ [event]) (s.moveTo pid .sleeping) ops := by
  refine held.enter enters (by simp) rfl (subset_insert pid ops) ?_
  have same : ∑ other ∈ ops, owed (events ++ [event]) other = ∑ other ∈ ops, owed events other := by
    refine sum_congr rfl fun other member => ?_
    have ne : other ≠ pid := by
      rintro rfl
      exact absent member
    rw [owed, ((enters.history held).2.2 other ne).1, owed]
  rw [same]
  exact held.reserve

/-- The guard of `begin_op` leaves room for the full budget of every admitted operation. -/
theorem LogReserved.accept (enters : EntersOp s event pid) (absent : pid ∉ ops)
    (outstanding : s.kernel.log.outstanding = ops.card) (entries : s.kernel.log.lh.block = transactionBlocks events)
    (opened : ¬ s.kernel.log.Closed) (moved : next.place = update s.place pid .running) :
    LogReserved (events ++ [event]) next (insert pid ops) := by
  refine held.enter enters (by simp) moved (Finset.Subset.refl _) ?_
  have bound : ∑ other ∈ insert pid ops, owed (events ++ [event]) other ≤ (insert pid ops).card • 10 :=
    sum_le_card_nsmul _ _ _ fun other _ => Nat.sub_le _ _
  rw [card_insert_of_notMem absent, smul_eq_mul] at bound
  have guard := (not_or.mp opened).2
  rw [LogHeader.n, entries, outstanding] at guard
  simp only [MAXOPBLOCKS, LOGSIZE] at guard ⊢
  omega

theorem LogReserved.test (blockno : BlockNo) (data : Block) :
    LogReserved (events ++ [.logWriteTest pid blockno data]) (s.moveTo pid (.appending blockno data)) ops := by
  constructor
  · intro other member
    rw [appendedBlocks_snoc, transactionBlocks_snoc]
    exact held.appended other member
  · intro other
    rw [appendedBlocks_snoc, opBlocks_snoc]
    refine (held.called other).trans ?_
    simp only [opStep]
    split
    · exact subset_insert _ _
    · exact Finset.Subset.refl _
  · intro other pendingBlock pendingData place
    rw [opBlocks_snoc]
    by_cases equal : other = pid
    · subst other
      rw [moveTo_place, update_self] at place
      cases place
      simp [opStep]
    · rw [moveTo_place, update_of_ne equal] at place
      simp only [opStep, if_neg (Ne.symm equal)]
      exact held.pending other pendingBlock pendingData place
  · intro other place
    rw [appendedBlocks_snoc]
    exact held.waiting other (update_status_ne LogPlace.Waiting id place).2
  · have same (other : Nat) : owed (events ++ [.logWriteTest pid blockno data]) other = owed events other := by
      rw [owed, appendedBlocks_snoc]
      rfl
    rw [transactionBlocks_snoc, sum_congr rfl fun other _ => same other]
    exact held.reserve

/-- A pending block that is new to the transaction still belongs to the budget of its operation. -/
theorem LogReserved.owed_pos (budget : Budget events) (pending : s.place pid = .appending blockno data)
    (fresh : blockno ∉ appendedBlocks pid events) : (appendedBlocks pid events).card < MAXOPBLOCKS := by
  have inside : insert blockno (appendedBlocks pid events) ⊆ opBlocks pid events :=
    insert_subset (held.pending pid blockno data pending) (held.called pid)
  have size := card_le_card inside
  rw [card_insert_of_notMem fresh] at size
  have bound := budget events prefix_rfl pid
  omega

/-- An append moves one block from the budget of its operation to the transaction. -/
theorem LogReserved.append_reserve (budget : Budget events) (pending : s.place pid = .appending blockno data)
    (member : pid ∈ ops) :
    (transactionBlocks (events ++ [.logWriteAppend pid blockno])).length +
      ∑ other ∈ ops, owed (events ++ [.logWriteAppend pid blockno]) other ≤ LOGSIZE := by
  have others : ∑ other ∈ ops.erase pid, owed (events ++ [.logWriteAppend pid blockno]) other =
      ∑ other ∈ ops.erase pid, owed events other := by
    refine sum_congr rfl fun other inside => ?_
    rw [owed, appendedBlocks_snoc]
    simp only [appendedStep, if_neg (Ne.symm (ne_of_mem_erase inside))]
    rfl
  have own : appendedBlocks pid (events ++ [.logWriteAppend pid blockno]) =
      insert blockno (appendedBlocks pid events) := by
    rw [appendedBlocks_snoc]
    exact if_pos rfl
  have reserve := held.reserve
  rw [← add_sum_erase ops _ member] at reserve ⊢
  rw [others, transactionBlocks_snoc, owed, own]
  rw [owed] at reserve
  simp only [transactionStep]
  split
  case isTrue logged =>
    have grows := card_le_card (subset_insert blockno (appendedBlocks pid events))
    omega
  case isFalse new =>
    have fresh : blockno ∉ appendedBlocks pid events := fun inside => new (held.appended pid member _ inside)
    have room := held.owed_pos budget pending fresh
    rw [card_insert_of_notMem fresh, length_append, length_singleton]
    omega

theorem LogReserved.append (budget : Budget events) (pending : s.place pid = .appending blockno data)
    (member : pid ∈ ops) (moved : next.place = update s.place pid .running) :
    LogReserved (events ++ [.logWriteAppend pid blockno]) next ops := by
  have grows (logged : BlockNo) (inside : logged ∈ transactionBlocks events) :
      logged ∈ transactionBlocks (events ++ [.logWriteAppend pid blockno]) := by
    rw [transactionBlocks_snoc]
    simp only [transactionStep]
    split
    · exact inside
    · exact mem_append_left _ inside
  have holds : blockno ∈ transactionBlocks (events ++ [.logWriteAppend pid blockno]) := by
    rw [transactionBlocks_snoc]
    simp only [transactionStep]
    split
    · assumption
    · exact mem_append_right _ mem_cons_self
  constructor
  · intro other inside logged
    rw [appendedBlocks_snoc]
    by_cases equal : other = pid
    · subst other
      simp only [appendedStep, if_true, mem_insert]
      rintro (rfl | earlier)
      · exact holds
      · exact grows logged (held.appended _ inside logged earlier)
    · simp only [appendedStep, if_neg (Ne.symm equal)]
      exact fun earlier => grows logged (held.appended other inside logged earlier)
  · intro other
    rw [appendedBlocks_snoc, opBlocks_snoc]
    by_cases equal : other = pid
    · subst other
      simp only [appendedStep, if_true]
      exact insert_subset (held.pending _ blockno data pending) (held.called _)
    · simp only [appendedStep, if_neg (Ne.symm equal)]
      exact held.called other
  · intro other pendingBlock pendingData place
    rw [opBlocks_snoc]
    rw [moved] at place
    have before := (update_status_ne (· = .appending pendingBlock pendingData) (by simp) place).2
    exact held.pending other pendingBlock pendingData before
  · intro other place
    rw [moved] at place
    obtain ⟨ne, before⟩ := update_status_ne LogPlace.Waiting id place
    rw [appendedBlocks_snoc]
    simp only [appendedStep, if_neg ne.symm]
    exact held.waiting other before
  · exact held.append_reserve budget pending member

end

theorem LogReserved.commit (held : LogReserved events s ∅)
    (moved : next.place = update s.place pid .committed) : LogReserved (events ++ [.commit pid]) next ∅ := by
  constructor
  · intro other member
    exact absurd member (notMem_empty other)
  · intro other
    rw [appendedBlocks_snoc, opBlocks_snoc]
    exact held.called other
  · intro other blockno data place
    rw [opBlocks_snoc]
    rw [moved] at place
    exact held.pending other blockno data (update_status_ne (· = .appending blockno data) (by simp) place).2
  · intro other place
    rw [moved] at place
    rw [appendedBlocks_snoc]
    exact held.waiting other (update_status_ne LogPlace.Waiting id place).2
  · rw [transactionBlocks_snoc]
    exact Nat.zero_le _

theorem LogReserved.wakeup (held : LogReserved events s ops) (fewer : rest ⊆ ops)
    (returns : event = .endOp pid ∨ event = .finish pid)
    (moved : next.place = update (fun other => (s.place other).wake) pid .idle) :
    LogReserved (events ++ [event]) next rest := by
  refine held.relocate fewer ?_ ?_ ?_ ?_ ?_
  · rcases returns with rfl | rfl <;> exact fun _ => rfl
  · rcases returns with rfl | rfl <;> exact fun _ _ => rfl
  · rcases returns with rfl | rfl <;> exact fun _ _ => rfl
  · intro other blockno data place
    rw [moved] at place
    have woken := (update_status_ne (· = .appending blockno data) (by simp) place).2
    cases before : s.place other <;> simp_all [LogPlace.wake]
  · intro other place
    rw [moved] at place
    exact (LogPlace.wake_waiting _).mp (update_status_ne LogPlace.Waiting id place).2

theorem LogReserved.last (held : LogReserved events s ops) (moved : next.place = update s.place pid .committing) :
    LogReserved (events ++ [.endOp pid]) next (ops.erase pid) := by
  refine held.relocate (erase_subset pid ops) (fun _ => rfl) (fun _ _ => rfl) (fun _ _ => rfl) ?_ ?_
  · intro other blockno data place
    rw [moved] at place
    exact (update_status_ne (· = .appending blockno data) (by simp) place).2
  · intro other place
    rw [moved] at place
    exact (update_status_ne LogPlace.Waiting id place).2

/-- One event keeps the counted operations and, within the budget, their reservation. -/
theorem LogStep.reserved (step : LogStep s event next) (counted : LogInvariant s ops)
    (entries : s.kernel.log.lh.block = transactionBlocks events) (budget : Budget events)
    (held : LogReserved events s ops) : ∃ rest, LogInvariant next rest ∧ LogReserved (events ++ [event]) next rest := by
  have absent {pid : Nat} (inactive : ¬ (s.place pid).Active) : pid ∉ ops :=
    fun member => inactive ((counted.active pid).mp member)
  cases step with
  | sleep pid enters closed =>
    obtain ⟨inactive, idle⟩ := enters.place
    exact ⟨ops, counted.sleep inactive idle, held.sleep enters (absent inactive)⟩
  | accept pid enters opened =>
    obtain ⟨inactive, idle⟩ := enters.place
    exact ⟨insert pid ops, counted.accept inactive idle (not_or.mp opened).1,
      held.accept enters (absent inactive) counted.outstanding entries opened rfl⟩
  | test pid blockno data running room fits inTrans =>
    have active : (s.place pid).Active := by simp [running]
    exact ⟨ops, counted.logWrite active (by trivial) rfl rfl rfl, held.test blockno data⟩
  | append pid blockno data lh pending stored =>
    have active : (s.place pid).Active := by simp [pending]
    exact ⟨ops, counted.logWrite active (by trivial) rfl rfl rfl,
      held.append budget pending ((counted.active pid).mpr active) rfl⟩
  | last pid running opened alone =>
    exact ⟨ops.erase pid, counted.last running opened alone, held.last rfl⟩
  | leave pid running opened others =>
    exact ⟨ops.erase pid, counted.leave running opened, held.wakeup (erase_subset pid ops) (.inl rfl) rfl⟩
  | commit pid closing =>
    have none : ops = ∅ := counted.quiet (counted.closing pid (by simp [closing]))
    subst none
    exact ⟨∅, counted.commit closing, held.commit rfl⟩
  | finish pid closed =>
    exact ⟨ops, counted.finish closed, held.wakeup (Finset.Subset.refl ops) (.inr rfl) rfl⟩

/-- Every run within the budget keeps its reservations. -/
theorem interleave_reserved (ran : interleave disk events = .ok s) (budget : Budget events) :
    ∃ ops, LogInvariant s ops ∧ LogReserved events s ops := by
  revert budget
  have both := runEvents_invariant (fun events s =>
    s.kernel.log.lh.block = transactionBlocks events ∧
      (Budget events → ∃ ops, LogInvariant s ops ∧ LogReserved events s ops)) ?_ ?_ ran
  · exact both.2
  · refine ⟨rfl, fun _ => ⟨∅, ?_, ?_⟩⟩
    · constructor <;> simp [initial, boot]
    · constructor <;> simp [initial, appendedBlocks, transactionBlocks]
  · intro earlier state event next previous stepped
    have step := LogStep.of_step stepped
    refine ⟨by rw [step.entries, previous.1, transactionBlocks_snoc], fun budget => ?_⟩
    have before := budget.mono (prefix_append earlier [event])
    obtain ⟨ops, counted, held⟩ := previous.2 before
    exact step.reserved counted previous.1 before held

/-- An append within the budget finds its block in the header or a free position. -/
theorem LogReserved.logWrite (held : LogReserved events s ops) (budget : Budget events)
    (entries : s.kernel.log.lh.block = transactionBlocks events) (pending : s.place pid = .appending blockno data)
    (member : pid ∈ ops) : ∃ lh, s.kernel.log.lh.logWrite blockno = some lh := by
  apply LogHeader.logWrite_some
  by_cases appended : blockno ∈ appendedBlocks pid events
  · left
    rw [entries]
    exact held.appended pid member blockno appended
  · right
    have room := held.owed_pos budget pending appended
    have share : owed events pid ≤ ∑ other ∈ ops, owed events other :=
      single_le_sum (fun _ _ => Nat.zero_le _) member
    have reserve := held.reserve
    have positive : 0 < owed events pid := Nat.sub_pos_of_lt room
    rw [LogHeader.n, entries]
    omega

/-- Within the budget only the limit test of `log_write` halts the system. -/
theorem LogReserved.halt {halt : LogHalt} (held : LogReserved events s ops) (counted : LogInvariant s ops)
    (entries : s.kernel.log.lh.block = transactionBlocks events) (budget : Budget events)
    (halted : s.step event = .error halt) (possible : halt ≠ .blocked) :
    ∃ pid blockno data, event = .logWriteTest pid blockno data ∧ halt = .panic .tooBig ∧ ¬ s.kernel.log.TestPasses := by
  cases event with
  | beginOp pid | retry pid | commit pid | finish pid =>
    simp only [step] at halted
    split at halted <;> cases halted
    exact absurd rfl possible
  | logWriteTest pid blockno data =>
    simp only [step] at halted
    split at halted
    case h_1 running =>
      have member : pid ∈ ops := (counted.active pid).mpr (by simp [running])
      have inTrans : ¬ s.kernel.log.outstanding < 1 := by
        have positive := card_pos.mpr ⟨pid, member⟩
        rw [counted.outstanding]
        omega
      simp only [logWriteTest, if_neg inTrans] at halted
      split at halted <;> cases halted
      case isTrue full =>
        refine ⟨pid, blockno, data, rfl, rfl, fun passes => ?_⟩
        exact full.elim (Nat.not_le.mpr passes.1) (Int.not_le.mpr passes.2)
    case h_2 =>
      cases halted
      exact absurd rfl possible
  | logWriteAppend pid blockno =>
    simp only [step] at halted
    split at halted
    case h_1 pendingBlock data pending =>
      split at halted
      case isTrue same =>
        subst pendingBlock
        have member : pid ∈ ops := (counted.active pid).mpr (by simp [pending])
        obtain ⟨lh, stored⟩ := held.logWrite budget entries pending member
        simp only [logWriteAppend, stored] at halted
        cases halted
      case isFalse =>
        cases halted
        exact absurd rfl possible
    case h_2 =>
      cases halted
      exact absurd rfl possible
  | endOp pid =>
    simp only [step] at halted
    split at halted
    case h_1 running =>
      have member : pid ∈ ops := (counted.active pid).mpr (by simp [running])
      have opened : ¬ s.kernel.log.committing = true := by
        intro busy
        rw [counted.quiet busy] at member
        exact absurd member (notMem_empty pid)
      simp only [endOp, if_neg opened] at halted
      split at halted <;> cases halted
    case h_2 =>
      cases halted
      exact absurd rfl possible

/-- Every `log_write` call comes while fewer than `sb.nlog - 1` distinct blocks were logged since the last
commit. -/
def Roomy (events : List LogEvent) : Prop :=
  ∀ earlier pid blockno data, earlier ++ [.logWriteTest pid blockno data] <+: events →
    (transactionBlocks earlier).length < Mkfs.nlog - 1

/-- A reachable limit test passes exactly while the transaction leaves a log block free. -/
theorem testPasses_iff (ran : interleave disk events = .ok s) :
    s.kernel.log.TestPasses ↔ (transactionBlocks events).length < Mkfs.nlog - 1 := by
  have size := (interleave_region ran).2
  rw [Log.TestPasses, LogHeader.n, interleave_entries ran, size]
  simp only [LOGSIZE, MAXOPBLOCKS, Mkfs.nlog]
  omega

/-- Within the budget no `log_write` panics exactly when each of them comes before the transaction fills
the log blocks that `mkfs` laid out. -/
theorem log_reservation_iff (disk : Disk) (events : List LogEvent) (budget : Budget events)
    (possible : interleave disk events ≠ .error .blocked) :
    interleave disk events ≠ .error (.panic .tooBig) ↔ Roomy events := by
  constructor
  · intro fits
    cases outcome : interleave disk events with
    | ok last =>
      intro earlier pid blockno data inside
      obtain ⟨next, stepped⟩ := runEvents_prefix inside outcome
      obtain ⟨middle, reached, taken⟩ := runEvents_snoc.mp stepped
      rw [← testPasses_iff reached]
      cases LogStep.of_step taken with
      | test _ _ _ running room fits inTrans => exact ⟨room, fits⟩
      | sleep _ enters | accept _ enters => rcases enters with ⟨event, _⟩ | ⟨event, _⟩ <;> cases event
    | error halt =>
      obtain ⟨earlier, event, middle, inside, reached, halted⟩ := runEvents_error.mp outcome
      have before := budget.mono ((prefix_append earlier [event]).trans inside)
      obtain ⟨ops, counted, held⟩ := interleave_reserved reached before
      have notBlocked : halt ≠ .blocked := fun equal => possible (equal ▸ outcome)
      obtain ⟨_, _, _, _, rfl, _⟩ := held.halt counted (interleave_entries reached) before halted notBlocked
      exact absurd outcome fits
  · intro roomy panicked
    obtain ⟨earlier, event, middle, inside, reached, halted⟩ := runEvents_error.mp panicked
    have before := budget.mono ((prefix_append earlier [event]).trans inside)
    obtain ⟨ops, counted, held⟩ := interleave_reserved reached before
    obtain ⟨pid, blockno, data, rfl, _, full⟩ :=
      held.halt counted (interleave_entries reached) before halted (by simp)
    exact full ((testPasses_iff reached).mpr (roomy earlier pid blockno data inside))

theorem log_reservation_iff_one_call :
    interleave (fun _ => 0) (.beginOp 0 :: logWriteCall 0 100) ≠ .error (.panic .tooBig) ↔
      Roomy (.beginOp 0 :: logWriteCall 0 100) :=
  log_reservation_iff (fun _ => 0) (.beginOp 0 :: logWriteCall 0 100)
    (budget_of_inits [0] (by decide +kernel) (by decide +kernel))
    (by rw [ne_eq, ← haltOf_eq_some]; decide +kernel)

/-- Three admitted operations of ten blocks each panic at their thirtieth block. -/
def fullRun : List LogEvent :=
  [.beginOp 0, .beginOp 1, .beginOp 2] ++
    (List.range 10).flatMap (fun i => logWriteCall 0 (BitVec.ofNat 32 (100 + i))) ++
    (List.range 10).flatMap (fun i => logWriteCall 1 (BitVec.ofNat 32 (110 + i))) ++
    (List.range 10).flatMap (fun i => logWriteCall 2 (BitVec.ofNat 32 (120 + i)))

/-- The thirtieth block that `begin_op` admitted finds no log block. -/
theorem log_reservation_falls_short :
    Budget fullRun ∧ interleave (fun _ => 0) fullRun = .error (.panic .tooBig) := by
  refine ⟨budget_of_inits [0, 1, 2] (by decide +kernel) (by decide +kernel), ?_⟩
  rw [← haltOf_eq_some]
  decide +kernel

end Xv6
