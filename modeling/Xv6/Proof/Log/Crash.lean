import Xv6.Library.RedoLog
import Xv6.Proof.Log.Header

namespace Xv6
open Library Function List LogHeader

@[simp] theorem LogState.bwrite_disk (s : LogState) (blockno : BlockNo) (data : Block) :
    (s.bwrite blockno data).disk = update s.disk blockno data := rfl

@[simp] theorem LogState.bwrite_writes (s : LogState) (blockno : BlockNo) (data : Block) :
    (s.bwrite blockno data).writes = s.writes ++ [(blockno, data)] := rfl

@[simp] theorem LogState.bread_bwrite (s : LogState) (blockno : BlockNo) (data : Block) :
    (s.bwrite blockno data).bread = update s.bread blockno data := by
  funext other
  by_cases same : other = blockno
  · subst other
    simp [bread, bwrite]
  · simp [bread, bwrite, update_of_ne same]

@[simp] theorem LogState.clear_bread (s : LogState) : s.clear.bread = s.bread := rfl

@[simp] theorem LogState.clear_writes (s : LogState) : s.clear.writes = s.writes := rfl

@[simp] theorem writeHead_log (s : LogState) : (writeHead s).log = s.log := rfl

theorem writeHead_writes (s : LogState) : (writeHead s).writes =
    s.writes ++ [(s.log.start, encodeHead (s.bread s.log.start) s.log.lh)] := rfl

theorem writeHead_bread (s : LogState) :
    (writeHead s).bread = update s.bread s.log.start (encodeHead (s.bread s.log.start) s.log.lh) := s.bread_bwrite _ _

/-- Every write reaches the disk at once, so the recorded writes produce the disk. -/
def LogState.Through (base : Disk) (state : LogState) : Prop :=
  state.disk = applyWrites state.writes base

theorem LogState.Through.bwrite {base : Disk} {s : LogState} (through : s.Through base)
    (blockno : BlockNo) (data : Block) : (s.bwrite blockno data).Through base := by
  rw [Through, bwrite_disk, bwrite_writes, applyWrites_append, ← through]
  rfl

theorem LogState.Through.copyBlocks {base : Disk} {s : LogState} (through : s.Through base)
    (pairs : List (BlockNo × BlockNo)) : (copyBlocks pairs s).Through base := by
  induction pairs generalizing s with
  | nil => exact through
  | cons pair rest ih => exact ih (through.bwrite pair.1 (s.bread pair.2))

theorem LogState.Through.installTrans {base : Disk} {s : LogState} (through : s.Through base) :
    (writeHead (installTrans s).clear).Through base := by
  have installed : (Xv6.installTrans s).clear.Through base := through.copyBlocks _
  exact installed.bwrite _ _

/-- The writes of a copy loop carry the contents that the sources had before the loop. -/
def copied (state : LogState) (pairs : List (BlockNo × BlockNo)) : List (BlockNo × Block) :=
  pairs.map fun pair => (pair.1, state.bread pair.2)

theorem copyBlocks_log (pairs : List (BlockNo × BlockNo)) (s : LogState) : (copyBlocks pairs s).log = s.log := by
  induction pairs generalizing s with
  | nil => rfl
  | cons pair rest ih => exact ih (s.bwrite pair.1 (s.bread pair.2))

/-- A copy loop whose sources it never overwrites issues one write per pair. -/
theorem copyBlocks_spec (pairs : List (BlockNo × BlockNo)) (s : LogState)
    (apart : ∀ target ∈ pairs, ∀ source ∈ pairs, source.2 ≠ target.1) :
    (copyBlocks pairs s).writes = s.writes ++ copied s pairs ∧
      (copyBlocks pairs s).bread = applyWrites (copied s pairs) s.bread := by
  induction pairs generalizing s with
  | nil => simp [copyBlocks, copied]
  | cons pair rest ih =>
    let next := s.bwrite pair.1 (s.bread pair.2)
    have kept : copied next rest = copied s rest := by
      refine map_congr_left fun source member => ?_
      have ne := apart pair (.head _) source (mem_cons_of_mem _ member)
      simp only [next, LogState.bread_bwrite, update_of_ne ne]
    have tail := ih next fun target inTarget source inSource =>
      apart target (mem_cons_of_mem _ inTarget) source (mem_cons_of_mem _ inSource)
    rw [kept] at tail
    constructor
    · rw [copyBlocks, foldl_cons]
      refine tail.1.trans ?_
      simp [next, copied]
    · rw [copyBlocks, foldl_cons]
      refine tail.2.trans ?_
      simp [next, copied]

/-- No logged block is the log block of a position in use. -/
def LogState.Apart (state : LogState) : Prop :=
  ∀ home ∈ state.log.lh.block, ∀ tail < state.log.lh.block.length, home ≠ state.log.slotBlock tail

/-- The log loop records the buffered contents of every logged block. -/
theorem writeLog_spec (s : LogState) (apart : s.Apart) :
    let records := s.log.lh.block.zipIdx.map fun entry =>
      (s.log.slotBlock entry.2, s.bread entry.1)
    (writeLog s).log = s.log ∧ (writeLog s).writes = s.writes ++ records ∧
      (writeLog s).bread = applyWrites records s.bread := by
  intro records
  have spec := copyBlocks_spec (s.log.lh.block.zipIdx.map fun entry => (s.log.slotBlock entry.2, entry.1)) s (by
      intro target inTarget source inSource
      obtain ⟨first, inFirst, rfl⟩ := mem_map.mp inTarget
      obtain ⟨second, inSecond, rfl⟩ := mem_map.mp inSource
      exact apart _ (zipIdx_home inSecond).1 _ (zipIdx_home inFirst).2)
  rw [copied, map_map] at spec
  exact ⟨copyBlocks_log _ s, spec⟩

/-- The install loop copies every log block to its home location. -/
theorem installTrans_spec (s : LogState) (apart : s.Apart) :
    let homes := s.log.lh.block.zipIdx.map fun entry =>
      (entry.1, s.bread (s.log.slotBlock entry.2))
    (installTrans s).log = s.log ∧ (installTrans s).writes = s.writes ++ homes ∧
      (installTrans s).bread = applyWrites homes s.bread := by
  intro homes
  have spec := copyBlocks_spec (s.log.lh.block.zipIdx.map fun entry => (entry.1, s.log.slotBlock entry.2)) s (by
      intro target inTarget source inSource
      obtain ⟨first, inFirst, rfl⟩ := mem_map.mp inTarget
      obtain ⟨second, inSecond, rfl⟩ := mem_map.mp inSource
      exact (apart _ (zipIdx_home inFirst).1 _ (zipIdx_home inSecond).2).symm)
  rw [copied, map_map] at spec
  exact ⟨copyBlocks_log _ s, spec⟩

/-- The header block and the log blocks form a physical redo log. -/
def redoLog (start : BlockNo) : RedoLog BlockNo Block where
  head := start
  record tail := start + BitVec.ofNat 32 tail + 1
  decode buf := (decodeHead buf).map LogHeader.block
  erase buf := encodeHead buf LogHeader.empty
  erased buf := by simp [decodeHead_encodeHead, LogHeader.empty]

/-- The home blocks and the log region satisfy the placement rules of the redo log. -/
theorem redoLog_transaction (start : BlockNo) (size : Int) (lh : LogHeader) (room : (lh.n : Int) ≤ size - 1)
    (distinct : lh.block.Nodup) (outside : ∀ home ∈ lh.block, ¬ InLog start size home) :
    (redoLog start).Transaction (InLog start size) lh.block := by
  have bound : lh.block.length ≤ 30 := lh.fits
  have within : (lh.block.length : Int) ≤ size - 1 := room
  refine ⟨⟨0, by omega, by simp [redoLog]⟩, fun index inside => ⟨index + 1, by omega, ?_⟩,
    fun index inside equal => ?_, fun i inI j inJ equal => ?_, distinct, outside⟩
  · apply BitVec.eq_of_toNat_eq
    simp [redoLog, Nat.add_assoc]
  all_goals
    have values := congrArg BitVec.toNat equal
    simp only [redoLog, BitVec.toNat_add, BitVec.toNat_ofNat, BitVec.ofNat_eq_ofNat] at values
    omega

/-- A placed transaction keeps its home blocks apart from the log blocks. -/
theorem apart_of_transaction (s : LogState) (reserved : BlockNo → Prop)
    (place : (redoLog s.log.start).Transaction reserved s.log.lh.block) : s.Apart :=
  fun home inHome tail inTail => ne_of_reserved (place.outside home inHome) (place.record tail inTail)

/-- A commit starts with the new contents in pinned buffers and the old contents on the disk. -/
def transaction (start : BlockNo) (size : Int) (lh : LogHeader) (old new : Disk) : LogState where
  log := ⟨start, size, 0, true, lh⟩
  dirty blockno := if blockno ∈ lh.block then some (new blockno) else none
  disk := old
  writes := []

/-- The buffers show the committed contents before the commit. -/
theorem transaction_bread (start : BlockNo) (size : Int) (lh : LogHeader) (old new : Disk) :
    (transaction start size lh old new).bread = committed lh.block old new := by
  funext blockno
  simp only [LogState.bread, transaction, committed]
  split <;> rfl

/-- The log loop of a commit records the new contents of every logged block. -/
theorem writeLog_transaction (start : BlockNo) (size : Int) (lh : LogHeader) (old new : Disk)
    (place : (redoLog start).Transaction (InLog start size) lh.block) :
    let records := lh.block.zipIdx.map fun entry => ((redoLog start).record entry.2, new entry.1)
    let recorded := writeLog (transaction start size lh old new)
    recorded.log = ⟨start, size, 0, true, lh⟩ ∧ recorded.writes = records ∧
      recorded.bread = applyWrites records (committed lh.block old new) := by
  intro records recorded
  have spec := writeLog_spec (transaction start size lh old new) (apart_of_transaction _ _ place)
  have same : (lh.block.zipIdx.map fun entry => ((redoLog start).record entry.2,
      (transaction start size lh old new).bread entry.1)) = records := by
    refine map_congr_left fun entry member => ?_
    rw [transaction_bread, committed, if_pos (zipIdx_home member).1]
  rw [← same, ← transaction_bread start size]
  exact spec

/-- The install loop of a commit writes the new contents to every home block. -/
theorem installTrans_transaction (start : BlockNo) (size : Int) (lh : LogHeader) (old new : Disk)
    (place : (redoLog start).Transaction (InLog start size) lh.block) :
    let headed := writeHead (writeLog (transaction start size lh old new))
    (installTrans headed).log = ⟨start, size, 0, true, lh⟩ ∧ (installTrans headed).writes =
      headed.writes ++ lh.block.zipIdx.map fun entry => (entry.1, new entry.1) := by
  intro headed
  obtain ⟨sameLog, _, view⟩ := writeLog_transaction start size lh old new place
  have headedLog : headed.log = ⟨start, size, 0, true, lh⟩ := sameLog
  have spec := installTrans_spec headed (apart_of_transaction headed (InLog start size)
    (by rw [headedLog]; exact place))
  have same : (lh.block.zipIdx.map fun entry => (entry.1, headed.bread ((redoLog start).record entry.2))) =
      lh.block.zipIdx.map fun entry => (entry.1, new entry.1) := by
    refine map_congr_left fun entry member => ?_
    have notHead : (redoLog start).record entry.2 ≠ start :=
      place.recordHead entry.2 (zipIdx_home member).2
    rw [writeHead_bread, sameLog, update_of_ne notHead, view, RedoLog.applyWrites_record place member]
  rw [headedLog] at spec
  exact ⟨spec.1, spec.2.1.trans (congrArg (headed.writes ++ ·) same)⟩

/-- The commit issues exactly the writes of the redo-log protocol. -/
theorem commit_writes (start : BlockNo) (size : Int) (lh : LogHeader) (old new : Disk)
    (place : (redoLog start).Transaction (InLog start size) lh.block) (logged : 0 < lh.n) :
    ∃ before after, (commit (transaction start size lh old new)).writes =
      (redoLog start).commitWrites lh.block new (encodeHead before lh) (encodeHead after empty) := by
  let recorded := writeLog (transaction start size lh old new)
  let installed := installTrans (writeHead recorded)
  obtain ⟨recordedLog, recordedWrites, _⟩ := writeLog_transaction start size lh old new place
  obtain ⟨installedLog, installedWrites⟩ := installTrans_transaction start size lh old new place
  have unfolded : commit (transaction start size lh old new) = writeHead installed.clear := if_pos logged
  refine ⟨recorded.bread recorded.log.start, installed.bread installed.log.start, ?_⟩
  have clearedStart : installed.clear.log.start = start := congrArg Log.start installedLog
  rw [unfolded, writeHead_writes, LogState.clear_writes, installedWrites, writeHead_writes, recordedWrites,
    clearedStart, show installed.log.start = start from clearedStart, recordedLog]
  simp only [RedoLog.commitWrites, append_assoc]
  rfl

/-- A recovery after a boot installs the records that the header names and erases the header. -/
theorem recoverFromLog_spec (start : BlockNo) (size : Int) (disk : Disk) (lh : LogHeader) (reserved : BlockNo → Prop)
    (decoded : decodeHead (disk start) = some lh) (place : (redoLog start).Transaction reserved lh.block) :
    ∃ final, recoverFromLog (boot start size disk) = some final ∧
      some final.writes = (redoLog start).recoveryWrites disk ∧
      final.disk = applyWrites final.writes disk ∧
      final.disk start = encodeHead (disk start) empty := by
  let loaded : LogState := {boot start size disk with log := ⟨start, size, 0, false, lh⟩}
  have read : readHead (boot start size disk) = some loaded := by
    change (decodeHead (disk start)).map _ = _
    rw [decoded]
    rfl
  obtain ⟨sameLog, writes, view⟩ := installTrans_spec loaded (apart_of_transaction loaded _ place)
  have keepsHead : (installTrans loaded).bread start = disk start := by
    rw [view, applyWrites_other]
    · rfl
    · intro write member
      obtain ⟨entry, inside, rfl⟩ := mem_map.mp member
      exact ne_of_reserved (place.outside _ (zipIdx_home inside).1) place.head
  have sameStart : (installTrans loaded).clear.log.start = start := congrArg Log.start sameLog
  have headWrite : (writeHead (installTrans loaded).clear).writes =
      (installTrans loaded).writes ++ [(start, encodeHead (disk start) empty)] := by
    rw [writeHead_writes, sameStart, LogState.clear_bread, keepsHead]
    rfl
  have through : loaded.Through disk := rfl
  refine ⟨writeHead (installTrans loaded).clear, ?_, ?_, ?_, ?_⟩
  · rw [recoverFromLog, read]
    rfl
  · rw [headWrite, writes, RedoLog.recoveryWrites]
    simp only [redoLog, decoded, Option.map_some]
    rfl
  · exact through.installTrans
  · rw [through.installTrans, headWrite, applyWrites_append]
    exact update_self ..

/-- One run of the recovery issues these writes. -/
def recoveryRun (start : BlockNo) (size : Int) (disk : Disk) : Option (List (BlockNo × Block)) :=
  (recoverFromLog (boot start size disk)).map LogState.writes

/-- The recovery follows the redo-log protocol on every recoverable disk. -/
theorem recoverFromLog_recoverable (start : BlockNo) (size : Int) (lh : LogHeader) (old new disk : Disk)
    (place : (redoLog start).Transaction (InLog start size) lh.block)
    (held : (redoLog start).Recoverable (InLog start size) lh.block old new disk) :
    ∃ final, recoverFromLog (boot start size disk) = some final ∧
      some final.writes = (redoLog start).recoveryWrites disk ∧
      final.disk = applyWrites final.writes disk ∧
      final.disk start = encodeHead (disk start) empty := by
  rcases held.decode with empty | full
  · obtain ⟨named, decoded, equal⟩ := Option.map_eq_some_iff.mp empty
    exact recoverFromLog_spec start size disk named (InLog start size) decoded
      (equal ▸ RedoLog.Transaction.nil place.head)
  · obtain ⟨named, decoded, equal⟩ := Option.map_eq_some_iff.mp full
    exact recoverFromLog_spec start size disk named (InLog start size) decoded (equal ▸ place)

/-- The cut points of a commit and of its recoveries leave a recoverable disk. -/
theorem commit_recoverable (start : BlockNo) (size : Int) (lh : LogHeader) (old new : Disk)
    (place : (redoLog start).Transaction (InLog start size) lh.block) (idle : headN (old start) = 0)
    (crashed restarted : Disk) (cut : Cut (commit (transaction start size lh old new)).writes old crashed)
    (reruns : CutRuns (recoveryRun start size) crashed restarted) :
    (redoLog start).Recoverable (InLog start size) lh.block old new restarted := by
  have settled : (redoLog start).Settled (InLog start size) old old := by
    refine ⟨?_, fun _ _ => rfl⟩
    simp [redoLog, decodeHead_zero _ idle, empty]
  have follows (disk : Disk) (held : (redoLog start).Recoverable (InLog start size) lh.block old new disk) :
      recoveryRun start size disk = (redoLog start).recoveryWrites disk := by
    obtain ⟨final, ran, writes, _⟩ := recoverFromLog_recoverable start size lh old new disk place held
    rw [recoveryRun, ran, ← writes]
    rfl
  have header (buf : Block) (lh : LogHeader) : (redoLog start).decode (encodeHead buf lh) = some lh.block := by
    simp [redoLog, decodeHead_encodeHead]
  by_cases logged : 0 < lh.n
  · obtain ⟨before, after, writes⟩ := commit_writes start size lh old new place logged
    rw [writes] at cut
    exact RedoLog.crash_recoverable place settled (header _ _) (header _ _) follows cut reruns
  · have idleCommit : commit (transaction start size lh old new) = transaction start size lh old new :=
      if_neg logged
    rw [idleCommit] at cut
    have unchanged : crashed = old := cut_nil cut
    subst crashed
    exact reruns.invariant _ (fun _ _ _ held ran inside =>
      RedoLog.recovery_cut place held (follows _ held ▸ ran) inside) (.inl settled)

/-- A commit that is cut off after any write, followed by recoveries that are cut off after any write,
never mixes old and new contents. -/
theorem commit_crash_atomic (start : BlockNo) (size : Int) (lh : LogHeader) (old new : Disk)
    (room : (lh.n : Int) ≤ size - 1) (distinct : lh.block.Nodup)
    (outside : ∀ home ∈ lh.block, ¬ InLog start size home) (idle : headN (old start) = 0)
    (crashed restarted : Disk)
    (cut : Cut (commit (transaction start size lh old new)).writes old crashed)
    (reruns : CutRuns (recoveryRun start size) crashed restarted) :
    ∃ final, recoverFromLog (boot start size restarted) = some final ∧ headN (final.disk start) = 0 ∧
      ((∀ blockno, ¬ InLog start size blockno → final.disk blockno = old blockno) ∨
        (∀ blockno, ¬ InLog start size blockno →
          final.disk blockno = if blockno ∈ lh.block then new blockno else old blockno)) := by
  have place := redoLog_transaction start size lh room distinct outside
  have held := commit_recoverable start size lh old new place idle crashed restarted cut reruns
  obtain ⟨final, ran, writes, onDisk, head⟩ :=
    recoverFromLog_recoverable start size lh old new restarted place held
  refine ⟨final, ran, ?_, ?_⟩
  · rw [head, headN_encodeHead]
    rfl
  · obtain ⟨issued, protocol, outcome⟩ := RedoLog.recovery_complete place held
    have same : issued = final.writes := Option.some.inj (protocol.symm.trans writes.symm)
    rw [same, ← onDisk] at outcome
    exact outcome.imp And.right And.right

theorem commit_crash_atomic_after_header :
    let lh : LogHeader := ⟨[40], by decide⟩
    let old : Disk := fun _ => 0
    let new : Disk := fun _ => 1
    let crashed := applyWrites ((commit (transaction 2 30 lh old new)).writes.take 2) old
    ∃ final, recoverFromLog (boot 2 30 crashed) = some final ∧ headN (final.disk 2) = 0 ∧
      ((∀ blockno, ¬ InLog 2 30 blockno → final.disk blockno = old blockno) ∨
        (∀ blockno, ¬ InLog 2 30 blockno →
          final.disk blockno = if blockno ∈ lh.block then new blockno else old blockno)) := by
  intro lh old new crashed
  refine commit_crash_atomic 2 30 lh old new (by decide) (by decide) ?_ (by simp [old, headN])
    crashed crashed ⟨_, take_prefix 2 _, rfl⟩ (.rest crashed)
  rintro home member ⟨i, small, equal⟩
  have values := congrArg BitVec.toNat equal
  simp only [lh, mem_singleton] at member
  simp only [member, BitVec.toNat_add, BitVec.toNat_ofNat, BitVec.ofNat_eq_ofNat] at values
  omega

end Xv6
