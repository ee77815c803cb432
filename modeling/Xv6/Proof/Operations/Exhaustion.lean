import Xv6.Proof.Operations.Isolation

namespace Xv6
open Library Finset OpSystem

/-- The number of references that processes have to buffers. -/
def Shared.references (shared : Shared) : Nat := ∑ b, (shared.buf b).refcnt

/-- There are more buffers than blocks in the log and references to buffers. -/
def Shared.Spare (shared : Shared) : Prop := shared.log.lh.n + shared.references < NBUF

instance (shared : Shared) : Decidable shared.Spare := inferInstanceAs (Decidable (_ < _))

/-- The panic of `bget` means that every buffer is referenced or dirty. -/
theorem Bcache.Ring.exhausted {cache : Bcache} {order : List (Fin NBUF)} {dev : BitVec 32} {blockno : BlockNo}
    (ring : cache.Ring order) (ran : cache.bget dev blockno = .error (.panic .noBuffers)) (b : Fin NBUF) :
    ¬cache.unused b := by
  rw [Bcache.bget, ring.scan_next, ring.scan_prev] at ran
  split at ran
  · cases ran
  · cases ran
  · split at ran
    · cases ran
    · cases ran
    · next none => exact List.find?_eq_none.mp (Option.some.inj none) b (List.mem_reverse.mpr (ring.all b))

section Spare
variable {shared : Shared} {duties : Nat → Duty} {moving : Nat → Option (Fin NBUF)} {events : List OpEvent}

/-- The dirty buffers have different blocks of the log. -/
theorem Sound.card_dirty (sound : Sound shared duties moving) :
    (univ.filter fun b => (shared.buf b).dirty = true).card ≤ shared.log.lh.n := by
  have device : ∀ b, (shared.buf b).dirty = true → (shared.buf b).dev = ROOTDEV := fun b dirty =>
    sound.coherent.valid b (sound.coherent.dirty b dirty)
  refine le_trans ?_ (List.toFinset_card_le shared.log.lh.block)
  apply card_le_card_of_injOn fun b => (shared.buf b).blockno
  · intro b dirty
    exact List.mem_toFinset.mpr (sound.listed.listed b (mem_filter.mp dirty).2)
  · intro a first b second same
    exact shared.same_block sound.distinct (device a (mem_filter.mp first).2)
      (device b (mem_filter.mp second).2) same

theorem Shared.card_referenced (shared : Shared) :
    (univ.filter fun b => (shared.buf b).refcnt ≠ 0).card ≤ shared.references := by
  rw [card_filter]
  apply sum_le_sum
  intro b _
  split <;> omega

/-- A spare buffer is neither referenced nor dirty. -/
theorem Sound.exists_unused (sound : Sound shared duties moving) (spare : shared.Spare) :
    ∃ b, shared.cache.unused b := by
  by_contra none
  have covered : (univ : Finset (Fin NBUF)) ⊆ (univ.filter fun b => (shared.buf b).dirty = true) ∪
      univ.filter fun b => (shared.buf b).refcnt ≠ 0 := by
    intro b _
    have used := not_exists.mp none b
    simp only [Bcache.unused, decide_eq_true_eq, not_and, Bool.not_eq_false] at used
    by_cases free : (shared.buf b).refcnt = 0
    · exact mem_union_left _ (mem_filter.mpr ⟨mem_univ b, used free⟩)
    · exact mem_union_right _ (mem_filter.mpr ⟨mem_univ b, free⟩)
  have count := (card_le_card covered).trans (card_union_le _ _)
  have dirty := sound.card_dirty
  have referenced := shared.card_referenced
  rw [card_univ, Fintype.card_fin] at count
  rw [Shared.Spare] at spare
  omega

/-- Only `bget` reports that there are no buffers. -/
theorem Shared.advance_noBuffers {pid : Nat} {inside : Bool} {task : Task}
    (ran : shared.advance pid inside task = .error (.cache (.panic .noBuffers))) :
    ∃ blockno, shared.cache.bget ROOTDEV blockno = .error (.panic .noBuffers) := by
  cases task with
  | run rest =>
    cases rest with
    | pure value => cases ran
    | act op next =>
      cases op with
      | bget blockno =>
        rw [Shared.advance, Shared.act] at ran
        split at ran
        · cases ran
        · next halt failed =>
            cases ran
            exact ⟨blockno, failed⟩
      | _ => grind [Shared.advance, Shared.act, Shared.iderw, Shared.bwrite, Shared.logWriteTest, Except.map]
  | _ => grind [Shared.advance, Shared.logWriteAppend, Except.map]

theorem step_noBuffers {s : OpSystem} {event : OpEvent}
    (ran : s.step event = .error (.cache (.panic .noBuffers))) :
    ∃ blockno, s.shared.cache.bget ROOTDEV blockno = .error (.panic .noBuffers) := by
  cases event with
  | act pid access =>
    rw [step] at ran
    split at ran
    case h_4 => cases ran
    all_goals
      rw [advance] at ran
      split at ran
      · next halt failed =>
          cases ran
          exact Shared.advance_noBuffers failed
      · split at ran <;> cases ran
  | _ => grind [OpSystem.step, OpSystem.endOp]

/-- In a reachable state with a spare buffer no step is the panic of `bget`. -/
theorem bget_finds_buffer {sb : Superblock} {devsw : Devsw} {disk : Disk} {system : OpSystem}
    (ran : runEvents OpSystem.step events (.initial sb devsw disk) = .ok system) (spare : system.shared.Spare)
    (event : OpEvent) : system.step event ≠ .error (.cache (.panic .noBuffers)) := by
  intro panics
  obtain ⟨_, duties, ops, invariant⟩ := run_opInvariant ran
  obtain ⟨blockno, failed⟩ := step_noBuffers panics
  obtain ⟨order, ring⟩ := invariant.sound.ring
  obtain ⟨b, unused⟩ := invariant.sound.exists_unused spare
  exact ring.exhausted failed b unused

end Spare

/-- Processes outside operations read inodes of different blocks. Each of them gets a buffer and waits for the disk. -/
def readersRun (count : Nat) : List OpEvent :=
  (List.range count).flatMap fun k => [.call k (.ilock (k * IPB)), .act k .silent]

theorem bget_finds_buffer_reader : ∃ system, runEvents OpSystem.step (readersRun 2) .blank = .ok system ∧
    system.shared.Spare ∧ system.step (.act 0 .silent) ≠ .error (.cache (.panic .noBuffers)) := by
  have observed : (runEvents step (readersRun 2) .blank).toOption.map
      (fun system => decide system.shared.Spare) = some true := by
    decide +kernel
  obtain ⟨system, ran, spare⟩ := exists_ok_of_observed observed
  exact ⟨system, ran, of_decide_eq_true spare, bget_finds_buffer ran (of_decide_eq_true spare) _⟩

/-- The reader after the last buffer is the panic of the kernel. -/
theorem readers_exhaust_buffers :
    runEvents OpSystem.step (readersRun (NBUF + 1)) .blank = .error (.cache (.panic .noBuffers)) := by
  have observed : (runEvents step (readersRun (NBUF + 1)) .blank).map (fun _ => ()) =
      .error (.cache (.panic .noBuffers)) := by
    decide +kernel
  cases outcome : runEvents step (readersRun (NBUF + 1)) .blank with
  | ok system =>
    rw [outcome] at observed
    cases observed
  | error halt =>
    rw [outcome] at observed
    exact congrArg Except.error (Except.error.inj observed)

end Xv6
