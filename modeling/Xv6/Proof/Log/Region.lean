import Xv6.Proof.Log.Steps
import Xv6.Proof.Log.History

namespace Xv6
open Library
variable {system s next : LogSystem} {event : LogEvent}

/-- The limit tests of `log_write` let the caller pass. -/
def Log.TestPasses (log : Log) : Prop := log.lh.n < LOGSIZE ∧ (log.lh.n : Int) < log.size - 1

theorem LogStep.region (step : LogStep s event next) :
    next.kernel.log.start = s.kernel.log.start ∧ next.kernel.log.size = s.kernel.log.size := by
  cases step with
  | commit pid closing =>
    rw [commitOp_log]
    exact ⟨rfl, rfl⟩
  | _ => exact ⟨rfl, rfl⟩

/-- Every reachable system keeps the log region of the super block. -/
theorem interleave_region {disk : Disk} {events : List LogEvent} (ran : interleave disk events = .ok s) :
    s.kernel.log.start = 2 ∧ s.kernel.log.size = 30 := by
  refine runEvents_invariant (fun _ s => s.kernel.log.start = 2 ∧ s.kernel.log.size = 30) ?_ ?_ ran
  · exact ⟨rfl, rfl⟩
  · intro _ state event next held stepped
    have same := (LogStep.of_step stepped).region
    exact ⟨same.1.trans held.1, same.2.trans held.2⟩

theorem LogStep.length_le (step : LogStep s event next) (passes : ∀ pid blockno, event = .logWriteAppend pid blockno →
      blockno ∈ s.kernel.log.lh.block ∨ s.kernel.log.TestPasses) (size : s.kernel.log.size = 30)
    (bound : s.kernel.log.lh.n ≤ 29) : next.kernel.log.lh.n ≤ 29 := by
  cases step with
  | append pid blockno data lh pending stored =>
    have entries := LogHeader.logWrite_block stored
    change lh.block.length ≤ 29
    rcases passes pid blockno rfl with member | room
    · rw [entries, if_pos member]
      exact bound
    · have free : (s.kernel.log.lh.block.length : Int) < s.kernel.log.size - 1 := room.2
      rw [entries]
      split
      · exact bound
      · rw [List.length_append, List.length_singleton]
        omega
  | commit pid closing =>
    rw [commitOp_log]
    exact Nat.zero_le _
  | _ => exact bound

end Xv6
