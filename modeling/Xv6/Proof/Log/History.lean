import Xv6.Construction.LogProtocol
import Mathlib.Data.Finset.Card

namespace Xv6

/-- A process starts a new operation at each call of `begin_op`. -/
def opStep (pid : Nat) (blocks : Finset BlockNo) : LogEvent → Finset BlockNo
  | .beginOp caller => if caller = pid then ∅ else blocks
  | .logWriteTest caller blockno _ => if caller = pid then insert blockno blocks else blocks
  | _ => blocks

/-- These are the distinct blocks that the current operation of a process has passed to `log_write`. -/
def opBlocks (pid : Nat) (events : List LogEvent) : Finset BlockNo := events.foldl (opStep pid) ∅

/-- Each process logs at most `MAXOPBLOCKS` distinct blocks between `begin_op` and `end_op`. -/
def Budget (events : List LogEvent) : Prop :=
  ∀ earlier, earlier <+: events → ∀ pid, (opBlocks pid earlier).card ≤ MAXOPBLOCKS

local instance blockLawful : LawfulBEq BlockNo := inferInstance

/-- A commit ends a transaction, and an append of a new block extends it. -/
def transactionStep (blocks : List BlockNo) : LogEvent → List BlockNo
  | .logWriteAppend _ blockno => if blockno ∈ blocks then blocks else blocks ++ [blockno]
  | .commit _ => []
  | _ => blocks

/-- These are the distinct blocks that the processes have logged since the last commit. -/
def transactionBlocks (events : List LogEvent) : List BlockNo := events.foldl transactionStep []

@[simp] theorem opBlocks_snoc (pid : Nat) (events : List LogEvent) (event : LogEvent) :
    opBlocks pid (events ++ [event]) = opStep pid (opBlocks pid events) event := by
  simp [opBlocks]

@[simp] theorem transactionBlocks_snoc (events : List LogEvent) (event : LogEvent) :
    transactionBlocks (events ++ [event]) = transactionStep (transactionBlocks events) event := by
  simp [transactionBlocks]

/-- The budget of a run is the budget of its prefixes. -/
theorem Budget.mono {earlier events : List LogEvent} (budget : Budget events) (inside : earlier <+: events) :
    Budget earlier := fun first within => budget first (within.trans inside)

/-- A completed call of `log_write` passes its tests and appends at once. -/
def logWriteCall (pid : Nat) (blockno : BlockNo) : List LogEvent :=
  [.logWriteTest pid blockno 0, .logWriteAppend pid blockno]

def LogEvent.caller : LogEvent → Nat
  | .beginOp pid => pid
  | .retry pid => pid
  | .logWriteTest pid _ _ => pid
  | .logWriteAppend pid _ => pid
  | .endOp pid => pid
  | .commit pid => pid
  | .finish pid => pid

/-- The events of other processes leave an operation unchanged. -/
theorem opStep_other {pid : Nat} {event : LogEvent} (ne : event.caller ≠ pid)
    (blocks : Finset BlockNo) : opStep pid blocks event = blocks := by
  cases event with
  | beginOp | logWriteTest => exact if_neg ne
  | _ => rfl

theorem opBlocks_absent {pid : Nat} {events : List LogEvent}
    (absent : ∀ event ∈ events, event.caller ≠ pid) : opBlocks pid events = ∅ := by
  induction events using List.reverseRecOn with
  | nil => rfl
  | append_singleton before event ih =>
    rw [opBlocks_snoc, ih fun other member => absent other (List.mem_append_left _ member)]
    exact opStep_other (absent event (by simp)) ∅

/-- A budget is checked prefix by prefix for the processes that occur in the run. -/
theorem budget_of_inits {events : List LogEvent} (processes : List Nat)
    (listed : ∀ event ∈ events, event.caller ∈ processes)
    (checked : ∀ earlier ∈ events.inits, ∀ pid ∈ processes, (opBlocks pid earlier).card ≤ MAXOPBLOCKS) :
    Budget events := by
  intro earlier inside pid
  by_cases known : pid ∈ processes
  · exact checked earlier ((List.mem_inits earlier events).mpr inside) pid known
  · have unused : opBlocks pid earlier = ∅ := by
      apply opBlocks_absent
      intro event member equal
      exact known (equal ▸ listed event (inside.subset member))
    rw [unused]
    exact Nat.zero_le _

end Xv6
