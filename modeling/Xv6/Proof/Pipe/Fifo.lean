import Xv6.Library.Ring
import Xv6.Proof.Pipe.Steps

namespace Xv6
open Library
variable {place : PipePlace}

/-- A process that is about to store or to load has found room or a byte. -/
def PipePlace.Ready (pipe : Pipe) : PipePlace → Prop
  | .storing _ _ _ => ¬pipe.Full
  | .loading _ _ => ¬pipe.Empty
  | _ => True

theorem PipePlace.ready_of_not_holds (idle : ¬place.Holds) (pipe : Pipe) : place.Ready pipe := by
  cases place <;> first | trivial | exact absurd trivial idle

namespace PipeSystem
variable {pipe : Pipe} {n : Int}

/-- The buffer holds the stored bytes that no reader has copied yet. -/
structure Queued (system : PipeSystem) (pending : List (BitVec 8)) : Prop where
  held : system.Held
  ring : Ring PIPESIZE system.pipe.data system.pipe.nread system.pipe.nwrite pending
  history : system.stored = system.copied ++ pending
  ready : ∀ pid, (system.place pid).Ready system.pipe

variable {system s next : PipeSystem} {event : PipeEvent} {pid : Nat} {pending : List (BitVec 8)}

theorem pipesize_small : PIPESIZE < 2 ^ 32 := by decide

theorem pipesize_divides : PIPESIZE ∣ 2 ^ 32 := by decide

theorem Queued.full_iff (queued : s.Queued pending) : s.pipe.Full ↔ pending.length = PIPESIZE :=
  queued.ring.full_iff pipesize_small

theorem Queued.empty_iff (queued : s.Queued pending) : s.pipe.Empty ↔ pending = [] :=
  queued.ring.empty_iff pipesize_small

theorem ready_moveTo (ready : ∀ pid, (s.place pid).Ready s.pipe) (moved : place.Ready s.pipe)
    (other : Nat) : ((s.moveTo pid place).place other).Ready s.pipe := by
  by_cases same : other = pid
  · subst same
    simpa [moveTo] using moved
  · simpa [moveTo, Function.update_of_ne same] using ready other

/-- Most steps touch neither the buffer nor its history. -/
theorem Queued.quiet (queued : s.Queued pending) (held : next.Held) (pipe : next.pipe = s.pipe)
    (stored : next.stored = s.stored) (copied : next.copied = s.copied)
    (ready : ∀ pid, (next.place pid).Ready s.pipe) : next.Queued pending :=
  ⟨held, pipe ▸ queued.ring, by rw [stored, copied, queued.history], pipe ▸ ready⟩

/-- A process that holds the lock is the only one that can be about to store or to load. -/
theorem Held.ready_of_holder (held : s.Held) (here : (s.place pid).Holds) (moved : place.Ready pipe)
    (other : Nat) : ((s.moveTo pid place).place other).Ready pipe := by
  by_cases same : other = pid
  · subst same
    simpa [PipeSystem.moveTo] using moved
  · simp only [PipeSystem.moveTo, Function.update_of_ne same]
    exact PipePlace.ready_of_not_holds (held.alone here same) pipe

theorem Queued.storeByte (queued : s.Queued pending) {addr : Nat → BitVec 8} {i : Nat}
    (here : s.place pid = .storing addr n i) (held : (s.storeByte pid addr n i).Held) :
    (s.storeByte pid addr n i).Queued (pending ++ [addr i]) := by
  have room : ¬s.pipe.Full := by
    have ready := queued.ready pid
    rwa [here] at ready
  have less : pending.length < PIPESIZE := lt_of_le_of_ne queued.ring.fits (queued.full_iff.not.mp room)
  refine ⟨held, queued.ring.push pipesize_divides less (addr i), ?_, ?_⟩
  · change s.stored ++ [addr i] = s.copied ++ (pending ++ [addr i])
    rw [queued.history, List.append_assoc]
  · exact queued.held.ready_of_holder (by simp [here]) trivial

theorem Queued.loadByte (queued : s.Queued pending) {bytes : List (BitVec 8)} (here : s.place pid = .loading n bytes)
    (held : (s.loadByte pid n bytes).Held) : ∃ rest, (s.loadByte pid n bytes).Queued rest := by
  have some : ¬s.pipe.Empty := by
    have ready := queued.ready pid
    rwa [here] at ready
  obtain ⟨byte, rest, rfl⟩ := List.exists_cons_of_ne_nil (queued.empty_iff.not.mp some)
  obtain ⟨cell, ring⟩ := queued.ring.pop pipesize_divides
  refine ⟨rest, held, ring, ?_, ?_⟩
  · change s.stored = s.copied ++ [s.pipe.data (s.pipe.nread.toNat % PIPESIZE)] ++ rest
    rw [cell, queued.history, List.append_assoc]
    rfl
  · exact queued.held.ready_of_holder (by simp [here]) trivial

theorem Queued.pipeclose (queued : s.Queued pending) {writable : Bool} (here : s.place pid = .closing writable)
    (held : (s.pipeclose pid writable).Held) : (s.pipeclose pid writable).Queued pending := by
  revert held
  unfold PipeSystem.pipeclose
  split
  all_goals
    intro held
    exact ⟨held, queued.ring, queued.history, queued.held.ready_of_holder (by simp [here]) trivial⟩

theorem wake_ready (chan : PipeChan) (ready : place.Ready pipe) : (wake chan place).Ready pipe := by
  cases place with
  | asleep wait =>
    simp only [wake]
    split <;> trivial
  | _ => exact ready

/-- Every step stores at the end of the queue, copies from its front or leaves it alone. -/
theorem Queued.step (queued : s.Queued pending) (taken : Step s event next) : ∃ later, next.Queued later := by
  have held := queued.held.step taken
  cases taken with
  | call here => exact ⟨pending, queued.quiet held rfl rfl rfl (ready_moveTo queued.ready trivial)⟩
  | @acquire pid place idle enters free =>
    have moved : place.Ready s.pipe := by
      rcases enters with ⟨call, rfl⟩ | ⟨wait, rfl⟩
      · cases call <;> trivial
      · cases wait <;> trivial
    exact ⟨pending, queued.quiet held rfl rfl rfl (ready_moveTo queued.ready moved)⟩
  | silent | full => exact ⟨pending, queued.quiet held rfl rfl rfl (ready_moveTo queued.ready trivial)⟩
  | room here room => exact ⟨pending, queued.quiet held rfl rfl rfl (ready_moveTo queued.ready room)⟩
  | written here => exact ⟨pending, queued.quiet held rfl rfl rfl (ready_moveTo queued.ready trivial)⟩
  | store here => exact ⟨_, queued.storeByte here held⟩
  | unread | empty | ready => exact ⟨pending, queued.quiet held rfl rfl rfl (ready_moveTo queued.ready trivial)⟩
  | more here some => exact ⟨pending, queued.quiet held rfl rfl rfl (ready_moveTo queued.ready some)⟩
  | copied here => exact ⟨pending, queued.quiet held rfl rfl rfl (ready_moveTo queued.ready trivial)⟩
  | load here => exact queued.loadByte here held
  | close here => exact ⟨pending, queued.pipeclose here held⟩
  | @wakeup pid chan next here =>
    have awake : ∀ pid, ((s.wakeup chan).place pid).Ready s.pipe := fun pid =>
      wake_ready chan (queued.ready pid)
    have moved : (after next).Ready s.pipe := by
      cases next <;> trivial
    exact ⟨pending, queued.quiet held rfl rfl rfl (ready_moveTo awake moved)⟩
  | fall | leave | drop => exact ⟨pending, queued.quiet held rfl rfl rfl (ready_moveTo queued.ready trivial)⟩
  | kill pid =>
    refine ⟨pending, queued.quiet held rfl rfl rfl (ready_moveTo queued.ready ?_)⟩
    split
    · trivial
    · exact queued.ready pid

theorem initial_queued (page : Nat → BitVec 8) (killed : Nat → Bool) : (initial page killed).Queued [] where
  held pid := by simp [initial]
  ring := .empty page 0
  history := rfl
  ready pid := trivial

/-- In every interleaving the buffer is a queue. -/
theorem interleave_queued {page : Nat → BitVec 8} {killed : Nat → Bool} {events : List PipeEvent}
    (ran : interleave page killed events = .ok s) : ∃ pending, s.Queued pending := by
  refine runEvents_invariant (fun _ s => ∃ pending, Queued s pending) ⟨[], initial_queued page killed⟩ ?_ ran
  rintro _ s event next ⟨pending, queued⟩ taken
  exact queued.step (step_sound taken)

/-- Pipes are lossless. In every interleaving the bytes that readers have copied are a first part of the bytes
that writers have stored, and the distance of the wrapping counters is at most the size of the buffer. -/
theorem pipe_fifo {page : Nat → BitVec 8} {killed : Nat → Bool} {events : List PipeEvent}
    (ran : interleave page killed events = .ok system) :
    system.copied <+: system.stored ∧ (system.pipe.nwrite - system.pipe.nread).toNat ≤ PIPESIZE := by
  obtain ⟨pending, queued⟩ := interleave_queued ran
  refine ⟨⟨pending, queued.history.symm⟩, ?_⟩
  rw [queued.ring.distance pipesize_small]
  exact queued.ring.fits

/-- One process writes a byte and another one reads it. -/
theorem pipe_fifo_one_byte :
    ∃ system, interleave (fun _ => 0) (fun _ => false)
        ([.call 0 (.write (fun _ => 7) 1), .acquire 0] ++ List.replicate 5 (.advance 0) ++
          [.call 1 (.read 1), .acquire 1] ++ List.replicate 6 (.advance 1)) = .ok system ∧
      system.copied = [7] ∧ system.copied <+: system.stored ∧
      (system.pipe.nwrite - system.pipe.nread).toNat ≤ PIPESIZE := by
  have observed : (interleave (fun _ => 0) (fun _ => false)
      ([.call 0 (.write (fun _ => 7) 1), .acquire 0] ++ List.replicate 5 (.advance 0) ++
        [.call 1 (.read 1), .acquire 1] ++ List.replicate 6 (.advance 1))).toOption.map (·.copied) = some [7] := by
    decide
  obtain ⟨system, ran, copied⟩ := exists_ok_of_observed observed
  exact ⟨system, ran, copied, pipe_fifo ran⟩

end PipeSystem
end Xv6
