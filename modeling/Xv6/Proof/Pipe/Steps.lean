import Xv6.Construction.Pipe

namespace Xv6
open Library

/-- At these places a process holds `p->lock`. -/
def PipePlace.Holds : PipePlace → Prop
  | .writing _ _ _ | .storing _ _ _ | .reading _ | .copying _ _ | .loading _ _ | .closing _ | .waking _ _
  | .falling _ | .leaving _ | .dropping => True
  | _ => False

namespace PipeSystem
variable {n : Int} {place : PipePlace}

/-- This relation lists everything that one event can do. -/
inductive Step (system : PipeSystem) : PipeEvent → PipeSystem → Prop where
  | call {pid : Nat} {call : PipeCall} {ret : Option Int} (here : system.place pid = .out ret) :
      Step system (.call pid call) (system.moveTo pid (.entering call))
  | acquire {pid : Nat} {place : PipePlace} (idle : ¬(system.place pid).Holds)
      (enters : (∃ call, place = enter call) ∨ ∃ wait, place = resume wait) (free : system.lock = none) :
      Step system (.acquire pid) ({system with lock := some pid}.moveTo pid place)
  | silent {pid : Nat} {addr : Nat → BitVec 8} {n : Int} {i : Nat} (here : system.place pid = .writing addr n i)
      (more : i < n) (full : system.pipe.Full) (ends : system.pipe.readopen = false ∨ system.killed pid = true) :
      Step system (.advance pid) (system.release.moveTo pid (.out (some (-1))))
  | full {pid : Nat} {addr : Nat → BitVec 8} {n : Int} {i : Nat} (here : system.place pid = .writing addr n i)
      (full : system.pipe.Full) (opened : system.pipe.readopen = true) :
      Step system (.advance pid) (system.moveTo pid (.waking .nread (.sleep (.write addr n i))))
  | room {pid : Nat} {addr : Nat → BitVec 8} {n : Int} {i : Nat} (here : system.place pid = .writing addr n i)
      (room : ¬system.pipe.Full) : Step system (.advance pid) (system.moveTo pid (.storing addr n i))
  | written {pid : Nat} {addr : Nat → BitVec 8} {n : Int} {i : Nat} (here : system.place pid = .writing addr n i) :
      Step system (.advance pid) (system.moveTo pid (.waking .nread (.leave n)))
  | store {pid : Nat} {addr : Nat → BitVec 8} {n : Int} {i : Nat} (here : system.place pid = .storing addr n i) :
      Step system (.advance pid) (system.storeByte pid addr n i)
  | unread {pid : Nat} {n : Int} (here : system.place pid = .reading n) :
      Step system (.advance pid) (system.release.moveTo pid (.out (some (-1))))
  | empty {pid : Nat} {n : Int} (here : system.place pid = .reading n) (empty : system.pipe.Empty)
      (opened : system.pipe.writeopen = true) : Step system (.advance pid) (system.moveTo pid (.falling (.read n)))
  | ready {pid : Nat} {n : Int} (here : system.place pid = .reading n) :
      Step system (.advance pid) (system.moveTo pid (.copying n []))
  | more {pid : Nat} {n : Int} {bytes : List (BitVec 8)} (here : system.place pid = .copying n bytes)
      (some : ¬system.pipe.Empty) : Step system (.advance pid) (system.moveTo pid (.loading n bytes))
  | copied {pid : Nat} {n : Int} {bytes : List (BitVec 8)} (here : system.place pid = .copying n bytes) :
      Step system (.advance pid) (system.moveTo pid (.waking .nwrite (.leave bytes.length)))
  | load {pid : Nat} {n : Int} {bytes : List (BitVec 8)} (here : system.place pid = .loading n bytes) :
      Step system (.advance pid) (system.loadByte pid n bytes)
  | close {pid : Nat} {writable : Bool} (here : system.place pid = .closing writable) :
      Step system (.advance pid) (system.pipeclose pid writable)
  | wakeup {pid : Nat} {chan : PipeChan} {next : PipeNext} (here : system.place pid = .waking chan next) :
      Step system (.advance pid) ((system.wakeup chan).moveTo pid (after next))
  | fall {pid : Nat} {wait : PipeWait} (here : system.place pid = .falling wait) :
      Step system (.advance pid) (system.release.moveTo pid (.asleep wait))
  | leave {pid : Nat} {ret : Int} (here : system.place pid = .leaving ret) :
      Step system (.advance pid) (system.release.moveTo pid (.out (some ret)))
  | drop {pid : Nat} (here : system.place pid = .dropping) : Step system (.advance pid) (system.dropEnd pid)
  | kill (pid : Nat) : Step system (.kill pid) (system.kill pid)

variable {system s next : PipeSystem} {event : PipeEvent} {pid : Nat}

theorem pipewrite_step {addr : Nat → BitVec 8} {i : Nat} (here : s.place pid = .writing addr n i) :
    Step s (.advance pid) (s.pipewrite pid addr n i) := by
  unfold pipewrite
  split
  case isTrue more =>
    split
    case isTrue full =>
      split
      case isTrue ends => exact .silent here more full ends
      case isFalse goes =>
        rw [not_or, Bool.not_eq_false] at goes
        exact .full here full goes.1
    case isFalse room => exact .room here room
  case isFalse done => exact .written here

theorem piperead_step (here : s.place pid = .reading n) : Step s (.advance pid) (s.piperead pid n) := by
  unfold piperead
  split
  case isTrue waits =>
    split
    case isTrue killed => exact .unread here
    case isFalse alive => exact .empty here waits.1 waits.2
  case isFalse ready => exact .ready here

theorem copyTest_step {bytes : List (BitVec 8)} (here : s.place pid = .copying n bytes) :
    Step s (.advance pid) (s.copyTest pid n bytes) := by
  unfold copyTest
  split
  case isTrue more => exact .more here more.2
  case isFalse done => exact .copied here

theorem advance_step (ran : s.advance pid = .ok next) : Step s (.advance pid) next := by
  unfold advance at ran
  split at ran <;> cases ran
  case h_1 here => exact pipewrite_step here
  case h_2 here => exact .store here
  case h_3 here => exact piperead_step here
  case h_4 here => exact copyTest_step here
  case h_5 here => exact .load here
  case h_6 here => exact .close here
  case h_7 here => exact .wakeup here
  case h_8 here => exact .fall here
  case h_9 here => exact .leave here
  case h_10 here => exact .drop here

theorem acquire_step (idle : ¬(s.place pid).Holds)
    (enters : (∃ call, place = enter call) ∨ ∃ wait, place = resume wait) (ran : s.acquire pid place = .ok next) :
    Step s (.acquire pid) next := by
  unfold PipeSystem.acquire at ran
  split at ran
  case isTrue free =>
    cases ran
    exact .acquire idle enters free.1
  case isFalse taken => cases ran

/-- Every event that is possible is a step. -/
theorem step_sound (ran : s.step event = .ok next) : Step s event next := by
  cases event with
  | call pid call =>
    simp only [step] at ran
    split at ran <;> cases ran
    case h_1 ret here => exact .call here
  | acquire pid =>
    simp only [step] at ran
    split at ran
    case h_1 call here => exact acquire_step (by simp [here, PipePlace.Holds]) (.inl ⟨call, rfl⟩) ran
    case h_2 wait here => exact acquire_step (by simp [here, PipePlace.Holds]) (.inr ⟨wait, rfl⟩) ran
    case h_3 => cases ran
  | advance pid => exact advance_step ran
  | kill pid =>
    cases ran
    exact .kill pid

/-- A process holds the lock exactly when the lock says so. -/
def Held (system : PipeSystem) : Prop := ∀ pid, (system.place pid).Holds ↔ system.lock = some pid

section
variable (held : s.Held)
include held

theorem Held.alone (here : (s.place pid).Holds) {other : Nat} (ne : other ≠ pid) : ¬(s.place other).Holds := by
  rw [held, (held pid).mp here]
  exact fun same => ne (Option.some.inj same).symm

theorem Held.of_eq {other : PipeSystem} (places : other.place = s.place) (locks : other.lock = s.lock) :
    other.Held := by
  intro pid
  rw [places, locks]
  exact held pid

theorem Held.moveTo (same : place.Holds ↔ (s.place pid).Holds) : (s.moveTo pid place).Held := by
  intro other
  by_cases moved : other = pid
  · subst moved
    simp only [PipeSystem.moveTo, Function.update_self]
    exact same.trans (held other)
  · simp only [PipeSystem.moveTo, Function.update_of_ne moved]
    exact held other

theorem Held.release (here : (s.place pid).Holds) (out : ¬place.Holds) : (s.release.moveTo pid place).Held := by
  intro other
  by_cases moved : other = pid
  · subst moved
    simp [PipeSystem.moveTo, PipeSystem.release, out]
  · simp [PipeSystem.moveTo, PipeSystem.release, Function.update_of_ne moved, held.alone here moved]

theorem Held.acquire (free : s.lock = none) (holds : place.Holds) :
    ({s with lock := some pid}.moveTo pid place).Held := by
  intro other
  by_cases moved : other = pid
  · subst moved
    simp [PipeSystem.moveTo, holds]
  · have idle : ¬(s.place other).Holds := by simp [held other, free]
    simp [PipeSystem.moveTo, Function.update_of_ne moved, idle, Ne.symm moved]

end

attribute [simp] PipePlace.Holds

@[simp] theorem wake_holds (chan : PipeChan) (place : PipePlace) : (wake chan place).Holds ↔ place.Holds := by
  cases place with
  | asleep wait =>
    simp only [wake]
    split <;> simp
  | _ => rfl

theorem Held.wakeup (held : s.Held) (chan : PipeChan) : (s.wakeup chan).Held := fun pid =>
  (wake_holds chan (s.place pid)).trans (held pid)

theorem Held.kill (held : s.Held) (pid : Nat) : (s.kill pid).Held := by
  intro other
  by_cases moved : other = pid
  · subst moved
    simp only [PipeSystem.kill, Function.update_self]
    rw [← held other]
    split
    · rename_i wait here
      rw [here]
      simp
    · rfl
  · simp only [PipeSystem.kill, Function.update_of_ne moved]
    exact held other

theorem enters_holds (enters : (∃ call, place = enter call) ∨ ∃ wait, place = resume wait) : place.Holds := by
  rcases enters with ⟨call, rfl⟩ | ⟨wait, rfl⟩
  · cases call <;> trivial
  · cases wait <;> trivial

theorem after_holds (next : PipeNext) : (after next).Holds := by
  cases next <;> trivial

theorem Held.step (held : s.Held) (taken : Step s event next) : next.Held := by
  cases taken with
  | call here => exact held.moveTo (by simp [here])
  | acquire idle enters free => exact held.acquire free (enters_holds enters)
  | silent here => exact held.release (by simp [here]) (by simp)
  | full here => exact held.moveTo (by simp [here])
  | room here => exact held.moveTo (by simp [here])
  | written here => exact held.moveTo (by simp [here])
  | store here | load here => exact .moveTo (held.of_eq rfl rfl) (by simp [here])
  | unread here => exact held.release (by simp [here]) (by simp)
  | empty here => exact held.moveTo (by simp [here])
  | ready here => exact held.moveTo (by simp [here])
  | more here => exact held.moveTo (by simp [here])
  | copied here => exact held.moveTo (by simp [here])
  | close here =>
    unfold pipeclose
    split <;> exact .moveTo (held.of_eq rfl rfl) (by simp [here])
  | @wakeup pid chan next here =>
    refine (held.wakeup chan).moveTo (iff_of_true (after_holds next) ?_)
    simp [PipeSystem.wakeup, here, wake]
  | fall here => exact held.release (by simp [here]) (by simp)
  | leave here => exact held.release (by simp [here]) (by simp)
  | drop here => exact held.release (by simp [here]) (by simp)
  | kill pid => exact held.kill pid

end PipeSystem
end Xv6
