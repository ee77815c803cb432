import Xv6.Proof.Pipe.Fifo

namespace Xv6
open Library Function PipePlace

/-- The loop condition under which a process may sleep on the channel. -/
def Pipe.Blocks (pipe : Pipe) : PipeChan → Prop
  | .nread => pipe.Empty ∧ pipe.writeopen = true
  | .nwrite => pipe.Full ∧ pipe.readopen = true

theorem Pipe.not_empty_of_full {pipe : Pipe} (full : pipe.Full) : ¬pipe.Empty := by
  intro empty
  rw [Pipe.Full, ← empty] at full
  have distance := congrArg BitVec.toNat full
  rw [BitVec.toNat_add, BitVec.toNat_ofNat, PIPESIZE] at distance
  omega

/-- At these places the holder of the lock has not yet called `wakeup` for its changes. -/
def PipePlace.Owes : PipePlace → PipeChan → Prop
  | .writing _ _ _, chan | .storing _ _ _, chan => chan = .nread
  | .copying _ _, chan | .loading _ _, chan => chan = .nwrite
  | .waking target _, chan => chan = target
  | _, _ => False

/-- The holder of the lock is on its way to sleep. -/
def PipePlace.intends : PipePlace → Option PipeWait
  | .waking _ (.sleep wait) => some wait
  | .falling wait => some wait
  | _ => none

theorem holds_of_intends {place : PipePlace} {wait : PipeWait} (intends : place.intends = some wait) :
    place.Holds := by
  cases place with
  | waking | falling => trivial
  | _ => cases intends

namespace PipeSystem

/-- The process is SLEEPING on the channel. -/
def SleepsOn (system : PipeSystem) (pid : Nat) (chan : PipeChan) : Prop :=
  ∃ wait, system.place pid = .asleep wait ∧ wait.chan = chan

/-- No reader sleeps while the pipe is not empty or has no writer, and no writer sleeps while the pipe has room
or has no reader. -/
structure Timely (system : PipeSystem) : Prop where
  reader : ∀ pid, system.SleepsOn pid .nread → ¬(¬system.pipe.Empty ∨ system.pipe.writeopen = false)
  writer : ∀ pid, system.SleepsOn pid .nwrite → ¬(¬system.pipe.Full ∨ system.pipe.readopen = false)

/-- A writer finds the buffer full and gives up, because the read end is closed or it was killed, while a
process is asleep on `&p->nread`. -/
def Silent (system : PipeSystem) : PipeEvent → Prop
  | .advance pid => (∃ addr n i, system.place pid = .writing addr n i ∧ i < n) ∧ system.pipe.Full ∧
      (system.pipe.readopen = false ∨ system.killed pid = true) ∧ ∃ reader, system.SleepsOn reader .nread
  | _ => False

/-- The holder of the lock will still call `wakeup` on the channel. -/
def Owed (system : PipeSystem) (chan : PipeChan) : Prop :=
  ∃ holder, system.lock = some holder ∧ (system.place holder).Owes chan

/-- A sleeping process is blocked or will be woken by the holder of the lock. -/
structure Prompt (system : PipeSystem) : Prop where
  asleep : ∀ {pid wait}, system.place pid = .asleep wait → system.Owed wait.chan ∨ system.pipe.Blocks wait.chan
  falls : ∀ {pid wait}, (system.place pid).intends = some wait → system.pipe.Blocks wait.chan

variable {system s next : PipeSystem} {event : PipeEvent} {pid other : Nat} {place : PipePlace} {wait : PipeWait}

theorem timely_iff : s.Timely ↔ ∀ pid wait, s.place pid = .asleep wait → s.pipe.Blocks wait.chan := by
  constructor
  · rintro ⟨reader, writer⟩ pid wait asleep
    cases wait with
    | write addr n i =>
      have free := writer pid ⟨_, asleep, rfl⟩
      rwa [not_or, not_not, Bool.not_eq_false] at free
    | read n =>
      have free := reader pid ⟨_, asleep, rfl⟩
      rwa [not_or, not_not, Bool.not_eq_false] at free
  · intro blocked
    refine ⟨?_, ?_⟩
    all_goals
      rintro pid ⟨wait, asleep, chan⟩
      have blocks := blocked pid wait asleep
      rw [chan] at blocks
      rw [not_or, not_not, Bool.not_eq_false]
      exact blocks

/-- A sleeper is blocked when the holder of the lock owes its channel nothing. -/
theorem Prompt.settled (prompt : s.Prompt) (held : s.Held) (here : s.place pid = place) (holds : place.Holds)
    (owes : ¬place.Owes wait.chan) (asleep : s.place other = .asleep wait) : s.pipe.Blocks wait.chan := by
  subst here
  rcases prompt.asleep asleep with ⟨holder, lock, owed⟩ | blocks
  · obtain rfl : pid = holder := Option.some.inj (((held pid).mp holds).symm.trans lock)
    exact absurd owed owes
  · exact blocks

theorem moveTo_place_ne (ne : other ≠ pid) : (s.moveTo pid place).place other = s.place other :=
  update_of_ne ne _ _

theorem moveTo_place_self : (s.moveTo pid place).place pid = place := update_self _ _ _

theorem Prompt.move (prompt : s.Prompt) {source : PipePlace} (here : s.place pid = source)
    (owes : ∀ {chan}, source.Owes chan → place.Owes chan) (awake : ∀ wait, place ≠ .asleep wait)
    (falls : ∀ {wait}, place.intends = some wait → s.pipe.Blocks wait.chan) : (s.moveTo pid place).Prompt where
  asleep {sleeper wait} asleep := by
    by_cases same : sleeper = pid
    · subst same
      rw [moveTo_place_self] at asleep
      exact absurd asleep (awake wait)
    · rw [moveTo_place_ne same] at asleep
      refine (prompt.asleep asleep).imp_left ?_
      rintro ⟨holder, lock, owed⟩
      refine ⟨holder, lock, ?_⟩
      by_cases moved : holder = pid
      · subst moved
        rw [moveTo_place_self]
        exact owes (here ▸ owed)
      · rwa [moveTo_place_ne moved]
  falls {sleeper wait} intends := by
    by_cases same : sleeper = pid
    · subst same
      rw [moveTo_place_self] at intends
      exact falls intends
    · rw [moveTo_place_ne same] at intends
      exact prompt.falls intends

/-- The lock changes hands when nobody waits for a wakeup. -/
theorem Prompt.quiet (prompt : s.Prompt)
    (settled : ∀ {sleeper wait}, s.place sleeper = .asleep wait → s.pipe.Blocks wait.chan) (pipe : next.pipe = s.pipe)
    (places : next.place = update s.place pid place)
    (slept : ∀ {wait}, place = .asleep wait → s.pipe.Blocks wait.chan) (out : place.intends = none) : next.Prompt where
  asleep {sleeper wait} asleep := by
    rw [places] at asleep
    rw [pipe]
    by_cases same : sleeper = pid
    · subst same
      rw [update_self] at asleep
      exact .inr (slept asleep)
    · rw [update_of_ne same] at asleep
      exact .inr (settled asleep)
  falls {sleeper wait} intends := by
    rw [places] at intends
    rw [pipe]
    by_cases same : sleeper = pid
    · subst same
      rw [update_self, out] at intends
      cases intends
    · rw [update_of_ne same] at intends
      exact prompt.falls intends

/-- The holder of the lock changes the pipe. The sleepers on one channel stay blocked, and the holder owes the
sleepers on the other one a wakeup. -/
theorem Held.prompt_of_change (held : s.Held) (here : (s.place pid).Holds) {pipe : Pipe} (changed : next.pipe = pipe)
    (lock : next.lock = s.lock) (places : next.place = update s.place pid place)
    (awake : ∀ wait, place ≠ .asleep wait) (out : place.intends = none)
    (sleepers : ∀ {sleeper wait}, s.place sleeper = .asleep wait → place.Owes wait.chan ∨ pipe.Blocks wait.chan) :
    next.Prompt where
  asleep {sleeper wait} asleep := by
    rw [places] at asleep
    by_cases same : sleeper = pid
    · subst same
      rw [update_self] at asleep
      exact absurd asleep (awake wait)
    · rw [update_of_ne same] at asleep
      rcases sleepers asleep with owes | blocks
      · refine .inl ⟨pid, lock.trans ((held pid).mp here), ?_⟩
        rwa [places, update_self]
      · exact .inr (changed ▸ blocks)
  falls {sleeper wait} intends := by
    rw [places] at intends
    by_cases same : sleeper = pid
    · subst same
      rw [update_self, out] at intends
      cases intends
    · rw [update_of_ne same] at intends
      exact absurd (holds_of_intends intends) (held.alone here same)

theorem Prompt.storeByte (prompt : s.Prompt) (held : s.Held) {addr : Nat → BitVec 8} {n : Int} {i : Nat}
    (here : s.place pid = .storing addr n i) (room : ¬s.pipe.Full) : (s.storeByte pid addr n i).Prompt := by
  have holds : (s.place pid).Holds := by simp [here]
  refine held.prompt_of_change holds rfl rfl rfl (by simp) rfl fun {sleeper wait} asleep => ?_
  cases chan : wait.chan with
  | nread => exact .inl rfl
  | nwrite =>
    have blocks := prompt.settled held here trivial (by simp [PipePlace.Owes, chan]) asleep
    rw [chan] at blocks
    exact absurd blocks.1 room

theorem Prompt.loadByte (prompt : s.Prompt) (held : s.Held) {n : Int} {bytes : List (BitVec 8)}
    (here : s.place pid = .loading n bytes) (some : ¬s.pipe.Empty) : (s.loadByte pid n bytes).Prompt := by
  have holds : (s.place pid).Holds := by simp [here]
  refine held.prompt_of_change holds rfl rfl rfl (by simp) rfl fun {sleeper wait} asleep => ?_
  cases chan : wait.chan with
  | nwrite => exact .inl rfl
  | nread =>
    have blocks := prompt.settled held here trivial (by simp [PipePlace.Owes, chan]) asleep
    rw [chan] at blocks
    exact absurd blocks.1 some

theorem Prompt.pipeclose (prompt : s.Prompt) (held : s.Held) {writable : Bool}
    (here : s.place pid = .closing writable) : (s.pipeclose pid writable).Prompt := by
  have holds : (s.place pid).Holds := by simp [here]
  have settled : ∀ {sleeper wait}, s.place sleeper = .asleep wait → s.pipe.Blocks wait.chan :=
    fun {sleeper wait} asleep => prompt.settled held here trivial id asleep
  unfold PipeSystem.pipeclose
  split
  · refine held.prompt_of_change holds rfl rfl rfl (by simp) rfl fun {sleeper wait} asleep => ?_
    have blocks := settled asleep
    cases chan : wait.chan with
    | nread => exact .inl rfl
    | nwrite =>
      rw [chan] at blocks
      exact .inr blocks
  · refine held.prompt_of_change holds rfl rfl rfl (by simp) rfl fun {sleeper wait} asleep => ?_
    have blocks := settled asleep
    cases chan : wait.chan with
    | nwrite => exact .inl rfl
    | nread =>
      rw [chan] at blocks
      exact .inr blocks

/-- A wakeup leaves only the sleepers on the other channel. -/
theorem wake_asleep {chan : PipeChan} (asleep : wake chan place = .asleep wait) :
    place = .asleep wait ∧ wait.chan ≠ chan := by
  cases place with
  | asleep sleeper =>
    simp only [wake] at asleep
    split at asleep
    · cases asleep
    · rename_i ne
      cases asleep
      exact ⟨rfl, ne⟩
  | _ => cases asleep

theorem wake_intends (chan : PipeChan) (place : PipePlace) : (wake chan place).intends = place.intends := by
  cases place with
  | asleep wait =>
    simp only [wake]
    split <;> rfl
  | _ => rfl

theorem Prompt.wakeup (prompt : s.Prompt) (held : s.Held) {chan : PipeChan} {later : PipeNext}
    (here : s.place pid = .waking chan later) : ((s.wakeup chan).moveTo pid (after later)).Prompt where
  asleep {sleeper wait} asleep := by
    by_cases same : sleeper = pid
    · subst same
      rw [moveTo_place_self] at asleep
      cases later <;> cases asleep
    · rw [moveTo_place_ne same] at asleep
      obtain ⟨slept, ne⟩ := wake_asleep asleep
      exact .inr (prompt.settled held here trivial ne slept)
  falls {sleeper wait} intends := by
    by_cases same : sleeper = pid
    · subst same
      rw [moveTo_place_self] at intends
      have intended : (s.place sleeper).intends = some wait := by
        rw [here]
        cases later with
        | sleep wait => exact intends
        | leave | drop => cases intends
      exact prompt.falls intended
    · rw [moveTo_place_ne same] at intends
      exact prompt.falls ((wake_intends chan (s.place sleeper)).symm.trans intends)

theorem Prompt.kill (prompt : s.Prompt) (pid : Nat) : (s.kill pid).Prompt := by
  have owed : ∀ {chan}, s.Owed chan → (s.kill pid).Owed chan := by
    rintro chan ⟨holder, lock, owes⟩
    refine ⟨holder, lock, ?_⟩
    by_cases same : holder = pid
    · subst same
      simp only [PipeSystem.kill, update_self]
      split
      · rename_i wait asleep
        rw [asleep] at owes
        exact owes.elim
      · exact owes
    · simpa only [PipeSystem.kill, update_of_ne same] using owes
  refine ⟨fun {sleeper wait} asleep => ?_, fun {sleeper wait} intends => ?_⟩
  · by_cases same : sleeper = pid
    · subst same
      simp only [PipeSystem.kill, update_self] at asleep
      split at asleep
      · cases asleep
      · rename_i awake
        exact absurd asleep (awake wait)
    · simp only [PipeSystem.kill, update_of_ne same] at asleep
      exact (prompt.asleep asleep).imp_left owed
  · by_cases same : sleeper = pid
    · subst same
      simp only [PipeSystem.kill, update_self] at intends
      split at intends
      · cases intends
      · exact prompt.falls intends
    · simp only [PipeSystem.kill, update_of_ne same] at intends
      exact prompt.falls intends

/-- Every step other than a silent departure keeps the debts to the sleepers. -/
theorem Prompt.step (prompt : s.Prompt) {pending : List (BitVec 8)} (queued : s.Queued pending)
    (taken : Step s event next) (loud : ¬s.Silent event) : next.Prompt := by
  have held := queued.held
  cases taken with
  | call here | ready here => exact prompt.move here (fun owed => owed.elim) (by simp) (by simp [intends])
  | @acquire pid place idle enters free =>
    have started : (∀ wait, place ≠ .asleep wait) ∧ place.intends = none := by
      rcases enters with ⟨call, rfl⟩ | ⟨wait, rfl⟩
      · cases call <;> exact ⟨by simp [enter], rfl⟩
      · cases wait <;> exact ⟨by simp [resume], rfl⟩
    refine prompt.quiet (fun {sleeper wait} asleep => ?_) rfl rfl (fun {wait} same => ?_) started.2
    · refine (prompt.asleep asleep).resolve_left ?_
      rintro ⟨holder, lock, _⟩
      rw [free] at lock
      cases lock
    · exact absurd same (started.1 wait)
  | @silent pid addr n i here more full ends =>
    refine prompt.quiet (fun {sleeper wait} asleep => ?_) rfl rfl (by simp) rfl
    cases chan : wait.chan with
    | nread => exact absurd ⟨⟨addr, n, i, here, more⟩, full, ends, sleeper, wait, asleep, chan⟩ loud
    | nwrite => exact chan ▸ prompt.settled held here trivial (by simp [PipePlace.Owes, chan]) asleep
  | full here full opened =>
    refine prompt.move here id (by simp) ?_
    rintro wait ⟨⟩
    exact ⟨full, opened⟩
  | room here room => exact prompt.move here id (by simp) (by simp [intends])
  | written here => exact prompt.move here id (by simp) (by simp [intends])
  | @store pid addr n i here =>
    have ready := queued.ready pid
    rw [here] at ready
    exact prompt.storeByte held here ready
  | unread here => exact prompt.quiet (prompt.settled held here trivial id) rfl rfl (by simp) rfl
  | empty here empty opened =>
    refine prompt.move here (fun owed => owed.elim) (by simp) ?_
    rintro wait ⟨⟩
    exact ⟨empty, opened⟩
  | more here some => exact prompt.move here id (by simp) (by simp [intends])
  | copied here => exact prompt.move here id (by simp) (by simp [intends])
  | @load pid n bytes here =>
    have ready := queued.ready pid
    rw [here] at ready
    exact prompt.loadByte held here ready
  | close here => exact prompt.pipeclose held here
  | wakeup here => exact prompt.wakeup held here
  | @fall pid wait here =>
    refine prompt.quiet (prompt.settled held here trivial id) rfl rfl ?_ rfl
    rintro wait ⟨⟩
    have intended : (s.place pid).intends = some wait := by
      rw [here]
      rfl
    exact prompt.falls intended
  | leave here => exact prompt.quiet (prompt.settled held here trivial id) rfl rfl (by simp) rfl
  | drop here => exact prompt.quiet (prompt.settled held here trivial id) rfl rfl (by simp) rfl
  | kill pid => exact prompt.kill pid

theorem Prompt.timely (prompt : s.Prompt) (free : s.lock = none) : s.Timely := by
  refine timely_iff.mpr fun pid wait asleep => (prompt.asleep asleep).resolve_left ?_
  rintro ⟨holder, lock, _⟩
  rw [free] at lock
  cases lock

/-- A silent departure leaves a reader asleep beside a full buffer. -/
theorem not_timely_of_silent (silent : s.Silent event) (ran : s.step event = .ok next) :
    next.lock = none ∧ ¬next.Timely := by
  cases event with
  | advance pid =>
    obtain ⟨⟨addr, n, i, here, more⟩, full, ends, reader, wait, asleep, chan⟩ := silent
    have left : s.advance pid = .ok (s.release.moveTo pid (.out (some (-1)))) := by
      rw [PipeSystem.advance, here]
      simp only [pipewrite, if_pos more, if_pos full, if_pos ends]
    obtain rfl : s.release.moveTo pid (.out (some (-1))) = next := Except.ok.inj (left.symm.trans ran)
    refine ⟨rfl, fun timely => timely.reader reader ⟨wait, ?_, chan⟩ (.inl fun empty => ?_)⟩
    · rw [moveTo_place_ne, ← asleep]
      · rfl
      · rintro rfl
        rw [here] at asleep
        cases asleep
    · exact Pipe.not_empty_of_full full empty
  | _ => exact silent.elim

variable {page : Nat → BitVec 8} {killed : Nat → Bool} {events : List PipeEvent} {last : PipeSystem}

theorem interleave_prompt
    (loud : ∀ earlier event state, earlier ++ [event] <+: events → interleave page killed earlier = .ok state →
      ¬state.Silent event) (ran : interleave page killed events = .ok last) : last.Prompt := by
  induction events using List.reverseRecOn generalizing last with
  | nil =>
    cases ran
    refine ⟨fun asleep => ?_, fun intends => ?_⟩
    · cases asleep
    · cases intends
  | append_singleton events event ih =>
    obtain ⟨middle, reached, taken⟩ := runEvents_snoc.mp ran
    have prompt := ih (fun earlier later state inside =>
      loud earlier later state (inside.trans (List.prefix_append _ _))) reached
    obtain ⟨pending, queued⟩ := interleave_queued reached
    exact prompt.step queued (step_sound taken) (loud events event middle (List.prefix_refl _) reached)

/-- Whenever the lock is free, no reader and no writer sleeps past its condition, exactly when no writer gives up
on a full buffer while a reader is asleep. -/
theorem pipe_sleepers_timely_iff (ran : interleave page killed events = .ok last) :
    (∀ earlier state, earlier <+: events → interleave page killed earlier = .ok state → state.lock = none →
        state.Timely) ↔
      ∀ earlier event state, earlier ++ [event] <+: events → interleave page killed earlier = .ok state →
        ¬state.Silent event := by
  constructor
  · intro timely earlier event state inside reached silent
    obtain ⟨next, stepped⟩ := runEvents_prefix inside ran
    obtain ⟨middle, again, taken⟩ := runEvents_snoc.mp stepped
    obtain rfl : state = middle := Except.ok.inj (reached.symm.trans again)
    obtain ⟨free, late⟩ := not_timely_of_silent silent taken
    exact late (timely _ next inside stepped free)
  · intro loud earlier state inside reached free
    refine (interleave_prompt (fun before event middle within => ?_) reached).timely free
    exact loud before event middle (within.trans inside)

/-- A reader sleeps on an empty pipe, and a writer is killed before it stores 513 bytes. -/
def killedWrite : List PipeEvent :=
  [.call 1 (.read 1), .acquire 1, .advance 1, .advance 1, .call 0 (.write (fun _ => 7) 513), .kill 0, .acquire 0] ++
    List.replicate 1025 (.advance 0)

theorem pipe_sleepers_timely_iff_read :
    (∀ earlier state, earlier <+: killedWrite.take 4 → interleave (fun _ => 0) (fun _ => false) earlier = .ok state →
        state.lock = none → state.Timely) ↔
      ∀ earlier event state, earlier ++ [event] <+: killedWrite.take 4 →
        interleave (fun _ => 0) (fun _ => false) earlier = .ok state → ¬state.Silent event :=
  pipe_sleepers_timely_iff rfl

def sleepChan : PipePlace → Option PipeChan
  | .asleep wait => some wait.chan
  | _ => none

/-- The killed writer fills the buffer and gives up without a wakeup, and the reader stays asleep. -/
theorem pipe_reader_left_asleep :
    ∃ last, interleave (fun _ => 0) (fun _ => false) killedWrite = .ok last ∧ last.lock = none ∧
      last.SleepsOn 1 .nread ∧ ¬last.pipe.Empty ∧ last.pipe.writeopen = true ∧ ¬last.Timely := by
  have outcome : (interleave (fun _ => 0) (fun _ => false) killedWrite).toOption.map (fun system =>
      (system.lock, sleepChan (system.place 1), decide system.pipe.Empty, system.pipe.writeopen)) =
      some (none, some .nread, false, true) := by decide +kernel
  obtain ⟨last, ran, observed⟩ := exists_ok_of_observed outcome
  simp only [Prod.mk.injEq, decide_eq_false_iff_not] at observed
  obtain ⟨free, sleeping, nonempty, opened⟩ := observed
  have asleep : last.SleepsOn 1 .nread := by
    cases here : last.place 1 with
    | asleep wait =>
      rw [here] at sleeping
      exact ⟨wait, here, Option.some.inj sleeping⟩
    | _ =>
      rw [here] at sleeping
      cases sleeping
  exact ⟨last, ran, free, asleep, nonempty, opened, fun timely => timely.reader 1 asleep (.inl nonempty)⟩

end PipeSystem
end Xv6
