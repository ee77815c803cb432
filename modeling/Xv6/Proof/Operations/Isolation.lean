import Xv6.Proof.Operations.Duties

namespace Xv6
open Library Function List
variable {event : OpEvent} {shared : Shared} {duty : Duty}

def OpPlace.task : OpPlace → Option Task
  | .outside task => some task
  | .inside task => some task
  | .committing task => some task
  | _ => none

/-- The buffer that a process has a reference to without its lock. -/
def OpPlace.moving (place : OpPlace) : Option (Fin NBUF) := place.task.bind Task.moving

/-- A process that is not in a commit works, and only a process in an operation appends to the log. -/
def OpPlace.Keeps (shared : Shared) (duty : Duty) : OpPlace → Prop
  | .outside task => task.Keeps shared duty ∧ duty.role = .working ∧ ∀ b rest, task ≠ .appending b rest
  | .sleeping => duty.Done ∧ duty.role = .working
  | .woken => duty.Done ∧ duty.role = .working
  | .inside task => task.Keeps shared duty ∧ duty.role = .working
  | .committing task => task.Keeps shared duty ∧ duty.role ≠ .working

namespace OpSystem

/-- The process is between its `begin_op` and its `end_op`. -/
def InOp (system : OpSystem) (pid : Nat) : Prop := ∃ task, system.place pid = .inside task

/-- The process executes `commit`. -/
def Commits (system : OpSystem) (pid : Nat) : Prop := ∃ task, system.place pid = .committing task

def moving (system : OpSystem) (pid : Nat) : Option (Fin NBUF) := (system.place pid).moving

variable {s next : OpSystem} {pid other : Nat} {place : OpPlace}

@[simp] theorem moveTo_shared : (s.moveTo pid place).shared = s.shared := rfl

@[simp] theorem moveTo_place_self : (s.moveTo pid place).place pid = place := update_self ..

theorem moveTo_place_of_ne (ne : other ≠ pid) : (s.moveTo pid place).place other = s.place other :=
  update_of_ne ne ..

theorem moveTo_moving : (s.moveTo pid place).moving = update s.moving pid place.moving := by
  funext other
  by_cases self : other = pid
  · rw [self, update_self, moving, moveTo_place_self]
  · rw [update_of_ne self, moving, moveTo_place_of_ne self, moving]

/-- A move that does not change a property of the place of its process changes it for no process. -/
theorem moveTo_iff (status : OpPlace → Prop) (same : status place ↔ status (s.place pid)) (other : Nat) :
    status ((s.moveTo pid place).place other) ↔ status (s.place other) := by
  by_cases self : other = pid
  · rw [self, moveTo_place_self, same]
  · rw [moveTo_place_of_ne self]

/-- A wakeup changes no property that a sleeping process shares with a woken one. -/
theorem wakeup_iff (status : OpPlace → Prop) (same : status .woken ↔ status .sleeping) :
    status (s.wakeup.place pid) ↔ status (s.place pid) := by
  rw [wakeup]
  dsimp only
  split
  case h_1 asleep => rw [asleep, same]
  case h_2 => rfl

theorem wakeup_moving : s.wakeup.moving = s.moving := by
  funext pid
  exact (wakeup_iff (fun place => place.moving = s.moving pid) Iff.rfl).mpr rfl

theorem wakeup_awake : s.wakeup.place pid ≠ .sleeping := by
  rw [wakeup]
  dsimp only
  split
  case h_1 => nofun
  case h_2 awake => exact awake

theorem Enters.stands (enters : s.Enters event pid) : s.place pid = .outside .done ∨ s.place pid = .woken := by
  rcases enters with ⟨_, outside⟩ | ⟨_, woken⟩
  · exact .inl outside
  · exact .inr woken

end OpSystem
open OpSystem (moveTo_place_self moveTo_place_of_ne moveTo_iff moveTo_moving moveTo_shared)

theorem OpPlace.Keeps.wake {s : OpSystem} {pid : Nat} (keeps : (s.place pid).Keeps shared duty) :
    (s.wakeup.place pid).Keeps shared duty :=
  (OpSystem.wakeup_iff (fun place => place.Keeps shared duty) Iff.rfl).mpr keeps

theorem OpSystem.Enters.done {s : OpSystem} {pid : Nat} (enters : s.Enters event pid)
    (keeps : (s.place pid).Keeps shared duty) : duty.Done ∧ duty.role = .working := by
  rcases enters.stands with outside | woken
  · rw [outside] at keeps
    exact ⟨keeps.1, keeps.2.1⟩
  · rw [woken] at keeps
    exact keeps

/-- The operations are counted, and a commit excludes operations and other commits. -/
structure OpInvariant (system : OpSystem) (duties : Nat → Duty) (ops : Finset Nat) : Prop where
  sound : Sound system.shared duties system.moving
  places : ∀ pid, (system.place pid).Keeps system.shared (duties pid)
  members : ∀ pid, pid ∈ ops ↔ system.InOp pid
  outstanding : system.shared.log.outstanding = ops.card
  committing : system.shared.log.committing = true ↔ ∃ pid, system.Commits pid
  single : ∀ first second, system.Commits first → system.Commits second → first = second
  alone : system.shared.log.committing = true → ops = ∅
  asleep : ∀ pid, system.place pid = .sleeping → system.shared.log.Closed
  settled : ops = ∅ → system.shared.log.committing = false → system.shared.log.lh.n = 0

section Invariant
variable {system s next : OpSystem} {duties : Nat → Duty} {ops : Finset Nat} {pid other : Nat} {after : Shared}
  {inside : Bool} {rest : Task} {access : Access} {kind : OpKind} {events : List OpEvent}

/-- Only a process in an operation appends to the log. -/
theorem OpPlace.Keeps.appending {b : Fin NBUF} {rest : BufM Unit}
    (keeps : (kind.place (.appending b rest)).Keeps shared duty) : kind = .inside := by
  cases kind with
  | outside => exact absurd rfl (keeps.2.2 b rest)
  | inside => rfl
  | committing => exact absurd keeps.1.1 keeps.2

section
variable (invariant : OpInvariant s duties ops)
include invariant

theorem OpInvariant.role_iff : (duties pid).role ≠ .working ↔ s.Commits pid := by
  have keeps := invariant.places pid
  constructor
  · intro role
    cases place : s.place pid with
    | committing task => exact ⟨task, place⟩
    | outside task =>
      rw [place] at keeps
      exact absurd keeps.2.1 role
    | inside | sleeping | woken =>
      rw [place] at keeps
      exact absurd keeps.2 role
  · rintro ⟨task, place⟩
    rw [place] at keeps
    exact keeps.2

theorem OpInvariant.working (inOp : s.InOp pid) (other : Nat) : (duties other).role = .working := by
  by_contra role
  have committing := invariant.committing.mpr ⟨other, invariant.role_iff.mp role⟩
  have member := (invariant.members pid).mpr inOp
  rw [invariant.alone committing] at member
  exact absurd member (Finset.notMem_empty pid)

theorem OpInvariant.uncommitted (inOp : s.InOp pid) (other : Nat) : ¬s.Commits other :=
  fun commits => invariant.role_iff.mpr commits (invariant.working inOp other)

/-- A process that appends to the log is in an operation. -/
theorem OpInvariant.quiet {kind : OpKind} {task : Task} (stands : s.place pid = kind.place task) (b : Fin NBUF)
    (program : BufM Unit) (appends : task = .appending b program) (other : Nat) : (duties other).role = .working := by
  subst appends
  have keeps := invariant.places pid
  rw [stands] at keeps
  obtain rfl := keeps.appending
  exact invariant.working ⟨_, stands⟩ other

theorem OpInvariant.others_work (role : (duties pid).role ≠ .working) :
    ∀ other ≠ pid, (duties other).role = .working := by
  intro other ne
  by_contra again
  exact ne (invariant.single other pid (invariant.role_iff.mp again) (invariant.role_iff.mp role))

end

theorem initial_opInvariant (sb : Superblock) (devsw : Devsw) (disk : Disk) :
    OpInvariant (.initial sb devsw disk) (fun _ => ⟨.working, fun _ => none⟩) ∅ := by
  have zero : ∀ b, (OpSystem.initial sb devsw disk).shared.buf b = .zero := Bcache.binit_buf
  refine ⟨⟨⟨_, Bcache.ring_binit⟩, Bcache.distinct_binit, Bcache.counted_binit, ?_, ?_⟩, ?_, ?_, rfl, ?_, ?_, ?_, ?_, ?_⟩
  · refine ⟨nofun, ?_, ?_, ?_⟩
    · intro b
      left
      intro valid
      rw [zero] at valid
      cases valid
    · intro b valid
      rw [zero] at valid
      cases valid
    · intro b dirty
      rw [zero] at dirty
      cases dirty
  · refine ⟨?_, nofun, fun _ => trivial, nodup_nil⟩
    intro b dirty
    rw [zero] at dirty
    cases dirty
  · intro pid
    exact ⟨⟨fun _ => rfl, trivial⟩, rfl, nofun⟩
  · intro pid
    exact iff_of_false (Finset.notMem_empty pid) nofun
  · exact iff_of_false nofun nofun
  · exact nofun
  · exact fun _ => rfl
  · exact nofun
  · exact fun _ _ => rfl

/-- A change of the counters of the log keeps the buffers sound. -/
theorem Sound.setLog {moving : Nat → Option (Fin NBUF)} {log : Log} (sound : Sound shared duties moving)
    (lh : log.lh = shared.log.lh) (start : log.start = shared.log.start) : Sound {shared with log} duties moving where
  ring := sound.ring
  distinct := sound.distinct
  counted := sound.counted
  coherent := sound.coherent.congr (fun _ => .of_eq rfl) rfl
  listed := sound.listed.congr (fun _ set => ⟨set, rfl⟩) lh start fun _ => rfl

theorem Task.Keeps.congr {task : Task} (keeps : task.Keeps shared duty) (same : after.cache = shared.cache) :
    task.Keeps after duty := by
  cases task with
  | run | releasing | appending => exact keeps
  | acquiring b rest =>
    rw [Task.Keeps, Shared.buf, same]
    exact keeps

theorem OpPlace.Keeps.congr {place : OpPlace} (keeps : place.Keeps shared duty) (same : after.cache = shared.cache) :
    place.Keeps after duty := by
  cases place with
  | outside | inside | committing => exact ⟨keeps.1.congr same, keeps.2⟩
  | sleeping | woken => exact keeps

/-- A process moves to another place of the same kind and takes its duty with it. -/
theorem OpInvariant.relocate (invariant : OpInvariant s duties ops) {place : OpPlace}
    (inside : (∃ task, place = .inside task) ↔ s.InOp pid)
    (commits : (∃ task, place = .committing task) ↔ s.Commits pid) (moving : place.moving = s.moving pid)
    (keeps : place.Keeps s.shared (duties pid)) (asleep : place = .sleeping → s.shared.log.Closed) :
    OpInvariant (s.moveTo pid place) duties ops := by
  have everyInside : ∀ other, (s.moveTo pid place).InOp other ↔ s.InOp other :=
    moveTo_iff (fun place => ∃ task, place = .inside task) inside
  have everyCommits : ∀ other, (s.moveTo pid place).Commits other ↔ s.Commits other :=
    moveTo_iff (fun place => ∃ task, place = .committing task) commits
  constructor
  · rw [moveTo_moving, moving, update_eq_self]
    exact invariant.sound
  · intro other
    by_cases self : other = pid
    · rw [self, moveTo_place_self]
      exact keeps
    · rw [moveTo_place_of_ne self]
      exact invariant.places other
  · intro other
    rw [everyInside]
    exact invariant.members other
  · exact invariant.outstanding
  · simp only [everyCommits]
    exact invariant.committing
  · simp only [everyCommits]
    exact invariant.single
  · exact invariant.alone
  · intro other sleeps
    by_cases self : other = pid
    · rw [self, moveTo_place_self] at sleeps
      exact asleep sleeps
    · rw [moveTo_place_of_ne self] at sleeps
      exact invariant.asleep other sleeps
  · exact invariant.settled

theorem OpSystem.Enters.idle (enters : s.Enters event pid) : ¬s.InOp pid ∧ ¬s.Commits pid ∧ s.moving pid = none := by
  rw [OpSystem.InOp, OpSystem.Commits, moving]
  rcases enters.stands with stands | stands
  all_goals
    rw [stands]
    exact ⟨nofun, nofun, rfl⟩

section
variable (invariant : OpInvariant s duties ops)
include invariant

theorem OpInvariant.sleep (enters : s.Enters event pid) (closed : s.shared.log.Closed) :
    OpInvariant (s.moveTo pid .sleeping) duties ops := by
  obtain ⟨outside, quiet, still⟩ := enters.idle
  apply invariant.relocate
  · exact iff_of_false nofun outside
  · exact iff_of_false nofun quiet
  · exact still.symm
  · exact enters.done (invariant.places pid)
  · exact fun _ => closed

theorem OpInvariant.enroll (enters : s.Enters event pid) (opened : ¬s.shared.log.Closed) :
    OpInvariant ((s.setLog {s.shared.log with
      outstanding := s.shared.log.outstanding + 1}).moveTo pid (.inside .done)) duties (insert pid ops) := by
  have free : s.shared.log.committing = false := by
    by_contra committing
    exact opened (.inl (Bool.eq_true_of_not_eq_false committing))
  obtain ⟨outside, quiet, still⟩ := enters.idle
  have fresh : pid ∉ ops := by
    rw [invariant.members]
    exact outside
  have commits : ∀ other, ((s.setLog {s.shared.log with
      outstanding := s.shared.log.outstanding + 1}).moveTo pid (.inside .done)).Commits other ↔
      s.Commits other := by
    apply moveTo_iff fun place => ∃ task, place = .committing task
    exact iff_of_false nofun quiet
  have moving : ((s.setLog {s.shared.log with
      outstanding := s.shared.log.outstanding + 1}).moveTo pid (.inside .done)).moving = s.moving := by
    rw [moveTo_moving]
    exact update_eq_iff.mpr ⟨still.symm, fun _ _ => rfl⟩
  constructor
  · rw [moving]
    exact invariant.sound.setLog rfl rfl
  · intro other
    by_cases self : other = pid
    · rw [self, moveTo_place_self]
      exact enters.done (invariant.places pid)
    · rw [moveTo_place_of_ne self]
      exact (invariant.places other).congr rfl
  · intro other
    rw [Finset.mem_insert, invariant.members]
    by_cases self : other = pid
    · rw [self]
      exact iff_of_true (.inl rfl) ⟨.done, moveTo_place_self⟩
    · rw [OpSystem.InOp, OpSystem.InOp, moveTo_place_of_ne self]
      exact or_iff_right self
  · rw [invariant.outstanding, Finset.card_insert_of_notMem fresh]
    rfl
  · simp only [commits]
    exact invariant.committing
  · simp only [commits]
    exact invariant.single
  · intro committing
    change s.shared.log.committing = true at committing
    rw [free] at committing
    cases committing
  · intro other asleep
    have ne : other ≠ pid := by
      rintro rfl
      rw [moveTo_place_self] at asleep
      cases asleep
    rw [moveTo_place_of_ne ne] at asleep
    rcases invariant.asleep other asleep with committing | full
    · exact .inl committing
    · right
      change (s.shared.log.lh.n : Int) + (s.shared.log.outstanding + 1 + 1) * MAXOPBLOCKS > LOGSIZE
      simp only [MAXOPBLOCKS] at full ⊢
      omega
  · intro empty
    exact absurd empty (Finset.insert_ne_empty pid ops)

theorem OpInvariant.call (function : BufCall) (kind : OpKind) (ready : s.place pid = kind.place .done)
    (works : kind ≠ .committing) :
    OpInvariant (s.moveTo pid (kind.place (.run (function.program s.sb s.devsw)))) duties ops := by
  have keeps := invariant.places pid
  have started : (duties pid).Done → (duties pid).role = .working →
      (Task.run (function.program s.sb s.devsw)).Keeps s.shared (duties pid) := by
    intro done working
    apply (restores_program working s.sb s.devsw function).mono
    rintro _ after rfl
    exact done
  rw [ready] at keeps
  apply invariant.relocate
  · rw [OpSystem.InOp, ready]
    cases kind with
    | inside => exact iff_of_true ⟨_, rfl⟩ ⟨_, rfl⟩
    | outside => exact iff_of_false nofun nofun
    | committing => exact absurd rfl works
  · rw [OpSystem.Commits, ready]
    cases kind with
    | inside | outside => exact iff_of_false nofun nofun
    | committing => exact absurd rfl works
  · rw [OpSystem.moving, ready]
    cases kind <;> rfl
  · cases kind with
    | outside => exact ⟨started keeps.1 keeps.2.1, keeps.2.1, nofun⟩
    | inside => exact ⟨started keeps.1 keeps.2, keeps.2⟩
    | committing => exact absurd rfl works
  · cases kind <;> exact nofun

end

/-- A step of a task changes at most the header of the log. An append does not shorten it, and only the commit
clears it. -/
theorem ActStep.header {task : Task} (ran : ActStep shared pid inside task access after rest) :
    (∃ lh, after.log = {shared.log with lh}) ∧
      (after.log = shared.log ∨ ((∃ b program, task = .appending b program) ∧ shared.log.lh.n ≤ after.log.lh.n) ∨
        ∃ program, task = .run (.act .clear program)) := by
  cases ran with
  | iderw b next after ran =>
    obtain ⟨buf, disk, rfl, _⟩ := Shared.iderw_setBuf ran
    exact ⟨⟨_, rfl⟩, .inl rfl⟩
  | bwrite caller b next after ran =>
    rw [Shared.bwrite_ok ran]
    exact ⟨⟨_, rfl⟩, .inl rfl⟩
  | append b program lh stored =>
    refine ⟨⟨lh, rfl⟩, .inr (.inl ⟨⟨b, program, rfl⟩, ?_⟩)⟩
    rw [LogHeader.n, LogHeader.n, LogHeader.logWrite_block stored]
    split
    · exact Nat.le_refl _
    · simp
  | clear next => exact ⟨⟨_, rfl⟩, .inr (.inr ⟨next, rfl⟩)⟩
  | bget | look | store | test | release | brelse | acquire | log => exact ⟨⟨_, rfl⟩, .inl rfl⟩

theorem OpPlace.Keeps.task {task : Task} (keeps : (kind.place task).Keeps shared duty) : task.Keeps shared duty := by
  cases kind with
  | outside | inside | committing => exact keeps.1

theorem OpPlace.Keeps.clearing {next : Unit → BufM Unit}
    (keeps : (kind.place (.run (.act .clear next))).Keeps shared duty) : kind = .committing := by
  obtain ⟨log, role⟩ := keeps.task.1
  cases kind with
  | outside =>
    rw [keeps.2.1] at role
    cases role
  | inside =>
    rw [keeps.2] at role
    cases role
  | committing => rfl

/-- The steps of a task keep the kind of the place of its process. -/
theorem OpPlace.Keeps.advance {fresh : Duty} {task : Task} (keeps : (kind.place task).Keeps shared duty)
    (ran : ActStep shared pid kind.isInside task access after rest) (further : rest.Keeps after fresh)
    (role : fresh.role = .working ↔ duty.role = .working) : (kind.place rest).Keeps after fresh := by
  cases kind with
  | outside =>
    refine ⟨further, role.mpr keeps.2.1, ?_⟩
    rintro b program rfl
    cases ran with
    | test b next inOp room fits => cases inOp
  | inside => exact ⟨further, role.mpr keeps.2⟩
  | committing => exact ⟨further, fun working => keeps.2 (role.mp working)⟩

theorem OpPlace.moving_place (kind : OpKind) (task : Task) : (kind.place task).moving = task.moving := by
  cases kind <;> rfl

/-- A step of another process does not disturb a place. -/
theorem OpPlace.Keeps.stable {place : OpPlace} {moving : Nat → Option (Fin NBUF)} (keeps : place.Keeps shared duty)
    (counted : shared.cache.Counted moving) (stable : shared.Stable after) (moves : moving other = place.moving) :
    place.Keeps after duty := by
  cases place with
  | outside | inside | committing => exact ⟨keeps.1.stable counted stable moves, keeps.2⟩
  | sleeping | woken => exact keeps

/-- The steps of a task keep the set of operations. -/
theorem act_inOp {task : Task} (shared : Shared) (stands : s.place pid = kind.place task) (other : Nat) :
    ({s with shared}.moveTo pid (kind.place rest)).InOp other ↔ s.InOp other := by
  apply moveTo_iff fun place => ∃ task, place = .inside task
  rw [stands]
  cases kind with
  | inside => exact iff_of_true ⟨_, rfl⟩ ⟨_, rfl⟩
  | outside | committing => exact iff_of_false nofun nofun

theorem OpInvariant.act (invariant : OpInvariant s duties ops) {task : Task} (stands : s.place pid = kind.place task)
    (ran : ActStep s.shared pid kind.isInside task access shared rest) :
    ∃ duty, (duties pid).Evolves s.shared task duty ∧
      OpInvariant ({s with shared}.moveTo pid (kind.place rest)) (update duties pid duty) ops := by
  have keeps := invariant.places pid
  rw [stands] at keeps
  obtain ⟨order, ring⟩ := invariant.sound.ring
  have moves : s.moving pid = task.moving := by
    rw [OpSystem.moving, stands, OpPlace.moving_place]
  obtain ⟨duty, further, coherent, listed, evolves⟩ := invariant.sound.duty keeps.task ran (invariant.quiet stands)
    invariant.others_work
  have role : duty.role = .working ↔ (duties pid).role = .working := by
    rw [← Role.log_eq_none, evolves.role, Task.nextRole_log, Role.log_eq_none]
  have stable := ran.stable ring
  have inside : ∀ other, ({s with shared}.moveTo pid (kind.place rest)).InOp other ↔ s.InOp other :=
    act_inOp shared stands
  have commits : ∀ other, ({s with shared}.moveTo pid (kind.place rest)).Commits other ↔ s.Commits other := by
    apply moveTo_iff fun place => ∃ task, place = .committing task
    rw [stands]
    cases kind with
    | inside | outside => exact iff_of_false nofun nofun
    | committing => exact iff_of_true ⟨_, rfl⟩ ⟨_, rfl⟩
  obtain ⟨⟨lh, counters⟩, header⟩ := ran.header
  have outstanding : shared.log.outstanding = s.shared.log.outstanding := by
    rw [counters]
  have committing : shared.log.committing = s.shared.log.committing := by
    rw [counters]
  refine ⟨duty, evolves, ⟨ran.ring ring, ran.distinct ring invariant.sound.distinct, ?_, coherent, listed⟩, ?_, ?_, ?_,
    ?_, ?_, ?_, ?_, ?_⟩
  · rw [moveTo_moving, OpPlace.moving_place]
    apply ran.counted ring invariant.sound.counted moves
    rintro b next rfl
    obtain ⟨blockno, held⟩ := keeps.task.1
    exact (invariant.sound.coherent.holds pid b _ held).holder
  · intro other
    by_cases self : other = pid
    · rw [self, moveTo_place_self, update_self]
      exact keeps.advance ran further role
    · rw [moveTo_place_of_ne self, update_of_ne self]
      exact (invariant.places other).stable invariant.sound.counted stable rfl
  · intro other
    rw [inside]
    exact invariant.members other
  · exact outstanding.trans invariant.outstanding
  · simp only [commits]
    rw [moveTo_shared, committing]
    exact invariant.committing
  · simp only [commits]
    exact invariant.single
  · rw [moveTo_shared, committing]
    exact invariant.alone
  · intro other sleeps
    have ne : other ≠ pid := by
      rintro rfl
      rw [moveTo_place_self] at sleeps
      cases kind <;> cases sleeps
    rw [moveTo_place_of_ne ne] at sleeps
    have closed := invariant.asleep other sleeps
    change shared.log.Closed
    rcases header with same | ⟨_, longer⟩ | ⟨program, rfl⟩
    · rw [same]
      exact closed
    · rw [Log.Closed, committing, outstanding]
      rcases closed with busy | full
      · exact .inl busy
      · right
        omega
    · left
      have kindIs := keeps.clearing
      subst kindIs
      rw [committing]
      exact invariant.committing.mpr ⟨pid, _, stands⟩
  · intro empty idle
    rw [moveTo_shared, committing] at idle
    change shared.log.lh.n = 0
    rcases header with same | ⟨⟨b, program, rfl⟩, _⟩ | ⟨program, rfl⟩
    · rw [same]
      exact invariant.settled empty idle
    · have inOp := keeps.appending
      subst inOp
      have member := (invariant.members pid).mpr ⟨_, stands⟩
      rw [empty] at member
      exact absurd member (Finset.notMem_empty pid)
    · have kindIs := keeps.clearing
      subst kindIs
      rw [invariant.committing.mpr ⟨pid, _, stands⟩] at idle
      cases idle

/-- The duty of a process starts or ends a commit. -/
theorem Listed.withRole (listed : Listed shared duties) {role : Role}
    (remaining : ∀ log installed, role = .installing log installed → ∀ b, (shared.buf b).dirty = true →
      (shared.buf b).blockno ∈ log.lh.block.drop installed) (sees : role.Sees shared.log) :
    Listed shared (update duties pid ((duties pid).withRole role)) where
  listed := listed.listed
  remaining other log installed same b dirty := by
    by_cases self : other = pid
    · rw [self, update_self] at same
      exact remaining log installed same b dirty
    · rw [update_of_ne self] at same
      exact listed.remaining other log installed same b dirty
  sees other := by
    by_cases self : other = pid
    · rw [self, update_self]
      exact sees
    · rw [update_of_ne self]
      exact listed.sees other
  once := listed.once

theorem Coherent.withRole (coherent : Coherent shared duties) (role : Role) :
    Coherent shared (update duties pid ((duties pid).withRole role)) := by
  apply coherent.congr_held
  intro other
  by_cases self : other = pid
  · rw [self, update_self]
    rfl
  · rw [update_of_ne self]

theorem OpInvariant.endLast (invariant : OpInvariant s duties ops) (ready : s.place pid = .inside .done)
    (last : s.shared.log.outstanding - 1 = 0) :
    OpInvariant ((s.setLog {s.shared.log with
        outstanding := s.shared.log.outstanding - 1, committing := true}).moveTo pid (.committing (.run BufM.commit)))
      (update duties pid ((duties pid).withRole (.installing s.shared.log 0))) ∅ := by
  have keeps := invariant.places pid
  rw [ready] at keeps
  have inOp : s.InOp pid := ⟨_, ready⟩
  have only : ∀ other, s.InOp other → other = pid := by
    have count := invariant.outstanding
    have one : ops.card = 1 := by
      omega
    obtain ⟨single, rfl⟩ := Finset.card_eq_one.mp one
    intro other runs
    have first := Finset.mem_singleton.mp ((invariant.members pid).mpr inOp)
    have second := Finset.mem_singleton.mp ((invariant.members other).mpr runs)
    rw [first, second]
  have nobody := invariant.uncommitted inOp
  have idle : s.moving pid = none := by
    rw [OpSystem.moving, ready]
    rfl
  have sound : Sound {s.shared with log := {s.shared.log with
      outstanding := s.shared.log.outstanding - 1, committing := true}} duties s.moving :=
    invariant.sound.setLog rfl rfl
  constructor
  · refine ⟨sound.ring, sound.distinct, ?_, sound.coherent.withRole _, ?_⟩
    · rw [moveTo_moving]
      change Bcache.Counted _ (update s.moving pid none)
      rw [← idle, update_eq_self]
      exact sound.counted
    · apply sound.listed.withRole
      · intro log installed same b dirty
        obtain ⟨rfl, rfl⟩ := Role.installing.inj same
        exact invariant.sound.listed.listed b dirty
      · exact ⟨rfl, rfl⟩
  · intro other
    by_cases self : other = pid
    · rw [self, moveTo_place_self, update_self]
      exact ⟨BufM.keeps_commit rfl keeps.1.1, nofun⟩
    · rw [moveTo_place_of_ne self, update_of_ne self]
      exact (invariant.places other).congr rfl
  · intro other
    apply iff_of_false (Finset.notMem_empty other)
    rintro ⟨task, inside⟩
    by_cases self : other = pid
    · rw [self, moveTo_place_self] at inside
      cases inside
    · rw [moveTo_place_of_ne self] at inside
      exact self (only other ⟨task, inside⟩)
  · exact last
  · exact iff_of_true rfl ⟨pid, _, moveTo_place_self⟩
  · have mine : ∀ other, ((s.setLog {s.shared.log with
        outstanding := s.shared.log.outstanding - 1, committing := true}).moveTo pid
          (.committing (.run BufM.commit))).Commits other → other = pid := by
      rintro other ⟨task, committing⟩
      by_contra self
      rw [moveTo_place_of_ne self] at committing
      exact nobody other ⟨task, committing⟩
    intro first second one two
    rw [mine first one, mine second two]
  · exact fun _ => rfl
  · intro _ _
    exact .inl rfl
  · intro _ idle
    cases idle

/-- After a `wakeup` nobody sleeps, and every process is where it was otherwise. -/
theorem wakeup_moveTo_awake : (s.wakeup.moveTo pid (.outside .done)).place other ≠ .sleeping := by
  by_cases self : other = pid
  · rw [self, moveTo_place_self]
    nofun
  · rw [moveTo_place_of_ne self]
    exact OpSystem.wakeup_awake

theorem wakeup_moveTo_iff (status : OpPlace → Prop) (same : status .woken ↔ status .sleeping)
    (outside : ¬status (.outside .done)) :
    status ((s.wakeup.moveTo pid (.outside .done)).place other) ↔ other ≠ pid ∧ status (s.place other) := by
  by_cases self : other = pid
  · rw [self, moveTo_place_self]
    exact iff_of_false outside fun both => both.1 rfl
  · rw [moveTo_place_of_ne self, OpSystem.wakeup_iff status same]
    exact (and_iff_right self).symm

theorem wakeup_moveTo_inOp : (s.wakeup.moveTo pid (.outside .done)).InOp other ↔ other ≠ pid ∧ s.InOp other :=
  wakeup_moveTo_iff (fun place => ∃ task, place = .inside task) (iff_of_false nofun nofun) nofun

theorem wakeup_moveTo_commits : (s.wakeup.moveTo pid (.outside .done)).Commits other ↔
    other ≠ pid ∧ s.Commits other :=
  wakeup_moveTo_iff (fun place => ∃ task, place = .committing task) (iff_of_false nofun nofun) nofun

theorem wakeup_moveTo_moving (idle : s.moving pid = none) :
    (s.wakeup.moveTo pid (.outside .done)).moving = s.moving := by
  rw [moveTo_moving, OpSystem.wakeup_moving]
  exact update_eq_iff.mpr ⟨idle.symm, fun _ _ => rfl⟩

section
variable (invariant : OpInvariant s duties ops)
include invariant

theorem OpInvariant.endOther (ready : s.place pid = .inside .done) (free : s.shared.log.committing = false)
    (others : s.shared.log.outstanding - 1 ≠ 0) :
    OpInvariant ((s.setLog {s.shared.log with
      outstanding := s.shared.log.outstanding - 1}).wakeup.moveTo pid (.outside .done)) duties (ops.erase pid) := by
  have keeps := invariant.places pid
  rw [ready] at keeps
  have member : pid ∈ ops := (invariant.members pid).mpr ⟨_, ready⟩
  have nobody := invariant.uncommitted ⟨_, ready⟩
  have count := invariant.outstanding
  have positive : 0 < ops.card := Finset.card_pos.mpr ⟨pid, member⟩
  have fewer : (ops.erase pid).card = ops.card - 1 := Finset.card_erase_of_mem member
  have idle : s.moving pid = none := by
    rw [OpSystem.moving, ready]
    rfl
  constructor
  · rw [wakeup_moveTo_moving (by exact idle)]
    exact invariant.sound.setLog rfl rfl
  · intro other
    by_cases self : other = pid
    · rw [self, moveTo_place_self]
      exact ⟨keeps.1, keeps.2, nofun⟩
    · rw [moveTo_place_of_ne self]
      exact .wake ((invariant.places other).congr rfl)
  · intro other
    rw [wakeup_moveTo_inOp, Finset.mem_erase, invariant.members]
    exact Iff.rfl
  · change s.shared.log.outstanding - 1 = _
    rw [fewer]
    omega
  · simp only [wakeup_moveTo_commits]
    apply iff_of_false
    · rw [free]
      nofun
    · rintro ⟨other, _, commits⟩
      exact nobody other commits
  · intro first _ one
    exact absurd (wakeup_moveTo_commits.mp one).2 (nobody first)
  · intro committing
    change s.shared.log.committing = true at committing
    rw [free] at committing
    cases committing
  · intro other sleeps
    exact absurd sleeps wakeup_moveTo_awake
  · intro empty
    rw [empty, Finset.card_empty] at fewer
    omega

theorem OpInvariant.finish (ready : s.place pid = .committing .done) :
    OpInvariant ((s.setLog {s.shared.log with committing := false}).wakeup.moveTo pid (.outside .done))
      (update duties pid ((duties pid).withRole .working)) ops := by
  have keeps := invariant.places pid
  rw [ready] at keeps
  have commits : s.Commits pid := ⟨_, ready⟩
  have idle : s.moving pid = none := by
    rw [OpSystem.moving, ready]
    rfl
  have cleared : s.shared.log.lh.n = 0 := by
    have finished := keeps.1.2
    have sees := invariant.sound.listed.sees pid
    cases role : (duties pid).role with
    | working => exact absurd role keeps.2
    | installing log installed =>
      rw [role] at finished sees
      rw [sees.1]
      exact finished
    | cleared log =>
      rw [role] at sees
      rw [sees.1]
      rfl
  have sound : Sound {s.shared with log := {s.shared.log with committing := false}} duties s.moving :=
    invariant.sound.setLog rfl rfl
  constructor
  · rw [wakeup_moveTo_moving (by exact idle)]
    refine ⟨sound.ring, sound.distinct, sound.counted, sound.coherent.withRole _, ?_⟩
    apply sound.listed.withRole
    · intro log installed same
      cases same
    · trivial
  · intro other
    by_cases self : other = pid
    · rw [self, moveTo_place_self, update_self]
      exact ⟨⟨keeps.1.1, trivial⟩, rfl, nofun⟩
    · rw [moveTo_place_of_ne self, update_of_ne self]
      exact .wake ((invariant.places other).congr rfl)
  · intro other
    rw [wakeup_moveTo_inOp, invariant.members]
    constructor
    · intro inOp
      refine ⟨?_, inOp⟩
      rintro rfl
      obtain ⟨task, inside⟩ := inOp
      rw [ready] at inside
      cases inside
    · exact fun both => both.2
  · exact invariant.outstanding
  · simp only [wakeup_moveTo_commits]
    apply iff_of_false nofun
    rintro ⟨other, ne, again⟩
    exact ne (invariant.single other pid again commits)
  · intro first _ one
    obtain ⟨ne, again⟩ := wakeup_moveTo_commits.mp one
    exact absurd (invariant.single first pid again commits) ne
  · exact nofun
  · intro other sleeps
    exact absurd sleeps wakeup_moveTo_awake
  · intro _ _
    exact cleared

theorem OpInvariant.step (ran : s.step event = .ok next) : ∃ duties ops, OpInvariant next duties ops := by
  cases OpStep.of_step ran with
  | sleep pid enters closed => exact ⟨duties, ops, invariant.sleep enters closed⟩
  | enroll pid enters opened => exact ⟨duties, insert pid ops, invariant.enroll enters opened⟩
  | call pid function kind ready works => exact ⟨duties, ops, invariant.call function kind ready works⟩
  | act pid access kind task rest shared stands moved =>
    obtain ⟨duty, _, further⟩ := invariant.act stands moved
    exact ⟨_, ops, further⟩
  | endLast pid ready free last => exact ⟨_, ∅, invariant.endLast ready last⟩
  | endOther pid ready free others => exact ⟨duties, ops.erase pid, invariant.endOther ready free others⟩
  | finish pid ready => exact ⟨_, ops, invariant.finish ready⟩

end

theorem loggedSince_snoc (events : List OpEvent) (event : OpEvent) : loggedSince (events ++ [event]) =
      match event with
      | .act _ (.logged blockno) => loggedSince events ++ [blockno]
      | .finish _ => []
      | _ => loggedSince events := by
  rw [loggedSince, foldl_append]
  rfl

/-- A step either appends its block to the log or is not an append. -/
theorem ActStep.logged {task : Task} (ran : ActStep shared pid inside task access after rest) :
    (∃ b program lh, task = .appending b program ∧ access = .logged (shared.buf b).blockno ∧
      shared.log.lh.logWrite (shared.buf b).blockno = some lh ∧ after.log.lh = lh) ∨
    ((∀ b program, task ≠ .appending b program) ∧ ∀ blockno, access ≠ .logged blockno) := by
  cases ran with
  | append b program lh stored => exact .inl ⟨b, program, lh, rfl, rfl, stored, rfl⟩
  | store b data next =>
    right
    refine ⟨nofun, ?_⟩
    intro blockno
    split <;> nofun
  | _ => exact .inr ⟨nofun, nofun⟩

theorem LogHeader.mem_logWrite {lh next : LogHeader} {blockno : BlockNo} (stored : lh.logWrite blockno = some next)
    (other : BlockNo) : other ∈ next.block ↔ other ∈ lh.block ∨ other = blockno := by
  rw [logWrite_block stored]
  split
  case isTrue member =>
    constructor
    · exact .inl
    · rintro (inside | rfl)
      · exact inside
      · exact member
  case isFalse => rw [mem_append, mem_singleton]

/-- Outside a commit the log lists the blocks that were logged since the last commit. -/
def Lists (events : List OpEvent) (system : OpSystem) : Prop :=
  system.shared.log.committing = false →
    ∀ blockno, blockno ∈ system.shared.log.lh.block ↔ blockno ∈ loggedSince events

theorem OpInvariant.lists (invariant : OpInvariant s duties ops) (lists : Lists events s)
    (ran : s.step event = .ok next) : Lists (events ++ [event]) next := by
  obtain ⟨after, remaining, later⟩ := invariant.step ran
  cases OpStep.of_step ran with
  | sleep pid enters closed | enroll pid enters opened =>
    rcases enters with ⟨rfl, _⟩ | ⟨rfl, _⟩
    all_goals
      rw [Lists, loggedSince_snoc]
      exact lists
  | call | endOther =>
    rw [Lists, loggedSince_snoc]
    exact lists
  | act pid access kind task rest shared stands moved =>
    obtain ⟨⟨header, counters⟩, change⟩ := moved.header
    intro idle
    change shared.log.committing = false at idle
    have before : s.shared.log.committing = false := by
      rw [counters] at idle
      exact idle
    intro blockno
    change blockno ∈ shared.log.lh.block ↔ _
    have keeps := invariant.places pid
    rw [stands] at keeps
    rcases moved.logged with ⟨b, program, lh, rfl, rfl, stored, rfl⟩ | ⟨quiet, silent⟩
    · rw [loggedSince_snoc, LogHeader.mem_logWrite stored, lists before, mem_append, mem_singleton]
    · have same : shared.log = s.shared.log := by
        rcases change with same | ⟨⟨b, program, appends⟩, _⟩ | ⟨program, rfl⟩
        · exact same
        · exact absurd appends (quiet b program)
        · have kindIs := keeps.clearing
          subst kindIs
          rw [invariant.committing.mpr ⟨pid, _, stands⟩] at before
          cases before
      rw [loggedSince_snoc, same]
      cases access with
      | logged blockno => exact absurd rfl (silent blockno)
      | _ => exact lists before blockno
  | endLast pid ready free last =>
    intro idle
    cases idle
  | finish pid ready =>
    intro idle blockno
    have empty : s.shared.log.lh.n = 0 := by
      have commits : s.Commits pid := ⟨_, ready⟩
      have finished := invariant.finish ready
      exact finished.settled (invariant.alone (invariant.committing.mpr ⟨pid, commits⟩)) rfl
    change blockno ∈ s.shared.log.lh.block ↔ _
    rw [loggedSince_snoc, eq_nil_of_length_eq_zero empty]

theorem run_opInvariant {sb : Superblock} {devsw : Devsw} {disk : Disk}
    (ran : runEvents OpSystem.step events (.initial sb devsw disk) = .ok s) :
    Lists events s ∧ ∃ duties ops, OpInvariant s duties ops := by
  apply runEvents_invariant (fun events s => Lists events s ∧ ∃ duties ops, OpInvariant s duties ops)
    ⟨fun _ _ => Iff.rfl, _, _, initial_opInvariant sb devsw disk⟩ _ ran
  rintro events s event next ⟨lists, duties, ops, invariant⟩ stepped
  exact ⟨invariant.lists lists stepped, invariant.step stepped⟩

/-- A process that works and does not append to the log makes no buffer dirty or clean. -/
theorem Sound.dirty_same {moving : Nat → Option (Fin NBUF)} {task : Task} (sound : Sound shared duties moving)
    (keeps : task.Keeps shared (duties pid)) (working : (duties pid).role = .working)
    (quiet : ∀ b program, task ≠ .appending b program) (ran : ActStep shared pid inside task access after rest)
    (b : Fin NBUF) : (after.buf b).dirty = (shared.buf b).dirty := by
  have updated : ∀ (c : Fin NBUF) (buf : Buf), buf.dirty = (shared.buf c).dirty →
      ((shared.setBuf c buf).buf b).dirty = (shared.buf b).dirty := by
    intro c buf same
    by_cases here : b = c
    · rw [here, Shared.setBuf_self, same]
    · rw [Shared.setBuf_of_ne here]
  cases ran with
  | bget blockno next result cache ran =>
    obtain ⟨order, ring⟩ := sound.ring
    obtain ⟨hit, _, _, rfl⟩ | ⟨hit, _, _, found, rfl⟩ := ring.bget_cases ran
    · exact updated hit _ rfl
    · have unused := find?_some found
      simp only [Bcache.unused, decide_eq_true_eq] at unused
      exact updated hit _ unused.2.symm
  | iderw c next after ran =>
    obtain ⟨⟨blockno, held⟩, _⟩ := keeps
    rw [Shared.iderw_read ran (sound.coherent.clean_of_invalid held)]
    exact updated c _ rfl
  | bwrite caller c next after ran =>
    obtain ⟨⟨hold, _, _, allows⟩, _⟩ := keeps
    rw [working] at allows
    exact absurd allows (by cases caller <;> exact id)
  | append c program lh stored => exact absurd rfl (quiet c program)
  | brelse c program =>
    change ((shared.cache.brelse c).buf b).dirty = _
    rw [Bcache.brelse_buf]
    exact updated c _ rfl
  | look | test | log | clear => rfl
  | store c data next | release c next | acquire c program free => exact updated c _ rfl

end Invariant

def OpEvent.pid : OpEvent → Nat
  | .beginOp pid => pid
  | .retry pid => pid
  | .call pid _ => pid
  | .act pid _ => pid
  | .endOp pid => pid
  | .finish pid => pid

section Isolation
variable {system s next : OpSystem} {duties : Nat → Duty} {ops : Finset Nat} {pid : Nat}

/-- While a process commits, no operation is admitted and nothing is logged, and the other processes leave the log
and the flags `B_DIRTY` as they are. -/
theorem OpInvariant.isolated (invariant : OpInvariant s duties ops) (commits : s.Commits pid)
    (ran : s.step event = .ok next) :
    (∀ other, ¬next.InOp other) ∧ (∀ other blockno, event ≠ .act other (.logged blockno)) ∧
      (event.pid ≠ pid → next.shared.log = s.shared.log ∧ ∀ b, (next.shared.buf b).dirty = (s.shared.buf b).dirty) := by
  have committing := invariant.committing.mpr ⟨pid, commits⟩
  have nobody : ∀ other, ¬s.InOp other := by
    intro other inOp
    have member := (invariant.members other).mpr inOp
    rw [invariant.alone committing] at member
    exact absurd member (Finset.notMem_empty other)
  have moved : ∀ (s : OpSystem) (other : Nat) (place : OpPlace), (∀ task, place ≠ .inside task) →
      (∀ pid, ¬s.InOp pid) → ∀ pid, ¬(s.moveTo other place).InOp pid := by
    rintro s other place outside none pid ⟨task, inside⟩
    by_cases self : pid = other
    · rw [self, moveTo_place_self] at inside
      exact outside task inside
    · rw [moveTo_place_of_ne self] at inside
      exact none pid ⟨task, inside⟩
  cases OpStep.of_step ran with
  | sleep other enters closed =>
    refine ⟨moved s other _ nofun nobody, ?_, fun _ => ⟨rfl, fun _ => rfl⟩⟩
    rcases enters with ⟨rfl, _⟩ | ⟨rfl, _⟩ <;> nofun
  | enroll other enters opened => exact absurd (.inl committing) opened
  | call other function kind ready works =>
    refine ⟨moved s other _ ?_ nobody, nofun, fun _ => ⟨rfl, fun _ => rfl⟩⟩
    cases kind with
    | inside => exact absurd ⟨_, ready⟩ (nobody other)
    | outside | committing => nofun
  | act other access kind task rest shared stands acted =>
    have keeps := invariant.places other
    rw [stands] at keeps
    have outside : kind ≠ .inside := by
      rintro rfl
      exact nobody other ⟨_, stands⟩
    have quiet : ∀ b program, task ≠ .appending b program := by
      rintro b program rfl
      exact outside keeps.appending
    refine ⟨moved {s with shared} other _ ?_ nobody, ?_, ?_⟩
    · cases kind with
      | inside => exact absurd rfl outside
      | outside | committing => nofun
    · rintro _ blockno same
      obtain ⟨_, rfl⟩ := OpEvent.act.inj same
      rcases acted.logged with ⟨b, program, _, appends, _⟩ | ⟨_, silent⟩
      · exact quiet b program appends
      · exact silent blockno rfl
    · intro ne
      have works : kind = .outside := by
        cases kind with
        | inside => exact absurd rfl outside
        | outside => rfl
        | committing => exact absurd (invariant.single other pid ⟨_, stands⟩ commits) ne
      subst works
      constructor
      · rcases acted.header.2 with same | ⟨⟨b, program, appends⟩, _⟩ | ⟨program, rfl⟩
        · exact same
        · exact absurd appends (quiet b program)
        · cases keeps.clearing
      · exact invariant.sound.dirty_same keeps.task keeps.2.1 quiet acted
  | endLast other ready free last | endOther other ready free others => exact absurd ⟨_, ready⟩ (nobody other)
  | finish other ready =>
    refine ⟨?_, nofun, fun ne => absurd (invariant.single other pid ⟨_, ready⟩ commits) ne⟩
    intro third inOp
    exact nobody third (wakeup_moveTo_inOp.mp inOp).2

/-- A commit runs alone while no operation is outstanding. Until it ends no operation is admitted, nothing is logged
and no other process changes the log or marks a buffer. The log never lists a block twice, and outside a commit
it lists the blocks that were logged since the last commit. -/
theorem commit_isolated (sb : Superblock) (devsw : Devsw) (disk : Disk) (events : List OpEvent) (system : OpSystem)
    (ran : runEvents OpSystem.step events (.initial sb devsw disk) = .ok system) :
    (∀ pid, system.Commits pid → system.shared.log.outstanding = 0) ∧
    (∀ first second, system.Commits first → system.Commits second → first = second) ∧
    (∀ pid event next, system.Commits pid → system.step event = .ok next →
      (∀ other, ¬next.InOp other) ∧ (∀ other blockno, event ≠ .act other (.logged blockno)) ∧
      (event.pid ≠ pid → next.shared.log = system.shared.log ∧
        ∀ b, (next.shared.buf b).dirty = (system.shared.buf b).dirty)) ∧
    system.shared.log.lh.block.Nodup ∧
    ((∀ pid, ¬system.Commits pid) →
      ∀ blockno, blockno ∈ system.shared.log.lh.block ↔ blockno ∈ loggedSince events) := by
  obtain ⟨lists, duties, ops, invariant⟩ := run_opInvariant ran
  refine ⟨?_, invariant.single, ?_, invariant.sound.listed.once, ?_⟩
  · intro pid commits
    rw [invariant.outstanding, invariant.alone (invariant.committing.mpr ⟨pid, commits⟩)]
    rfl
  · intro pid event next commits stepped
    exact invariant.isolated commits stepped
  · intro nobody
    apply lists
    by_contra committing
    obtain ⟨pid, commits⟩ := invariant.committing.mp (Bool.eq_true_of_not_eq_false committing)
    exact nobody pid commits

/-- A disk of zeros without devices. -/
def OpSystem.blank : OpSystem := .initial Mkfs.sb ⟨fun _ => none, fun _ => none⟩ fun _ => 0

/-- An operation that logs nothing ends and its process starts a commit. -/
theorem commit_isolated_emptyOperation :
    ∃ system, runEvents OpSystem.step [.beginOp 0, .endOp 0] .blank = .ok system ∧ system.Commits 0 ∧
      system.shared.log.outstanding = 0 := by
  have observed : (runEvents OpSystem.step [.beginOp 0, .endOp 0] .blank).toOption.map
      (fun system => (system.place 0).ctorIdx) = some 4 := by
    decide +kernel
  obtain ⟨system, ran, place⟩ := exists_ok_of_observed observed
  have commits : system.Commits 0 := by
    cases stands : system.place 0 with
    | committing task => exact ⟨task, stands⟩
    | _ =>
      rw [stands] at place
      cases place
  exact ⟨system, ran, commits, (commit_isolated _ _ _ _ system ran).1 0 commits⟩

/-- A process sleeps in `begin_op` only during a commit or when the reserved blocks do not fit. If no operation is
outstanding and nobody commits, then the log is empty and nobody sleeps. -/
theorem begin_op_not_stranded (sb : Superblock) (devsw : Devsw) (disk : Disk) (events : List OpEvent)
    (system : OpSystem) (ran : runEvents OpSystem.step events (.initial sb devsw disk) = .ok system) :
    (∀ pid, system.place pid = .sleeping → (∃ committer, system.Commits committer) ∨
      system.shared.log.lh.n + (system.shared.log.outstanding + 1) * MAXOPBLOCKS > LOGSIZE) ∧
    (system.shared.log.outstanding = 0 → (∀ pid, ¬system.Commits pid) →
      system.shared.log.lh.n = 0 ∧ ∀ pid, system.place pid ≠ .sleeping) := by
  obtain ⟨_, duties, ops, invariant⟩ := run_opInvariant ran
  constructor
  · intro pid sleeps
    rcases invariant.asleep pid sleeps with committing | full
    · exact .inl (invariant.committing.mp committing)
    · exact .inr full
  · intro none nobody
    have idle : system.shared.log.committing = false := by
      by_contra committing
      obtain ⟨pid, commits⟩ := invariant.committing.mp (Bool.eq_true_of_not_eq_false committing)
      exact nobody pid commits
    have empty : ops = ∅ := by
      rw [invariant.outstanding] at none
      exact Finset.card_eq_zero.mp (by omega)
    have cleared := invariant.settled empty idle
    refine ⟨cleared, ?_⟩
    intro pid sleeps
    rcases invariant.asleep pid sleeps with committing | full
    · rw [idle] at committing
      cases committing
    · rw [cleared, none] at full
      exact absurd full (by decide)

/-- A fourth operation sleeps while three are outstanding. -/
theorem begin_op_not_stranded_fourth :
    ∃ system, runEvents OpSystem.step [.beginOp 0, .beginOp 1, .beginOp 2, .beginOp 3] .blank = .ok system ∧
      system.place 3 = .sleeping ∧ ((∃ committer, system.Commits committer) ∨
        system.shared.log.lh.n + (system.shared.log.outstanding + 1) * MAXOPBLOCKS > LOGSIZE) := by
  have observed : (runEvents OpSystem.step [.beginOp 0, .beginOp 1, .beginOp 2, .beginOp 3] .blank).toOption.map
      (fun system => (system.place 3).ctorIdx) = some OpPlace.sleeping.ctorIdx := by
    decide +kernel
  obtain ⟨system, ran, place⟩ := exists_ok_of_observed observed
  have sleeps : system.place 3 = .sleeping := by
    cases stands : system.place 3 with
    | sleeping => rfl
    | _ =>
      rw [stands] at place
      cases place
  exact ⟨system, ran, sleeps, (begin_op_not_stranded _ _ _ _ system ran).1 3 sleeps⟩

end Isolation
end Xv6
