import Xv6.Proof.Operations.Protocol
import Xv6.Proof.Operations.Steps

namespace Xv6
open Library Function
open Shared (setBuf_self setBuf_of_ne)
variable {other : Nat} {duty : Duty} {order : List (Fin NBUF)}

/-- A valid buffer is dirty or agrees with the disk. -/
def Shared.Synced (shared : Shared) (b : Fin NBUF) : Prop :=
  (shared.buf b).valid = true →
    (shared.buf b).dirty = true ∨ (shared.buf b).data = shared.disk (shared.buf b).blockno

/-- A process has locked a buffer that is at the given stage. -/
structure Shared.Holds (shared : Shared) (pid : Nat) (b : Fin NBUF) (hold : Hold) : Prop where
  holder : (shared.buf b).holder = some pid
  dev : (shared.buf b).dev = ROOTDEV
  blockno : (shared.buf b).blockno = hold.blockno
  invalid : hold.stage = .invalid → (shared.buf b).valid = false
  ready : hold.stage.Ready → (shared.buf b).valid = true
  synced : hold.stage ≠ .modified → shared.Synced b

/-- Only a buffer that its holder has modified can differ from the disk without being dirty. -/
structure Coherent (shared : Shared) (duties : Nat → Duty) : Prop where
  holds : ∀ pid b hold, (duties pid).held b = some hold → shared.Holds pid b hold
  synced : ∀ b, shared.Synced b ∨ ∃ pid hold, (duties pid).held b = some hold ∧ hold.stage = .modified
  valid : ∀ b, (shared.buf b).valid = true → (shared.buf b).dev = ROOTDEV
  dirty : ∀ b, (shared.buf b).dirty = true → (shared.buf b).valid = true

section Coherent
variable {shared s after : Shared} {duties : Nat → Duty} {pid : Nat} {b : Fin NBUF} {hold : Hold} {stage : Stage}
  {valid : Bool} {blockno : BlockNo}

/-- At most one buffer has a block of the root device. -/
theorem Shared.same_block (s : Shared) (distinct : s.cache.Distinct) {a b : Fin NBUF}
    (first : (s.buf a).dev = ROOTDEV) (second : (s.buf b).dev = ROOTDEV)
    (same : (s.buf a).blockno = (s.buf b).blockno) : a = b := by
  have named : ROOTDEV ≠ 0 := by
    decide
  exact distinct a b (first ▸ named) (first.trans second.symm) same

theorem Stage.seen_invalid (seen : stage.seen valid = .invalid) : stage = .invalid ∨ valid = false := by
  cases stage <;> cases valid <;> simp_all [Stage.seen]

theorem Stage.seen_ready (seen : (stage.seen valid).Ready) : stage.Ready ∨ valid = true := by
  cases stage <;> cases valid <;> simp_all [Stage.seen, Stage.Ready]

theorem Shared.Synced.congr (synced : s.Synced b) (buf : after.buf b = s.buf b)
    (disk : (s.buf b).valid = true → after.disk (s.buf b).blockno = s.disk (s.buf b).blockno) : after.Synced b := by
  intro valid
  rw [buf] at valid ⊢
  rw [disk valid]
  exact synced valid

/-- The fields of a buffer apart from its references are as before. -/
structure Shared.SameBuf (shared after : Shared) (b : Fin NBUF) : Prop where
  valid : (after.buf b).valid = (shared.buf b).valid
  dirty : (after.buf b).dirty = (shared.buf b).dirty
  dev : (after.buf b).dev = (shared.buf b).dev
  blockno : (after.buf b).blockno = (shared.buf b).blockno
  holder : (after.buf b).holder = (shared.buf b).holder
  data : (after.buf b).data = (shared.buf b).data

theorem Shared.SameBuf.of_eq (same : after.buf b = s.buf b) : s.SameBuf after b := by
  constructor <;> rw [same]

theorem Shared.SameBuf.synced (same : s.SameBuf after b) (disk : after.disk = s.disk) :
    after.Synced b ↔ s.Synced b := by
  rw [Synced, Synced, same.valid, same.dirty, same.data, same.blockno, disk]

theorem Shared.SameBuf.holds (same : s.SameBuf after b) (synced : s.Synced b → after.Synced b)
    (holds : s.Holds pid b hold) : after.Holds pid b hold where
  holder := same.holder.trans holds.holder
  dev := same.dev.trans holds.dev
  blockno := same.blockno.trans holds.blockno
  invalid stage := same.valid.trans (holds.invalid stage)
  ready stage := same.valid.trans (holds.ready stage)
  synced stage := synced (holds.synced stage)

variable (coherent : Coherent s duties)
include coherent

theorem Coherent.congr (same : ∀ b, s.SameBuf after b) (disk : after.disk = s.disk) : Coherent after duties where
  holds pid b hold held := (same b).holds ((same b).synced disk).mpr (coherent.holds pid b hold held)
  synced b := by
    rw [(same b).synced disk]
    exact coherent.synced b
  valid b set := by
    rw [(same b).dev]
    rw [(same b).valid] at set
    exact coherent.valid b set
  dirty b set := by
    rw [(same b).valid]
    rw [(same b).dirty] at set
    exact coherent.dirty b set

/-- Only the locked buffers of the duties matter. -/
theorem Coherent.congr_held {changed : Nat → Duty} (same : ∀ pid, (changed pid).held = (duties pid).held) :
    Coherent s changed where
  holds pid b hold held := by
    rw [same] at held
    exact coherent.holds pid b hold held
  synced b := by
    rcases coherent.synced b with synced | ⟨pid, hold, held, modified⟩
    · exact .inl synced
    · refine .inr ⟨pid, hold, ?_, modified⟩
      rw [same]
      exact held
  valid := coherent.valid
  dirty := coherent.dirty

theorem Coherent.exclusive {second : Hold} (held : (duties pid).held b = some hold)
    (again : (duties other).held b = some second) : pid = other := by
  have first := (coherent.holds pid b hold held).holder
  rw [(coherent.holds other b second again).holder] at first
  exact (Option.some.inj first).symm

theorem Coherent.unheld (free : (s.buf b).holder = none) : (duties other).held b ≠ some hold := by
  intro found
  have holder := (coherent.holds other b hold found).holder
  rw [free] at holder
  cases holder

/-- One buffer and the duties to it change. -/
theorem Coherent.change {changed : Nat → Duty} (others : ∀ c ≠ b, after.buf c = s.buf c)
    (kept : ∀ c ≠ b, s.Synced c → after.Synced c)
    (same : ∀ c ≠ b, ∀ other, (changed other).held c = (duties other).held c)
    (own : ∀ other hold, (changed other).held b = some hold → after.Holds other b hold)
    (synced : after.Synced b ∨ ∃ other hold, (changed other).held b = some hold ∧ hold.stage = .modified)
    (valid : (after.buf b).valid = true → (after.buf b).dev = ROOTDEV)
    (dirty : (after.buf b).dirty = true → (after.buf b).valid = true) : Coherent after changed := by
  constructor
  · intro other c hold found
    by_cases here : c = b
    · subst here
      exact own other hold found
    · rw [same c here] at found
      exact Shared.SameBuf.holds (.of_eq (others c here)) (kept c here) (coherent.holds other c hold found)
  · intro c
    by_cases here : c = b
    · subst here
      exact synced
    · simp only [same c here]
      exact (coherent.synced c).imp_left (kept c here)
  · intro c set
    by_cases here : c = b
    · subst here
      exact valid set
    · rw [others c here] at set ⊢
      exact coherent.valid c set
  · intro c set
    by_cases here : c = b
    · subst here
      exact dirty set
    · rw [others c here] at set ⊢
      exact coherent.dirty c set

omit coherent in
theorem held_update (same : duty.held b = (duties pid).held b) (other : Nat) :
    (update duties pid duty other).held b = (duties other).held b := by
  by_cases self : other = pid
  · rw [self, update_self, same]
  · rw [update_of_ne self]

/-- The holder of a buffer changes it and its block on the disk. -/
theorem Coherent.update_held (distinct : s.cache.Distinct) (held : (duties pid).held b = some hold) {new : Hold}
    (duty_held : duty.held = ((duties pid).hold b new).held) (others : ∀ c ≠ b, after.buf c = s.buf c)
    (disk : ∀ blockno ≠ (s.buf b).blockno, after.disk blockno = s.disk blockno) (holds : after.Holds pid b new)
    (dirty : (after.buf b).dirty = true → (after.buf b).valid = true) : Coherent after (update duties pid duty) := by
  have mine : duty.held b = some new := by rw [duty_held, Duty.hold_self]
  refine coherent.change others ?_ ?_ ?_ ?_ (fun _ => holds.dev) dirty
  · intro c ne synced
    apply synced.congr (others c ne)
    intro valid
    apply disk
    intro same
    exact ne (s.same_block distinct (coherent.valid c valid) (coherent.holds pid b hold held).dev same)
  · intro c ne
    exact held_update (by rw [duty_held, Duty.hold_of_ne _ ne])
  · intro other kind found
    by_cases self : other = pid
    · rw [self, update_self, mine] at found
      cases found
      exact self ▸ holds
    · rw [update_of_ne self] at found
      exact absurd (coherent.exclusive found held) self
  · by_cases stage : new.stage = .modified
    · exact .inr ⟨pid, new, by rw [update_self, mine], stage⟩
    · exact .inl (holds.synced stage)

theorem Coherent.look (distinct : s.cache.Distinct) (held : (duties pid).held b = some hold) :
    Coherent s (update duties pid ((duties pid).hold b ⟨hold.blockno, hold.stage.seen (s.buf b).valid⟩)) := by
  have own := coherent.holds pid b hold held
  apply coherent.update_held distinct held rfl
  · intro c _
    rfl
  · intro blockno _
    rfl
  · refine ⟨own.holder, own.dev, own.blockno, ?_, ?_, ?_⟩
    · intro stage
      rcases Stage.seen_invalid stage with old | invalid
      · exact own.invalid old
      · exact invalid
    · intro stage
      rcases Stage.seen_ready stage with old | valid
      · exact own.ready old
      · exact valid
    · intro stage
      apply own.synced
      intro modified
      rw [modified] at stage
      exact stage rfl
  · exact coherent.dirty b

theorem Coherent.clean_of_invalid (held : (duties pid).held b = some ⟨blockno, .invalid⟩) :
    (s.buf b).dirty = false := by
  have invalid := (coherent.holds pid b _ held).invalid rfl
  by_contra dirty
  have valid := coherent.dirty b (Bool.eq_true_of_not_eq_false dirty)
  rw [invalid] at valid
  cases valid

section
variable (distinct : s.cache.Distinct)
include distinct

theorem Coherent.iderw (held : (duties pid).held b = some ⟨blockno, .invalid⟩)
    (ran : s.iderw b = .ok after) : Coherent after (update duties pid ((duties pid).hold b ⟨blockno, .clean⟩)) := by
  have own := coherent.holds pid b _ held
  rw [Shared.iderw_read ran (coherent.clean_of_invalid held)]
  apply coherent.update_held distinct held rfl
  · intro c ne
    exact setBuf_of_ne ne _
  · intro _ _
    rfl
  · refine ⟨?_, ?_, ?_, nofun, ?_, ?_⟩
    · rw [setBuf_self]
      exact own.holder
    · rw [setBuf_self]
      exact own.dev
    · rw [setBuf_self]
      exact own.blockno
    · intro _
      rw [setBuf_self]
    · intro _ _
      rw [setBuf_self]
      exact .inr rfl
  · intro _
    rw [setBuf_self]

theorem Coherent.store (held : (duties pid).held b = some hold)
    (ready : hold.stage.Ready) (data : Block) :
    Coherent (s.setBuf b {s.buf b with data}) (update duties pid ((duties pid).hold b ⟨hold.blockno, .modified⟩)) := by
  have own := coherent.holds pid b hold held
  apply coherent.update_held distinct held rfl
  · intro c ne
    exact setBuf_of_ne ne _
  · intro _ _
    rfl
  · refine ⟨?_, ?_, ?_, nofun, ?_, absurd rfl⟩
    · rw [setBuf_self]
      exact own.holder
    · rw [setBuf_self]
      exact own.dev
    · rw [setBuf_self]
      exact own.blockno
    · intro _
      rw [setBuf_self]
      exact own.ready ready
  · rw [setBuf_self]
    exact coherent.dirty b

theorem Coherent.append (held : (duties pid).held b = some hold)
    (ready : hold.stage.Ready) (log : Log) :
    Coherent {s.setBuf b {s.buf b with dirty := true} with log}
      (update duties pid ((duties pid).hold b ⟨hold.blockno, .clean⟩)) := by
  have own := coherent.holds pid b hold held
  have self : ({s.setBuf b {s.buf b with dirty := true} with log} : Shared).buf b =
      {s.buf b with dirty := true} := setBuf_self _
  apply coherent.update_held distinct held rfl
  · intro c ne
    exact setBuf_of_ne ne _
  · intro _ _
    rfl
  · refine ⟨?_, ?_, ?_, nofun, ?_, ?_⟩
    · rw [self]
      exact own.holder
    · rw [self]
      exact own.dev
    · rw [self]
      exact own.blockno
    · intro _
      rw [self]
      exact own.ready ready
    · intro _ _
      rw [self]
      exact .inl rfl
  · intro _
    rw [self]
    exact own.ready ready

theorem Coherent.bwrite (held : (duties pid).held b = some hold) (role : Role)
    (ran : s.bwrite b = .ok after) :
    Coherent after (update duties pid (((duties pid).hold b ⟨hold.blockno, .clean⟩).withRole role)) := by
  have own := coherent.holds pid b hold held
  have written := Shared.bwrite_ok ran
  have self : after.buf b = {s.buf b with valid := true, dirty := false} := by
    rw [written]
    exact setBuf_self _
  have kept : (((duties pid).hold b ⟨hold.blockno, .clean⟩).withRole role).held =
      ((duties pid).hold b ⟨hold.blockno, .clean⟩).held := rfl
  apply coherent.update_held distinct held kept
  · intro c ne
    rw [written]
    exact setBuf_of_ne ne _
  · intro blockno ne
    rw [written]
    exact update_of_ne ne ..
  · refine ⟨?_, ?_, ?_, nofun, ?_, ?_⟩
    · rw [self]
      exact own.holder
    · rw [self]
      exact own.dev
    · rw [self]
      exact own.blockno
    · intro _
      rw [self]
    · intro _ _
      have stored : after.disk (s.buf b).blockno = (s.buf b).data := by
        rw [written]
        exact update_self ..
      rw [self]
      exact .inr stored.symm
  · intro dirty
    rw [self] at dirty
    cases dirty

end

theorem Coherent.acquire (free : (s.buf b).holder = none) (dev : (s.buf b).dev = ROOTDEV) :
    Coherent (s.setBuf b {s.buf b with holder := some pid})
      (update duties pid ((duties pid).hold b ⟨(s.buf b).blockno, .fresh⟩)) := by
  have synced : (s.setBuf b {s.buf b with holder := some pid}).Synced b := by
    rw [Shared.Synced, setBuf_self]
    exact (coherent.synced b).resolve_right fun ⟨_, _, found, _⟩ => coherent.unheld free found
  refine coherent.change (fun c ne => setBuf_of_ne ne _) ?_ (fun c ne => held_update (Duty.hold_of_ne _ ne _)) ?_
    (.inl synced) ?_ ?_
  · intro c ne
    exact (Shared.SameBuf.synced (.of_eq (setBuf_of_ne ne _)) rfl).mpr
  · intro other kind found
    by_cases self : other = pid
    · subst self
      rw [update_self, Duty.hold_self] at found
      cases found
      refine ⟨?_, ?_, ?_, nofun, fun ready => ?_, fun _ => synced⟩
      · rw [setBuf_self]
      · rw [setBuf_self]
        exact dev
      · rw [setBuf_self]
      · rcases ready with clean | modified
        · cases clean
        · cases modified
    · rw [update_of_ne self] at found
      exact absurd found (coherent.unheld free)
  · intro _
    rw [setBuf_self]
    exact dev
  · rw [setBuf_self]
    exact coherent.dirty b

theorem Coherent.release (held : (duties pid).held b = some ⟨blockno, .clean⟩) :
    Coherent {s with cache := s.cache.releasesleep b}
      (update duties pid ((duties pid).drop b)) := by
  change Coherent (s.setBuf b {s.buf b with holder := none}) _
  refine coherent.change (fun c ne => setBuf_of_ne ne _) ?_ (fun c ne => held_update (Duty.drop_of_ne _ ne)) ?_
    (.inl ?_) ?_ ?_
  · intro c ne
    exact (Shared.SameBuf.synced (.of_eq (setBuf_of_ne ne _)) rfl).mpr
  · intro other kind found
    by_cases self : other = pid
    · rw [self, update_self, Duty.drop_self] at found
      cases found
    · rw [update_of_ne self] at found
      exact absurd (coherent.exclusive found held) self
  · rw [Shared.Synced, setBuf_self]
    exact (coherent.holds pid b _ held).synced nofun
  · rw [setBuf_self]
    exact coherent.valid b
  · rw [setBuf_self]
    exact coherent.dirty b

theorem Coherent.bget {result : Bget} {cache : Bcache} {moving : Nat → Option (Fin NBUF)}
    (ring : s.cache.Ring order) (counted : s.cache.Counted moving)
    (ran : s.cache.bget ROOTDEV blockno = .ok (result, cache)) : Coherent {s with cache} duties := by
  obtain ⟨hit, _, _, rfl⟩ | ⟨hit, _, _, found, rfl⟩ := ring.bget_cases ran
  · apply coherent.congr
    · intro c
      by_cases here : c = hit
      · rw [here]
        constructor <;> simp [Shared.buf]
      · exact .of_eq (Bcache.setBuf_of_ne here _)
    · rfl
  · have unused := List.find?_some found
    simp only [Bcache.unused, decide_eq_true_eq] at unused
    have free := (counted.idle unused.1).1
    have self : ({s with cache := s.cache.setBuf hit {s.cache.buf hit with
        dev := ROOTDEV, blockno, valid := false, dirty := false, refcnt := 1}} : Shared).buf hit =
        {s.cache.buf hit with dev := ROOTDEV, blockno, valid := false, dirty := false, refcnt := 1} :=
      Bcache.setBuf_self _
    have others : ∀ c ≠ hit, ({s with cache := s.cache.setBuf hit {s.cache.buf hit with
        dev := ROOTDEV, blockno, valid := false, dirty := false, refcnt := 1}} : Shared).buf c = s.buf c :=
      fun c ne => Bcache.setBuf_of_ne ne _
    refine coherent.change others ?_ (fun _ _ _ => rfl) ?_ (.inl ?_) ?_ ?_
    · intro c ne
      exact (Shared.SameBuf.synced (.of_eq (others c ne)) rfl).mpr
    · intro other kind held
      exact absurd held (coherent.unheld free)
    · intro valid
      rw [self] at valid
      cases valid
    · rw [self]
      simp
    · rw [self]
      simp

theorem Coherent.brelse : Coherent {s with cache := s.cache.brelse b} duties := by
  apply coherent.congr
  · intro c
    by_cases here : c = b
    · rw [here]
      constructor <;> simp [Shared.buf]
    · exact .of_eq (Bcache.brelse_of_ne here)
  · rfl

end Coherent

/-- The rest of the task keeps to the protocol. -/
def Task.Keeps (shared : Shared) (duty : Duty) : Task → Prop
  | .run rest => bufProtocol.Keeps rest (fun _ after => after.Done) duty
  | .acquiring b rest => (shared.buf b).dev = ROOTDEV ∧ (duty.held b = none →
      bufProtocol.Keeps rest (fun _ after => after.Done) (duty.hold b ⟨(shared.buf b).blockno, .fresh⟩))
  | .releasing _ rest => bufProtocol.Keeps rest (fun _ after => after.Done) duty
  | .appending b rest => duty.role = .working ∧ ∃ hold, duty.held b = some hold ∧ hold.stage.Ready ∧
      bufProtocol.Keeps rest (fun _ after => after.Done) (duty.hold b ⟨hold.blockno, .clean⟩)

/-- The buffer that a process has a reference to without its lock. -/
def Task.moving : Task → Option (Fin NBUF)
  | .acquiring b _ => some b
  | .releasing b _ => some b
  | _ => none

/-- A referenced buffer keeps its block. -/
def Shared.Stable (shared after : Shared) : Prop :=
  ∀ b, 0 < (shared.buf b).refcnt → (after.buf b).dev = (shared.buf b).dev ∧ (after.buf b).blockno = (shared.buf b).blockno

section Tasks
variable {s after : Shared} {pid : Nat} {inside : Bool} {task rest : Task} {access : Access}

theorem Shared.Stable.setBuf {b : Fin NBUF} {buf : Buf} (updated : after.cache = s.cache.setBuf b buf)
    (dev : buf.dev = (s.buf b).dev) (blockno : buf.blockno = (s.buf b).blockno) : s.Stable after := by
  intro c _
  rw [Shared.buf, updated]
  by_cases here : c = b
  · rw [here, Bcache.setBuf_self]
    exact ⟨dev, blockno⟩
  · rw [Bcache.setBuf_of_ne here]
    exact ⟨rfl, rfl⟩

theorem ActStep.stable (ring : s.cache.Ring order) (ran : ActStep s pid inside task access after rest) :
    s.Stable after := by
  cases ran with
  | bget blockno next result cache ran =>
    intro c referenced
    obtain ⟨hit, _, _, rfl⟩ | ⟨hit, _, _, found, rfl⟩ := ring.bget_cases ran
    · suffices stable : s.Stable _ from stable c referenced
      apply Shared.Stable.setBuf <;> rfl
    · have ne : c ≠ hit := by
        rintro rfl
        have unused := List.find?_some found
        simp only [Bcache.unused, decide_eq_true_eq] at unused
        rw [Shared.buf, unused.1] at referenced
        cases referenced
      have same : ({s with cache := s.cache.setBuf hit {s.cache.buf hit with
          dev := ROOTDEV, blockno, valid := false, dirty := false, refcnt := 1}} : Shared).buf c =
          s.buf c := Bcache.setBuf_of_ne ne _
      rw [same]
      exact ⟨rfl, rfl⟩
  | iderw b next after ran =>
    obtain ⟨buf, disk, rfl, dev, blockno, _, _⟩ := Shared.iderw_setBuf ran
    exact .setBuf rfl dev blockno
  | bwrite caller b next after ran =>
    rw [Shared.bwrite_ok ran]
    exact .setBuf rfl rfl rfl
  | brelse b rest =>
    intro c _
    change ((s.cache.brelse b).buf c).dev = _ ∧ ((s.cache.brelse b).buf c).blockno = _
    by_cases here : c = b
    · rw [here, Bcache.brelse_self]
      exact ⟨rfl, rfl⟩
    · rw [Bcache.brelse_of_ne here]
      exact ⟨rfl, rfl⟩
  | look | test | log | clear => exact fun _ _ => ⟨rfl, rfl⟩
  | store | append | release | acquire => exact .setBuf rfl rfl rfl

/-- A step of another process does not disturb a task. -/
theorem Task.Keeps.stable {moving : Nat → Option (Fin NBUF)} (keeps : task.Keeps s duty)
    (counted : s.cache.Counted moving) (stable : s.Stable after) (moves : moving other = task.moving) :
    task.Keeps after duty := by
  cases task with
  | run | releasing | appending => exact keeps
  | acquiring b rest =>
    have positive := counted.positive moves
    obtain ⟨dev, blockno⟩ := stable b (by rw [Shared.buf]; omega)
    rw [Task.Keeps, dev, blockno]
    exact keeps

/-- The reference counts follow the point where the process stands. -/
theorem ActStep.counted {moving : Nat → Option (Fin NBUF)} (ring : s.cache.Ring order)
    (counted : s.cache.Counted moving) (moves : moving pid = task.moving)
    (holder : ∀ b next, task = .run (.act (.brelse b) next) → (s.buf b).holder = some pid)
    (ran : ActStep s pid inside task access after rest) : after.cache.Counted (update moving pid rest.moving) := by
  have still : ∀ cache : Bcache, task.moving = none → rest.moving = none → cache.Counted moving →
      cache.Counted (update moving pid rest.moving) := by
    intro cache before afterwards kept
    have same : update moving pid rest.moving = moving := by
      rw [afterwards, ← before, ← moves, update_eq_self]
    rwa [same]
  cases ran with
  | bget blockno next result cache ran => exact counted.bget ring moves ran
  | look | test | log | clear => exact still _ rfl rfl counted
  | iderw b next after ran =>
    apply still _ rfl rfl
    obtain ⟨buf, disk, rfl, _, _, holder, refcnt⟩ := Shared.iderw_setBuf ran
    exact counted.setBuf refcnt holder
  | store | append => exact still _ rfl rfl (counted.setBuf rfl rfl)
  | bwrite caller b next after ran =>
    apply still _ rfl rfl
    rw [Shared.bwrite_ok ran]
    exact counted.setBuf rfl rfl
  | release b next => exact counted.release moves (holder b next rfl)
  | brelse b rest => exact counted.brelse moves
  | acquire b rest free => exact counted.acquire moves free

end Tasks
end Xv6
