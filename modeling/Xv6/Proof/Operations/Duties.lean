import Xv6.Proof.Operations.Buffers

namespace Xv6
open Library Function Shared
variable {order : List (Fin NBUF)} {result : Bget} {blockno : BlockNo}

/-- Every dirty buffer is listed in the log and, during a commit, among the blocks that are not installed yet. -/
structure Listed (shared : Shared) (duties : Nat → Duty) : Prop where
  listed : ∀ b, (shared.buf b).dirty = true → (shared.buf b).blockno ∈ shared.log.lh.block
  remaining : ∀ pid log installed, (duties pid).role = .installing log installed →
    ∀ b, (shared.buf b).dirty = true → (shared.buf b).blockno ∈ log.lh.block.drop installed
  sees : ∀ pid, (duties pid).role.Sees shared.log
  once : shared.log.lh.block.Nodup

section Listed
variable {s after : Shared} {duties changed : Nat → Duty} {pid : Nat} {b : Fin NBUF} {log : Log}

theorem Role.Sees.congr {role : Role} {other : Log} (sees : role.Sees log) (lh : other.lh = log.lh)
    (start : other.start = log.start) : role.Sees other := by
  cases role with
  | working => trivial
  | installing | cleared => exact ⟨lh.trans sees.1, start.trans sees.2⟩

theorem Listed.congr (listed : Listed s duties)
    (dirty : ∀ b, (after.buf b).dirty = true → (s.buf b).dirty = true ∧ (after.buf b).blockno = (s.buf b).blockno)
    (lh : after.log.lh = s.log.lh) (start : after.log.start = s.log.start)
    (roles : ∀ pid, (changed pid).role = (duties pid).role) : Listed after changed where
  listed b set := by
    obtain ⟨old, same⟩ := dirty b set
    rw [same, lh]
    exact listed.listed b old
  remaining pid header installed role b set := by
    obtain ⟨old, same⟩ := dirty b set
    rw [roles] at role
    rw [same]
    exact listed.remaining pid header installed role b old
  sees pid := by
    rw [roles]
    exact (listed.sees pid).congr lh start
  once := by
    rw [lh]
    exact listed.once

theorem update_role {duty : Duty} (same : duty.role = (duties pid).role) (other : Nat) :
    (update duties pid duty other).role = (duties other).role := by
  by_cases self : other = pid
  · rw [self, update_self, same]
  · rw [update_of_ne self]

variable (listed : Listed s duties)
include listed

/-- A change of one buffer that leaves its flag `B_DIRTY` as it is keeps the list. -/
theorem Listed.setBuf {buf : Buf} {duty : Duty} {disk : Disk} (dirty : buf.dirty = true → (s.buf b).dirty = true)
    (blockno : buf.blockno = (s.buf b).blockno) (role : duty.role = (duties pid).role) :
    Listed {s.setBuf b buf with disk} (update duties pid duty) := by
  apply listed.congr
  · intro c set
    by_cases here : c = b
    · subst here
      have self : ({s.setBuf c buf with disk} : Shared).buf c = buf := setBuf_self buf
      rw [self] at set ⊢
      exact ⟨dirty set, blockno⟩
    · have same : ({s.setBuf b buf with disk} : Shared).buf c = s.buf c := setBuf_of_ne here buf
      rw [same] at set ⊢
      exact ⟨set, rfl⟩
  · rfl
  · rfl
  · exact update_role role

theorem Listed.cache {cache : Bcache} (dirty : ∀ b, (cache.buf b).dirty = true →
      (s.cache.buf b).dirty = true ∧ (cache.buf b).blockno = (s.cache.buf b).blockno) : Listed {s with cache} duties :=
  listed.congr dirty rfl rfl fun _ => rfl

theorem Listed.bget {cache : Bcache} (ring : s.cache.Ring order)
    (ran : s.cache.bget ROOTDEV blockno = .ok (result, cache)) : Listed {s with cache} duties := by
  apply listed.cache
  intro c set
  obtain ⟨hit, _, _, rfl⟩ | ⟨hit, _, _, _, rfl⟩ := ring.bget_cases ran
  · by_cases here : c = hit
    · rw [here, Bcache.setBuf_self] at set ⊢
      exact ⟨set, rfl⟩
    · rw [Bcache.setBuf_of_ne here] at set ⊢
      exact ⟨set, rfl⟩
  · by_cases here : c = hit
    · rw [here, Bcache.setBuf_self] at set
      cases set
    · rw [Bcache.setBuf_of_ne here] at set ⊢
      exact ⟨set, rfl⟩

theorem Listed.brelse : Listed {s with cache := s.cache.brelse b} duties := by
  apply listed.cache
  intro c set
  by_cases here : c = b
  · rw [here, Bcache.brelse_self] at set ⊢
    exact ⟨set, rfl⟩
  · rw [Bcache.brelse_of_ne here] at set ⊢
    exact ⟨set, rfl⟩

/-- The section of `log_write` lists the block of the buffer. -/
theorem Listed.append {lh : LogHeader} {duty : Duty} (stored : s.log.lh.logWrite (s.buf b).blockno = some lh)
    (working : ∀ other, (duties other).role = .working) (role : duty.role = .working) :
    Listed {s.setBuf b {s.buf b with dirty := true} with log := {s.log with lh}}
      (update duties pid duty) := by
  have roles : ∀ other, (update duties pid duty other).role = .working := by
    intro other
    rw [update_role (role.trans (working pid).symm), working]
  have block := LogHeader.logWrite_block stored
  constructor
  · intro c set
    rw [block]
    by_cases here : c = b
    · have self : ({s.setBuf b {s.buf b with dirty := true} with
          log := {s.log with lh}} : Shared).buf b = {s.buf b with dirty := true} := setBuf_self _
      rw [here, self]
      split
      case isTrue member => exact member
      case isFalse => simp
    · have same : ({s.setBuf b {s.buf b with dirty := true} with
          log := {s.log with lh}} : Shared).buf c = s.buf c := setBuf_of_ne here _
      rw [same] at set ⊢
      have member := listed.listed c set
      split
      · exact member
      · exact List.mem_append_left _ member
  · intro other log installed installing
    rw [roles] at installing
    cases installing
  · intro other
    rw [roles]
    trivial
  · rw [block]
    split
    · exact listed.once
    case isFalse fresh => exact List.nodup_append_comm.mp (List.nodup_cons.mpr ⟨fresh, listed.once⟩)

/-- A written buffer leaves the list of the blocks that are not installed yet. -/
theorem Listed.bwrite (coherent : Coherent s duties) (distinct : s.cache.Distinct) {hold : Hold}
    (held : (duties pid).held b = some hold) {caller : Writer} (allows : (duties pid).role.Allows caller hold.blockno)
    (alone : ∀ other ≠ pid, (duties other).role = .working) (ran : s.bwrite b = .ok after) :
    Listed after (update duties pid
      (((duties pid).hold b ⟨hold.blockno, .clean⟩).withRole ((duties pid).role.wrote caller))) := by
  have own := coherent.holds pid b hold held
  have written := bwrite_ok ran
  have self : after.buf b = {s.buf b with valid := true, dirty := false} := by
    rw [written]
    exact setBuf_self _
  have same : ∀ c ≠ b, after.buf c = s.buf c := by
    intro c ne
    rw [written]
    exact setBuf_of_ne ne _
  have log : after.log = s.log := by
    rw [written]
    rfl
  have dirty : ∀ c, (after.buf c).dirty = true → c ≠ b ∧ (s.buf c).dirty = true := by
    intro c set
    have ne : c ≠ b := by
      rintro rfl
      rw [self] at set
      cases set
    rw [same c ne] at set
    exact ⟨ne, set⟩
  constructor
  · intro c set
    obtain ⟨ne, old⟩ := dirty c set
    rw [same c ne, log]
    exact listed.listed c old
  · intro other header installed role c set
    obtain ⟨ne, old⟩ := dirty c set
    rw [same c ne]
    by_cases mine : other = pid
    · subst mine
      rw [update_self] at role
      have apart : (s.buf c).blockno ≠ hold.blockno := by
        intro equal
        apply ne
        exact s.same_block distinct (coherent.valid c (coherent.dirty c old)) own.dev (equal.trans own.blockno.symm)
      cases before : (duties other).role with
      | working =>
        rw [before] at allows
        exact absurd allows (by cases caller <;> exact id)
      | cleared first =>
        rw [before] at role
        cases caller <;> cases role
      | installing first count =>
        have member := listed.remaining other first count before c old
        rw [before] at role allows
        cases caller with
        | installTrans =>
          obtain ⟨rfl, rfl⟩ := Role.installing.inj role
          have next : first.lh.block[count]? = some hold.blockno := allows
          rw [List.drop_eq_getElem?_toList_append, next] at member
          rcases List.mem_append.mp member with here | later
          · exact absurd (List.mem_singleton.mp here) apart
          · exact later
        | writeLog | writeHead =>
          obtain ⟨rfl, rfl⟩ := Role.installing.inj role
          exact member
    · rw [update_of_ne mine, alone other mine] at role
      cases role
  · intro other
    rw [log]
    by_cases mine : other = pid
    · subst mine
      rw [update_self]
      have sees := listed.sees other
      cases before : (duties other).role with
      | working => cases caller <;> trivial
      | installing | cleared =>
        rw [before] at sees
        cases caller <;> exact sees
    · rw [update_of_ne mine, alone other mine]
      trivial
  · rw [log]
    exact listed.once

theorem Listed.clear (role : (duties pid).role = .installing log log.lh.n)
    (alone : ∀ other ≠ pid, (duties other).role = .working) :
    Listed {s with log := {s.log with lh := .empty}}
      (update duties pid ((duties pid).withRole (.cleared log))) := by
  have clean : ∀ b, (s.buf b).dirty ≠ true := by
    intro b dirty
    have member := listed.remaining pid log log.lh.n role b dirty
    rw [LogHeader.n, List.drop_length] at member
    cases member
  constructor
  · intro b dirty
    exact absurd dirty (clean b)
  · intro _ _ _ _ b dirty
    exact absurd dirty (clean b)
  · intro other
    by_cases mine : other = pid
    · subst mine
      rw [update_self]
      have sees := listed.sees other
      rw [role] at sees
      exact ⟨rfl, sees.2⟩
    · rw [update_of_ne mine, alone other mine]
      trivial
  · exact List.nodup_nil

end Listed

/-- The buffer that `bget` returns has the requested block. -/
theorem Bcache.Ring.bget_block {cache after : Bcache} {dev : BitVec 32} (ring : cache.Ring order)
    (ran : cache.bget dev blockno = .ok (result, after)) :
    (after.buf result.buf).dev = dev ∧ (after.buf result.buf).blockno = blockno := by
  obtain ⟨hit, rfl, found, rfl⟩ | ⟨hit, rfl, _, _, rfl⟩ := ring.bget_cases ran
  · simp only [Bcache.hasBlock, decide_eq_true_eq] at found
    simp [Bget.buf, found]
  · simp [Bget.buf]

/-- The next act of the task is a store into a buffer. -/
def Task.stores : Task → Bool
  | .run (.act (.store _ _) _) => true
  | _ => false

/-- The role of a process after the next step of its task. -/
def Task.nextRole : Task → Role → Role
  | .run (.act (.bwrite caller _) _), role => role.wrote caller
  | .run (.act .clear _), role => role.clear
  | _, role => role

theorem Task.nextRole_log (task : Task) (role : Role) : (task.nextRole role).log = role.log := by
  unfold nextRole
  split
  · exact role.wrote_log _
  · exact role.clear_log
  · rfl

/-- A step changes the role only in a commit. A modified buffer stays modified until it is logged or written. -/
structure Duty.Evolves (shared : Shared) (task : Task) (before after : Duty) : Prop where
  role : after.role = task.nextRole before.role
  modified : ∀ b hold, before.held b = some hold → hold.stage = .modified →
    (∃ rest, task = .appending b rest) ∨ (∃ caller next, task = .run (.act (.bwrite caller b) next)) ∨
      after.held b = some hold
  stored : ∀ b data next, task = .run (.act (.store b data) next) →
    ∃ hold, after.held b = some hold ∧ hold.stage = .modified ∧ hold.blockno = (shared.buf b).blockno

theorem Task.not_store {task : Task} (silent : task.stores = false) {b : Fin NBUF} {data : Block}
    {next : Unit → BufM Unit} : task ≠ .run (.act (.store b data) next) := by
  intro same
  rw [same] at silent
  exact Bool.noConfusion silent

/-- A task that stores nothing can leave the duty as it is. -/
theorem Duty.Evolves.refl {s : Shared} {task : Task} {duty : Duty} (silent : task.stores = false)
    (role : task.nextRole duty.role = duty.role) : duty.Evolves s task duty where
  role := role.symm
  modified _ _ held _ := .inr (.inr held)
  stored _ _ _ same := absurd same (Task.not_store silent)

/-- A task that stores nothing can change one buffer that is not modified. -/
theorem Duty.Evolves.hold {s : Shared} {task : Task} {duty : Duty} {b : Fin NBUF} {new : Hold}
    (silent : task.stores = false) (role : task.nextRole duty.role = duty.role)
    (own : ∀ old, duty.held b = some old → old.stage = .modified →
      (∃ rest, task = .appending b rest) ∨ (∃ caller next, task = .run (.act (.bwrite caller b) next)) ∨ old = new) :
    duty.Evolves s task (duty.hold b new) where
  role := role.symm
  modified c old held modified := by
    by_cases here : c = b
    · subst here
      rw [Duty.hold_self]
      rcases own old held modified with appends | writes | same
      · exact .inl appends
      · exact .inr (.inl writes)
      · exact .inr (.inr (congrArg some same.symm))
    · rw [Duty.hold_of_ne _ here]
      exact .inr (.inr held)
  stored _ _ _ same := absurd same (Task.not_store silent)

section Act
variable {shared s after : Shared} {duties : Nat → Duty} {pid : Nat} {inside : Bool} {task rest : Task} {access : Access}

/-- What is known about the shared state and the duties of all processes. -/
structure Sound (shared : Shared) (duties : Nat → Duty) (moving : Nat → Option (Fin NBUF)) : Prop where
  ring : ∃ order, shared.cache.Ring order
  distinct : shared.cache.Distinct
  counted : shared.cache.Counted moving
  coherent : Coherent shared duties
  listed : Listed shared duties

theorem ActStep.ring (ring : s.cache.Ring order) (ran : ActStep s pid inside task access after rest) :
    ∃ moved, after.cache.Ring moved := by
  cases ran with
  | bget blockno next result cache ran => exact ⟨order, ring.bget ran⟩
  | look | test | log | clear => exact ⟨order, ring⟩
  | iderw b next after ran =>
    obtain ⟨buf, disk, rfl, _⟩ := iderw_setBuf ran
    exact ⟨order, ring.setBuf buf⟩
  | store | append | release | acquire => exact ⟨order, ring.setBuf _⟩
  | bwrite caller b next after ran =>
    rw [bwrite_ok ran]
    exact ⟨order, ring.setBuf _⟩
  | brelse b rest =>
    obtain ⟨moved, holds, _⟩ := ring.brelse (b := b)
    exact ⟨moved, holds⟩

theorem ActStep.distinct (ring : s.cache.Ring order) (distinct : s.cache.Distinct)
    (ran : ActStep s pid inside task access after rest) : after.cache.Distinct := by
  cases ran with
  | bget blockno next result cache ran => exact distinct.bget ring ran
  | look | test | log | clear => exact distinct
  | iderw b next after ran =>
    obtain ⟨buf, disk, rfl, dev, blockno, _⟩ := iderw_setBuf ran
    exact distinct.setBuf dev blockno
  | store | append | release | acquire => exact distinct.setBuf rfl rfl
  | bwrite caller b next after ran =>
    rw [bwrite_ok ran]
    exact distinct.setBuf rfl rfl
  | brelse b rest => exact distinct.brelse

/-- A step of a process changes its duty as the protocol says, and the buffers and the log stay coherent with the
duties. -/
theorem Sound.duty {moving : Nat → Option (Fin NBUF)} (sound : Sound s duties moving)
    (keeps : task.Keeps s (duties pid)) (ran : ActStep s pid inside task access after rest)
    (quiet : ∀ b program, task = .appending b program → ∀ other, (duties other).role = .working)
    (alone : (duties pid).role ≠ .working → ∀ other ≠ pid, (duties other).role = .working) :
    ∃ duty, rest.Keeps after duty ∧ Coherent after (update duties pid duty) ∧
      Listed after (update duties pid duty) ∧ (duties pid).Evolves s task duty := by
  obtain ⟨order, ring⟩ := sound.ring
  have distinct := sound.distinct
  have coherent := sound.coherent
  have listed := sound.listed
  cases ran with
  | bget blockno next result cache ran =>
    refine ⟨duties pid, ?_, ?_, ?_, .refl rfl rfl⟩
    · obtain ⟨dev, block⟩ := ring.bget_block ran
      refine ⟨dev, ?_⟩
      intro free
      change bufProtocol.Keeps _ _ ((duties pid).hold result.buf ⟨(cache.buf result.buf).blockno, .fresh⟩)
      rw [block]
      exact keeps.2 result.buf _ ⟨free, rfl⟩
    · rw [update_eq_self]
      exact coherent.bget ring sound.counted ran
    · rw [update_eq_self]
      exact listed.bget ring ran
  | look b next =>
    obtain ⟨⟨hold, held⟩, further⟩ := keeps
    refine ⟨_, further _ _ ⟨hold, held, rfl⟩, coherent.look distinct held, ?_, .hold rfl rfl ?_⟩
    · exact listed.congr (fun _ set => ⟨set, rfl⟩) rfl rfl (update_role rfl)
    · intro old found modified
      obtain rfl := Option.some.inj (held.symm.trans found)
      refine .inr (.inr ?_)
      rw [modified]
      obtain ⟨blockno, stage⟩ := hold
      rw [← show stage = .modified from modified]
      cases stage <;> first | rfl | cases modified
  | iderw b next after ran =>
    obtain ⟨⟨blockno, held⟩, further⟩ := keeps
    refine ⟨_, further () _ ⟨_, held, rfl⟩, coherent.iderw distinct held ran, ?_, .hold rfl rfl ?_⟩
    · rw [iderw_read ran (coherent.clean_of_invalid held)]
      exact listed.setBuf id rfl rfl
    · intro old found modified
      obtain rfl := Option.some.inj (held.symm.trans found)
      cases modified
  | store b data next =>
    obtain ⟨⟨hold, held, ready⟩, further⟩ := keeps
    refine ⟨_, further () _ ⟨hold, held, rfl⟩, coherent.store distinct held ready data, listed.setBuf id rfl rfl, rfl,
      ?_, ?_⟩
    · intro c old found modified
      refine .inr (.inr ?_)
      by_cases here : c = b
      · subst here
        obtain rfl := Option.some.inj (held.symm.trans found)
        rw [Duty.hold_self, ← modified]
      · rw [Duty.hold_of_ne _ here]
        exact found
    · intro c other program same
      obtain ⟨rfl, _⟩ := BufAct.store.inj (Interaction.act.inj (Task.run.inj same)).1
      exact ⟨_, Duty.hold_self .., rfl, (coherent.holds pid b hold held).blockno.symm⟩
  | test b next inOp room fits =>
    obtain ⟨⟨working, hold, held, ready⟩, further⟩ := keeps
    refine ⟨duties pid, ⟨working, hold, held, ready, further () _ ⟨hold, held, rfl⟩⟩, ?_, ?_, .refl rfl rfl⟩
    · rw [update_eq_self]
      exact coherent
    · rw [update_eq_self]
      exact listed
  | append b program lh stored =>
    obtain ⟨working, hold, held, ready, further⟩ := keeps
    refine ⟨_, further, coherent.append distinct held ready _, ?_, .hold rfl rfl ?_⟩
    · exact listed.append stored (quiet b program rfl) working
    · exact fun _ _ _ => .inl ⟨program, rfl⟩
  | bwrite caller b next after ran =>
    obtain ⟨⟨hold, held, ready, allows⟩, further⟩ := keeps
    have committing : (duties pid).role ≠ .working := by
      intro working
      rw [working] at allows
      exact absurd allows (by cases caller <;> exact id)
    refine ⟨_, further () _ ⟨hold, held, rfl⟩, coherent.bwrite distinct held _ ran, ?_, rfl, ?_,
      fun _ _ _ same => absurd same (Task.not_store rfl)⟩
    · exact listed.bwrite coherent distinct held allows (alone committing) ran
    · intro c old found _
      by_cases here : c = b
      · exact .inr (.inl ⟨caller, next, by rw [here]⟩)
      · exact .inr (.inr ((Duty.hold_of_ne _ here _).trans found))
  | release b next =>
    obtain ⟨⟨blockno, held⟩, further⟩ := keeps
    refine ⟨_, further () _ rfl, coherent.release held, listed.setBuf id rfl rfl, rfl, ?_,
      fun _ _ _ same => absurd same (Task.not_store rfl)⟩
    intro c old found modified
    have ne : c ≠ b := by
      rintro rfl
      obtain rfl := Option.some.inj (held.symm.trans found)
      cases modified
    rw [Duty.drop_of_ne _ ne]
    exact .inr (.inr found)
  | brelse b program =>
    refine ⟨duties pid, keeps, ?_, ?_, .refl rfl rfl⟩
    · rw [update_eq_self]
      exact coherent.brelse
    · rw [update_eq_self]
      exact listed.brelse
  | acquire b program free =>
    have unheld : (duties pid).held b = none := by
      cases held : (duties pid).held b with
      | none => rfl
      | some hold =>
        have holder := (coherent.holds pid b hold held).holder
        rw [free] at holder
        cases holder
    refine ⟨_, keeps.2 unheld, coherent.acquire free keeps.1, ?_, .hold rfl rfl ?_⟩
    · exact listed.setBuf id rfl rfl
    · intro old found
      rw [unheld] at found
      cases found
  | log next =>
    refine ⟨duties pid, keeps.2 _ _ ⟨listed.sees pid, rfl⟩, ?_, ?_, .refl rfl rfl⟩
    · rw [update_eq_self]
      exact coherent
    · rw [update_eq_self]
      exact listed
  | clear next =>
    obtain ⟨⟨log, role⟩, further⟩ := keeps
    refine ⟨_, further () _ ⟨log, _, role, rfl⟩, ?_, ?_, ?_⟩
    · have kept : Coherent s (update duties pid ((duties pid).withRole (.cleared log))) := by
        apply coherent.congr_held
        intro other
        by_cases mine : other = pid
        · rw [mine, update_self]
          rfl
        · rw [update_of_ne mine]
      exact kept.congr (fun _ => .of_eq rfl) rfl
    · apply listed.clear role
      apply alone
      rw [role]
      nofun
    · refine ⟨?_, fun _ _ held _ => .inr (.inr held), fun _ _ _ same => absurd same (Task.not_store rfl)⟩
      rw [role]
      rfl

end Act
end Xv6
