import Xv6.Proof.Operations.Isolation

namespace Xv6
open Library Function List OpSystem Shared Access OpEvent
variable {caller : Writer} {blockno : BlockNo} {b : Fin NBUF} {log : Log} {changed : Nat → Duty} {duty : Duty}
  {events : List OpEvent} {event : OpEvent}

/-- The log lists the block, and the commit has not installed it yet. -/
def Pending (shared : Shared) (duties : Nat → Duty) (blockno : BlockNo) : Prop :=
  blockno ∈ shared.log.lh.block ∧
    ∀ pid log installed, (duties pid).role = .installing log installed → blockno ∈ log.lh.block.drop installed

/-- A buffer has the block and keeps it in the cache. -/
def Shared.Pins (shared : Shared) (b : Fin NBUF) (blockno : BlockNo) : Prop :=
  (shared.buf b).dirty = true ∧ (shared.buf b).dev = ROOTDEV ∧ (shared.buf b).blockno = blockno

/-- The commit is at its first steps, up to the search for a buffer for the first log block. -/
def Task.Starts (log : Log) (task : Task) : Prop :=
  task = .run BufM.commit ∨ (∃ rest : Unit → BufM Unit, task = .run (BufM.writeLog.bind rest)) ∨
    ∃ next : Fin NBUF → BufM Unit, task = .run (.act (.bget (log.slotBlock 0)) next)

section Act
variable {shared after : Shared} {duties : Nat → Duty} {pid : Nat} {inside : Bool} {task rest : Task} {access : Access}
  {moving : Nat → Option (Fin NBUF)} {installed : Nat}

theorem ActStep.written (ran : ActStep shared pid inside task (.wrote caller blockno) after rest) :
    ∃ b next, task = .run (.act (.bwrite caller b) next) ∧ blockno = (shared.buf b).blockno ∧
      shared.bwrite b = .ok after := by
  generalize same : wrote caller blockno = seen at ran
  cases ran with
  | bwrite writer b next after ran =>
    obtain ⟨rfl, rfl⟩ := wrote.inj same
    exact ⟨b, next, rfl, rfl, ran⟩
  | store b data next => split at same <;> cases same
  | _ => cases same

theorem ActStep.modified (ran : ActStep shared pid inside task (.modified blockno) after rest) :
    ∃ b data next, task = .run (.act (.store b data) next) ∧ blockno = (shared.buf b).blockno ∧ inside = true := by
  generalize same : Access.modified blockno = seen at ran
  cases ran with
  | store b data next =>
    cases inside with
    | true =>
      obtain rfl := Access.modified.inj same
      exact ⟨b, data, next, rfl, rfl, rfl⟩
    | false => cases same
  | _ => cases same

/-- A dirty buffer keeps its block until it is written. -/
theorem Sound.stays_pinned (sound : Sound shared duties moving) (keeps : task.Keeps shared (duties pid))
    (ran : ActStep shared pid inside task access after rest) (pins : shared.Pins b blockno) :
    after.Pins b blockno ∨ ∃ caller next, task = .run (.act (.bwrite caller b) next) := by
  have updated : ∀ (c : Fin NBUF) (buf : Buf), (c = b → buf.dirty = true) → buf.dev = (shared.buf c).dev →
      buf.blockno = (shared.buf c).blockno → (shared.setBuf c buf).Pins b blockno := by
    intro c buf dirty dev block
    rw [Shared.Pins]
    by_cases here : b = c
    · rw [here, setBuf_self, dev, block, ← here]
      exact ⟨dirty here.symm, pins.2⟩
    · rw [setBuf_of_ne here]
      exact pins
  have kept : ∀ c, c = b → (shared.buf c).dirty = true := by
    intro c here
    rw [here]
    exact pins.1
  cases ran with
  | bget wanted next result cache ran =>
    left
    obtain ⟨order, ring⟩ := sound.ring
    obtain ⟨hit, _, _, rfl⟩ | ⟨hit, _, _, found, rfl⟩ := ring.bget_cases ran
    · exact updated hit _ (kept hit) rfl rfl
    · have unused := find?_some found
      simp only [Bcache.unused, decide_eq_true_eq] at unused
      have ne : b ≠ hit := by
        intro here
        have dirty := kept hit here.symm
        rw [buf, unused.2] at dirty
        cases dirty
      rw [Shared.Pins, buf, Bcache.setBuf_of_ne ne]
      exact pins
  | iderw c next after ran =>
    left
    obtain ⟨⟨held, holds⟩, _⟩ := keeps
    rw [iderw_read ran (sound.coherent.clean_of_invalid holds)]
    exact updated c _ (kept c) rfl rfl
  | bwrite caller c next after ran =>
    by_cases here : c = b
    · right
      rw [here]
      exact ⟨caller, next, rfl⟩
    · left
      rw [bwrite_ok ran]
      exact updated c _ (fun same => absurd same here) rfl rfl
  | brelse c program =>
    left
    rw [Shared.Pins, buf, Bcache.brelse_buf]
    exact updated c _ (kept c) rfl rfl
  | append c program lh stored => exact .inl (updated c _ (fun _ => rfl) rfl rfl)
  | look | test | log | clear => exact .inl pins
  | store c data next | release c next | acquire c program free => exact .inl (updated c _ (kept c) rfl rfl)

theorem Sound.disk_same (sound : Sound shared duties moving) (keeps : task.Keeps shared (duties pid))
    (ran : ActStep shared pid inside task access after rest) (unwritten : ∀ caller, access ≠ .wrote caller blockno) :
    after.disk blockno = shared.disk blockno := by
  cases ran with
  | iderw b next after ran =>
    obtain ⟨⟨held, holds⟩, _⟩ := keeps
    rw [iderw_read ran (sound.coherent.clean_of_invalid holds)]
    rfl
  | bwrite caller b next after ran =>
    rw [bwrite_ok ran]
    have ne : blockno ≠ (shared.buf b).blockno := by
      intro same
      exact unwritten caller (by rw [same])
    exact update_of_ne ne ..
  | _ => rfl

/-- The commit goes from one of its first steps to the next one, or it has found a buffer for the first log
block. -/
theorem Task.Starts.next (starts : task.Starts log) (positive : 0 < log.lh.n) (lh : shared.log.lh = log.lh)
    (start : shared.log.start = log.start) (ran : ActStep shared pid inside task access after rest) :
    rest.Starts log ∨ ∃ result cache, shared.cache.bget ROOTDEV (log.slotBlock 0) = .ok (result, cache) := by
  rcases starts with rfl | ⟨further, rfl⟩ | ⟨next, rfl⟩
  · left
    cases ran with
    | log next =>
      right
      left
      have some : 0 < shared.log.lh.n := by
        rw [lh]
        exact positive
      exact ⟨fun _ => do
        BufM.writeHead
        BufM.installTrans
        BufM.clear
        BufM.writeHead, congrArg Task.run (if_pos some)⟩
  · left
    cases ran with
    | log next =>
      right
      right
      have some : 0 < shared.log.lh.n := by
        rw [lh]
        exact positive
      have slot : log.slotBlock 0 = shared.log.slotBlock 0 := by
        rw [Log.slotBlock, Log.slotBlock, start]
      rw [slot]
      have iterates : (if 0 < shared.log.lh.n then do
            BufM.writeLogBlock shared.log 0
            BufM.forTail BufM.writeLogBlock LOGSIZE 1
          else pure ()) = (do
            BufM.writeLogBlock shared.log 0
            BufM.forTail BufM.writeLogBlock LOGSIZE 1) := if_pos some
      exact ⟨_, congrArg (fun program : BufM Unit => Task.run (program.bind further)) iterates⟩
  · right
    cases ran with
    | bget blockno next result cache ran => exact ⟨result, cache, ran⟩

/-- If the log lists as many blocks as there are buffers, then every buffer is dirty. -/
theorem Listed.all_dirty (listed : Listed shared duties) (full : shared.log.lh.n = NBUF)
    (pinned : ∀ blockno ∈ shared.log.lh.block, ∃ b, shared.Pins b blockno) (b : Fin NBUF) :
    (shared.buf b).dirty = true := by
  choose keeper keeps using fun i : Fin shared.log.lh.block.length =>
    pinned (shared.log.lh.block.get i) (get_mem ..)
  have injective : Injective keeper := by
    intro first second same
    apply listed.once.injective_get
    rw [← (keeps first).2.2, ← (keeps second).2.2, same]
  have bijective : Bijective keeper := by
    rw [Fintype.bijective_iff_injective_and_card, Fintype.card_fin, Fintype.card_fin]
    exact ⟨injective, full⟩
  obtain ⟨i, rfl⟩ := bijective.surjective b
  exact (keeps i).1

theorem Pending.congr (lh : after.log.lh = shared.log.lh) (roles : ∀ pid, (changed pid).role = (duties pid).role) :
    Pending after changed blockno ↔ Pending shared duties blockno := by
  rw [Pending, Pending, lh]
  simp only [roles]

/-- While nobody commits every listed block is pending. -/
theorem pending_of_working (working : ∀ pid, (duties pid).role = .working) :
    Pending shared duties blockno ↔ blockno ∈ shared.log.lh.block := by
  constructor
  · exact fun pending => pending.1
  · intro member
    refine ⟨member, ?_⟩
    intro pid log installed role
    rw [working] at role
    cases role

/-- During a commit the blocks behind the installed ones are pending. -/
theorem Listed.pending_of_installing (listed : Listed shared duties)
    (role : (duties pid).role = .installing log installed) (alone : ∀ other ≠ pid, (duties other).role = .working) :
    Pending shared duties blockno ↔ blockno ∈ log.lh.block.drop installed := by
  constructor
  · exact fun pending => pending.2 pid log installed role
  · intro member
    have sees := listed.sees pid
    rw [role] at sees
    refine ⟨?_, ?_⟩
    · rw [sees.1]
      exact mem_of_mem_drop member
    · intro other header count same
      by_cases self : other = pid
      · rw [self, role] at same
        obtain ⟨rfl, rfl⟩ := Role.installing.inj same
        exact member
      · rw [alone other self] at same
        cases same

/-- The head of the remaining blocks occurs only once in a list without repetitions. -/
theorem mem_drop_succ {blocks : List BlockNo} {head : BlockNo} (once : blocks.Nodup)
    (next : blocks[installed]? = some head) :
    blockno ∈ blocks.drop (installed + 1) ↔ blockno ∈ blocks.drop installed ∧ blockno ≠ head := by
  have split : blocks.drop installed = head :: blocks.drop (installed + 1) := by
    rw [drop_eq_getElem?_toList_append, next]
    rfl
  have distinct : (head :: blocks.drop (installed + 1)).Nodup := by
    rw [← split]
    exact once.sublist (drop_sublist ..)
  rw [split, mem_cons]
  constructor
  · intro member
    refine ⟨.inr member, ?_⟩
    rintro rfl
    exact (nodup_cons.mp distinct).1 member
  · rintro ⟨rfl | member, ne⟩
    · exact absurd rfl ne
    · exact member

/-- A call of `bwrite` makes no block pending, and `install_trans` settles its block. -/
theorem Listed.pending_bwrite {written : BlockNo} (listed : Listed shared duties)
    (allows : (duties pid).role.Allows caller written) (alone : ∀ other ≠ pid, (duties other).role = .working)
    (log : after.log = shared.log) (role : duty.role = (duties pid).role.wrote caller)
    (further : Listed after (update duties pid duty)) :
    Pending after (update duties pid duty) blockno ↔
      Pending shared duties blockno ∧ wrote caller written ≠ .wrote .installTrans blockno := by
  have others : ∀ other ≠ pid, (update duties pid duty other).role = .working := by
    intro other ne
    rw [update_of_ne ne]
    exact alone other ne
  have unchanged : duty.role = (duties pid).role → caller ≠ .installTrans →
      (Pending after (update duties pid duty) blockno ↔
        Pending shared duties blockno ∧ wrote caller written ≠ .wrote .installTrans blockno) := by
    intro same other
    rw [Pending.congr (congrArg Log.lh log) (update_role same)]
    refine (and_iff_left ?_).symm
    intro equal
    exact other (wrote.inj equal).1
  cases before : (duties pid).role with
  | working =>
    rw [before] at allows
    exact absurd allows (by cases caller <;> exact id)
  | cleared header =>
    rw [before] at allows role
    apply unchanged
    · rw [role, before]
      cases caller <;> rfl
    · rintro rfl
      exact allows
  | installing header installed =>
    rw [before] at allows role
    cases caller with
    | writeLog | writeHead => exact unchanged (role.trans before.symm) nofun
    | installTrans =>
      have now : (update duties pid duty pid).role = .installing header (installed + 1) := by
        rw [update_self]
        exact role
      have once := listed.once
      have sees := listed.sees pid
      rw [before] at sees
      rw [sees.1] at once
      rw [further.pending_of_installing now others, listed.pending_of_installing before alone,
        mem_drop_succ once allows]
      apply and_congr_right
      intro _
      rw [ne_eq, ne_eq, wrote.injEq, eq_comm]
      simp

/-- A step settles the block that `install_trans` writes and makes the logged block pending. -/
theorem Sound.pending (sound : Sound shared duties moving) (keeps : task.Keeps shared (duties pid))
    (ran : ActStep shared pid inside task access after rest)
    (quiet : ∀ b program, task = .appending b program → ∀ other, (duties other).role = .working)
    (alone : (duties pid).role ≠ .working → ∀ other ≠ pid, (duties other).role = .working)
    (role : duty.role = task.nextRole (duties pid).role) (further : Listed after (update duties pid duty))
    (blockno : BlockNo) :
    Pending after (update duties pid duty) blockno ↔
      (Pending shared duties blockno ∧ access ≠ .wrote .installTrans blockno) ∨ access = .logged blockno := by
  have plain : after.log.lh = shared.log.lh → duty.role = (duties pid).role → access ≠ .wrote .installTrans blockno →
      access ≠ .logged blockno → (Pending after (update duties pid duty) blockno ↔
        (Pending shared duties blockno ∧ access ≠ .wrote .installTrans blockno) ∨ access = .logged blockno) := by
    intro lh same unwritten unlogged
    rw [Pending.congr lh (update_role same)]
    simp [unwritten, unlogged]
  cases ran with
  | append b program lh stored =>
    have working := quiet b program rfl
    have still : ∀ other, (update duties pid duty other).role = .working := by
      intro other
      rw [update_role role, working]
    rw [pending_of_working still, pending_of_working working, LogHeader.mem_logWrite stored]
    simp [eq_comm]
  | bwrite caller b next after ran =>
    obtain ⟨⟨hold, held, _, allows⟩, _⟩ := keeps
    have log : after.log = shared.log := by
      rw [bwrite_ok ran]
      rfl
    have committing : (duties pid).role ≠ .working := by
      intro working
      rw [working] at allows
      exact absurd allows (by cases caller <;> exact id)
    rw [← (sound.coherent.holds pid b hold held).blockno] at allows
    rw [sound.listed.pending_bwrite allows (alone committing) log role further]
    simp
  | clear next =>
    obtain ⟨⟨log, installing⟩, _⟩ := keeps
    have committing : (duties pid).role ≠ .working := by
      rw [installing]
      nofun
    rw [sound.listed.pending_of_installing installing (alone committing), LogHeader.n, drop_length]
    simp [Pending, LogHeader.empty]
  | iderw b next after ran =>
    obtain ⟨buf, disk, rfl, _⟩ := iderw_setBuf ran
    exact plain rfl role nofun nofun
  | store b data next =>
    apply plain rfl role <;> split <;> nofun
  | bget | look | test | release | brelse | acquire | log => exact plain rfl role nofun nofun

end Act

theorem mem_modifiedSince_snoc (member : blockno ∈ modifiedSince (events ++ [event])) :
    (∃ pid, event = .act pid (.modified blockno)) ∨
      (blockno ∈ modifiedSince events ∧ ∀ pid, event ≠ .act pid (.wrote .installTrans blockno)) := by
  rw [modifiedSince, foldl_append] at member
  simp only [foldl_cons, foldl_nil] at member
  split at member
  case h_1 pid changed =>
    rcases mem_append.mp member with old | new
    · exact .inr ⟨old, by simp⟩
    · rw [mem_singleton.mp new]
      exact .inl ⟨pid, rfl⟩
  case h_2 pid installed =>
    obtain ⟨old, ne⟩ := mem_filter.mp member
    refine .inr ⟨old, ?_⟩
    rintro other same
    obtain ⟨_, equal⟩ := act.inj same
    exact of_decide_eq_true ne (wrote.inj equal).2.symm
  case h_3 other =>
    refine .inr ⟨member, ?_⟩
    rintro pid rfl
    exact other pid blockno rfl

/-- What a run keeps that logs only blocks outside the log region. The commit fits into the region, or it stops before
its first write. -/
structure Tracked (start : BlockNo) (size : Int) (disk : Disk) (events : List OpEvent) (system : OpSystem)
    (duties : Nat → Duty) : Prop where
  origin : system.shared.log.start = start ∧ system.shared.log.size = size
  homes : ∀ blockno ∈ system.shared.log.lh.block, ¬InLog start size blockno
  pinned : ∀ blockno, Pending system.shared duties blockno → ∃ b, system.shared.Pins b blockno
  modified : ∀ blockno ∈ modifiedSince events, Pending system.shared duties blockno ∨
    ∃ pid b hold, system.InOp pid ∧ (duties pid).held b = some hold ∧ hold.stage = .modified ∧ hold.blockno = blockno
  fits : ∀ pid log, (duties pid).role.log = some log → (log.lh.n : Int) ≤ size - 1 ∨
    ((duties pid).role = .installing log 0 ∧ ∃ task, system.place pid = .committing task ∧ task.Starts log)
  writes : ∀ pid caller blockno, .act pid (.wrote caller blockno) ∈ events →
    caller = .installTrans ∨ InLog start size blockno
  kept : ∀ blockno, ¬InLog start size blockno → (∀ pid, .act pid (.wrote .installTrans blockno) ∉ events) →
    system.shared.disk blockno = disk blockno

section Tracked
variable {start : BlockNo} {size : Int} {disk : Disk} {events : List OpEvent} {s next : OpSystem}
  {duties : Nat → Duty} {ops : Finset Nat} {pid : Nat} {kind : OpKind} {task rest : Task} {access : Access}
  {shared : Shared}

theorem inLog_slotBlock {tail : Nat} (fits : (tail : Int) + 1 < size) : InLog log.start size (log.slotBlock tail) := by
  refine ⟨tail + 1, fits, ?_⟩
  rw [Log.slotBlock, BitVec.ofNat_add, ← BitVec.add_assoc]
  rfl

theorem Task.Starts.nextRole (starts : task.Starts log) (role : Role) : task.nextRole role = role := by
  rcases starts with rfl | ⟨further, rfl⟩ | ⟨next, rfl⟩ <;> rfl

theorem Task.Starts.not_bwrite (starts : task.Starts log) {next : Unit → BufM Unit} :
    task ≠ .run (.act (.bwrite caller b) next) := by
  rcases starts with rfl | ⟨further, rfl⟩ | ⟨next, rfl⟩
  · intro same
    cases Task.run.inj same
  · intro same
    cases Task.run.inj same
  · nofun

section
variable (tracked : Tracked start size disk events s duties)
include tracked

/-- The log functions write to the log region, and only `install_trans` writes elsewhere. -/
theorem Tracked.region (invariant : OpInvariant s duties ops) {next : Unit → BufM Unit}
    (stands : s.place pid = kind.place (.run (.act (.bwrite caller b) next))) :
    caller = .installTrans ∨ InLog start size (s.shared.buf b).blockno := by
  have keeps := invariant.places pid
  rw [stands] at keeps
  obtain ⟨⟨hold, held, _, allows⟩, _⟩ := keeps.task
  rw [(invariant.sound.coherent.holds pid b hold held).blockno]
  have room : ∀ log, (duties pid).role.log = some log → log.start = start → (log.lh.n : Int) ≤ size - 1 := by
    intro log role _
    rcases tracked.fits pid log role with fits | ⟨_, program, place, starts⟩
    · exact fits
    · rw [stands] at place
      cases kind with
      | outside | inside => cases place
      | committing => exact absurd (OpPlace.committing.inj place).symm starts.not_bwrite
  have sees := invariant.sound.listed.sees pid
  cases role : (duties pid).role with
  | working =>
    rw [role] at allows
    exact absurd allows (by cases caller <;> exact id)
  | installing log installed =>
    rw [role] at allows sees room
    have origin : log.start = start := sees.2.symm.trans tracked.origin.1
    have fits := room log rfl origin
    cases caller with
    | installTrans => exact .inl rfl
    | writeLog =>
      right
      obtain ⟨tail, inside, slot⟩ := allows
      rw [slot, ← origin]
      apply inLog_slotBlock
      omega
    | writeHead =>
      right
      obtain ⟨positive, head⟩ := allows
      refine ⟨0, by omega, ?_⟩
      rw [head, origin]
      simp
  | cleared log =>
    rw [role] at allows sees room
    have origin : log.start = start := sees.2.symm.trans tracked.origin.1
    have fits := room log rfl origin
    cases caller with
    | writeHead =>
      right
      obtain ⟨positive, head⟩ := allows
      refine ⟨0, by omega, ?_⟩
      rw [head, origin]
      simp
    | installTrans => exact .inl rfl
    | writeLog => exact absurd allows id

/-- A commit of a log that is too large finds no buffer for the first log block. -/
theorem Tracked.no_buffer (invariant : OpInvariant s duties ops) (large : LOGSIZE ≤ size)
    (role : (duties pid).role = .installing log 0) (beyond : ¬(log.lh.n : Int) ≤ size - 1) {result : Bget}
    {cache : Bcache} (ran : s.shared.cache.bget ROOTDEV (log.slotBlock 0) = .ok (result, cache)) : False := by
  have committing : (duties pid).role ≠ .working := by
    rw [role]
    nofun
  have listed := invariant.sound.listed
  have sees := listed.sees pid
  rw [role] at sees
  have full : s.shared.log.lh.n = NBUF := by
    have atMost : s.shared.log.lh.n ≤ LOGSIZE := s.shared.log.lh.fits
    have same : NBUF = LOGSIZE := rfl
    rw [← sees.1] at beyond
    omega
  have dirty : ∀ b, (s.shared.buf b).dirty = true := by
    apply listed.all_dirty full
    intro blockno member
    apply tracked.pinned
    rw [listed.pending_of_installing role (invariant.others_work committing), drop_zero, ← sees.1]
    exact member
  have inside : InLog start size (log.slotBlock 0) := by
    rw [← tracked.origin.1, sees.2]
    apply inLog_slotBlock
    have value : LOGSIZE = 30 := rfl
    omega
  obtain ⟨order, ring⟩ := invariant.sound.ring
  obtain ⟨hit, _, found, _⟩ | ⟨hit, _, _, found, _⟩ := ring.bget_cases ran
  · simp only [Bcache.hasBlock, decide_eq_true_eq] at found
    have member := listed.listed hit (dirty hit)
    rw [buf, found.2] at member
    exact tracked.homes _ member inside
  · have unused := find?_some found
    simp only [Bcache.unused, decide_eq_true_eq] at unused
    have set := dirty hit
    rw [buf, unused.2] at set
    cases set

/-- A step of a task keeps what is known about the blocks. -/
theorem Tracked.act (invariant : OpInvariant s duties ops) (large : LOGSIZE ≤ size)
    (stands : s.place pid = kind.place task) (ran : ActStep s.shared pid kind.isInside task access shared rest)
    (home : ∀ blockno, access = .logged blockno → ¬InLog start size blockno)
    (evolves : (duties pid).Evolves s.shared task duty)
    (further : OpInvariant ({s with shared}.moveTo pid (kind.place rest)) (update duties pid duty) ops) :
    Tracked start size disk (events ++ [.act pid access]) ({s with shared}.moveTo pid (kind.place rest))
      (update duties pid duty) := by
  have keeps := invariant.places pid
  rw [stands] at keeps
  have pending := invariant.sound.pending keeps.task ran (invariant.quiet stands) invariant.others_work evolves.role
    further.sound.listed
  obtain ⟨⟨lh, counters⟩, header⟩ := ran.header
  constructor
  · change shared.log.start = start ∧ shared.log.size = size
    rw [counters]
    exact tracked.origin
  · intro blockno member
    change blockno ∈ shared.log.lh.block at member
    rcases header with same | ⟨⟨b, program, appends⟩, _⟩ | ⟨program, rfl⟩
    · rw [same] at member
      exact tracked.homes blockno member
    · rcases ran.logged with ⟨c, _, next, _, logs, stored, after⟩ | ⟨silent, _⟩
      · rw [after, LogHeader.mem_logWrite stored] at member
        rcases member with old | rfl
        · exact tracked.homes blockno old
        · exact home _ logs
      · exact absurd appends (silent b program)
    · cases ran with
      | clear next => cases member
  · intro blockno now
    rcases (pending blockno).mp now with ⟨before, unwritten⟩ | logged
    · obtain ⟨b, pins⟩ := tracked.pinned blockno before
      rcases invariant.sound.stays_pinned keeps.task ran pins with still | ⟨caller, program, rfl⟩
      · exact ⟨b, still⟩
      · have kindIs := tracked.region invariant stands
        generalize seen : access = observed at ran unwritten
        cases ran with
        | bwrite caller b next after ran =>
          rcases kindIs with rfl | inside
          · exact absurd (by rw [pins.2.2]) unwritten
          · rw [pins.2.2] at inside
            exact absurd inside (tracked.homes blockno before.1)
    · rcases ran.logged with ⟨b, program, next, rfl, logs, stored, after⟩ | ⟨_, silent⟩
      · cases ran with
        | append b program lh stored =>
          obtain ⟨_, hold, held, ready, _⟩ := keeps.task
          obtain rfl := Access.logged.inj logged
          refine ⟨b, ?_⟩
          have self : ({s.shared.setBuf b {s.shared.buf b with dirty := true} with
              log := {s.shared.log with lh}} : Shared).buf b = {s.shared.buf b with dirty := true} :=
            setBuf_self _
          rw [moveTo_shared, Shared.Pins, self]
          exact ⟨rfl, (invariant.sound.coherent.holds pid b hold held).dev, rfl⟩
      · exact absurd logged (silent blockno)
  · intro blockno member
    rcases mem_modifiedSince_snoc member with ⟨other, same⟩ | ⟨old, unwritten⟩
    · obtain ⟨rfl, rfl⟩ := act.inj same
      obtain ⟨b, data, next, rfl, rfl, inside⟩ := ran.modified
      obtain ⟨hold, held, stage, block⟩ := evolves.stored b data next rfl
      right
      refine ⟨pid, b, hold, ?_, ?_, stage, block⟩
      · rw [act_inOp shared stands]
        cases kind with
        | inside => exact ⟨_, stands⟩
        | outside | committing => cases inside
      · rw [update_self]
        exact held
    · have unsettled : access ≠ .wrote .installTrans blockno := by
        rintro rfl
        exact unwritten pid rfl
      rcases tracked.modified blockno old with before | ⟨other, b, hold, inOp, held, stage, block⟩
      · left
        exact (pending blockno).mpr (.inl ⟨before, unsettled⟩)
      · by_cases self : other = pid
        · subst self
          rcases evolves.modified b hold held stage with ⟨program, rfl⟩ | ⟨caller, program, rfl⟩ | still
          · left
            rcases ran.logged with ⟨c, _, next, same, logs, _⟩ | ⟨silent, _⟩
            · obtain ⟨rfl, _⟩ := Task.appending.inj same
              apply (pending blockno).mpr
              right
              rw [logs, (invariant.sound.coherent.holds other b hold held).blockno, block]
            · exact absurd rfl (silent b program)
          · obtain ⟨⟨_, _, _, allows⟩, _⟩ := keeps.task
            rw [invariant.working inOp other] at allows
            exact absurd allows (by cases caller <;> exact id)
          · right
            refine ⟨other, b, hold, (act_inOp shared stands other).mpr inOp, ?_, stage, block⟩
            rw [update_self]
            exact still
        · right
          refine ⟨other, b, hold, (act_inOp shared stands other).mpr inOp, ?_, stage, block⟩
          rw [update_of_ne self]
          exact held
  · intro other log role
    by_cases self : other = pid
    · subst self
      rw [update_self] at role ⊢
      rw [evolves.role, Task.nextRole_log] at role
      by_cases room : (log.lh.n : Int) ≤ size - 1
      · exact .inl room
      · obtain ⟨installing, program, place, starts⟩ := (tracked.fits other log role).resolve_left room
        rw [stands] at place
        have sees := invariant.sound.listed.sees other
        rw [installing] at sees
        have positive : 0 < log.lh.n := by
          have value : LOGSIZE = 30 := rfl
          omega
        cases kind with
        | outside | inside => cases place
        | committing =>
          obtain rfl := OpPlace.committing.inj place
          rcases starts.next positive sees.1 sees.2 ran with again | ⟨result, cache, found⟩
          · right
            refine ⟨?_, rest, moveTo_place_self, again⟩
            rw [evolves.role, starts.nextRole, installing]
          · exact (tracked.no_buffer invariant large installing room found).elim
    · rw [update_of_ne self] at role ⊢
      rw [moveTo_place_of_ne self]
      exact tracked.fits other log role
  · intro other caller blockno member
    rcases mem_append.mp member with old | new
    · exact tracked.writes other caller blockno old
    · obtain ⟨_, rfl⟩ := act.inj (mem_singleton.mp new)
      obtain ⟨b, program, rfl, rfl, _⟩ := ran.written
      exact tracked.region invariant stands
  · intro blockno outside unwritten
    have before := tracked.kept blockno outside fun other member => unwritten other (mem_append_left _ member)
    rw [← before]
    apply invariant.sound.disk_same keeps.task ran
    rintro caller rfl
    obtain ⟨b, program, rfl, rfl, _⟩ := ran.written
    rcases tracked.region invariant stands with rfl | inside
    · exact unwritten pid (mem_append_right _ (mem_singleton.mpr rfl))
    · exact outside inside

/-- A step that is no step of a task leaves the buffers and the list of blocks as they are. -/
theorem Tracked.other (silent : ∀ pid access, event ≠ .act pid access) (same : next.shared = {s.shared with log})
    (lh : log.lh = s.shared.log.lh) (origin : log.start = s.shared.log.start ∧ log.size = s.shared.log.size)
    (pending : ∀ blockno, Pending next.shared changed blockno ↔ Pending s.shared duties blockno)
    (held : ∀ pid b hold, s.InOp pid → (duties pid).held b = some hold →
      next.InOp pid ∧ (changed pid).held b = some hold)
    (fits : ∀ pid log, (changed pid).role.log = some log → (log.lh.n : Int) ≤ size - 1 ∨
      ((changed pid).role = .installing log 0 ∧ ∃ task, next.place pid = .committing task ∧ task.Starts log)) :
    Tracked start size disk (events ++ [event]) next changed := by
  have old : ∀ pid access, .act pid access ∈ events ++ [event] → .act pid access ∈ events := by
    intro pid access member
    rcases mem_append.mp member with old | new
    · exact old
    · exact absurd (mem_singleton.mp new).symm (silent pid access)
  constructor
  · rw [same]
    exact ⟨origin.1.trans tracked.origin.1, origin.2.trans tracked.origin.2⟩
  · rw [same]
    rw [lh]
    exact tracked.homes
  · intro blockno now
    obtain ⟨b, pins⟩ := tracked.pinned blockno ((pending blockno).mp now)
    rw [same]
    exact ⟨b, pins⟩
  · intro blockno member
    rcases mem_modifiedSince_snoc member with ⟨pid, acts⟩ | ⟨member, _⟩
    · exact absurd acts (silent pid _)
    · rcases tracked.modified blockno member with before | ⟨pid, b, hold, inOp, holds, stage, block⟩
      · exact .inl ((pending blockno).mpr before)
      · obtain ⟨still, keeps⟩ := held pid b hold inOp holds
        exact .inr ⟨pid, b, hold, still, keeps, stage, block⟩
  · exact fits
  · intro pid caller blockno member
    exact tracked.writes pid caller blockno (old pid _ member)
  · intro blockno outside unwritten
    rw [same]
    exact tracked.kept blockno outside fun pid member => unwritten pid (mem_append_left _ member)

/-- A step that changes no duty and moves no operation and no commit. -/
theorem Tracked.still (silent : ∀ pid access, event ≠ .act pid access) (same : next.shared = {s.shared with log})
    (lh : log.lh = s.shared.log.lh) (origin : log.start = s.shared.log.start ∧ log.size = s.shared.log.size)
    (inOp : ∀ pid b hold, s.InOp pid → (duties pid).held b = some hold → next.InOp pid)
    (place : ∀ pid task, s.place pid = .committing task → next.place pid = .committing task) :
    Tracked start size disk (events ++ [event]) next duties := by
  apply tracked.other silent same lh origin
  · intro blockno
    apply Pending.congr
    · rw [same]
      exact lh
    · exact fun _ => rfl
  · exact fun pid b hold operates held => ⟨inOp pid b hold operates held, held⟩
  · intro pid header role
    rcases tracked.fits pid header role with fits | ⟨installing, task, stands, starts⟩
    · exact .inl fits
    · exact .inr ⟨installing, task, place pid task stands, starts⟩

end

theorem OpSystem.Enters.silent (enters : s.Enters event pid) (other : Nat) (access : Access) :
    event ≠ .act other access := by
  rcases enters with ⟨rfl, _⟩ | ⟨rfl, _⟩ <;> nofun

/-- A process that moves from a place outside operations and commits disturbs neither. -/
theorem moveTo_idle (place : OpPlace) (outside : ¬s.InOp pid) (quiet : ¬s.Commits pid) :
    (∀ other, s.InOp other → (s.moveTo pid place).InOp other) ∧ ∀ other task, s.place other = .committing task →
        (s.moveTo pid place).place other = .committing task := by
  constructor
  · rintro other ⟨task, stands⟩
    have ne : other ≠ pid := by
      rintro rfl
      exact outside ⟨task, stands⟩
    exact ⟨task, (moveTo_place_of_ne ne).trans stands⟩
  · intro other task stands
    have ne : other ≠ pid := by
      rintro rfl
      exact quiet ⟨task, stands⟩
    exact (moveTo_place_of_ne ne).trans stands

section
variable (tracked : Tracked start size disk events s duties)
include tracked

variable (invariant : OpInvariant s duties ops)
include invariant

theorem Tracked.endLast (ready : s.place pid = .inside .done)
    (last : s.shared.log.outstanding - 1 = 0) :
    Tracked start size disk (events ++ [.endOp pid]) ((s.setLog {s.shared.log with
        outstanding := s.shared.log.outstanding - 1, committing := true}).moveTo pid (.committing (.run BufM.commit)))
      (update duties pid ((duties pid).withRole (.installing s.shared.log 0))) := by
  have further := invariant.endLast ready last
  have keeps := invariant.places pid
  rw [ready] at keeps
  have working := invariant.working ⟨_, ready⟩
  have others : ∀ other ≠ pid, (update duties pid
      ((duties pid).withRole (.installing s.shared.log 0)) other).role = .working := by
    intro other ne
    rw [update_of_ne ne]
    exact working other
  have mine : (update duties pid
      ((duties pid).withRole (.installing s.shared.log 0)) pid).role = .installing s.shared.log 0 := by
    rw [update_self]
    rfl
  apply tracked.other
  · nofun
  · rfl
  · rfl
  · exact ⟨rfl, rfl⟩
  · intro blockno
    rw [pending_of_working working, further.sound.listed.pending_of_installing mine others, drop_zero]
  · intro other b hold inOp held
    have only := further.members other
    have ne : other ≠ pid := by
      rintro rfl
      rw [keeps.1.1 b] at held
      cases held
    have count := invariant.outstanding
    have one : ops.card = 1 := by
      omega
    obtain ⟨single, rfl⟩ := Finset.card_eq_one.mp one
    have first := Finset.mem_singleton.mp ((invariant.members pid).mpr ⟨_, ready⟩)
    have second := Finset.mem_singleton.mp ((invariant.members other).mpr inOp)
    exact absurd (second.trans first.symm) ne
  · intro other header role
    by_cases self : other = pid
    · rw [self] at role ⊢
      rw [mine] at role ⊢
      cases role
      exact .inr ⟨rfl, _, moveTo_place_self, Or.inl rfl⟩
    · rw [others other self] at role
      cases role

theorem Tracked.finish (ready : s.place pid = .committing .done) :
    Tracked start size disk (events ++ [.finish pid])
      ((s.setLog {s.shared.log with committing := false}).wakeup.moveTo pid (.outside .done))
      (update duties pid ((duties pid).withRole .working)) := by
  have further := invariant.finish ready
  have empty := invariant.alone (invariant.committing.mpr ⟨pid, _, ready⟩)
  have cleared : s.shared.log.lh.block = [] := eq_nil_of_length_eq_zero (further.settled empty rfl)
  have working : ∀ other, (update duties pid ((duties pid).withRole .working) other).role = .working := by
    intro other
    by_cases self : other = pid
    · rw [self, update_self]
      rfl
    · rw [update_of_ne self]
      apply invariant.others_work _ other self
      rw [invariant.role_iff]
      exact ⟨_, ready⟩
  apply tracked.other
  · nofun
  · rfl
  · rfl
  · exact ⟨rfl, rfl⟩
  · intro blockno
    apply iff_of_false
    · rintro ⟨member, _⟩
      change blockno ∈ s.shared.log.lh.block at member
      rw [cleared] at member
      cases member
    · rintro ⟨member, _⟩
      rw [cleared] at member
      cases member
  · intro other b hold inOp
    have member := (invariant.members other).mpr inOp
    rw [empty] at member
    exact absurd member (Finset.notMem_empty other)
  · intro other header role
    rw [working] at role
    cases role

theorem Tracked.step (large : LOGSIZE ≤ size)
    (home : ∀ pid blockno, event = .act pid (.logged blockno) → ¬InLog start size blockno)
    (ran : s.step event = .ok next) :
    ∃ duties ops, OpInvariant next duties ops ∧ Tracked start size disk (events ++ [event]) next duties := by
  cases OpStep.of_step ran with
  | sleep pid enters closed =>
    obtain ⟨outside, quiet, _⟩ := enters.idle
    obtain ⟨inOp, place⟩ := moveTo_idle .sleeping outside quiet
    refine ⟨duties, ops, invariant.sleep enters closed, ?_⟩
    exact tracked.still enters.silent rfl rfl ⟨rfl, rfl⟩ (fun other _ _ operates _ => inOp other operates) place
  | enroll pid enters opened =>
    obtain ⟨outside, quiet, _⟩ := enters.idle
    obtain ⟨inOp, place⟩ := moveTo_idle (.inside .done) outside quiet
    refine ⟨duties, insert pid ops, invariant.enroll enters opened, ?_⟩
    exact tracked.still enters.silent rfl rfl ⟨rfl, rfl⟩ (fun other _ _ operates _ => inOp other operates) place
  | call pid function kind ready works =>
    refine ⟨duties, ops, invariant.call function kind ready works, ?_⟩
    apply tracked.still
    · nofun
    · rfl
    · rfl
    · exact ⟨rfl, rfl⟩
    · intro other _ _ operates _
      exact (act_inOp s.shared ready other).mpr operates
    · intro other task stands
      have ne : other ≠ pid := by
        rintro rfl
        rw [ready] at stands
        cases kind with
        | outside | inside => cases stands
        | committing => exact works rfl
      exact (moveTo_place_of_ne ne).trans stands
  | act pid access kind task rest shared stands acted =>
    obtain ⟨duty, evolves, further⟩ := invariant.act stands acted
    refine ⟨_, ops, further, tracked.act invariant large stands acted ?_ evolves further⟩
    rintro blockno rfl
    exact home pid blockno rfl
  | endLast pid ready free last => exact ⟨_, ∅, invariant.endLast ready last, tracked.endLast invariant ready last⟩
  | endOther pid ready free others =>
    refine ⟨duties, ops.erase pid, invariant.endOther ready free others, ?_⟩
    have keeps := invariant.places pid
    rw [ready] at keeps
    apply tracked.still
    · nofun
    · rfl
    · rfl
    · exact ⟨rfl, rfl⟩
    · intro other b hold operates held
      apply wakeup_moveTo_inOp.mpr
      refine ⟨?_, operates⟩
      rintro rfl
      rw [keeps.1.1 b] at held
      cases held
    · intro other task stands
      have ne : other ≠ pid := by
        rintro rfl
        rw [ready] at stands
        cases stands
      rw [moveTo_place_of_ne ne]
      exact (wakeup_iff (fun place => place = .committing task) (iff_of_false nofun nofun)).mpr stands
  | finish pid ready => exact ⟨_, ops, invariant.finish ready, tracked.finish invariant ready⟩

end

theorem run_tracked {sb : Superblock} {devsw : Devsw} {disk : Disk} (large : LOGSIZE ≤ sb.nlog.toInt)
    (home : ∀ pid blockno, .act pid (.logged blockno) ∈ events → ¬InLog sb.logstart sb.nlog.toInt blockno)
    (ran : runEvents step events (.initial sb devsw disk) = .ok s) :
    ∃ duties ops, OpInvariant s duties ops ∧ Tracked sb.logstart sb.nlog.toInt disk events s duties := by
  induction events using reverseRecOn generalizing s with
  | nil =>
    cases ran
    refine ⟨_, _, initial_opInvariant sb devsw disk, ⟨rfl, rfl⟩, nofun, ?_, nofun, nofun, nofun, fun _ _ _ => rfl⟩
    rintro blockno ⟨member, _⟩
    cases member
  | append_singleton earlier event ih =>
    obtain ⟨before, ranEarlier, stepped⟩ := runEvents_snoc.mp ran
    obtain ⟨duties, ops, invariant, tracked⟩ :=
      ih (fun pid blockno member => home pid blockno (mem_append_left _ member)) ranEarlier
    apply tracked.step invariant large _ stepped
    rintro pid blockno rfl
    exact home pid blockno (mem_append_right _ (mem_singleton.mpr rfl))

end Tracked

/-- The buffers and the disk agree while a log of at least `LOGSIZE` blocks is used and only blocks outside it are
logged. An unlocked clean buffer has the contents of its block. A modified block is cached, and once it is unlocked
its buffer is dirty and listed until it is installed. Blocks outside the log are written only by `install_trans`,
and after a commit no buffer is dirty. -/
theorem cache_coherent (sb : Superblock) (devsw : Devsw) (disk : Disk) (events : List OpEvent) (system : OpSystem)
    (large : LOGSIZE ≤ sb.nlog.toInt)
    (home : ∀ pid blockno, .act pid (.logged blockno) ∈ events → ¬InLog sb.logstart sb.nlog.toInt blockno)
    (ran : runEvents OpSystem.step events (.initial sb devsw disk) = .ok system) :
    (∀ b, (system.shared.buf b).holder = none → (system.shared.buf b).valid = true →
      (system.shared.buf b).dirty = false →
      (system.shared.buf b).data = system.shared.disk (system.shared.buf b).blockno) ∧
    (∀ blockno ∈ modifiedSince events, ∃ b, (system.shared.buf b).valid = true ∧
      (system.shared.buf b).dev = ROOTDEV ∧ (system.shared.buf b).blockno = blockno ∧
      ((system.shared.buf b).holder = none →
        (system.shared.buf b).dirty = true ∧ blockno ∈ system.shared.log.lh.block)) ∧
    (∀ pid caller blockno, .act pid (.wrote caller blockno) ∈ events →
      ¬InLog sb.logstart sb.nlog.toInt blockno → caller = .installTrans) ∧
    (∀ blockno, ¬InLog sb.logstart sb.nlog.toInt blockno → system.shared.disk blockno ≠ disk blockno →
      ∃ pid, .act pid (.wrote .installTrans blockno) ∈ events) ∧
    (∀ pid next, system.step (.finish pid) = .ok next → ∀ b, (next.shared.buf b).dirty = false) := by
  obtain ⟨duties, ops, invariant, tracked⟩ := run_tracked large home ran
  have coherent := invariant.sound.coherent
  refine ⟨?_, ?_, ?_, ?_, ?_⟩
  · intro b unlocked valid clean
    rcases coherent.synced b with synced | ⟨pid, hold, held, _⟩
    · rcases synced valid with dirty | same
      · rw [clean] at dirty
        cases dirty
      · exact same
    · have holder := (coherent.holds pid b hold held).holder
      rw [unlocked] at holder
      cases holder
  · intro blockno member
    rcases tracked.modified blockno member with pending | ⟨pid, b, hold, _, held, stage, rfl⟩
    · obtain ⟨b, dirty, dev, block⟩ := tracked.pinned blockno pending
      exact ⟨b, coherent.dirty b dirty, dev, block, fun _ => ⟨dirty, pending.1⟩⟩
    · have own := coherent.holds pid b hold held
      refine ⟨b, own.ready (.inr stage), own.dev, own.blockno, ?_⟩
      intro unlocked
      rw [own.holder] at unlocked
      cases unlocked
  · intro pid caller blockno member outside
    rcases tracked.writes pid caller blockno member with same | inside
    · exact same
    · exact absurd inside outside
  · intro blockno outside changed
    by_contra unwritten
    exact changed (tracked.kept blockno outside (not_exists.mp unwritten))
  · intro pid next stepped b
    obtain ⟨_, _, after⟩ := invariant.step stepped
    by_contra dirty
    have member := after.sound.listed.listed b (Bool.eq_true_of_not_eq_false dirty)
    cases OpStep.of_step stepped with
    | sleep pid enters closed | enroll pid enters opened => rcases enters with ⟨same, _⟩ | ⟨same, _⟩ <;> cases same
    | finish pid ready =>
      have further := invariant.finish ready
      have empty := invariant.alone (invariant.committing.mpr ⟨pid, _, ready⟩)
      rw [eq_nil_of_length_eq_zero (further.settled empty rfl)] at member
      cases member

/-- An operation updates an inode. -/
def OpEvent.updateRun : List OpEvent :=
  [.beginOp 0, .call 0 (.iupdate 1 .zero), .act 0 .silent, .act 0 .silent, .act 0 .silent, .act 0 .silent,
    .act 0 .silent, .act 0 (.modified 32), .act 0 .silent, .act 0 (.logged 32), .act 0 .silent, .act 0 .silent]

/-- The updated block stays in a dirty buffer. -/
theorem cache_coherent_update :
    ∃ system, runEvents OpSystem.step OpEvent.updateRun .blank = .ok system ∧
      ∃ b, (system.shared.buf b).blockno = 32 ∧ ((system.shared.buf b).holder = none →
        (system.shared.buf b).dirty = true ∧ 32 ∈ system.shared.log.lh.block) := by
  have observed : (runEvents step updateRun .blank).toOption.map
      (fun system => system.shared.log.lh.n) = some 1 := by
    decide +kernel
  obtain ⟨system, ran, _⟩ := exists_ok_of_observed observed
  have large : (LOGSIZE : Int) ≤ Mkfs.sb.nlog.toInt := by
    decide
  have home : ∀ pid blockno, .act pid (.logged blockno) ∈ updateRun →
      ¬InLog Mkfs.sb.logstart Mkfs.sb.nlog.toInt blockno := by
    intro pid blockno member
    have same : blockno = 32 := by
      simp only [updateRun, mem_cons, act.injEq, logged.injEq, reduceCtorEq, and_false,
        false_or, not_mem_nil, or_false] at member
      exact member.2
    rw [same]
    rintro ⟨i, inside, place⟩
    have size : Mkfs.sb.nlog.toInt = 30 := by
      decide
    have apart : ∀ i < 30, (32 : BlockNo) ≠ Mkfs.sb.logstart + BitVec.ofNat 32 i := by
      decide
    exact apart i (by omega) place
  obtain ⟨_, listed, _⟩ := cache_coherent Mkfs.sb _ _ _ system large home ran
  have modified : 32 ∈ modifiedSince updateRun := by
    decide
  obtain ⟨b, _, _, block, pinned⟩ := listed 32 modified
  exact ⟨system, ran, b, block, pinned⟩

end Xv6
