import Xv6.Construction.Icache
import Xv6.Library.Recycle
import Mathlib.Data.BitVec

namespace Xv6
open Library Function CreatePlace Icache List

/-- What the other processes see of the process in `iput`. -/
def IputPlace.phase : IputPlace → FreePhase
  | .check => .holding
  | .trunc | .truncUpdate | .retype => .freeing
  | .update => .cleared
  | .drop => .window
  | .done => .done

/-- What matters of the place of a process in `create`. -/
def CreatePlace.phase : CreatePlace → WorkPhase Nat (Fin NINODE) (BitVec 16)
  | .idle => .idle
  | .scan new _ => .asks new.type
  | .claimed new inum => .claims new.type inum
  | .referenced new ip | .locked new ip => .refers new.type ip
  | .ready new ip | .filled new ip | .updated new ip => .has new.type ip

namespace Icache

def stored (icache : Icache) (inum : Nat) : BitVec 16 := (icache.dinode inum).type

def refs (icache : Icache) (ip : Fin NINODE) : Nat := (icache.inode ip).ref

def inums (icache : Icache) (ip : Fin NINODE) : Nat := (icache.inode ip).inum

def valids (icache : Icache) (ip : Fin NINODE) : Bool := (icache.inode ip).valid

def types (icache : Icache) (ip : Fin NINODE) : BitVec 16 := (icache.copy ip).type

section Fields
variable (icache : Icache) (ip : Fin NINODE) (inode : Inode) (inum : Nat) (dinode : Dinode)

@[simp] theorem inode_ref : (icache.inode ip).ref = icache.refs ip := rfl

@[simp] theorem inode_inum : (icache.inode ip).inum = icache.inums ip := rfl

@[simp] theorem inode_valid : (icache.inode ip).valid = icache.valids ip := rfl

@[simp] theorem copy_type : (icache.copy ip).type = icache.types ip := rfl

@[simp] theorem inode_type : (icache.inode ip).dinode.type = icache.types ip := rfl

@[simp] theorem dinode_type : (icache.dinode inum).type = icache.stored inum := rfl

@[simp] theorem refs_setInode : (icache.setInode ip inode).refs = update icache.refs ip inode.ref :=
  funext (apply_update (fun _ entry => entry.ref) icache.inode ip inode)

@[simp] theorem inums_setInode : (icache.setInode ip inode).inums = update icache.inums ip inode.inum :=
  funext (apply_update (fun _ entry => entry.inum) icache.inode ip inode)

@[simp] theorem valids_setInode : (icache.setInode ip inode).valids = update icache.valids ip inode.valid :=
  funext (apply_update (fun _ entry => entry.valid) icache.inode ip inode)

@[simp] theorem types_setInode : (icache.setInode ip inode).types = update icache.types ip inode.dinode.type :=
  funext (apply_update (fun _ entry => entry.dinode.type) icache.inode ip inode)

@[simp] theorem stored_setInode : (icache.setInode ip inode).stored = icache.stored := rfl

@[simp] theorem stored_setDinode : (icache.setDinode inum dinode).stored = update icache.stored inum dinode.type :=
  funext (apply_update (fun _ entry => entry.type) icache.dinode inum dinode)

@[simp] theorem refs_setDinode : (icache.setDinode inum dinode).refs = icache.refs := rfl

@[simp] theorem inums_setDinode : (icache.setDinode inum dinode).inums = icache.inums := rfl

@[simp] theorem valids_setDinode : (icache.setDinode inum dinode).valids = icache.valids := rfl

@[simp] theorem types_setDinode : (icache.setDinode inum dinode).types = icache.types := rfl

end Fields
end Icache

namespace IcacheSystem
variable {system s next last : IcacheSystem} {pid : Nat} {event : IcacheEvent}

/-- The system seen as records in a store and a cache. -/
def pool (system : IcacheSystem) : Pool Nat (Fin NINODE) Nat (BitVec 16) where
  stored := system.icache.stored
  ref := system.icache.refs
  number := system.icache.inums
  valid := system.icache.valids
  cached := system.icache.types
  victim := system.ip
  freeing := system.iput.phase
  work pid := (system.create pid).phase

theorem pool_moveIput (icache : Icache) (place : IputPlace) : (s.moveIput icache place).pool =
      ⟨icache.stored, icache.refs, icache.inums, icache.valids, icache.types, s.ip, place.phase, s.pool.work⟩ :=
  rfl

theorem pool_moveCreate (icache : Icache) (place : CreatePlace) : (s.moveCreate icache pid place).pool =
      ⟨icache.stored, icache.refs, icache.inums, icache.valids, icache.types, s.ip, s.iput.phase,
        update s.pool.work pid place.phase⟩ := by
  have work : (fun other => (update s.create pid place other).phase) = update s.pool.work pid place.phase :=
    funext (apply_update (fun _ => phase) s.create pid place)
  rw [← work]
  rfl

@[simp] theorem pool_setLock (ip : Fin NINODE) (holder : Option Nat) : (s.setLock ip holder).pool = s.pool := rfl

theorem update_work {place : CreatePlace} (same : s.pool.work pid = place.phase) :
    update s.pool.work pid place.phase = s.pool.work :=
  update_eq_self_iff.mpr same.symm

theorem simulate_iput (sound : s.pool.Sound) (stepped : s.stepIput = .ok next) :
    next.pool = s.pool ∨ Pool.Step s.pool next.pool := by
  rw [stepIput] at stepped
  cases place : s.iput with
  | check =>
    have phase : s.pool.freeing = .holding := congrArg IputPlace.phase place
    simp only [place] at stepped
    split at stepped
    · next last =>
        cases stepped
        exact .inr (.free phase last.1 last.2.1)
    · cases stepped
      right
      convert Pool.Step.release phase using 1
      rw [pool_moveIput]
      simp [pool, setRef, IputPlace.phase]
  | trunc =>
    simp only [place] at stepped
    cases stepped
    left
    simp [pool, moveIput, truncate, setCopy, IputPlace.phase, place]
  | truncUpdate =>
    simp only [place] at stepped
    cases stepped
    left
    have phase : s.pool.freeing = .freeing := congrArg IputPlace.phase place
    have typed := (sound.typed s.ip (sound.held (by rw [phase]; decide)) (sound.frees (.inl phase)).1
      (by rw [phase]; simp)).1
    change s.icache.types s.ip = s.icache.stored (s.icache.inums s.ip) at typed
    simp [pool, moveIput, iupdate, IputPlace.phase, place, typed]
  | retype =>
    have phase : s.pool.freeing = .freeing := congrArg IputPlace.phase place
    simp only [place] at stepped
    cases stepped
    right
    convert Pool.Step.clear phase using 1
    simp [pool, moveIput, setCopy, IputPlace.phase]
  | update =>
    have phase : s.pool.freeing = .cleared := congrArg IputPlace.phase place
    simp only [place] at stepped
    cases stepped
    right
    convert Pool.Step.expose phase using 1
    simp [pool, moveIput, iupdate, IputPlace.phase]
  | drop =>
    have phase : s.pool.freeing = .window := congrArg IputPlace.phase place
    simp only [place] at stepped
    cases stepped
    right
    convert Pool.Step.drop phase using 1
    simp [pool, moveIput, IputPlace.phase]
  | done =>
    simp only [place] at stepped
    cases stepped

/-- The process is about to use the cache entry of an inode that is free on disk and has not been invalidated. -/
def Stale (system : IcacheSystem) (event : IcacheEvent) : Prop :=
  ∃ pid new, event = .create pid ∧ system.create pid = .locked new system.ip ∧ system.iput = .drop

theorem phase_window {place : IputPlace} : place.phase = .window ↔ place = .drop := by
  cases place <;> simp [IputPlace.phase]

theorem simulate_create (sound : s.pool.Sound) (calm : ¬s.Stale (.create pid))
    (stepped : s.stepCreate pid = .ok next) : next.pool = s.pool ∨ Pool.Step s.pool next.pool := by
  rw [stepCreate] at stepped
  cases place : s.create pid with
  | idle | updated =>
    simp only [place] at stepped
    cases stepped
  | scan new inum =>
    have phase : s.pool.work pid = .asks new.type := congrArg CreatePlace.phase place
    simp only [place] at stepped
    split at stepped
    · cases stepped
    · split at stepped
      · next free =>
          obtain rfl := Except.ok.inj stepped
          right
          convert Pool.Step.claim pid new.type inum phase free using 1
          rw [pool_moveCreate, stored_setDinode]
          rfl
      · obtain rfl := Except.ok.inj stepped
        left
        rw [pool_moveCreate, update_work phase]
        rfl
  | claimed new inum =>
    have phase : s.pool.work pid = .claims new.type inum := congrArg CreatePlace.phase place
    simp only [place] at stepped
    split at stepped
    · cases stepped
    · next ip icache found =>
        obtain rfl := Except.ok.inj stepped
        right
        rw [iget] at found
        split at found
        · next entry here =>
            have used := find?_some here
            simp only [decide_eq_true_eq] at used
            obtain ⟨rfl, rfl⟩ := Prod.mk.inj (Option.some.inj found)
            obtain ⟨positive, rfl⟩ := used
            convert Pool.Step.share pid new.type entry phase positive using 1
            rw [pool_moveCreate]
            simp [pool, CreatePlace.phase]
        · next missing =>
            split at found
            · cases found
            · next empty unused =>
                have zero := find?_some unused
                simp only [decide_eq_true_eq] at zero
                obtain ⟨rfl, rfl⟩ := Prod.mk.inj (Option.some.inj found)
                have absent : ∀ other, 0 < s.pool.ref other → s.pool.number other ≠ inum := by
                  intro other used same
                  have none := find?_eq_none.mp missing other (mem_finRange _)
                  simp only [decide_eq_true_eq] at none
                  exact none ⟨used, same⟩
                convert Pool.Step.recycle pid new.type inum empty phase absent zero using 1
                rw [pool_moveCreate]
                simp [pool, CreatePlace.phase]
  | referenced new ip =>
    have phase : s.pool.work pid = .refers new.type ip := congrArg CreatePlace.phase place
    simp only [place] at stepped
    split at stepped
    · cases stepped
    · split at stepped
      · cases stepped
        left
        rw [pool_setLock, pool_moveCreate, update_work phase]
        rfl
      · cases stepped
  | locked new ip =>
    have phase : s.pool.work pid = .refers new.type ip := congrArg CreatePlace.phase place
    simp only [place] at stepped
    split at stepped
    · cases stepped
    · next icache loaded =>
        cases stepped
        right
        rw [load] at loaded
        split at loaded
        · next valid =>
            obtain ⟨rfl, window⟩ := (sound.stale phase valid).1
            exact absurd ⟨pid, new, rfl, place, phase_window.mp window⟩ calm
        · next invalid =>
            split at loaded
            · cases loaded
            · cases loaded
              convert Pool.Step.load pid new.type ip phase (Bool.eq_false_iff.mpr invalid) using 1
              rw [pool_moveCreate]
              simp [pool, CreatePlace.phase]
  | ready new ip =>
    have phase : s.pool.work pid = .has new.type ip := congrArg CreatePlace.phase place
    simp only [place] at stepped
    cases stepped
    left
    rw [pool_moveCreate, update_work phase]
    simp [pool, setCopy]
  | filled new ip =>
    have phase : s.pool.work pid = .has new.type ip := congrArg CreatePlace.phase place
    have fresh := sound.fresh phase
    change s.icache.types ip = new.type ∧ s.icache.stored (s.icache.inums ip) = new.type at fresh
    simp only [place] at stepped
    cases stepped
    left
    rw [pool_moveCreate, update_work phase]
    simp [pool, iupdate, fresh]

theorem simulate (sound : s.pool.Sound) (calm : ¬s.Stale event) (stepped : s.step event = .ok next) :
    next.pool = s.pool ∨ Pool.Step s.pool next.pool := by
  cases event with
  | iput => exact simulate_iput sound stepped
  | create pid => exact simulate_create sound calm stepped
  | call pid new =>
    rw [step] at stepped
    split at stepped
    · next allowed =>
        cases stepped
        have nonzero : new.type ≠ 0 := by
          rcases allowed.2 with type | type | type
          all_goals
            rw [type]
            decide
        have phase : s.pool.work pid = .idle := congrArg CreatePlace.phase allowed.1
        right
        convert Pool.Step.ask pid new.type phase nonzero using 1
        rw [pool_moveCreate]
        rfl
    · cases stepped
  | leave pid put =>
    rw [step] at stepped
    split at stepped
    · next new ip place =>
        cases stepped
        have phase : s.pool.work pid = .has new.type ip := congrArg CreatePlace.phase place
        right
        rw [pool_setLock, pool_moveCreate]
        cases put with
        | true =>
          convert Pool.Step.leave pid new.type ip (s.icache.refs ip - 1) phase (Nat.sub_le ..) _ using 1
          · simp [pool, CreatePlace.phase, setRef]
          · change s.icache.refs ip ≤ s.icache.refs ip - 1 + 1
            omega
        | false =>
          convert Pool.Step.leave pid new.type ip (s.icache.refs ip) phase le_rfl (Nat.le_succ _) using 1
          simp [pool, CreatePlace.phase]
    · cases stepped

/-- The caches agree with the disk, one process is about to drop a reference, and nobody is in `create`. -/
structure Begins (system : IcacheSystem) : Prop where
  unique : ∀ ip other, 0 < (system.icache.inode ip).ref → 0 < (system.icache.inode other).ref →
    (system.icache.inode ip).inum = (system.icache.inode other).inum → ip = other
  same : ∀ ip, 0 < (system.icache.inode ip).ref → (system.icache.inode ip).valid = true →
    system.icache.copy ip = system.icache.dinode (system.icache.inode ip).inum
  type : ∀ ip, 0 < (system.icache.inode ip).ref → (system.icache.inode ip).valid = true →
    (system.icache.copy ip).type ≠ 0
  held : 0 < (system.icache.inode system.ip).ref
  iput : system.iput = .check
  create : ∀ pid, system.create pid = .idle

theorem Begins.sound (begins : s.Begins) : s.pool.Sound := by
  have phase : s.pool.freeing = .holding := congrArg IputPlace.phase begins.iput
  have idle : ∀ pid, s.pool.work pid = .idle := fun pid => congrArg CreatePlace.phase (begins.create pid)
  refine ⟨begins.unique, ?_, fun _ => begins.held, ?_, ?_, ?_, ?_⟩
  · intro ip used valid _
    have same := congrArg Dinode.type (begins.same ip used valid)
    refine ⟨same, ?_⟩
    change (s.icache.dinode (s.icache.inode ip).inum).type ≠ 0
    rw [← same]
    exact begins.type ip used valid
  · rw [phase]
    simp
  · rw [phase]
    simp
  · intro pid
    rw [idle]
    trivial
  · intro pid other n first
    rw [idle] at first
    cases first

/-- The copy of a process that has returned from `ilock` has the type that it asked for. After its `iupdate`, the inode on
disk has this type too. -/
def Fresh (system : IcacheSystem) : Prop :=
  ∀ pid new ip,
    (system.create pid = .ready new ip ∨ system.create pid = .filled new ip ∨ system.create pid = .updated new ip →
      (system.icache.copy ip).type = new.type) ∧
    (system.create pid = .updated new ip → (system.icache.dinode (system.icache.inode ip).inum).type = new.type)

theorem fresh_of_sound (sound : s.pool.Sound) : s.Fresh := by
  intro pid new ip
  constructor
  · intro place
    have phase : s.pool.work pid = .has new.type ip := by
      rcases place with place | place | place <;> exact congrArg phase place
    exact (sound.fresh phase).1
  · intro place
    have phase : s.pool.work pid = .has new.type ip := congrArg phase place
    exact (sound.fresh phase).2

/-- A process that finds the entry still valid uses a copy without a type. -/
theorem not_fresh_of_stale (sound : s.pool.Sound) (stale : s.Stale event)
    (stepped : s.step event = .ok next) : ¬next.Fresh := by
  obtain ⟨pid, new, rfl, place, drop⟩ := stale
  have window : s.pool.freeing = .window := congrArg IputPlace.phase drop
  have phase : s.pool.work pid = .refers new.type s.ip := congrArg phase place
  obtain ⟨valid, zero⟩ := sound.clears (.inr window)
  have nonzero := (sound.stale phase valid).2.2
  have loaded : s.icache.load s.ip = some s.icache := if_pos valid
  rw [step, stepCreate] at stepped
  simp only [place, loaded] at stepped
  cases stepped
  intro fresh
  have type := (fresh pid new s.ip).1 (.inl (update_self ..))
  exact nonzero (type.symm.trans zero)

theorem run_sound (begins : s.Begins) {events : List IcacheEvent}
    (calm : ∀ earlier event state, earlier ++ [event] <+: events → runEvents step earlier s = .ok state →
      ¬state.Stale event) (ran : runEvents step events s = .ok last) : last.pool.Sound := by
  induction events using reverseRecOn generalizing last with
  | nil =>
    cases ran
    exact begins.sound
  | append_singleton events event ih =>
    obtain ⟨middle, reached, stepped⟩ := runEvents_snoc.mp ran
    have sound := ih (fun earlier event state inside => calm earlier event state
      (inside.trans (prefix_append _ _))) reached
    rcases simulate sound (calm events event middle (prefix_refl _) reached) stepped with same | moved
    · rw [same]
      exact sound
    · exact sound.step moved

/-- A reallocated inode is fresh in every state of a run exactly when no process passes `ilock` on the cache entry of the
inode after the freeing process has written the free inode to the disk and before it has invalidated the entry. -/
theorem reallocated_inode_fresh_iff (begins : system.Begins) {events : List IcacheEvent}
    (ran : runEvents step events system = .ok last) :
    (∀ earlier state, earlier <+: events → runEvents step earlier system = .ok state → state.Fresh) ↔
      ∀ earlier event state, earlier ++ [event] <+: events → runEvents step earlier system = .ok state →
        ¬state.Stale event := by
  constructor
  · intro fresh earlier
    induction length : earlier.length using Nat.strong_induction_on generalizing earlier with
    | h n ih =>
      intro event state inside reached stale
      have calm : ∀ before event middle, before ++ [event] <+: earlier → runEvents step before system = .ok middle →
          ¬middle.Stale event := by
        intro before other middle within
        have shorter : before.length < n := by
          have := within.length_le
          rw [length_append, length_singleton] at this
          omega
        exact ih _ shorter before rfl other middle (within.trans ((prefix_append _ _).trans inside))
      obtain ⟨next, stepped⟩ := runEvents_prefix inside ran
      obtain ⟨middle, again, taken⟩ := runEvents_snoc.mp stepped
      obtain rfl : state = middle := Except.ok.inj (reached.symm.trans again)
      exact not_fresh_of_stale (run_sound begins calm reached) stale taken (fresh _ next inside stepped)
  · intro calm earlier state inside reached
    apply fresh_of_sound
    apply run_sound begins _ reached
    intro before event middle within
    exact calm before event middle (within.trans inside)

/-- Entry 0 is the last reference to the unlinked file 2. Inode 1 is the root directory. -/
def unlinkedFile : IcacheSystem where
  icache :=
    { ninodes := 200
      dinode := fun inum =>
        if inum = 1 then {Dinode.zero with type := T_DIR, nlink := 1}
        else if inum = 2 then {Dinode.zero with type := T_FILE}
        else Dinode.zero
      inode := fun ip =>
        if ip.val = 0 then ⟨2, 1, true, {Dinode.zero with type := T_FILE}⟩ else ⟨0, 0, false, Dinode.zero⟩ }
  lock _ := none
  ip := ⟨0, NINODE_pos⟩
  iput := .check
  create _ := .idle

theorem unlinkedFile_begins : unlinkedFile.Begins := by
  have first : ∀ ip : Fin NINODE, 0 < (unlinkedFile.icache.inode ip).ref → ip = ⟨0, by decide⟩ := by decide
  refine ⟨?_, ?_, ?_, Nat.one_pos, rfl, fun _ => rfl⟩
  · intro ip other left right _
    exact (first ip left).trans (first other right).symm
  · intro ip used _
    rw [first ip used]
    rfl
  · intro ip used _
    rw [first ip used]
    decide

/-- The inode is freed before another process creates a device with it. -/
def freedFirst : List IcacheEvent :=
  List.replicate 6 .iput ++ [.call 1 ⟨T_DEV, 1, 1⟩] ++ List.replicate 7 (.create 1)

theorem reallocated_inode_fresh_iff_freedFirst :
    ∃ last, runEvents step freedFirst unlinkedFile = .ok last ∧
      ((∀ earlier state, earlier <+: freedFirst → runEvents step earlier unlinkedFile = .ok state → state.Fresh) ↔
        ∀ earlier event state, earlier ++ [event] <+: freedFirst → runEvents step earlier unlinkedFile = .ok state →
          ¬state.Stale event) := by
  have observed : (runEvents step freedFirst unlinkedFile).toOption.map (fun last => last.create 1) =
      some (.updated ⟨T_DEV, 1, 1⟩ ⟨0, by decide⟩) := by decide +kernel
  obtain ⟨last, ran, _⟩ := exists_ok_of_observed observed
  exact ⟨last, ran, reallocated_inode_fresh_iff unlinkedFile_begins ran⟩

/-- The other process finds the cache entry before it is invalidated. -/
def freedLate : List IcacheEvent :=
  List.replicate 5 .iput ++ [.call 1 ⟨T_DEV, 1, 1⟩] ++ List.replicate 7 (.create 1)

/-- The new device has no type in memory and, after `iupdate`, none on disk. -/
theorem reallocated_inode_stale :
    ∃ last, runEvents step freedLate unlinkedFile = .ok last ∧
      last.create 1 = .updated ⟨T_DEV, 1, 1⟩ last.ip ∧ (last.icache.copy last.ip).type = 0 ∧
      (last.icache.dinode 2).type = 0 ∧ ¬last.Fresh := by
  have observed : (runEvents step freedLate unlinkedFile).toOption.map (fun last =>
      (last.create 1, last.ip, (last.icache.copy last.ip).type, (last.icache.dinode 2).type)) =
        some (.updated ⟨T_DEV, 1, 1⟩ ⟨0, by decide⟩, ⟨0, by decide⟩, 0, 0) := by decide +kernel
  obtain ⟨last, ran, same⟩ := exists_ok_of_observed observed
  simp only [Prod.mk.injEq] at same
  obtain ⟨place, entry, type, disk⟩ := same
  rw [← entry] at place
  refine ⟨last, ran, place, type, disk, ?_⟩
  intro fresh
  have asked := (fresh 1 ⟨T_DEV, 1, 1⟩ last.ip).1 (.inr (.inr place))
  rw [type] at asked
  exact absurd asked (by decide)

end IcacheSystem
end Xv6
