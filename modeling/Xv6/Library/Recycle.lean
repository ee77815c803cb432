import Mathlib.Tactic

namespace Xv6.Library
open Function Option

/-- One process frees a record. It has only a reference, changes nothing that others see, has cleared its cached copy, has
cleared the stored record while its copy still counts, or is done. -/
inductive FreePhase where
  | holding
  | freeing
  | cleared
  | window
  | done
  deriving DecidableEq

/-- A process asks for a record with a tag, has claimed a number, has a cache entry or has a valid copy. -/
inductive WorkPhase (N E T : Type) where
  | idle
  | asks (tag : T)
  | claims (tag : T) (number : N)
  | refers (tag : T) (entry : E)
  | has (tag : T) (entry : E)

/-- Records have tags in a store and copies of them in a cache with references. The tag zero marks a free record. -/
structure Pool (N E P T : Type) where
  stored : N → T
  ref : E → Nat
  number : E → N
  valid : E → Bool
  cached : E → T
  victim : E
  freeing : FreePhase
  work : P → WorkPhase N E T

section Pool
variable {N E P T : Type} {pool next : Pool N E P T} {k n : N} {e : E} {p : P} {tag : T} {place : WorkPhase N E T}

namespace Pool

/-- The number of the record that a process works on. -/
def target (pool : Pool N E P T) : WorkPhase N E T → Option N
  | .claims _ n => some n
  | .refers _ e | .has _ e => some (pool.number e)
  | .idle | .asks _ => none

/-- The stored record is free, and a cache entry still shows the old copy. -/
def Window (pool : Pool N E P T) (e : E) : Prop := e = pool.victim ∧ pool.freeing = .window

/-- The reference of a process counts besides the one of the freeing process. -/
def Holds (pool : Pool N E P T) (e : E) : Prop :=
  0 < pool.ref e ∧ (e = pool.victim → pool.freeing ≠ .done → 2 ≤ pool.ref e)

/-- The record that a process works on has its tag, and no valid copy of it is older. -/
def Serves [Zero T] (pool : Pool N E P T) : WorkPhase N E T → Prop
  | .idle => True
  | .asks tag => tag ≠ 0
  | .claims tag n => tag ≠ 0 ∧ pool.stored n = tag ∧
      ∀ e, 0 < pool.ref e → pool.number e = n → pool.valid e = true → pool.Window e
  | .refers tag e => tag ≠ 0 ∧ pool.stored (pool.number e) = tag ∧ pool.Holds e ∧ (pool.valid e = true → pool.Window e)
  | .has tag e => tag ≠ 0 ∧ pool.stored (pool.number e) = tag ∧ pool.Holds e ∧ pool.valid e = true ∧ ¬pool.Window e

/-- No record has two cache entries in use or two processes that work on it. A valid copy has the tag of the record except
for the one that is being freed. -/
structure Sound [Zero T] (pool : Pool N E P T) : Prop where
  unique : ∀ e other, 0 < pool.ref e → 0 < pool.ref other → pool.number e = pool.number other → e = other
  typed : ∀ e, 0 < pool.ref e → pool.valid e = true →
    ¬(e = pool.victim ∧ (pool.freeing = .cleared ∨ pool.freeing = .window)) →
    pool.cached e = pool.stored (pool.number e) ∧ pool.stored (pool.number e) ≠ 0
  held : pool.freeing ≠ .done → 0 < pool.ref pool.victim
  frees : pool.freeing = .freeing ∨ pool.freeing = .cleared → pool.valid pool.victim = true ∧
    pool.stored (pool.number pool.victim) ≠ 0 ∧ ∀ p, pool.target (pool.work p) ≠ some (pool.number pool.victim)
  clears : pool.freeing = .cleared ∨ pool.freeing = .window →
    pool.valid pool.victim = true ∧ pool.cached pool.victim = 0
  serves : ∀ p, pool.Serves (pool.work p)
  apart : ∀ p other n, pool.target (pool.work p) = some n → pool.target (pool.work other) = some n → p = other

/-- The steps of the freeing process and of the others. A process may find the record in the cache or take an unused
entry, and it reads the record. -/
inductive Step [Zero T] [DecidableEq N] [DecidableEq E] [DecidableEq P] : Pool N E P T → Pool N E P T → Prop where
  | free {pool : Pool N E P T} (phase : pool.freeing = .holding) (last : pool.ref pool.victim = 1)
      (valid : pool.valid pool.victim = true) : Step pool {pool with freeing := .freeing}
  | release {pool : Pool N E P T} (phase : pool.freeing = .holding) :
      Step pool {pool with
        ref := Function.update pool.ref pool.victim (pool.ref pool.victim - 1)
        freeing := .done}
  | clear {pool : Pool N E P T} (phase : pool.freeing = .freeing) :
      Step pool {pool with cached := Function.update pool.cached pool.victim 0, freeing := .cleared}
  | expose {pool : Pool N E P T} (phase : pool.freeing = .cleared) :
      Step pool {pool with
        stored := Function.update pool.stored (pool.number pool.victim) (pool.cached pool.victim)
        freeing := .window}
  | drop {pool : Pool N E P T} (phase : pool.freeing = .window) :
      Step pool {pool with
        ref := Function.update pool.ref pool.victim (pool.ref pool.victim - 1)
        valid := Function.update pool.valid pool.victim false
        freeing := .done}
  | ask {pool : Pool N E P T} (p : P) (tag : T) (place : pool.work p = .idle) (nonzero : tag ≠ 0) :
      Step pool {pool with work := Function.update pool.work p (.asks tag)}
  | claim {pool : Pool N E P T} (p : P) (tag : T) (n : N) (place : pool.work p = .asks tag)
      (free : pool.stored n = 0) :
      Step pool {pool with
        stored := Function.update pool.stored n tag
        work := Function.update pool.work p (.claims tag n)}
  | share {pool : Pool N E P T} (p : P) (tag : T) (e : E) (place : pool.work p = .claims tag (pool.number e))
      (used : 0 < pool.ref e) :
      Step pool {pool with
        ref := Function.update pool.ref e (pool.ref e + 1)
        work := Function.update pool.work p (.refers tag e)}
  | recycle {pool : Pool N E P T} (p : P) (tag : T) (n : N) (e : E) (place : pool.work p = .claims tag n)
      (absent : ∀ other, 0 < pool.ref other → pool.number other ≠ n) (unused : pool.ref e = 0) :
      Step pool {pool with
        ref := Function.update pool.ref e 1
        number := Function.update pool.number e n
        valid := Function.update pool.valid e false
        work := Function.update pool.work p (.refers tag e)}
  | load {pool : Pool N E P T} (p : P) (tag : T) (e : E) (place : pool.work p = .refers tag e)
      (invalid : pool.valid e = false) :
      Step pool {pool with
        valid := Function.update pool.valid e true
        cached := Function.update pool.cached e (pool.stored (pool.number e))
        work := Function.update pool.work p (.has tag e)}
  | leave {pool : Pool N E P T} (p : P) (tag : T) (e : E) (ref : Nat) (place : pool.work p = .has tag e)
      (few : ref ≤ pool.ref e) (many : pool.ref e ≤ ref + 1) :
      Step pool {pool with
        ref := Function.update pool.ref e ref
        work := Function.update pool.work p .idle}

/-- A change concerns one record. Every cache entry that changed has no other record. -/
structure Touches (k : N) (pool next : Pool N E P T) : Prop where
  stored : ∀ n ≠ k, next.stored n = pool.stored n
  entry : ∀ e, (next.ref e = pool.ref e ∧ next.number e = pool.number e ∧ next.valid e = pool.valid e) ∨
    (0 < pool.ref e → pool.number e = k) ∧ (0 < next.ref e → next.number e = k)
  victim : next.victim = pool.victim
  freeing : next.freeing = pool.freeing ∨ 0 < pool.ref pool.victim ∧ pool.number pool.victim = k

namespace Touches

variable (touches : Touches k pool next)
include touches

theorem same (used : 0 < pool.ref e) (ne : pool.number e ≠ k) :
    next.ref e = pool.ref e ∧ next.number e = pool.number e ∧ next.valid e = pool.valid e := by
  rcases touches.entry e with same | changed
  · exact same
  · exact absurd (changed.1 used) ne

theorem window (ne : pool.number e ≠ k) : next.Window e ↔ pool.Window e := by
  rw [Window, Window, touches.victim]
  apply and_congr_right
  intro victim
  rcases touches.freeing with same | moved
  · rw [same]
  · rw [victim] at ne
    exact absurd moved.2 ne

theorem holds (holds : pool.Holds e) (ne : pool.number e ≠ k) : next.Holds e := by
  obtain ⟨ref, _, _⟩ := touches.same holds.1 ne
  rw [Holds, ref, touches.victim]
  refine ⟨holds.1, ?_⟩
  intro victim
  rcases touches.freeing with same | moved
  · rw [same]
    exact holds.2 victim
  · rw [victim] at ne
    exact absurd moved.2 ne

/-- A process that works on another record is not concerned. -/
theorem serves [Zero T] (serves : pool.Serves place) (ne : pool.target place ≠ some k) : next.Serves place := by
  cases place with
  | idle => trivial
  | asks tag => exact serves
  | claims tag n =>
    have other : n ≠ k := fun same => ne (congrArg some same)
    obtain ⟨nonzero, stored, copies⟩ := serves
    refine ⟨nonzero, (touches.stored n other).trans stored, ?_⟩
    intro e used number valid
    rcases touches.entry e with same | changed
    · rw [same.1] at used
      rw [same.2.1] at number
      rw [same.2.2] at valid
      exact (touches.window (by rw [number]; exact other)).mpr (copies e used number valid)
    · exact absurd (number.symm.trans (changed.2 used)) other
  | refers tag e | has tag e =>
    have other : pool.number e ≠ k := fun same => ne (congrArg some same)
    obtain ⟨nonzero, stored, holds, copy⟩ := serves
    obtain ⟨_, number, valid⟩ := touches.same holds.1 other
    rw [Serves, number, valid, touches.stored _ other, touches.window other]
    exact ⟨nonzero, stored, touches.holds holds other, copy⟩

end Touches

theorem pos_of_released [DecidableEq E] (positive : 0 < update pool.ref pool.victim (pool.ref pool.victim - 1) e) :
    0 < pool.ref e := by
  rw [update_apply] at positive
  split at positive
  · next victim =>
      rw [victim]
      omega
  · exact positive

/-- The reference of a process remains when the freeing process drops its own. -/
theorem Holds.released [DecidableEq E] (holds : pool.Holds e) (unfinished : pool.freeing ≠ .done) :
    0 < update pool.ref pool.victim (pool.ref pool.victim - 1) e := by
  rw [update_apply]
  split
  · next victim =>
      have many := holds.2 victim unfinished
      rw [victim] at many
      omega
  · exact holds.1

variable [Zero T]

/-- The record of a process has a tag. Either all of its valid copies are old, or the process has a reference. -/
theorem Serves.target (serves : pool.Serves place) (works : pool.target place = some n) :
    pool.stored n ≠ 0 ∧ ((∀ e, 0 < pool.ref e → pool.number e = n → pool.valid e = true → pool.Window e) ∨
      ∃ e, pool.Holds e ∧ pool.number e = n) := by
  cases place with
  | idle | asks => cases works
  | claims tag number =>
    obtain rfl : number = n := some.inj works
    obtain ⟨nonzero, stored, copies⟩ := serves
    exact ⟨stored ▸ nonzero, .inl copies⟩
  | refers tag e | has tag e =>
    obtain ⟨nonzero, stored, holds, _⟩ := serves
    obtain rfl : pool.number e = n := some.inj works
    exact ⟨stored ▸ nonzero, .inr ⟨e, holds, rfl⟩⟩

/-- A change that takes no reference from a process and makes no old copy valid does not concern any process. -/
theorem Serves.mono (serves : pool.Serves place) (stored : next.stored = pool.stored) (number : next.number = pool.number)
    (used : ∀ e, 0 < next.ref e → 0 < pool.ref e) (holds : ∀ e, pool.Holds e → next.Holds e)
    (old : ∀ e, next.valid e = true → pool.valid e = true ∧ (pool.Window e → next.Window e))
    (new : ∀ e, pool.valid e = true → ¬pool.Window e → next.valid e = true ∧ ¬next.Window e) : next.Serves place := by
  cases place with
  | idle => trivial
  | asks tag => exact serves
  | claims tag n =>
    obtain ⟨nonzero, here, copies⟩ := serves
    refine ⟨nonzero, by rw [stored]; exact here, ?_⟩
    intro e inUse same valid
    rw [number] at same
    exact (old e valid).2 (copies e (used e inUse) same (old e valid).1)
  | refers tag e =>
    obtain ⟨nonzero, here, held, copy⟩ := serves
    refine ⟨nonzero, by rw [stored, number]; exact here, holds e held, ?_⟩
    intro valid
    exact (old e valid).2 (copy (old e valid).1)
  | has tag e =>
    obtain ⟨nonzero, here, held, valid, outside⟩ := serves
    exact ⟨nonzero, by rw [stored, number]; exact here, holds e held, new e valid outside⟩

/-- No copy is old before and after the change. -/
theorem Serves.outside (serves : pool.Serves place) (same : next.stored = pool.stored ∧ next.number = pool.number)
    (valid : next.valid = pool.valid) (used : ∀ e, 0 < next.ref e → 0 < pool.ref e)
    (holds : ∀ e, pool.Holds e → next.Holds e) (before : pool.freeing ≠ .window) (after : next.freeing ≠ .window) :
    next.Serves place := by
  apply serves.mono same.1 same.2 used holds
  · intro e good
    rw [valid] at good
    exact ⟨good, fun window => absurd window.2 before⟩
  · intro e good _
    rw [valid]
    exact ⟨good, fun window => after window.2⟩

namespace Sound

variable (sound : pool.Sound)
include sound

/-- The copy of a process that has one is the record that it claimed. -/
theorem fresh (has : pool.work p = .has tag e) : pool.cached e = tag ∧ pool.stored (pool.number e) = tag := by
  have serves := sound.serves p
  rw [has] at serves
  obtain ⟨_, stored, holds, valid, outside⟩ := serves
  refine ⟨?_, stored⟩
  rw [(sound.typed e holds.1 valid _).1, stored]
  rintro ⟨rfl, cleared | window⟩
  · apply (sound.frees (.inr cleared)).2.2 p
    rw [has, Pool.target]
  · exact outside ⟨rfl, window⟩

/-- A valid copy that a process finds is an old one. -/
theorem stale (place : pool.work p = .refers tag e) (valid : pool.valid e = true) :
    pool.Window e ∧ pool.cached e = 0 ∧ tag ≠ 0 := by
  have serves := sound.serves p
  rw [place] at serves
  obtain ⟨nonzero, _, _, old⟩ := serves
  have window := old valid
  refine ⟨window, ?_, nonzero⟩
  rw [window.1]
  exact (sound.clears (.inr window.2)).2

/-- The last reference to a valid entry is not the one of a process that works on its record. -/
theorem alone (phase : pool.freeing = .holding) (last : pool.ref pool.victim = 1)
    (valid : pool.valid pool.victim = true) (p : P) : pool.target (pool.work p) ≠ some (pool.number pool.victim) := by
  intro works
  have used : 0 < pool.ref pool.victim := sound.held (by rw [phase]; decide)
  rcases ((sound.serves p).target works).2 with copies | ⟨e, holds, same⟩
  · have window := (copies _ used rfl valid).2
    rw [phase] at window
    cases window
  · obtain rfl := sound.unique e _ holds.1 used same
    have many := holds.2 rfl (by rw [phase]; decide)
    omega

theorem free (phase : pool.freeing = .holding) (last : pool.ref pool.victim = 1)
    (valid : pool.valid pool.victim = true) : Sound {pool with freeing := .freeing} := by
  have used : 0 < pool.ref pool.victim := sound.held (by rw [phase]; decide)
  have typed : ∀ e, 0 < pool.ref e → pool.valid e = true →
      pool.cached e = pool.stored (pool.number e) ∧ pool.stored (pool.number e) ≠ 0 :=
    fun e used valid => sound.typed e used valid (by rw [phase]; simp)
  refine ⟨sound.unique, fun e used valid _ => typed e used valid, fun _ => used, ?_, by simp, ?_, sound.apart⟩
  · intro _
    exact ⟨valid, (typed _ used valid).2, sound.alone phase last valid⟩
  · intro p
    refine (sound.serves p).outside ⟨rfl, rfl⟩ rfl (fun _ => id) ?_ (by rw [phase]; decide) nofun
    intro e holds
    exact ⟨holds.1, fun victim _ => holds.2 victim (by rw [phase]; decide)⟩

theorem release [DecidableEq E] (phase : pool.freeing = .holding) : Sound {pool with
      ref := update pool.ref pool.victim (pool.ref pool.victim - 1)
      freeing := .done} := by
  refine ⟨?_, ?_, by simp, by simp, by simp, ?_, sound.apart⟩
  · intro e other first second
    exact sound.unique e other (pos_of_released first) (pos_of_released second)
  · intro e inUse valid _
    exact sound.typed e (pos_of_released inUse) valid (by rw [phase]; simp)
  · intro p
    refine (sound.serves p).outside ⟨rfl, rfl⟩ rfl (fun e => pos_of_released) ?_ (by rw [phase]; decide) nofun
    intro e holds
    exact ⟨holds.released (by rw [phase]; decide), fun _ unfinished => absurd rfl unfinished⟩

theorem clear [DecidableEq E] (phase : pool.freeing = .freeing) :
    Sound {pool with cached := update pool.cached pool.victim 0, freeing := .cleared} := by
  have held := sound.held (by rw [phase]; decide)
  have frees := sound.frees (.inl phase)
  refine ⟨sound.unique, ?_, fun _ => held, fun _ => frees, ?_, ?_, sound.apart⟩
  · intro e used valid other
    have ne : e ≠ pool.victim := fun victim => other ⟨victim, .inl rfl⟩
    change update pool.cached pool.victim 0 e = _ ∧ _
    rw [update_of_ne ne]
    exact sound.typed e used valid fun both => ne both.1
  · intro _
    exact ⟨frees.1, update_self ..⟩
  · intro p
    refine (sound.serves p).outside ⟨rfl, rfl⟩ rfl (fun _ => id) ?_ (by rw [phase]; decide) nofun
    intro e holds
    exact ⟨holds.1, fun victim _ => holds.2 victim (by rw [phase]; decide)⟩

theorem expose [DecidableEq N] (phase : pool.freeing = .cleared) : Sound {pool with
      stored := update pool.stored (pool.number pool.victim) (pool.cached pool.victim)
      freeing := .window} := by
  have held := sound.held (by rw [phase]; decide)
  have frees := sound.frees (.inr phase)
  refine ⟨sound.unique, ?_, fun _ => held, by simp, fun _ => sound.clears (.inl phase), ?_, sound.apart⟩
  · intro e used valid other
    have ne : e ≠ pool.victim := fun victim => other ⟨victim, .inr rfl⟩
    have apart : pool.number e ≠ pool.number pool.victim := fun same => ne (sound.unique e _ used held same)
    change _ = update pool.stored _ _ (pool.number e) ∧ update pool.stored _ _ (pool.number e) ≠ 0
    rw [update_of_ne apart]
    exact sound.typed e used valid fun both => ne both.1
  · intro p
    have touches : Touches (pool.number pool.victim) pool {pool with
        stored := update pool.stored (pool.number pool.victim) (pool.cached pool.victim)
        freeing := .window} :=
      ⟨fun n ne => update_of_ne ne .., fun _ => .inl ⟨rfl, rfl, rfl⟩, rfl, .inr ⟨held, rfl⟩⟩
    exact touches.serves (sound.serves p) (frees.2.2 p)

theorem drop [DecidableEq E] (phase : pool.freeing = .window) : Sound {pool with
      ref := update pool.ref pool.victim (pool.ref pool.victim - 1)
      valid := update pool.valid pool.victim false
      freeing := .done} := by
  have kept : ∀ e, update pool.valid pool.victim false e = true → e ≠ pool.victim ∧ pool.valid e = true := by
    intro e
    rw [update_apply]
    split
    · exact fun valid => absurd valid Bool.false_ne_true
    · next ne => exact fun valid => ⟨ne, valid⟩
  refine ⟨?_, ?_, by simp, by simp, by simp, ?_, sound.apart⟩
  · intro e other first second
    exact sound.unique e other (pos_of_released first) (pos_of_released second)
  · intro e inUse valid _
    exact sound.typed e (pos_of_released inUse) (kept e valid).2 fun both => (kept e valid).1 both.1
  · intro p
    refine (sound.serves p).mono rfl rfl (fun e => pos_of_released) ?_ ?_ ?_
    · intro e holds
      exact ⟨holds.released (by rw [phase]; decide), fun _ unfinished => absurd rfl unfinished⟩
    · intro e valid
      exact ⟨(kept e valid).2, fun window => absurd window.1 (kept e valid).1⟩
    · intro e valid outside
      have ne : e ≠ pool.victim := fun victim => outside ⟨victim, phase⟩
      exact ⟨(update_of_ne ne ..).trans valid, fun window => by cases window.2⟩

end Sound

/-- The entry of a process is in use, so a change of unused entries does not concern its number. -/
theorem Serves.target_eq (serves : pool.Serves place) (numbers : ∀ e, 0 < pool.ref e → next.number e = pool.number e) :
    next.target place = pool.target place := by
  cases place with
  | idle | asks | claims => rfl
  | refers tag e | has tag e => exact congrArg some (numbers e serves.2.2.1.1)

/-- A step of one process concerns the record that it works on, or a record that nobody works on. -/
structure Works (p : P) (k : N) (pool next : Pool N E P T) : Prop extends Touches k pool next where
  phase : next.freeing = pool.freeing
  others : ∀ q ≠ p, next.work q = pool.work q
  numbers : ∀ e, 0 < pool.ref e → next.number e = pool.number e
  before : pool.target (pool.work p) = some k ∨ pool.stored k = 0
  after : ∀ n, next.target (next.work p) = some n → n = k

namespace Works

section
variable (works : Works p k pool next)
include works

theorem nobody (sound : pool.Sound) {q : P} (ne : q ≠ p) : pool.target (pool.work q) ≠ some k := by
  intro other
  rcases works.before with own | free
  · exact ne (sound.apart q p k other own)
  · exact ((sound.serves q).target other).1 free

/-- The record of the process is not the one that is being freed. -/
theorem number_ne (sound : pool.Sound) (phase : pool.freeing = .freeing ∨ pool.freeing = .cleared) :
    pool.number pool.victim ≠ k := by
  obtain ⟨_, stored, nobody⟩ := sound.frees phase
  intro same
  rcases works.before with own | free
  · exact nobody p (own.trans (congrArg some same.symm))
  · exact stored (same ▸ free)

theorem target_eq (sound : pool.Sound) {q : P} (ne : q ≠ p) :
    next.target (next.work q) = pool.target (pool.work q) := by
  rw [works.others q ne]
  exact (sound.serves q).target_eq works.numbers

/-- The other processes and the freeing process see no difference. -/
theorem sound (sound : pool.Sound)
    (unique : ∀ e other, 0 < next.ref e → 0 < next.ref other → next.number e = next.number other → e = other)
    (typed : ∀ e, 0 < next.ref e → next.valid e = true →
      ¬(e = pool.victim ∧ (pool.freeing = .cleared ∨ pool.freeing = .window)) →
      next.cached e = next.stored (next.number e) ∧ next.stored (next.number e) ≠ 0)
    (held : pool.freeing ≠ .done → 0 < next.ref pool.victim)
    (clears : pool.freeing = .cleared ∨ pool.freeing = .window →
      next.valid pool.victim = pool.valid pool.victim ∧ next.cached pool.victim = pool.cached pool.victim)
    (work : next.work p = place) (serves : next.Serves place) : next.Sound := by
  have phase := works.phase
  have victim := works.victim
  refine ⟨unique, ?_, ?_, ?_, ?_, ?_, ?_⟩
  · rw [victim, phase]
    exact typed
  · rw [victim, phase]
    exact held
  · rw [victim, phase]
    intro freeing
    have unfinished : pool.freeing ≠ .done := by
      rcases freeing with freeing | cleared
      · rw [freeing]
        decide
      · rw [cleared]
        decide
    have ne := works.number_ne sound freeing
    obtain ⟨valid, stored, nobody⟩ := sound.frees freeing
    obtain ⟨_, number, same⟩ := works.same (sound.held unfinished) ne
    rw [number, same, works.stored _ ne]
    refine ⟨valid, stored, ?_⟩
    intro q
    by_cases own : q = p
    · intro target
      rw [own] at target
      exact ne (works.after _ target)
    · rw [works.target_eq sound own]
      exact nobody q
  · rw [victim, phase]
    intro cleared
    rw [(clears cleared).1, (clears cleared).2]
    exact sound.clears cleared
  · intro q
    by_cases own : q = p
    · rw [own, work]
      exact serves
    · rw [works.others q own]
      exact works.serves (sound.serves q) (works.nobody sound own)
  · intro q r n first second
    by_cases left : q = p
    · by_cases right : r = p
      · exact left.trans right.symm
      · rw [left] at first
        rw [works.target_eq sound right, works.after n first] at second
        exact absurd second (works.nobody sound right)
    · by_cases right : r = p
      · rw [right] at second
        rw [works.target_eq sound left, works.after n second] at first
        exact absurd first (works.nobody sound left)
      · rw [works.target_eq sound left] at first
        rw [works.target_eq sound right] at second
        exact sound.apart q r n first second

end

variable [DecidableEq P]

/-- A process that works on a record changes at most one entry, and the entry has no other record. -/
theorem of_entry (work : next.work = update pool.work p place) (phase : next.freeing = pool.freeing)
    (same : next.victim = pool.victim ∧ next.stored = pool.stored)
    (entries : ∀ other ≠ e, next.ref other = pool.ref other ∧ next.number other = pool.number other ∧
      next.valid other = pool.valid other) (old : 0 < pool.ref e → pool.number e = k) (new : next.number e = k)
    (before : pool.target (pool.work p) = some k) (after : ∀ n, next.target place = some n → n = k) :
    Works p k pool next := by
  refine ⟨⟨fun _ _ => by rw [same.2], ?_, same.1, .inl phase⟩, phase, ?_, ?_, .inl before, ?_⟩
  · intro other
    by_cases here : other = e
    · rw [here]
      exact .inr ⟨old, fun _ => new⟩
    · exact .inl (entries other here)
  · intro q ne
    rw [work, update_of_ne ne]
  · intro other used
    by_cases here : other = e
    · rw [here] at used ⊢
      rw [new, old used]
    · exact (entries other here).2.1
  · rw [work, update_self]
    exact after

end Works

namespace Sound
variable [DecidableEq P]

theorem ask (sound : pool.Sound) (place : pool.work p = .idle) (nonzero : tag ≠ 0) :
    Sound {pool with work := update pool.work p (.asks tag)} := by
  have others : ∀ q ≠ p, update pool.work p (.asks tag) q = pool.work q :=
    fun q ne => update_of_ne ne ..
  have own : update pool.work p (.asks tag) p = .asks tag := update_self ..
  have target : ∀ q, pool.target (update pool.work p (.asks tag) q) = pool.target (pool.work q) := by
    intro q
    by_cases same : q = p
    · rw [same, own, place]
      rfl
    · rw [others q same]
  refine ⟨sound.unique, sound.typed, sound.held, ?_, sound.clears, ?_, ?_⟩
  · intro phase
    obtain ⟨valid, stored, nobody⟩ := sound.frees phase
    exact ⟨valid, stored, fun q => (target q).symm ▸ nobody q⟩
  · intro q
    change pool.Serves (update pool.work p (.asks tag) q)
    by_cases same : q = p
    · rw [same, own]
      exact nonzero
    · rw [others q same]
      exact sound.serves q
  · intro q r n first second
    exact sound.apart q r n ((target q).symm.trans first) ((target r).symm.trans second)

theorem claim (sound : pool.Sound) [DecidableEq N] (place : pool.work p = .asks tag) (free : pool.stored n = 0) :
    Sound {pool with
      stored := update pool.stored n tag
      work := update pool.work p (.claims tag n)} := by
  have nonzero : tag ≠ 0 := by
    have serves := sound.serves p
    rwa [place] at serves
  have old : ∀ e, 0 < pool.ref e → pool.number e = n → pool.valid e = true → pool.Window e := by
    intro e used number valid
    by_contra outside
    apply (sound.typed e used valid _).2
    · rw [number, free]
    · rintro ⟨rfl, cleared | window⟩
      · exact (sound.frees (.inr cleared)).2.1 (number ▸ free)
      · exact outside ⟨rfl, window⟩
  refine Works.sound (k := n) (p := p) ?_ sound sound.unique ?_ sound.held (fun _ => ⟨rfl, rfl⟩) (update_self ..)
    ⟨nonzero, update_self .., old⟩
  · refine ⟨⟨?_, fun _ => .inl ⟨rfl, rfl, rfl⟩, rfl, .inl rfl⟩, rfl, ?_, fun _ _ => rfl, .inr free, ?_⟩
    · exact fun number ne => update_of_ne ne ..
    · exact fun q ne => update_of_ne ne ..
    · intro number target
      change Pool.target _ (update pool.work p (.claims tag n) p) = _ at target
      rw [update_self] at target
      exact (some.inj target).symm
  · intro e used valid other
    have ne : pool.number e ≠ n := by
      intro number
      obtain ⟨victim, window⟩ := old e used number valid
      exact other ⟨victim, .inr window⟩
    change _ = update pool.stored n tag (pool.number e) ∧ update pool.stored n tag (pool.number e) ≠ 0
    rw [update_of_ne ne]
    exact sound.typed e used valid other

variable [DecidableEq E]

variable (sound : pool.Sound)
include sound

theorem share (place : pool.work p = .claims tag (pool.number e)) (used : 0 < pool.ref e) : Sound {pool with
      ref := update pool.ref e (pool.ref e + 1)
      work := update pool.work p (.refers tag e)} := by
  have serves := sound.serves p
  rw [place] at serves
  obtain ⟨nonzero, stored, old⟩ := serves
  have positive : ∀ other, 0 < update pool.ref e (pool.ref e + 1) other ↔ 0 < pool.ref other := by
    intro other
    rw [update_apply]
    split
    · next same =>
        rw [same]
        omega
    · rfl
  refine Works.sound (.of_entry rfl rfl ⟨rfl, rfl⟩ (fun other same => ⟨update_of_ne same .., rfl, rfl⟩)
    (fun _ => rfl) rfl (by rw [place]; rfl) fun n target => (some.inj target).symm) sound ?_ ?_ ?_
    (fun _ => ⟨rfl, rfl⟩) (update_self ..) ?_
  · intro first second left right
    exact sound.unique first second ((positive first).mp left) ((positive second).mp right)
  · intro other inUse
    exact sound.typed other ((positive other).mp inUse)
  · intro unfinished
    exact (positive _).mpr (sound.held unfinished)
  · refine ⟨nonzero, stored, ⟨(positive e).mpr used, ?_⟩, old e used rfl⟩
    intro _ _
    change 2 ≤ update pool.ref e (pool.ref e + 1) e
    rw [update_self]
    omega

theorem recycle (place : pool.work p = .claims tag n) (absent : ∀ other, 0 < pool.ref other → pool.number other ≠ n)
    (unused : pool.ref e = 0) :
    Sound {pool with
      ref := update pool.ref e 1
      number := update pool.number e n
      valid := update pool.valid e false
      work := update pool.work p (.refers tag e)} := by
  have serves := sound.serves p
  rw [place] at serves
  obtain ⟨nonzero, stored, _⟩ := serves
  have ne : ∀ other, 0 < pool.ref other → other ≠ e := by
    rintro _ used rfl
    omega
  have inUse : ∀ other ≠ e, 0 < update pool.ref e 1 other → 0 < pool.ref other := by
    intro other apart
    rw [update_of_ne apart]
    exact id
  have numbers : ∀ other ≠ e, update pool.number e n other = pool.number other :=
    fun other apart => update_of_ne apart ..
  have own : update pool.number e n e = n := update_self ..
  refine Works.sound (.of_entry rfl rfl ⟨rfl, rfl⟩ (fun other same => ⟨update_of_ne same .., numbers other same,
    update_of_ne same ..⟩) (fun used => absurd rfl (ne e used)) own (by rw [place]; rfl)
    fun n target => (some.inj target).symm.trans own) sound ?_ ?_ ?_ ?_ (update_self ..) ?_
  · intro first second left right same
    change update pool.number e n first = update pool.number e n second at same
    by_cases here : first = e
    · by_cases there : second = e
      · exact here.trans there.symm
      · rw [here, own, numbers second there] at same
        exact absurd same.symm (absent second (inUse second there right))
    · by_cases there : second = e
      · rw [there, own, numbers first here] at same
        exact absurd same (absent first (inUse first here left))
      · rw [numbers first here, numbers second there] at same
        exact sound.unique first second (inUse first here left) (inUse second there right) same
  · intro other used valid outside
    change update pool.valid e false other = true at valid
    rw [update_apply] at valid
    split at valid
    · cases valid
    · next apart =>
        change pool.cached other = pool.stored (update pool.number e n other) ∧
          pool.stored (update pool.number e n other) ≠ 0
        rw [numbers other apart]
        exact sound.typed other (inUse other apart used) valid outside
  · intro unfinished
    have used := sound.held unfinished
    change 0 < update pool.ref e 1 pool.victim
    rw [update_of_ne (ne _ used)]
    exact used
  · intro cleared
    have used := sound.held (by rcases cleared with cleared | cleared <;> rw [cleared] <;> decide)
    exact ⟨update_of_ne (ne _ used) .., rfl⟩
  · refine ⟨nonzero, ?_, ⟨?_, ?_⟩, ?_⟩
    · change pool.stored (update pool.number e n e) = tag
      rw [own, stored]
    · change 0 < update pool.ref e 1 e
      rw [update_self]
      exact Nat.one_pos
    · intro victim unfinished
      exact absurd victim.symm (ne _ (sound.held unfinished))
    · intro valid
      change update pool.valid e false e = true at valid
      rw [update_self] at valid
      cases valid

theorem load (place : pool.work p = .refers tag e) (invalid : pool.valid e = false) : Sound {pool with
      valid := update pool.valid e true
      cached := update pool.cached e (pool.stored (pool.number e))
      work := update pool.work p (.has tag e)} := by
  have serves := sound.serves p
  rw [place] at serves
  obtain ⟨nonzero, stored, holds, _⟩ := serves
  have apart : pool.freeing = .cleared ∨ pool.freeing = .window → pool.victim ≠ e := by
    intro cleared same
    have valid := (sound.clears cleared).1
    rw [same, invalid] at valid
    cases valid
  refine Works.sound (.of_entry rfl rfl ⟨rfl, rfl⟩ (fun other same => ⟨rfl, rfl, update_of_ne same ..⟩)
    (fun _ => rfl) rfl (by rw [place]; rfl) fun n target => (some.inj target).symm) sound sound.unique ?_
    sound.held ?_ (update_self ..)
    ⟨nonzero, stored, holds, update_self .., fun window => apart (.inr window.2) window.1.symm⟩
  · intro other used valid outside
    change update pool.valid e true other = true at valid
    change update pool.cached e (pool.stored (pool.number e)) other = _ ∧ _
    by_cases same : other = e
    · rw [same, update_self]
      exact ⟨rfl, stored ▸ nonzero⟩
    · rw [update_of_ne same] at valid ⊢
      exact sound.typed other used valid outside
  · intro cleared
    exact ⟨update_of_ne (apart cleared) .., update_of_ne (apart cleared) ..⟩

theorem leave {ref : Nat} (place : pool.work p = .has tag e) (few : ref ≤ pool.ref e) (many : pool.ref e ≤ ref + 1) :
    Sound {pool with
      ref := update pool.ref e ref
      work := update pool.work p .idle} := by
  have serves := sound.serves p
  rw [place] at serves
  obtain ⟨_, _, holds, _, _⟩ := serves
  have used : ∀ other, 0 < update pool.ref e ref other → 0 < pool.ref other := by
    intro other
    rw [update_apply]
    split
    · next same =>
        rw [same]
        omega
    · exact id
  refine Works.sound (.of_entry rfl rfl ⟨rfl, rfl⟩ (fun other same => ⟨update_of_ne same .., rfl, rfl⟩)
    (fun _ => rfl) rfl (by rw [place]; rfl) nofun) sound ?_ ?_ ?_ (fun _ => ⟨rfl, rfl⟩) (update_self ..) trivial
  · intro first second left right
    exact sound.unique first second (used first left) (used second right)
  · intro other inUse
    exact sound.typed other (used other inUse)
  · intro unfinished
    change 0 < update pool.ref e ref pool.victim
    rw [update_apply]
    split
    · next same =>
        have more := holds.2 same.symm unfinished
        omega
    · exact sound.held unfinished

theorem step [DecidableEq N] (step : Step pool next) : next.Sound := by
  cases step with
  | free phase last valid => exact sound.free phase last valid
  | release phase => exact sound.release phase
  | clear phase => exact sound.clear phase
  | expose phase => exact sound.expose phase
  | drop phase => exact sound.drop phase
  | ask p tag place nonzero => exact sound.ask place nonzero
  | claim p tag n place free => exact sound.claim place free
  | share p tag e place used => exact sound.share place used
  | recycle p tag n e place absent unused => exact sound.recycle place absent unused
  | load p tag e place invalid => exact sound.load place invalid
  | leave p tag e ref place few many => exact sound.leave place few many

end Sound

end Pool
end Pool
end Xv6.Library
