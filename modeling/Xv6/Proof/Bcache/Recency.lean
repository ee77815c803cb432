import Xv6.Proof.Bcache.Ring

namespace Xv6
open Library Bcache List BcacheSystem

/-- This relation lists everything that one event can do. -/
inductive BufStep (system : BcacheSystem) : BufEvent → BcacheSystem → Prop where
  | bget (pid : Nat) (dev : BitVec 32) (blockno : BlockNo) (result : Bget) (cache : Bcache) (named : dev ≠ 0)
      (ready : system.place pid = .ready) (ran : system.cache.bget dev blockno = .ok (result, cache)) :
      BufStep system (.bget pid dev blockno) (system.moveTo cache pid (.acquiring result.buf))
  | acquire (pid : Nat) (b : Fin NBUF) (waits : system.place pid = .acquiring b)
      (free : (system.cache.buf b).holder = none) :
      BufStep system (.acquiresleep pid)
        (system.moveTo (system.cache.setBuf b {system.cache.buf b with holder := some pid}) pid .ready)
  | change (pid : Nat) (b : Fin NBUF) (valid dirty : Bool) (data : Block)
      (held : (system.cache.buf b).holder = some pid) :
      BufStep system (.change pid b valid dirty data)
        {system with cache := system.cache.setBuf b {system.cache.buf b with valid, dirty, data}}
  | release (pid : Nat) (b : Fin NBUF) (ready : system.place pid = .ready)
      (held : (system.cache.buf b).holder = some pid) :
      BufStep system (.releasesleep pid b) (system.moveTo (system.cache.releasesleep b) pid (.releasing b))
  | brelse (pid : Nat) (b : Fin NBUF) (leaves : system.place pid = .releasing b) :
      BufStep system (.brelse pid b) (system.moveTo (system.cache.brelse b) pid .ready)

theorem BufStep.of_step {s next : BcacheSystem} {event : BufEvent} (ran : s.step event = .ok next) :
    BufStep s event next := by
  cases event with
  | bget pid dev blockno =>
    simp only [step] at ran
    split at ran
    case isTrue possible =>
      cases found : s.cache.bget dev blockno with
      | error halt =>
        rw [found] at ran
        cases ran
      | ok outcome =>
        rw [found] at ran
        cases ran
        exact .bget pid dev blockno outcome.1 outcome.2 possible.1 possible.2 found
    case isFalse => cases ran
  | acquiresleep pid =>
    simp only [step] at ran
    split at ran
    case h_1 b waits =>
      rw [acquiresleep] at ran
      split at ran
      case isTrue free =>
        cases ran
        exact .acquire pid b waits free
      case isFalse => cases ran
    case h_2 => cases ran
  | change pid b valid dirty data =>
    simp only [step] at ran
    split at ran
    case isTrue possible =>
      cases ran
      exact .change pid b valid dirty data possible.2
    case isFalse => cases ran
  | releasesleep pid b =>
    simp only [step] at ran
    split at ran
    case isTrue ready =>
      split at ran
      · cases ran
      · split at ran
        case isTrue held =>
          cases ran
          exact .release pid b ready held
        case isFalse => cases ran
    case isFalse => cases ran
  | brelse pid b =>
    simp only [step] at ran
    split at ran
    case isTrue leaves =>
      cases ran
      exact .brelse pid b leaves
    case isFalse => cases ran

theorem lastRelease_snoc (b : Fin NBUF) (events : List BufEvent) (event : BufEvent) :
    lastRelease b (events ++ [event]) =
      match event with
      | .brelse _ released => if released = b then events.length + 1 else lastRelease b events
      | _ => lastRelease b events := by
  rw [lastRelease, zipIdx_append, foldl_append]
  cases event <;> simp [lastRelease]

theorem lastRelease_brelse (b : Fin NBUF) (events : List BufEvent) (pid : Nat) (released : Fin NBUF) :
    lastRelease b (events ++ [.brelse pid released]) =
      if released = b then events.length + 1 else lastRelease b events :=
  lastRelease_snoc b events _

theorem lastRelease_le (b : Fin NBUF) (events : List BufEvent) : lastRelease b events ≤ events.length := by
  induction events using reverseRecOn with
  | nil => exact Nat.le_refl 0
  | append_singleton earlier event ih =>
    rw [lastRelease_snoc, length_append]
    cases event with
    | brelse pid released =>
      dsimp only
      split
      · exact Nat.le_refl _
      · exact Nat.le_succ_of_le ih
    | _ => exact Nat.le_succ_of_le ih

namespace BcacheSystem
variable {cache : Bcache} {pid : Nat} {dev : BitVec 32} {blockno : BlockNo} {b : Fin NBUF}

/-- The buffers without references stand in the order of their last releases. -/
def Recent (cache : Bcache) (events : List BufEvent) (order : List (Fin NBUF)) : Prop :=
  order.Pairwise fun a b => (cache.buf a).refcnt = 0 → (cache.buf b).refcnt = 0 →
    lastRelease b events ≤ lastRelease a events

theorem Recent.mono {after : Bcache} {events later : List BufEvent} {order : List (Fin NBUF)}
    (recent : Recent cache events order)
    (counts : ∀ b, (after.buf b).refcnt = 0 → (cache.buf b).refcnt = 0 ∧ lastRelease b later = lastRelease b events) :
    Recent after later order := by
  apply List.Pairwise.imp _ recent
  intro a b ordered first second
  obtain ⟨earlyFirst, sameFirst⟩ := counts a first
  obtain ⟨earlySecond, sameSecond⟩ := counts b second
  rw [sameFirst, sameSecond]
  exact ordered earlyFirst earlySecond

def moving (system : BcacheSystem) (pid : Nat) : Option (Fin NBUF) := (system.place pid).moving

theorem moveTo_moving (s : BcacheSystem) (cache : Bcache) (pid : Nat) (place : BufPlace) :
    (s.moveTo cache pid place).moving = Function.update s.moving pid place.moving := by
  funext other
  by_cases self : other = pid <;> simp [moving, moveTo, self]

/-- The buffers form a ring in the order of their releases, no block is cached twice and the references are
counted. -/
structure Invariant (events : List BufEvent) (system : BcacheSystem) (order : List (Fin NBUF)) : Prop where
  ring : system.cache.Ring order
  distinct : system.cache.Distinct
  counted : system.cache.Counted system.moving
  recent : Recent system.cache events order

theorem initial_invariant : Invariant [] initial (finRange NBUF).reverse where
  ring := ring_binit
  distinct := distinct_binit
  counted := counted_binit
  recent := by
    apply pairwise_of_forall
    intro a b _ _
    exact Nat.le_refl 0

variable {events : List BufEvent} {system s next : BcacheSystem} {order : List (Fin NBUF)} {event : BufEvent}

theorem Invariant.bget (invariant : Invariant events s order) {result : Bget} (ready : s.place pid = .ready)
    (ran : s.cache.bget dev blockno = .ok (result, cache)) :
    Invariant (events ++ [.bget pid dev blockno]) (s.moveTo cache pid (.acquiring result.buf)) order where
  ring := invariant.ring.bget ran
  distinct := invariant.distinct.bget invariant.ring ran
  counted := by
    rw [moveTo_moving]
    apply invariant.counted.bget invariant.ring _ ran
    rw [moving, ready]
    rfl
  recent := by
    apply invariant.recent.mono
    intro b unused
    rw [lastRelease_snoc]
    refine ⟨?_, rfl⟩
    obtain ⟨hit, _, _, rfl⟩ | ⟨hit, _, _, _, rfl⟩ := invariant.ring.bget_cases ran
    all_goals
      by_cases same : b = hit
      · simp [moveTo, same] at unused
      · rwa [moveTo, setBuf_of_ne same] at unused

/-- An update of one buffer that keeps its block and its references leaves the order as it is. -/
theorem Recent.setBuf {buf : Buf} (recent : Recent s.cache events order) (refcnt : buf.refcnt = (s.cache.buf b).refcnt)
    (same : ∀ other, lastRelease other (events ++ [event]) = lastRelease other events) :
    Recent (s.cache.setBuf b buf) (events ++ [event]) order := by
  apply recent.mono
  intro other unused
  refine ⟨?_, same other⟩
  by_cases self : other = b
  · rw [self, setBuf_self, refcnt] at unused
    rwa [self]
  · rwa [setBuf_of_ne self] at unused

theorem Invariant.brelse (invariant : Invariant events s order) (leaves : s.place pid = .releasing b) :
    ∃ moved, Invariant (events ++ [.brelse pid b]) (s.moveTo (s.cache.brelse b) pid .ready) moved := by
  obtain ⟨moved, ring, rfl⟩ := invariant.ring.brelse (b := b)
  refine ⟨_, ring, invariant.distinct.brelse, ?_, ?_⟩
  · rw [moveTo_moving]
    apply invariant.counted.brelse
    rw [moving, leaves]
    rfl
  · have kept : ∀ other ≠ b, ((s.cache.brelse b).buf other).refcnt = 0 → (s.cache.buf other).refcnt = 0 ∧
        lastRelease other (events ++ [.brelse pid b]) = lastRelease other events := by
      intro other ne unused
      rw [brelse_of_ne ne] at unused
      rw [lastRelease_brelse, if_neg ne.symm]
      exact ⟨unused, rfl⟩
    change Recent (s.cache.brelse b) _ _
    split
    case isTrue last =>
      constructor
      · intro other inside _ _
        rw [lastRelease_brelse, lastRelease_brelse, if_pos rfl]
        split
        · exact Nat.le_refl _
        · exact Nat.le_succ_of_le (lastRelease_le other events)
      · have shorter : (order.erase b).Sublist order := erase_sublist
        have rest := List.Pairwise.sublist shorter invariant.recent
        apply List.Pairwise.imp_of_mem _ rest
        intro first second insideFirst insideSecond ordered unusedFirst unusedSecond
        have once := invariant.ring.once
        obtain ⟨earlyFirst, sameFirst⟩ := kept first ((List.Nodup.mem_erase_iff once).mp insideFirst).1 unusedFirst
        obtain ⟨earlySecond, sameSecond⟩ :=
          kept second ((List.Nodup.mem_erase_iff once).mp insideSecond).1 unusedSecond
        rw [sameFirst, sameSecond]
        exact ordered earlyFirst earlySecond
    case isFalse shared =>
      apply invariant.recent.mono
      intro other unused
      by_cases same : other = b
      · rw [same, brelse_self] at unused
        exact absurd unused shared
      · exact kept other same unused

theorem Invariant.step (invariant : Invariant events s order) (ran : s.step event = .ok next) :
    ∃ moved, Invariant (events ++ [event]) next moved := by
  cases BufStep.of_step ran with
  | bget pid dev blockno result cache named ready found => exact ⟨order, invariant.bget ready found⟩
  | acquire pid b waits free =>
    refine ⟨order, invariant.ring.setBuf _, invariant.distinct.setBuf rfl rfl, ?_, invariant.recent.setBuf rfl ?_⟩
    · rw [moveTo_moving]
      apply invariant.counted.acquire _ free
      rw [moving, waits]
      rfl
    · intro other
      rw [lastRelease_snoc]
  | change pid b valid dirty data held =>
    refine ⟨order, invariant.ring.setBuf _, invariant.distinct.setBuf rfl rfl, invariant.counted.setBuf rfl rfl,
      invariant.recent.setBuf rfl ?_⟩
    intro other
    rw [lastRelease_snoc]
  | release pid b ready held =>
    refine ⟨order, invariant.ring.setBuf _, invariant.distinct.setBuf rfl rfl, ?_, invariant.recent.setBuf rfl ?_⟩
    · rw [moveTo_moving]
      apply invariant.counted.release _ held
      rw [moving, ready]
      rfl
    · intro other
      rw [lastRelease_snoc]
  | brelse pid b leaves => exact invariant.brelse leaves

theorem run_invariant (ran : runEvents step events initial = .ok s) : ∃ order, Invariant events s order := by
  apply runEvents_invariant (fun events s => ∃ order, Invariant events s order) ⟨_, initial_invariant⟩ _ ran
  intro events s event next holds ran
  obtain ⟨order, invariant⟩ := holds
  exact invariant.step ran

/-- The recycled buffer is unused, and no other unused buffer has been released before it. -/
theorem Invariant.recycled (invariant : Invariant events s order)
    (ran : s.cache.bget dev blockno = .ok (.recycled b, cache)) :
    s.cache.unused b ∧ ∀ other, s.cache.unused other → lastRelease b events ≤ lastRelease other events := by
  obtain ⟨_, other, _⟩ | ⟨hit, same, _, found, _⟩ := invariant.ring.bget_cases ran
  · cases other
  · obtain rfl := Bget.recycled.inj same
    have unused := find?_some found
    refine ⟨unused, ?_⟩
    intro other free
    obtain ⟨later, before, split, missing⟩ := (find?_eq_some_iff_append.mp found).2
    have reversed : order = before.reverse ++ b :: later.reverse := by
      rw [← reverse_reverse order, split]
      simp
    have inside := invariant.ring.all other
    rw [reversed, mem_append, mem_cons, mem_reverse, mem_reverse] at inside
    have zero : ∀ c, s.cache.unused c → (s.cache.buf c).refcnt = 0 := by
      intro c clean
      simp only [Bcache.unused, decide_eq_true_eq] at clean
      exact clean.1
    rcases inside with early | rfl | late
    · have recent := invariant.recent
      rw [Recent, reversed, pairwise_append] at recent
      exact recent.2.2 other (mem_reverse.mpr early) b (.head _) (zero other free) (zero b unused)
    · exact Nat.le_refl _
    · have absent := missing other late
      rw [free] at absent
      cases absent

/-- Only a recycled buffer gets another block. -/
theorem Invariant.keeps_block (invariant : Invariant events s order) (ran : s.step event = .ok next)
    (used : ¬s.cache.unused b) :
    (next.cache.buf b).dev = (s.cache.buf b).dev ∧ (next.cache.buf b).blockno = (s.cache.buf b).blockno := by
  have updated : ∀ (c : Fin NBUF) (buf : Buf), (c = b → buf.dev = (s.cache.buf b).dev ∧
      buf.blockno = (s.cache.buf b).blockno) → ((s.cache.setBuf c buf).buf b).dev =
      (s.cache.buf b).dev ∧ ((s.cache.setBuf c buf).buf b).blockno = (s.cache.buf b).blockno := by
    intro c buf same
    by_cases self : b = c
    · rw [self, setBuf_self, ← self]
      exact same self.symm
    · rw [setBuf_of_ne self]
      exact ⟨rfl, rfl⟩
  cases BufStep.of_step ran with
  | bget pid dev blockno result cache named ready scanned =>
    obtain ⟨hit, _, _, rfl⟩ | ⟨hit, rfl, _, found, rfl⟩ := invariant.ring.bget_cases scanned
    · apply updated
      rintro rfl
      exact ⟨rfl, rfl⟩
    · apply updated
      rintro rfl
      exact absurd (find?_some found) used
  | acquire | change | release =>
    apply updated
    rintro rfl
    exact ⟨rfl, rfl⟩
  | brelse pid c leaves =>
    change ((s.cache.brelse c).buf b).dev = _ ∧ ((s.cache.brelse c).buf b).blockno = _
    rw [brelse_buf]
    apply updated
    rintro rfl
    exact ⟨rfl, rfl⟩

/-- In every interleaving the links form one ring of the head and all buffers and no block is cached twice. A
buffer that is referenced or dirty keeps its block, and a recycled buffer is the least recently released one of
the unused ones. No scan is endless and no reference count falls below zero. -/
theorem bcache_representation (events : List BufEvent) (system : BcacheSystem)
    (ran : runEvents step events initial = .ok system) :
    (∃ order, system.cache.Ring order) ∧
    (∀ a b, (system.cache.buf a).dev ≠ 0 → (system.cache.buf a).dev = (system.cache.buf b).dev →
      (system.cache.buf a).blockno = (system.cache.buf b).blockno → a = b) ∧
    (∀ event next b, system.step event = .ok next →
      0 < (system.cache.buf b).refcnt ∨ (system.cache.buf b).dirty = true →
      (next.cache.buf b).dev = (system.cache.buf b).dev ∧
        (next.cache.buf b).blockno = (system.cache.buf b).blockno) ∧
    (∀ dev blockno b cache, system.cache.bget dev blockno = .ok (.recycled b, cache) →
      (system.cache.buf b).refcnt = 0 ∧ (system.cache.buf b).dirty = false ∧
      ∀ other, (system.cache.buf other).refcnt = 0 → (system.cache.buf other).dirty = false →
        lastRelease b events ≤ lastRelease other events) ∧
    (∀ event, system.step event ≠ .error .endless) ∧
    ∀ pid b, system.place pid = .releasing b → 0 < (system.cache.buf b).refcnt := by
  obtain ⟨order, invariant⟩ := run_invariant ran
  refine ⟨⟨order, invariant.ring⟩, invariant.distinct, ?_, ?_, ?_, ?_⟩
  · intro event next b stepped busy
    apply invariant.keeps_block stepped
    simp only [Bcache.unused, decide_eq_true_eq]
    rintro ⟨zero, clean⟩
    rcases busy with used | dirty
    · omega
    · rw [clean] at dirty
      cases dirty
  · intro dev blockno b cache recycled
    obtain ⟨unused, least⟩ := invariant.recycled recycled
    simp only [Bcache.unused, decide_eq_true_eq] at unused least
    exact ⟨unused.1, unused.2, fun other zero clean => least other ⟨zero, clean⟩⟩
  · intro event halted
    cases event with
    | bget pid dev blockno =>
      simp only [step] at halted
      split at halted
      · cases found : system.cache.bget dev blockno with
        | ok outcome =>
          rw [found] at halted
          cases halted
        | error halt =>
          rw [found] at halted
          cases halted
          exact invariant.ring.bget_ends found
      · cases halted
    | acquiresleep pid =>
      simp only [step, Bcache.acquiresleep] at halted
      split at halted
      · split at halted <;> cases halted
      · cases halted
    | change | brelse =>
      simp only [step] at halted
      split at halted <;> cases halted
    | releasesleep pid b =>
      simp only [step] at halted
      split at halted
      · split at halted
        · cases halted
        · split at halted <;> cases halted
      · cases halted
  · intro pid b leaves
    have moves : system.moving pid = some b := by
      rw [moving, leaves]
      rfl
    have positive := invariant.counted.positive moves
    omega

/-- A process gets a block and releases it. -/
def oneRelease : List BufEvent :=
  [.bget 0 1 7, .acquiresleep 0, .releasesleep 0 ⟨0, by decide⟩, .brelse 0 ⟨0, by decide⟩]

theorem bcache_representation_oneRelease :
    ∃ system, runEvents step oneRelease initial = .ok system ∧ (∃ order, system.cache.Ring order) ∧
      system.cache.Distinct := by
  have observed : (runEvents step oneRelease initial).toOption.map (fun _ => ()) = some () := by
    decide +kernel
  obtain ⟨system, ran, _⟩ := exists_ok_of_observed observed
  obtain ⟨ring, distinct, _⟩ := bcache_representation oneRelease system ran
  exact ⟨system, ran, ring, distinct⟩

end BcacheSystem
end Xv6
