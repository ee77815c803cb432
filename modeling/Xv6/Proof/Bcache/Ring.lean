import Xv6.Construction.Bcache

namespace Xv6
open Library Function List Buf
variable {result : Bget} {buf : Buf}

namespace Bcache
variable {cache after : Bcache} {order : List (Fin NBUF)} {b : Fin NBUF} {dev : BitVec 32} {blockno : BlockNo}
  {other : Fin NBUF}

@[simp] theorem setBuf_self (buf : Buf) : (cache.setBuf b buf).buf b = buf := update_self ..

theorem setBuf_of_ne (ne : other ≠ b) (buf : Buf) : (cache.setBuf b buf).buf other = cache.buf other :=
  update_of_ne ne ..

/-- The links form one ring of the head and all buffers. The order starts with the most recently used buffer. -/
structure Ring (cache : Bcache) (order : List (Fin NBUF)) : Prop where
  linked : DoublyLinked cache.next cache.prev none (order.map some)
  all : ∀ b, b ∈ order

theorem Ring.once (ring : cache.Ring order) : order.Nodup :=
  (nodup_cons.mp ring.linked.once).2.of_map

theorem Ring.setBuf (ring : cache.Ring order) (buf : Buf) : (cache.setBuf b buf).Ring order := ⟨ring.linked, ring.all⟩

theorem length_of_nodup (once : order.Nodup) : order.length < NBUF + 1 := by
  have few := once.length_le_card
  rw [Fintype.card_fin] at few
  omega

theorem link_linked (linked : DoublyLinked cache.next cache.prev none (order.map some)) (fresh : b ∉ order) :
    DoublyLinked (cache.link b).next (cache.link b).prev none ((b :: order).map some) := by
  have outside : some b ∉ none :: order.map some := by
    simpa using fresh
  have linked := linked.link outside
  have first : update cache.next (some b) (cache.next none) none = cache.next none :=
    update_of_ne (by simp) ..
  rw [link, first]
  exact linked

theorem unlink_linked {before later : List (Fin NBUF)}
    (linked : DoublyLinked cache.next cache.prev none ((before ++ b :: later).map some)) :
    DoublyLinked (cache.unlink b).next (cache.unlink b).prev none ((before ++ later).map some) := by
  rw [map_append, map_cons] at linked
  have same : update cache.prev (cache.next (some b)) (cache.prev (some b)) (some b) = cache.prev (some b) :=
    update_of_ne linked.next_ne.symm ..
  rw [unlink, same, map_append]
  exact linked.unlink

theorem foldl_link_linked (later : List (Fin NBUF)) (once : (later.reverse ++ order).Nodup)
    (linked : DoublyLinked cache.next cache.prev none (order.map some)) :
    DoublyLinked (later.foldl link cache).next (later.foldl link cache).prev none
      ((later.reverse ++ order).map some) := by
  induction later generalizing cache order with
  | nil => exact linked
  | cons b later ih =>
    rw [reverse_cons, append_assoc] at once ⊢
    have fresh : b ∉ order := by
      grind
    exact ih once (link_linked linked fresh)

/-- The first buffer that is linked is the least recently used one. -/
theorem ring_binit : binit.Ring (finRange NBUF).reverse where
  linked := by
    have alone : DoublyLinked (fun _ => none) (fun _ => none) (none : BufNode) (([] : List (Fin NBUF)).map some) :=
      ⟨rfl, rfl, nodup_singleton none⟩
    have once : ((finRange NBUF).reverse ++ []).Nodup := by
      simpa using nodup_finRange NBUF
    have linked := foldl_link_linked _ once
      (show DoublyLinked (Bcache.mk (fun _ => .zero) (fun _ => none) fun _ => none).next _ none _ from alone)
    rwa [append_nil] at linked
  all b := mem_reverse.mpr (mem_finRange b)

theorem foldl_link_buf (later : List (Fin NBUF)) : (later.foldl link cache).buf = cache.buf := by
  induction later generalizing cache with
  | nil => rfl
  | cons b later ih => exact ih

@[simp] theorem binit_buf (b : Fin NBUF) : binit.buf b = .zero := congrFun (foldl_link_buf _) b

theorem find_map_some (found : Fin NBUF → Bool) (nodes : List (Fin NBUF)) :
    ((nodes.map some).find? fun node => decide (node.all found = true)).getD none = nodes.find? found := by
  induction nodes with
  | nil => rfl
  | cons node rest ih =>
    rw [map_cons, find?_cons, find?_cons, Option.all_some]
    cases found node with
    | true => rfl
    | false => exact ih

section
variable (ring : cache.Ring order)
include ring

/-- The forward scan finds the first buffer in the order. -/
theorem Ring.scan_next (found : Fin NBUF → Bool) :
    search cache.next (fun node => node.all found) (NBUF + 1) (cache.next none) = some (order.find? found) := by
  have enough : (order.map some).length < NBUF + 1 := by
    rw [length_map]
    exact length_of_nodup ring.once
  have scanned : search cache.next (fun node => node.all found) (NBUF + 1) (cache.next none) = _ :=
    ring.linked.forward.search_first rfl enough
  rw [scanned, find_map_some]

/-- The backward scan finds the last buffer in the order. -/
theorem Ring.scan_prev (found : Fin NBUF → Bool) :
    search cache.prev (fun node => node.all found) (NBUF + 1) (cache.prev none) = some (order.reverse.find? found) := by
  have enough : (order.map some).reverse.length < NBUF + 1 := by
    rw [length_reverse, length_map]
    exact length_of_nodup ring.once
  have scanned : search cache.prev (fun node => node.all found) (NBUF + 1) (cache.prev none) = _ :=
    ring.linked.backward.search_first rfl enough
  rw [scanned, ← map_reverse, find_map_some]

/-- The release of the last reference makes a buffer the most recently used one. -/
theorem Ring.brelse : ∃ moved, (cache.brelse b).Ring moved ∧
    moved = if (cache.buf b).refcnt - 1 = 0 then b :: order.erase b else order := by
  refine ⟨_, ?_, rfl⟩
  rw [Bcache.brelse]
  simp only [setBuf_self]
  split
  · obtain ⟨before, later, rfl⟩ := append_of_mem (ring.all b)
    have once := ring.once
    have outside : b ∉ before := by
      grind
    rw [erase_append_right _ outside, erase_cons_head]
    constructor
    · apply link_linked
      · exact unlink_linked ring.linked
      · grind
    · intro other
      have inside := ring.all other
      grind
  · exact ring.setBuf _

/-- The section of `bget` counts a reference to the cached buffer, or it recycles the last unused buffer in the
order when no buffer has the block. -/
theorem Ring.bget_cases (ran : cache.bget dev blockno = .ok (result, after)) :
    (∃ b, result = .cached b ∧ cache.hasBlock dev blockno b ∧
      after = cache.setBuf b {cache.buf b with refcnt := (cache.buf b).refcnt + 1}) ∨
    ∃ b, result = .recycled b ∧ (∀ other, ¬cache.hasBlock dev blockno other) ∧
      order.reverse.find? cache.unused = some b ∧
      after = cache.setBuf b {cache.buf b with dev, blockno, valid := false, dirty := false, refcnt := 1} := by
  rw [bget, ring.scan_next, ring.scan_prev] at ran
  split at ran
  · cases ran
  case h_2 b found =>
    cases ran
    exact .inl ⟨b, rfl, find?_some (Option.some.inj found), rfl⟩
  case h_3 missing =>
    split at ran
    · cases ran
    case h_2 b found =>
      cases ran
      refine .inr ⟨b, rfl, ?_, Option.some.inj found, rfl⟩
      intro other
      exact find?_eq_none.mp (Option.some.inj missing) other (ring.all other)
    · cases ran

theorem Ring.bget_ends : cache.bget dev blockno ≠ .error .endless := by
  rw [bget, ring.scan_next, ring.scan_prev]
  split
  case h_1 never => cases never
  · nofun
  · split
    case h_1 never => cases never
    all_goals nofun

theorem Ring.bget (ran : cache.bget dev blockno = .ok (result, after)) : after.Ring order := by
  obtain ⟨b, _, _, rfl⟩ | ⟨b, _, _, _, rfl⟩ := ring.bget_cases ran <;> exact ring.setBuf _

end

/-- The section of `brelse` only counts a reference less. -/
theorem brelse_buf : (cache.brelse b).buf =
    (cache.setBuf b {cache.buf b with refcnt := (cache.buf b).refcnt - 1}).buf := by
  rw [brelse]
  split <;> rfl

@[simp] theorem brelse_self : (cache.brelse b).buf b = {cache.buf b with refcnt := (cache.buf b).refcnt - 1} := by
  rw [brelse_buf, setBuf_self]

theorem brelse_of_ne (ne : other ≠ b) : (cache.brelse b).buf other = cache.buf other := by
  rw [brelse_buf, setBuf_of_ne ne]

/-- At most one buffer has a given block of a device. -/
def Distinct (cache : Bcache) : Prop :=
  ∀ a b, (cache.buf a).dev ≠ 0 → (cache.buf a).dev = (cache.buf b).dev →
    (cache.buf a).blockno = (cache.buf b).blockno → a = b

variable (distinct : cache.Distinct)
include distinct

theorem Distinct.congr (dev : ∀ b, (after.buf b).dev = (cache.buf b).dev)
    (blockno : ∀ b, (after.buf b).blockno = (cache.buf b).blockno) : after.Distinct := by
  intro first second named sameDev sameBlock
  rw [dev] at named
  rw [dev, dev] at sameDev
  rw [blockno, blockno] at sameBlock
  exact distinct first second named sameDev sameBlock

theorem Distinct.setBuf (dev : buf.dev = (cache.buf b).dev) (blockno : buf.blockno = (cache.buf b).blockno) :
    (cache.setBuf b buf).Distinct := by
  apply distinct.congr
  · intro other
    by_cases same : other = b
    · rw [same, setBuf_self, dev]
    · rw [setBuf_of_ne same]
  · intro other
    by_cases same : other = b
    · rw [same, setBuf_self, blockno]
    · rw [setBuf_of_ne same]

/-- A buffer may get a block that no buffer has. -/
theorem Distinct.recycle (missing : ∀ other, ¬cache.hasBlock buf.dev buf.blockno other) :
    (cache.setBuf b buf).Distinct := by
  intro first second named sameDev sameBlock
  by_cases one : first = b
  · by_cases two : second = b
    · rw [one, two]
    · rw [one, setBuf_self, setBuf_of_ne two] at sameDev sameBlock
      exact absurd (by simp [hasBlock, sameDev, sameBlock]) (missing second)
  · rw [setBuf_of_ne one] at named sameDev sameBlock
    by_cases two : second = b
    · rw [two, setBuf_self] at sameDev sameBlock
      exact absurd (by simp [hasBlock, sameDev, sameBlock]) (missing first)
    · rw [setBuf_of_ne two] at sameDev sameBlock
      exact distinct first second named sameDev sameBlock

theorem Distinct.bget (ring : cache.Ring order) (ran : cache.bget dev blockno = .ok (result, after)) :
    after.Distinct := by
  obtain ⟨b, _, _, rfl⟩ | ⟨b, _, missing, _, rfl⟩ := ring.bget_cases ran
  · exact distinct.setBuf rfl rfl
  · exact distinct.recycle missing

theorem Distinct.brelse : (cache.brelse b).Distinct := by
  have counted : (cache.setBuf b {cache.buf b with refcnt := (cache.buf b).refcnt - 1}).Distinct :=
    distinct.setBuf rfl rfl
  apply counted.congr
  all_goals
    intro other
    rw [brelse_buf]

end Bcache

/-- The holder of the sleep lock has one reference. -/
def Buf.locks (buf : Buf) : Nat := if buf.holder = none then 0 else 1

namespace Bcache
variable {cache after : Bcache} {order : List (Fin NBUF)} {b : Fin NBUF} {dev : BitVec 32} {blockno : BlockNo}
  {moving : Nat → Option (Fin NBUF)} {pid : Nat}

/-- The reference count is the number of processes that move to or from the buffer and of its holder. -/
def Counted (cache : Bcache) (moving : Nat → Option (Fin NBUF)) : Prop :=
  ∀ b, ∃ movers : Finset Nat, (∀ pid, pid ∈ movers ↔ moving pid = some b) ∧
    (cache.buf b).refcnt = movers.card + (cache.buf b).locks

section
variable (counted : cache.Counted moving)
include counted

theorem Counted.positive (moves : moving pid = some b) : (cache.buf b).locks < (cache.buf b).refcnt := by
  obtain ⟨movers, members, count⟩ := counted b
  have some : 0 < movers.card := Finset.card_pos.mpr ⟨pid, (members pid).mpr moves⟩
  omega

/-- A buffer without references has no holder and no process moves to or from it. -/
theorem Counted.idle (unused : (cache.buf b).refcnt = 0) :
    (cache.buf b).holder = none ∧ ∀ pid, moving pid ≠ some b := by
  obtain ⟨movers, members, count⟩ := counted b
  have nobody : movers = ∅ := Finset.card_eq_zero.mp (by omega)
  have free : (cache.buf b).locks = 0 := by
    omega
  constructor
  · by_contra held
    rw [locks, if_neg held] at free
    cases free
  · intro pid moves
    have member := (members pid).mpr moves
    rw [nobody] at member
    exact absurd member (Finset.notMem_empty pid)

/-- The count grows with a process that starts to move. -/
theorem Counted.enter (ready : moving pid = none)
    (others : ∀ other ≠ b, (after.buf other).refcnt = (cache.buf other).refcnt ∧
      (after.buf other).holder = (cache.buf other).holder)
    (grows : (after.buf b).refcnt + (cache.buf b).locks = (cache.buf b).refcnt + (after.buf b).locks + 1) :
    after.Counted (update moving pid (some b)) := by
  intro c
  obtain ⟨movers, members, count⟩ := counted c
  by_cases same : c = b
  · subst same
    have fresh : pid ∉ movers := by
      rw [members, ready]
      nofun
    refine ⟨insert pid movers, ?_, ?_⟩
    · intro other
      rw [Finset.mem_insert, members]
      by_cases self : other = pid <;> simp [self]
    · rw [Finset.card_insert_of_notMem fresh]
      omega
  · obtain ⟨sameCount, sameHolder⟩ := others c same
    refine ⟨movers, ?_, ?_⟩
    · intro other
      rw [members]
      by_cases self : other = pid
      · simp [self, ready, Ne.symm same]
      · simp [self]
    · rw [sameCount, count, locks, locks, sameHolder]

/-- The count falls with a process that stops to move. -/
theorem Counted.leave (moves : moving pid = some b)
    (others : ∀ other ≠ b, (after.buf other).refcnt = (cache.buf other).refcnt ∧
      (after.buf other).holder = (cache.buf other).holder)
    (falls : (after.buf b).refcnt + (cache.buf b).locks + 1 = (cache.buf b).refcnt + (after.buf b).locks) :
    after.Counted (update moving pid none) := by
  intro c
  obtain ⟨movers, members, count⟩ := counted c
  by_cases same : c = b
  · subst same
    have inside : pid ∈ movers := (members pid).mpr moves
    refine ⟨movers.erase pid, ?_, ?_⟩
    · intro other
      rw [Finset.mem_erase, members]
      by_cases self : other = pid <;> simp [self]
    · rw [Finset.card_erase_of_mem inside]
      have some : 0 < movers.card := Finset.card_pos.mpr ⟨pid, inside⟩
      omega
  · obtain ⟨sameCount, sameHolder⟩ := others c same
    refine ⟨movers, ?_, ?_⟩
    · intro other
      rw [members]
      by_cases self : other = pid
      · simp [self, moves, Ne.symm same]
      · simp [self]
    · rw [sameCount, count, locks, locks, sameHolder]

end

theorem setBuf_others (buf : Buf) : ∀ other ≠ b, ((cache.setBuf b buf).buf other).refcnt = (cache.buf other).refcnt ∧
    ((cache.setBuf b buf).buf other).holder = (cache.buf other).holder := by
  intro other ne
  rw [setBuf_of_ne ne]
  exact ⟨rfl, rfl⟩

section
variable (counted : cache.Counted moving)
include counted

theorem Counted.bget (ring : cache.Ring order) (ready : moving pid = none)
    (ran : cache.bget dev blockno = .ok (result, after)) : after.Counted (update moving pid (some result.buf)) := by
  obtain ⟨b, rfl, _, rfl⟩ | ⟨b, rfl, _, found, rfl⟩ := ring.bget_cases ran
  · apply counted.enter ready (setBuf_others _)
    simp [locks]
    omega
  · have unused := find?_some found
    have zero : (cache.buf b).refcnt = 0 := by
      simp only [Bcache.unused, decide_eq_true_eq] at unused
      exact unused.1
    apply counted.enter ready (setBuf_others _)
    simp [locks, zero]
    omega

theorem Counted.acquire (moves : moving pid = some b) (free : (cache.buf b).holder = none) :
    (cache.setBuf b {cache.buf b with holder := some pid}).Counted (update moving pid none) := by
  apply counted.leave moves (setBuf_others _)
  simp [locks, free]

theorem Counted.release (ready : moving pid = none) (held : (cache.buf b).holder = some pid) :
    (cache.releasesleep b).Counted (update moving pid (some b)) := by
  apply counted.enter ready (setBuf_others _)
  simp [locks, held]

theorem Counted.brelse (moves : moving pid = some b) : (cache.brelse b).Counted (update moving pid none) := by
  have positive := counted.positive moves
  apply counted.leave moves
  · intro other ne
    rw [brelse_of_ne ne]
    exact ⟨rfl, rfl⟩
  · rw [brelse_self]
    simp only [locks] at positive ⊢
    omega

theorem Counted.setBuf (refcnt : buf.refcnt = (cache.buf b).refcnt) (holder : buf.holder = (cache.buf b).holder) :
    (cache.setBuf b buf).Counted moving := by
  intro other
  obtain ⟨movers, members, count⟩ := counted other
  refine ⟨movers, members, ?_⟩
  by_cases same : other = b
  · rw [same] at count ⊢
    rw [setBuf_self, refcnt, count, locks, locks, holder]
  · rw [setBuf_of_ne same]
    exact count

end

theorem counted_binit : binit.Counted fun _ => none := by
  intro b
  refine ⟨∅, ?_, ?_⟩
  · simp
  · simp [zero, locks]

theorem distinct_binit : binit.Distinct := by
  intro a b named
  simp [zero] at named

end Bcache
end Xv6
