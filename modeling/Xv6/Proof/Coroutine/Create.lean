import Xv6.Proof.Coroutine.Switch

namespace Xv6
open Library List Function Option
open CoMachine (load nextOf coNew tick step run initial)

section Create
variable {Code : Type} {state s next : CoMachine Code} {p stack : Ptr} {co : Coroutine Code} {func back : Code}
  {block : Option (Ptr × Coroutine Code)} {garbage regs : Registers} {blocks : List (Ptr × Ptr)} {event : CoEvent Code}

/-- The host only creates coroutines. -/
inductive IsNew : CoEvent Code → Prop where
  | call (func : Code) (block : Option (Ptr × Coroutine Code)) (stack : Ptr) (garbage regs : Registers)
      (back : Code) : IsNew (.call (.coNew func block stack garbage) regs back)
  | tick : IsNew .tick

/-- A successful call yields the address of its block and the link that the memory of the block held. -/
def createdBlock : CoEvent Code → Option (Ptr × Ptr)
  | .call (.coNew _ (some (co1, contents)) stack _) _ _ => if stack = 0 then none else some (co1, contents.next)
  | _ => none

/-- The created coroutines in creation order, each with the initial contents of its link. -/
def createdBlocks (events : List (CoEvent Code)) : List (Ptr × Ptr) := events.filterMap createdBlock

@[simp] theorem createdBlocks_snoc (events : List (CoEvent Code)) (event : CoEvent Code) :
    createdBlocks (events ++ [event]) = createdBlocks events ++ (createdBlock event).toList := by
  cases created : createdBlock event <;> simp [createdBlocks, created]

/-- A call that returns 0 keeps the head of the list and the links of all created coroutines. -/
def FailureKeepsList (state : CoMachine Code) (event : CoEvent Code) : Prop :=
  ∀ next back, state.step event = .ok next → event ≠ .tick → next.control = .user back (some 0) →
    next.coList = state.coList ∧ ∀ p ∈ state.owned, next.nextOf p = state.nextOf p

/-- The list starts at the first created coroutine, and every link still has its initial contents. -/
structure Created (blocks : List (Ptr × Ptr)) (state : CoMachine Code) : Prop where
  start : state.coList = (blocks.map Prod.fst).headD 0
  owned : ∀ block ∈ blocks, block.1 ∈ state.owned
  nonnull : ∀ block ∈ blocks, block.1 ≠ 0
  links : ∀ block ∈ blocks, state.nextOf block.1 = some block.2
  control : (∃ point value, state.control = .user point value) ∨
    ∃ head co1 back, state.control = .newLoop head co1 back

theorem nextOf_other {q : Ptr} (stored : next.memory = update s.memory p (some co)) (other : q ≠ p) :
    next.nextOf q = s.nextOf q := by
  have same : next.load q = s.load q := by
    rw [load, load, stored, update_of_ne other]
  rw [nextOf, nextOf, same]

theorem nextOf_stored (stored : next.memory = update s.memory p (some co)) (nonnull : p ≠ 0) :
    next.nextOf p = some co.next := by
  rw [nextOf, CoMachine.load_of_ne nonnull, stored, update_self]
  rfl

/-- The new block of a successful call keeps the link of its initial contents. -/
structure NewBlock (state next : CoMachine Code) (co1 : Ptr) (contents : Coroutine Code) : Prop where
  nonnull : co1 ≠ 0
  fresh : co1 ∉ state.owned
  stored : ∃ co, next.memory = Function.update state.memory co1 (some co) ∧ co.next = contents.next

/-- This relation lists everything that a call of `co_new` can do. -/
inductive NewStep (state : CoMachine Code) (block : Option (Ptr × Coroutine Code)) (stack : Ptr) (back : Code) :
    CoMachine Code → Prop where
  | noBlock {next : CoMachine Code} (none : block = none) (same : next.memory = state.memory)
      (owned : next.owned = state.owned) (list : next.coList = state.coList)
      (control : next.control = .user back (some 0)) : NewStep state block stack back next
  | noStack {next : CoMachine Code} {co1 : Ptr} {contents : Coroutine Code} (given : block = some (co1, contents))
      (failed : stack = 0) (new : NewBlock state next co1 contents) (owned : next.owned = state.owned)
      (list : next.coList = state.coList) (control : next.control = .user back (some 0)) :
      NewStep state block stack back next
  | created {next : CoMachine Code} {co1 : Ptr} {contents : Coroutine Code} (given : block = some (co1, contents))
      (allocated : stack ≠ 0) (new : NewBlock state next co1 contents) (owned : next.owned = co1 :: state.owned)
      (list : next.coList = if state.coList = 0 then co1 else state.coList)
      (control : next.control = .user back (some co1) ∨ ∃ head, next.control = .newLoop head co1 back) :
      NewStep state block stack back next

theorem NewStep.of_coNew (ran : s.coNew func block stack garbage back = .ok next) :
    NewStep s block stack back next := by
  unfold coNew at ran
  split at ran
  · cases ran
    exact .noBlock rfl rfl rfl rfl rfl
  case h_2 co1 contents =>
    split at ran
    · cases ran
    case isFalse usable =>
      obtain ⟨nonnull, fresh⟩ := not_or.mp usable
      split at ran
      case isTrue failed =>
        cases ran
        exact .noStack rfl failed ⟨nonnull, fresh, _, rfl, rfl⟩ rfl rfl rfl
      case isFalse allocated =>
        split at ran
        case isTrue empty =>
          cases ran
          exact .created rfl allocated ⟨nonnull, fresh, _, rfl, rfl⟩ rfl (if_pos empty).symm (.inl rfl)
        case isFalse listed =>
          cases ran
          exact .created rfl allocated ⟨nonnull, fresh, _, rfl, rfl⟩ rfl (if_neg listed).symm (.inr ⟨s.coList, rfl⟩)

theorem nextOf_congr (same : next.memory = s.memory) : next.nextOf = s.nextOf := by
  funext p
  rw [nextOf, nextOf, load, load, same]

/-- A call keeps the link of every coroutine that was created before. -/
theorem NewStep.links (step : NewStep s block stack back next) (member : p ∈ s.owned) : next.nextOf p = s.nextOf p := by
  have apart {co1 : Ptr} (fresh : co1 ∉ s.owned) : p ≠ co1 := by
    rintro rfl
    exact fresh member
  cases step with
  | noBlock none same => rw [nextOf_congr same]
  | noStack given failed new | created given allocated new =>
    obtain ⟨co, stored, _⟩ := new.stored
    exact nextOf_other stored (apart new.fresh)

theorem newLoop_tick {head co1 : Ptr} (control : s.control = .newLoop head co1 back) (ran : s.tick = .ok next) :
    ∃ place, next = {s with control := place} ∧
      ((∃ point value, place = .user point value) ∨ ∃ head co1 back, place = .newLoop head co1 back) := by
  simp only [tick, control] at ran
  split at ran
  · cases ran
  · split at ran
    · cases ran
      exact ⟨_, rfl, .inr ⟨_, _, _, rfl⟩⟩
    · cases ran
      exact ⟨_, rfl, .inl ⟨_, _, rfl⟩⟩

theorem Created.call (held : Created blocks s) (step : NewStep s block stack back next) :
    Created (blocks ++ (createdBlock (.call (.coNew func block stack garbage) regs back)).toList) next := by
  have links (old : Ptr × Ptr) (member : old ∈ blocks) : next.nextOf old.1 = some old.2 :=
    (step.links (held.owned old member)).trans (held.links old member)
  cases step with
  | noBlock none same owned list control =>
    subst none
    simp only [createdBlock, toList_none, append_nil]
    exact ⟨list.trans held.start, fun old member => owned ▸ held.owned old member, held.nonnull, links,
      .inl ⟨_, _, control⟩⟩
  | noStack given failed new owned list control =>
    subst given
    simp only [createdBlock, if_pos failed, toList_none, append_nil]
    exact ⟨list.trans held.start, fun old member => owned ▸ held.owned old member, held.nonnull, links,
      .inl ⟨_, _, control⟩⟩
  | @created co1 contents given allocated new owned list control =>
    subst given
    obtain ⟨co, stored, kept⟩ := new.stored
    simp only [createdBlock, if_neg allocated, toList_some]
    constructor
    · rw [list, held.start, map_append]
      cases blocks with
      | nil => rfl
      | cons first rest => exact if_neg (held.nonnull first (.head _))
    · intro old member
      rw [owned]
      rcases mem_append.mp member with before | last
      · exact mem_cons_of_mem co1 (held.owned old before)
      · rw [mem_singleton.mp last]
        exact .head _
    · intro old member
      rcases mem_append.mp member with before | last
      · exact held.nonnull old before
      · rw [mem_singleton.mp last]
        exact new.nonnull
    · intro old member
      rcases mem_append.mp member with before | last
      · exact links old before
      · rw [mem_singleton.mp last, nextOf_stored stored new.nonnull, kept]
    · rcases control with returned | ⟨head, loops⟩
      · exact .inl ⟨_, _, returned⟩
      · exact .inr ⟨_, _, _, loops⟩

/-- Every step of a host that only creates coroutines keeps the initial links. -/
theorem Created.step (held : Created blocks s) (new : IsNew event) (ran : s.step event = .ok next) :
    Created (blocks ++ (createdBlock event).toList) next := by
  cases new with
  | call func block stack garbage regs back =>
    rcases held.control with ⟨point, value, user⟩ | ⟨head, co1, place, loops⟩
    · rw [step_call user] at ran
      have started : Created blocks {s with regs} :=
        ⟨held.start, held.owned, held.nonnull, held.links, held.control⟩
      exact started.call (.of_coNew ran)
    · simp [step, loops] at ran
  | tick =>
    simp only [createdBlock, toList_none, append_nil]
    rcases held.control with ⟨point, value, user⟩ | ⟨head, co1, place, loops⟩
    · simp [step, tick, user] at ran
    · obtain ⟨place, rfl, control⟩ := newLoop_tick loops ran
      exact ⟨held.start, held.owned, held.nonnull, held.links, control⟩

theorem created_run {memory : Ptr → Option (Coroutine Code)} {start : Code} {events : List (CoEvent Code)}
    {last : CoMachine Code} (only : ∀ event ∈ events, IsNew event)
    (ran : run events (initial memory regs start) = .ok last) :
    Created (createdBlocks events) last := by
  revert only
  refine runEvents_invariant (fun events s => (∀ event ∈ events, IsNew event) →
    Created (createdBlocks events) s) ?_ ?_ ran
  · intro _
    exact ⟨rfl, by simp [createdBlocks], by simp [createdBlocks], by simp [createdBlocks], .inl ⟨start, none, rfl⟩⟩
  · intro earlier s event next held stepped only
    rw [createdBlocks_snoc]
    exact (held fun other member => only other (mem_append_left _ member)).step (only event (by simp)) stepped

/-- A call of `co_new` that returns 0 leaves the list unchanged. -/
theorem failureKeepsList (new : IsNew event) : FailureKeepsList s event := by
  intro next back ran called returned
  cases new with
  | tick => exact absurd rfl called
  | call func block stack garbage regs place =>
    simp only [step] at ran
    split at ran
    · have step := NewStep.of_coNew ran
      refine ⟨?_, fun p member => step.links member⟩
      cases step with
      | noBlock none same owned list control | noStack given failed new owned list control => exact list
      | created given allocated new owned list control =>
        exfalso
        rcases control with success | ⟨head, loops⟩
        · rw [returned] at success
          exact new.nonnull (some.inj (CoControl.user.inj success).2).symm
        · rw [returned] at loops
          cases loops
    · cases ran

/-- The live list is the list of created coroutines exactly when each block that `malloc` returned already
held the address of the next block in its link, and the last one held the null pointer. -/
theorem live_list_iff (memory : Ptr → Option (Coroutine Code)) (regs : Registers) (start : Code)
    (events : List (CoEvent Code)) (last : CoMachine Code) (only : ∀ event ∈ events, IsNew event)
    (ran : CoMachine.run events (CoMachine.initial memory regs start) = .ok last) :
    (Linked last.nextOf 0 last.coList ((createdBlocks events).map Prod.fst) ∧
      ∀ earlier event state, earlier ++ [event] <+: events →
        CoMachine.run earlier (CoMachine.initial memory regs start) = .ok state → FailureKeepsList state event) ↔
      Chained 0 (createdBlocks events) := by
  have created := created_run only ran
  have links := linked_iff_chained created.nonnull created.links
  rw [← created.start] at links
  constructor
  · rintro ⟨linked, _⟩
    exact links.mp linked
  · intro chained
    refine ⟨links.mpr chained, fun earlier event state inside _ => failureKeepsList (only event ?_)⟩
    exact inside.subset (by simp)

end Create

/-- The host creates two coroutines in cleared memory. -/
def twoCreations : List (CoEvent Nat) :=
  [.call (.coNew 10 (some (0x1000, ⟨none, 0, 0⟩)) 0x5000 ⟨0, 0, 0, 0, 0, 0⟩) ⟨0, 0, 0, 0, 0, 0⟩ 1,
   .call (.coNew 20 (some (0x2000, ⟨none, 0, 0⟩)) 0x7000 ⟨0, 0, 0, 0, 0, 0⟩) ⟨0, 0, 0, 0, 0, 0⟩ 2, .tick]

theorem twoCreations_new : ∀ event ∈ twoCreations, IsNew event := by
  simp only [twoCreations, forall_mem_cons, not_mem_nil, false_implies, implies_true, and_true]
  exact ⟨.call _ _ _ _ _ _, .call _ _ _ _ _ _, .tick⟩

theorem live_list_iff_two :
    ∃ last, CoMachine.run twoCreations (CoMachine.initial (fun _ => none) ⟨0, 0, 0, 0, 0, 0⟩ 0) = .ok last ∧
      ((Linked last.nextOf 0 last.coList ((createdBlocks twoCreations).map Prod.fst) ∧
        ∀ earlier event state, earlier ++ [event] <+: twoCreations →
          CoMachine.run earlier (CoMachine.initial (fun _ => none) ⟨0, 0, 0, 0, 0, 0⟩ 0) = .ok state →
            FailureKeepsList state event) ↔ Chained 0 (createdBlocks twoCreations)) :=
  ⟨_, rfl, live_list_iff (fun _ => none) ⟨0, 0, 0, 0, 0, 0⟩ 0 twoCreations _ twoCreations_new rfl⟩

/-- The second coroutine is returned to the host but the list ends after the first one. -/
theorem second_creation_unlisted :
    ∃ last, CoMachine.run twoCreations (CoMachine.initial (fun _ => none) ⟨0, 0, 0, 0, 0, 0⟩ 0) = .ok last ∧
      last.control = .user 2 (some 0x2000) ∧ last.coList = 0x1000 ∧ last.nextOf 0x1000 = some 0 ∧
      ¬ Linked last.nextOf 0 last.coList [0x1000, 0x2000] := by
  refine ⟨_, rfl, rfl, rfl, rfl, ?_⟩
  rintro ⟨_, _, q, link, same, _⟩
  have next : q = 0 := (some.inj link).symm
  rw [next] at same
  exact absurd same (by decide)

end Xv6
