import Xv6.Proof.Coroutine.Switch

namespace Xv6
open Library CoMachine List

section RoundRobin
variable {Code : Type} {nodes : List Ptr} {state s : CoMachine Code} {p : Ptr}

/-- In a round the host calls `co_run` and each resumed coroutine later calls `co_yield`. -/
structure CoRound (Code : Type) where
  regs : Registers
  back : Code
  yields : List (Registers × Code)

def yieldEvent (point : Registers × Code) : CoEvent Code := .call .coYield point.1 point.2

def CoRound.events (round : CoRound Code) : List (CoEvent Code) :=
  .call .coRun round.regs round.back :: round.yields.map yieldEvent

/-- Each coroutine continues where its saved context stands. -/
def CoMachine.savedViews (state : CoMachine Code) (nodes : List Ptr) : List (CoView Code) :=
  nodes.filterMap fun p => (state.contextOf p).map fun context =>
    ⟨.co p, context.regs, context.rip.control, p, state.coList⟩

/-- Each coroutine continues where it called `co_yield`. -/
def yieldViews (coList : Ptr) (nodes : List Ptr) (yields : List (Registers × Code)) : List (CoView Code) :=
  (nodes.zip yields).map fun turn => ⟨.co turn.1, turn.2.1, .user turn.2.2 none, turn.1, coList⟩

/-- At the end of a round `co_run` returns 1 to the host. -/
def CoRound.hostView (coList : Ptr) (round : CoRound Code) : CoView Code :=
  ⟨.host, round.regs, .user round.back (some 1), 0, coList⟩

/-- Every round visits the coroutines in list order at the points of the round before. -/
def roundViews (coList : Ptr) (nodes : List Ptr) :
    List (CoView Code) → List (CoRound Code) → List (CoView Code)
  | _, [] => []
  | points, round :: rest =>
    points ++ round.hostView coList :: roundViews coList nodes (yieldViews coList nodes round.yields) rest

theorem savedViews_congr {first second : CoMachine Code}
    (same : ∀ p ∈ nodes, first.contextOf p = second.contextOf p) (list : first.coList = second.coList) :
    first.savedViews nodes = second.savedViews nodes := by
  apply filterMap_congr
  intro p member
  rw [same p member, list]

theorem savedViews_cons {rest : List Ptr} {context : CoContext Code} (found : s.contextOf p = some context) :
    s.savedViews (p :: rest) = ⟨.co p, context.regs, context.rip.control, p, s.coList⟩ :: s.savedViews rest := by
  simp [savedViews, found]

/-- From the turn of one coroutine the calls of `co_yield` run the rest of the list and end at the host. -/
theorem CoTurn.yields {before after : List Ptr} {host : CoContext Code}
    (turn : CoTurn s (before ++ p :: after) p host) (user : ∃ point, s.control = .user point none)
    {yields : List (Registers × Code)} (count : yields.length = after.length + 1) :
    ∃ last, observeEvents step view (yields.map yieldEvent) s =
        .ok (s.savedViews after ++ [⟨.host, host.regs, host.rip.control, 0, s.coList⟩], last) ∧
      CoReady last (before ++ p :: after) ∧
      last.view = ⟨.host, host.regs, host.rip.control, 0, s.coList⟩ ∧
      last.savedViews (p :: after) = yieldViews s.coList (p :: after) yields ∧
      ∀ q, q ∉ p :: after → last.contextOf q = s.contextOf q := by
  obtain ⟨place, inUser⟩ := user
  induction after generalizing s before p place yields with
  | nil =>
    obtain ⟨point, rfl⟩ : ∃ point, yields = [point] := length_eq_one_iff.mp count
    obtain ⟨last, stepped, seen, ready, contexts⟩ := turn.step_last inUser point.1 point.2
    have list : last.coList = s.coList := congrArg CoView.coList seen
    refine ⟨last, ?_, ready, seen, ?_, fun q outside => ?_⟩
    · rw [← seen]
      exact observeEvents_cons stepped rfl
    · rw [savedViews_cons ((contexts p).trans (if_pos rfl)), list]
      rfl
    · rw [contexts q, if_neg (by simpa using outside)]
  | cons following after ih =>
    obtain ⟨point, rest, rfl⟩ : ∃ point rest, yields = point :: rest := exists_cons_of_length_eq_add_one count
    obtain ⟨next, context, stepped, found, ⟨entry, inUserNext⟩, seen, nextTurn, contexts⟩ :=
      turn.step_next inUser point.1 point.2
    have list : next.coList = s.coList := congrArg CoView.coList seen
    have control : next.control = .user entry none := (congrArg CoView.control seen).trans inUserNext
    have distinct := (nodup_append.mp turn.ready.distinct).2.1
    have regrouped : before ++ p :: following :: after = (before ++ [p]) ++ following :: after := by simp
    rw [regrouped] at nextTurn
    obtain ⟨last, further, ready, final, points, kept⟩ :=
      ih nextTurn (Nat.succ.inj count) entry control
    have absent : p ∉ following :: after := (nodup_cons.mp distinct).1
    have saved : s.savedViews (following :: after) = next.view :: next.savedViews after := by
      rw [savedViews_cons found, seen]
      congr 1
      refine savedViews_congr (fun q inside => ?_) list.symm
      have ne : q ≠ p := by
        rintro rfl
        exact absent (mem_cons_of_mem following inside)
      rw [contexts q, if_neg ne]
    refine ⟨last, ?_, regrouped ▸ ready, list ▸ final, ?_, fun q outside => ?_⟩
    · rw [saved, cons_append, ← list]
      exact observeEvents_cons stepped further
    · have stored : last.contextOf p = some ⟨.co p, s.saves, point.1, .coYield point.2⟩ := by
        rw [kept p absent, contexts p, if_pos rfl]
      have lastList : last.coList = s.coList := (congrArg CoView.coList final).trans list
      rw [savedViews_cons stored, points, list, lastList]
      rfl
    · have ne : q ≠ p := by
        rintro rfl
        exact outside mem_cons_self
      rw [kept q fun inside => outside (mem_cons_of_mem p inside), contexts q, if_neg ne]

/-- One call of `co_run` gives every coroutine one turn in list order and returns 1. -/
theorem CoReady.round (ready : CoReady s nodes) (nonempty : nodes ≠ []) (host : s.running = .host)
    (user : ∃ point value, s.control = .user point value) {round : CoRound Code}
    (count : round.yields.length = nodes.length) :
    ∃ last, observeEvents step view round.events s =
        .ok (s.savedViews nodes ++ [round.hostView s.coList], last) ∧
      CoReady last nodes ∧ last.view = round.hostView s.coList ∧
      last.savedViews nodes = yieldViews s.coList nodes round.yields := by
  obtain ⟨first, rest, rfl⟩ := exists_cons_of_ne_nil nonempty
  obtain ⟨point, value, inUser⟩ := user
  have started := (ready.setRegs round.regs).runFirst host (.coRun round.back)
  obtain ⟨next, context, ran, found, ⟨entry, inUserNext⟩, seen, turn, contexts⟩ := started
  change s.contextOf first = some context at found
  have listed : s.coList ≠ 0 := by
    rw [ready.linked.start]
    exact ready.linked.ne_null mem_cons_self
  have stepped : s.step (.call .coRun round.regs round.back) = .ok next := by
    rw [step_call inUser]
    change (if s.coList ≠ 0 then _ else _) = _
    rw [if_pos listed]
    exact ran
  have list : next.coList = s.coList := congrArg CoView.coList seen
  have control : next.control = .user entry none := (congrArg CoView.control seen).trans inUserNext
  have whole : CoTurn next ([] ++ first :: rest) first _ := turn
  obtain ⟨last, further, final, lastView, points, _⟩ := whole.yields ⟨entry, control⟩ count
  refine ⟨last, ?_, final, list ▸ lastView, list ▸ points⟩
  have saved : s.savedViews (first :: rest) = next.view :: next.savedViews rest := by
    rw [savedViews_cons found, seen]
    congr 1
    exact savedViews_congr (fun q _ => (congrFun contexts q).symm) list.symm
  rw [saved, cons_append]
  rw [list] at further
  exact observeEvents_cons stepped further

/-- Any number of calls of `co_run` resume all coroutines in list order, each at the point where it last
yielded, and return 1 with the list unchanged and no current coroutine. -/
theorem round_robin (state : CoMachine Code) (nodes : List Ptr) (rounds : List (CoRound Code))
    (ready : CoReady state nodes) (nonempty : nodes ≠ []) (host : state.running = .host)
    (user : ∃ point value, state.control = .user point value)
    (full : ∀ round ∈ rounds, round.yields.length = nodes.length) :
    ∃ last, observeEvents CoMachine.step CoMachine.view (rounds.flatMap CoRound.events) state =
        .ok (roundViews state.coList nodes (state.savedViews nodes) rounds, last) ∧
      CoReady last nodes ∧ last.running = .host ∧ last.coList = state.coList := by
  induction rounds generalizing state with
  | nil => exact ⟨state, rfl, ready, host, rfl⟩
  | cons round rest ih =>
    obtain ⟨middle, ran, middleReady, view, points⟩ :=
      ready.round nonempty host user (full round (.head _))
    have list : middle.coList = state.coList := congrArg CoView.coList view
    have control : middle.control = .user round.back (some 1) := congrArg CoView.control view
    obtain ⟨last, further, lastReady, lastHost, lastList⟩ :=
      ih middle middleReady (congrArg CoView.thread view) ⟨_, _, control⟩
        fun other member => full other (mem_cons_of_mem round member)
    refine ⟨last, ?_, lastReady, lastHost, lastList.trans list⟩
    rw [points, list] at further
    rw [flatMap_cons, roundViews]
    have joined := observeEvents_append ran further
    rwa [append_assoc] at joined

end RoundRobin

/-- These are two turns of the host and of both coroutines. -/
def pairRounds : List (CoRound Nat) :=
  [⟨⟨0, 0, 0, 0, 0, 0⟩, 1, [(⟨3, 3, 3, 3, 3, 3⟩, 11), (⟨4, 4, 4, 4, 4, 4⟩, 21)]⟩,
   ⟨⟨0, 0, 0, 0, 0, 0⟩, 2, [(⟨5, 5, 5, 5, 5, 5⟩, 12), (⟨6, 6, 6, 6, 6, 6⟩, 22)]⟩]

theorem round_robin_two_rounds :
    ∃ last, observeEvents CoMachine.step CoMachine.view (pairRounds.flatMap CoRound.events) pairMachine =
        .ok (roundViews 0x1000 [0x1000, 0x2000] (pairMachine.savedViews [0x1000, 0x2000]) pairRounds, last) ∧
      CoReady last [0x1000, 0x2000] ∧ last.running = .host ∧ last.coList = 0x1000 :=
  round_robin pairMachine [0x1000, 0x2000] pairRounds pairMachine_ready (by simp) rfl ⟨0, none, rfl⟩
    (by simp [pairRounds])

end Xv6
