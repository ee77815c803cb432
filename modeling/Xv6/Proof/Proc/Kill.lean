import Xv6.Proof.Proc.Steps

namespace Xv6
open Library List

/-- A search through the numbers below a bound finds the first match. -/
theorem find?_finRange_eq_some {n : Nat} {test : Fin n → Bool} {p : Fin n} :
    (finRange n).find? test = some p ↔ test p = true ∧ ∀ q < p, test q = false := by
  rw [find?_eq_some_iff_getElem]
  constructor
  · rintro ⟨here, index, inside, found, before⟩
    rw [getElem_finRange] at found
    refine ⟨here, ?_⟩
    intro q less
    have position : q.val < index := by
      rw [← found] at less
      exact less
    have earlier := before q.val position
    rw [getElem_finRange] at earlier
    exact Bool.not_eq_true' _ ▸ earlier
  · rintro ⟨here, before⟩
    refine ⟨here, p.val, by rw [length_finRange]; exact p.isLt, getElem_finRange .., ?_⟩
    intro index less
    rw [getElem_finRange]
    exact Bool.not_eq_true' _ ▸ before _ less

namespace Ptable
variable {table next : Ptable} {p : Fin NPROC} {pid : BitVec 32}

/-- The first slot with the number is not in use. -/
def HitsUnused (table : Ptable) (pid : BitVec 32) : Prop :=
  ∃ p, (table.proc p).pid = pid ∧ (table.proc p).state = .unused ∧ ∀ q < p, (table.proc q).pid ≠ pid

/-- A call of `kill` succeeds exactly if a process in use has the number. It sets the flag of this process only, and it
changes nothing otherwise. -/
structure KillsExactly (table : Ptable) (pid : BitVec 32) : Prop where
  found : (table.kill pid).1 = 0 ↔ ∃ p, (table.proc p).state ≠ .unused ∧ (table.proc p).pid = pid
  killed : (table.kill pid).1 = 0 → ∃ p, (table.proc p).state ≠ .unused ∧ (table.proc p).pid = pid ∧
    ((table.kill pid).2.proc p).killed = true ∧ ∀ q ≠ p, (table.kill pid).2.proc q = table.proc q
  missing : (table.kill pid).1 ≠ 0 → table.kill pid = (-1, table)

/-- No slot that `allocproc` can hand out has its flag set. -/
def Clean (table : Ptable) : Prop := ∀ p, (table.proc p).state = .unused → (table.proc p).killed = false

/-- The call finds the first slot with the number. -/
theorem kill_first (same : (table.proc p).pid = pid) (first : ∀ q < p, (table.proc q).pid ≠ pid) :
    table.kill pid = (0, table.set p {table.proc p with
      killed := true
      state := if (table.proc p).state = .sleeping then .runnable else (table.proc p).state}) := by
  have found : (finRange NPROC).find? (fun p => (table.proc p).pid = pid) = some p := by
    rw [find?_finRange_eq_some]
    exact ⟨decide_eq_true same, fun q less => decide_eq_false (first q less)⟩
  rw [kill, found]

theorem kill_missing (absent : ∀ p, (table.proc p).pid ≠ pid) : table.kill pid = (-1, table) := by
  have missing : (finRange NPROC).find? (fun p => (table.proc p).pid = pid) = none := by
    rw [find?_eq_none]
    intro p _
    rw [decide_eq_true_eq]
    exact absent p
  rw [kill, missing]

/-- Some slot has the number first, or no slot has it. -/
theorem kill_cases (table : Ptable) (pid : BitVec 32) :
    (∃ p, (table.proc p).pid = pid ∧ ∀ q < p, (table.proc q).pid ≠ pid) ∨ ∀ p, (table.proc p).pid ≠ pid := by
  cases search : (finRange NPROC).find? (fun p => decide ((table.proc p).pid = pid)) with
  | some p =>
    left
    obtain ⟨same, first⟩ := find?_finRange_eq_some.mp search
    exact ⟨p, of_decide_eq_true same, fun q less => of_decide_eq_false (first q less)⟩
  | none =>
    right
    intro p same
    exact find?_eq_none.mp search p (mem_finRange p) (decide_eq_true same)

theorem minus_one_ne : (-1 : BitVec 32) ≠ 0 := by decide

variable (clean : table.Clean)
include clean

/-- The call is exact unless the first slot with the number is not in use. -/
theorem killsExactly_iff : table.KillsExactly pid ↔ ¬table.HitsUnused pid := by
  constructor
  · rintro exactly ⟨p, same, unused, first⟩
    have result := kill_first same first
    obtain ⟨q, used, _, _, others⟩ := exactly.killed (by rw [result])
    have ne : p ≠ q := by
      rintro rfl
      exact used unused
    have unchanged := congrArg ProcSlot.killed (others p ne)
    rw [result, set_self, clean p unused] at unchanged
    cases unchanged
  · intro used
    rcases kill_cases table pid with ⟨p, same, first⟩ | absent
    · have live : (table.proc p).state ≠ .unused := fun unused => used ⟨p, same, unused, first⟩
      have result := kill_first same first
      refine ⟨?_, ?_, ?_⟩
      · rw [result]
        exact iff_of_true rfl ⟨p, live, same⟩
      · intro _
        rw [result]
        refine ⟨p, live, same, ?_, ?_⟩
        · rw [set_self]
        · intro q ne
          exact set_of_ne _ ne
      · intro failed
        rw [result] at failed
        exact absurd rfl failed
    · have result := kill_missing absent
      refine ⟨?_, ?_, fun _ => result⟩
      · rw [result]
        apply iff_of_false
        · exact fun zero => absurd zero minus_one_ne
        · rintro ⟨p, _, same⟩
          exact absent p same
      · intro succeeded
        rw [result] at succeeded
        exact absurd succeeded minus_one_ne

/-- A step that frees a slot only with its flag clear and sets no flag of a free slot keeps the table clean. -/
theorem Clean.mono (kept : ∀ q, (next.proc q).state = .unused → (next.proc q).killed = true →
      (table.proc q).state = .unused ∧ (table.proc q).killed = true) : next.Clean := by
  intro q unused
  by_contra flag
  obtain ⟨before, set⟩ := kept q unused (Bool.eq_true_of_not_eq_false flag)
  rw [clean q before] at set
  cases set

theorem Clean.set {value : ProcSlot} (flag : value.state = .unused → value.killed = false) :
    (table.set p value).Clean := by
  intro q unused
  by_cases same : q = p
  · rw [same, set_self] at unused ⊢
    exact flag unused
  · rw [set_of_ne _ same] at unused ⊢
    exact clean q unused

theorem Clean.wakeup1 (chan : Chan) : (table.wakeup1 chan).Clean := by
  apply clean.mono
  intro q
  rw [wakeup1_proc, roused]
  split
  · simp
  · exact fun unused set => ⟨unused, set⟩

theorem Clean.exit (initproc p : Fin NPROC) : (table.exit initproc p).Clean := by
  apply clean.mono
  intro q
  rw [exit_proc]
  split
  · simp
  · rw [roused]
    split
    · simp
    · rw [handed, roused]
      split
      · simp
      · exact fun unused set => ⟨unused, set⟩

theorem Clean.kill (used : ¬table.HitsUnused pid) : (table.kill pid).2.Clean := by
  rcases kill_cases table pid with ⟨p, same, first⟩ | absent
  · have live : (table.proc p).state ≠ .unused := fun unused => used ⟨p, same, unused, first⟩
    rw [kill_first same first]
    apply clean.set
    intro unused
    split at unused
    · cases unused
    · exact absurd unused live
  · rw [kill_missing absent]
    exact clean

/-- A slot that `allocproc` takes from a clean table has its flag clear. -/
theorem Clean.allocproc (found : table.allocproc = some (p, next)) : (next.proc p).killed = false := by
  obtain ⟨unused, rfl⟩ := allocproc_some found
  rw [take]
  rw [set_self]
  exact clean p unused

end Ptable

namespace ProcSystem
variable {system s next : ProcSystem} {p : Fin NPROC} {event : ProcEvent}

/-- A call of `kill` finds a slot that is not in use, or a `fork` fails after its new process has been killed. -/
def Spoils (system : ProcSystem) : ProcEvent → Prop
  | .run _ (.kill pid) => system.table.HitsUnused pid
  | .run p (.kalloc false) | .run p (.copyuvm false) =>
    ∃ np, (system.place p).forks = some np ∧ (system.table.proc np).killed = true
  | _ => False

section
variable (clean : s.table.Clean)
include clean

theorem wait_clean : (s.wait p).table.Clean := by
  rcases wait_cases s p with ⟨child, _, ended⟩ | failed | ⟨_, sleeps⟩
  · rw [ended]
    exact clean.set fun _ => rfl
  · rw [failed]
    exact clean
  · rw [sleeps]
    exact clean.set nofun

theorem schedule_clean : (s.schedule p).table.Clean := by
  have running : (s.table.setState p .running).Clean := clean.set (by simp)
  have tidy : ((s.table.setState p .running).tidy p).Clean := by
    apply running.set
    rw [Ptable.setState, Ptable.set_self]
    simp
  rw [schedule]
  split
  · exact wait_clean tidy
  · exact tidy
  · exact tidy
  · exact running

theorem act_clean {act : ProcAct} (calm : ¬s.Spoils (.run p act))
    (ran : s.act p act (s.place p) = .ok next) : next.table.Clean := by
  unfold ProcSystem.act at ran
  split at ran
  case h_1 here =>
    cases ran
    rw [fork]
    split
    · exact clean
    · next found =>
        obtain ⟨_, rfl⟩ := Ptable.allocproc_some found
        exact clean.set nofun
  case h_2 here => exact Except.ok.inj ran ▸ clean
  case h_3 np here =>
    cases ran
    apply clean.set
    intro _
    by_contra flag
    exact calm ⟨np, by rw [here]; rfl, Bool.eq_true_of_not_eq_false flag⟩
  case h_4 here =>
    cases ran
    exact clean.set fun unused => clean _ unused
  case h_5 np here =>
    cases ran
    apply clean.set
    intro _
    by_contra flag
    exact calm ⟨np, by rw [here]; rfl, Bool.eq_true_of_not_eq_false flag⟩
  case h_6 here =>
    cases ran
    exact clean.set nofun
  case h_7 here =>
    split at ran
    · cases ran
    · exact Except.ok.inj ran ▸ clean
  case h_8 here =>
    cases ran
    exact clean.exit _ _
  case h_9 here =>
    cases ran
    exact wait_clean clean
  case h_10 here =>
    cases ran
    exact clean.kill calm
  case h_11 here =>
    cases ran
    exact clean.set nofun
  case h_12 here =>
    cases ran
    exact clean.set nofun
  case h_13 =>
    cases ran
    exact clean.set nofun
  case h_14 => cases ran

theorem step_clean (calm : ¬s.Spoils event) (stepped : s.step event = .ok next) : next.table.Clean := by
  cases event with
  | run p act =>
    rw [step] at stepped
    split at stepped
    · exact act_clean clean calm stepped
    · cases stepped
  | wakeup addr =>
    cases stepped
    exact clean.wakeup1 _
  | schedule p =>
    rw [step] at stepped
    split at stepped
    · cases stepped
      exact schedule_clean clean
    · cases stepped

end

theorem initial_clean : initial.table.Clean := by
  apply Ptable.Clean.set
  · intro _ _
    rfl
  · exact nofun

theorem interleave_clean {events : List ProcEvent}
    (calm : ∀ earlier event state, earlier ++ [event] <+: events → interleave earlier = .ok state →
      ¬state.Spoils event) (ran : interleave events = .ok s) : s.table.Clean := by
  induction events using reverseRecOn generalizing s with
  | nil =>
    cases ran
    exact initial_clean
  | append_singleton events event ih =>
    obtain ⟨middle, reached, stepped⟩ := runEvents_snoc.mp ran
    have clean := ih (fun earlier event state inside => calm earlier event state
      (inside.trans (prefix_append _ _))) reached
    exact step_clean clean (calm events event middle (prefix_refl _) reached) stepped

/-- In a run in which no `kill` finds a free slot and no `fork` fails after its new process has been killed, a call of
`kill` is exact exactly when it finds no free slot, and every new process starts with its flag clear. -/
theorem kill_exact_iff {events : List ProcEvent}
    (calm : ∀ earlier event state, earlier ++ [event] <+: events → interleave earlier = .ok state →
      ¬state.Spoils event) (ran : interleave events = .ok system) :
    (∀ pid, system.table.KillsExactly pid ↔ ¬system.table.HitsUnused pid) ∧
      ∀ p taken, system.table.allocproc = some (p, taken) → (taken.proc p).killed = false := by
  have clean := interleave_clean calm ran
  refine ⟨fun pid => Ptable.killsExactly_iff clean, ?_⟩
  intro p taken found
  exact clean.allocproc found

/-- The first process forks, and the new process can be killed. -/
def forkedProcess : List ProcEvent :=
  [.schedule firstSlot, .run firstSlot .fork, .run firstSlot (.kalloc true), .run firstSlot (.copyuvm true),
    .run firstSlot .start]

theorem kill_exact_iff_forkedProcess :
    ∃ system, interleave forkedProcess = .ok system ∧
      (system.table.KillsExactly 2 ↔ ¬system.table.HitsUnused 2) ∧ ¬system.table.HitsUnused 2 := by
  have observed : (interleave forkedProcess).toOption.map (fun system =>
      decide (∀ p, (system.table.proc p).pid = 2 → (system.table.proc p).state ≠ .unused)) = some true := by
    decide +kernel
  obtain ⟨system, ran, used⟩ := exists_ok_of_observed observed
  have calm : ∀ earlier event state, earlier ++ [event] <+: forkedProcess → interleave earlier = .ok state →
      ¬state.Spoils event := by
    intro earlier event state inside _
    have member : event ∈ forkedProcess := inside.subset (mem_append_right _ (mem_singleton_self _))
    simp only [forkedProcess, mem_cons, not_mem_nil, or_false] at member
    rcases member with rfl | rfl | rfl | rfl | rfl <;> exact id
  refine ⟨system, ran, (kill_exact_iff calm ran).1 2, ?_⟩
  rintro ⟨p, same, unused, _⟩
  exact of_decide_eq_true used p same unused

/-- A call of `kill` with the number 0 succeeds on a free slot, and the next new process starts with its flag set. -/
theorem kill_zero_hits_unused :
    ∃ before after, interleave [.schedule firstSlot] = .ok before ∧ ¬before.table.KillsExactly 0 ∧
      interleave [.schedule firstSlot, .run firstSlot (.kill 0), .run firstSlot .fork] = .ok after ∧
      (after.table.proc ⟨1, by decide⟩).state = .embryo ∧ (after.table.proc ⟨1, by decide⟩).killed = true := by
  have first : (interleave [.schedule firstSlot]).toOption.map (fun system =>
      ((system.table.kill 0).1, decide (∃ p, (system.table.proc p).state ≠ .unused ∧ (system.table.proc p).pid = 0))) =
        some (0, false) := by decide +kernel
  have second : (interleave [.schedule firstSlot, .run firstSlot (.kill 0), .run firstSlot .fork]).toOption.map
      (fun system => ((system.table.proc ⟨1, by decide⟩).state, (system.table.proc ⟨1, by decide⟩).killed)) =
        some (.embryo, true) := by decide +kernel
  obtain ⟨before, reached, result⟩ := exists_ok_of_observed first
  obtain ⟨after, ran, new⟩ := exists_ok_of_observed second
  obtain ⟨returned, nobody⟩ := Prod.mk.inj result
  obtain ⟨state, flag⟩ := Prod.mk.inj new
  refine ⟨before, after, reached, ?_, ran, state, flag⟩
  intro exactly
  exact of_decide_eq_false nobody (exactly.found.mp returned)

end ProcSystem
end Xv6
