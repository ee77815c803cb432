import Xv6.Proof.Proc.Reaping

namespace Xv6.ProcSystem
open Library List
variable {s next : ProcSystem} {events : List ProcEvent}

/-- Every process is allocated after the process that forks it. -/
structure Aged (system : ProcSystem) : Prop where
  forks : ∀ q np, (system.place q).forks = some np → system.serial q < system.serial np
  past : ∀ child parent, .forked child parent ∈ system.history → parent < child

theorem Aged.keep (aged : s.Aged) (serial : next.serial = s.serial)
    (forks : ∀ q np, (next.place q).forks = some np → (s.place q).forks = some np)
    (past : ∀ child parent, .forked child parent ∈ next.history → parent < child) : next.Aged :=
  ⟨fun q np busy => serial ▸ aged.forks q np (forks q np busy), past⟩

theorem Aged.change (aged : s.Aged) (family : s.Family) (recorded : s.Recorded) (change : Change s next) :
    next.Aged := by
  cases change with
  | none => exact aged
  | @taken p np alive idle free =>
    have own := recorded.fresh p alive.used
    refine ⟨?_, aged.past⟩
    intro q child busy
    have fork := family.forking q child
    have older := aged.forks q child
    grind
  | @start p np here =>
    refine aged.keep rfl (by grind) ?_
    intro child parent forked
    rcases mem_append.mp forked with before | last
    · exact aged.past child parent before
    · cases mem_singleton.mp last
      exact aged.forks p np (by rw [here]; rfl)
  | giveBack | adopt => exact aged.keep rfl (by grind) aged.past
  | leave | collect =>
    refine aged.keep rfl (by grind) fun child parent forked => aged.past child parent ?_
    exact (mem_snoc (by simp)).mp forked

theorem interleave_aged (ran : interleave events = .ok s) : s.Aged := by
  induction events using reverseRecOn generalizing s with
  | nil =>
    cases ran
    exact ⟨fun _ _ busy => (by cases busy), fun _ _ forked => (by cases forked)⟩
  | append_singleton events event ih =>
    obtain ⟨state, reached, stepped⟩ := runEvents_snoc.mp ran
    obtain ⟨middle, calm, change⟩ := (step_sound stepped).change
    have aged := ih reached
    have kept : middle.Aged := aged.keep calm.serial (fun q np => by rw [calm.forks]; exact id)
      (calm.history ▸ aged.past)
    exact kept.change ((interleave_family reached).calm calm) ((interleave_recorded reached).calm calm) change

/-- In every interleaving the parents of a process that has left `fork` lead to init. -/
theorem parents_lead_to_init (ran : interleave events = .ok s) (p : Fin NPROC) (used : s.state p ≠ .unused)
    (born : s.state p ≠ .embryo) :
    Relation.ReflTransGen (fun child parent => s.parent child = some parent) p s.initproc := by
  have family := interleave_family ran
  have recorded := interleave_recorded ran
  induction age : s.serial p using Nat.strong_induction_on generalizing p with
  | h age ih =>
    by_cases first : p = s.initproc
    · rw [first]
    · have left : (s.state p).Alive ∨ s.state p = .zombie := by
        cases state : s.state p <;> simp_all [ProcState.Alive]
      obtain ⟨q, has, _, alive⟩ := family.parented p left first
      obtain ⟨r, same, creator, only, guardian⟩ := recorded.guarded p left first
      cases has.symm.trans same
      refine .head has ?_
      rcases guardian with ⟨_, number⟩ | ⟨_, number⟩
      · rw [recorded.distinct q s.initproc alive.used family.initAlive.used (number.trans recorded.first.symm)]
      · have older := (interleave_aged ran).past _ _ ((only creator).mpr rfl)
        rw [← number, age] at older
        exact ih _ older q alive.used (by rintro embryo; rw [embryo] at alive; exact alive) rfl

/-- The child of `forkedChild` has just become runnable. -/
theorem parents_lead_to_init_child : ∃ system, interleave (forkedChild.take 5) = .ok system ∧
    Relation.ReflTransGen (fun child parent => system.parent child = some parent) secondSlot system.initproc := by
  have observed : (interleave (forkedChild.take 5)).toOption.map (·.state secondSlot) = some .runnable := by
    decide +kernel
  obtain ⟨system, ran, born⟩ := exists_ok_of_observed observed
  exact ⟨system, ran, parents_lead_to_init ran secondSlot (by rw [born]; simp) (by rw [born]; simp)⟩

end Xv6.ProcSystem
