import Xv6.Proof.Proc.Attention

namespace Xv6
open Library List Ptable

/-- The process with this number has exited. -/
def Exited (history : List ProcRecord) (child : Nat) : Prop := ∃ pid, .exited child pid ∈ history

/-- The calls of `wait` that returned the process with this number. -/
def reaps (child : Nat) (history : List ProcRecord) : List (Nat × BitVec 32) :=
  history.filterMap fun
    | .reaped other parent pid => if other = child then some (parent, pid) else none
    | _ => none

/-- The guardian of a child is its only creator, or init if the creator has exited. -/
def Guardian (history : List ProcRecord) (child guardian : Nat) : Prop :=
  ∃ creator, (∀ other, .forked child other ∈ history ↔ other = creator) ∧
    (Exited history creator ∧ guardian = ProcSystem.initSerial ∨ ¬Exited history creator ∧ guardian = creator)

section Histories
variable {history : List ProcRecord} {entry : ProcRecord} {child guardian : Nat}

theorem exited_append : Exited (history ++ [entry]) child ↔ Exited history child ∨ ∃ pid, entry = .exited child pid := by
  simp only [Exited, mem_append, mem_singleton, exists_or]
  grind

theorem mem_snoc {wanted : ProcRecord} (other : wanted ≠ entry) : wanted ∈ history ++ [entry] ↔ wanted ∈ history := by
  rw [mem_append, mem_singleton, or_iff_left other]

theorem reaps_append : reaps child (history ++ [entry]) = reaps child history ++ reaps child [entry] :=
  filterMap_append

theorem reaps_eq_nil (unreaped : ∀ parent pid, .reaped child parent pid ∉ history) : reaps child history = [] := by
  simp only [reaps, filterMap_eq_nil_iff]
  intro entry inside
  split
  case h_1 other parent pid =>
    rw [if_neg]
    rintro rfl
    exact unreaped parent pid inside
  case h_2 => rfl

theorem Guardian.append (guarded : Guardian history child guardian) (unforked : ∀ other, entry ≠ .forked child other)
    (alive : ∀ creator pid, .forked child creator ∈ history → entry ≠ .exited creator pid) :
    Guardian (history ++ [entry]) child guardian := by
  obtain ⟨creator, only, either⟩ := guarded
  have same : Exited (history ++ [entry]) creator ↔ Exited history creator := by
    rw [exited_append]
    apply or_iff_left
    rintro ⟨pid, rfl⟩
    exact alive creator pid ((only creator).mpr rfl) rfl
  refine ⟨creator, ?_, ?_⟩
  · intro other
    rw [mem_snoc (unforked other).symm]
    exact only other
  · rw [same]
    exact either

/-- The children of an exited process get init as their guardian. -/
theorem Guardian.exit {number : Nat} (pid : BitVec 32) (guarded : Guardian history child guardian)
    (alive : ¬Exited history number) (other : number ≠ ProcSystem.initSerial) :
    Guardian (history ++ [.exited number pid]) child
      (if guardian = number then ProcSystem.initSerial else guardian) := by
  obtain ⟨creator, only, either⟩ := guarded
  have ended : Exited (history ++ [.exited number pid]) creator ↔ Exited history creator ∨ creator = number := by
    rw [exited_append]
    apply or_congr_right
    simp [eq_comm]
  refine ⟨creator, ?_, ?_⟩
  · intro parent
    rw [mem_snoc (by nofun)]
    exact only parent
  · rw [ended]
    grind

/-- The last record of a history is the wanted one, or the wanted one is in the history before it. -/
theorem split_append {wanted : ProcRecord} {older newer : List ProcRecord}
    (split : history ++ [entry] = older ++ wanted :: newer) :
    older = history ∧ wanted = entry ∨ ∃ middle, history = older ++ wanted :: middle := by
  rcases newer.eq_nil_or_concat with rfl | ⟨middle, last, rfl⟩
  · obtain ⟨same, ends⟩ := append_inj' split rfl
    exact .inl ⟨same.symm, (singleton_inj.mp ends).symm⟩
  · rw [concat_eq_append, ← cons_append, ← append_assoc] at split
    exact .inr ⟨middle, (append_inj' split rfl).1⟩

end Histories

namespace ProcSystem
variable {system s next : ProcSystem} {event : ProcEvent} {p q np child : Fin NPROC}

/-- The history tells what happened to every process that was ever allocated. -/
structure Recorded (system : ProcSystem) : Prop where
  first : system.serial system.initproc = initSerial
  fresh : ∀ p, system.state p ≠ .unused → system.serial p < system.births
  distinct : ∀ p q, system.state p ≠ .unused → system.state q ≠ .unused → system.serial p = system.serial q → p = q
  exitedPast : ∀ child, Exited system.history child → child < system.births
  forkedPast : ∀ child parent, .forked child parent ∈ system.history → child < system.births
  living : ∀ p, system.state p ≠ .unused → system.state p ≠ .zombie → ¬Exited system.history (system.serial p)
  dead : ∀ p, system.state p = .zombie → .exited (system.serial p) (system.pid p) ∈ system.history ∧
    reaps (system.serial p) system.history = []
  once : ∀ child pid, .exited child pid ∈ system.history →
    (∃ p, system.state p = .zombie ∧ system.serial p = child ∧ system.pid p = pid) ∨
      ∃ parent, reaps child system.history = [(parent, pid)]
  reapedPast : ∀ child parent pid, .reaped child parent pid ∈ system.history → Exited system.history child
  unforked : ∀ p, system.state p = .embryo → ∀ parent, .forked (system.serial p) parent ∉ system.history
  guarded : ∀ p, (system.state p).Alive ∨ system.state p = .zombie → p ≠ system.initproc →
    ∃ q, system.parent p = some q ∧ Guardian system.history (system.serial p) (system.serial q)
  rightful : ∀ older newer child parent pid, system.history = older ++ .reaped child parent pid :: newer →
    Exited older child ∧ Guardian older child parent

theorem Recorded.calm (recorded : s.Recorded) (calm : Calm s next) : next.Recorded where
  first := by rw [calm.serial, calm.initproc]; exact recorded.first
  fresh p used := by
    rw [calm.serial, calm.births]
    exact recorded.fresh p (mt (calm.dead id).mpr used)
  distinct p q used taken := by
    rw [calm.serial]
    exact recorded.distinct p q (mt (calm.dead id).mpr used) (mt (calm.dead id).mpr taken)
  exitedPast := by rw [calm.history, calm.births]; exact recorded.exitedPast
  forkedPast := by rw [calm.history, calm.births]; exact recorded.forkedPast
  living p used alive := by
    rw [calm.history, calm.serial]
    exact recorded.living p (mt (calm.dead id).mpr used) (mt (calm.dead id).mpr alive)
  dead p dead := by
    rw [calm.history, calm.serial, calm.pid]
    exact recorded.dead p ((calm.dead id).mp dead)
  once child pid exited := by
    rw [calm.history] at exited ⊢
    apply (recorded.once child pid exited).imp_left
    rintro ⟨p, dead, number, same⟩
    exact ⟨p, (calm.dead id).mpr dead, by rw [calm.serial, number], by rw [calm.pid, same]⟩
  reapedPast := by rw [calm.history]; exact recorded.reapedPast
  unforked p new := by
    rw [calm.history, calm.serial]
    exact recorded.unforked p ((calm.dead id).mp new)
  guarded p left other := by
    rw [calm.history, calm.serial, calm.parent]
    rw [calm.alive, calm.dead id] at left
    exact recorded.guarded p left (calm.initproc ▸ other)
  rightful := by rw [calm.history]; exact recorded.rightful

@[grind =] theorem taken_serial (q : Fin NPROC) :
    (s.taken p np).serial q = if q = np then s.births else s.serial q := Function.update_apply ..

theorem taken_pid (ne : q ≠ np) : (s.taken p np).pid q = s.pid q := by
  simp only [pid, taken, moveTo_table, bear, withTable, Ptable.take]
  rw [Ptable.set_of_ne _ ne]

theorem Recorded.taken (recorded : s.Recorded) (family : s.Family) (free : s.state np = .unused) :
    (s.taken p np).Recorded where
  first := by
    have alive := family.initAlive
    have first := recorded.first
    grind
  fresh q used := by
    have fresh := recorded.fresh q
    change (s.taken p np).serial q < s.births + 1
    grind
  distinct q r used other same := by
    have distinct := recorded.distinct q r
    have fresh := recorded.fresh
    grind
  exitedPast child exited := Nat.lt_succ_of_lt (recorded.exitedPast child exited)
  forkedPast child parent forked := Nat.lt_succ_of_lt (recorded.forkedPast child parent forked)
  living q used alive := by
    have living := recorded.living q
    have past := recorded.exitedPast s.births
    change ¬Exited s.history _
    grind
  dead q dead := by
    have ne : q ≠ np := by
      rintro rfl
      rw [taken_state, if_pos rfl] at dead
      cases dead
    rw [taken_serial, if_neg ne, taken_pid ne]
    rw [taken_state, if_neg ne] at dead
    exact recorded.dead q dead
  once child pid exited := by
    apply (recorded.once child pid exited).imp_left
    rintro ⟨q, dead, number, same⟩
    have ne : q ≠ np := by
      rintro rfl
      rw [free] at dead
      cases dead
    refine ⟨q, ?_, ?_, ?_⟩
    · rw [taken_state, if_neg ne, dead]
    · rw [taken_serial, if_neg ne, number]
    · rw [taken_pid ne, same]
  reapedPast := recorded.reapedPast
  unforked q new parent forked := by
    have unforked := recorded.unforked q
    have past := recorded.forkedPast _ parent forked
    change .forked _ parent ∈ s.history at forked
    grind
  guarded q left other := by
    have ne : q ≠ np := by
      rintro rfl
      rw [taken_state, if_pos rfl] at left
      exact left.elim id nofun
    rw [taken_state, if_neg ne] at left
    obtain ⟨r, parent, guarded⟩ := recorded.guarded q left other
    obtain ⟨s, has, _, alive⟩ := family.parented q left other
    cases parent.symm.trans has
    have known : r ≠ np := by
      rintro rfl
      rw [free] at alive
      exact alive
    refine ⟨r, (taken_parent q).trans parent, ?_⟩
    rw [taken_serial, if_neg ne, taken_serial, if_neg known]
    exact guarded
  rightful := recorded.rightful

/-- These changes touch one embryo and no record. -/
theorem Recorded.of_embryo (recorded : s.Recorded) (new : s.state np = .embryo)
    (initproc : next.initproc = s.initproc) (serial : next.serial = s.serial) (births : next.births = s.births)
    (history : next.history = s.history) (others : ∀ q, q ≠ np → next.table.proc q = s.table.proc q)
    (still : next.state np = .unused ∨ next.state np = .embryo) : next.Recorded := by
  have state : ∀ q, q ≠ np → next.state q = s.state q := fun q ne =>
    congrArg ProcSlot.state (others q ne)
  have parent : ∀ q, q ≠ np → next.parent q = s.parent q := fun q ne =>
    congrArg ProcSlot.parent (others q ne)
  have pid : ∀ q, q ≠ np → next.pid q = s.pid q := fun q ne => congrArg ProcSlot.pid (others q ne)
  have apart : ∀ q, (next.state q).Alive ∨ next.state q = .zombie → q ≠ np := by
    rintro q left rfl
    rcases still with free | new
    · rw [free] at left
      exact left.elim id nofun
    · rw [new] at left
      exact left.elim id nofun
  constructor
  case first =>
    rw [serial, initproc]
    exact recorded.first
  case fresh =>
    intro q used
    have fresh := recorded.fresh q
    grind
  case distinct =>
    intro q r used other same
    have distinct := recorded.distinct q r
    grind
  case exitedPast =>
    rw [history, births]
    exact recorded.exitedPast
  case forkedPast =>
    rw [history, births]
    exact recorded.forkedPast
  case living =>
    intro q used alive
    have living := recorded.living q
    grind
  case dead =>
    intro q dead
    have ne := apart q (.inr dead)
    rw [history, serial, pid q ne]
    exact recorded.dead q ((state q ne).symm.trans dead)
  case once =>
    intro child number exited
    rw [history] at exited ⊢
    apply (recorded.once child number exited).imp_left
    rintro ⟨q, dead, known, same⟩
    have ne : q ≠ np := by
      rintro rfl
      rw [new] at dead
      cases dead
    exact ⟨q, (state q ne).trans dead, by rw [serial, known], (pid q ne).trans same⟩
  case reapedPast =>
    rw [history]
    exact recorded.reapedPast
  case unforked =>
    intro q embryo
    have unforked := recorded.unforked q
    grind
  case guarded =>
    intro q left other
    have ne := apart q left
    rw [history, serial, parent q ne]
    rw [state q ne] at left
    exact recorded.guarded q left (initproc ▸ other)
  case rightful =>
    rw [history]
    exact recorded.rightful

theorem Recorded.start (recorded : s.Recorded) (family : s.Family) (here : s.place p = .starting np) :
    (s.start p np).Recorded := by
  obtain ⟨alive, new⟩ := family.forking p np (by rw [here]; rfl)
  have history : (s.start p np).history = s.history ++ [.forked (s.serial np) (s.serial p)] := rfl
  have pid : ∀ q, (s.start p np).pid q = s.pid q := by
    intro q
    simp only [ProcSystem.pid, ProcSystem.start, moveTo_table, record, withTable_table, setState, set_proc]
    split
    case isTrue same => rw [same]
    case isFalse => rfl
  have exited : ∀ child, Exited (s.start p np).history child ↔ Exited s.history child := by
    intro child
    rw [history, exited_append]
    exact or_iff_left (by simp)
  have reaped : ∀ child, reaps child (s.start p np).history = reaps child s.history := by
    intro child
    rw [history, reaps_append]
    exact append_nil _
  constructor
  case first => exact recorded.first
  case fresh =>
    intro q used
    have fresh := recorded.fresh q
    change s.serial q < s.births
    grind
  case distinct =>
    intro q r used other same
    have distinct := recorded.distinct q r
    change s.serial q = s.serial r at same
    grind
  case exitedPast =>
    intro child past
    exact recorded.exitedPast child ((exited child).mp past)
  case forkedPast =>
    intro child parent forked
    rw [history, mem_append, mem_singleton] at forked
    rcases forked with forked | same
    · exact recorded.forkedPast child parent forked
    · cases same
      exact recorded.fresh np (by rw [new]; simp)
  case living =>
    intro q used living
    have living := recorded.living q
    rw [exited]
    change ¬Exited _ (s.serial q)
    grind
  case dead =>
    intro q dead
    have was : s.state q = .zombie := by
      rw [start_state] at dead
      split at dead
      · cases dead
      · exact dead
    have before := recorded.dead q was
    rw [reaped, history, pid]
    exact ⟨mem_append_left _ before.1, before.2⟩
  case once =>
    intro child number past
    rw [reaped]
    rw [history, mem_snoc (by simp)] at past
    apply (recorded.once child number past).imp_left
    rintro ⟨q, dead, known, same⟩
    refine ⟨q, ?_, known, (pid q).trans same⟩
    rw [start_state, if_neg]
    · exact dead
    · rintro rfl
      rw [new] at dead
      cases dead
  case reapedPast =>
    intro child parent number past
    rw [history, mem_snoc (by simp)] at past
    rw [exited]
    exact recorded.reapedPast child parent number past
  case unforked =>
    intro q embryo parent forked
    rw [start_state] at embryo
    split at embryo
    · cases embryo
    case isFalse ne =>
      rw [history, mem_append, mem_singleton] at forked
      rcases forked with forked | same
      · exact recorded.unforked q embryo parent forked
      · have number : s.serial q = s.serial np := (ProcRecord.forked.inj same).1
        exact ne (recorded.distinct q np (by rw [embryo]; simp) (by rw [new]; simp) number)
  case guarded =>
    intro q left other
    rw [start_parent, history]
    change ∃ r, s.parent q = some r ∧ Guardian _ (s.serial q) (s.serial r)
    by_cases same : q = np
    · subst same
      have orphan := recorded.unforked q new
      have living := recorded.living p alive.used alive.undead
      refine ⟨p, family.starter p q here, s.serial p, ?_, .inr ⟨?_, rfl⟩⟩
      · intro parent
        simp [orphan]
      · rw [exited_append, or_iff_left (by simp)]
        exact living
    · rw [start_state, if_neg same] at left
      obtain ⟨r, parent, guarded⟩ := recorded.guarded q left other
      refine ⟨r, parent, guarded.append ?_ (by simp)⟩
      intro creator equal
      have number : s.serial np = s.serial q := (ProcRecord.forked.inj equal).1
      have used : s.state q ≠ .unused := by
        intro free
        simp [free, ProcState.Alive] at left
      exact same (recorded.distinct np q (by rw [new]; simp) used number).symm
  case rightful =>
    intro older newer child parent number split
    rcases split_append split with ⟨-, same⟩ | ⟨middle, before⟩
    · cases same
    · exact recorded.rightful older middle child parent number before

theorem leave_pid (q : Fin NPROC) : (s.leave p).pid q = s.pid q := by
  simp only [pid, leave, moveTo_table, record, withTable_table, exit_proc]
  split <;> simp [handed]

theorem leave_zombie (q : Fin NPROC) : (s.leave p).state q = .zombie ↔ q = p ∨ s.state q = .zombie := by
  by_cases same : q = p
  · rw [same, leave_self]
    simp
  · rcases leave_state s same with kept | ⟨sleeps, wakes⟩
    · simp [kept, same]
    · simp [sleeps, wakes, same]

theorem leave_unused (used : s.state p ≠ .unused) (q : Fin NPROC) :
    (s.leave p).state q = .unused ↔ s.state q = .unused := by
  by_cases same : q = p
  · rw [same, leave_self]
    simp [used]
  · rcases leave_state s same with kept | ⟨sleeps, wakes⟩
    · rw [kept]
    · simp [sleeps, wakes]

theorem Recorded.leave (recorded : s.Recorded) (family : s.Family) (alive : (s.state p).Alive)
    (here : s.place p = .exiting) : (s.leave p).Recorded := by
  have history : (s.leave p).history = s.history ++ [.exited (s.serial p) (s.pid p)] := rfl
  have used := alive.used
  have living := recorded.living p used alive.undead
  have other := family.not_init here
  have exited : ∀ child, Exited (s.leave p).history child ↔ Exited s.history child ∨ child = s.serial p := by
    intro child
    rw [history, exited_append]
    apply or_congr_right
    simp [eq_comm]
  have reaped : ∀ child, reaps child (s.leave p).history = reaps child s.history := by
    intro child
    rw [history, reaps_append]
    exact append_nil _
  constructor
  case first => exact recorded.first
  case fresh =>
    intro q taken
    rw [Ne, leave_unused used] at taken
    exact recorded.fresh q taken
  case distinct =>
    intro q r taken busy same
    rw [Ne, leave_unused used] at taken busy
    exact recorded.distinct q r taken busy same
  case exitedPast =>
    intro child past
    rcases (exited child).mp past with past | rfl
    · exact recorded.exitedPast child past
    · exact recorded.fresh p used
  case forkedPast =>
    intro child parent forked
    rw [history, mem_snoc (by nofun)] at forked
    exact recorded.forkedPast child parent forked
  case living =>
    intro q taken lives
    rw [Ne, leave_unused used] at taken
    rw [Ne, leave_zombie, not_or] at lives
    rw [exited, not_or]
    refine ⟨recorded.living q taken lives.2, ?_⟩
    intro same
    exact lives.1 (recorded.distinct q p taken used same)
  case dead =>
    intro q dead
    rw [reaped, history, leave_pid]
    rcases (leave_zombie q).mp dead with rfl | dead
    · refine ⟨mem_append_right _ (.head _), ?_⟩
      apply reaps_eq_nil
      intro parent pid past
      exact living (recorded.reapedPast _ parent pid past)
    · have before := recorded.dead q dead
      exact ⟨mem_append_left _ before.1, before.2⟩
  case once =>
    intro child number past
    rw [reaped]
    rw [history, mem_append, mem_singleton] at past
    rcases past with past | same
    · apply (recorded.once child number past).imp_left
      rintro ⟨q, dead, known, same⟩
      exact ⟨q, (leave_zombie q).mpr (.inr dead), known, (leave_pid q).trans same⟩
    · cases same
      exact .inl ⟨p, leave_self, rfl, leave_pid p⟩
  case reapedPast =>
    intro child parent number past
    rw [history, mem_snoc (by nofun)] at past
    rw [exited]
    exact .inl (recorded.reapedPast child parent number past)
  case unforked =>
    intro q embryo parent forked
    rw [history, mem_snoc (by nofun)] at forked
    apply recorded.unforked q _ parent forked
    have apart : q ≠ p := by
      rintro rfl
      rw [leave_self] at embryo
      cases embryo
    rcases leave_state s apart with kept | ⟨_, wakes⟩
    · exact kept.symm.trans embryo
    · rw [wakes] at embryo
      cases embryo
  case guarded =>
    intro q left outside
    have left : (s.state q).Alive ∨ s.state q = .zombie := by
      by_cases same : q = p
      · exact .inl (same ▸ alive)
      · rcases leave_state s same with kept | ⟨sleeps, _⟩
        · rwa [kept] at left
        · rw [sleeps]
          exact .inl trivial
    obtain ⟨r, parent, guarded⟩ := recorded.guarded q left outside
    obtain ⟨s, has, _, awake⟩ := family.parented q left outside
    cases parent.symm.trans has
    have known := awake.used
    have first : s.serial p ≠ initSerial := by
      intro same
      exact other (recorded.distinct _ _ used family.initAlive.used (same.trans recorded.first.symm))
    have passed := guarded.exit (s.pid p) living first
    rw [leave_parent, parent, history]
    by_cases mine : r = p
    · refine ⟨s.initproc, by simp [mine], ?_⟩
      rw [mine, if_pos rfl] at passed
      change Guardian _ _ (s.serial s.initproc)
      rw [recorded.first]
      exact passed
    · refine ⟨r, by simp [mine], ?_⟩
      rw [if_neg fun same => mine (recorded.distinct r p known used same)] at passed
      exact passed
  case rightful =>
    intro older newer child parent number split
    rcases split_append split with ⟨-, same⟩ | ⟨middle, before⟩
    · cases same
    · exact recorded.rightful older middle child parent number before

theorem Recorded.collect (recorded : s.Recorded) (family : s.Family)
    (dead : s.table.ZombieChild p child) : (s.collect p child).Recorded := by
  have history : (s.collect p child).history = s.history ++ [.reaped (s.serial child) (s.serial p) (s.pid child)] := rfl
  have zombie : s.state child = .zombie := dead.2
  have used : s.state child ≠ .unused := by
    rw [zombie]
    simp
  have exited : ∀ number, Exited (s.collect p child).history number ↔ Exited s.history number := by
    intro number
    rw [history, exited_append]
    exact or_iff_left (by simp)
  have taken : ∀ q, (s.collect p child).state q ≠ .unused → q ≠ child ∧ s.state q ≠ .unused := by
    intro q taken
    rw [collect_state] at taken
    split at taken
    · exact absurd rfl taken
    case isFalse ne => exact ⟨ne, taken⟩
  have reaped : ∀ q, q ≠ child → s.state q ≠ .unused →
      reaps (s.serial q) (s.collect p child).history = reaps (s.serial q) s.history := by
    intro q ne known
    rw [history, reaps_append]
    have number : s.serial child ≠ s.serial q := fun same =>
      ne (recorded.distinct child q used known same).symm
    simp [reaps, number]
  have pid : ∀ q, q ≠ child → (s.collect p child).pid q = s.pid q := by
    intro q ne
    simp only [ProcSystem.pid, ProcSystem.collect, moveTo_table, record, withTable_table, reap]
    rw [set_of_ne _ ne]
  constructor
  case first => exact recorded.first
  case fresh => exact fun q busy => recorded.fresh q (taken q busy).2
  case distinct => exact fun q r busy known same => recorded.distinct q r (taken q busy).2 (taken r known).2 same
  case exitedPast => exact fun number past => recorded.exitedPast number ((exited number).mp past)
  case forkedPast =>
    intro number parent forked
    rw [history, mem_snoc (by simp)] at forked
    exact recorded.forkedPast number parent forked
  case living =>
    intro q busy lives
    obtain ⟨ne, known⟩ := taken q busy
    rw [collect_state, if_neg ne] at lives
    rw [exited]
    exact recorded.living q known lives
  case dead =>
    intro q ended
    obtain ⟨ne, known⟩ := taken q (by rw [ended]; simp)
    rw [collect_state, if_neg ne] at ended
    have before := recorded.dead q ended
    change ProcRecord.exited (s.serial q) _ ∈ _ ∧ reaps (s.serial q) _ = []
    rw [reaped q ne known, pid q ne]
    exact ⟨mem_append_left _ before.1, before.2⟩
  case once =>
    intro number result past
    rw [history, mem_snoc (by simp)] at past
    rcases recorded.once number result past with ⟨q, ended, known, same⟩ | ⟨parent, one⟩
    · by_cases here : q = child
      · subst here
        right
        refine ⟨s.serial p, ?_⟩
        rw [history, reaps_append, ← known, (recorded.dead q ended).2, ← same]
        simp [reaps]
      · left
        refine ⟨q, ?_, known, (pid q here).trans same⟩
        rw [collect_state, if_neg here]
        exact ended
    · right
      refine ⟨parent, ?_⟩
      have ne : s.serial child ≠ number := by
        rintro rfl
        rw [(recorded.dead child zombie).2] at one
        cases one
      rw [history, reaps_append, one]
      simp [reaps, ne]
  case reapedPast =>
    intro number parent result past
    rw [exited]
    rw [history, mem_append, mem_singleton] at past
    rcases past with past | same
    · exact recorded.reapedPast number parent result past
    · cases same
      exact ⟨_, (recorded.dead child zombie).1⟩
  case unforked =>
    intro q embryo parent forked
    obtain ⟨ne, known⟩ := taken q (by rw [embryo]; simp)
    rw [collect_state, if_neg ne] at embryo
    rw [history, mem_snoc (by simp)] at forked
    exact recorded.unforked q embryo parent forked
  case guarded =>
    intro q left outside
    have busy : (s.collect p child).state q ≠ .unused := by
      intro free
      simp [free, ProcState.Alive] at left
    have ne := (taken q busy).1
    rw [collect_state, if_neg ne] at left
    rw [collect_parent, if_neg ne, history]
    obtain ⟨r, parent, guarded⟩ := recorded.guarded q left outside
    exact ⟨r, parent, guarded.append (by simp) (by simp)⟩
  case rightful =>
    intro older newer number parent result split
    rcases split_append split with ⟨rfl, same⟩ | ⟨middle, before⟩
    · cases same
      refine ⟨⟨_, (recorded.dead child zombie).1⟩, ?_⟩
      obtain ⟨r, has, guarded⟩ := recorded.guarded child (.inr zombie) (by
        rintro rfl
        exact family.initAlive.undead zombie)
      cases has.symm.trans dead.1
      exact guarded
    · exact recorded.rightful older middle number parent result before

theorem Recorded.change (recorded : s.Recorded) (family : s.Family) (change : Change s next) : next.Recorded := by
  cases change with
  | none => exact recorded
  | taken alive idle free => exact recorded.taken family free
  | @giveBack p np here =>
    have new := (family.forking p np (by rcases here with here | here <;> rw [here] <;> rfl)).2
    refine recorded.of_embryo new rfl rfl rfl rfl ?_ (.inl ?_)
    · exact fun q ne => set_of_ne _ ne
    · rw [giveBack_state, if_pos rfl]
  | @adopt p np here =>
    have new := (family.forking p np (by rw [here]; rfl)).2
    refine recorded.of_embryo new rfl rfl rfl rfl ?_ (.inr ?_)
    · exact fun q ne => set_of_ne _ ne
    · rw [adopt_state]
      exact new
  | start here => exact recorded.start family here
  | leave alive here => exact recorded.leave family alive here
  | collect idle dead => exact recorded.collect family dead

theorem initial_recorded : initial.Recorded where
  first := rfl
  fresh p _ := Nat.lt_succ_self _
  distinct p q used taken _ := by
    rw [initial_state] at used taken
    grind
  exitedPast child exited := by simp [Exited, initial] at exited
  forkedPast child parent forked := by simp [initial] at forked
  living p _ _ := by simp [Exited, initial]
  dead p dead := by
    rw [initial_state] at dead
    split at dead <;> cases dead
  once child pid exited := by simp [initial] at exited
  reapedPast child parent pid reaped := by simp [initial] at reaped
  unforked p _ parent := by simp [initial]
  guarded p left other := by
    rw [initial_state, if_neg (show p ≠ firstSlot from other)] at left
    exact left.elim False.elim (by simp)
  rightful older newer child parent pid split := by
    simp [initial] at split

theorem interleave_recorded {events : List ProcEvent} (ran : interleave events = .ok s) : s.Recorded := by
  have both : s.Family ∧ s.Recorded := by
    apply runEvents_invariant (fun _ s => s.Family ∧ s.Recorded) _ _ ran
    · exact ⟨initial_family, initial_recorded⟩
    · intro events state event next held stepped
      obtain ⟨middle, calm, change⟩ := (step_sound stepped).change
      have family := held.1.calm calm
      exact ⟨family.change change, (held.2.calm calm).change family change⟩
  exact both.2

/-- In every interleaving each process has a parent that can wait for it, each exited process is a zombie until
exactly one `wait` of its guardian returns its number, and no process sleeps in `wait` beside an exited child. -/
theorem children_reaped {events : List ProcEvent} (ran : interleave events = .ok system) :
    (∀ p, system.state p ≠ .unused → system.state p ≠ .embryo → p ≠ system.initproc →
      ∃ parent, system.parent p = some parent ∧ system.state parent ≠ .unused ∧ system.state parent ≠ .zombie) ∧
    (∀ child pid, .exited child pid ∈ system.history →
      (∃ p, system.state p = .zombie ∧ system.serial p = child ∧ system.pid p = pid) ∧
          reaps child system.history = [] ∨
        ∃ parent, reaps child system.history = [(parent, pid)]) ∧
    (∀ older newer child parent pid, system.history = older ++ .reaped child parent pid :: newer →
      Exited older child ∧ Guardian older child parent) ∧
    ∀ p child, system.place p = .waiting → system.state p = .sleeping → system.parent child = some p →
      system.state child ≠ .zombie := by
  have family := interleave_family ran
  have recorded := interleave_recorded ran
  refine ⟨?_, ?_, recorded.rightful, ?_⟩
  · intro p used left other
    have settled : (system.state p).Alive ∨ system.state p = .zombie := by
      cases state : system.state p <;> simp_all [ProcState.Alive]
    obtain ⟨parent, has, _, alive⟩ := family.parented p settled other
    exact ⟨parent, has, alive.used, alive.undead⟩
  · intro child pid exited
    apply (recorded.once child pid exited).imp_left
    rintro ⟨p, dead, rfl, same⟩
    exact ⟨⟨p, dead, rfl, same⟩, (recorded.dead p dead).2⟩
  · intro p child waits sleeps has dead
    rcases interleave_attends ran p waits with ready | ⟨_, _, none⟩
    · rw [ready] at sleeps
      cases sleeps
    · exact none child ⟨has, dead⟩

/-- The slot of the first child. -/
def secondSlot : Fin NPROC := ⟨1, one_lt_NPROC⟩

/-- The first process forks a child and sleeps in `wait` until the child has exited. -/
def forkedChild : List ProcEvent :=
  [.schedule firstSlot, .run firstSlot .fork, .run firstSlot (.kalloc true), .run firstSlot (.copyuvm true),
    .run firstSlot .start, .run firstSlot .wait, .schedule secondSlot, .run secondSlot .exit, .run secondSlot .leave,
    .schedule firstSlot]

theorem children_reaped_forked_child :
    ∃ system, interleave forkedChild = .ok system ∧
      system.history = [.forked 2 1, .exited 2 2, .reaped 2 1 2] ∧ system.state secondSlot = .unused ∧
      reaps 2 system.history = [(1, 2)] ∧ Guardian [.forked 2 1, .exited 2 2] 2 1 := by
  have observed : (interleave forkedChild).toOption.map
      (fun system => (system.history, system.state secondSlot)) =
        some ([.forked 2 1, .exited 2 2, .reaped 2 1 2], .unused) := by
    decide +kernel
  obtain ⟨system, ran, same⟩ := exists_ok_of_observed observed
  obtain ⟨history, free⟩ := Prod.mk.inj same
  obtain ⟨_, _, rightful, _⟩ := children_reaped ran
  have guarded := rightful [.forked 2 1, .exited 2 2] [] 2 1 2 history
  refine ⟨system, ran, history, free, ?_, guarded.2⟩
  rw [history]
  decide

end ProcSystem
end Xv6
