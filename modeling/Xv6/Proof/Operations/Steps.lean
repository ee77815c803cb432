import Xv6.Construction.Operations
import Xv6.Proof.Bcache.Ring
import Xv6.Proof.Log.Steps

namespace Xv6
open Library OpSystem
variable {shared after : Shared} {pid : Nat} {inside : Bool} {access : Access} {rest : Task} {system s : OpSystem}
  {event : OpEvent}

namespace Shared
variable {shared after : Shared} {b : Fin NBUF}

@[simp] theorem setBuf_self (buf : Buf) : (shared.setBuf b buf).buf b = buf := Bcache.setBuf_self buf

theorem setBuf_of_ne {other : Fin NBUF} (ne : other ≠ b) (buf : Buf) :
    (shared.setBuf b buf).buf other = shared.buf other :=
  Bcache.setBuf_of_ne ne buf

theorem iderw_read (ran : shared.iderw b = .ok after) (clean : (shared.buf b).dirty = false) :
    after = shared.setBuf b {shared.buf b with valid := true, data := shared.disk (shared.buf b).blockno} := by
  rw [iderw] at ran
  split at ran
  · cases ran
  · split at ran
    · cases ran
    · split at ran
      · cases ran
      · rw [if_neg (by simp [clean])] at ran
        exact (Except.ok.inj ran).symm

/-- A transfer changes the flags and the contents of its buffer and at most its block on the disk. -/
theorem iderw_setBuf (ran : shared.iderw b = .ok after) : ∃ buf disk, after = {shared.setBuf b buf with disk} ∧
    buf.dev = (shared.buf b).dev ∧ buf.blockno = (shared.buf b).blockno ∧ buf.holder = (shared.buf b).holder ∧
    buf.refcnt = (shared.buf b).refcnt := by
  rw [iderw] at ran
  split at ran
  · cases ran
  · split at ran
    · cases ran
    · split at ran
      · cases ran
      · split at ran
        · exact ⟨_, _, (Except.ok.inj ran).symm, rfl, rfl, rfl, rfl⟩
        · exact ⟨_, shared.disk, (Except.ok.inj ran).symm, rfl, rfl, rfl, rfl⟩

theorem bwrite_ok (ran : shared.bwrite b = .ok after) :
    after = {shared.setBuf b {shared.buf b with valid := true, dirty := false} with
      disk := Function.update shared.disk (shared.buf b).blockno (shared.buf b).data} := by
  rw [bwrite] at ran
  split at ran
  · cases ran
  · rw [iderw] at ran
    simp only [setBuf_self] at ran
    split at ran
    · cases ran
    · split at ran
      · cases ran
      · split at ran
        · cases ran
        · rw [if_pos trivial] at ran
          rw [← Except.ok.inj ran]
          simp [setBuf, Bcache.setBuf]

end Shared

/-- This relation lists everything that one step of a task can do. -/
inductive ActStep (shared : Shared) (pid : Nat) (inside : Bool) : Task → Access → Shared → Task → Prop where
  | bget (blockno : BlockNo) (next : Fin NBUF → BufM Unit) (result : Bget) (cache : Bcache)
      (ran : shared.cache.bget ROOTDEV blockno = .ok (result, cache)) :
      ActStep shared pid inside (.run (.act (.bget blockno) next)) .silent {shared with cache}
        (.acquiring result.buf (next result.buf))
  | look (b : Fin NBUF) (next : Buf → BufM Unit) :
      ActStep shared pid inside (.run (.act (.look b) next)) .silent shared (.run (next (shared.buf b)))
  | iderw (b : Fin NBUF) (next : Unit → BufM Unit) (after : Shared) (ran : shared.iderw b = .ok after) :
      ActStep shared pid inside (.run (.act (.iderw b) next)) .silent after (.run (next ()))
  | store (b : Fin NBUF) (data : Block) (next : Unit → BufM Unit) :
      ActStep shared pid inside (.run (.act (.store b data) next))
        (if inside then .modified (shared.buf b).blockno else .silent) (shared.setBuf b {shared.buf b with data})
        (.run (next ()))
  | test (b : Fin NBUF) (next : Unit → BufM Unit) (inOp : inside = true) (room : shared.log.lh.n < LOGSIZE)
      (fits : (shared.log.lh.n : Int) < shared.log.size - 1) :
      ActStep shared pid inside (.run (.act (.logWrite b) next)) .silent shared (.appending b (next ()))
  | append (b : Fin NBUF) (rest : BufM Unit) (lh : LogHeader)
      (stored : shared.log.lh.logWrite (shared.buf b).blockno = some lh) :
      ActStep shared pid inside (.appending b rest) (.logged (shared.buf b).blockno)
        {shared.setBuf b {shared.buf b with dirty := true} with log := {shared.log with lh}} (.run rest)
  | bwrite (caller : Writer) (b : Fin NBUF) (next : Unit → BufM Unit) (after : Shared)
      (ran : shared.bwrite b = .ok after) :
      ActStep shared pid inside (.run (.act (.bwrite caller b) next)) (.wrote caller (shared.buf b).blockno) after
        (.run (next ()))
  | release (b : Fin NBUF) (next : Unit → BufM Unit) :
      ActStep shared pid inside (.run (.act (.brelse b) next)) .silent
        {shared with cache := shared.cache.releasesleep b} (.releasing b (next ()))
  | brelse (b : Fin NBUF) (rest : BufM Unit) :
      ActStep shared pid inside (.releasing b rest) .silent {shared with cache := shared.cache.brelse b} (.run rest)
  | acquire (b : Fin NBUF) (rest : BufM Unit) (free : (shared.buf b).holder = none) :
      ActStep shared pid inside (.acquiring b rest) .silent
        (shared.setBuf b {shared.buf b with holder := some pid}) (.run rest)
  | log (next : Log → BufM Unit) :
      ActStep shared pid inside (.run (.act .log next)) .silent shared (.run (next shared.log))
  | clear (next : Unit → BufM Unit) :
      ActStep shared pid inside (.run (.act .clear next)) .silent
        {shared with log := {shared.log with lh := .empty}} (.run (next ()))

theorem map_ok {H A B : Type} {outcome : Except H A} {f : A → B} {value : B} (ran : outcome.map f = .ok value) :
    ∃ result, outcome = .ok result ∧ f result = value := by
  cases outcome with
  | error halt => cases ran
  | ok result => exact ⟨result, rfl, Except.ok.inj ran⟩

theorem ActStep.of_act {op : BufAct} {next : op.Result → BufM Unit}
    (ran : shared.act inside op next = .ok (access, after, rest)) :
    ActStep shared pid inside (.run (.act op next)) access after rest := by
  cases op with
  | bget blockno =>
    simp only [Shared.act] at ran
    split at ran
    case h_1 result cache found =>
      cases ran
      exact .bget blockno next result cache found
    case h_2 => cases ran
  | look b =>
    cases ran
    exact .look b next
  | iderw b =>
    obtain ⟨result, found, same⟩ := map_ok ran
    cases same
    exact .iderw b next _ found
  | store b data =>
    cases ran
    exact .store b data next
  | logWrite b =>
    simp only [Shared.act] at ran
    split at ran
    case isTrue inOp =>
      obtain ⟨result, found, same⟩ := map_ok ran
      cases same
      rw [Shared.logWriteTest] at found
      split at found
      · cases found
      case isFalse room =>
        rw [not_or, Nat.not_le, Int.not_le] at room
        exact .test b next inOp room.1 room.2
    case isFalse => cases ran
  | bwrite caller b =>
    obtain ⟨result, found, same⟩ := map_ok ran
    cases same
    exact .bwrite caller b next _ found
  | brelse b =>
    simp only [Shared.act] at ran
    split at ran
    · cases ran
    · cases ran
      exact .release b next
  | log =>
    cases ran
    exact .log next
  | clear =>
    cases ran
    exact .clear next
  | panic reason => cases ran

theorem ActStep.of_advance {task : Task} (ran : shared.advance pid inside task = .ok (access, after, rest)) :
    ActStep shared pid inside task access after rest := by
  cases task with
  | run program =>
    cases program with
    | pure value => cases ran
    | act op next => exact .of_act ran
  | acquiring b program =>
    simp only [Shared.advance, Bcache.acquiresleep] at ran
    split at ran
    case h_1 cache found =>
      split at found
      case isTrue free =>
        cases found
        cases ran
        exact .acquire b program free
      case isFalse => cases found
    case h_2 => cases ran
  | releasing b program =>
    cases ran
    exact .brelse b program
  | appending b program =>
    obtain ⟨result, found, same⟩ := map_ok ran
    cases same
    rw [Shared.logWriteAppend] at found
    split at found
    case h_1 lh stored =>
      cases found
      exact .append b program lh stored
    case h_2 => cases found

/-- A process performs the steps of its programs outside or inside an operation or in `commit`. -/
inductive OpKind where
  | outside
  | inside
  | committing
  deriving DecidableEq

def OpKind.place : OpKind → Task → OpPlace
  | .outside => .outside
  | .inside => .inside
  | .committing => .committing

def OpKind.isInside : OpKind → Bool
  | .inside => true
  | _ => false

/-- A process enters the loop of `begin_op` from its call or from its sleep. -/
def OpSystem.Enters (system : OpSystem) (event : OpEvent) (pid : Nat) : Prop :=
  (event = .beginOp pid ∧ system.place pid = .outside .done) ∨ (event = .retry pid ∧ system.place pid = .woken)

/-- This relation lists everything that one event can do. -/
inductive OpStep (system : OpSystem) : OpEvent → OpSystem → Prop where
  | sleep {event : OpEvent} (pid : Nat) (enters : system.Enters event pid) (closed : system.shared.log.Closed) :
      OpStep system event (system.moveTo pid .sleeping)
  | enroll {event : OpEvent} (pid : Nat) (enters : system.Enters event pid) (opened : ¬system.shared.log.Closed) :
      OpStep system event ((system.setLog {system.shared.log with
        outstanding := system.shared.log.outstanding + 1}).moveTo pid (.inside .done))
  | call (pid : Nat) (function : BufCall) (kind : OpKind) (ready : system.place pid = kind.place .done)
      (works : kind ≠ .committing) :
      OpStep system (.call pid function)
        (system.moveTo pid (kind.place (.run (function.program system.sb system.devsw))))
  | act (pid : Nat) (access : Access) (kind : OpKind) (task rest : Task) (shared : Shared)
      (stands : system.place pid = kind.place task)
      (ran : ActStep system.shared pid kind.isInside task access shared rest) :
      OpStep system (.act pid access) ({system with shared}.moveTo pid (kind.place rest))
  | endLast (pid : Nat) (ready : system.place pid = .inside .done) (free : system.shared.log.committing = false)
      (last : system.shared.log.outstanding - 1 = 0) :
      OpStep system (.endOp pid) ((system.setLog {system.shared.log with
        outstanding := system.shared.log.outstanding - 1, committing := true}).moveTo pid
          (.committing (.run BufM.commit)))
  | endOther (pid : Nat) (ready : system.place pid = .inside .done) (free : system.shared.log.committing = false)
      (others : system.shared.log.outstanding - 1 ≠ 0) :
      OpStep system (.endOp pid) ((system.setLog {system.shared.log with
        outstanding := system.shared.log.outstanding - 1}).wakeup.moveTo pid (.outside .done))
  | finish (pid : Nat) (ready : system.place pid = .committing .done) :
      OpStep system (.finish pid)
        ((system.setLog {system.shared.log with committing := false}).wakeup.moveTo pid (.outside .done))

theorem OpStep.of_beginOp (enters : s.Enters event pid) : OpStep s event (s.beginOp pid) := by
  rw [OpSystem.beginOp]
  split
  case isTrue committing => exact .sleep pid enters (.inl committing)
  case isFalse open_ =>
    split
    case isTrue full => exact .sleep pid enters (.inr full)
    case isFalse room =>
      apply OpStep.enroll pid enters
      rintro (committing | full)
      · exact open_ committing
      · exact room full

theorem OpStep.of_step {next : OpSystem} (ran : s.step event = .ok next) : OpStep s event next := by
  cases event with
  | beginOp pid =>
    simp only [step] at ran
    split at ran
    case h_1 ready =>
      cases ran
      exact .of_beginOp (.inl ⟨rfl, ready⟩)
    case h_2 => cases ran
  | retry pid =>
    simp only [step] at ran
    split at ran
    case h_1 woken =>
      cases ran
      exact .of_beginOp (.inr ⟨rfl, woken⟩)
    case h_2 => cases ran
  | call pid function =>
    simp only [step] at ran
    split at ran
    case h_1 ready =>
      cases ran
      exact .call pid function .outside ready nofun
    case h_2 ready =>
      cases ran
      exact .call pid function .inside ready nofun
    case h_3 => cases ran
  | act pid access =>
    have advanced : ∀ (kind : OpKind) (task : Task), s.place pid = kind.place task →
        s.advance pid access kind.isInside task kind.place = .ok next →
        OpStep s (.act pid access) next := by
      intro kind task stands moved
      rw [advance] at moved
      split at moved
      · cases moved
      case h_2 actual shared rest found =>
        split at moved
        case isTrue same =>
          cases moved
          exact .act pid access kind task rest shared stands (.of_advance (same ▸ found))
        case isFalse => cases moved
    simp only [step] at ran
    split at ran
    case h_1 task stands => exact advanced .outside task stands ran
    case h_2 task stands => exact advanced .inside task stands ran
    case h_3 task stands => exact advanced .committing task stands ran
    case h_4 => cases ran
  | endOp pid =>
    simp only [step] at ran
    split at ran
    case h_1 ready =>
      rw [OpSystem.endOp] at ran
      split at ran
      · cases ran
      case isFalse free =>
        have open_ : s.shared.log.committing = false := Bool.eq_false_iff.mpr free
        split at ran
        case isTrue last =>
          cases ran
          exact .endLast pid ready open_ last
        case isFalse others =>
          cases ran
          exact .endOther pid ready open_ others
    case h_2 => cases ran
  | finish pid =>
    simp only [step] at ran
    split at ran
    case h_1 ready =>
      cases ran
      exact .finish pid ready
    case h_2 => cases ran

end Xv6
