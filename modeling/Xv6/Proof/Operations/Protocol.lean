import Xv6.Construction.Operations

namespace Xv6
open Library Function BufM
open Protocol (keeps_bind)

/-- A locked buffer has just been locked, is known to be invalid, has contents that may be released, or has
contents that must not be released. -/
inductive Stage where
  | fresh
  | invalid
  | clean
  | modified
  deriving DecidableEq

/-- The contents of the buffer have been read. -/
def Stage.Ready (stage : Stage) : Prop := stage = .clean ∨ stage = .modified

/-- The test of `B_VALID` decides about a buffer that has just been locked. -/
def Stage.seen : Stage → Bool → Stage
  | .fresh, true => .clean
  | .fresh, false => .invalid
  | stage, _ => stage

structure Hold where
  blockno : BlockNo
  stage : Stage

/-- A process executes calls of the file system, or it commits the log that it has seen. The commit counts the
installed blocks until it clears the log. -/
inductive Role where
  | working
  | installing (log : Log) (installed : Nat)
  | cleared (log : Log)

namespace Role

/-- What the commit reads from the log. -/
def Sees : Role → Log → Prop
  | .working, _ => True
  | .installing log _, current => current.lh = log.lh ∧ current.start = log.start
  | .cleared log, current => current.lh = .empty ∧ current.start = log.start

/-- The blocks that the functions of the commit may write. -/
def Allows : Role → Writer → BlockNo → Prop
  | .installing log _, .writeLog, blockno => ∃ tail < log.lh.n, blockno = log.slotBlock tail
  | .installing log _, .writeHead, blockno => 0 < log.lh.n ∧ blockno = log.start
  | .installing log installed, .installTrans, blockno => log.lh.block[installed]? = some blockno
  | .cleared log, .writeHead, blockno => 0 < log.lh.n ∧ blockno = log.start
  | _, _, _ => False

def wrote : Role → Writer → Role
  | .installing log installed, .installTrans => .installing log (installed + 1)
  | role, _ => role

/-- The commit clears the log. -/
def clear : Role → Role
  | .installing log _ => .cleared log
  | role => role

/-- The log that the commit has found. -/
def log : Role → Option Log
  | .working => none
  | .installing log _ => some log
  | .cleared log => some log

theorem log_eq_none {role : Role} : role.log = none ↔ role = .working := by
  cases role <;> simp [log]

theorem wrote_log (role : Role) (caller : Writer) : (role.wrote caller).log = role.log := by
  cases role <;> cases caller <;> rfl

theorem clear_log (role : Role) : role.clear.log = role.log := by
  cases role <;> rfl

/-- A commit ends with an empty log. -/
def Finished : Role → Prop
  | .installing log _ => log.lh.n = 0
  | _ => True

end Role

/-- The duty of a process consists of its role and the buffers that it has locked. -/
structure Duty where
  role : Role
  held : Fin NBUF → Option Hold

namespace Duty

def hold (duty : Duty) (b : Fin NBUF) (hold : Hold) : Duty :=
  {duty with held := Function.update duty.held b (some hold)}

def drop (duty : Duty) (b : Fin NBUF) : Duty := {duty with held := Function.update duty.held b none}

@[simp] theorem hold_role (duty : Duty) (b : Fin NBUF) (hold : Hold) : (duty.hold b hold).role = duty.role := rfl

@[simp] theorem hold_self (duty : Duty) (b : Fin NBUF) (hold : Hold) : (duty.hold b hold).held b = some hold :=
  update_self ..

theorem hold_of_ne (duty : Duty) {b other : Fin NBUF} (ne : other ≠ b) (hold : Hold) :
    (duty.hold b hold).held other = duty.held other :=
  update_of_ne ne ..

@[simp] theorem drop_self (duty : Duty) (b : Fin NBUF) : (duty.drop b).held b = none := update_self ..

theorem drop_of_ne (duty : Duty) {b other : Fin NBUF} (ne : other ≠ b) : (duty.drop b).held other = duty.held other :=
  update_of_ne ne ..

@[simp] theorem hold_hold (duty : Duty) (b : Fin NBUF) (first second : Hold) :
    (duty.hold b first).hold b second = duty.hold b second := by
  simp [hold]

theorem hold_drop {duty : Duty} {b : Fin NBUF} (free : duty.held b = none) (hold : Hold) :
    (duty.hold b hold).drop b = duty := by
  simp [Duty.hold, drop, ← free]

theorem hold_same {duty : Duty} {b : Fin NBUF} {hold : Hold} (held : duty.held b = some hold) :
    duty.hold b hold = duty := by
  simp [Duty.hold, ← held]

def withRole (duty : Duty) (role : Role) : Duty := {duty with role}

/-- A process that has ended its program has no locked buffer, and its commit has emptied the log. -/
def Done (duty : Duty) : Prop := (∀ b, duty.held b = none) ∧ duty.role.Finished

theorem hold_drop_comm (duty : Duty) {a b : Fin NBUF} (ne : a ≠ b) (hold : Hold) :
    (duty.hold a hold).drop b = (duty.drop b).hold a hold := by
  simp [Duty.hold, drop, update_comm ne]

end Duty

/-- The protocol of the kernel on buffers. A process releases a buffer only if it has logged or written its
modifications. -/
def bufProtocol : Protocol BufAct BufAct.Result Duty where
  allowed duty
    | .bget _ => True
    | .look b => ∃ hold, duty.held b = some hold
    | .iderw b => ∃ blockno, duty.held b = some ⟨blockno, .invalid⟩
    | .store b _ => ∃ hold, duty.held b = some hold ∧ hold.stage.Ready
    | .logWrite b => duty.role = .working ∧ ∃ hold, duty.held b = some hold ∧ hold.stage.Ready
    | .bwrite caller b => ∃ hold, duty.held b = some hold ∧ hold.stage.Ready ∧ duty.role.Allows caller hold.blockno
    | .brelse b => ∃ blockno, duty.held b = some ⟨blockno, .clean⟩
    | .log => True
    | .clear => ∃ log, duty.role = .installing log log.lh.n
    | .panic _ => True
  moves duty
    | .bget blockno => fun b after => duty.held b = none ∧ after = duty.hold b ⟨blockno, .fresh⟩
    | .look b => fun buf after =>
      ∃ hold, duty.held b = some hold ∧ after = duty.hold b ⟨hold.blockno, hold.stage.seen buf.valid⟩
    | .iderw b => fun _ after => ∃ hold, duty.held b = some hold ∧ after = duty.hold b ⟨hold.blockno, .clean⟩
    | .store b _ => fun _ after => ∃ hold, duty.held b = some hold ∧ after = duty.hold b ⟨hold.blockno, .modified⟩
    | .logWrite b => fun _ after => ∃ hold, duty.held b = some hold ∧ after = duty.hold b ⟨hold.blockno, .clean⟩
    | .bwrite caller b => fun _ after => ∃ hold, duty.held b = some hold ∧
        after = (duty.hold b ⟨hold.blockno, .clean⟩).withRole (duty.role.wrote caller)
    | .brelse b => fun _ after => after = duty.drop b
    | .log => fun log after => duty.role.Sees log ∧ after = duty
    | .clear => fun _ after => ∃ log installed, duty.role = .installing log installed ∧
        after = duty.withRole (.cleared log)
    | .panic _ => fun _ _ => False

/-- One step is allowed, and each duty after it meets the postcondition. -/
theorem keeps_act {duty : Duty} (op : BufAct) {post : op.Result → Duty → Prop} (allowed : bufProtocol.allowed duty op)
    (moved : ∀ result after, bufProtocol.moves duty op result after → post result after) :
    bufProtocol.Keeps (Interaction.perform op) post duty :=
  Protocol.keeps_perform allowed moved

namespace BufM
variable {A : Type} {duty : Duty} {b : Fin NBUF} {blockno : BlockNo} {stage : Stage}

theorem keeps_look {post : Buf → Duty → Prop} (held : duty.held b = some ⟨blockno, stage⟩) (ready : stage.Ready)
    (further : ∀ buf, post buf duty) : bufProtocol.Keeps (look b) post duty := by
  apply keeps_act (.look b) ⟨_, held⟩
  rintro buf after ⟨hold, found, rfl⟩
  obtain rfl := Option.some.inj (held.symm.trans found)
  have seen : stage.seen buf.valid = stage := by
    rcases ready with rfl | rfl <;> rfl
  rw [seen, Duty.hold_same held]
  exact further buf

theorem keeps_store {post : Unit → Duty → Prop} {data : Block} (held : duty.held b = some ⟨blockno, stage⟩)
    (ready : stage.Ready) (further : post () (duty.hold b ⟨blockno, .modified⟩)) :
    bufProtocol.Keeps (store b data) post duty := by
  apply keeps_act (.store b data) ⟨_, held, ready⟩
  rintro _ after ⟨hold, found, rfl⟩
  obtain rfl := Option.some.inj (held.symm.trans found)
  exact further

theorem keeps_logWrite {post : Unit → Duty → Prop} (working : duty.role = .working)
    (held : duty.held b = some ⟨blockno, stage⟩) (ready : stage.Ready)
    (further : post () (duty.hold b ⟨blockno, .clean⟩)) : bufProtocol.Keeps (logWrite b) post duty := by
  apply keeps_act (.logWrite b) ⟨working, _, held, ready⟩
  rintro _ after ⟨hold, found, rfl⟩
  obtain rfl := Option.some.inj (held.symm.trans found)
  exact further

theorem keeps_bwrite {post : Unit → Duty → Prop} {caller : Writer} (held : duty.held b = some ⟨blockno, stage⟩)
    (ready : stage.Ready) (allows : duty.role.Allows caller blockno)
    (further : post () ((duty.hold b ⟨blockno, .clean⟩).withRole (duty.role.wrote caller))) :
    bufProtocol.Keeps (bwrite caller b) post duty := by
  apply keeps_act (.bwrite caller b) ⟨_, held, ready, allows⟩
  rintro _ after ⟨hold, found, rfl⟩
  obtain rfl := Option.some.inj (held.symm.trans found)
  exact further

theorem keeps_brelse {post : Unit → Duty → Prop} (held : duty.held b = some ⟨blockno, .clean⟩)
    (further : post () (duty.drop b)) : bufProtocol.Keeps (brelse b) post duty := by
  apply keeps_act (.brelse b) ⟨_, held⟩
  rintro _ after rfl
  exact further

theorem keeps_log {post : Log → Duty → Prop} (further : ∀ log, duty.role.Sees log → post log duty) :
    bufProtocol.Keeps log post duty := by
  apply keeps_act .log trivial
  rintro log after ⟨sees, rfl⟩
  exact further log sees

theorem keeps_panic {post : A → Duty → Prop} (reason : FsPanic) :
    bufProtocol.Keeps (panic reason : BufM A) post duty := ⟨trivial, nofun⟩

/-- The call `bread` returns a new buffer with contents that may be released. -/
theorem keeps_bread {post : Fin NBUF → Duty → Prop}
    (further : ∀ b, duty.held b = none → post b (duty.hold b ⟨blockno, .clean⟩)) :
    bufProtocol.Keeps (bread blockno) post duty := by
  apply keeps_bind
  apply keeps_act (.bget blockno) trivial
  rintro b after ⟨free, rfl⟩
  apply keeps_bind
  apply keeps_act (.look b) ⟨_, Duty.hold_self ..⟩
  rintro buf after ⟨hold, found, rfl⟩
  rw [Duty.hold_self] at found
  cases found
  rw [Duty.hold_hold]
  cases valid : buf.valid with
  | true =>
    rw [if_pos rfl]
    exact further b free
  | false =>
    rw [if_neg (by simp)]
    apply keeps_bind
    apply keeps_act (.iderw b) ⟨_, Duty.hold_self ..⟩
    rintro _ after ⟨hold, found, rfl⟩
    rw [Duty.hold_self] at found
    cases found
    rw [Duty.hold_hold]
    exact further b free

/-- A call leaves the duty as it was. -/
def Restores (duty : Duty) (program : BufM A) : Prop := bufProtocol.Keeps program (fun _ after => after = duty) duty

theorem Restores.then {B : Type} {first : BufM A} {second : A → BufM B} {post : B → Duty → Prop}
    (restores : Restores duty first) (further : ∀ value, bufProtocol.Keeps (second value) post duty) :
    bufProtocol.Keeps (first >>= second) post duty := by
  apply keeps_bind
  apply restores.mono
  rintro value after rfl
  exact further value

theorem keeps_record {rest : BufM A} {post : A → Duty → Prop} {data : Block} (working : duty.role = .working)
    (further : bufProtocol.Keeps rest post (duty.hold b ⟨blockno, .clean⟩)) :
    bufProtocol.Keeps (do store b data; logWrite b; rest) post (duty.hold b ⟨blockno, .clean⟩) := by
  apply keeps_bind
  apply keeps_store (Duty.hold_self ..) (Or.inl rfl)
  apply keeps_bind
  rw [Duty.hold_hold]
  have still : (duty.hold b ⟨blockno, .modified⟩).role = .working := working
  apply keeps_logWrite still (Duty.hold_self ..) (Or.inr rfl)
  rw [Duty.hold_hold]
  exact further

theorem keeps_release {post : Unit → Duty → Prop} (free : duty.held b = none) (further : post () duty) :
    bufProtocol.Keeps (brelse b) post (duty.hold b ⟨blockno, .clean⟩) := by
  apply keeps_brelse (Duty.hold_self ..)
  rw [Duty.hold_drop free]
  exact further

theorem keeps_released {rest : BufM A} {post : A → Duty → Prop} (free : duty.held b = none)
    (further : bufProtocol.Keeps rest post duty) :
    bufProtocol.Keeps (do brelse b; rest) post (duty.hold b ⟨blockno, .clean⟩) :=
  keeps_bind (keeps_release free further)

theorem keeps_look_new {post : Buf → Duty → Prop} (further : ∀ buf, post buf (duty.hold b ⟨blockno, .clean⟩)) :
    bufProtocol.Keeps (look b) post (duty.hold b ⟨blockno, .clean⟩) :=
  keeps_look (Duty.hold_self ..) (Or.inl rfl) further

/-- The contents of a block are looked at in a new buffer. -/
theorem keeps_read {rest : Fin NBUF → Buf → BufM A} {post : A → Duty → Prop} (further : ∀ b, duty.held b = none →
      ∀ buf, bufProtocol.Keeps (rest b buf) post (duty.hold b ⟨blockno, .clean⟩)) :
    bufProtocol.Keeps (do let b ← bread blockno; let buf ← look b; rest b buf) post duty := by
  apply keeps_bind
  apply keeps_bread
  intro b free
  apply keeps_bind
  apply keeps_look_new
  exact further b free

theorem restores_readsb : Restores duty readsb := by
  apply keeps_read
  intro bp free buf
  apply keeps_released free
  rfl

section
variable (working : duty.role = .working)
include working

theorem restores_bzero (bno : BlockNo) : Restores duty (bzero bno) := by
  apply keeps_bind
  apply keeps_bread
  intro bp free
  apply keeps_record working
  apply keeps_release free
  rfl

theorem restores_ballocFrom (sb : Superblock) (maps : List Nat) : Restores duty (ballocFrom sb maps) := by
  induction maps with
  | nil => exact keeps_panic _
  | cons map rest ih =>
    apply keeps_read
    intro bp free buf
    split
    · apply keeps_record working
      apply keeps_released free
      apply (restores_bzero working _).then
      intro _
      rfl
    · apply keeps_released free
      exact ih

theorem restores_balloc (sb : Superblock) : Restores duty (balloc sb) :=
  restores_ballocFrom working sb _

theorem restores_bfree (b : BlockNo) : Restores duty (bfree b) := by
  apply restores_readsb.then
  intro sb
  apply keeps_read
  intro bp free buf
  split
  · exact keeps_panic _
  · apply keeps_record working
    apply keeps_release free
    rfl

theorem restores_iallocFrom (sb : Superblock) (type : BitVec 16) (inums : List Nat) :
    Restores duty (iallocFrom sb type inums) := by
  induction inums with
  | nil => exact keeps_panic _
  | cons inum rest ih =>
    apply keeps_read
    intro bp free buf
    split
    · apply keeps_record working
      apply keeps_released free
      rfl
    · apply keeps_released free
      exact ih

theorem restores_iupdate (sb : Superblock) (inum : Nat) (dinode : Dinode) : Restores duty (iupdate sb inum dinode) := by
  apply keeps_read
  intro bp free buf
  apply keeps_record working
  apply keeps_release free
  rfl

end

theorem restores_ilock (sb : Superblock) (inum : Nat) : Restores duty (ilock sb inum) := by
  apply keeps_read
  intro bp free buf
  apply keeps_released free
  split
  · exact keeps_panic _
  · rfl

section
variable (working : duty.role = .working)
include working

theorem restores_addrBlock (sb : Superblock) (dinode : Dinode) (index : Fin (NDIRECT + 1)) :
    Restores duty (addrBlock sb dinode index) := by
  rw [addrBlock]
  split
  · apply (restores_balloc working sb).then
    intro addr
    rfl
  · rfl

theorem restores_bmap (sb : Superblock) (dinode : Dinode) (bn : Nat) : Restores duty (bmap sb dinode bn) := by
  rw [bmap]
  split
  · exact restores_addrBlock working sb dinode _
  · split
    · apply (restores_addrBlock working sb dinode _).then
      intro found
      apply keeps_read
      intro bp free buf
      split
      · have still : (duty.hold bp ⟨found.1, .clean⟩).role = .working := working
        apply (restores_balloc still sb).then
        intro addr
        apply keeps_record working
        apply keeps_released free
        rfl
      · apply keeps_released free
        rfl
    · exact keeps_panic _

theorem restores_freeDirect (indices : List (Fin NDIRECT)) (dinode : Dinode) :
    Restores duty (freeDirect dinode indices) := by
  induction indices generalizing dinode with
  | nil => rfl
  | cons index rest ih =>
    rw [freeDirect]
    split
    · exact ih dinode
    · apply (restores_bfree working _).then
      intro _
      exact ih _

theorem restores_freeEntry (data : Block) (index : Nat) : Restores duty (freeEntry data index) := by
  rw [freeEntry]
  split
  · rfl
  · exact restores_bfree working _

theorem restores_freeIndirect (dinode : Dinode) : Restores duty (freeIndirect dinode) := by
  rw [freeIndirect]
  split
  · rfl
  · apply keeps_read
    intro bp free buf
    apply keeps_bind
    apply Protocol.keeps_forM
    · intro index _
      have still : (duty.hold bp ⟨dinode.addrs (Fin.last NDIRECT), .clean⟩).role = .working := working
      exact restores_freeEntry still buf.data index
    · apply keeps_released free
      apply (restores_bfree working _).then
      intro _
      rfl

theorem restores_itrunc (sb : Superblock) (inum : Nat) (dinode : Dinode) : Restores duty (itrunc sb inum dinode) := by
  apply (restores_freeDirect working _ dinode).then
  intro dinode
  apply (restores_freeIndirect working dinode).then
  intro dinode
  apply (restores_iupdate working sb inum _).then
  intro _
  rfl

theorem restores_iputFree (sb : Superblock) (inum : Nat) (dinode : Dinode) :
    Restores duty (iputFree sb inum dinode) := by
  apply (restores_itrunc working sb inum dinode).then
  intro dinode
  exact restores_iupdate working sb inum _

theorem restores_readi (sb : Superblock) (devsw : Devsw) (dinode : Dinode) (off n : BitVec 32) :
    Restores duty (readi sb devsw dinode off n) := by
  rw [readi]
  split
  · rfl
  · split
    · rfl
    · apply keeps_bind
      apply Protocol.keeps_forChunks
      · intro bn start m value
        apply (restores_bmap working sb value.1 bn).then
        intro found
        apply keeps_read
        intro bp free buf
        apply keeps_released free
        rfl
      · intro value
        rfl

theorem restores_writei (sb : Superblock) (devsw : Devsw) (inum : Nat) (dinode : Dinode) (src : List (BitVec 8))
    (off n : BitVec 32) : Restores duty (writei sb devsw inum dinode src off n) := by
  rw [writei]
  split
  · rfl
  · split
    · rfl
    · split
      · rfl
      · apply keeps_bind
        apply Protocol.keeps_forChunks
        · intro bn start m value
          apply (restores_bmap working sb value.1 bn).then
          intro found
          apply keeps_read
          intro bp free buf
          apply keeps_record working
          apply keeps_released free
          rfl
        · intro value
          split
          · apply (restores_iupdate working sb inum _).then
            intro _
            rfl
          · rfl

end

theorem Restores.discard {program : BufM A} (restores : Restores duty program) :
    Restores duty (do let _ ← program; pure ()) := by
  apply restores.then
  intro _
  rfl

end BufM

/-- Every call of the file system logs what it modifies and releases what it locks. -/
theorem restores_program {duty : Duty} (working : duty.role = .working) (sb : Superblock) (devsw : Devsw)
    (function : BufCall) : BufM.Restores duty (function.program sb devsw) := by
  cases function with
  | readsb => exact restores_readsb.discard
  | bzero bno => exact restores_bzero working bno
  | balloc => exact (restores_balloc working sb).discard
  | bfree b => exact restores_bfree working b
  | ialloc type => exact (restores_iallocFrom working sb type _).discard
  | iupdate inum dinode => exact restores_iupdate working sb inum dinode
  | ilock inum => exact (restores_ilock sb inum).discard
  | bmap dinode bn => exact (restores_bmap working sb dinode bn).discard
  | itrunc inum dinode => exact (restores_itrunc working sb inum dinode).discard
  | iput inum dinode => exact restores_iputFree working sb inum dinode
  | readi dinode off n => exact (restores_readi working sb devsw dinode off n).discard
  | writei inum dinode src off n => exact (restores_writei working sb devsw inum dinode src off n).discard

namespace BufM
variable {duty : Duty} {log : Log}

/-- A loop over the log header goes through all its blocks if the commit sees the same header all the time. -/
theorem keeps_forTail {body : Log → Nat → BufM Unit} (log : Log) (duties : Nat → Duty)
    (sees : ∀ tail current, (duties tail).role.Sees current → current.lh = log.lh ∧ current.start = log.start)
    (iterate : ∀ tail < log.lh.n, ∀ current : Log, current.lh = log.lh → current.start = log.start →
      bufProtocol.Keeps (body current tail) (fun _ after => after = duties (tail + 1)) (duties tail))
    (fuel tail : Nat) (enough : log.lh.n < tail + fuel) (within : tail ≤ log.lh.n) :
    bufProtocol.Keeps (forTail body fuel tail) (fun _ after => after = duties log.lh.n) (duties tail) := by
  induction fuel generalizing tail with
  | zero => omega
  | succ fuel ih =>
    apply keeps_bind
    apply keeps_log
    intro current seen
    obtain ⟨sameHeader, sameStart⟩ := sees tail current seen
    rw [sameHeader]
    split
    case isTrue more =>
      apply keeps_bind
      apply (iterate tail more current sameHeader sameStart).mono
      rintro _ after rfl
      exact ih (tail + 1) (by omega) (by omega)
    case isFalse last =>
      have same : tail = log.lh.n := by
        omega
      rw [same]
      rfl

/-- A buffer gets new contents and is written. -/
theorem keeps_overwrite {A : Type} {duty : Duty} {b : Fin NBUF} {blockno : BlockNo} {caller : Writer} {data : Block}
    {rest : BufM A} {post : A → Duty → Prop} (held : duty.held b = some ⟨blockno, .clean⟩)
    (allows : duty.role.Allows caller blockno)
    (further : bufProtocol.Keeps rest post (duty.withRole (duty.role.wrote caller))) :
    bufProtocol.Keeps (do store b data; bwrite caller b; rest) post duty := by
  apply keeps_bind
  apply keeps_store held (.inl rfl)
  apply keeps_bind
  apply keeps_bwrite (Duty.hold_self ..) (Or.inr rfl) allows
  rw [Duty.hold_hold, Duty.hold_same held]
  exact further

theorem restores_writeLogBlock {installed tail : Nat} (role : duty.role = .installing log installed)
    (inside : tail < log.lh.n) (current : Log) (start : current.start = log.start) :
    Restores duty (writeLogBlock current tail) := by
  apply keeps_bind
  apply keeps_bread
  intro dst freeDst
  apply keeps_bind
  apply keeps_bread
  intro src freeSrc
  have apart : dst ≠ src := by
    rintro rfl
    simp at freeSrc
  apply keeps_bind
  apply keeps_look_new
  intro buf
  have held : ((duty.hold dst ⟨current.slotBlock tail, .clean⟩).hold src ⟨homeBlock current tail, .clean⟩).held dst =
      some ⟨current.slotBlock tail, .clean⟩ := by
    rw [Duty.hold_of_ne _ apart, Duty.hold_self]
  have slot : current.slotBlock tail = log.slotBlock tail := by
    rw [Log.slotBlock, start, Log.slotBlock]
  apply keeps_overwrite held
  · rw [Duty.hold_role, Duty.hold_role, role]
    exact ⟨tail, inside, slot⟩
  · have same : duty.role.wrote .writeLog = duty.role := by
      rw [role]
      rfl
    rw [Duty.hold_role, Duty.hold_role, same]
    apply keeps_bind
    apply keeps_release freeSrc
    apply keeps_release freeDst
    rfl

theorem keeps_installBlock {installed : Nat} (role : duty.role = .installing log installed)
    (inside : installed < log.lh.n) (current : Log) (header : current.lh = log.lh) :
    bufProtocol.Keeps (installBlock current installed)
      (fun _ after => after = duty.withRole (.installing log (installed + 1))) duty := by
  apply keeps_bind
  apply keeps_bread
  intro lbuf freeLog
  apply keeps_bind
  apply keeps_bread
  intro dbuf freeHome
  have apart : dbuf ≠ lbuf := by
    rintro rfl
    simp at freeHome
  apply keeps_bind
  have held : ((duty.hold lbuf ⟨current.slotBlock installed, .clean⟩).hold dbuf
      ⟨homeBlock current installed, .clean⟩).held lbuf = some ⟨current.slotBlock installed, .clean⟩ := by
    rw [Duty.hold_of_ne _ apart.symm, Duty.hold_self]
  apply keeps_look held (.inl rfl)
  intro buf
  have home : log.lh.block[installed]? = some (homeBlock current installed) := by
    rw [homeBlock, header, List.getD_eq_getElem?_getD, List.getElem?_eq_getElem inside]
    rfl
  apply keeps_overwrite (Duty.hold_self ..)
  · rw [Duty.hold_role, Duty.hold_role, role]
    exact home
  · rw [Duty.hold_role, Duty.hold_role, role]
    apply keeps_bind
    have still : (((duty.withRole (.installing log (installed + 1))).hold lbuf
        ⟨current.slotBlock installed, .clean⟩).hold dbuf ⟨homeBlock current installed, .clean⟩).held lbuf =
        some ⟨current.slotBlock installed, .clean⟩ := held
    apply keeps_brelse still
    have free : (duty.withRole (.installing log (installed + 1))).held lbuf = none := freeLog
    rw [Duty.hold_drop_comm _ apart, Duty.hold_drop free]
    apply keeps_release
    · rw [Duty.hold_of_ne _ apart] at freeHome
      exact freeHome
    · rfl

theorem restores_writeHead {role : Role} (same : duty.role = role) (start : BlockNo)
    (sees : ∀ current, role.Sees current → current.start = start) (allows : role.Allows .writeHead start)
    (keeps : role.wrote .writeHead = role) : Restores duty writeHead := by
  apply keeps_bind
  apply keeps_log
  intro current seen
  rw [same] at seen
  apply keeps_bind
  apply keeps_bread
  intro b free
  apply keeps_bind
  apply keeps_look_new
  intro buf
  apply keeps_overwrite (Duty.hold_self ..)
  · rw [Duty.hold_role, same, sees current seen]
    exact allows
  · rw [Duty.hold_role, same, keeps, ← same]
    apply keeps_release free
    rfl

/-- The commit installs every block of the header that it finds and empties the log. -/
theorem keeps_commit (role : duty.role = .installing log 0) (free : ∀ b, duty.held b = none) :
    bufProtocol.Keeps commit (fun _ after => after.Done) duty := by
  apply keeps_bind
  apply keeps_log
  intro current seen
  rw [role] at seen
  rw [seen.1]
  split
  case isTrue some =>
    have enough : log.lh.n < 0 + (LOGSIZE + 1) := by
      have fits := log.lh.fits
      simp only [LogHeader.n]
      omega
    have installing : ∀ installed, (duty.withRole (.installing log installed)).role = .installing log installed :=
      fun _ => rfl
    have written : Restores duty writeLog := by
      apply (keeps_forTail log (fun _ => duty) _ _ (LOGSIZE + 1) 0 enough (Nat.zero_le _))
      · intro _ current seen
        rw [role] at seen
        exact seen
      · intro tail inside current _ start
        exact restores_writeLogBlock role inside current start
    apply written.then
    intro _
    apply (restores_writeHead role log.start (fun current seen => seen.2) ⟨some, rfl⟩ rfl).then
    intro _
    apply keeps_bind
    have same : duty = duty.withRole (.installing log 0) := by
      rw [Duty.withRole, ← role]
    rw [same]
    apply (keeps_forTail log (fun tail => duty.withRole (.installing log tail)) _ _ (LOGSIZE + 1) 0 enough
      (Nat.zero_le _)).mono
    · rintro _ after rfl
      apply keeps_bind
      apply keeps_act .clear ⟨log, rfl⟩
      rintro _ after ⟨cleared, installed, found, rfl⟩
      obtain ⟨rfl, rfl⟩ := Role.installing.inj found
      have role : ((duty.withRole (.installing log log.lh.n)).withRole (.cleared log)).role = .cleared log := rfl
      apply (restores_writeHead role log.start (fun current seen => seen.2) ⟨some, rfl⟩ rfl).mono
      rintro _ after rfl
      exact ⟨free, trivial⟩
    · intro tail current seen
      exact seen
    · intro tail inside current header _
      exact keeps_installBlock rfl inside current header
  case isFalse none =>
    refine ⟨free, ?_⟩
    rw [role]
    exact Nat.eq_zero_of_not_pos none

end BufM
end Xv6
