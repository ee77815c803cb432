import Xv6.Library.Crash

namespace Xv6.Library
open Function List

/-- A physical redo log keeps a header cell and numbered record cells on the store it protects.
The decoder reads from a header which home cells the records belong to. -/
structure RedoLog (A B : Type) where
  head : A
  record : Nat → A
  decode : B → Option (List A)
  erase : B → B
  erased : ∀ header, decode (erase header) = some []

section Conditions
variable {A B : Type}

/-- The records precede the header, and the header precedes the home cells. -/
def RedoLog.commitWrites (log : RedoLog A B) (homes : List A) (new : A → B) (full clear : B) :
    List (A × B) :=
  homes.zipIdx.map (fun entry => (log.record entry.2, new entry.1)) ++ ([(log.head, full)] ++
    (homes.zipIdx.map (fun entry => (entry.1, new entry.1)) ++ [(log.head, clear)]))

/-- The recovery copies every record that the header names and then erases the header. -/
def RedoLog.recoveryWrites (log : RedoLog A B) (store : A → B) : Option (List (A × B)) :=
  (log.decode (store log.head)).map fun homes =>
    homes.zipIdx.map (fun entry => (entry.1, store (log.record entry.2))) ++
      [(log.head, log.erase (store log.head))]

/-- These assumptions place one transaction on the store. -/
structure RedoLog.Transaction (log : RedoLog A B) (reserved : A → Prop) (homes : List A) : Prop where
  head : reserved log.head
  record : ∀ index < homes.length, reserved (log.record index)
  recordHead : ∀ index < homes.length, log.record index ≠ log.head
  recordDistinct : ∀ i < homes.length, ∀ j < homes.length, log.record i = log.record j → i = j
  distinct : homes.Nodup
  outside : ∀ home ∈ homes, ¬ reserved home

/-- The erased log leaves the given contents outside the reserved cells. -/
def RedoLog.Settled (log : RedoLog A B) (reserved : A → Prop) (contents store : A → B) : Prop :=
  log.decode (store log.head) = some [] ∧ ∀ address, ¬ reserved address → store address = contents address

/-- The header names the transaction, its records are complete and each home cell is old or new. -/
structure RedoLog.Pending (log : RedoLog A B) (reserved : A → Prop) (homes : List A)
    (old new store : A → B) : Prop where
  header : log.decode (store log.head) = some homes
  records : ∀ entry ∈ homes.zipIdx, store (log.record entry.2) = new entry.1
  logged : ∀ home ∈ homes, store home = old home ∨ store home = new home
  others : ∀ address, ¬ reserved address → address ∉ homes → store address = old address

variable {log : RedoLog A B} {reserved : A → Prop} {homes : List A} {old new store : A → B}

theorem zipIdx_home {entry : A × Nat} (member : entry ∈ homes.zipIdx) : entry.1 ∈ homes ∧ entry.2 < homes.length := by
  obtain ⟨_, bound, value⟩ := mem_zipIdx member
  refine ⟨?_, by omega⟩
  rw [value]
  exact getElem_mem _

/-- A free cell differs from every reserved cell. -/
theorem ne_of_reserved {free inside : A} (outside : ¬ reserved free) (held : reserved inside) : free ≠ inside := by
  rintro rfl
  exact outside held

theorem RedoLog.Transaction.nil (head : reserved log.head) : log.Transaction reserved [] where
  head := head
  record index inside := absurd inside (Nat.not_lt_zero index)
  recordHead index inside := absurd inside (Nat.not_lt_zero index)
  recordDistinct i inside := absurd inside (Nat.not_lt_zero i)
  distinct := nodup_nil
  outside _ member := absurd member not_mem_nil

/-- A pending recovery writes exactly the new home contents. -/
theorem RedoLog.Pending.recoveryWrites (pending : log.Pending reserved homes old new store) :
    log.recoveryWrites store = some (homes.zipIdx.map (fun entry => (entry.1, new entry.1)) ++
      [(log.head, log.erase (store log.head))]) := by
  rw [RedoLog.recoveryWrites, pending.header, Option.map_some]
  congr 2
  refine map_congr_left fun entry member => ?_
  rw [pending.records entry member]

theorem RedoLog.Settled.recoveryWrites {contents : A → B} (settled : log.Settled reserved contents store) :
    log.recoveryWrites store = some [(log.head, log.erase (store log.head))] := by
  rw [RedoLog.recoveryWrites, settled.1]
  rfl

end Conditions

section Protocol
variable {A B : Type} [DecidableEq A]

/-- A committed transaction replaces the logged cells. -/
def committed (homes : List A) (old new : A → B) (address : A) : B :=
  if address ∈ homes then new address else old address

/-- Every crash leaves the store in one of three recoverable conditions. -/
def RedoLog.Recoverable (log : RedoLog A B) (reserved : A → Prop) (homes : List A)
    (old new store : A → B) : Prop :=
  log.Settled reserved old store ∨ log.Pending reserved homes old new store ∨
    log.Settled reserved (committed homes old new) store

variable {log : RedoLog A B} {reserved : A → Prop} {homes : List A} {old new store after : A → B}

/-- A recoverable header names no cell or exactly the logged cells. -/
theorem RedoLog.Recoverable.decode (recoverable : log.Recoverable reserved homes old new store) :
    log.decode (store log.head) = some [] ∨ log.decode (store log.head) = some homes := by
  rcases recoverable with settled | pending | settled
  · exact .inl settled.1
  · exact .inr pending.header
  · exact .inl settled.1

/-- A record write keeps the settled contents. -/
theorem RedoLog.Settled.update_record {contents : A → B} (settled : log.Settled reserved contents store) {address : A}
    (inside : reserved address) (notHead : address ≠ log.head) (value : B) :
    log.Settled reserved contents (update store address value) := by
  refine ⟨?_, fun other free => ?_⟩
  · rw [update_of_ne notHead.symm]
    exact settled.1
  · rw [update_of_ne (ne_of_reserved free inside)]
    exact settled.2 other free

variable (place : log.Transaction reserved homes)
include place

/-- An erased header settles the contents that the other cells hold. -/
theorem RedoLog.settled_update_head {contents : A → B}
    (outside : ∀ address, ¬ reserved address → store address = contents address) {value : B}
    (empty : log.decode value = some []) : log.Settled reserved contents (update store log.head value) := by
  refine ⟨by rwa [update_self], fun other free => ?_⟩
  rw [update_of_ne (ne_of_reserved free place.head)]
  exact outside other free

/-- Installing one home cell keeps the transaction pending. -/
theorem RedoLog.Pending.update_home (pending : log.Pending reserved homes old new store) {home : A}
    (member : home ∈ homes) : log.Pending reserved homes old new (update store home (new home)) := by
  have apart (address : A) (inside : reserved address) : address ≠ home :=
    (ne_of_reserved (place.outside _ member) inside).symm
  refine ⟨?_, fun entry inside => ?_, fun other otherMember => ?_, fun address free absent => ?_⟩
  · rw [update_of_ne (apart _ place.head)]
    exact pending.header
  · rw [update_of_ne (apart _ (place.record _ (zipIdx_home inside).2))]
    exact pending.records entry inside
  · by_cases same : other = home
    · subst other
      exact .inr (update_self ..)
    · rw [update_of_ne same]
      exact pending.logged other otherMember
  · have ne : address ≠ home := by
      rintro rfl
      exact absent member
    rw [update_of_ne ne]
    exact pending.others address free absent

/-- The complete installation leaves the new contents outside the reserved cells. -/
theorem RedoLog.Pending.installed (pending : log.Pending reserved homes old new store) (address : A)
    (free : ¬ reserved address) :
    applyWrites (homes.zipIdx.map fun entry => (entry.1, new entry.1)) store address =
      committed homes old new address := by
  have addresses : (homes.zipIdx.map fun entry => (entry.1, new entry.1)).map Prod.fst = homes := by
    rw [map_map]
    exact zipIdx_map_fst 0 homes
  unfold committed
  split
  case isTrue member =>
    obtain ⟨entry, inside, rfl⟩ := mem_map.mp ((zipIdx_map_fst 0 homes).symm ▸ member)
    exact applyWrites_mem _ store (addresses.symm ▸ place.distinct)
      (mem_map_of_mem (f := fun entry : A × Nat => (entry.1, new entry.1)) inside)
  case isFalse absent =>
    rw [applyWrites_other]
    · exact pending.others address free absent
    · rintro write inside rfl
      exact absent (addresses ▸ mem_map_of_mem inside)

/-- Each record cell holds the contents that were recorded for its home cell. -/
theorem RedoLog.applyWrites_record {entry : A × Nat} (member : entry ∈ homes.zipIdx) :
    applyWrites (homes.zipIdx.map fun entry => (log.record entry.2, new entry.1)) store
      (log.record entry.2) = new entry.1 := by
  have addresses : (homes.zipIdx.map fun entry => (log.record entry.2, new entry.1)).map Prod.fst =
      (range' 0 homes.length).map log.record := by
    rw [map_map, ← zipIdx_map_snd 0 homes, map_map]
    rfl
  have distinct : ((range' 0 homes.length).map log.record).Nodup := by
    refine List.Nodup.map_on (fun i inI j inJ => ?_) nodup_range'
    simp only [mem_range'_1] at inI inJ
    exact place.recordDistinct i (by omega) j (by omega)
  exact applyWrites_mem _ store (addresses.symm ▸ distinct)
    (mem_map_of_mem (f := fun entry : A × Nat => (log.record entry.2, new entry.1)) member)

/-- The records and the header make the transaction pending. -/
theorem RedoLog.pending_of_records (settled : log.Settled reserved old store) {full : B}
    (header : log.decode full = some homes) :
    log.Pending reserved homes old new (update
      (applyWrites (homes.zipIdx.map fun entry => (log.record entry.2, new entry.1)) store)
      log.head full) := by
  have unrecorded (address : A) (free : ¬ reserved address) :
      applyWrites (homes.zipIdx.map fun entry => (log.record entry.2, new entry.1)) store address = old address := by
    rw [applyWrites_other]
    · exact settled.2 address free
    · rintro write inside rfl
      obtain ⟨entry, member, rfl⟩ := mem_map.mp inside
      exact free (place.record _ (zipIdx_home member).2)
  refine ⟨by rwa [update_self], fun entry member => ?_, fun home member => ?_, fun address free _ => ?_⟩
  · rw [update_of_ne (place.recordHead _ (zipIdx_home member).2)]
    exact applyWrites_record place member
  · rw [update_of_ne (ne_of_reserved (place.outside home member) place.head)]
    exact .inl (unrecorded home (place.outside home member))
  · rw [update_of_ne (ne_of_reserved free place.head)]
    exact unrecorded address free

/-- Every cut of the record writes keeps the settled contents. -/
theorem RedoLog.Settled.cut_records {contents : A → B} (settled : log.Settled reserved contents store)
    (cut : Cut (homes.zipIdx.map fun entry => (log.record entry.2, new entry.1)) store after) :
    log.Settled reserved contents after := by
  refine cut_invariant (log.Settled reserved contents) ?_ settled cut
  intro write inside next held
  obtain ⟨entry, member, rfl⟩ := mem_map.mp inside
  have bound := (zipIdx_home member).2
  exact held.update_record (place.record _ bound) (place.recordHead _ bound) _

/-- Every cut of the home writes keeps the transaction pending. -/
theorem RedoLog.Pending.cut_homes (pending : log.Pending reserved homes old new store)
    (cut : Cut (homes.zipIdx.map fun entry => (entry.1, new entry.1)) store after) :
    log.Pending reserved homes old new after := by
  refine cut_invariant (log.Pending reserved homes old new) ?_ pending cut
  intro write inside next held
  obtain ⟨entry, member, rfl⟩ := mem_map.mp inside
  exact held.update_home place (zipIdx_home member).1

/-- Each cut of the installation and of the final erasure is recoverable. -/
theorem RedoLog.Pending.cut_install (pending : log.Pending reserved homes old new store) {clear : B}
    (empty : log.decode clear = some [])
    (cut : Cut (homes.zipIdx.map (fun entry => (entry.1, new entry.1)) ++ [(log.head, clear)]) store after) :
    log.Recoverable reserved homes old new after := by
  rcases cut_append cut with installing | erasing
  · exact .inr (.inl (pending.cut_homes place installing))
  · rcases cut_single erasing with rfl | rfl
    · exact .inr (.inl (pending.cut_homes place (cut_complete _ store)))
    · exact .inr (.inr (settled_update_head place (pending.installed place) empty))

/-- Every cut of a commit is recoverable. -/
theorem RedoLog.commit_cut (settled : log.Settled reserved old store) {full clear : B}
    (header : log.decode full = some homes) (empty : log.decode clear = some [])
    (cut : Cut (log.commitWrites homes new full clear) store after) : log.Recoverable reserved homes old new after := by
  rcases cut_append cut with recording | later
  · exact .inl (settled.cut_records place recording)
  · rcases cut_append later with heading | installing
    · rcases cut_single heading with rfl | rfl
      · exact .inl (settled.cut_records place (cut_complete _ store))
      · exact .inr (.inl (pending_of_records place settled header))
    · exact (pending_of_records place settled header).cut_install place empty installing

/-- Every cut of a recovery stays recoverable. -/
theorem RedoLog.recovery_cut (recoverable : log.Recoverable reserved homes old new store) {writes : List (A × B)}
    (runs : log.recoveryWrites store = some writes) (cut : Cut writes store after) :
    log.Recoverable reserved homes old new after := by
  have settledCut (contents : A → B) (settled : log.Settled reserved contents store) :
      log.Settled reserved contents after := by
    rw [settled.recoveryWrites, Option.some.injEq] at runs
    subst writes
    rcases cut_single cut with rfl | rfl
    · exact settled
    · exact settled_update_head place settled.2 (log.erased _)
  rcases recoverable with settled | pending | settled
  · exact .inl (settledCut old settled)
  · rw [pending.recoveryWrites, Option.some.injEq] at runs
    subst writes
    exact pending.cut_install place (log.erased _) cut
  · exact .inr (.inr (settledCut _ settled))

/-- A complete recovery settles the old contents or the new contents. -/
theorem RedoLog.recovery_complete (recoverable : log.Recoverable reserved homes old new store) :
    ∃ writes, log.recoveryWrites store = some writes ∧ (log.Settled reserved old (applyWrites writes store) ∨
        log.Settled reserved (committed homes old new) (applyWrites writes store)) := by
  rcases recoverable with settled | pending | settled
  · exact ⟨_, settled.recoveryWrites, .inl (settled_update_head place settled.2 (log.erased _))⟩
  · refine ⟨_, pending.recoveryWrites, .inr ?_⟩
    rw [applyWrites_append]
    exact settled_update_head place (pending.installed place) (log.erased _)
  · exact ⟨_, settled.recoveryWrites, .inr (settled_update_head place settled.2 (log.erased _))⟩

/-- A commit that is cut off, and recoveries that are cut off, leave a recoverable store.
The recovery procedure needs to follow the protocol on the recoverable stores only. -/
theorem RedoLog.crash_recoverable (settled : log.Settled reserved old store) {full clear : B}
    (header : log.decode full = some homes) (empty : log.decode clear = some [])
    {recovery : (A → B) → Option (List (A × B))}
    (follows : ∀ store, log.Recoverable reserved homes old new store → recovery store = log.recoveryWrites store)
    {crashed restarted : A → B} (cut : Cut (log.commitWrites homes new full clear) store crashed)
    (reruns : CutRuns recovery crashed restarted) : log.Recoverable reserved homes old new restarted :=
  reruns.invariant (log.Recoverable reserved homes old new)
    (fun _ _ _ held ran inside => recovery_cut place held (follows _ held ▸ ran) inside)
    (commit_cut place settled header empty cut)

end Protocol
end Xv6.Library
