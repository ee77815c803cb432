import Xv6.Proof.Mkfs.Contents

namespace Xv6
open Library List Function

namespace MkfsCall

/-- The bytes that a call appends to an inode. -/
def chunk (inum : Nat) : MkfsCall → List (BitVec 8)
  | .ialloc _ => []
  | .iappend number p => if number = inum then p else []

/-- The type of the inode that a call allocates. -/
def allocates : MkfsCall → Option (BitVec 16)
  | .ialloc type => some type
  | .iappend _ _ => none

end MkfsCall

namespace Mkfs

/-- The concatenation of the chunks of an inode. -/
def chunks (calls : List MkfsCall) (inum : Nat) : List (BitVec 8) := calls.flatMap (MkfsCall.chunk inum)

/-- The types of the allocated inodes. The first inode has the number 1. -/
def types (calls : List MkfsCall) : List (BitVec 16) := calls.filterMap MkfsCall.allocates

/-- The data blocks of all inodes, with the indirect blocks. -/
def blocksOf (calls : List MkfsCall) : Nat :=
  ∑ inum ∈ Finset.range NINODES, unitCount (blockCount (chunks calls inum).length)

/-- After some calls, the next one allocates an inode of a file or directory or appends to an allocated one. -/
def Allowed (done : List MkfsCall) : MkfsCall → Prop
  | .ialloc type => type ≠ 0 ∧ type ≠ T_DEV ∧ (types done).length + 1 < NINODES
  | .iappend inum _ => 0 < inum ∧ inum ≤ (types done).length

instance (done : List MkfsCall) : (call : MkfsCall) → Decidable (Allowed done call)
  | .ialloc _ => inferInstanceAs (Decidable (_ ∧ _))
  | .iappend _ _ => inferInstanceAs (Decidable (_ ∧ _))

/-- The calls are allowed, no file is too large and all of them fit on the disk. -/
structure Fitting (calls : List MkfsCall) : Prop where
  allowed : ∀ position < calls.length, ∀ call ∈ calls[position]?, Allowed (calls.take position) call
  small : ∀ inum < NINODES, (chunks calls inum).length ≤ MAXFILE * BSIZE
  fits : blocksOf calls ≤ nblocks

variable {calls done later : List MkfsCall} {call : MkfsCall} {state s next : MkfsState} {inum : Nat} {p : List (BitVec 8)}

theorem chunks_snoc (inum : Nat) : chunks (done ++ [call]) inum = chunks done inum ++ call.chunk inum := by
  rw [chunks, flatMap_append, flatMap_singleton]
  rfl

theorem chunks_le (done later : List MkfsCall) (inum : Nat) :
    (chunks done inum).length ≤ (chunks (done ++ later) inum).length := by
  rw [chunks, chunks, flatMap_append, length_append]
  exact Nat.le_add_right ..

theorem types_snoc : types (done ++ [call]) = types done ++ call.allocates.toList := by
  rw [types, filterMap_append]
  cases call <;> rfl

theorem blocksOf_le (done later : List MkfsCall) : blocksOf done ≤ blocksOf (done ++ later) :=
  Finset.sum_le_sum fun inum _ => unitCount_mono (blockCount_mono (chunks_le done later inum))

/-- A chunk changes the blocks of one inode. -/
theorem blocksOf_iappend (done : List MkfsCall) (p : List (BitVec 8)) (inside : inum < NINODES) :
    blocksOf (done ++ [.iappend inum p]) + unitCount (blockCount (chunks done inum).length) =
      blocksOf done + unitCount (blockCount ((chunks done inum).length + p.length)) := by
  have member : inum ∈ Finset.range NINODES := Finset.mem_range.mpr inside
  have others : ∀ other ∈ (Finset.range NINODES).erase inum,
      unitCount (blockCount (chunks (done ++ [.iappend inum p]) other).length) =
        unitCount (blockCount (chunks done other).length) := by
    intro other within
    have ne := Finset.ne_of_mem_erase within
    rw [chunks_snoc, MkfsCall.chunk, if_neg ne.symm, append_nil]
  rw [blocksOf, blocksOf, ← Finset.add_sum_erase _ _ member, ← Finset.add_sum_erase _ _ member,
    Finset.sum_congr rfl others, chunks_snoc, MkfsCall.chunk, if_pos rfl, length_append]
  omega

theorem blocksOf_ialloc (type : BitVec 16) : blocksOf (done ++ [.ialloc type]) = blocksOf done := by
  apply Finset.sum_congr rfl
  intro other _
  rw [chunks_snoc, MkfsCall.chunk, append_nil]

/-- The image has the chunks of the calls. -/
structure Written (done : List MkfsCall) (state : MkfsState) : Prop where
  sound : Sound state
  freeinode : state.freeinode = (Mkfs.types done).length + 1
  few : state.freeinode ≤ NINODES
  free : ∀ inum < NINODES, state.freeinode ≤ inum → (inode state inum).type = 0
  types : ∀ inum < NINODES, 0 < inum → inum < state.freeinode →
    (inode state inum).type ≠ 0 ∧ (inode state inum).type ≠ T_DEV
  contents : ∀ inum < NINODES, 0 < inum → inum < state.freeinode → content state inum = chunks done inum
  absent : ∀ inum, inum = 0 ∨ state.freeinode ≤ inum → chunks done inum = []
  blocks : state.freeblock = nmeta + blocksOf done

/-- The size of a file is the length of its chunks. -/
theorem Written.size (written : Written done s) (inside : inum < NINODES) (positive : 0 < inum)
    (allocated : inum < s.freeinode) : (inode s inum).size.toNat = (chunks done inum).length := by
  rw [← written.contents inum inside positive allocated]
  exact (Dinode.content_length ..).symm

theorem Written.ialloc (written : Written done s) {type : BitVec 16} (allowed : Allowed done (.ialloc type)) :
    ∃ next, perform (.ialloc type) s = .ok ((), next) ∧ Written (done ++ [.ialloc type]) next := by
  obtain ⟨nonzero, file, few⟩ := allowed
  rw [← written.freeinode] at few
  obtain ⟨next, ran, created⟩ := written.sound.ialloc few (written.free _ few le_rfl) type
  have chunk : ∀ inum, chunks (done ++ [.ialloc type]) inum = chunks done inum := by
    intro inum
    rw [chunks_snoc, MkfsCall.chunk, append_nil]
  refine ⟨next, ?_, created.sound, ?_, ?_, ?_, ?_, ?_, ?_, ?_⟩
  · rw [perform, bind_ran ran]
    rfl
  · rw [created.freeinode, written.freeinode, types_snoc]
    simp [MkfsCall.allocates]
  · rw [created.freeinode]
    exact few
  · intro inum inside above
    rw [created.freeinode] at above
    rw [created.inodes inum inside (by omega)]
    exact written.free inum inside (by omega)
  · intro inum inside positive allocated
    rw [created.freeinode] at allocated
    by_cases fresh : inum = s.freeinode
    · rw [fresh, created.own]
      exact ⟨nonzero, file⟩
    · rw [created.inodes inum inside fresh]
      exact written.types inum inside positive (by omega)
  · intro inum inside positive allocated
    rw [created.freeinode] at allocated
    rw [chunk]
    by_cases fresh : inum = s.freeinode
    · rw [fresh, created.empty, written.absent _ (.inr le_rfl)]
    · have old : inum < s.freeinode := by omega
      rw [created.others inum inside fresh (written.types inum inside positive old).1]
      exact written.contents inum inside positive old
  · intro inum outside
    rw [created.freeinode] at outside
    rw [chunk]
    exact written.absent inum (by omega)
  · rw [created.freeblock, written.blocks, blocksOf_ialloc]

theorem Written.iappend_ran (written : Written done s) (positive : 0 < inum) (allocated : inum < s.freeinode)
    (ran : Mkfs.iappend inum p s = .ok ((), next)) : Written (done ++ [.iappend inum p]) next := by
  have inside := lt_of_lt_of_le allocated written.few
  have type := (written.types inum inside positive allocated).1
  have appended := written.sound.iappend inside type (written.sound.iappend_small inside type ran) ran
  have chunk : ∀ other, other ≠ inum → chunks (done ++ [.iappend inum p]) other = chunks done other := by
    intro other ne
    rw [chunks_snoc, MkfsCall.chunk, if_neg ne.symm, append_nil]
  refine ⟨appended.sound, ?_, ?_, ?_, ?_, ?_, ?_, ?_⟩
  · rw [appended.freeinode, written.freeinode, types_snoc]
    simp [MkfsCall.allocates]
  · rw [appended.freeinode]
    exact written.few
  · intro other low above
    rw [appended.freeinode] at above
    rw [appended.inodes other low (by omega)]
    exact written.free other low above
  · intro other low more below
    rw [appended.freeinode] at below
    by_cases same : other = inum
    · rw [same, appended.own]
      exact written.types inum inside positive allocated
    · rw [appended.inodes other low same]
      exact written.types other low more below
  · intro other low more below
    rw [appended.freeinode] at below
    by_cases same : other = inum
    · rw [same, appended.bytes, chunks_snoc, MkfsCall.chunk, if_pos rfl,
        written.contents inum inside positive allocated]
    · rw [chunk other same, appended.others other low same (written.types other low more below).1]
      exact written.contents other low more below
  · intro other outside
    rw [appended.freeinode] at outside
    rw [chunk other (by omega)]
    exact written.absent other outside
  · have blocks := appended.blocks
    have counted := blocksOf_iappend done p inside
    rw [written.size inside positive allocated, written.blocks] at blocks
    omega

theorem Written.iappend (written : Written done s) (allowed : Allowed done (.iappend inum p))
    (small : (chunks (done ++ [.iappend inum p]) inum).length ≤ MAXFILE * BSIZE)
    (fits : blocksOf (done ++ [.iappend inum p]) ≤ nblocks) :
    ∃ next, perform (.iappend inum p) s = .ok ((), next) ∧ Written (done ++ [.iappend inum p]) next := by
  obtain ⟨positive, below⟩ := allowed
  have allocated : inum < s.freeinode := by
    rw [written.freeinode]
    omega
  have inside := lt_of_lt_of_le allocated written.few
  have size := written.size inside positive allocated
  have counted := blocksOf_iappend done p inside
  have total : nmeta + nblocks = FSSIZE := by decide
  rw [chunks_snoc, MkfsCall.chunk, if_pos rfl, length_append] at small
  obtain ⟨next, ran⟩ := written.sound.iappend_ends (p := p) inside (written.types inum inside positive allocated).1
    (by rw [size]; exact small) (by rw [size, written.blocks]; omega)
  exact ⟨next, ran, written.iappend_ran positive allocated ran⟩

theorem Written.perform (fitting : Fitting calls) (whole : calls = done ++ call :: later) (written : Written done s) :
    ∃ next, perform call s = .ok ((), next) ∧ Written (done ++ [call]) next := by
  have allowed : Allowed done call := by
    have here : call ∈ calls[done.length]? := by simp [whole]
    have before : calls.take done.length = done := by simp [whole]
    rw [← before]
    exact fitting.allowed done.length (by simp [whole]) call here
  have split : calls = (done ++ [call]) ++ later := by rw [whole, append_assoc, singleton_append]
  cases call with
  | ialloc type => exact written.ialloc allowed
  | iappend inum p =>
    have inside : inum < NINODES := by
      have few := written.few
      rw [written.freeinode] at few
      exact lt_of_le_of_lt allowed.2 few
    apply written.iappend allowed
    · have small := fitting.small inum inside
      rw [split] at small
      exact (chunks_le _ later inum).trans small
    · have fits := fitting.fits
      rw [split] at fits
      exact (blocksOf_le _ later).trans fits

theorem Room.balloc (room : Room s) : Mkfs.balloc s.freeblock s = .ok ((), {s with disk := stamp s}) := by
  have few : s.freeblock < BSIZE * 8 := lt_of_le_of_lt room.high (by decide)
  rw [Mkfs.balloc, if_pos few, wsect_ok (by decide)]
  rfl

theorem Sound.boot (sound : Sound s) : Fs.boot (stamp s) = bare s := by
  rw [Fs.boot, bare]
  congr 1
  exact sound.formed.blocks.super

end Mkfs
end Xv6
