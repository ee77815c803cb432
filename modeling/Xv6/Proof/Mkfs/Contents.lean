import Xv6.Proof.Mkfs.Append

namespace Xv6
open Library Function
open Dinode (zero)

/-- The bytes of a file after its end in the last block are zero. -/
def Dinode.Padded (dinode : Dinode) (disk : Disk) : Prop :=
  ∀ position, dinode.size.toNat ≤ position → position / BSIZE < blockCount dinode.size.toNat →
    dinode.byte disk position = 0

/-- A write at the end of a file leaves zero bytes after the new end. -/
theorem Fs.Writing.padded {start fs : Fs} {ip : Fin NINODE} {src : List (BitVec 8)} {here : Nat}
    (formed : start.WellFormed) (locked : start.Locked ip) (grown : (start.copy ip).size.toNat ≤ here)
    (writing : Writing start ip (fileUnits start.dinode) (start.copy ip).size.toNat src here fs)
    (padded : (start.copy ip).Padded start.disk) {position : Nat} (after : here ≤ position)
    (below : position / BSIZE < blockCount here) : (fs.copy ip).byte fs.disk position = 0 := by
  have same := formed.cached.same ip locked
  by_cases old : blockUnit (position / BSIZE) < fileUnits start.dinode (start.icache ip).inum
  · rw [writing.kept position old (by omega)]
    rw [fileUnits, ← same, blockUnit_lt] at old
    exact padded position (grown.trans after) old
  · exact writing.fresh position after (Nat.le_of_not_lt old) (lt_of_lt_of_le (blockUnit_lt.mpr below) (le_max_right ..))

namespace Mkfs

variable {state s next : MkfsState} {inum other : Nat} {din : Dinode} {p : List (BitVec 8)}

/-- The kernel with an empty cache on the disk of the program. -/
def bare (state : MkfsState) : Fs where
  sb := sb
  disk := stamp state
  icache := fun _ => ⟨0, 0, false, .zero⟩

/-- The inode on the disk of the program. -/
def inode (state : MkfsState) (inum : Nat) : Dinode := (bare state).dinode inum

/-- The bytes of a file on the disk of the program. -/
def content (state : MkfsState) (inum : Nat) : List (BitVec 8) := (inode state inum).content (stamp state)

/-- The kernel would find a well-formed file system if the program ended now. -/
structure Sound (state : MkfsState) : Prop where
  room : Room state
  formed : (bare state).WellFormed
  padded : ∀ inum < NINODES, (inode state inum).type ≠ 0 → (inode state inum).Padded (stamp state)

theorem bare_cached (s : MkfsState) : (bare s).Cached where
  unique _ _ used := absurd used (Nat.lt_irrefl 0)
  inside _ used := absurd used (Nat.lt_irrefl 0)
  same _ locked := absurd locked.1 (Nat.lt_irrefl 0)
  type _ locked := absurd locked.1 (Nat.lt_irrefl 0)

theorem bare_formed (formed : (view s inum din).WellFormed) : (bare s).WellFormed where
  blocks := formed.blocks
  mapped := formed.mapped
  cached := bare_cached s

theorem view_locked : (view s inum din).Locked own := by
  rw [Fs.Locked, view_icache]
  exact ⟨Nat.one_pos, rfl⟩

theorem Sound.view_formed (sound : Sound s) (inside : inum < NINODES) (type : (inode s inum).type ≠ 0) :
    (view s inum (inode s inum)).WellFormed := by
  apply sound.formed.setInode
  apply (bare_cached s).setInode
  · intro _ entry _ used
    exact absurd used (Nat.lt_irrefl 0)
  · intro _
    rw [← sb_ninodes] at inside
    exact inside
  · intro _ _
    rfl
  · intro _ _
    exact type

theorem IBLOCK_lt (inside : inum < NINODES) :
    (IBLOCK inum sb).toNat < FSSIZE ∧ (IBLOCK inum sb).toNat < nmeta ∧ IBLOCK inum sb ≠ sb.bmapstart := by
  rw [← sb_ninodes] at inside
  have bounds := (sb_layout.IBLOCK_bounds inside).2
  have low := bmapstart_lt
  refine ⟨?_, by omega, ?_⟩
  · have most : nmeta < FSSIZE := by decide
    omega
  · intro same
    rw [same] at bounds
    exact absurd bounds (Nat.lt_irrefl _)

theorem rinode_ok (inside : inum < NINODES) : rinode inum s = .ok (inode s inum, s) := by
  obtain ⟨low, _, other⟩ := IBLOCK_lt inside
  rw [rinode, bind_ran (rsect_ok low), inode, Fs.dinode]
  change _ = Except.ok (Dinode.decode (slot _ (stamp s (IBLOCK inum sb)) _), s)
  rw [stamp_of_ne other]
  rfl

/-- The state after a write of an inode. -/
def storeInode (state : MkfsState) (inum : Nat) (din : Dinode) : MkfsState :=
  store state (IBLOCK inum sb) (setSlot (state.disk (IBLOCK inum sb)) (inum % IPB) din.encode)

theorem winode_ok (inside : inum < NINODES) : winode inum din s = .ok ((), storeInode s inum din) := by
  obtain ⟨low, _, _⟩ := IBLOCK_lt inside
  rw [winode, bind_ran (rsect_ok low), wsect_ok low]
  rfl

theorem stamp_storeInode (din : Dinode) (inside : inum < NINODES) (fs : Fs) (super : fs.sb = sb) (disk : fs.disk = stamp s) :
    (fs.setDinode inum din).disk = stamp (storeInode s inum din) := by
  obtain ⟨_, _, other⟩ := IBLOCK_lt inside
  rw [storeInode, stamp_store other, Fs.setDinode, Fs.write, super, disk, stamp_of_ne other]

theorem Room.storeInode (room : Room s) (inside : inum < NINODES) (din : Dinode) : Room (storeInode s inum din) := by
  obtain ⟨_, low, _⟩ := IBLOCK_lt inside
  exact room.store (lt_of_lt_of_le low room.low) _

/-- The free blocks of the kernel are the blocks from the counter on. -/
theorem freeCount_stamp (s : MkfsState) : freeCount sb (stamp s) = FSSIZE - s.freeblock := by
  have free : ((Finset.range sb.size.toNat).filter fun b => ¬Used sb (stamp s) (BitVec.ofNat 32 b)) =
      Finset.Ico s.freeblock FSSIZE := by
    ext b
    rw [Finset.mem_filter, Finset.mem_range, Finset.mem_Ico, sb_size]
    constructor
    · rintro ⟨inside, unused⟩
      have number : (BitVec.ofNat 32 b).toNat = b := toNat_ofNat_of_lt (sb_size.symm ▸ inside)
      rw [used_stamp (by rw [number]; exact inside), number] at unused
      exact ⟨Nat.le_of_not_lt unused, inside⟩
    · rintro ⟨above, inside⟩
      have number : (BitVec.ofNat 32 b).toNat = b := toNat_ofNat_of_lt (sb_size.symm ▸ inside)
      rw [used_stamp (by rw [number]; exact inside), number]
      exact ⟨inside, Nat.not_lt.mpr above⟩
  rw [freeCount, free, Nat.card_Ico]

theorem view_iupdate (inside : inum < NINODES) :
    Fs.iupdate own (view s inum din) = .ok ((), view (storeInode s inum din) inum din) := by
  apply wp_eq
  rw [Fs.iupdate, wp_modify, view_icache, view_copy]
  refine ⟨?_, rfl⟩
  have disk := stamp_storeInode din inside (view s inum din) rfl rfl
  change Fs.mk sb ((view s inum din).setDinode inum din).disk _ = Fs.mk sb _ _
  rw [disk]
  rfl

/-- The bytes have been appended to one file, and the other files are as they were. -/
structure Appended (state next : MkfsState) (inum : Nat) (p : List (BitVec 8)) : Prop where
  sound : Sound next
  bytes : content next inum = content state inum ++ p
  own : inode next inum = {inode state inum with
    size := (inode state inum).size + BitVec.ofNat 32 p.length
    addrs := (inode next inum).addrs}
  inodes : ∀ other < NINODES, other ≠ inum → inode next other = inode state other
  others : ∀ other < NINODES, other ≠ inum → (inode state other).type ≠ 0 → content next other = content state other
  freeinode : next.freeinode = state.freeinode
  blocks : next.freeblock + unitCount (blockCount (inode state inum).size.toNat) =
    state.freeblock + unitCount (blockCount ((inode state inum).size.toNat + p.length))

/-- The end of `iappend` leaves what the end of `writei` leaves. -/
theorem Sound.appended (sound : Sound s) (inside : inum < NINODES) (type : (inode s inum).type ≠ 0)
    (small : (inode s inum).size.toNat + p.length ≤ MAXFILE * BSIZE) {last : Dinode} {between : MkfsState}
    (room : Room between) (inodes : between.freeinode = s.freeinode)
    (writing : Fs.Writing (view s inum (inode s inum)) own
      (fileUnits (view s inum (inode s inum)).dinode) (inode s inum).size.toNat p
      ((inode s inum).size.toNat + p.length) (view between inum last)) :
    Appended s (storeInode between inum {last with size := (inode s inum).size + BitVec.ofNat 32 p.length}) inum p := by
  have formed := sound.view_formed inside type
  have grown : ((inode s inum).size + BitVec.ofNat 32 p.length).toNat = (inode s inum).size.toNat + p.length := by
    simp only [MAXFILE, NDIRECT, NINDIRECT, BSIZE] at small
    rw [BitVec.toNat_add, BitVec.toNat_ofNat]
    omega
  obtain ⟨size, sized⟩ : ∃ size, size = (inode s inum).size + BitVec.ofNat 32 p.length := ⟨_, rfl⟩
  rw [← sized] at grown ⊢
  have alive := writing.live (formed.cached.live view_locked)
  have but := (formed.cached.but own).edited writing.toEdited
  have number : ((view s inum (inode s inum)).icache own).inum = inum := by rw [view_icache]
  have within : ((view between inum {last with size}).icache own).inum < sb.ninodes.toNat := by
    rw [view_icache, sb_ninodes]
    exact inside
  have synced : Fs.Synced own ((view between inum last).setCopy own {(view between inum last).copy own with size})
      (view (storeInode between inum {last with size}) inum {last with size}) := by
    have updated : wp (Fs.iupdate own) (fun _ next => Fs.Synced own (view between inum {last with size}) next)
        (fun _ => True) (view between inum {last with size}) := Fs.wp_iupdate sb_layout within
    have stored := wp_ok updated (view_iupdate inside)
    rw [view_copy, view_setCopy]
    exact stored
  have finished := Fs.Finished.of_synced writing.image but alive view_locked.1 synced
  obtain ⟨after, overwritten⟩ := writing.finish formed view_locked (List.take_length) (by rw [view_copy])
    (by rw [view_copy, grown, max_eq_right (Nat.le_add_right ..)]) finished
  have record : inode (storeInode between inum {last with size}) inum = {last with size} := by
    have written := finished.own
    rw [view_icache, view_copy] at written
    exact written
  have edited : last = {inode s inum with addrs := last.addrs} := by
    have kept := writing.copy
    rw [view_copy, view_copy] at kept
    exact kept
  have bytes := overwritten.content
  have others := overwritten.inodes
  have files := overwritten.others
  have free := writing.free
  rw [number] at bytes others files free
  have units : fileUnits (view s inum (inode s inum)).dinode inum =
      unitCount (blockCount (inode s inum).size.toNat) := rfl
  have more : unitCount (blockCount (inode s inum).size.toNat) ≤
      unitCount (blockCount ((inode s inum).size.toNat + p.length)) :=
    unitCount_mono (blockCount_mono (Nat.le_add_right ..))
  refine ⟨⟨room.storeInode inside _, bare_formed after, ?_⟩, ?_, ?_, ?_, ?_, inodes, ?_⟩
  · intro other low kind position above below
    by_cases same : other = inum
    · rw [same, record] at above below
      rw [grown] at above below
      have stays := finished.bytes _ alive.image position (by
        rw [number, view_icache, update_self, units, max_eq_right more]
        exact blockUnit_lt.mpr below)
      rw [view_icache, view_table] at stays
      have zero := writing.padded formed view_locked (by rw [view_copy]; exact Nat.le_add_right ..)
        (by rw [view_copy]; exact sound.padded inum inside type) above below
      rw [view_copy] at zero
      rw [same]
      exact stays.trans zero
    · have equal : inode (storeInode between inum {last with size}) other = inode s other :=
        others other (sb_ninodes ▸ low) same
      rw [equal] at kind above below
      have within : other < (view s inum (inode s inum)).sb.ninodes.toNat := sb_ninodes ▸ low
      have ne : other ≠ ((view s inum (inode s inum)).icache own).inum := by
        rw [number]
        exact same
      have middle : (view between inum last).table own other = inode s other := by
        rw [Fs.table, writing.inum, update_of_ne ne, writing.inodes other within]
        rfl
      have mapped : blockUnit (position / BSIZE) < fileUnits (view s inum (inode s inum)).dinode other :=
        blockUnit_lt.mpr below
      have live : FsImage.Live sb ((view between inum last).table own) other :=
        ⟨within, by rw [middle]; exact kind⟩
      have stays := finished.bytes other live position (by
        rw [update_of_ne ne]
        exact mapped)
      have held := writing.byte_other formed view_locked within ne kind mapped
      rw [middle] at stays
      exact (stays.trans held).trans (sound.padded other low kind position above below)
  · have length : (inode s inum).size.toNat = (content s inum).length := (Dinode.content_length ..).symm
    change _ = overwrite (content s inum) _ p at bytes
    rw [length, overwrite_end] at bytes
    exact bytes
  · rw [record, ← sized]
    exact congrArg (fun kept : Dinode => {kept with size}) edited
  · exact fun other low ne => others other (sb_ninodes ▸ low) ne
  · exact fun other low ne type => files other (sb_ninodes ▸ low) ne type
  · change freeCount sb (stamp between) + _ = freeCount sb (stamp s) + _ at free
    rw [units, max_eq_right more, freeCount_stamp, freeCount_stamp] at free
    have high := room.high
    have start := sound.room.high
    change between.freeblock + _ = _
    omega

/-- The loop of a call that ends stays within the largest file. -/
theorem appendChunks_small {n off : Nat} {value last : Dinode × List (BitVec 8)} (within : off ≤ MAXFILE * BSIZE)
    (ran : forChunks BSIZE appendChunk n off n value s = .ok (last, next)) : off + n ≤ MAXFILE * BSIZE := by
  have loop : wp (forChunks BSIZE appendChunk n off n value) (fun _ _ => off + n ≤ MAXFILE * BSIZE) (fun _ => True)
      s := by
    apply wp_forChunks (fun here _ _ => here ≤ MAXFILE * BSIZE)
    · decide
    · exact le_rfl
    · exact within
    · intro here value current _ _ _
      rw [appendChunk]
      split
      · next low =>
          apply wp_const
          simp only [BSIZE] at low ⊢
          omega
      · trivial
  have fact := wp_ok loop ran
  exact fact

theorem Sound.size_le (sound : Sound s) (inside : inum < NINODES) (type : (inode s inum).type ≠ 0) :
    (inode s inum).size.toNat ≤ MAXFILE * BSIZE := by
  have fits := (sound.formed.mapped inum (sb_ninodes ▸ inside) type).fits
  change blockCount (inode s inum).size.toNat ≤ MAXFILE at fits
  simp only [blockCount, BSIZE] at fits ⊢
  omega

theorem Sound.iappend_small (sound : Sound s) (inside : inum < NINODES) (type : (inode s inum).type ≠ 0)
    (ran : iappend inum p s = .ok ((), next)) : (inode s inum).size.toNat + p.length ≤ MAXFILE * BSIZE := by
  rw [Mkfs.iappend, bind_ran (rinode_ok inside)] at ran
  cases loop : forChunks BSIZE appendChunk p.length (inode s inum).size.toNat p.length (inode s inum, p) s with
  | error halt =>
    rw [bind_halted loop] at ran
    cases ran
  | ok result => exact appendChunks_small (sound.size_le inside type) loop

/-- A call of `iappend` that ends has appended the bytes. -/
theorem Sound.iappend (sound : Sound s) (inside : inum < NINODES) (type : (inode s inum).type ≠ 0)
    (small : (inode s inum).size.toNat + p.length ≤ MAXFILE * BSIZE)
    (ran : iappend inum p s = .ok ((), next)) : Appended s next inum p := by
  have agree := appendChunks_agree (p := p) (sound.view_formed inside type) view_locked sound.room small
  rw [Mkfs.iappend, bind_ran (rinode_ok inside)] at ran
  cases loop : forChunks BSIZE appendChunk p.length (inode s inum).size.toNat p.length (inode s inum, p) s with
  | error halt =>
    rw [bind_halted loop] at ran
    cases ran
  | ok result =>
    obtain ⟨⟨last, rest⟩, between⟩ := result
    rw [bind_ran loop] at ran
    dsimp only at ran
    rw [winode_ok inside] at ran
    cases ran
    obtain ⟨_, fs, _, rfl, room, inodes, writing⟩ := agree.of_left loop
    exact sound.appended inside type small room inodes writing

/-- A call of `iappend` ends if there are enough blocks. -/
theorem Sound.iappend_ends (sound : Sound s) (inside : inum < NINODES) (type : (inode s inum).type ≠ 0)
    (small : (inode s inum).size.toNat + p.length ≤ MAXFILE * BSIZE)
    (enough : s.freeblock + unitCount (blockCount ((inode s inum).size.toNat + p.length)) ≤
      FSSIZE + unitCount (blockCount (inode s inum).size.toNat)) : ∃ next, Mkfs.iappend inum p s = .ok ((), next) := by
  have formed := sound.view_formed inside type
  have agree := appendChunks_agree (p := p) formed view_locked sound.room small
  have units : fileUnits (view s inum (inode s inum)).dinode inum =
      unitCount (blockCount (inode s inum).size.toNat) := rfl
  have k : wp (forChunks BSIZE (Fs.writeChunk own) p.length (inode s inum).size.toNat p.length p)
      (fun _ _ => True) (fun _ => False) (view s inum (inode s inum)) := by
    apply wp_mono (Fs.wp_writeChunks formed view_locked le_rfl (by rw [view_copy]) small)
    · intros
      trivial
    · rintro _ ⟨_, few⟩
      change freeCount sb (stamp s) + _ < _ at few
      have high := sound.room.high
      rw [view_icache, units, freeCount_stamp] at few
      omega
  obtain ⟨_, fs, ran, _⟩ := wp_exists k
  obtain ⟨⟨last, rest⟩, between, loop, _⟩ := agree.of_right ran
  rw [Mkfs.iappend, bind_ran (rinode_ok inside), bind_ran loop]
  exact ⟨_, winode_ok inside⟩

/-- A new inode without bytes has been written, and the files are as they were. -/
structure Created (state next : MkfsState) (inum : Nat) (type : BitVec 16) : Prop where
  sound : Sound next
  own : inode next inum = {Dinode.zero with type, nlink := 1}
  inodes : ∀ other < NINODES, other ≠ inum → inode next other = inode state other
  others : ∀ other < NINODES, other ≠ inum → (inode state other).type ≠ 0 → content next other = content state other
  freeinode : next.freeinode = inum + 1
  freeblock : next.freeblock = state.freeblock

theorem Created.empty {type : BitVec 16} (created : Created s next inum type) : content next inum = [] := by
  rw [content, created.own]
  rfl

/-- The counter names a free inode. -/
theorem Sound.ialloc (sound : Sound s) (inside : s.freeinode < NINODES) (free : (inode s s.freeinode).type = 0)
    (type : BitVec 16) : ∃ next, Mkfs.ialloc type s = .ok (s.freeinode, next) ∧ Created s next s.freeinode type := by
  have within : s.freeinode < sb.ninodes.toNat := sb_ninodes ▸ inside
  have disk := stamp_storeInode {zero with type, nlink := 1} inside (bare s) rfl rfl
  have after : (bare s).setDinode s.freeinode {zero with type, nlink := 1} =
      bare (storeInode s s.freeinode {zero with type, nlink := 1}) := by
    change Fs.mk sb ((bare s).setDinode _ _).disk _ = Fs.mk sb _ _
    rw [disk]
    rfl
  have inodes : ∀ other < NINODES, inode (storeInode s s.freeinode {zero with type, nlink := 1}) other =
        if other = s.freeinode then {zero with type, nlink := 1} else inode s other := by
    intro other low
    rw [inode, ← after]
    exact Fs.setDinode_dinode sb_layout within (sb_ninodes ▸ low) _
  have formed : ((bare s).setDinode s.freeinode {zero with type, nlink := 1}).WellFormed :=
    sound.formed.setDinode within free (fun _ => rfl) rfl
  have data : ∀ c : BlockNo, sb.dataStart ≤ c.toNat →
      stamp (storeInode s s.freeinode {zero with type, nlink := 1}) c = stamp s c := by
    intro c high
    rw [← disk]
    apply update_of_ne
    rintro rfl
    obtain ⟨_, below, _⟩ := IBLOCK_lt inside
    exact absurd high (Nat.not_le.mpr (sb_dataStart ▸ below))
  refine ⟨{storeInode s s.freeinode {zero with type, nlink := 1} with
    freeinode := s.freeinode + 1}, ?_, ⟨?_, ?_, ?_⟩, ?_, ?_, ?_, rfl, rfl⟩
  · change (do
      winode s.freeinode _
      pure s.freeinode : MkfsM Nat) {s with freeinode := s.freeinode + 1} = _
    rw [bind_ran (winode_ok inside)]
    rfl
  · have room := sound.room.storeInode inside {zero with type, nlink := 1}
    exact ⟨room.low, room.high, room.zero⟩
  · rw [after] at formed
    exact formed
  · intro other low kind position above below
    change (inode (storeInode s s.freeinode {zero with type, nlink := 1}) other).size.toNat ≤ _ at above
    change _ < blockCount (inode (storeInode s s.freeinode {zero with type, nlink := 1}) other).size.toNat
      at below
    change (inode (storeInode s s.freeinode {zero with type, nlink := 1}) other).type ≠ 0 at kind
    change (inode (storeInode s s.freeinode {zero with type, nlink := 1}) other).byte
      (stamp (storeInode s s.freeinode {zero with type, nlink := 1})) position = 0
    rw [inodes other low] at above below kind ⊢
    split at above
    · next fresh =>
        have none : blockCount (0 : BitVec 32).toNat = 0 := by decide
        rw [if_pos fresh] at below
        change _ < blockCount (0 : BitVec 32).toNat at below
        rw [none] at below
        exact absurd below (Nat.not_lt_zero _)
    · next old =>
        rw [if_neg old] at below kind ⊢
        have kept := sound.formed.byte_kept (sb_ninodes ▸ low) kind data below
        exact kept.trans (sound.padded other low kind position above below)
  · exact (inodes _ inside).trans (if_pos rfl)
  · intro other low ne
    exact (inodes _ low).trans (if_neg ne)
  · intro other low ne kind
    have same := (inodes _ low).trans (if_neg ne)
    change (inode (storeInode s s.freeinode {zero with type, nlink := 1}) other).content _ = _
    rw [same]
    exact sound.formed.content_kept (sb_ninodes ▸ low) kind data

end Mkfs
end Xv6
