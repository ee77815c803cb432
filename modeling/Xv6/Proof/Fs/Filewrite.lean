import Xv6.Proof.Fs.ReadWrite

namespace Xv6
open Library List BitVec Nat

theorem overwrite_append (old first second : List (BitVec 8)) {off : Nat} (inside : off ≤ old.length) :
    overwrite (overwrite old off first) (off + first.length) second = overwrite old off (first ++ second) := by
  have start : (old.take off ++ first).length = off + first.length := by
    rw [length_append, length_take, min_eq_left inside]
  simp only [overwrite]
  rw [take_left' start, drop_append, drop_eq_nil_of_le (by omega), nil_append, start, drop_drop,
    length_append, append_assoc (old.take off)]
  congr 2
  omega

namespace Fs
variable {fs middle next : Fs} {ip : Fin NINODE} {devsw : Devsw} {src first second : List (BitVec 8)} {finish : Nat}

theorem Extends.inum (kept : Extends fs next ip finish) : (next.icache ip).inum = (fs.icache ip).inum := by
  rw [kept.entry]

theorem Extends.locked (kept : Extends fs next ip finish) (locked : fs.Locked ip) : next.Locked ip := by
  rw [Locked, kept.entry]
  exact locked

theorem Overwritten.nil {off : Nat} (inside : off ≤ (fs.dinode (fs.icache ip).inum).size.toNat) :
    Overwritten fs fs ip off [] where
  content := by simp [overwrite]
  size := (max_eq_left inside).symm
  inodes _ _ _ := rfl
  others _ _ _ _ := rfl

theorem Overwritten.append {off : Nat} (inside : off ≤ (fs.dinode (fs.icache ip).inum).size.toNat)
    (early : Overwritten fs middle ip off first) (kept : Extends fs middle ip finish)
    (late : Overwritten middle next ip (off + first.length) second) : Overwritten fs next ip off (first ++ second) := by
  have inum := kept.inum
  have inodes := late.inodes
  have others := late.others
  rw [inum, kept.sb] at inodes others
  constructor
  · rw [← inum, late.content, inum, early.content, overwrite_append]
    rw [Dinode.content_length]
    exact inside
  · rw [← inum, late.size, inum, early.size, length_append, max_assoc, add_assoc,
      max_eq_right (by omega : off + first.length ≤ _)]
  · intro other within ne
    rw [inodes other within ne, early.inodes other within ne]
  · intro other within ne used
    rw [others other within ne, early.others other within ne used]
    rw [early.inodes other within ne]
    exact used

/-- The blocks that the rest of a write needs are still free. -/
theorem Extends.room {here finish : Nat} (kept : Extends fs middle ip here)
    (same : fs.copy ip = fs.dinode (fs.icache ip).inum)
    (grown : (middle.copy ip).size.toNat = max (fs.copy ip).size.toNat here)
    (room : blocksNeeded (fs.copy ip) finish ≤ freeCount fs.sb fs.disk) :
    blocksNeeded (middle.copy ip) finish ≤ freeCount middle.sb middle.disk := by
  have mono : Monotone fun finish => unitCount (blockCount finish) := fun _ _ le => unitCount_mono (blockCount_mono le)
  have free := kept.free
  rw [fileUnits, ← same, ← mono.map_max, ← grown] at free
  rw [blocksNeeded] at room ⊢
  rw [kept.sb]
  omega

end Fs
end Xv6
