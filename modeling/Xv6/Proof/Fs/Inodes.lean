import Xv6.Proof.Fs.Bitmap
import Xv6.Library.Ownership

namespace Xv6
open Library

theorem slot_append_low (high low : BitVec 16) : slot 16 (high ++ low) 0 = low := by
  apply BitVec.eq_of_getLsbD_eq
  intro bit inside
  rw [slot_getLsbD, BitVec.getLsbD_append]
  simp [inside]

theorem slot_append_high (high low : BitVec 16) : slot 16 (high ++ low) 1 = high := by
  apply BitVec.eq_of_getLsbD_eq
  intro bit inside
  rw [slot_getLsbD, BitVec.getLsbD_append]
  simp [inside]

namespace Dinode

theorem words_length (dinode : Dinode) : dinode.words.length = 16 := by
  simp only [words, List.length_cons, List.length_map, List.length_finRange]
  rfl

/-- Each word of the structure can be read back. -/
theorem slot_encode (dinode : Dinode) (index : Nat) : slot 32 dinode.encode index = (dinode.words[index]?).getD 0 := by
  rw [encode, slot_setSlots _ _ _ _ (by rw [words_length]; decide)]
  simp

@[simp] theorem decode_encode (dinode : Dinode) : decode dinode.encode = dinode := by
  apply Dinode.ext
  · simp [decode, slot_encode, words, slot_append_low]
  · simp [decode, slot_encode, words, slot_append_high]
  · simp [decode, slot_encode, words, slot_append_low]
  · simp [decode, slot_encode, words, slot_append_high]
  · simp [decode, slot_encode, words]
  · funext index
    have position : 3 + (index : Nat) = index + 1 + 1 + 1 := by omega
    have found : (List.finRange (NDIRECT + 1))[(index : Nat)]? = some index := by
      rw [List.getElem?_eq_getElem (by rw [List.length_finRange]; exact index.isLt)]
      simp
    simp [decode, slot_encode, words, position, found]

end Dinode

namespace Fs

variable {fs : Fs} {inum other : Nat}

theorem IBLOCK_div_mod (layout : fs.sb.Layout) (inside : inum < fs.sb.ninodes.toNat)
    (within : other < fs.sb.ninodes.toNat) (block : IBLOCK other fs.sb = IBLOCK inum fs.sb)
    (position : other % IPB = inum % IPB) : other = inum := by
  have number := congrArg BitVec.toNat block
  rw [layout.toNat_IBLOCK within, layout.toNat_IBLOCK inside] at number
  rw [← Nat.div_add_mod other IPB, ← Nat.div_add_mod inum IPB, position, Nat.add_right_cancel number]

theorem setDinode_dinode (layout : fs.sb.Layout) (inside : inum < fs.sb.ninodes.toNat)
    (within : other < fs.sb.ninodes.toNat) (dinode : Dinode) :
    (fs.setDinode inum dinode).dinode other = if other = inum then dinode else fs.dinode other := by
  have small : inum % IPB < 8 := Nat.mod_lt _ (by decide)
  change Dinode.decode (slot (8 * dinodeSize) (Function.update fs.disk (IBLOCK inum fs.sb)
    (setSlot (fs.disk (IBLOCK inum fs.sb)) (inum % IPB) dinode.encode) (IBLOCK other fs.sb)) (other % IPB)) = _
  split
  · next same =>
      subst same
      rw [Function.update_self, slot_setSlot_same, Dinode.decode_encode]
      simp only [dinodeSize, BSIZE]
      omega
  · next ne =>
      rw [Fs.dinode]
      by_cases block : IBLOCK other fs.sb = IBLOCK inum fs.sb
      · rw [block, Function.update_self, slot_setSlot_ne]
        intro position
        exact ne (IBLOCK_div_mod layout inside within block position)
      · rw [Function.update_of_ne block]

end Fs
end Xv6
