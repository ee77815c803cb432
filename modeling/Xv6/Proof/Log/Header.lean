import Xv6.Construction.Log

namespace Xv6
open Library

/-- The entry loop stores the block numbers in consecutive words. -/
def encodeEntries (buf : Block) (entries : List BlockNo) (first : Nat) : Block :=
  (entries.zipIdx first).foldl (fun buf entry => setSlot buf (entry.2 + 1) entry.1) buf

theorem encodeEntries_before (buf : Block) (entries : List BlockNo) (first word : Nat) (before : word ≤ first) :
    slot 32 (encodeEntries buf entries first) word = slot 32 buf word := by
  induction entries generalizing buf first with
  | nil => rfl
  | cons entry rest ih =>
    rw [encodeEntries, List.zipIdx_cons, List.foldl_cons]
    refine (ih _ (first + 1) (by omega)).trans ?_
    exact slot_setSlot_ne buf _ _ _ (by omega)

/-- Each entry is read back from its own word. -/
theorem encodeEntries_entry (buf : Block) (entries : List BlockNo) (first index : Nat)
    (fits : first + entries.length < 128) (inside : index < entries.length) :
    slot 32 (encodeEntries buf entries first) (first + index + 1) = entries[index] := by
  induction entries generalizing buf first index with
  | nil => exact absurd inside (Nat.not_lt_zero _)
  | cons entry rest ih =>
    rw [encodeEntries, List.zipIdx_cons, List.foldl_cons]
    simp only [List.length_cons] at fits inside
    cases index with
    | zero =>
      refine (encodeEntries_before _ rest (first + 1) _ (by omega)).trans ?_
      exact slot_setSlot_same buf _ entry (by simp only [BSIZE]; omega)
    | succ index =>
      have tail := ih (setSlot buf (first + 1) entry) (first + 1) index (by omega) (by omega)
      rw [show first + (index + 1) + 1 = first + 1 + index + 1 by omega]
      exact tail

theorem encodeHead_eq (buf : Block) (lh : LogHeader) :
    encodeHead buf lh = encodeEntries (setSlot buf 0 (BitVec.ofNat 32 lh.n)) lh.block 0 := rfl

/-- The count of a written header is the number of logged blocks. -/
theorem headN_encodeHead (buf : Block) (lh : LogHeader) : headN (encodeHead buf lh) = lh.n := by
  have bound : lh.n ≤ 30 := lh.fits
  have small : (BitVec.ofNat 32 lh.n).toNat = lh.n := by
    rw [BitVec.toNat_ofNat]
    omega
  rw [headN, encodeHead_eq, encodeEntries_before _ _ _ _ (Nat.le_refl 0),
    slot_setSlot_same buf 0 _ (by simp [BSIZE]), BitVec.toInt_eq_toNat_of_lt (by omega), small]

theorem decodeHead_encodeHead (buf : Block) (lh : LogHeader) : decodeHead (encodeHead buf lh) = some lh := by
  have bound : lh.block.length ≤ 30 := lh.fits
  have entries : (List.range lh.n).map (fun i => slot 32 (encodeHead buf lh) (i + 1)) = lh.block := by
    apply List.ext_getElem
    · simp [LogHeader.n]
    · intro index inMap inBlock
      have entry := encodeEntries_entry (setSlot buf 0 (BitVec.ofNat 32 lh.n)) lh.block 0 index (by omega) inBlock
      simpa [encodeHead_eq] using entry
  have count : (headN (encodeHead buf lh)).toNat = lh.n := by
    rw [headN_encodeHead, Int.toNat_natCast]
  rw [decodeHead, dif_pos (count.trans_le lh.fits)]
  simp only [count, entries]

theorem decodeHead_zero (buf : Block) (zero : headN buf = 0) : decodeHead buf = some LogHeader.empty := by
  rw [decodeHead, dif_pos (by rw [zero]; exact Nat.zero_le _)]
  simp [zero, LogHeader.empty]

end Xv6
