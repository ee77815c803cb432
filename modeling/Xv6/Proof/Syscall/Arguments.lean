import Xv6.Construction.Syscall

namespace Xv6
open Nat
variable {left k n : Nat} {proc : Proc} {value : BitVec 64}

/-- A call succeeds when its `int` result is not negative. -/
def Succeeds (ret : BitVec 32) : Prop := 0 ≤ ret.toInt

instance (ret : BitVec 32) : Decidable (Succeeds ret) := inferInstanceAs (Decidable (0 ≤ ret.toInt))

/-- The bytes before the given length are mapped and different from NUL. -/
def Unterminated (memory : BitVec 64 → Option (BitVec 8)) (start : BitVec 64) (length : Nat) : Prop :=
  ∀ i < length, ∃ byte, byte ≠ 0 ∧ memory (start + BitVec.ofNat 64 i) = some byte

/-- The first NUL byte stands at the given distance. -/
def TerminatedAt (memory : BitVec 64 → Option (BitVec 8)) (start : BitVec 64) (length : Nat) : Prop :=
  memory (start + BitVec.ofNat 64 length) = some 0 ∧ Unterminated memory start length

/-- A pointer that `argptr` returns is the argument and its whole range lies inside the process. -/
def PointerSound (proc : Proc) (n : Nat) (value : BitVec 64) (size : BitVec 32) : Prop :=
  ∀ ret p, argptr proc n size = .ok (ret, some p) → Succeeds ret →
    p = value ∧ 0 ≤ size.toInt ∧
      ∀ address : Nat, p.toNat ≤ address → (address : Int) < p.toNat + size.toInt → address < proc.sz.toNat

/-- A string that `argstr` returns is the argument and ends inside the process. -/
def StringSound (proc : Proc) (n : Nat) (value : BitVec 64) : Prop :=
  ∀ ret p, argstr proc n = .ok (ret, some p) → Succeeds ret →
    p = value ∧ p.toNat < proc.sz.toNat ∧
      ∃ address : BitVec 64, p.toNat ≤ address.toNat ∧ address.toNat < proc.sz.toNat ∧
        proc.memory address = some 0

/-- The low 32 bits of the range fail the comparisons of `argptr`, or the range is empty, or its 64-bit end
is inside the process. -/
def PointerFits (sz value : BitVec 64) (size : BitVec 32) : Prop :=
  size.toInt < 0 ∨ sz.toNat ≤ value.toNat % 2 ^ 32 ∨
    sz.toNat < (value.toNat + size.toNat) % 2 ^ 32 ∨ size = 0 ∨ value.toNat + size.toNat ≤ sz.toNat

/-- The argument is the sign extension of its low 32 bits, or no string of a positive `int` length starts
at that sign extension. -/
def StringFits (proc : Proc) (value : BitVec 64) : Prop :=
  value = (value.setWidth 32).signExtend 64 ∨
    ∀ length, ((value.setWidth 32).signExtend 64).toNat + length < proc.sz.toNat →
      TerminatedAt proc.memory ((value.setWidth 32).signExtend 64) length → 2 ^ 31 ≤ length % 2 ^ 32

theorem add_ofNat_succ (start : BitVec 64) (k : Nat) :
    start + BitVec.ofNat 64 k + 1 = start + BitVec.ofNat 64 (k + 1) := by
  rw [BitVec.ofNat_add, BitVec.add_assoc]
  rfl

/-- The distance from the start is returned as an `int`. -/
theorem distance_setWidth (start : BitVec 64) (k : Nat) :
    (start + BitVec.ofNat 64 k - start).setWidth 32 = BitVec.ofNat 32 k := by
  apply BitVec.eq_of_toNat_eq
  simp only [BitVec.toNat_setWidth, BitVec.toNat_sub, BitVec.toNat_add, BitVec.toNat_ofNat]
  omega

/-- The scan returns the distance of the first NUL byte. -/
theorem scan_terminated (memory : BitVec 64 → Option (BitVec 8)) (start : BitVec 64) {distance : Nat}
    (ends : TerminatedAt memory start (k + distance)) (inside : distance < left) :
    scan memory start left (start + BitVec.ofNat 64 k) = .ok (BitVec.ofNat 32 (k + distance)) := by
  induction left generalizing k distance with
  | zero => exact absurd inside (not_lt_zero distance)
  | succ left ih =>
    cases distance with
    | zero =>
      have loaded : memory (start + BitVec.ofNat 64 k) = some 0 := ends.1
      simp only [scan, loaded, if_pos, distance_setWidth, add_zero]
    | succ distance =>
      obtain ⟨byte, nonzero, loaded⟩ := ends.2 k (by omega)
      have shifted : k + (distance + 1) = k + 1 + distance := by omega
      rw [shifted] at ends ⊢
      simp only [scan, loaded, if_neg nonzero, add_ofNat_succ]
      exact ih ends (lt_of_succ_lt_succ inside)

/-- A finished scan has found the first NUL byte or has reached the end of the process. -/
theorem scan_ok {memory : BitVec 64 → Option (BitVec 8)} {start : BitVec 64} {ret : BitVec 32}
    (before : Unterminated memory start k) (ran : scan memory start left (start + BitVec.ofNat 64 k) = .ok ret) :
    ret = -1 ∨ ∃ length < k + left, TerminatedAt memory start length ∧ ret = BitVec.ofNat 32 length := by
  induction left generalizing k with
  | zero =>
    left
    exact (Except.ok.inj ran).symm
  | succ left ih =>
    cases loaded : memory (start + BitVec.ofNat 64 k) with
    | none => simp [scan, loaded] at ran
    | some byte =>
      by_cases zero : byte = 0
      · right
        subst zero
        simp only [scan, loaded, if_pos, distance_setWidth] at ran
        exact ⟨k, by omega, ⟨loaded, before⟩, (Except.ok.inj ran).symm⟩
      · simp only [scan, loaded, if_neg zero, add_ofNat_succ] at ran
        have further : Unterminated memory start (k + 1) := by
          intro i inside
          rcases Nat.lt_succ_iff_lt_or_eq.mp inside with earlier | rfl
          · exact before i earlier
          · exact ⟨byte, zero, loaded⟩
        have shifted : k + (left + 1) = k + 1 + left := by omega
        rw [shifted]
        exact ih further ran

/-- The result of a scan is not negative exactly when its low bits are a positive `int`. -/
theorem succeeds_ofNat (length : Nat) : Succeeds (BitVec.ofNat 32 length) ↔ length % 2 ^ 32 < 2 ^ 31 := by
  rw [Succeeds, BitVec.toInt_eq_toNat_cond, BitVec.toNat_ofNat]
  split <;> omega

/-- A string fetch succeeds exactly for a string that ends inside the process. -/
theorem fetchstr_ok_iff (proc : Proc) (addr p : BitVec 64) :
    (∃ ret, fetchstr proc addr = .ok (ret, some p) ∧ Succeeds ret) ↔
      p = addr ∧ ∃ length, addr.toNat + length < proc.sz.toNat ∧ TerminatedAt proc.memory addr length ∧
        length % 2 ^ 32 < 2 ^ 31 := by
  constructor
  · rintro ⟨ret, fetched, succeeds⟩
    unfold fetchstr at fetched
    split at fetched
    · cases fetched
    case isFalse below =>
      cases ran : scan proc.memory addr (proc.sz.toNat - addr.toNat) addr with
      | error halt => simp [ran, bind, Except.bind] at fetched
      | ok result =>
        simp only [ran, bind, Except.bind, Except.ok.injEq, Prod.mk.injEq, Option.some.injEq] at fetched
        obtain ⟨rfl, rfl⟩ := fetched
        have whole : scan proc.memory addr (proc.sz.toNat - addr.toNat) (addr + BitVec.ofNat 64 0) = .ok result := by
          rw [BitVec.add_zero]
          exact ran
        have none : Unterminated proc.memory addr 0 := fun i inside => absurd inside (not_lt_zero i)
        rcases scan_ok none whole with rfl | ⟨length, inside, ends, rfl⟩
        · exact absurd succeeds (by decide)
        · exact ⟨rfl, length, by omega, ends, (succeeds_ofNat length).mp succeeds⟩
  · rintro ⟨rfl, length, inside, ends, positive⟩
    refine ⟨BitVec.ofNat 32 length, ?_, (succeeds_ofNat length).mpr positive⟩
    have below : ¬ p ≥ proc.sz := by
      rw [ge_iff_le, BitVec.le_def]
      omega
    have ran : scan proc.memory p (proc.sz.toNat - p.toNat) p = .ok (BitVec.ofNat 32 length) := by
      have shifted : TerminatedAt proc.memory p (0 + length) := by
        rw [zero_add]
        exact ends
      have found := scan_terminated proc.memory p shifted (by omega : length < proc.sz.toNat - p.toNat)
      rwa [BitVec.add_zero, zero_add] at found
    simp [fetchstr, below, ran, bind, Except.bind]

section
variable (fetched : fetcharg proc n = .ok value)
include fetched

/-- The pointer check accepts exactly these low bits and returns the whole argument. -/
theorem argptr_ok_iff (size : BitVec 32) (p : BitVec 64) :
    (∃ ret, argptr proc n size = .ok (ret, some p) ∧ Succeeds ret) ↔
      p = value ∧ 0 ≤ size.toInt ∧ value.toNat % 2 ^ 32 < proc.sz.toNat ∧
        (value.toNat + size.toNat) % 2 ^ 32 ≤ proc.sz.toNat := by
  have low : ((value.setWidth 32).setWidth 64).toNat = value.toNat % 2 ^ 32 := by
    simp only [BitVec.toNat_setWidth]
    omega
  have total : ((value.setWidth 32 + size).setWidth 64).toNat = (value.toNat + size.toNat) % 2 ^ 32 := by
    simp only [BitVec.toNat_setWidth, BitVec.toNat_add]
    omega
  have check : (size.toInt < 0 ∨ (value.setWidth 32).setWidth 64 ≥ proc.sz ∨
      (value.setWidth 32 + size).setWidth 64 > proc.sz) ↔
      ¬ (0 ≤ size.toInt ∧ value.toNat % 2 ^ 32 < proc.sz.toNat ∧
        (value.toNat + size.toNat) % 2 ^ 32 ≤ proc.sz.toNat) := by
    rw [ge_iff_le, gt_iff_lt, BitVec.le_def, BitVec.lt_def, low, total]
    omega
  simp only [argptr, argaddr, fetched, bind, Except.bind]
  rw [if_neg (by decide)]
  constructor
  · rintro ⟨ret, returned, succeeds⟩
    split at returned
    · cases returned
    case isFalse accepted =>
      cases returned
      exact ⟨rfl, not_not.mp fun rejected => accepted (check.mpr rejected)⟩
  · rintro ⟨rfl, accepted⟩
    refine ⟨0, ?_, by decide⟩
    rw [if_neg fun rejected => check.mp rejected accepted]

/-- The string fetch reads at the sign extension of the low 32 bits of the argument. -/
theorem argstr_eq : argstr proc n = fetchstr proc ((value.setWidth 32).signExtend 64) := by
  simp [argstr, argint, fetched, bind, Except.bind]

theorem pointerSound_iff (size : BitVec 32) : PointerSound proc n value size ↔ PointerFits proc.sz value size := by
  have signed : 0 ≤ size.toInt → size.toInt = size.toNat := by
    rw [BitVec.toInt_eq_toNat_cond]
    split <;> omega
  have empty : size = 0 ↔ size.toNat = 0 := by
    rw [BitVec.toNat_eq]
    rfl
  constructor
  · intro sound
    by_contra outside
    simp only [PointerFits, not_or, empty] at outside
    obtain ⟨nonnegative, low, total, nonempty, past⟩ := outside
    obtain ⟨ret, returned, succeeds⟩ :=
      (argptr_ok_iff fetched size value).mpr ⟨rfl, by omega, by omega, by omega⟩
    have sizeEq := signed (by omega)
    have inside := (sound ret value returned succeeds).2.2
    have last := inside (max value.toNat proc.sz.toNat) (by omega) (by omega)
    omega
  · intro fits ret p returned succeeds
    obtain ⟨rfl, nonnegative, low, total⟩ := (argptr_ok_iff fetched size p).mp ⟨ret, returned, succeeds⟩
    refine ⟨rfl, nonnegative, fun address first last => ?_⟩
    have sizeEq := signed nonnegative
    rw [PointerFits, empty] at fits
    omega

theorem stringSound_iff : StringSound proc n value ↔ StringFits proc value := by
  constructor
  · intro sound
    by_cases kept : value = (value.setWidth 32).signExtend 64
    · exact .inl kept
    · right
      intro length inside ends
      by_contra short
      obtain ⟨ret, returned, succeeds⟩ := (fetchstr_ok_iff proc _ _).mpr
        ⟨rfl, length, inside, ends, Nat.lt_of_not_le short⟩
      rw [← argstr_eq fetched] at returned
      exact kept (sound ret _ returned succeeds).1.symm
  · intro fits ret p returned succeeds
    rw [argstr_eq fetched] at returned
    obtain ⟨rfl, length, inside, ends, short⟩ := (fetchstr_ok_iff proc _ p).mp ⟨ret, returned, succeeds⟩
    have kept : value = (value.setWidth 32).signExtend 64 :=
      fits.resolve_right fun long => absurd (long length inside ends) (not_le.mpr short)
    refine ⟨kept.symm, by omega, _, ?_, ?_, ends.1⟩
    all_goals
      rw [BitVec.toNat_add, BitVec.toNat_ofNat]
      omega

end

/-- The validation of a pointer argument and of a string argument is sound exactly when the conversions to 32
bits lose nothing that the checks depend on. -/
theorem pointer_validation_iff (proc : Proc) (n : Nat) (value : BitVec 64) (size : BitVec 32)
    (fetched : fetcharg proc n = .ok value) :
    (PointerSound proc n value size ∧ StringSound proc n value) ↔
      (PointerFits proc.sz value size ∧ StringFits proc value) :=
  and_congr (pointerSound_iff fetched size) (stringSound_iff fetched)

/-- A process of two pages passes the same value in every argument register. -/
def sampleProc (value : BitVec 64) : Proc where
  sz := 0x2000
  tf := ⟨value, value, value, value, value, value, 0, 0, 0⟩
  memory := fun addr => if addr < 0x2000 then some 0 else none

theorem pointer_validation_iff_second_page :
    (PointerSound (sampleProc 0x1000) 1 0x1000 4 ∧ StringSound (sampleProc 0x1000) 1 0x1000) ↔
      (PointerFits 0x2000 0x1000 4 ∧ StringFits (sampleProc 0x1000) 0x1000) :=
  pointer_validation_iff (sampleProc 0x1000) 1 0x1000 4 rfl

/-- A pointer into kernel memory passes both checks because its low 32 bits lie inside the process. -/
theorem pointer_validation_accepts_kernel_address :
    argptr (sampleProc 0xFFFF800000001000) 1 4 = .ok (0, some 0xFFFF800000001000) ∧
      argstr (sampleProc 0xFFFF800000001000) 1 = .ok (0, some 0x1000) ∧
      ¬ PointerSound (sampleProc 0xFFFF800000001000) 1 0xFFFF800000001000 4 ∧
      ¬ StringSound (sampleProc 0xFFFF800000001000) 1 0xFFFF800000001000 := by
  have accepted : argptr (sampleProc 0xFFFF800000001000) 1 4 = .ok (0, some 0xFFFF800000001000) := by rfl
  have truncated : argstr (sampleProc 0xFFFF800000001000) 1 = .ok (0, some 0x1000) := by rfl
  refine ⟨accepted, truncated, fun sound => ?_, fun sound => ?_⟩
  · have inside := (sound 0 _ accepted (by decide)).2.2 0xFFFF800000001000 (by decide) (by decide)
    exact absurd inside (by decide)
  · exact absurd (sound 0 _ truncated (by decide)).1 (by decide)

end Xv6
