import Xv6.Proof.Syscall.Arguments
import Xv6.Proof.Vm.Process

namespace Xv6

/-- The memory of a process is what the kernel reads through its page table. -/
def ExecProc.addressed (proc : ExecProc) (kernel : Kernel) : Proc := ⟨proc.sz, proc.tf, kernel.userByte proc.pgdir⟩

section Scan
variable {memory : BitVec 64 → Option (BitVec 8)} {low high : Nat}

theorem succ_toNat {s : BitVec 64} (inside : s.toNat < high) (bounded : high < 2 ^ 64) : (s + 1).toNat = s.toNat + 1 := by
  rw [BitVec.toNat_add]
  exact Nat.mod_eq_of_lt (show s.toNat + 1 < 2 ^ 64 by omega)

variable (mapped : ∀ s : BitVec 64, low ≤ s.toNat → s.toNat < high → memory s ≠ none)
include mapped

/-- The scan of a mapped range faults nowhere. -/
theorem scan_mapped (bounded : high < 2 ^ 64)
    (pp : BitVec 64) {left : Nat} {s : BitVec 64} (start : low ≤ s.toNat) (inside : s.toNat + left ≤ high) :
    ∃ ret, scan memory pp left s = .ok ret := by
  induction left generalizing s with
  | zero => exact ⟨_, rfl⟩
  | succ left ih =>
    obtain ⟨byte, found⟩ := Option.ne_none_iff_exists'.mp (mapped s start (by omega))
    have next := succ_toNat (show s.toNat < high by omega) bounded
    rw [scan, found]
    dsimp only
    split
    · exact ⟨_, rfl⟩
    · exact ih (by omega) (by omega)

theorem loadBytes_mapped
    (bounded : high < 2 ^ 64) {count : Nat} {s : BitVec 64} (start : low ≤ s.toNat) (inside : s.toNat + count ≤ high) :
    ∃ bytes, loadBytes memory count s = .ok bytes := by
  induction count generalizing s with
  | zero => exact ⟨_, rfl⟩
  | succ count ih =>
    obtain ⟨byte, found⟩ := Option.ne_none_iff_exists'.mp (mapped s start (by omega))
    have next := succ_toNat (show s.toNat < high by omega) bounded
    obtain ⟨bytes, rest⟩ := ih (show low ≤ (s + 1).toNat by omega) (by omega)
    rw [loadBytes, found]
    exact ⟨_, congrArg (Except.map _) rest⟩

end Scan

/-- A fetch dereferences only mapped bytes, so it faults nowhere. -/
def FetchMapped (proc : Proc) (addr : BitVec 64) : Prop :=
  (∃ result, fetchstr proc addr = .ok result) ∧ ∃ result, fetchaddr proc addr = .ok result

section Fetch
variable {kernel k : Kernel} {proc : ExecProc} {tree : List Nat → Option Nat}

/-- The bytes below the size are mapped except those of page 0. -/
theorem UserSpace.userByte_ne_none (user : UserSpace k proc tree) {va : BitVec 64} (below : va < proc.sz) :
    k.userByte proc.pgdir va ≠ none ↔ PGSIZE ≤ va.toNat := by
  have bound := user.top_le
  have page := page_lt_topPage below
  have limit : va.toNat / PGSIZE < 2 ^ 35 := by omega
  rw [(user.space.userEntry_eq rfl limit).2, ne_eq, Option.map_eq_none_iff, ← ne_eq, user.viewed limit]
  simp only [PGSIZE] at page ⊢
  omega

/-- In the address space of a process whose first page is not mapped, the fetch of a string and of a word dereference
only mapped bytes exactly when the address is not in the first page. -/
theorem fetch_mapped_iff (user : UserSpace kernel proc tree) (large : 3 * PGSIZE ≤ proc.sz.toNat) (addr : BitVec 64) :
    FetchMapped (proc.addressed kernel) addr ↔ PGSIZE ≤ addr.toNat := by
  have size := user.size_le
  have mapped : ∀ s : BitVec 64, PGSIZE ≤ s.toNat → s.toNat < proc.sz.toNat → kernel.userByte proc.pgdir s ≠ none :=
    fun s low high => (user.userByte_ne_none (BitVec.lt_def.mpr high)).mpr low
  have bounded : proc.sz.toNat < 2 ^ 64 := proc.sz.isLt
  constructor
  · rintro ⟨⟨result, ran⟩, _⟩
    by_contra first
    have below : addr.toNat < proc.sz.toNat := by omega
    have absent : kernel.userByte proc.pgdir addr = none := by
      by_contra present
      exact first ((user.userByte_ne_none (BitVec.lt_def.mpr below)).mp present)
    obtain ⟨left, count⟩ : ∃ left, proc.sz.toNat - addr.toNat = left + 1 := ⟨proc.sz.toNat - addr.toNat - 1, by omega⟩
    have inside : ¬addr ≥ (proc.addressed kernel).sz := BitVec.not_le.mpr (BitVec.lt_def.mpr below)
    rw [fetchstr, if_neg inside, ExecProc.addressed] at ran
    dsimp only at ran
    rw [count, scan, absent] at ran
    cases ran
  · intro low
    constructor
    · rw [fetchstr]
      split
      · exact ⟨_, rfl⟩
      · next inside =>
          have below : addr.toNat < proc.sz.toNat := BitVec.lt_def.mp (BitVec.not_le.mp inside)
          obtain ⟨ret, ran⟩ := scan_mapped mapped bounded addr low
            (show addr.toNat + (proc.sz.toNat - addr.toNat) ≤ proc.sz.toNat by omega)
          exact ⟨_, congrArg (· >>= _) ran⟩
    · rw [fetchaddr]
      split
      · exact ⟨_, rfl⟩
      · next inside =>
          rw [not_or, ge_iff_le, BitVec.not_le, gt_iff_lt, BitVec.not_lt, BitVec.lt_def, BitVec.le_def] at inside
          have sum : (addr + 8).toNat = addr.toNat + 8 := by
            have below : addr.toNat < proc.sz.toNat := inside.1
            simp only [PGSIZE] at size
            rw [BitVec.toNat_add]
            exact Nat.mod_eq_of_lt (show addr.toNat + 8 < 2 ^ 64 by omega)
          rw [sum] at inside
          obtain ⟨bytes, ran⟩ := loadBytes_mapped mapped bounded low inside.2
          exact ⟨_, congrArg (· >>= _) ran⟩

theorem fetch_mapped_iff_stack : ∃ kernel tree, UserSpace kernel (sizedProc 0x3000) tree ∧
    FetchMapped ((sizedProc 0x3000).addressed kernel) 0x2FF8 := by
  obtain ⟨kernel, tree, _, user⟩ := pageKernel_space
  exact ⟨kernel, tree, user, (fetch_mapped_iff user (by decide) 0x2FF8).mpr (by decide)⟩

/-- A string and a word at address 0 pass the comparison with the size, and the kernel faults. -/
theorem fetch_faults_at_zero : ∃ kernel tree, UserSpace kernel (sizedProc 0x3000) tree ∧
    fetchstr ((sizedProc 0x3000).addressed kernel) 0 = .error (.pageFault 0) ∧
    fetchaddr ((sizedProc 0x3000).addressed kernel) 0 = .error (.pageFault 0) ∧
    ¬FetchMapped ((sizedProc 0x3000).addressed kernel) 0 := by
  obtain ⟨kernel, tree, ran, user⟩ := pageKernel_space
  have faults : pageKernel.map (fun grown => (fetchstr ((sizedProc 0x3000).addressed grown.2) 0,
      fetchaddr ((sizedProc 0x3000).addressed grown.2) 0)) = .ok (.error (.pageFault 0), .error (.pageFault 0)) := by
    decide +kernel
  rw [ran] at faults
  obtain ⟨string, word⟩ := Prod.ext_iff.mp (Except.ok.inj faults)
  dsimp only at string word
  refine ⟨kernel, tree, user, string, word, ?_⟩
  rintro ⟨⟨result, fetched⟩, _⟩
  rw [string] at fetched
  cases fetched

end Fetch
end Xv6
