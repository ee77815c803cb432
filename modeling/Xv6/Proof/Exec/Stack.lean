import Xv6.Proof.Exec.Load

namespace Xv6
open Library List BitVec
open Kernel (uva2ka copyLoop copyout pushArgs)

section Copy
variable {root top page : Nat} {k : Kernel} {tree : List Nat → Option Nat} {closed : List Nat} {va : BitVec 64}
  {fuel : Nat} {buf : List (BitVec 8)}

section
variable (image : Image k root tree top closed)
include image

theorem Image.uva2ka_user (one : 1 ≤ page) (below : page < top) (opened : page ∉ closed)
    (number : va.toNat / PGSIZE = page) :
    ∃ frame, k.uva2ka root va = .ok (some frame) ∧ tree (pagePath page) = some frame := by
  obtain ⟨table, frame, walk, mapped, here, found, present, target⟩ := image.lookup one below
  have user : ¬slot 64 (k.memory table) (page % 512) &&& PTE_U = 0 := fun zero =>
    opened ((image.flags one below here).mp zero)
  refine ⟨frame, ?_, found⟩
  rw [uva2ka, walk number, ok_bind]
  dsimp only
  rw [loadEntry_ok mapped, ok_bind, if_neg present, if_neg user, target]

theorem Image.uva2ka_closed (one : 1 ≤ page) (below : page < top) (member : page ∈ closed)
    (number : va.toNat / PGSIZE = page) : k.uva2ka root va = .ok none := by
  obtain ⟨table, frame, walk, mapped, here, found, present, target⟩ := image.lookup one below
  rw [uva2ka, walk number, ok_bind]
  dsimp only
  rw [loadEntry_ok mapped, ok_bind, if_neg present, if_pos ((image.flags one below here).mpr member)]

theorem Image.uva2ka_zero (two : 2 ≤ top) (number : va.toNat / PGSIZE = 0) : k.uva2ka root va = .ok none := by
  obtain ⟨table, walk, mapped, zero⟩ := image.lookup_zero two
  rw [uva2ka, walk number, ok_bind]
  dsimp only
  rw [loadEntry_ok mapped, ok_bind, zero]
  rfl

/-- An address below zero makes `uva2ka` read through a null pointer. -/
theorem Image.uva2ka_wrapped (high : 2 ^ 64 - 2 ^ 39 ≤ va.toNat) : k.uva2ka root va = .error .fault := by
  rw [uva2ka, image.lookup_wrapped high, ok_bind]

theorem Stored.setPage {frame : Nat} (found : tree (pagePath page) = some frame) (contents : Page) :
    Stored False k root tree top closed (k.setPage frame contents) := by
  obtain ⟨kept, grows⟩ := image.setPage (image.leaf found) (.inl (.inr ⟨_, found⟩)) contents
  exact ⟨kept, grows.toEvolves, rfl, rfl, List.Subset.refl _, fun _ member => .inl member, False.elim⟩

end

theorem copyLoop_nil (fuel : Nat) : copyLoop root fuel va [] k = .ok (0, k) := by
  cases fuel <;> rfl

theorem copyLoop_none (some : buf ≠ []) (translated : k.uva2ka root (PGROUNDDOWN va) = .ok none) :
    copyLoop root (fuel + 1) va buf k = .ok (-1, k) := by
  rw [copyLoop, if_neg some]
  dsimp only
  rw [translated, ok_bind]

/-- One iteration copies up to the end of the page. -/
theorem Image.copyLoop_step (image : Image k root tree top closed) (some : buf ≠ []) (one : 1 ≤ page)
    (below : page < top) (opened : page ∉ closed) (number : va.toNat / PGSIZE = page) :
    ∃ middle next, Stored False k root tree top closed middle ∧ next.toNat = (page + 1) * PGSIZE ∧
      copyLoop root (fuel + 1) va buf k =
        copyLoop root fuel next (buf.drop (PGSIZE - va.toNat % PGSIZE)) middle := by
  have bound := image.span.top_le
  have rounded : (PGROUNDDOWN va).toNat = page * PGSIZE := by rw [PGROUNDDOWN_toNat, number]
  obtain ⟨frame, translated, found⟩ := image.uva2ka_user one below opened (page_number rounded)
  have start : (va - PGROUNDDOWN va).toNat = va.toNat % PGSIZE := by
    rw [toNat_sub, PGROUNDDOWN_toNat]
    have := va.isLt
    simp only [PGSIZE]
    omega
  refine ⟨_, _, .setPage image found (Kernel.storeBytes (k.memory frame) (va.toNat % PGSIZE)
    (buf.take (min (PGSIZE - va.toNat % PGSIZE) buf.length))), page_succ rounded (by omega), ?_⟩
  rw [copyLoop, if_neg some]
  dsimp only
  rw [translated, ok_bind]
  dsimp only
  rw [start, storePage_ok (image.space.frames found).1.directMapped, ok_bind]
  congr 1
  rcases Nat.le_total (PGSIZE - va.toNat % PGSIZE) buf.length with less | more
  · rw [Nat.min_eq_left less]
  · rw [Nat.min_eq_right more, drop_length, drop_of_length_le more]

section
variable (image : Image k root tree top [top - 2])
include image

theorem Image.copyout_stack (three : 3 ≤ top) (low : (top - 1) * PGSIZE ≤ va.toNat)
    (high : va.toNat + buf.length ≤ top * PGSIZE) :
    ∃ after, k.copyout root va buf = .ok (0, after) ∧ Stored False k root tree top [top - 2] after := by
  rw [copyout]
  by_cases empty : buf = []
  · subst empty
    exact ⟨k, copyLoop_nil 0, .refl image id⟩
  · obtain ⟨fuel, length⟩ := Nat.exists_eq_succ_of_ne_zero (length_pos_iff.mpr empty).ne'
    simp only [PGSIZE] at low high
    have number : va.toNat / PGSIZE = top - 1 := by
      simp only [PGSIZE]
      omega
    obtain ⟨middle, next, stored, _, step⟩ := image.copyLoop_step empty (by omega) (by omega)
      (by rw [mem_singleton]; omega) number
    refine ⟨middle, ?_, stored⟩
    have rest : buf.drop (PGSIZE - va.toNat % PGSIZE) = [] := by
      refine drop_of_length_le ?_
      simp only [PGSIZE]
      omega
    rw [length, step, rest, copyLoop_nil]

/-- A copy that starts below the stack page and reaches the guard page fails. -/
theorem Image.copyLoop_guard (three : 3 ≤ top) (enough : buf.length ≤ fuel) (some : buf ≠ [])
    (low : va.toNat < (top - 1) * PGSIZE) (high : (top - 2) * PGSIZE < va.toNat + buf.length) :
    ∃ after, copyLoop root fuel va buf k = .ok (-1, after) ∧ Stored False k root tree top [top - 2] after := by
  induction fuel generalizing va buf k with
  | zero => exact absurd (eq_nil_of_length_eq_zero (Nat.le_zero.mp enough)) some
  | succ fuel ih =>
    obtain ⟨page, number⟩ : ∃ page, va.toNat / PGSIZE = page := ⟨_, rfl⟩
    have rounded : (PGROUNDDOWN va).toNat / PGSIZE = page := (page_number (PGROUNDDOWN_toNat va)).trans number
    have below : page ≤ top - 2 := by
      simp only [PGSIZE] at low number
      omega
    by_cases zero : page = 0
    · exact ⟨k, copyLoop_none some (image.uva2ka_zero (by omega) (rounded.trans zero)), .refl image id⟩
    · by_cases guard : page = top - 2
      · refine ⟨k, copyLoop_none some ?_, .refl image id⟩
        exact image.uva2ka_closed (by omega) (by omega) (mem_singleton.mpr guard) rounded
      · obtain ⟨middle, next, stored, address, step⟩ := image.copyLoop_step some (by omega) (by omega)
          (by rwa [mem_singleton]) number
        have length : (buf.drop (PGSIZE - va.toNat % PGSIZE)).length = buf.length - (PGSIZE - va.toNat % PGSIZE) :=
          length_drop
        generalize buf.drop (PGSIZE - va.toNat % PGSIZE) = rest at step length
        simp only [PGSIZE] at low high number address length
        have shorter : rest.length ≤ fuel := by omega
        have nonempty : rest ≠ [] := length_pos_iff.mp (by omega)
        have start : next.toNat < (top - 1) * PGSIZE := by
          simp only [PGSIZE]
          omega
        have reach : (top - 2) * PGSIZE < next.toNat + rest.length := by
          simp only [PGSIZE]
          omega
        obtain ⟨after, ran, more⟩ := ih stored.image shorter nonempty start reach
        exact ⟨after, step.trans ran, stored.trans more⟩

/-- A copy that ends within a word of an address in the stack page succeeds exactly when it starts there. -/
theorem Image.copyout_range (three : 3 ≤ top) {limit : Nat} (some : buf ≠ []) (low : (top - 1) * PGSIZE ≤ limit)
    (high : limit ≤ top * PGSIZE) (ends : va.toNat + buf.length ≤ limit) (close : limit < va.toNat + buf.length + 8) :
    ∃ ret after, k.copyout root va buf = .ok (ret, after) ∧ (ret < 0 ↔ va.toNat < (top - 1) * PGSIZE) ∧
      Stored False k root tree top [top - 2] after := by
  by_cases start : va.toNat < (top - 1) * PGSIZE
  · have reach : (top - 2) * PGSIZE < va.toNat + buf.length := by
      simp only [PGSIZE] at *
      omega
    obtain ⟨after, ran, stored⟩ := image.copyLoop_guard three (Nat.le_refl _) some start reach
    exact ⟨-1, after, ran, iff_of_true (by decide) start, stored⟩
  · obtain ⟨after, ran, stored⟩ := image.copyout_stack three (Nat.le_of_not_lt start) (ends.trans high)
    exact ⟨0, after, ran, iff_of_false (by decide) start, stored⟩

end

theorem Image.copyout_wrapped (image : Image k root tree top closed) (some : buf ≠ [])
    (high : 2 ^ 64 - 2 ^ 39 ≤ va.toNat) : k.copyout root va buf = .error .fault := by
  have rounded : 2 ^ 64 - 2 ^ 39 ≤ (PGROUNDDOWN va).toNat := by
    rw [PGROUNDDOWN_toNat]
    simp only [PGSIZE]
    omega
  obtain ⟨fuel, length⟩ := Nat.exists_eq_succ_of_ne_zero (length_pos_iff.mpr some).ne'
  rw [copyout, length, copyLoop, if_neg some]
  dsimp only
  rw [image.uva2ka_wrapped rounded]
  rfl

end Copy

/-- The stack pointer after a string has been pushed. -/
def pushed (sp length : Nat) : Nat := (sp - (length + 1)) / 8 * 8

/-- No argument that `exec` reaches is longer than the space below the stack pointer. Pushing ends at the
first argument that does not fit into the stack page. -/
def ArgsSafe (base : Nat) : List (List (BitVec 8)) → Nat → Nat → Prop
  | [], _, _ => True
  | string :: rest, count, sp =>
    count < MAXARG → string.length < sp ∧
      (base ≤ pushed sp string.length → ArgsSafe base rest (count + 1) (pushed sp string.length))

section Push
variable {root top : Nat} {k : Kernel} {tree : List Nat → Option Nat} {sp : BitVec 64} {length : Nat}

theorem push_toNat (fits : length < sp.toNat) :
    ((sp - BitVec.ofNat 64 (length + 1)) &&& ~~~7).toNat = pushed sp.toNat length := by
  have bounded := sp.isLt
  have word : (BitVec.ofNat 64 (length + 1)).toNat = length + 1 := by
    rw [toNat_ofNat]
    omega
  have difference : (sp - BitVec.ofNat 64 (length + 1)).toNat = sp.toNat - (length + 1) := by
    rw [toNat_sub_of_le, word]
    rw [le_def, word]
    exact fits
  have rounded := toNat_and_not_mask (sp - BitVec.ofNat 64 (length + 1)) 3
  rw [difference] at rounded
  exact rounded

theorem push_wrapped (short : length < PHYSTOP) (wraps : ¬length < sp.toNat) :
    2 ^ 64 - 2 ^ 39 ≤ ((sp - BitVec.ofNat 64 (length + 1)) &&& ~~~7).toNat := by
  have rounded := toNat_and_not_mask (sp - BitVec.ofNat 64 (length + 1)) 3
  refine le_of_le_of_eq ?_ rounded.symm
  rw [toNat_sub, toNat_ofNat]
  simp only [PHYSTOP] at short
  omega

/-- The arguments are pushed, and the loop faults exactly when one of them is too long for the space below
the stack pointer. -/
theorem Image.pushArgs_stored {argv : List (List (BitVec 8))} {ustack : List (BitVec 64)}
    (image : Image k root tree top [top - 2]) (three : 3 ≤ top) (low : (top - 1) * PGSIZE ≤ sp.toNat)
    (high : sp.toNat ≤ top * PGSIZE) (short : ∀ string ∈ argv, string.length < PHYSTOP) (count : ustack.length ≤ MAXARG)
    :
    (ArgsSafe ((top - 1) * PGSIZE) argv ustack.length sp.toNat ∧ ∃ result after,
        pushArgs root argv sp ustack k = .ok (result, after) ∧
        Stored False k root tree top [top - 2] after ∧
        ∀ last strings, result = some (last, strings) →
          (top - 1) * PGSIZE ≤ last.toNat ∧ last.toNat ≤ top * PGSIZE ∧ strings.length ≤ MAXARG) ∨
      ¬ArgsSafe ((top - 1) * PGSIZE) argv ustack.length sp.toNat ∧
        pushArgs root argv sp ustack k = .error .fault := by
  induction argv generalizing sp ustack k with
  | nil =>
    refine .inl ⟨trivial, _, k, rfl, .refl image id, ?_⟩
    rintro last strings ⟨rfl, rfl⟩
    exact ⟨low, high, count⟩
  | cons string rest ih =>
    rw [pushArgs, ArgsSafe]
    by_cases many : ustack.length ≥ MAXARG
    · rw [if_pos many]
      refine .inl ⟨fun few => absurd few (Nat.not_lt.mpr many), none, k, rfl, .refl image id, ?_⟩
      rintro last strings ⟨⟩
    · have few : ustack.length < MAXARG := Nat.lt_of_not_le many
      have nonempty : string ++ [0] ≠ [] := by simp
      rw [if_neg many]
      dsimp only
      by_cases fits : string.length < sp.toNat
      · have address := push_toNat fits
        have length : (string ++ [(0 : BitVec 8)]).length = string.length + 1 := by simp
        obtain ⟨ret, middle, ran, failed, stored⟩ := image.copyout_range three nonempty low high
          (show ((sp - BitVec.ofNat 64 (string.length + 1)) &&& ~~~7).toNat + _ ≤ sp.toNat by
            rw [address, length, pushed]; omega)
          (by rw [address, length, pushed]; omega)
        rw [address] at failed
        rw [ran, ok_bind]
        dsimp only
        by_cases below : ret < 0
        · have under := failed.mp below
          rw [if_pos below]
          refine .inl ⟨fun _ => ⟨fits, fun above => absurd under (Nat.not_lt.mpr above)⟩, none, middle, rfl, stored, ?_⟩
          rintro last strings ⟨⟩
        · have above : (top - 1) * PGSIZE ≤ pushed sp.toNat string.length :=
            Nat.le_of_not_lt fun under => below (failed.mpr under)
          have lower : pushed sp.toNat string.length ≤ top * PGSIZE := by
            rw [pushed]
            omega
          rw [if_neg below]
          rw [← address] at above lower ⊢
          have later := ih stored.image above lower
            (fun other member => short other (mem_cons_of_mem string member))
            (show (ustack ++ [(sp - BitVec.ofNat 64 (string.length + 1)) &&& ~~~7]).length ≤ MAXARG by
              simpa using few)
          rw [length_append, length_singleton] at later
          rcases later with ⟨safe, result, after, final, more, bounds⟩ | ⟨faulty, final⟩
          · exact .inl ⟨fun _ => ⟨fits, fun _ => safe⟩, result, after, final, stored.trans more, bounds⟩
          · exact .inr ⟨fun safe => faulty ((safe few).2 above), final⟩
      · refine .inr ⟨fun safe => fits (safe few).1, ?_⟩
        rw [image.copyout_wrapped nonempty (push_wrapped (short string mem_cons_self) fits)]
        rfl

end Push
end Xv6
