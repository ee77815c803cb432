import Xv6.Construction.Context

namespace Xv6.FlatCore
variable {core before after : FlatCore} {addr low : BitVec 64} {words : List (BitVec 64)}

theorem word_storeWord (core : FlatCore) (addr value : BitVec 64) : word (core.storeWord addr value).memory addr = value := by
  have bytes : ∀ i : Fin 8, ((core.storeWord addr value).memory (addr + BitVec.ofNat 64 i)).toNat =
      value.toNat / 256 ^ i.val % 256 := by
    intro i
    have offset : (addr + BitVec.ofNat 64 i - addr).toNat = i := by
      rw [add_sub_cancel_left, BitVec.toNat_ofNat]
      omega
    unfold storeWord
    dsimp only
    rw [offset, if_pos i.isLt]
    rfl
  have small := value.isLt
  apply BitVec.eq_of_toNat_eq
  rw [word, BitVec.toNat_ofNat]
  simp only [bytes, List.ofFn_succ, List.ofFn_zero, Nat.ofDigits_cons, Nat.ofDigits_nil]
  simp
  omega

/-- The memory has the words from an address on. -/
def Stack (memory : BitVec 64 → BitVec 8) : BitVec 64 → List (BitVec 64) → Prop
  | _, [] => True
  | addr, value :: words => word memory addr = value ∧ Stack memory (addr + 8) words

theorem Stack.spared (stack : Stack before.memory addr words) (spares : Spares before after addr (8 * words.length)) :
    Stack after.memory addr words := by
  induction words generalizing addr with
  | nil => trivial
  | cons value words ih =>
    rw [List.length_cons] at spares
    refine ⟨?_, ih stack.2 ?_⟩
    · rw [← stack.1]
      have bytes : ∀ i : Fin 8, after.memory (addr + BitVec.ofNat 64 i) = before.memory (addr + BitVec.ofNat 64 i) :=
        fun i => spares i (by omega)
      unfold word
      simp only [bytes]
    · intro i inside
      have byte := spares (8 + i) (by omega)
      rwa [BitVec.ofNat_add, ← add_assoc] at byte

theorem storeWord_spares {size : Nat} (core : FlatCore) (value : BitVec 64)
    (apart : ∀ i < size, 8 ≤ (low + BitVec.ofNat 64 i - addr).toNat) :
    Spares core (core.storeWord addr value) low size := by
  intro i inside
  unfold storeWord
  dsimp only
  rw [if_neg (not_lt.mpr (apart i inside))]

theorem Stack.push (stack : Stack core.memory (core.reg .rsp) words) (src : Source) (fits : words.length < 2 ^ 60) :
    Stack (core.step (.push src)).memory ((core.step (.push src)).reg .rsp) (core.value src :: words) := by
  refine ⟨word_storeWord _ _ _, ?_⟩
  change Stack (core.storeWord (core.reg .rsp - 8) (core.value src)).memory (core.reg .rsp - 8 + 8) words
  rw [sub_add_cancel]
  apply stack.spared
  apply storeWord_spares
  intro i inside
  rw [add_sub_sub_cancel, BitVec.toNat_add, BitVec.toNat_ofNat]
  change 8 ≤ (_ + 8) % _
  omega

/-- The call and the first six instructions save the registers on the stack of the caller. -/
theorem within_stack (core : FlatCore) (back : BitVec 64) :
    Stack (core.within back 6).memory ((core.within back 6).reg .rsp)
      [core.reg .r15, core.reg .r14, core.reg .r13, core.reg .r12, core.reg .rbx, core.reg .rbp, back] := by
  have empty : Stack core.memory (core.reg .rsp) [] := trivial
  have called := empty.push (.imm back) (by simp)
  have rbp := called.push (.reg .rbp) (by simp)
  have rbx := rbp.push (.reg .rbx) (by simp)
  have r12 := rbx.push (.reg .r12) (by simp)
  have r13 := r12.push (.reg .r13) (by simp)
  have r14 := r13.push (.reg .r14) (by simp)
  exact r14.push (.reg .r15) (by simp)

theorem within_save (core : FlatCore) (back : BitVec 64) :
    word (core.callSwtch back).memory (core.reg .rdi) = (core.within back 6).reg .rsp := by
  have memory : (core.callSwtch back).memory =
      ((core.within back 6).storeWord (core.reg .rdi + 0) ((core.within back 6).reg .rsp)).memory := rfl
  rw [memory, add_zero, word_storeWord]

theorem coNew_stack (core : FlatCore) (stack func coExit : BitVec 64) :
    Stack (core.coNew stack func coExit).memory (stack + 1000 + 8 * 6) [func, coExit] := by
  have next : stack + 1000 + 8 * 7 = stack + 1000 + 8 * 6 + 8 := by
    have word : (8 * 7 : BitVec 64) = 8 * 6 + 8 := by decide
    rw [word, add_assoc (stack + 1000)]
  have entry : Stack (core.storeWord (stack + 1000 + 8 * 6) func).memory (stack + 1000 + 8 * 6) [func] :=
    ⟨word_storeWord _ _ _, trivial⟩
  rw [coNew, next]
  refine ⟨(entry.spared (storeWord_spares _ coExit ?_)).1, word_storeWord _ _ _, trivial⟩
  intro i inside
  rw [add_sub_add_left_eq_sub, BitVec.toNat_sub, BitVec.toNat_ofNat]
  change 8 ≤ (2 ^ 64 - 8 + i % 2 ^ 64) % 2 ^ 64
  change i < 8 at inside
  omega

/-- A context that `swtch` saved is restored when nothing has overwritten it. The first switch to the context of
`co_new` enters the function, and its return enters `co_exit`. -/
theorem swtch_restores_context :
    (∀ (core later : FlatCore) (back again : BitVec 64),
      word (core.callSwtch back).memory (core.reg .rdi) = (core.within back 6).reg .rsp ∧
      (later.reg .rsi = (core.within back 6).reg .rsp →
        Spares (core.within back 6) (later.within again 7) (later.reg .rsi) (8 * 7) →
        (later.callSwtch again).rip = back ∧
          ∀ r, r.calleeSaved = true → (later.callSwtch again).reg r = core.reg r)) ∧
    ∀ (core later : FlatCore) (stack func coExit again : BitVec 64), later.reg .rsi = stack + 1000 →
      Spares (core.coNew stack func coExit) (later.within again 7) (stack + 1000 + 8 * 6) (8 * 2) →
      (later.callSwtch again).rip = func ∧
        word (later.callSwtch again).memory ((later.callSwtch again).reg .rsp) = coExit ∧
        ∀ returns : FlatCore, returns.reg .rsp = (later.callSwtch again).reg .rsp →
          Spares (later.callSwtch again) returns (returns.reg .rsp) 8 → returns.ret.rip = coExit := by
  constructor
  · intro core later back again
    refine ⟨within_save core back, ?_⟩
    intro context spares
    have stack := within_stack core back
    rw [← context] at stack
    obtain ⟨r15, r14, r13, r12, rbx, rbp, rip, _⟩ := stack.spared spares
    refine ⟨rip, ?_⟩
    intro r saved
    cases r with
    | rbx => exact rbx
    | rbp => exact rbp
    | r12 => exact r12
    | r13 => exact r13
    | r14 => exact r14
    | r15 => exact r15
    | rsp =>
      change later.reg .rsi + 8 + 8 + 8 + 8 + 8 + 8 + 8 = core.reg .rsp
      rw [context]
      change core.reg .rsp - 8 - 8 - 8 - 8 - 8 - 8 - 8 + 8 + 8 + 8 + 8 + 8 + 8 + 8 = core.reg .rsp
      simp only [sub_add_cancel]
    | _ => cases saved
  · intro core later stack func coExit again context spares
    obtain ⟨entry, exit, _⟩ := (core.coNew_stack stack func coExit).spared spares
    have rip : (later.callSwtch again).rip = func := by
      rw [← entry, ← context]
      change word _ (later.reg .rsi + 8 + 8 + 8 + 8 + 8 + 8) = _
      simp only [add_assoc]
      rfl
    have top : (later.callSwtch again).reg .rsp = stack + 1000 + 8 * 6 + 8 := by
      rw [← context]
      change later.reg .rsi + 8 + 8 + 8 + 8 + 8 + 8 + 8 = _
      simp only [add_assoc]
      rfl
    have exits : word (later.callSwtch again).memory ((later.callSwtch again).reg .rsp) = coExit := by
      rw [top]
      exact exit
    refine ⟨rip, exits, ?_⟩
    intro returns same left
    have stays : Stack (later.callSwtch again).memory (returns.reg .rsp) [coExit] := by
      rw [same]
      exact ⟨exits, trivial⟩
    exact (stays.spared left).1

end Xv6.FlatCore
