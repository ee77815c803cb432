import Mathlib.Tactic

namespace Xv6.Library

/-- A program performs operations and continues with their results. -/
inductive Interaction (Op : Type) (Result : Op → Type) (A : Type) : Type where
  | pure (value : A)
  | act (op : Op) (next : Result op → Interaction Op Result A)

section Interaction
variable {Op : Type} {Result : Op → Type} {A B : Type}

def Interaction.bind : Interaction Op Result A → (A → Interaction Op Result B) → Interaction Op Result B
  | .pure value, rest => rest value
  | .act op next, rest => .act op fun result => (next result).bind rest

instance : Monad (Interaction Op Result) where
  pure := .pure
  bind := .bind

/-- The program that performs one operation and returns its result. -/
def Interaction.perform (op : Op) : Interaction Op Result (Result op) := .act op .pure

/-- The loop handles a range of `left` items from an offset on, one block of `width` items at a time. -/
def Interaction.forChunks (width : Nat) (body : Nat → Nat → Nat → A → Interaction Op Result A) :
    Nat → Nat → Nat → A → Interaction Op Result A
  | 0, _, _, value => pure value
  | fuel + 1, off, left, value =>
    if left = 0 then pure value
    else do
      let m := min left (width - off % width)
      let value ← body (off / width) (off % width) m value
      forChunks width body fuel (off + m) (left - m) value

/-- A protocol says which operations a party with a duty may perform and which duties it has afterwards. -/
structure Protocol (Op : Type) (Result : Op → Type) (D : Type) where
  allowed : D → Op → Prop
  moves : D → (op : Op) → Result op → D → Prop

variable {D : Type} {protocol : Protocol Op Result D} {duty : D} {post : A → D → Prop}

/-- The program keeps to the protocol, whatever results its operations have, and ends with the postcondition. -/
def Protocol.Keeps (protocol : Protocol Op Result D) :
    Interaction Op Result A → (A → D → Prop) → D → Prop
  | .pure value, post, duty => post value duty
  | .act op next, post, duty => protocol.allowed duty op ∧
      ∀ result after, protocol.moves duty op result after → protocol.Keeps (next result) post after

/-- A sequence keeps to the protocol if its first part leads to a duty from which the second one does. -/
theorem Protocol.keeps_bind {first : Interaction Op Result A} {second : A → Interaction Op Result B}
    {post : B → D → Prop} (keeps : protocol.Keeps first (fun value after => protocol.Keeps (second value) post after)
      duty) : protocol.Keeps (first >>= second) post duty := by
  induction first generalizing duty with
  | pure value => exact keeps
  | act op next ih =>
    constructor
    · exact keeps.1
    · intro result after moved
      exact ih result (keeps.2 result after moved)

theorem Protocol.keeps_perform {op : Op} {post : Result op → D → Prop} (allowed : protocol.allowed duty op)
    (moved : ∀ result after, protocol.moves duty op result after → post result after) :
    protocol.Keeps (Interaction.perform op) post duty := ⟨allowed, moved⟩

theorem Protocol.Keeps.mono {program : Interaction Op Result A} {weaker : A → D → Prop}
    (keeps : protocol.Keeps program post duty) (imply : ∀ value after, post value after → weaker value after) :
    protocol.Keeps program weaker duty := by
  induction program generalizing duty with
  | pure value => exact imply value duty keeps
  | act op next ih =>
    constructor
    · exact keeps.1
    · intro result after moved
      exact ih result (keeps.2 result after moved)

/-- A loop whose iterations keep the duty keeps it. -/
theorem Protocol.keeps_forM {items : List B} {body : B → Interaction Op Result PUnit} {value : PUnit → D → Prop}
    (iterate : ∀ item ∈ items, protocol.Keeps (body item) (fun _ after => after = duty) duty)
    (ends : value ⟨⟩ duty) : protocol.Keeps (items.forM body) value duty := by
  induction items with
  | nil => exact ends
  | cons item rest ih =>
    apply Protocol.keeps_bind
    apply (iterate item (.head _)).mono
    intro _ after same
    rw [same]
    apply ih
    intro other inside
    exact iterate other (List.mem_cons_of_mem item inside)

theorem Protocol.keeps_forChunks {width fuel off left : Nat} {body : Nat → Nat → Nat → A → Interaction Op Result A}
    {value : A} (iterate : ∀ bn start m value, protocol.Keeps (body bn start m value) (fun _ after => after = duty) duty)
    (ends : ∀ value, post value duty) :
    protocol.Keeps (Interaction.forChunks width body fuel off left value) post duty := by
  induction fuel generalizing off left value with
  | zero => exact ends value
  | succ fuel ih =>
    rw [Interaction.forChunks]
    split
    · exact ends value
    · apply Protocol.keeps_bind
      apply (iterate _ _ _ _).mono
      intro _ after same
      rw [same]
      exact ih

end Interaction
end Xv6.Library
