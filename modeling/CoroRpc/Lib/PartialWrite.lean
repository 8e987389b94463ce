import Mathlib.Data.List.Basic

/-!
# Writing a stream in batches

A writer is given items one batch after the other and hands each batch to a sink that takes as
many of them at a time as it likes. What the sink has is at every moment a prefix of what the
writer has been given: all of it between two batches, and all but the rest of the batch inside one.
-/

namespace CoroRpc.Lib

open List

universe u

variable {α : Type u}

/-- Where a writer is: between two batches, or at an offset of its batch. -/
inductive Progress where
  | idle
  | writing (offset : Nat)

/-- The sink has `wire` of the `given` items. -/
def Sent (given wire batch : List α) : Progress → Prop
  | .idle => wire = given
  | .writing offset => wire ++ batch.drop offset = given

namespace Sent

variable {given wire batch : List α} {offset : Nat}

theorem isPrefix {progress : Progress} (h : Sent given wire batch progress) : wire <+: given := by
  cases progress with
  | idle => exact h ▸ prefix_rfl
  | writing offset => exact ⟨_, h⟩

theorem fill (h : Sent given wire batch .idle) (next : List α) :
    Sent (given ++ next) wire next (.writing 0) := by
  subst h
  rfl

theorem advance (h : Sent given wire batch (.writing offset)) (n : Nat) :
    Sent given (wire ++ (batch.drop offset).take n) batch (.writing (offset + n)) := by
  have hrest : (batch.drop offset).drop n = batch.drop (offset + n) := drop_drop
  calc wire ++ (batch.drop offset).take n ++ batch.drop (offset + n)
      = wire ++ ((batch.drop offset).take n ++ (batch.drop offset).drop n) := by
        rw [hrest, append_assoc]
    _ = wire ++ batch.drop offset := by rw [take_append_drop]
    _ = given := h

theorem finish (h : Sent given wire batch (.writing offset)) (hend : batch.length ≤ offset) :
    Sent given wire batch .idle := by
  change wire ++ batch.drop offset = given at h
  rwa [drop_eq_nil_of_le hend, append_nil] at h

end Sent

end CoroRpc.Lib
