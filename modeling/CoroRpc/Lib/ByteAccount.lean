import Mathlib.Algebra.GroupWithZero.Nat
import Mathlib.Data.List.Basic

/-!
# A queue and the counter beside it

A queue whose elements have sizes, a counter of what is in it and a limit. The counter is right when
it is the sum of the sizes and within the limit. This is kept by an element that enters where there
is room, by one that leaves at the front and by emptying both; and a front element can always be
subtracted.
-/

namespace CoroRpc.Lib

open List

/-- The counter `bytes` of a queue of elements with these sizes. -/
structure ByteAccount (limit : Nat) (sizes : List Nat) (bytes : Nat) : Prop where
  sum : bytes = sizes.sum
  within : bytes ≤ limit

namespace ByteAccount

variable {limit bytes n : Nat} {sizes taken rest : List Nat}

theorem empty (limit : Nat) : ByteAccount limit [] 0 := ⟨rfl, Nat.zero_le _⟩

theorem push (h : ByteAccount limit sizes bytes) (hroom : bytes + n ≤ limit) :
    ByteAccount limit (sizes ++ [n]) (bytes + n) := by
  refine ⟨?_, hroom⟩
  rw [sum_append, sum_singleton, h.sum]

theorem le_of_front (h : ByteAccount limit (n :: sizes) bytes) : n ≤ bytes := by
  rw [h.sum, sum_cons]
  exact Nat.le_add_right _ _

theorem pop (h : ByteAccount limit (n :: sizes) bytes) : ByteAccount limit sizes (bytes - n) := by
  refine ⟨?_, Nat.le_trans (Nat.sub_le _ _) h.within⟩
  rw [h.sum, sum_cons, Nat.add_sub_cancel_left]

/-- With any subtraction that is exact where it can be, what is left of the counter when the
    elements `taken` have left the queue. -/
theorem foldl_pop {sub : Nat → Nat → Nat} (hsub : ∀ a b, b ≤ a → sub a b = a - b)
    (h : ByteAccount limit (taken ++ rest) bytes) :
    ByteAccount limit rest (taken.foldl sub bytes) := by
  induction taken generalizing bytes with
  | nil => exact h
  | cons n taken ih =>
    rw [foldl_cons, hsub bytes n h.le_of_front]
    exact ih h.pop

end ByteAccount

end CoroRpc.Lib
