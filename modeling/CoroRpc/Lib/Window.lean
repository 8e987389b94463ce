import Mathlib.Data.List.Basic

/-!
# Consecutive windows of a history

A history is cut into consecutive windows of `size` entries; the current window is the last of them,
which is full or still filling. It is given by its place in the history, and `currentWindow_snoc`
says how it changes: a full window is left behind, any other one grows.
-/

namespace CoroRpc.Lib

open List

universe u

variable {α : Type u} {size : Nat} {history : List α}

/-- The window that the last entry of the history is in. -/
def currentWindow (size : Nat) (history : List α) : List α :=
  history.drop ((history.length - 1) / size * size)

@[simp] theorem currentWindow_nil : currentWindow size ([] : List α) = [] := drop_nil

theorem currentWindow_of_le (h : history.length ≤ size) : currentWindow size history = history := by
  cases hn : history.length with
  | zero => rw [eq_nil_of_length_eq_zero hn, currentWindow_nil]
  | succ n =>
    rw [currentWindow, hn, Nat.add_sub_cancel, Nat.div_eq_of_lt (by omega), Nat.zero_mul, drop_zero]

theorem currentWindow_snoc (hsize : 0 < size) (history : List α) (a : α) :
    currentWindow size (history ++ [a]) =
      if size ≤ (currentWindow size history).length then [a]
      else currentWindow size history ++ [a] := by
  cases hn : history.length with
  | zero =>
    obtain rfl := eq_nil_of_length_eq_zero hn
    simp [currentWindow]
  | succ n =>
    have hlen : (currentWindow size history).length = n + 1 - n / size * size := by
      rw [currentWindow, length_drop, hn, Nat.add_sub_cancel]
    have hsnoc : currentWindow size (history ++ [a]) =
        (history ++ [a]).drop ((n + 1) / size * size) := by
      rw [currentWindow, length_append, hn, length_singleton, Nat.add_sub_cancel]
    -- `n` is the place of the last entry; the next one starts a window if `n` ends one
    have hdiv := Nat.div_add_mod n size
    have hmod := Nat.mod_lt n hsize
    rw [Nat.mul_comm] at hdiv
    rw [hsnoc, hlen]
    by_cases hends : n % size + 1 = size
    · have hstart : (n + 1) / size * size = n + 1 := by
        refine Nat.div_mul_cancel ⟨n / size + 1, ?_⟩
        rw [Nat.mul_add, Nat.mul_one, Nat.mul_comm]
        omega
      rw [if_pos (by omega), hstart, drop_append_of_le_length (by omega),
        drop_of_length_le (by omega), nil_append]
    · have hstart : (n + 1) / size = n / size := by
        refine Nat.succ_div_of_not_dvd fun hdvd => hends ?_
        have hzero := Nat.mod_eq_zero_of_dvd hdvd
        rw [← Nat.mod_add_mod, Nat.mod_eq_of_lt (by omega)] at hzero
        omega
      rw [if_neg (by omega), hstart, drop_append_of_le_length (by omega), currentWindow, hn,
        Nat.add_sub_cancel]

end CoroRpc.Lib
