import Mathlib.Data.List.Basic
import CoroRpc.Lib.BigEndian

/-!
# Decimal numbers as text

The bytes that `std::to_string` writes for a number. The one fact about them is that they read back
as the number; that they are digits, and that two numbers never have the same text, is what a
format with a number in front of a separator needs.
-/

namespace CoroRpc.Lib

open List

/-- `std::to_string`. -/
def decimal (n : Nat) : Bytes := (Nat.toDigits 10 n).map fun c => UInt8.ofNat c.toNat

/-- The number whose digits are the bytes of `text`. -/
def ofDecimal (text : Bytes) : Nat := text.foldl (fun value b => 10 * value + (b.toNat - 48)) 0

variable {n : Nat}

theorem digit_bounds {c : Char} (h : c ∈ Nat.toDigits 10 n) : 48 ≤ c.toNat ∧ c.toNat ≤ 57 := by
  have hdigit := Nat.isDigit_of_mem_toDigits (by decide) (by decide) h
  simpa [Char.isDigit, UInt32.le_iff_toNat_le] using hdigit

theorem decimal_digits {b : UInt8} (h : b ∈ decimal n) : 48 ≤ b ∧ b ≤ 57 := by
  obtain ⟨c, hc, rfl⟩ := mem_map.mp h
  have hb := digit_bounds hc
  rw [UInt8.le_iff_toNat_le, UInt8.le_iff_toNat_le, UInt8.toNat_ofNat']
  simp only [UInt8.reduceToNat]
  omega

theorem colon_not_mem_decimal : 58 ∉ decimal n := by
  intro h
  exact absurd (decimal_digits h).2 (by decide)

theorem decimal_ne_nil : decimal n ≠ [] := by
  intro h
  exact Nat.toDigits_ne_nil (map_eq_nil_iff.mp h)

theorem ofDecimal_decimal : ofDecimal (decimal n) = n := by
  rw [ofDecimal, decimal, foldl_map]
  refine (foldl_ext _ _ 0 fun value c hc => ?_).trans
    (Nat.ofDigitChars_eq_foldl.symm.trans Nat.ofDigitChars_ten_toDigits)
  rw [UInt8.toNat_ofNat', Nat.mod_eq_of_lt (Nat.lt_of_le_of_lt (digit_bounds hc).2 (by decide))]
  rfl

theorem decimal_injective : Function.Injective decimal :=
  Function.LeftInverse.injective fun _ => ofDecimal_decimal

end CoroRpc.Lib
