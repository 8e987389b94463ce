import Mathlib.Algebra.GroupWithZero.Nat
import Mathlib.Data.List.Induction

/-!
# Big-endian integers

A `k`-byte field holds a number below `256 ^ k`, most significant byte first. `toBigEndian` and
`ofBigEndian` are the two directions at an arbitrary width, and the two round trips are what a
fixed-width codec over them needs: writing then reading gives the number back, and a field read
and written again is the same field. The second is what makes a decoder accept nothing that the
encoder does not produce.
-/

namespace CoroRpc.Lib

open List

abbrev Bytes := List UInt8

def ofBigEndian (bs : Bytes) : Nat := bs.foldl (fun n b => n * 256 + b.toNat) 0

/-- The `k` low bytes of a number, most significant first. -/
def toBigEndian : Nat → Nat → Bytes
  | 0, _ => []
  | k + 1, n => toBigEndian k (n / 256) ++ [UInt8.ofNat n]

@[simp] theorem length_toBigEndian (k n : Nat) : (toBigEndian k n).length = k := by
  induction k generalizing n with
  | zero => rfl
  | succ k ih => simp [toBigEndian, ih]

theorem ofBigEndian_concat (bs : Bytes) (b : UInt8) :
    ofBigEndian (bs ++ [b]) = ofBigEndian bs * 256 + b.toNat := by
  simp [ofBigEndian]

theorem ofBigEndian_lt (bs : Bytes) : ofBigEndian bs < 256 ^ bs.length := by
  induction bs using List.reverseRecOn with
  | nil => simp [ofBigEndian]
  | append_singleton bs b ih =>
    have hb : b.toNat < 256 := b.toNat_lt
    rw [ofBigEndian_concat, length_append, length_singleton, Nat.pow_succ]
    omega

theorem ofBigEndian_toBigEndian {k n : Nat} (h : n < 256 ^ k) :
    ofBigEndian (toBigEndian k n) = n := by
  induction k generalizing n with
  | zero =>
    simp only [Nat.pow_zero, Nat.lt_one_iff] at h
    subst h
    rfl
  | succ k ih =>
    have hq : n / 256 < 256 ^ k := by
      omega
    rw [toBigEndian, ofBigEndian_concat, ih hq, UInt8.toNat_ofNat']
    omega

theorem toBigEndian_ofBigEndian (bs : Bytes) : toBigEndian bs.length (ofBigEndian bs) = bs := by
  induction bs using List.reverseRecOn with
  | nil => rfl
  | append_singleton bs b ih =>
    have hb : b.toNat < 256 := b.toNat_lt
    have hq : (ofBigEndian bs * 256 + b.toNat) / 256 = ofBigEndian bs := by omega
    have hr : UInt8.ofNat (ofBigEndian bs * 256 + b.toNat) = b := by
      apply UInt8.toNat_inj.mp
      rw [UInt8.toNat_ofNat']
      omega
    rw [length_append, length_singleton, toBigEndian, ofBigEndian_concat, hq, ih, hr]

end CoroRpc.Lib
