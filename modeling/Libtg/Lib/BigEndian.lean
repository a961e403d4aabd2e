import Libtg.Lib.LittleEndian
import Mathlib.Data.Nat.Size

/-!
# Big-endian numbers without leading zeros

The bytes in which a number of any size is written, most significant first and none of them too
many, and the number a byte string stands for.
-/

namespace BigEndian

open LittleEndian

/-- The number a byte string stands for, most significant byte first. -/
def beNat (b : List UInt8) : Nat := leNat b.reverse

/-- How many bytes a number takes. -/
def byteCount (n : Nat) : Nat := (Nat.size n + 7) / 8

/-- The bytes of a number. -/
def beBytes (n : Nat) : List UInt8 := (leBytes (byteCount n) n).reverse

@[simp] theorem length_beBytes (n : Nat) : (beBytes n).length = byteCount n := by
  rw [beBytes, List.length_reverse, leBytes_length]

theorem byteCount_le_iff {n k : Nat} : byteCount n ≤ k ↔ n < 256 ^ k := by
  have hpow : 256 ^ k = 2 ^ (8 * k) := by rw [pow_mul]; norm_num
  rw [hpow, ← Nat.size_le, byteCount]
  omega

theorem lt_pow_byteCount (n : Nat) : n < 256 ^ byteCount n := byteCount_le_iff.mp le_rfl

/-- A number takes `k` bytes if its first one is not zero. -/
theorem byteCount_eq_succ_iff {n k : Nat} :
    byteCount n = k + 1 ↔ 256 ^ k ≤ n ∧ n < 256 ^ (k + 1) := by
  rw [← byteCount_le_iff, ← not_lt, ← byteCount_le_iff]
  omega

theorem beNat_beBytes (n : Nat) : beNat (beBytes n) = n := by
  rw [beNat, beBytes, List.reverse_reverse, leNat_leBytes_of_lt (lt_pow_byteCount n)]

theorem beNat_lt (b : List UInt8) : beNat b < 256 ^ b.length := by
  have hlt := leNat_lt b.reverse
  rwa [List.length_reverse] at hlt

theorem leNat_append (a b : List UInt8) : leNat (a ++ b) = leNat a + 256 ^ a.length * leNat b := by
  induction a with
  | nil => rw [List.nil_append, List.length_nil, pow_zero, one_mul, leNat, zero_add]
  | cons x a ih =>
    rw [List.cons_append, leNat, leNat, ih, List.length_cons, pow_succ]
    ring

theorem leNat_replicate_zero (k : Nat) : leNat (List.replicate k 0) = 0 := by
  induction k with
  | zero => rfl
  | succ k ih => rw [List.replicate_succ, leNat, ih]; rfl

/-- Zeros behind a number multiply it. -/
theorem beNat_append_zeros (b : List UInt8) (k : Nat) :
    beNat (b ++ List.replicate k 0) = 256 ^ k * beNat b := by
  rw [beNat, beNat, List.reverse_append, List.reverse_replicate, leNat_append,
    leNat_replicate_zero, List.length_replicate, zero_add]

end BigEndian
