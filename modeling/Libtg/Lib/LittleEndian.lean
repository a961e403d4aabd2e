import Mathlib.Tactic

/-!
# Little-endian numbers

A number written in a fixed count of bytes, least significant byte first, and read back. `leBytes`
keeps the low bytes only, as a store of a narrower integer type does, so `leNat (leBytes w n)` is
`n % 256 ^ w`.
-/

namespace LittleEndian

/-- The `w` low bytes of `n`, least significant first. -/
def leBytes : Nat → Nat → List UInt8
  | 0, _ => []
  | w + 1, n => UInt8.ofNat n :: leBytes w (n / 256)

/-- The number a byte string stands for, least significant byte first. -/
def leNat : List UInt8 → Nat
  | [] => 0
  | b :: bs => b.toNat + 256 * leNat bs

@[simp] theorem leBytes_length (w n : Nat) : (leBytes w n).length = w := by
  induction w generalizing n with
  | zero => rfl
  | succ w ih => simp [leBytes, ih]

/-- The low bytes of a number are its first ones. -/
theorem prefix_leBytes {v w : Nat} (h : v ≤ w) (n : Nat) : leBytes v n <+: leBytes w n := by
  induction v generalizing w n with
  | zero => exact List.nil_prefix
  | succ v ih =>
    obtain ⟨w, rfl⟩ : ∃ w', w = w' + 1 := Nat.exists_eq_succ_of_ne_zero (by omega)
    exact (List.prefix_cons_inj _).mpr (ih (Nat.le_of_succ_le_succ h) _)

theorem leNat_leBytes (w n : Nat) : leNat (leBytes w n) = n % 256 ^ w := by
  induction w generalizing n with
  | zero => simp [leBytes, leNat, Nat.mod_one]
  | succ w ih =>
    have hlow : (UInt8.ofNat n).toNat = n % 256 := by simp
    rw [leBytes, leNat, ih, hlow, pow_succ, Nat.mul_comm (256 ^ w), Nat.mod_mul]

theorem leNat_leBytes_of_lt {w n : Nat} (h : n < 256 ^ w) : leNat (leBytes w n) = n := by
  rw [leNat_leBytes, Nat.mod_eq_of_lt h]

theorem leNat_lt (bs : List UInt8) : leNat bs < 256 ^ bs.length := by
  induction bs with
  | nil => simp [leNat]
  | cons b bs ih =>
    have hb := b.toNat_lt
    simp only [leNat, List.length_cons, pow_succ]
    omega

theorem leBytes_leNat (bs : List UInt8) : leBytes bs.length (leNat bs) = bs := by
  induction bs with
  | nil => rfl
  | cons b bs ih =>
    have hb := b.toNat_lt
    have hdiv : (b.toNat + 256 * leNat bs) / 256 = leNat bs := by omega
    have hlow : UInt8.ofNat (b.toNat + 256 * leNat bs) = b := by
      apply UInt8.toNat_inj.mp
      simp only [UInt8.toNat_ofNat']
      omega
    rw [List.length_cons, leBytes, leNat, hdiv, ih, hlow]

/-- Only the low bytes count. -/
theorem leBytes_mod (w n : Nat) : leBytes w (n % 256 ^ w) = leBytes w n := by
  have hread := leBytes_leNat (leBytes w n)
  rwa [leBytes_length, leNat_leBytes] at hread

/-! ### Machine words -/

def le32 (v : UInt32) : List UInt8 := leBytes 4 v.toNat

def le64 (v : UInt64) : List UInt8 := leBytes 8 v.toNat

def get32 (bs : List UInt8) : UInt32 := UInt32.ofNat (leNat bs)

def get64 (bs : List UInt8) : UInt64 := UInt64.ofNat (leNat bs)

@[simp] theorem le32_length (v : UInt32) : (le32 v).length = 4 := leBytes_length 4 _

@[simp] theorem le64_length (v : UInt64) : (le64 v).length = 8 := leBytes_length 8 _

@[simp] theorem get32_le32 (v : UInt32) : get32 (le32 v) = v := by
  rw [get32, le32, leNat_leBytes_of_lt (by have := v.toNat_lt; norm_num; omega), UInt32.ofNat_toNat]

@[simp] theorem get64_le64 (v : UInt64) : get64 (le64 v) = v := by
  rw [get64, le64, leNat_leBytes_of_lt (by have := v.toNat_lt; norm_num; omega), UInt64.ofNat_toNat]

theorem le32_inj {v w : UInt32} (h : le32 v = le32 w) : v = w := by
  rw [← get32_le32 v, h, get32_le32]

theorem le32_get32 {bs : List UInt8} (h : bs.length = 4) : le32 (get32 bs) = bs := by
  have hlt := leNat_lt bs
  rw [h] at hlt
  have hval : (get32 bs).toNat = leNat bs := by
    rw [get32, UInt32.toNat_ofNat']
    exact Nat.mod_eq_of_lt hlt
  rw [le32, hval, ← h, leBytes_leNat]

theorem le64_get64 {bs : List UInt8} (h : bs.length = 8) : le64 (get64 bs) = bs := by
  have hlt := leNat_lt bs
  rw [h] at hlt
  have hval : (get64 bs).toNat = leNat bs := by
    rw [get64, UInt64.toNat_ofNat']
    exact Nat.mod_eq_of_lt hlt
  rw [le64, hval, ← h, leBytes_leNat]

end LittleEndian
