import Mathlib.Tactic

/-!
# Mixing that loses nothing

A word combined with itself, shifted: a word that equals its own shift is zero, so that no two words
are mixed to the same (`xor_ushiftRight_injective`, `xor_shiftLeft_injective`). What every step does
without loss a run of steps does (`foldl_bijective`).
-/

namespace Xorshift

universe u v

variable {w k : Nat} {z : BitVec w}

theorem eq_zero_of_ushiftRight (hk : 0 < k) (h : z = z >>> k) : z = 0 := by
  have hnat : z.toNat = z.toNat / 2 ^ k := by
    rw [← Nat.shiftRight_eq_div_pow, ← BitVec.toNat_ushiftRight, ← h]
  have hpow : 1 < 2 ^ k := Nat.one_lt_two_pow hk.ne'
  refine BitVec.eq_of_toNat_eq ?_
  by_contra hne
  have hlt := Nat.div_lt_self (Nat.pos_of_ne_zero hne) hpow
  omega

theorem eq_zero_of_shiftLeft (hk : 0 < k) (h : z = z <<< k) : z = 0 := by
  have hbit (i : Nat) : z.getLsbD i = false := by
    induction i using Nat.strong_induction_on with
    | h i ih =>
      rw [h, BitVec.getLsbD_shiftLeft]
      by_cases hi : i < k
      · rw [decide_eq_true hi, Bool.not_true, Bool.and_false, Bool.false_and]
      · rw [ih (i - k) (by omega), Bool.and_false]
  exact BitVec.eq_of_getLsbD_eq fun i _ => (hbit i).trans BitVec.getLsbD_zero.symm

/-- Two words with the same mixture differ by a word that equals its own shift. -/
theorem xor_injective {f : BitVec w → BitVec w} (hxor : ∀ x y, f (x ^^^ y) = f x ^^^ f y)
    (hzero : ∀ z, z = f z → z = 0) : Function.Injective fun x => x ^^^ f x := by
  intro x y h
  have hcancel (a b c : BitVec w) : a ^^^ b = a ^^^ c ^^^ (c ^^^ b) := by
    rw [BitVec.xor_assoc, ← BitVec.xor_assoc c, BitVec.xor_self, BitVec.zero_xor]
  have hshift : x ^^^ y = f (x ^^^ y) := by
    calc x ^^^ y = x ^^^ f x ^^^ (f x ^^^ y) := hcancel x y (f x)
      _ = f y ^^^ y ^^^ (y ^^^ f x) := by
        rw [show x ^^^ f x = y ^^^ f y from h, BitVec.xor_comm y, BitVec.xor_comm (f x)]
      _ = f y ^^^ f x := (hcancel (f y) (f x) y).symm
      _ = f (x ^^^ y) := by rw [hxor, BitVec.xor_comm]
  exact BitVec.xor_eq_zero_iff.mp (hzero _ hshift)

theorem xor_ushiftRight_injective (hk : 0 < k) :
    Function.Injective fun x : BitVec w => x ^^^ (x >>> k) :=
  xor_injective (fun x y => BitVec.ushiftRight_xor_distrib x y k)
    fun _ => eq_zero_of_ushiftRight hk

theorem xor_shiftLeft_injective (hk : 0 < k) :
    Function.Injective fun x : BitVec w => x ^^^ (x <<< k) :=
  xor_injective (fun x y => BitVec.shiftLeft_xor_distrib x y k)
    fun _ => eq_zero_of_shiftLeft hk

theorem foldl_bijective {σ : Type u} {α : Type v} {f : σ → α → σ}
    (hf : ∀ a, Function.Bijective (f · a)) (l : List α) :
    Function.Bijective fun s => l.foldl f s := by
  induction l with
  | nil => exact Function.bijective_id
  | cons a l ih => exact ih.comp (hf a)

end Xorshift
