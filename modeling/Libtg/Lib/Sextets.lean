import Mathlib.Tactic

/-!
# Three octets as four sextets

A word of 24 bits is three octets or four sextets, each the other way to write it (`ofSextets_word`,
`octets_word`). Where octets are missing, so are the sextets that only they have bits in.
-/

namespace Sextets

/-- The word with these octets. -/
def word (a b c : UInt8) : UInt32 :=
  (a.toUInt32 <<< 0x10) + (b.toUInt32 <<< 0x08) + c.toUInt32

def sextet (k : UInt32) (w : UInt32) : UInt32 := (w >>> (k * 6)) &&& 0x3F

def octet (k : UInt32) (w : UInt32) : UInt8 := ((w >>> (k * 8)) &&& 0xFF).toUInt8

/-- The word with these sextets. -/
def ofSextets (a b c d : UInt32) : UInt32 :=
  (a <<< (3 * 6)) + (b <<< (2 * 6)) + (c <<< (1 * 6)) + (d <<< (0 * 6))

theorem toNat_word (a b c : UInt8) :
    (word a b c).toNat = a.toNat * 65536 + b.toNat * 256 + c.toNat := by
  have ha := a.toNat_lt
  have hb := b.toNat_lt
  have hc := c.toNat_lt
  simp [word, Nat.shiftLeft_eq]
  omega

theorem word_lt (a b c : UInt8) : (word a b c).toNat < 2 ^ 24 := by
  have ha := a.toNat_lt
  have hb := b.toNat_lt
  have hc := c.toNat_lt
  rw [toNat_word]
  omega

theorem sextet_lt (k w : UInt32) : (sextet k w).toNat < 64 := by
  have := Nat.and_lt_two_pow (w >>> (k * 6)).toNat (by decide : 0x3F < 2 ^ 6)
  simpa [sextet] using this

theorem toNat_sextet {k : Nat} (hk : k < 4) (w : UInt32) :
    (sextet (UInt32.ofNat k) w).toNat = w.toNat / 2 ^ (k * 6) % 64 := by
  have hmask (n : Nat) : n &&& 63 = n % 64 := Nat.and_two_pow_sub_one_eq_mod n 6
  interval_cases k <;> simp [sextet, hmask, Nat.shiftRight_eq_div_pow]

/-- Sextets do not overlap. -/
theorem toNat_ofSextets {a b c d : UInt32} (ha : a.toNat < 64) (hb : b.toNat < 64)
    (hc : c.toNat < 64) (hd : d.toNat < 64) :
    (ofSextets a b c d).toNat
      = a.toNat * 262144 + b.toNat * 4096 + c.toNat * 64 + d.toNat := by
  simp [ofSextets, Nat.shiftLeft_eq]
  omega

theorem ofSextets_sextet {w : UInt32} (hw : w.toNat < 2 ^ 24) :
    ofSextets (sextet 3 w) (sextet 2 w) (sextet 1 w) (sextet 0 w) = w := by
  have h3 : (sextet 3 w).toNat = w.toNat / 2 ^ (3 * 6) % 64 := toNat_sextet (by decide : 3 < 4) w
  have h2 : (sextet 2 w).toNat = w.toNat / 2 ^ (2 * 6) % 64 := toNat_sextet (by decide : 2 < 4) w
  have h1 : (sextet 1 w).toNat = w.toNat / 2 ^ (1 * 6) % 64 := toNat_sextet (by decide : 1 < 4) w
  have h0 : (sextet 0 w).toNat = w.toNat / 2 ^ (0 * 6) % 64 := toNat_sextet (by decide : 0 < 4) w
  refine UInt32.toNat_inj.mp ?_
  rw [toNat_ofSextets (sextet_lt _ _) (sextet_lt _ _) (sextet_lt _ _) (sextet_lt _ _), h3, h2, h1,
    h0]
  omega

theorem toNat_octet {k : Nat} (hk : k < 3) (w : UInt32) :
    (octet (UInt32.ofNat k) w).toNat = w.toNat / 2 ^ (k * 8) % 256 := by
  have hmask (n : Nat) : n &&& 255 = n % 256 := Nat.and_two_pow_sub_one_eq_mod n 8
  interval_cases k <;> simp [octet, hmask, Nat.shiftRight_eq_div_pow]

theorem octet_word (a b c : UInt8) :
    octet 2 (word a b c) = a ∧ octet 1 (word a b c) = b ∧ octet 0 (word a b c) = c := by
  have h2 : (octet 2 (word a b c)).toNat = (word a b c).toNat / 2 ^ (2 * 8) % 256 :=
    toNat_octet (by decide : 2 < 3) _
  have h1 : (octet 1 (word a b c)).toNat = (word a b c).toNat / 2 ^ (1 * 8) % 256 :=
    toNat_octet (by decide : 1 < 3) _
  have h0 : (octet 0 (word a b c)).toNat = (word a b c).toNat / 2 ^ (0 * 8) % 256 :=
    toNat_octet (by decide : 0 < 3) _
  have hword := toNat_word a b c
  have ha := a.toNat_lt
  have hb := b.toNat_lt
  have hc := c.toNat_lt
  refine ⟨UInt8.toNat_inj.mp ?_, UInt8.toNat_inj.mp ?_, UInt8.toNat_inj.mp ?_⟩ <;> omega

/-- Without the last octet the last sextet is zero, without the last two the last two. -/
theorem sextet_zero (a b : UInt8) :
    sextet 0 (word a b 0) = 0 ∧ sextet 1 (word a 0 0) = 0 := by
  have h0 : (sextet 0 (word a b 0)).toNat = (word a b 0).toNat / 2 ^ (0 * 6) % 64 :=
    toNat_sextet (by decide : 0 < 4) _
  have h1 : (sextet 1 (word a 0 0)).toNat = (word a 0 0).toNat / 2 ^ (1 * 6) % 64 :=
    toNat_sextet (by decide : 1 < 4) _
  have hword := toNat_word a b 0
  have hword' := toNat_word a 0 0
  refine ⟨UInt32.toNat_inj.mp ?_, UInt32.toNat_inj.mp ?_⟩
  · rw [h0, hword]
    simp
    omega
  · rw [h1, hword']
    simp
    omega

end Sextets
