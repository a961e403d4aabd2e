import Mathlib.Data.List.TakeWhile
import Libtg.Tl.Buf

/-!
# Byte strings on the wire (`tl/serialize.c`)

A string shorter than 254 bytes is a length byte and the bytes, a longer one the byte `0xfe`, three
length bytes and the bytes; both are padded with zeros to a multiple of four.
-/

namespace Libtg

open LittleEndian

/-- `serialize_bytes`. -/
def serializeBytes (bytes : Bytes) : Bytes :=
  let size := bytes.length
  if size ≤ 253 then
    let s := leBytes 1 size ++ bytes
    let pad := (4 - s.length % 4) % 4
    s ++ List.replicate pad 0
  else
    let s := [0xfe] ++ leBytes 3 size ++ bytes
    let pad := (4 - s.length % 4) % 4
    if pad ≠ 0 then s ++ List.replicate pad 0 else s

/-- `serialize_string`: the bytes of a C string, up to its NUL. -/
def serializeString (string : Bytes) : Bytes :=
  serializeBytes (string.takeWhile (· ≠ 0))

/-- `serialize_str`. -/
def serializeStr (b : Bytes) : Bytes :=
  let size := b.length
  if size ≤ 253 then
    let s := leBytes 1 size ++ b
    let pad := (4 - s.length % 4) % 4
    s ++ List.replicate pad 0
  else
    let s := [0xfe] ++ leBytes 3 size ++ b
    let pad := (4 - s.length % 4) % 4
    if pad ≠ 0 then s ++ List.replicate pad 0 else s

theorem serializeStr_eq (b : Bytes) : serializeStr b = serializeBytes b := rfl

theorem serializeString_eq {b : Bytes} (h : 0 ∉ b) : serializeString b = serializeBytes b := by
  rw [serializeString, List.takeWhile_eq_self_iff.mpr]
  intro c hc
  simp only [ne_eq, decide_not, Bool.not_eq_eq_eq_not, Bool.not_true, decide_eq_false_iff_not]
  rintro rfl
  exact h hc

/-- What comes after the NUL does not matter. -/
theorem serializeString_append {b : Bytes} (h : 0 ∉ b) (rest : Bytes) :
    serializeString (b ++ 0 :: rest) = serializeBytes b := by
  rw [serializeString, List.takeWhile_append_of_pos, List.takeWhile_cons_of_neg (by decide),
    List.append_nil]
  intro c hc
  exact decide_eq_true fun hzero => h (hzero ▸ hc)

theorem le_length_serializeBytes (x : Bytes) : x.length ≤ (serializeBytes x).length := by
  simp only [serializeBytes]
  split_ifs <;> simp only [List.length_append, List.length_replicate] <;> omega

/-- `p` is a wire form of the byte string `x`: the short or the long form, padded with any bytes to
a multiple of four. -/
def WireString (x p : Bytes) : Prop :=
  ∃ pad : Bytes,
    (x.length ≤ 253 ∧ pad.length = (4 - (x.length + 1) % 4) % 4 ∧
      p = leBytes 1 x.length ++ x ++ pad) ∨
    (x.length < 2 ^ 24 ∧ pad.length = (4 - x.length % 4) % 4 ∧
      p = 0xfe :: leBytes 3 x.length ++ x ++ pad)

theorem wireString_serializeBytes {x : Bytes} (h : x.length < 2 ^ 24) :
    WireString x (serializeBytes x) := by
  simp only [serializeBytes]
  by_cases hshort : x.length ≤ 253
  · rw [if_pos hshort]
    refine ⟨_, .inl ⟨hshort, ?_, rfl⟩⟩
    simp [Nat.add_comm 1]
  · rw [if_neg hshort]
    have hpad : (4 - ([0xfe] ++ leBytes 3 x.length ++ x : Bytes).length % 4) % 4 =
        (4 - x.length % 4) % 4 := by
      simp only [List.length_append, List.length_singleton, leBytes_length]
      omega
    rw [hpad]
    refine ⟨List.replicate ((4 - x.length % 4) % 4) 0, .inr ⟨h, List.length_replicate, ?_⟩⟩
    split_ifs with hzero
    · rfl
    · simp [not_not.mp hzero]

theorem WireString.four_le {x p : Bytes} (h : WireString x p) : 4 ≤ p.length := by
  obtain ⟨pad, ⟨_, hpad, rfl⟩ | ⟨_, hpad, rfl⟩⟩ := h
  · simp only [List.length_append, leBytes_length]
    omega
  · simp only [List.cons_append, List.length_cons, List.length_append, leBytes_length]
    omega

theorem WireString.four_dvd {x p : Bytes} (h : WireString x p) : 4 ∣ p.length := by
  obtain ⟨pad, ⟨_, hpad, rfl⟩ | ⟨_, hpad, rfl⟩⟩ := h
  · simp only [List.length_append, leBytes_length]
    omega
  · simp only [List.cons_append, List.length_cons, List.length_append, leBytes_length]
    omega

end Libtg
