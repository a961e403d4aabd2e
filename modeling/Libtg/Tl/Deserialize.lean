import Libtg.Lib.Cursor
import Libtg.Tl.Serialize

/-!
# Reading primitives (`tl/deserialize.c`)

Each primitive moves `b->data` and `b->size` over what it read. None of them compares the sizes
first; a read past the end is the cursor's `none`.
-/

namespace Libtg

open LittleEndian Cursor

/-- `deserialize_ui32`. -/
def deserializeUi32 : Cursor UInt32 := do
  let b ← takeBytes 4
  return get32 b

/-- `deserialize_ui64`. -/
def deserializeUi64 : Cursor UInt64 := do
  let b ← takeBytes 8
  return get64 b

/-- `deserialize_double`: the 64 bits of the `double`. -/
def deserializeDouble : Cursor UInt64 := do
  let b ← takeBytes 8
  return get64 b

/-- `deserialize_buf`. -/
def deserializeBuf (size : Nat) : Cursor Bytes := takeBytes size

/-- `deserialize_bytes`. A first byte of 255 is reported on standard output and then read as 254. -/
def deserializeBytes : Cursor Bytes := do
  let byte ← peek 4
  if byte.headD 0 ≤ 253 then
    let len := (byte.headD 0).toNat
    skip 1
    let s ← takeBytes len
    skip ((4 - (len + 1) % 4) % 4)
    return s
  else
    let len := leNat byte.tail
    skip 4
    let s ← takeBytes len
    skip ((4 - len % 4) % 4)
    return s

theorem consumes_deserializeUi32 (v : UInt32) :
    Consumes deserializeUi32 (le32 v) (· = v) :=
  (Consumes.takeBytes_of_length (le32_length v)).map fun b hb => by rw [hb, get32_le32]

theorem consumes_deserializeUi64 (v : UInt64) :
    Consumes deserializeUi64 (le64 v) (· = v) :=
  (Consumes.takeBytes_of_length (le64_length v)).map fun b hb => by rw [hb, get64_le64]

theorem consumes_deserializeDouble (v : UInt64) :
    Consumes deserializeDouble (le64 v) (· = v) := consumes_deserializeUi64 v

theorem consumes_deserializeBuf {x : Bytes} {n : Nat} (h : x.length = n) :
    Consumes (deserializeBuf n) x (· = x) := Consumes.takeBytes_of_length h

/-- Every wire form of a byte string reads back as that string. -/
theorem consumes_deserializeBytes {x p : Bytes} (h : WireString x p) :
    Consumes deserializeBytes p (· = x) := by
  refine Consumes.peek_bind h.four_le ?_
  have hbody : ∀ pad : Bytes, ∀ n, pad.length = n → Consumes (do
      let s ← takeBytes x.length
      skip n
      return s) (x ++ pad) (· = x) := fun pad n hpad =>
    (Consumes.takeBytes x).bind_eq ((Consumes.skip_of_length hpad).map fun _ _ => rfl)
  obtain ⟨pad, ⟨hx, hpad, rfl⟩ | ⟨hx, hpad, rfl⟩⟩ := h
  · have hhead : ((leBytes 1 x.length ++ x ++ pad).take 4).headD 0 = UInt8.ofNat x.length := by
      simp [leBytes]
    have hlen : (UInt8.ofNat x.length).toNat = x.length := by
      simp only [UInt8.toNat_ofNat']
      omega
    have hle : UInt8.ofNat x.length ≤ 253 := by
      rw [UInt8.le_iff_toNat_le, hlen]
      exact hx
    rw [hhead, if_pos hle, hlen, List.append_assoc]
    exact (Consumes.skip_of_length (leBytes_length 1 _)).bind fun _ _ => hbody pad _ hpad
  · have htake : (0xfe :: leBytes 3 x.length ++ x ++ pad).take 4 = 0xfe :: leBytes 3 x.length := by
      rw [List.append_assoc]
      exact List.take_left' (by simp)
    have hlen : leNat (leBytes 3 x.length) = x.length := leNat_leBytes_of_lt (by norm_num; omega)
    rw [htake, List.headD_cons, if_neg (by decide), List.tail_cons, hlen, List.append_assoc]
    exact (Consumes.skip_of_length (by simp)).bind fun _ _ => hbody pad _ hpad

/-- A string reads back as itself from the front of any message, it takes up whole words, and the
three functions that write it agree. -/
theorem string_roundTrip (x t : Bytes) (h : x.length < 2 ^ 24) :
    deserializeBytes (serializeBytes x ++ t) = some (x, t) ∧
      4 ∣ (serializeBytes x).length ∧ 4 ≤ (serializeBytes x).length ∧
      serializeStr x = serializeBytes x ∧
      (0 ∉ x → ∀ rest, serializeString (x ++ 0 :: rest) = serializeBytes x) := by
  have hwire := wireString_serializeBytes h
  exact ⟨(consumes_deserializeBytes hwire).eq t, hwire.four_dvd, hwire.four_le, serializeStr_eq x,
    serializeString_append⟩

theorem string_roundTrip_three :
    deserializeBytes (serializeBytes [1, 2, 3] ++ [4]) = some ([1, 2, 3], [4]) ∧
      4 ∣ (serializeBytes [1, 2, 3]).length ∧ 4 ≤ (serializeBytes [1, 2, 3]).length ∧
      serializeStr [1, 2, 3] = serializeBytes [1, 2, 3] ∧
      (0 ∉ ([1, 2, 3] : Bytes) →
        ∀ rest, serializeString ([1, 2, 3] ++ 0 :: rest) = serializeBytes [1, 2, 3]) :=
  string_roundTrip [1, 2, 3] [4] (by decide)

/-! ## What was read -/

section
variable {b t x : Bytes} {n : Nat}

theorem deserializeUi32_eq_some {w : UInt32} :
    deserializeUi32 b = some (w, t) ↔ b = le32 w ++ t := by
  constructor
  · intro h
    rw [deserializeUi32, bind_apply, Option.bind_eq_some_iff] at h
    obtain ⟨⟨x, u⟩, hx, h⟩ := h
    obtain ⟨hlen, rfl⟩ := takeBytes_eq_some.mp hx
    cases h
    rw [le32_get32 hlen]
  · rintro rfl
    exact (consumes_deserializeUi32 w).eq t

theorem deserializeUi64_eq_some {w : UInt64} :
    deserializeUi64 b = some (w, t) ↔ b = le64 w ++ t := by
  constructor
  · intro h
    rw [deserializeUi64, bind_apply, Option.bind_eq_some_iff] at h
    obtain ⟨⟨x, u⟩, hx, h⟩ := h
    obtain ⟨hlen, rfl⟩ := takeBytes_eq_some.mp hx
    cases h
    rw [le64_get64 hlen]
  · rintro rfl
    exact (consumes_deserializeUi64 w).eq t

/-- The form of a string that starts with 255. -/
def LongString (x p : Bytes) : Prop :=
  x.length < 2 ^ 24 ∧ ∃ pad : Bytes, pad.length = (4 - x.length % 4) % 4 ∧
    p = 0xff :: leBytes 3 x.length ++ x ++ pad

theorem consumes_longString {p : Bytes} (h : LongString x p) :
    Consumes deserializeBytes p (· = x) := by
  obtain ⟨hx, pad, hpad, rfl⟩ := h
  refine Consumes.peek_bind (by simp) ?_
  have htake : (0xff :: leBytes 3 x.length ++ x ++ pad).take 4 = 0xff :: leBytes 3 x.length := by
    rw [List.append_assoc]
    exact List.take_left' (by simp)
  have hlen : leNat (leBytes 3 x.length) = x.length := leNat_leBytes_of_lt (by norm_num; omega)
  rw [htake, List.headD_cons, if_neg (by decide), List.tail_cons, hlen, List.append_assoc]
  refine (Consumes.skip_of_length (by simp)).bind fun _ _ => ?_
  exact (Consumes.takeBytes x).bind_eq ((Consumes.skip_of_length hpad).map fun _ _ => rfl)

/-- What `deserialize_bytes` does once it knows the length. -/
theorem deserializeString_eq_some {k m : Nat}
    (h : (do skip k; let s ← takeBytes n; skip m; return s : Cursor Bytes) b = some (x, t)) :
    ∃ w pad : Bytes, w.length = k ∧ x.length = n ∧ pad.length = m ∧ b = w ++ x ++ pad ++ t := by
  simp only [bind_apply, Option.bind_eq_some_iff] at h
  obtain ⟨⟨_, b₁⟩, hskip, ⟨s, b₂⟩, htake, ⟨_, b₃⟩, hpad, hret⟩ := h
  obtain ⟨w, hw, rfl⟩ := skip_eq_some.mp hskip
  obtain ⟨hs, rfl⟩ := takeBytes_eq_some.mp htake
  obtain ⟨pad, hm, rfl⟩ := skip_eq_some.mp hpad
  cases hret
  exact ⟨w, pad, hw, hs, hm, by simp only [List.append_assoc]⟩

theorem deserializeBytes_eq_some (h : deserializeBytes b = some (x, t)) :
    ∃ p, (WireString x p ∨ LongString x p) ∧ b = p ++ t := by
  rw [deserializeBytes, bind_apply, Option.bind_eq_some_iff] at h
  obtain ⟨⟨byte, u⟩, hpeek, h⟩ := h
  rw [peek] at hpeek
  split_ifs at hpeek with hfour
  cases hpeek
  obtain ⟨c, b, rfl⟩ : ∃ c b', b = c :: b' := List.exists_cons_of_length_pos (by omega)
  dsimp only at h
  rw [List.take_succ_cons, List.headD_cons, List.tail_cons] at h
  split_ifs at h with hc
  · obtain ⟨w, pad, hw, hx, hpad, hb⟩ := deserializeString_eq_some h
    obtain ⟨d, rfl⟩ := List.length_eq_one_iff.mp hw
    obtain ⟨rfl, rfl⟩ : c = d ∧ b = x ++ pad ++ t := by simpa using hb
    rw [UInt8.le_iff_toNat_le] at hc
    refine ⟨leBytes 1 x.length ++ x ++ pad, .inl ⟨pad, .inl ⟨by rw [hx]; exact hc, ?_, rfl⟩⟩, ?_⟩
    · rw [hpad, hx]
    · simp [leBytes, hx]
  · obtain ⟨w, pad, hw, hx, hpad, hb⟩ := deserializeString_eq_some h
    obtain ⟨d, w, rfl⟩ : ∃ d w', w = d :: w' := List.exists_cons_of_length_pos (by omega)
    have hw3 : w.length = 3 := by simpa using hw
    obtain ⟨rfl, rfl⟩ : c = d ∧ b = w ++ x ++ pad ++ t := by simpa using hb
    have hfront : (w ++ x ++ pad ++ t).take 3 = w := by
      rw [List.append_assoc, List.append_assoc]
      exact List.take_left' hw3
    rw [hfront] at hx hpad
    have hw' : leBytes 3 x.length = w := by rw [hx, ← hw3, leBytes_leNat]
    have hlt : x.length < 2 ^ 24 := by
      have := leNat_lt w
      rw [hw3] at this
      omega
    rw [← hx] at hpad
    refine ⟨c :: w ++ x ++ pad, ?_, by simp only [List.cons_append]⟩
    have hc' : c = 0xfe ∨ c = 0xff := by
      rw [UInt8.le_iff_toNat_le] at hc
      have := c.toNat_lt
      rw [← UInt8.toNat_inj, ← UInt8.toNat_inj]
      change ¬ c.toNat ≤ 253 at hc
      change c.toNat = 254 ∨ c.toNat = 255
      omega
    rcases hc' with rfl | rfl
    · exact .inl ⟨pad, .inr ⟨hlt, hpad, by rw [hw']⟩⟩
    · exact .inr ⟨hlt, pad, hpad, by rw [hw']⟩

end

end Libtg
