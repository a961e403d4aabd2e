import Libtg.Tg.Message

/-!
# Inflating (`tl/gunzip.c`)

zlib is a parameter: what `inflateInit2` and one call of `inflate` answer, and what the call has
written by then. The room it is given is a guess from the length of the input, and nothing asks for
more when the guess was wrong (`gunzipBuf_inflates`).
-/

namespace Libtg

/-- The codes of zlib that `gunzip_buf` knows. -/
def Z_OK : Int := 0
def Z_STREAM_END : Int := 1

/-- zlib. `inflate src room` is the answer of `inflate` with `Z_FINISH` and what it has written. -/
structure Zlib where
  inflateInit2 : Int
  inflate : Bytes → Nat → Int × Bytes
  written_le : ∀ src room, (inflate src room).2.length ≤ room

/-- `asize` of the buffer that is to take the output. -/
def gunzipRoom (src : Bytes) : Nat :=
  (bufRealloc (fun _ => false) ⟨0, [], BUFSIZ⟩ (UInt32.ofNat src.length * 10).toNat).asize

/-- `gunzip_buf`. The buffer has a byte more than its `asize`; what was not written is zero. -/
def gunzipBuf (Z : Zlib) (src : Bytes) : Gunzipped :=
  let asize := gunzipRoom src
  if Z.inflateInit2 ≠ Z_OK then ⟨false, List.replicate (asize + 1) 0⟩
  else
    let (ret, out) := Z.inflate src asize
    if ret ≠ Z_OK ∧ ret ≠ Z_STREAM_END then
      ⟨false, out ++ List.replicate (asize + 1 - out.length) 0⟩
    else ⟨true, out⟩

theorem gunzipRoom_eq (src : Bytes) :
    gunzipRoom src = max BUFSIZ (src.length * 10 % 2 ^ 32) := by
  have hmul : (UInt32.ofNat src.length * 10).toNat = src.length * 10 % 2 ^ 32 := by
    rw [UInt32.toNat_mul, UInt32.toNat_ofNat', Nat.mod_mul_mod]
    rfl
  rw [gunzipRoom, bufRealloc, hmul]
  by_cases h : src.length * 10 % 2 ^ 32 > BUFSIZ
  · rw [if_pos h, max_eq_right (le_of_lt h)]
  · rw [if_neg h, max_eq_left (not_lt.mp h)]

/-- zlib gets `x` back from `z` wherever it has the room for it. -/
structure InflatesTo (Z : Zlib) (z x : Bytes) : Prop where
  init : Z.inflateInit2 = Z_OK
  fits : ∀ room, x.length ≤ room → Z.inflate z room = (Z_STREAM_END, x)
  fails : ∀ room, room < x.length →
    (Z.inflate z room).1 ≠ Z_OK ∧ (Z.inflate z room).1 ≠ Z_STREAM_END

variable {Z : Zlib} {z x : Bytes}

/-- So `gunzip_buf` gets it back exactly when it fits into the guess. -/
theorem gunzipBuf_inflates (h : InflatesTo Z z x) :
    (x.length ≤ gunzipRoom z ∧ gunzipBuf Z z = ⟨true, x⟩) ∨
      (gunzipRoom z < x.length ∧ (gunzipBuf Z z).ok = false) := by
  rcases le_or_gt x.length (gunzipRoom z) with hle | hlt
  · refine .inl ⟨hle, ?_⟩
    rw [gunzipBuf, if_neg (not_not.mpr h.init), h.fits _ hle]
    exact if_neg fun h => h.2 rfl
  · refine .inr ⟨hlt, ?_⟩
    rw [gunzipBuf, if_neg (not_not.mpr h.init)]
    exact congrArg Gunzipped.ok (if_pos (h.fails _ hlt))

end Libtg
