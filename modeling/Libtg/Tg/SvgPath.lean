import Libtg.Lib.SqlText
import Libtg.Tl.Deserialize

/-!
# Vector thumbnails (`tg/images.c`)

`image_from_svg_path` expands the bytes of a `photoPathSize` into the outline of a thumbnail and
builds an image file around it in a C string. The comment on it quotes the algorithm, `svgPath`
here. Where the algorithm has the digits of the low six bits of a byte, the code has these bits as
a byte of their own.
-/

namespace Libtg

open Sql (bytes natText)

/-! ## The code -/

/-- `lookup`. -/
def svgLookup : Bytes := bytes "AACAAAAHAAALMAAAQASTAVAAAZaacaaaahaaalmaaaqastava.az0123456789-,"

def svgHeader : Bytes :=
  bytes <| "<?xml version=\"1.0\" encoding=\"utf-8\"?>\n" ++
    "<svg version=\"1.1\" xmlns=\"http://www.w3.org/2000/svg\" " ++
    "xmlns:xlink=\"http://www.w3.org/1999/xlink\"\n" ++
    "viewBox=\"0 0 512 512\" xml:space=\"preserve\">\n" ++ "<path d=\""

/-- The sign in front of a number. -/
def svgSign (num : UInt8) : Bytes :=
  if num ≥ 128 then bytes "," else if num ≥ 64 then bytes "-" else []

/-- What a round of the loop appends. -/
def svgAppend (num : UInt8) : Bytes :=
  if num ≥ 128 + 64 then [svgLookup.getD (num.toNat - 128 - 64) 0] else svgSign num ++ [num &&& 63]

/-- `image_from_svg_path`: the buffer of the `struct str`, whose terminating byte is left out; `len`
is an `int`. -/
def imageFromSvgPath (encoded : Bytes) : Bytes :=
  let len := (encoded.length : Int).bmod (2 ^ 32)
  svgHeader ++ bytes "M" ++ (encoded.take len.toNat).flatMap svgAppend ++ bytes "z" ++
    bytes "\"/>\n" ++ bytes "</svg>\n"

/-! ## The algorithm -/

/-- What the algorithm appends for a byte. -/
def pathAppend (num : UInt8) : Bytes :=
  if num ≥ 128 + 64 then [svgLookup.getD (num.toNat - 128 - 64) 0]
  else svgSign num ++ natText (num &&& 63).toNat

/-- The path of the algorithm. -/
def svgPath (encoded : Bytes) : Bytes := bytes "M" ++ encoded.flatMap pathAppend ++ bytes "z"

/-- The `d` attribute of the image in a buffer: the C string ends at the first zero, the attribute
at the next quote. -/
def dAttribute (svg : Bytes) : Option Bytes :=
  let text := (svg.takeWhile (· ≠ 0)).drop svgHeader.length
  if 34 ∈ text then some (text.takeWhile (· ≠ 34)) else none

/-! ## The difference -/

section
variable {num : UInt8} {encoded : Bytes}

theorem svgAppend_of_ge (h : num ≥ 192) : svgAppend num = pathAppend num := by
  have hlookup : num ≥ 128 + 64 := h
  rw [svgAppend, pathAppend, if_pos hlookup, if_pos hlookup]

theorem svgAppend_of_not (h : ¬ num ≥ 192) : svgAppend num = svgSign num ++ [num &&& 63] :=
  if_neg h

theorem pathAppend_of_not (h : ¬ num ≥ 192) :
    pathAppend num = svgSign num ++ natText (num &&& 63).toNat :=
  if_neg h

/-- The low six bits are never the digits the algorithm has for them. -/
theorem natText_ne_byte (num : UInt8) : natText (num &&& 63).toNat ≠ [num &&& 63] := by
  have hdigits : ∀ v < 64, natText v ≠ [UInt8.ofNat v] := by decide +kernel
  have hlt : (num &&& 63).toNat < 64 := by
    rw [UInt8.toNat_and]
    exact Nat.lt_succ_of_le Nat.and_le_right
  have hne := hdigits _ hlt
  rwa [UInt8.ofNat_toNat] at hne

theorem length_svgAppend_le (num : UInt8) :
    (svgAppend num).length ≤ (pathAppend num).length := by
  by_cases h : num ≥ 192
  · rw [svgAppend_of_ge h]
  · have hdigits := List.length_pos_iff.mpr (Sql.natText_ne_nil (num &&& 63).toNat)
    rw [svgAppend_of_not h, pathAppend_of_not h, List.length_append, List.length_append,
      List.length_singleton]
    omega

theorem length_flatMap_svgAppend_le (encoded : Bytes) :
    (encoded.flatMap svgAppend).length ≤ (encoded.flatMap pathAppend).length := by
  induction encoded with
  | nil => exact Nat.le_refl _
  | cons num encoded ih =>
    have hnum := length_svgAppend_le num
    rw [List.flatMap_cons, List.flatMap_cons, List.length_append, List.length_append]
    omega

theorem flatMap_svgAppend_eq_iff :
    encoded.flatMap svgAppend = encoded.flatMap pathAppend ↔ ∀ num ∈ encoded, num ≥ 192 := by
  induction encoded with
  | nil => exact iff_of_true rfl (List.forall_mem_nil _)
  | cons num encoded ih =>
    rw [List.flatMap_cons, List.flatMap_cons, List.forall_mem_cons, ← ih]
    constructor
    · intro heq
      have hlen := congrArg List.length heq
      rw [List.length_append, List.length_append] at hlen
      have hnum := length_svgAppend_le num
      have hrest := length_flatMap_svgAppend_le encoded
      obtain ⟨hsame, hencoded⟩ := List.append_inj heq (by omega)
      refine ⟨?_, hencoded⟩
      by_contra hnot
      rw [svgAppend_of_not hnot, pathAppend_of_not hnot] at hsame
      exact natText_ne_byte num (List.append_cancel_left hsame).symm
    · rintro ⟨hnum, hencoded⟩
      rw [svgAppend_of_ge hnum, hencoded]

/-! ## The attribute -/

theorem dAttribute_eq (rest : Bytes) :
    dAttribute (svgHeader ++ rest) =
      if 34 ∈ rest.takeWhile (· ≠ 0) then some ((rest.takeWhile (· ≠ 0)).takeWhile (· ≠ 34))
      else none := by
  have hheader : ∀ c ∈ svgHeader, decide (c ≠ 0) := by decide +kernel
  rw [dAttribute, List.takeWhile_append_of_pos hheader, List.drop_left]

/-- Whatever the code has between the quotes, the attribute is the beginning of it. -/
theorem prefix_of_dAttribute {path tail text : Bytes}
    (h : dAttribute (svgHeader ++ (path ++ 34 :: tail)) = some text) : text <+: path := by
  rw [dAttribute_eq, Option.ite_none_right_eq_some] at h
  have htext := Option.some.inj h.2
  have hquote : 34 ∉ text := by
    intro hmem
    rw [← htext] at hmem
    have hne := List.mem_takeWhile_imp hmem
    exact of_decide_eq_true hne rfl
  have hwhole : text <+: path ++ 34 :: tail :=
    htext ▸ (List.takeWhile_prefix _).trans (List.takeWhile_prefix _)
  have hpath : path ++ [34] <+: path ++ 34 :: tail := ⟨tail, by simp⟩
  obtain hle | hge := List.prefix_or_prefix_of_prefix hwhole hpath
  · obtain rfl | hle := List.prefix_concat_iff.mp hle
    · exact absurd (List.mem_append_right _ (List.mem_singleton_self _)) hquote
    · exact hle
  · exact absurd (hge.subset (List.mem_append_right _ (List.mem_singleton_self _))) hquote

/-- A path without zeros and quotes is the attribute. -/
theorem dAttribute_of_clean {path tail : Bytes} (h : ∀ c ∈ path, c ≠ 0 ∧ c ≠ 34) :
    dAttribute (svgHeader ++ (path ++ 34 :: tail)) = some path := by
  have hzero : ∀ c ∈ path, decide (c ≠ 0) := fun c hc => decide_eq_true (h c hc).1
  have hquote : ∀ c ∈ path, decide (c ≠ 34) := fun c hc => decide_eq_true (h c hc).2
  have hhead : (34 :: tail).takeWhile (· ≠ (0 : UInt8)) = 34 :: tail.takeWhile (· ≠ 0) := rfl
  rw [dAttribute_eq, List.takeWhile_append_of_pos hzero, hhead,
    if_pos (List.mem_append_right _ List.mem_cons_self), List.takeWhile_append_of_pos hquote]
  exact congrArg some (List.append_nil _)

/-- A character of the lookup ends neither the C string nor the attribute. -/
theorem pathAppend_clean (h : num ≥ 192) : ∀ c ∈ pathAppend num, c ≠ 0 ∧ c ≠ 34 := by
  have hlookup : ∀ i < 64, svgLookup.getD i 0 ≠ 0 ∧ svgLookup.getD i 0 ≠ 34 := by decide +kernel
  have hnum : num ≥ 128 + 64 := h
  rw [pathAppend, if_pos hnum]
  intro c hc
  rw [List.mem_singleton.mp hc]
  have hlt := num.toNat_lt
  exact hlookup _ (by omega)

theorem imageFromSvgPath_eq (h : encoded.length < 2 ^ 31) :
    imageFromSvgPath encoded =
      svgHeader ++ ((bytes "M" ++ encoded.flatMap svgAppend ++ bytes "z") ++
        34 :: (bytes "/>\n" ++ bytes "</svg>\n")) := by
  have hlen : (encoded.length : Int).bmod (2 ^ 32) = encoded.length := by
    rw [Int.bmod_eq_of_le_mul_two] <;> omega
  rw [imageFromSvgPath, hlen, Int.toNat_natCast, List.take_length]
  simp only [List.append_assoc]
  rfl

theorem length_of_deserializeBytes {input rest : Bytes}
    (h : deserializeBytes input = some (encoded, rest)) : encoded.length < 2 ^ 24 := by
  obtain ⟨p, ⟨pad, ⟨hlen, -⟩ | ⟨hlen, -⟩⟩ | ⟨hlen, -⟩, -⟩ := deserializeBytes_eq_some h
  · omega
  · exact hlen
  · exact hlen

/-- The attribute is the path of the algorithm exactly if the path has no numbers. -/
theorem dAttribute_imageFromSvgPath_iff {input rest : Bytes}
    (h : deserializeBytes input = some (encoded, rest)) :
    dAttribute (imageFromSvgPath encoded) = some (svgPath encoded) ↔
      ∀ num ∈ encoded, num ≥ 192 := by
  have hlen := length_of_deserializeBytes h
  rw [imageFromSvgPath_eq (by omega), ← flatMap_svgAppend_eq_iff]
  constructor
  · intro hattribute
    have hprefix := prefix_of_dAttribute hattribute
    rw [svgPath, List.append_assoc, List.append_assoc, List.prefix_append_right_inj] at hprefix
    have hle := length_flatMap_svgAppend_le encoded
    have heq := hprefix.eq_of_length_le (by rw [List.length_append, List.length_append]; omega)
    exact (List.append_cancel_right heq).symm
  · intro heq
    have hge := flatMap_svgAppend_eq_iff.mp heq
    rw [heq, ← svgPath]
    refine dAttribute_of_clean fun c hc => ?_
    rw [svgPath, List.mem_append, List.mem_append, List.mem_flatMap] at hc
    obtain (hc | ⟨num, hnum, hc⟩) | hc := hc
    · rw [List.mem_singleton.mp hc]
      decide
    · exact pathAppend_clean (hge num hnum) c hc
    · rw [List.mem_singleton.mp hc]
      decide

end

/-- One character of the lookup on the wire. -/
theorem dAttribute_lookup :
    deserializeBytes [1, 192, 0, 0] = some ([192], []) ∧
      (dAttribute (imageFromSvgPath [192]) = some (svgPath [192]) ↔
        ∀ num ∈ [(192 : UInt8)], num ≥ 192) :=
  have h : deserializeBytes [1, 192, 0, 0] = some ([192], []) := by decide +kernel
  ⟨h, dAttribute_imageFromSvgPath_iff h⟩

/-- For the byte 65 the algorithm has `-1`, and the code a minus and the byte 1. -/
theorem dAttribute_minus_one :
    deserializeBytes [1, 65, 0, 0] = some ([65], []) ∧
      svgPath [65] = bytes "M-1z" ∧
      dAttribute (imageFromSvgPath [65]) = some (bytes "M-" ++ [1] ++ bytes "z") ∧
      dAttribute (imageFromSvgPath [65]) ≠ some (svgPath [65]) := by
  decide +kernel

end Libtg
