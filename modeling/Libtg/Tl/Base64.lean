import Libtg.Lib.Sextets
import Libtg.Tl.Buf
import Mathlib.Data.Bool.AllAny
import Mathlib.Data.List.GetD
import Mathlib.Data.List.TakeWhile

/-!
# Base64 (`tl/base64.h`, `tl/buf.c`)

`base64_encode` turns three octets into four characters and overwrites with `=` what stands for
missing octets; `base64_decode` takes the length from the last two characters and reads every `=` as
a zero. `none` stands for what C leaves undefined: a byte outside the string, an entry of the table
nothing was written to, an `int` beyond its range. `malloc` is taken to succeed.
-/

namespace Libtg

open Sextets

/-- `encoding_table`. -/
def encodingTable : Bytes :=
  ascii "ABCDEFGHIJKLMNOPQRSTUVWXYZabcdefghijklmnopqrstuvwxyz0123456789+/"

/-- `mod_table`. -/
def modTable : List Nat := [0, 2, 1]

/-- `build_decoding_table`: of the 256 bytes, those that are set. -/
def decodingTable : List (Option UInt8) :=
  (List.range 64).foldl
    (fun table i => table.set (encodingTable.getD i 0).toNat (some (UInt8.ofNat i)))
    (List.replicate 256 none)

/-! ## Encoding -/

def encodeSextet (v : UInt32) : UInt8 := encodingTable.getD v.toNat 0

/-- The four characters of a round. -/
def encodeWord (triple : UInt32) : Bytes :=
  [encodeSextet (sextet 3 triple), encodeSextet (sextet 2 triple), encodeSextet (sextet 1 triple),
    encodeSextet (sextet 0 triple)]

/-- The loop over the octets. Behind the last one they are zero. -/
def encodeLoop : Bytes → Bytes
  | [] => []
  | [a] => encodeWord (word a 0 0)
  | [a, b] => encodeWord (word a b 0)
  | a :: b :: c :: data => encodeWord (word a b c) ++ encodeLoop data

/-- `k` times `encoded_data[*output_length - 1 - i] = '='`. -/
def padLoop (outputLength k : Nat) (text : Bytes) : Bytes :=
  (List.range k).foldl (fun text i => text.set (outputLength - 1 - i) 61) text

/-- `base64_encode`. `j` is an `int`. -/
def base64Encode (data : Bytes) : Option Bytes :=
  let outputLength := 4 * ((data.length + 2) / 3)
  if outputLength < 2 ^ 31 then
    some (padLoop outputLength (modTable.getD (data.length % 3) 0) (encodeLoop data))
  else none

/-- `buf_to_base64`. -/
def bufToBase64 (b : Bytes) : Option (Option Bytes) :=
  if b.length < 1 then some none
  else
    (base64Encode b).map fun s => if s.length > 0 then some (s.takeWhile (· ≠ 0)) else none

/-! ## Decoding -/

/-- `data[i]` in a string that ends with a zero. -/
def charAt (data : Bytes) (i : Int) : Option UInt8 :=
  if i < 0 then none else if i = data.length then some 0 else data[i.toNat]?

/-- `decoding_table[c]`. A `char` from 128 on is negative. -/
def tableAt (c : UInt8) : Option UInt32 :=
  if c < 128 then (decodingTable.getD c.toNat none).map (·.toUInt32) else none

/-- What is taken for a character. -/
def sextetOf (c : UInt8) : Option UInt32 := if c = 61 then some 0 else tableAt c

/-- `i++`. -/
def incr (i : Nat) : Option Nat := if i + 1 < 2 ^ 31 then some (i + 1) else none

/-- What is read for a sextet, and the next `i`. -/
def readSextet (data : Bytes) (i : Nat) : Option (UInt32 × Nat) := do
  let c ← charAt data i
  let v ← sextetOf c
  let i ← incr i
  some (v, i)

/-- `if (j < *output_length) decoded_data[j++] = b`. -/
def push (outputLength : Nat) (decoded : Bytes) (b : UInt8) : Bytes :=
  if decoded.length < outputLength then decoded ++ [b] else decoded

/-- At most `n` tests of the condition of the loop. -/
def decodeLoop (data : Bytes) (outputLength : Nat) : Nat → Nat → Bytes → Option Bytes
  | 0, _, _ => none
  | n + 1, i, decoded =>
    if i < data.length then do
      let (a, i) ← readSextet data i
      let (b, i) ← readSextet data i
      let (c, i) ← readSextet data i
      let (d, i) ← readSextet data i
      let triple := ofSextets a b c d
      let decoded := push outputLength decoded (octet 2 triple)
      let decoded := push outputLength decoded (octet 1 triple)
      let decoded := push outputLength decoded (octet 0 triple)
      decodeLoop data outputLength n i decoded
    else some decoded

/-- `base64_decode`, `some none` being `NULL`. All of the bytes it returns have been written to. -/
def base64Decode (data : Bytes) : Option (Option Bytes) :=
  if data.length % 4 ≠ 0 then some none
  else do
    let outputLength := data.length / 4 * 3
    let last ← charAt data (data.length - 1)
    let outputLength := if last = 61 then outputLength - 1 else outputLength
    let last ← charAt data (data.length - 2)
    let outputLength := if last = 61 then outputLength - 1 else outputLength
    let decoded ← decodeLoop data outputLength (data.length + 1) 0 []
    if decoded.length = outputLength then some (some decoded) else none

/-- `buf_from_base64`. -/
def bufFromBase64 (mv : Nat → Bool) (s : Option Bytes) : Option Buf :=
  match s with
  | none => some (bufAdd [])
  | some s =>
    (base64Decode s).bind fun data =>
      match data with
      | none => some (bufAdd [])
      | some data => bufCat mv (bufAdd []) (data.take (data.length % 2 ^ 32))

/-! ## What is read -/

/-- The octets that all rounds together have. -/
def octetsOf : Bytes → Bytes
  | a :: b :: c :: d :: data =>
    let triple := ofSextets ((sextetOf a).getD 0) ((sextetOf b).getD 0) ((sextetOf c).getD 0)
      ((sextetOf d).getD 0)
    octet 2 triple :: octet 1 triple :: octet 0 triple :: octetsOf data
  | _ => []

/-- `*output_length` of `base64_decode`. -/
def decodedLength (data : Bytes) : Nat :=
  data.length / 4 * 3 - (if charAt data (data.length - 1) = some 61 then 1 else 0)
    - (if charAt data (data.length - 2) = some 61 then 1 else 0)

theorem charAt_eq {data : Bytes} {i : Nat} {c : UInt8} (h : data[i]? = some c) :
    charAt data i = some c := by
  obtain ⟨hi, -⟩ := List.getElem?_eq_some_iff.mp h
  rw [charAt, if_neg (by omega), if_neg (by omega), Int.toNat_natCast, h]

theorem readSextet_eq {data : Bytes} {i : Nat} {c : UInt8} {v : UInt32} (h : data[i]? = some c)
    (hv : sextetOf c = some v) (hlength : data.length < 2 ^ 31) :
    readSextet data i = some (v, i + 1) := by
  obtain ⟨hi, -⟩ := List.getElem?_eq_some_iff.mp h
  have hincr : incr i = some (i + 1) := if_pos (by omega)
  simp only [readSextet, charAt_eq h, hv, hincr, Option.bind_eq_bind, Option.bind_some]

theorem push_take (n : Nat) (t : Bytes) (b : UInt8) : push n (t.take n) b = (t ++ [b]).take n := by
  rw [push]
  by_cases h : t.length < n
  · rw [List.take_of_length_le h.le, if_pos h, List.take_of_length_le]
    rw [List.length_append, List.length_singleton]
    omega
  · have hlength : (t.take n).length = n := List.length_take_of_le (by omega)
    rw [if_neg (by omega), List.take_append_of_le_length (by omega)]

/-- The rounds write the octets that the block has room for. -/
theorem decodeLoop_eq {n : Nat} {s data : Bytes} (outputLength : Nat) (decoded : Bytes)
    (hdata : data.length % 4 = 0) (hlength : (s ++ data).length < 2 ^ 31)
    (hall : ∀ c ∈ data, (sextetOf c).isSome) (hn : data.length / 4 < n) :
    decodeLoop (s ++ data) outputLength n s.length (decoded.take outputLength)
      = some ((decoded ++ octetsOf data).take outputLength) := by
  induction n generalizing s data decoded with
  | zero => omega
  | succ n ih =>
    match data, hdata, hall with
    | [], _, _ => simp [decodeLoop, octetsOf]
    | [a], hdata, _ | [a, b], hdata, _ | [a, b, c], hdata, _ => simp at hdata
    | a :: b :: c :: d :: data, hdata, hall =>
      simp only [List.forall_mem_cons, Option.isSome_iff_exists] at hall
      obtain ⟨⟨va, ha⟩, ⟨vb, hb⟩, ⟨vc, hc⟩, ⟨vd, hd⟩, hall⟩ := hall
      have hget (k : Nat) : (s ++ a :: b :: c :: d :: data)[s.length + k]?
          = (a :: b :: c :: d :: data)[k]? := by
        rw [List.getElem?_append_right (Nat.le_add_right _ k), Nat.add_sub_cancel_left]
      have h1 := readSextet_eq (hget 0) ha hlength
      have h2 := readSextet_eq (hget 1) hb hlength
      have h3 := readSextet_eq (hget 2) hc hlength
      have h4 := readSextet_eq (hget 3) hd hlength
      let triple := ofSextets va vb vc vd
      let decoded' := decoded ++ [octet 2 triple] ++ [octet 1 triple] ++ [octet 0 triple]
      have hsplit : s ++ a :: b :: c :: d :: data = s ++ [a, b, c, d] ++ data := by
        rw [List.append_assoc]
        rfl
      have hi : s.length < (s ++ a :: b :: c :: d :: data).length := by
        rw [List.length_append, List.length_cons]
        omega
      simp only [List.length_cons] at hdata hn
      have hall : ∀ c ∈ data, (sextetOf c).isSome :=
        fun c hc => Option.isSome_iff_exists.mpr (hall c hc)
      have hnext : decodeLoop (s ++ [a, b, c, d] ++ data) outputLength n (s ++ [a, b, c, d]).length
          (decoded'.take outputLength) = some ((decoded' ++ octetsOf data).take outputLength) :=
        ih decoded' (by omega) (hsplit ▸ hlength) hall (by omega)
      rw [← hsplit, List.length_append] at hnext
      have hoctets : octetsOf (a :: b :: c :: d :: data)
          = [octet 2 triple] ++ [octet 1 triple] ++ [octet 0 triple] ++ octetsOf data := by
        simp only [octetsOf, ha, hb, hc, hd, Option.getD_some]
        rfl
      have hdecoded : decoded ++ octetsOf (a :: b :: c :: d :: data)
          = decoded' ++ octetsOf data := by
        rw [hoctets]
        simp only [decoded', List.append_assoc]
      rw [decodeLoop, if_pos hi, hdecoded, ← hnext]
      simp only [Nat.add_zero] at h1
      simp only [h1, h2, h3, h4, Option.bind_eq_bind, Option.bind_some, push_take]
      rfl

theorem length_octetsOf {data : Bytes} (h : data.length % 4 = 0) :
    (octetsOf data).length = data.length / 4 * 3 := by
  fun_induction octetsOf data with
  | case1 a b c d data triple ih =>
    simp only [List.length_cons] at h ⊢
    rw [ih (by omega)]
    omega
  | case2 data hdata =>
    match data, h, hdata with
    | [], _, _ => rfl
    | [a], h, _ | [a, b], h, _ | [a, b, c], h, _ => simp at h
    | a :: b :: c :: d :: data, _, hdata => exact absurd rfl (hdata a b c d data)

theorem charAt_sub {data : Bytes} {k : Nat} (hk : 0 < k) (h : k ≤ data.length) :
    charAt data (data.length - k) = data[data.length - k]? := by
  rw [charAt, if_neg (by omega), if_neg (by omega), ← Int.ofNat_sub h, Int.toNat_natCast]

/-- A text of characters that stand for something is decoded. -/
theorem base64Decode_eq {data : Bytes} (hne : data ≠ []) (hdata : data.length % 4 = 0)
    (hlength : data.length < 2 ^ 31) (hall : ∀ c ∈ data, (sextetOf c).isSome) :
    base64Decode data = some (some ((octetsOf data).take (decodedLength data))) := by
  have hpos := List.length_pos_iff.mpr hne
  obtain ⟨x, hx⟩ : ∃ x, charAt data (data.length - 1) = some x :=
    ⟨_, (charAt_sub Nat.one_pos (by omega)).trans (List.getElem?_eq_getElem (by omega))⟩
  obtain ⟨y, hy⟩ : ∃ y, charAt data (data.length - 2) = some y :=
    ⟨_, (charAt_sub Nat.two_pos (by omega)).trans (List.getElem?_eq_getElem (by omega))⟩
  have hloop := decodeLoop_eq (s := []) (decodedLength data) [] hdata hlength hall
    (by omega : data.length / 4 < data.length + 1)
  have hdecoded : decodedLength data ≤ (octetsOf data).length := by
    rw [length_octetsOf hdata, decodedLength]
    omega
  have houtput (n : Nat) (hn : n = data.length / 4 * 3) :
      (if y = 61 then (if x = 61 then n - 1 else n) - 1 else if x = 61 then n - 1 else n)
        = decodedLength data := by
    simp only [decodedLength, hx, hy, Option.some.injEq, hn]
    split_ifs <;> rfl
  rw [List.nil_append, List.take_nil, List.nil_append] at hloop
  rw [base64Decode, if_neg (not_not.mpr hdata)]
  simp only [hx, hy, Option.bind_eq_bind, Option.bind_some, houtput _ rfl]
  rw [List.length_nil] at hloop
  rw [hloop, Option.bind_some, if_pos (List.length_take_of_le hdecoded)]

/-! ## Any text -/

/-- Characters of the alphabet, and behind them only `=`. -/
def Padded (s : Bytes) : Prop :=
  ∃ body k, s = body ++ List.replicate k 61 ∧ ∀ c ∈ body, c ∈ encodingTable

/-- Nothing is read outside the string or the entries that are set, and what is not padded is
rejected. -/
def SafeDecoding (mv : Nat → Bool) (s : Bytes) : Prop :=
  base64Decode s ≠ none ∧ bufFromBase64 mv (some s) ≠ none ∧
    (¬ Padded s → base64Decode s = some none ∧ bufFromBase64 mv (some s) = some (bufAdd []))

/-- Neither `=` nor NUL is one of the 64 characters. -/
theorem encodingTable_plain :
    encodingTable.length = 64 ∧ 61 ∉ encodingTable ∧ 0 ∉ encodingTable := by decide +kernel

/-- The decoding table turns the alphabet around. -/
theorem sextetOf_getD : ∀ i < 64, sextetOf (encodingTable.getD i 0) = some (UInt32.ofNat i) := by
  decide +kernel

theorem sextetOf_isSome_of_mem {c : UInt8} (hc : c ∈ encodingTable) : (sextetOf c).isSome := by
  obtain ⟨i, hi, rfl⟩ := List.mem_iff_getElem.mp hc
  rw [← List.getD_eq_getElem _ 0 hi, sextetOf_getD i (encodingTable_plain.1 ▸ hi)]
  rfl

theorem Padded.isSome {s : Bytes} (h : Padded s) : ∀ c ∈ s, (sextetOf c).isSome := by
  obtain ⟨body, k, rfl, hbody⟩ := h
  refine List.forall_mem_append.mpr ⟨fun c hc => sextetOf_isSome_of_mem (hbody c hc), ?_⟩
  intro c hc
  rw [List.eq_of_mem_replicate hc]
  rfl

/-! Counting stops at the end of the range of `int`. -/

theorem readSextet_lt {data : Bytes} {i j : Nat} {v : UInt32}
    (h : readSextet data i = some (v, j)) : j < 2 ^ 31 := by
  simp only [readSextet, incr, Option.bind_eq_bind, Option.bind_eq_some_iff, Option.some.injEq,
    Prod.mk.injEq, Option.ite_none_right_eq_some] at h
  obtain ⟨-, -, -, -, -, ⟨hlt, rfl⟩, -, rfl⟩ := h
  exact hlt

theorem decodeLoop_lt {data decoded r : Bytes} {outputLength n i : Nat}
    (h : decodeLoop data outputLength n i decoded = some r) :
    data.length ≤ i ∨ data.length < 2 ^ 31 := by
  induction n generalizing i decoded with
  | zero => cases h
  | succ n ih =>
    rw [decodeLoop] at h
    split at h
    · simp only [Option.bind_eq_bind, Option.bind_eq_some_iff, Prod.exists] at h
      obtain ⟨a, i₁, h1, b, i₂, h2, c, i₃, h3, d, i₄, h4, h⟩ := h
      have hlt := readSextet_lt h4
      have := ih h
      omega
    · omega

/-- What comes of a text whose length is a multiple of 4. -/
theorem base64Decode_some {s : Bytes} {r : Option Bytes} (hs : s.length % 4 = 0)
    (h : base64Decode s = some r) : r ≠ none ∧ s ≠ [] ∧ s.length < 2 ^ 31 := by
  rw [base64Decode, if_neg (not_not.mpr hs)] at h
  simp only [Option.bind_eq_bind, Option.bind_eq_some_iff, Option.ite_none_right_eq_some,
    Option.some.injEq] at h
  obtain ⟨x, hx, y, hy, decoded, hloop, -, rfl⟩ := h
  refine ⟨Option.some_ne_none decoded, ?_, ?_⟩
  · rintro rfl
    cases hx
  · have := decodeLoop_lt hloop
    omega

theorem length_base64 {s : Bytes} (h : s.length < 2 ^ 31) :
    ((octetsOf s).take (decodedLength s)).length < 2 ^ 31 := by
  rw [List.length_take, decodedLength]
  omega

/-- Decoding is safe where nothing is decoded, and of texts that were encoded. -/
theorem safeDecoding_iff (mv : Nat → Bool) (s : Bytes) :
    SafeDecoding mv s ↔ s.length % 4 ≠ 0 ∨ (s ≠ [] ∧ s.length < 2 ^ 31 ∧ Padded s) := by
  by_cases hs : s.length % 4 = 0
  · refine Iff.trans ?_ (or_iff_right (not_not.mpr hs)).symm
    constructor
    · rintro ⟨hsome, -, hreject⟩
      obtain ⟨r, hr⟩ := Option.ne_none_iff_exists'.mp hsome
      obtain ⟨hnull, hne, hlt⟩ := base64Decode_some hs hr
      refine ⟨hne, hlt, by_contra fun hpadded => hnull ?_⟩
      exact Option.some.inj (hr.symm.trans (hreject hpadded).1)
    · rintro ⟨hne, hlt, hpadded⟩
      have hdecode := base64Decode_eq hne hs hlt hpadded.isSome
      have hlength := length_base64 hlt
      have hroom : (bufAdd []).size + (((octetsOf s).take (decodedLength s)).take
          (((octetsOf s).take (decodedLength s)).length % 2 ^ 32)).length < bufLimit := by
        rw [Buf.size, bufAdd, List.length_take, bufLimit]
        simp only [List.length_nil]
        omega
      obtain ⟨b, hb⟩ := @bufCat_isSome mv _ _ hroom
      refine ⟨?_, ?_, fun h => absurd hpadded h⟩
      · rw [hdecode]
        exact Option.some_ne_none _
      · simp only [bufFromBase64, hdecode, Option.bind_some, hb]
        exact Option.some_ne_none _
  · have hnull : base64Decode s = some none := if_pos hs
    refine iff_of_true ⟨?_, ?_, fun _ => ⟨hnull, ?_⟩⟩ (.inl hs)
    · rw [hnull]
      exact Option.some_ne_none _
    · rw [bufFromBase64, hnull]
      exact Option.some_ne_none _
    · rw [bufFromBase64, hnull]
      rfl

/-- The empty text has no last two characters, and nothing was written for `!`. -/
theorem not_safeDecoding :
    ¬ SafeDecoding (fun _ => false) [] ∧ ¬ SafeDecoding (fun _ => false) (ascii "!!!!") :=
  ⟨fun h => h.1 rfl, fun h => h.1 (by decide +kernel)⟩

/-! ## Encoded texts -/

/-- The text of `base64_encode`. -/
def encodedText : Bytes → Bytes
  | [] => []
  | [a] => [encodeSextet (sextet 3 (word a 0 0)), encodeSextet (sextet 2 (word a 0 0)), 61, 61]
  | [a, b] =>
    [encodeSextet (sextet 3 (word a b 0)), encodeSextet (sextet 2 (word a b 0)),
      encodeSextet (sextet 1 (word a b 0)), 61]
  | a :: b :: c :: data => encodeWord (word a b c) ++ encodedText data

theorem padLoop_append {n k : Nat} {u t : Bytes} (hu : u.length = 4) (hk : k ≤ 2) (hn : 2 ≤ n) :
    padLoop (n + 4) k (u ++ t) = u ++ padLoop n k t := by
  have hset (t : Bytes) {i : Nat} (hi : i < 2) :
      (u ++ t).set (n + 4 - 1 - i) 61 = u ++ t.set (n - 1 - i) 61 := by
    rw [List.set_append_right _ _ (by omega), hu]
    congr 2
    omega
  interval_cases k
  · rfl
  · exact hset t Nat.two_pos
  · exact (congrArg (fun t => List.set t _ _) (hset t Nat.two_pos)).trans (hset _ Nat.one_lt_two)

theorem padLoop_eq (data : Bytes) :
    padLoop (4 * ((data.length + 2) / 3)) (modTable.getD (data.length % 3) 0) (encodeLoop data)
      = encodedText data := by
  fun_induction encodedText data with
  | case1 => rfl
  | case2 a => simp [padLoop, encodeLoop, encodeWord, modTable, List.range_succ]
  | case3 a b => simp [padLoop, encodeLoop, encodeWord, modTable]
  | case4 a b c data ih =>
    have hlength : 4 * (((a :: b :: c :: data).length + 2) / 3)
        = 4 * ((data.length + 2) / 3) + 4 := by
      simp only [List.length_cons]
      omega
    have hmod : (a :: b :: c :: data).length % 3 = data.length % 3 := by
      simp only [List.length_cons]
      omega
    have hpads : modTable.getD (data.length % 3) 0 ≤ 2 := by
      have hlt := Nat.mod_lt data.length (by decide : 3 > 0)
      interval_cases data.length % 3 <;> decide
    rw [hlength, hmod, encodeLoop]
    by_cases hdata : data = []
    · rw [hdata]
      rfl
    · have hpos := List.length_pos_iff.mpr hdata
      rw [padLoop_append rfl hpads (by omega), ih]

theorem sextetOf_encodeSextet {v : UInt32} (hv : v.toNat < 64) :
    sextetOf (encodeSextet v) = some v ∧ encodeSextet v ∈ encodingTable := by
  have hmem : encodingTable.getD v.toNat 0 ∈ encodingTable := by
    rw [List.getD_eq_getElem _ 0 (encodingTable_plain.1.symm ▸ hv)]
    exact List.getElem_mem _
  have hsextet := sextetOf_getD v.toNat hv
  rw [UInt32.ofNat_toNat] at hsextet
  exact ⟨hsextet, hmem⟩

theorem length_encodedText (data : Bytes) :
    (encodedText data).length = 4 * ((data.length + 2) / 3) := by
  fun_induction encodedText data with
  | case1 => rfl
  | case2 a => simp
  | case3 a b => simp
  | case4 a b c data ih =>
    simp only [List.length_append, ih, encodeWord, List.length_cons, List.length_nil]
    omega

theorem octetsOf_encodeWord {w : UInt32} (hw : w.toNat < 2 ^ 24) (text : Bytes) :
    octetsOf (encodeWord w ++ text) = octet 2 w :: octet 1 w :: octet 0 w :: octetsOf text := by
  have hsextet (k : UInt32) := (sextetOf_encodeSextet (sextet_lt k w)).1
  simp only [encodeWord, List.cons_append, List.nil_append, octetsOf, hsextet, Option.getD_some,
    ofSextets_sextet hw]

/-- The octets that were encoded, and zeros for those that were missing. -/
theorem octetsOf_encodedText (data : Bytes) :
    ∃ k, octetsOf (encodedText data) = data ++ List.replicate k 0 := by
  have hsextet (k w : UInt32) := (sextetOf_encodeSextet (sextet_lt k w)).1
  have hpad : sextetOf 61 = some 0 := rfl
  fun_induction encodedText data with
  | case1 => exact ⟨0, rfl⟩
  | case2 a =>
    have hword := ofSextets_sextet (word_lt a 0 0)
    rw [(sextet_zero a 0).1, (sextet_zero a 0).2] at hword
    obtain ⟨h2, h1, h0⟩ := octet_word a 0 0
    refine ⟨2, ?_⟩
    simp only [octetsOf, hsextet, hpad, Option.getD_some, hword, h2, h1, h0]
    rfl
  | case3 a b =>
    have hword := ofSextets_sextet (word_lt a b 0)
    rw [(sextet_zero a b).1] at hword
    obtain ⟨h2, h1, h0⟩ := octet_word a b 0
    refine ⟨1, ?_⟩
    simp only [octetsOf, hsextet, hpad, Option.getD_some, hword, h2, h1, h0]
    rfl
  | case4 a b c data ih =>
    obtain ⟨k, hk⟩ := ih
    obtain ⟨h2, h1, h0⟩ := octet_word a b c
    exact ⟨k, by rw [octetsOf_encodeWord (word_lt a b c), h2, h1, h0, hk]; rfl⟩

/-- The characters that stand for octets, and those for the missing ones. -/
theorem encodedText_eq (data : Bytes) :
    ∃ body k, encodedText data = body ++ List.replicate k 61 ∧ k ≤ 2 ∧
      (∀ c ∈ body, c ∈ encodingTable) ∧ (data.length + 2) / 3 * 3 = data.length + k := by
  have hmem (k w : UInt32) := (sextetOf_encodeSextet (sextet_lt k w)).2
  fun_induction encodedText data with
  | case1 => exact ⟨[], 0, rfl, by decide, List.forall_mem_nil _, rfl⟩
  | case2 a =>
    refine ⟨[_, _], 2, rfl, le_rfl, ?_, by simp⟩
    simp only [List.forall_mem_cons]
    exact ⟨hmem _ _, hmem _ _, List.forall_mem_nil _⟩
  | case3 a b =>
    refine ⟨[_, _, _], 1, rfl, by decide, ?_, by simp⟩
    simp only [List.forall_mem_cons]
    exact ⟨hmem _ _, hmem _ _, hmem _ _, List.forall_mem_nil _⟩
  | case4 a b c data ih =>
    obtain ⟨body, k, htext, hk, hbody, hlength⟩ := ih
    refine ⟨encodeWord (word a b c) ++ body, k, ?_, hk, ?_, ?_⟩
    · rw [htext, List.append_assoc]
    · refine List.forall_mem_append.mpr ⟨?_, hbody⟩
      simp only [encodeWord, List.forall_mem_cons]
      exact ⟨hmem _ _, hmem _ _, hmem _ _, hmem _ _, List.forall_mem_nil _⟩
    · simp only [List.length_cons]
      omega

theorem charAt_padded {body : Bytes} {k j : Nat} (hbody : ∀ c ∈ body, c ∈ encodingTable)
    (hj : 0 < j) (h : j ≤ (body ++ List.replicate k (61 : UInt8)).length) :
    charAt (body ++ List.replicate k 61) ((body ++ List.replicate k (61 : UInt8)).length - j)
      = some 61 ↔ j ≤ k := by
  rw [charAt_sub hj h]
  rw [List.length_append, List.length_replicate] at h ⊢
  by_cases hjk : j ≤ k
  · rw [List.getElem?_append_right (by omega), List.getElem?_replicate, if_pos (by omega)]
    exact iff_of_true rfl hjk
  · rw [List.getElem?_append_left (by omega)]
    exact iff_of_false (fun hc => encodingTable_plain.2.1 (hbody _ (List.mem_of_getElem? hc)))
      hjk

theorem decodedLength_encodedText {data : Bytes} (hdata : data ≠ []) :
    decodedLength (encodedText data) = data.length := by
  have hpos := List.length_pos_iff.mpr hdata
  have htext := length_encodedText data
  obtain ⟨body, k, hbody, hk, hmem, hlength⟩ := encodedText_eq data
  rw [hbody] at htext ⊢
  have h1 := charAt_padded hmem Nat.one_pos (by omega : 1 ≤ (body ++ List.replicate k 61).length)
  have h2 := charAt_padded hmem Nat.two_pos (by omega : 2 ≤ (body ++ List.replicate k 61).length)
  have hpads : (if 1 ≤ k then 1 else 0) + (if 2 ≤ k then 1 else 0) = k := by
    interval_cases k <;> rfl
  rw [Nat.cast_one] at h1
  rw [Nat.cast_ofNat] at h2
  simp only [decodedLength, h1, h2, Nat.sub_sub, hpads]
  omega

theorem base64Encode_eq {data : Bytes} (h : data.length < 2 ^ 30) :
    base64Encode data = some (encodedText data) := by
  rw [base64Encode, if_pos (by omega), padLoop_eq]

/-- What was encoded is decoded. -/
theorem base64Decode_encodedText {data : Bytes} (hdata : data ≠ []) (h : data.length < 2 ^ 30) :
    base64Decode (encodedText data) = some (some data) := by
  have hpos := List.length_pos_iff.mpr hdata
  have htext := length_encodedText data
  obtain ⟨body, k, hbody, hk, hmem, hlength⟩ := encodedText_eq data
  obtain ⟨n, hoctets⟩ := octetsOf_encodedText data
  have hpadded : Padded (encodedText data) := ⟨body, k, hbody, hmem⟩
  have hne : encodedText data ≠ [] := List.ne_nil_of_length_pos (by omega)
  rw [base64Decode_eq hne (by omega) (by omega) hpadded.isSome, decodedLength_encodedText hdata,
    hoctets, List.take_left]

/-- No character of the text ends it. -/
theorem takeWhile_encodedText (data : Bytes) :
    (encodedText data).takeWhile (· ≠ 0) = encodedText data := by
  obtain ⟨body, k, hbody, hk, hmem, hlength⟩ := encodedText_eq data
  refine List.takeWhile_eq_self_iff.mpr fun c hc => decide_eq_true ?_
  rw [hbody] at hc
  obtain hc | hc := List.mem_append.mp hc
  · exact fun hzero => encodingTable_plain.2.2 (hzero ▸ hmem c hc)
  · rw [List.eq_of_mem_replicate hc]
    decide

theorem bufToBase64_eq {b : Bytes} (hne : b ≠ []) (hb : b.length < 2 ^ 30) :
    bufToBase64 b = some (some (encodedText b)) := by
  have hpos := List.length_pos_iff.mpr hne
  have htext := length_encodedText b
  rw [bufToBase64, if_neg (by omega), base64Encode_eq hb, Option.map_some, if_pos (by omega),
    takeWhile_encodedText]

/-- Texts and buffers are translated without loss. -/
theorem base64_roundTrip (mv : Nat → Bool) {b : Bytes} (hb : b.length < 2 ^ 30) :
    ∃ r, bufToBase64 b = some r ∧
      (∃ buf, bufFromBase64 mv r = some buf ∧ buf.data = b) ∧
      (b ≠ [] → ∃ text, r = some text ∧ text.length = 4 * ((b.length + 2) / 3) ∧
        ∃ body k, text = body ++ List.replicate k 61 ∧ k ≤ 2 ∧ ∀ c ∈ body, c ∈ encodingTable) := by
  by_cases hne : b = []
  · rw [hne]
    exact ⟨none, rfl, ⟨bufAdd [], rfl, rfl⟩, fun h => absurd rfl h⟩
  · obtain ⟨body, k, hbody, hk, hmem, -⟩ := encodedText_eq b
    have htake : b.take (b.length % 2 ^ 32) = b := by
      rw [Nat.mod_eq_of_lt (by omega), List.take_length]
    have hroom : (bufAdd []).size + b.length < bufLimit := by
      rw [Buf.size, bufAdd, List.length_nil, bufLimit]
      omega
    obtain ⟨buf, hbuf⟩ := @bufCat_isSome mv _ _ hroom
    refine ⟨some (encodedText b), bufToBase64_eq hne hb, ⟨buf, ?_, (bufCat_eq_some hbuf).2⟩,
      fun _ => ⟨encodedText b, rfl, length_encodedText b, body, k, hbody, hk, hmem⟩⟩
    simp only [bufFromBase64, base64Decode_encodedText hne hb, Option.bind_some, htake, hbuf]

theorem base64_roundTrip_one :
    ∃ r, bufToBase64 [77] = some r ∧
      (∃ buf, bufFromBase64 (fun _ => false) r = some buf ∧ buf.data = [77]) ∧
      (([77] : Bytes) ≠ [] → ∃ text, r = some text ∧ text.length = 4 * (([77].length + 2) / 3) ∧
        ∃ body k, text = body ++ List.replicate k 61 ∧ k ≤ 2 ∧ ∀ c ∈ body, c ∈ encodingTable) :=
  base64_roundTrip (fun _ => false) (by decide)

end Libtg
