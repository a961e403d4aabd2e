import Libtg.Lib.Cells
import Libtg.Lib.LittleEndian
import Libtg.Tl.Buf

/-!
# Buffers of a fixed size (`mtx/src/buf.c`)

A `buf_t_` is a block of 800 bytes and a size, and is passed by value. Its functions complain about
sizes that do not fit and then go on; reading or writing outside of the block is `none` here. Nearly
every buffer is `ofBytes` of the bytes in it, which are followed by zeros; of a buffer whose block
was not cleared `Holds` tells the first bytes.
-/

namespace Libtg.Mtx

open LittleEndian

def maxBufSize : Nat := 800

/-- `buf_t_`. -/
@[ext] structure Buf where
  data : Bytes
  size : UInt32
  data_length : data.length = maxBufSize

namespace Buf

/-- The bytes the buffer is said to have. -/
def bytes (b : Buf) : Bytes := b.data.take b.size.toNat

end Buf

theorem length_overwrite_take {data xs : Bytes} {size : Nat} (hd : data.length = maxBufSize)
    (h : size + xs.length ≤ maxBufSize) : (Cells.overwrite data size xs).length = maxBufSize := by
  rw [Cells.length_overwrite (hd ▸ h), hd]

/-- `buf_t_ b = {}` with these bytes put at its beginning. -/
def ofBytes (b : Bytes) : Buf where
  data := (b ++ List.replicate maxBufSize 0).take maxBufSize
  size := UInt32.ofNat b.length
  data_length := by
    rw [List.length_take, List.length_append, List.length_replicate]
    omega

/-- `buf_t_ b = {}`. -/
def zeroBuf : Buf := ofBytes []

/-- `buf_add_`, where `data` is what there is from the pointer to the end of its block. -/
def bufAdd (data : Bytes) (size : UInt32) : Option Buf :=
  if size.toNat ≤ data.length ∧ size.toNat ≤ maxBufSize then
    some { ofBytes (data.take size.toNat) with size := size }
  else none

/-- `buf_cat_`. -/
def bufCat (dest src : Buf) : Option Buf :=
  if src.size = 0 then some dest
  else if h : dest.size.toNat + src.size.toNat ≤ maxBufSize then
    some ⟨Cells.overwrite dest.data dest.size.toNat src.bytes, dest.size + src.size,
      length_overwrite_take dest.data_length (by
        rw [Buf.bytes, List.length_take]
        omega)⟩
  else none

/-- A round of the loop of `buf_swap_`, `lo` bytes from the beginning. -/
def swapEnds (size : Nat) (data : Bytes) (lo : Nat) : Bytes :=
  let hi := size - 1 - lo
  (data.set lo (data.getD hi 0)).set hi (data.getD lo 0)

theorem length_swapEnds (size : Nat) (data : Bytes) (lo : Nat) :
    (swapEnds size data lo).length = data.length := by
  simp only [swapEnds, List.length_set]

theorem length_foldl_swapEnds (size : Nat) (data : Bytes) (los : List Nat) :
    (los.foldl (swapEnds size) data).length = data.length := by
  induction los generalizing data with
  | nil => rfl
  | cons lo los ih => rw [List.foldl_cons, ih, length_swapEnds]

/-- `buf_swap_`: the pointers meet after half of the bytes. -/
def bufSwap (b : Buf) : Option Buf :=
  if b.size.toNat ≤ maxBufSize then
    some ⟨(List.range (b.size.toNat / 2)).foldl (swapEnds b.size.toNat) b.data, b.size,
      (length_foldl_swapEnds _ _ _).trans b.data_length⟩
  else none

/-- `buf_add_ui32_`. -/
def bufAddUi32 (v : UInt32) : Option Buf := bufAdd (le32 v) 4

/-- `buf_add_ui64_`. -/
def bufAddUi64 (v : UInt64) : Option Buf := bufAdd (le64 v) 8

/-- `buf_get_ui32_`. -/
def bufGetUi32 (b : Buf) : UInt32 := get32 (b.data.take 4)

/-- `buf_get_ui64_`. -/
def bufGetUi64 (b : Buf) : UInt64 := get64 (b.data.take 8)

/-! ## What the buffers hold -/

/-- The bytes of the buffer are `x`, whatever follows them in the block. -/
structure Holds (b : Buf) (x : Bytes) : Prop where
  size : b.size.toNat = x.length
  data : x <+: b.data

section
variable {b dest src : Buf} {x y z : Bytes} {n : UInt32} {k : Nat}

theorem Holds.length_le (h : Holds b x) : x.length ≤ maxBufSize :=
  b.data_length ▸ h.data.length_le

theorem Holds.bytes (h : Holds b x) : b.bytes = x := by
  obtain ⟨rest, hrest⟩ := h.data
  rw [Buf.bytes, h.size, ← hrest, List.take_left]

theorem Holds.size_eq (h : Holds b x) : b.size = UInt32.ofNat x.length := by
  rw [← h.size, UInt32.ofNat_toNat]

theorem Holds.take_data (h : Holds b x) (hk : k ≤ x.length) : b.data.take k = x.take k := by
  obtain ⟨rest, hrest⟩ := h.data
  rw [← hrest, List.take_append_of_le_length hk]

theorem Holds.size_eq_zero (h : Holds b x) : b.size = 0 ↔ x = [] := by
  rw [← UInt32.toNat_inj, h.size]
  exact List.length_eq_zero_iff

theorem toNat_ofNat_length (hx : x.length ≤ maxBufSize) :
    (UInt32.ofNat x.length).toNat = x.length := by
  rw [UInt32.toNat_ofNat', Nat.mod_eq_of_lt]
  rw [maxBufSize] at hx
  omega

theorem data_ofBytes (hx : x.length ≤ maxBufSize) :
    (ofBytes x).data = x ++ List.replicate (maxBufSize - x.length) 0 := by
  show (x ++ List.replicate maxBufSize 0).take maxBufSize = _
  rw [List.take_append, List.take_of_length_le hx, List.take_replicate,
    Nat.min_eq_left (Nat.sub_le _ _)]

theorem holds_ofBytes (hx : x.length ≤ maxBufSize) : Holds (ofBytes x) x where
  size := toNat_ofNat_length hx
  data := data_ofBytes hx ▸ List.prefix_append _ _

theorem bufAdd_eq (hlen : n.toNat ≤ x.length) (hn : n.toNat ≤ maxBufSize) :
    bufAdd x n = some (ofBytes (x.take n.toNat)) := by
  have hsize : (ofBytes (x.take n.toNat)).size = n := by
    rw [ofBytes, List.length_take, Nat.min_eq_left hlen, UInt32.ofNat_toNat]
  rw [bufAdd, if_pos ⟨hlen, hn⟩]
  exact congrArg some (Buf.ext rfl hsize.symm)

/-- A part of a buffer. -/
theorem Holds.bufAdd (h : Holds b (x ++ y ++ z)) (hk : k = x.length) (hn : n.toNat = y.length) :
    bufAdd (b.data.drop k) n = some (ofBytes y) := by
  have hle := h.length_le
  obtain ⟨rest, hrest⟩ := h.data
  have hdrop : b.data.drop k = y ++ (z ++ rest) := by
    rw [← hrest, hk, List.append_assoc, List.append_assoc, List.drop_left]
  rw [List.length_append, List.length_append] at hle
  rw [bufAdd_eq, hdrop, hn, List.take_left]
  · rw [hdrop, hn, List.length_append]
    omega
  · omega

theorem Holds.bufAdd_take (h : Holds b (x ++ y)) (hn : n.toNat = x.length) :
    Mtx.bufAdd b.data n = some (ofBytes x) := by
  rw [← List.drop_zero (l := b.data)]
  exact Holds.bufAdd (x := []) (z := y) (by rwa [List.nil_append]) rfl hn

theorem Holds.bufAdd_self (h : Holds b x) : Mtx.bufAdd b.data b.size = some (ofBytes x) :=
  Holds.bufAdd_take (y := []) (by rwa [List.append_nil]) h.size

/-- What is left of a buffer. -/
theorem Holds.bufAdd_drop {i : UInt32} (h : Holds b (x ++ y)) (hk : k = x.length)
    (hi : i.toNat = x.length) : Mtx.bufAdd (b.data.drop k) (b.size - i) = some (ofBytes y) := by
  refine Holds.bufAdd (x := x) (z := []) (by rwa [List.append_nil]) hk ?_
  have hsize := h.size
  rw [List.length_append] at hsize
  rw [UInt32.toNat_sub_of_le _ _ (UInt32.le_iff_toNat_le.mpr (by omega)), hsize, hi]
  omega

theorem bufCat_ofBytes (h : Holds src y) (hx : x.length + y.length ≤ maxBufSize) :
    bufCat (ofBytes x) src = some (ofBytes (x ++ y)) := by
  have hxle : x.length ≤ maxBufSize := by omega
  have hlen : (x ++ y).length ≤ maxBufSize := by
    rw [List.length_append]
    exact hx
  rw [bufCat]
  split_ifs with hzero hfit
  · rw [h.size_eq_zero.mp hzero, List.append_nil]
  · refine congrArg some (Buf.ext ?_ ?_)
    · show Cells.overwrite (ofBytes x).data (ofBytes x).size.toNat src.bytes = _
      rw [h.bytes, data_ofBytes hxle, (holds_ofBytes hxle).size, Cells.overwrite_append rfl,
        data_ofBytes hlen, List.drop_replicate, List.length_append, Nat.sub_sub]
    · show UInt32.ofNat x.length + src.size = UInt32.ofNat (x ++ y).length
      rw [h.size_eq, List.length_append, UInt32.ofNat_add]
  · rw [(holds_ofBytes hxle).size, h.size] at hfit
    exact absurd hx hfit

theorem Holds.bufCat (hdest : Holds dest x) (hsrc : Holds src y)
    (hx : x.length + y.length ≤ maxBufSize) :
    ∃ b, bufCat dest src = some b ∧ Holds b (x ++ y) := by
  rw [Mtx.bufCat]
  split_ifs with hzero hfit
  · refine ⟨dest, rfl, ?_⟩
    rw [hsrc.size_eq_zero.mp hzero, List.append_nil]
    exact hdest
  · refine ⟨_, rfl, ?_, ?_⟩
    · show (dest.size + src.size).toNat = _
      rw [maxBufSize] at hfit
      rw [UInt32.toNat_add, hdest.size, hsrc.size, List.length_append, Nat.mod_eq_of_lt]
      rw [hdest.size, hsrc.size] at hfit
      omega
    · show x ++ y <+: Cells.overwrite dest.data dest.size.toNat src.bytes
      rw [hsrc.bytes, hdest.size, Cells.overwrite, hdest.take_data le_rfl, List.take_length]
      exact List.prefix_append _ _
  · rw [hdest.size, hsrc.size] at hfit
    exact absurd hx hfit

/-- A buffer whose size fits holds what is in it. -/
theorem holds_bytes (h : b.size.toNat ≤ maxBufSize) : Holds b b.bytes where
  size := by rw [Buf.bytes, List.length_take, b.data_length, Nat.min_eq_left h]
  data := List.take_prefix _ _

/-! ### Swapping -/

theorem getElem?_swapEnds {data : Bytes} {size lo : Nat} (hsize : size ≤ data.length)
    (hlo : 2 * lo + 2 ≤ size) (j : Nat) : (swapEnds size data lo)[j]? =
      if j = lo then data[size - 1 - lo]?
      else if j = size - 1 - lo then data[lo]? else data[j]? := by
  have hget {i : Nat} (hi : i < data.length) : data[i]? = some (data.getD i 0) := by
    rw [List.getD_eq_getElem?_getD, List.getElem?_eq_getElem hi, Option.getD_some]
  rw [swapEnds, List.getElem?_set, List.getElem?_set, List.length_set]
  by_cases hlow : j = lo
  · rw [if_neg (by omega), if_pos hlow.symm, if_pos (by omega), if_pos hlow, hget (by omega)]
  · rw [if_neg hlow]
    by_cases hhigh : j = size - 1 - lo
    · rw [if_pos hhigh.symm, if_pos (by omega), if_pos hhigh, hget (by omega)]
    · rw [if_neg fun h => hhigh h.symm, if_neg fun h => hlow h.symm, if_neg hhigh]

/-- After `k` rounds the outermost `k` bytes at both ends are swapped. -/
theorem getElem?_foldl_swapEnds {data : Bytes} {size : Nat} (hsize : size ≤ data.length) (k : Nat)
    (hk : 2 * k ≤ size) (j : Nat) : ((List.range k).foldl (swapEnds size) data)[j]? =
      if j < size ∧ (j < k ∨ size ≤ j + k) then data[size - 1 - j]? else data[j]? := by
  induction k generalizing j with
  | zero =>
    rw [if_neg (by omega)]
    rfl
  | succ k ih =>
    have ih := ih (by omega)
    rw [List.range_succ, List.foldl_append, List.foldl_cons, List.foldl_nil,
      getElem?_swapEnds (by rwa [length_foldl_swapEnds]) (by omega), ih, ih, ih]
    by_cases hlow : j = k
    · rw [if_pos hlow, if_neg (by omega), if_pos (by omega), hlow]
    · rw [if_neg hlow]
      by_cases hhigh : j = size - 1 - k
      · rw [if_pos hhigh, if_neg (by omega), if_pos (by omega), hhigh,
          show size - 1 - (size - 1 - k) = k by omega]
      · rw [if_neg hhigh]
        exact if_congr (by omega) rfl rfl

theorem foldl_swapEnds (x rest : Bytes) :
    (List.range (x.length / 2)).foldl (swapEnds x.length) (x ++ rest) = x.reverse ++ rest := by
  have hlen : x.length ≤ (x ++ rest).length := by
    rw [List.length_append]
    omega
  apply List.ext_getElem?
  intro j
  rw [getElem?_foldl_swapEnds hlen _ (by omega)]
  by_cases hj : j < x.length
  · have hrev : (x.reverse ++ rest)[j]? = x[x.length - 1 - j]? := by
      rw [List.getElem?_append_left (by rwa [List.length_reverse]), List.getElem?_reverse hj]
    rw [hrev]
    split_ifs with hends
    · rw [List.getElem?_append_left (by omega)]
    · rw [List.getElem?_append_left hj, show x.length - 1 - j = j by omega]
  · rw [if_neg fun h => hj h.1, List.getElem?_append_right (by omega),
      List.getElem?_append_right (by rw [List.length_reverse]; omega), List.length_reverse]

theorem bufSwap_ofBytes (hx : x.length ≤ maxBufSize) :
    bufSwap (ofBytes x) = some (ofBytes x.reverse) := by
  have hrev : x.reverse.length ≤ maxBufSize := by rwa [List.length_reverse]
  rw [bufSwap, if_pos ((holds_ofBytes hx).size.trans_le hx)]
  refine congrArg some (Buf.ext ?_ ?_)
  · show (List.range ((ofBytes x).size.toNat / 2)).foldl (swapEnds (ofBytes x).size.toNat)
      (ofBytes x).data = _
    rw [(holds_ofBytes hx).size, data_ofBytes hx, foldl_swapEnds, data_ofBytes hrev,
      List.length_reverse]
  · show UInt32.ofNat x.length = UInt32.ofNat x.reverse.length
    rw [List.length_reverse]

/-! ### Numbers -/

theorem bufAddUi32_eq (v : UInt32) : bufAddUi32 v = some (ofBytes (le32 v)) := by
  have hlen : (4 : UInt32).toNat = (le32 v).length := (le32_length v).symm
  rw [bufAddUi32, bufAdd_eq hlen.le (by decide), hlen, List.take_length]

theorem Holds.bufGetUi32 {v : UInt32} (h : Holds b (le32 v ++ y)) : bufGetUi32 b = v := by
  rw [Mtx.bufGetUi32, h.take_data (by simp), List.take_left' (le32_length v), get32_le32]

theorem Holds.bufGetUi64 {v : UInt64} (h : Holds b (le64 v ++ y)) : bufGetUi64 b = v := by
  rw [Mtx.bufGetUi64, h.take_data (by simp), List.take_left' (le64_length v), get64_le64]

end

end Libtg.Mtx
