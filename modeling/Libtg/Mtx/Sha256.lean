import Libtg.Lib.Fips180
import Libtg.Tl.Buf

/-!
# SHA-256 (`mtx/src/sha256.c`, `crypto/sha256.c`)

The bytes of a message go into `buffer` one at a time, and a full buffer is mixed into `state`. The
sixty-four words of the schedule share an array of sixteen, and the loop over the rounds is unrolled
by four so that no register is moved. `sha256Bytes_eq`: what comes out is the hash of FIPS 180-4.
-/

namespace Libtg.Mtx

/-- `struct sha256`. -/
structure Sha256 where
  state : List UInt32
  buffer : Bytes
  nBits : UInt64
  bufferCounter : UInt8
  state_length : state.length = 8
  buffer_length : buffer.length = 64

namespace Sha256

def rotr (x : UInt32) (n : UInt32) : UInt32 := (x >>> n) ||| (x <<< (32 - n))

def step1 (e f g : UInt32) : UInt32 :=
  (rotr e 6 ^^^ rotr e 11 ^^^ rotr e 25) + ((e &&& f) ^^^ (~~~e &&& g))

def step2 (a b c : UInt32) : UInt32 :=
  (rotr a 2 ^^^ rotr a 13 ^^^ rotr a 22) + ((a &&& b) ^^^ (a &&& c) ^^^ (b &&& c))

/-- One word of `update_w`. -/
def updateWord (i : Nat) (buffer : Bytes) (w : List UInt32) (j : Nat) : List UInt32 :=
  if i < 16 then
    w.set j (((buffer.getD (4 * j) 0).toUInt32 <<< 24) |||
      ((buffer.getD (4 * j + 1) 0).toUInt32 <<< 16) |||
      ((buffer.getD (4 * j + 2) 0).toUInt32 <<< 8) |||
      (buffer.getD (4 * j + 3) 0).toUInt32)
  else
    let a := w.getD ((j + 1) % 16) 0
    let b := w.getD ((j + 14) % 16) 0
    let s0 := rotr a 7 ^^^ rotr a 18 ^^^ (a >>> 3)
    let s1 := rotr b 17 ^^^ rotr b 19 ^^^ (b >>> 10)
    w.set j (w.getD j 0 + (w.getD ((j + 9) % 16) 0 + s0 + s1))

def updateW (i : Nat) (buffer : Bytes) (w : List UInt32) : List UInt32 :=
  (List.range 16).foldl (updateWord i buffer) w

def k : List UInt32 :=
  [0x428a2f98, 0x71374491, 0xb5c0fbcf, 0xe9b5dba5,
   0x3956c25b, 0x59f111f1, 0x923f82a4, 0xab1c5ed5,
   0xd807aa98, 0x12835b01, 0x243185be, 0x550c7dc3,
   0x72be5d74, 0x80deb1fe, 0x9bdc06a7, 0xc19bf174,
   0xe49b69c1, 0xefbe4786, 0x0fc19dc6, 0x240ca1cc,
   0x2de92c6f, 0x4a7484aa, 0x5cb0a9dc, 0x76f988da,
   0x983e5152, 0xa831c66d, 0xb00327c8, 0xbf597fc7,
   0xc6e00bf3, 0xd5a79147, 0x06ca6351, 0x14292967,
   0x27b70a85, 0x2e1b2138, 0x4d2c6dfc, 0x53380d13,
   0x650a7354, 0x766a0abb, 0x81c2c92e, 0x92722c85,
   0xa2bfe8a1, 0xa81a664b, 0xc24b8b70, 0xc76c51a3,
   0xd192e819, 0xd6990624, 0xf40e3585, 0x106aa070,
   0x19a4c116, 0x1e376c08, 0x2748774c, 0x34b0bcb5,
   0x391c0cb3, 0x4ed8aa4a, 0x5b9cca4f, 0x682e6ff3,
   0x748f82ee, 0x78a5636f, 0x84c87814, 0x8cc70208,
   0x90befffa, 0xa4506ceb, 0xbef9a3f7, 0xc67178f2]

/-- The local variables `a` to `h`. -/
abbrev Registers := Fips180.Sha256.Working

/-- Four rounds. Each leaves the new `a` where `d` was and the new `e` where `h` was. -/
def fourRounds (i : Nat) (w : List UInt32) (r : Registers) (j : Nat) : Registers :=
  let ⟨a, b, c, d, e, f, g, h⟩ := r
  let temp := h + step1 e f g + k.getD (i + j + 0) 0 + w.getD (j + 0) 0
  let h := temp + d
  let d := temp + step2 a b c
  let temp := g + step1 h e f + k.getD (i + j + 1) 0 + w.getD (j + 1) 0
  let g := temp + c
  let c := temp + step2 d a b
  let temp := f + step1 g h e + k.getD (i + j + 2) 0 + w.getD (j + 2) 0
  let f := temp + b
  let b := temp + step2 c d a
  let temp := e + step1 f g h + k.getD (i + j + 3) 0 + w.getD (j + 3) 0
  let e := temp + a
  let a := temp + step2 b c d
  ⟨a, b, c, d, e, f, g, h⟩

/-- One round of the outer loop. -/
def sixteenRounds (buffer : Bytes) (x : List UInt32 × Registers) (i : Nat) :
    List UInt32 × Registers :=
  let w := updateW i buffer x.1
  (w, [0, 4, 8, 12].foldl (fourRounds i w) x.2)

def sha256Block (sha : Sha256) : Sha256 :=
  let s := sha.state
  let r : Registers := ⟨s.getD 0 0, s.getD 1 0, s.getD 2 0, s.getD 3 0, s.getD 4 0, s.getD 5 0,
    s.getD 6 0, s.getD 7 0⟩
  -- `w` is not initialised: `updateW` writes every word of it before the first is read.
  let r := ([0, 16, 32, 48].foldl (sixteenRounds sha.buffer) (List.replicate 16 0, r)).2
  { sha with
    state := List.zipWith (· + ·) s [r.a, r.b, r.c, r.d, r.e, r.f, r.g, r.h]
    state_length := by simp [s, sha.state_length] }

def sha256Init (sha : Sha256) : Sha256 :=
  { sha with
    state := [0x6a09e667, 0xbb67ae85, 0x3c6ef372, 0xa54ff53a, 0x510e527f, 0x9b05688c, 0x1f83d9ab,
      0x5be0cd19]
    state_length := rfl
    nBits := 0
    bufferCounter := 0 }

def sha256AppendByte (sha : Sha256) (byte : UInt8) : Sha256 :=
  let sha := { sha with
    buffer := sha.buffer.set sha.bufferCounter.toNat byte
    buffer_length := by rw [List.length_set, sha.buffer_length]
    bufferCounter := sha.bufferCounter + 1
    nBits := sha.nBits + 8 }
  if sha.bufferCounter = 64 then sha256Block { sha with bufferCounter := 0 } else sha

def sha256Append (sha : Sha256) (src : Bytes) : Sha256 := src.foldl sha256AppendByte sha

/-- `while (sha->buffer_counter != 56)`. -/
def zeroStep (sha : Sha256) : Sha256 ⊕ Sha256 :=
  if sha.bufferCounter ≠ 56 then .inr (sha256AppendByte sha 0) else .inl sha

/-- The loop is given 64 rounds, which are always enough. -/
def sha256Finalize (sha : Sha256) : Option Sha256 := do
  let nBits := sha.nBits
  let sha := sha256AppendByte sha 0x80
  let sha ← Loop.run zeroStep 64 sha
  some (([7, 6, 5, 4, 3, 2, 1, 0] : List UInt64).foldl (fun sha i =>
    sha256AppendByte sha ((nBits >>> (8 * i)) &&& 0xff).toUInt8) sha)

/-- The digits of a word, most significant first. -/
def hexDigits (s : UInt32) : List Char :=
  ([7, 6, 5, 4, 3, 2, 1, 0] : List UInt32).map fun j =>
    "0123456789abcdef".toList.getD ((s >>> (j * 4)) &&& 0xf).toNat '0'

def wordBytes (s : UInt32) : Bytes :=
  ([3, 2, 1, 0] : List UInt32).map fun j => ((s >>> (j * 8)) &&& 0xff).toUInt8

def sha256FinalizeHex (sha : Sha256) : Option (List Char) := do
  let sha ← sha256Finalize sha
  some (sha.state.flatMap hexDigits)

def sha256FinalizeBytes (sha : Sha256) : Option Bytes := do
  let sha ← sha256Finalize sha
  some (sha.state.flatMap wordBytes)

/-- `sha256_hex`: `sha` is what the stack holds where it is declared. -/
def sha256Hex (sha : Sha256) (src : Bytes) : Option (List Char) :=
  sha256FinalizeHex (sha256Append (sha256Init sha) src)

def sha256Bytes (sha : Sha256) (src : Bytes) : Option Bytes :=
  sha256FinalizeBytes (sha256Append (sha256Init sha) src)

/-! ### The schedule -/

open Fips180.Sha256 (schedule roundWith)

theorem k_eq : k = Fips180.Sha256.constants := by decide +kernel

theorem sigma0_eq (x : UInt32) : rotr x 7 ^^^ rotr x 18 ^^^ (x >>> 3) = Fips180.Sha256.sigma0 x :=
  rfl

theorem sigma1_eq (x : UInt32) :
    rotr x 17 ^^^ rotr x 19 ^^^ (x >>> 10) = Fips180.Sha256.sigma1 x := rfl

/-- The words of the schedule from the `i`-th on. -/
def Window (buffer : Bytes) (i : Nat) (w : List UInt32) : Prop :=
  w.length = 16 ∧ ∀ m < 16, w.getD m 0 = schedule buffer (i + m)

/-- The array in the middle of `update_w`: the first `j` words are those of the next window. -/
def Between (buffer : Bytes) (i j : Nat) (w : List UInt32) : Prop :=
  w.length = 16 ∧ (∀ m < j, w.getD m 0 = schedule buffer (i + m)) ∧
    (16 ≤ i → ∀ m, j ≤ m → m < 16 → w.getD m 0 = schedule buffer (i + m - 16))

variable {buffer : Bytes} {i j : Nat} {w : List UInt32}

theorem schedule_low (h : j < 16) (hbuffer : buffer.length = 64) :
    schedule buffer j = ((buffer.getD (4 * j) 0).toUInt32 <<< 24) |||
      ((buffer.getD (4 * j + 1) 0).toUInt32 <<< 16) |||
      ((buffer.getD (4 * j + 2) 0).toUInt32 <<< 8) ||| (buffer.getD (4 * j + 3) 0).toUInt32 := by
  have hfour : (buffer.drop (4 * j)).take 4 = [buffer.getD (4 * j) 0, buffer.getD (4 * j + 1) 0,
      buffer.getD (4 * j + 2) 0, buffer.getD (4 * j + 3) 0] := by
    have hcons {m : Nat} (hm : m < 64) :
        buffer.drop m = buffer.getD m 0 :: buffer.drop (m + 1) := by
      rw [List.drop_eq_getElem_cons (hbuffer.symm ▸ hm), List.getD_eq_getElem?_getD,
        List.getElem?_eq_getElem (hbuffer.symm ▸ hm), Option.getD_some]
    rw [hcons (by omega), hcons (by omega), hcons (by omega), hcons (by omega)]
    rfl
  rw [Fips180.Sha256.schedule_low h, Fips180.word_of_bytes, Fips180.word, hfour]
  rfl

/-- What is read `d` words back in the array is the word of the schedule `d` places back. -/
theorem Between.back (h : Between buffer i j w) (hi : 16 ≤ i) (hj : j < 16) {d : Nat}
    (hd : 0 < d) (hd' : d < 16) : w.getD ((j + (16 - d)) % 16) 0 = schedule buffer (i + j - d) := by
  rcases Nat.lt_or_ge j d with hlt | hge
  · rw [Nat.mod_eq_of_lt (by omega), h.2.2 hi _ (by omega) (by omega)]
    congr 1
    omega
  · rw [show j + (16 - d) = j - d + 16 by omega, Nat.add_mod_right, Nat.mod_eq_of_lt (by omega),
      h.2.1 _ (by omega)]
    congr 1
    omega

/-- The word `update_w` puts in the place `j`. -/
theorem Between.updateWord_eq (h : Between buffer i j w) (hbuffer : buffer.length = 64)
    (hi : i = 0 ∨ 16 ≤ i) (hj : j < 16) :
    updateWord i buffer w j = w.set j (schedule buffer (i + j)) := by
  obtain rfl | hi := hi
  · rw [updateWord, if_pos (by norm_num), Nat.zero_add, schedule_low hj hbuffer]
  · have hold := h.2.2 hi j le_rfl hj
    have h15 := h.back hi hj (d := 15) (by norm_num) (by norm_num)
    have h7 := h.back hi hj (d := 7) (by norm_num) (by norm_num)
    have h2 := h.back hi hj (d := 2) (by norm_num) (by norm_num)
    rw [Fips180.Sha256.schedule_high (by omega)]
    simp only [updateWord, if_neg (show ¬i < 16 by omega), sigma0_eq, sigma1_eq]
    rw [hold, h15, h7, h2]
    congr 1
    ac_rfl

theorem Between.next (h : Between buffer i j w) (hbuffer : buffer.length = 64)
    (hi : i = 0 ∨ 16 ≤ i) (hj : j < 16) : Between buffer i (j + 1) (updateWord i buffer w j) := by
  have hset (m : Nat) (x : UInt32) :
      (w.set j x).getD m 0 = if m = j then x else w.getD m 0 := by
    simp only [List.getD_eq_getElem?_getD, List.getElem?_set, h.1, hj, if_true]
    split_ifs with h1 h2 h2
    · rfl
    · exact absurd h1.symm h2
    · exact absurd h2.symm h1
    · rfl
  rw [h.updateWord_eq hbuffer hi hj]
  refine ⟨by rw [List.length_set, h.1], ?_, ?_⟩
  · intro m hm
    rw [hset]
    split_ifs with hmj
    · rw [hmj]
    · exact h.2.1 m (by omega)
  · intro hi m hm hm'
    rw [hset, if_neg (by omega)]
    exact h.2.2 hi m (by omega) hm'

theorem Window.updateW (hbuffer : buffer.length = 64)
    (h : i = 0 ∧ w.length = 16 ∨ 16 ≤ i ∧ Window buffer (i - 16) w) :
    Window buffer i (updateW i buffer w) := by
  have hi : i = 0 ∨ 16 ≤ i := h.imp And.left And.left
  have hstart : Between buffer i 0 w := by
    obtain ⟨rfl, hlength⟩ | ⟨hi, hlength, hold⟩ := h
    · exact ⟨hlength, fun m hm => absurd hm (Nat.not_lt_zero m), fun hi => absurd hi (by norm_num)⟩
    · refine ⟨hlength, fun m hm => absurd hm (Nat.not_lt_zero m), fun _ m _ hm => ?_⟩
      rw [hold m hm]
      congr 1
      omega
  have hrun : ∀ j ≤ 16, Between buffer i j ((List.range j).foldl (updateWord i buffer) w) := by
    intro j
    induction j with
    | zero => exact fun _ => hstart
    | succ j ih =>
      intro hj
      rw [List.range_succ, List.foldl_append]
      exact (ih (by omega)).next hbuffer hi (by omega)
  obtain ⟨hlength, hnew, -⟩ := hrun 16 le_rfl
  exact ⟨hlength, hnew⟩

/-! ### The rounds -/

theorem temp_eq (e f g h k w : UInt32) : h + step1 e f g + k + w =
    h + Fips180.Sha256.bigSigma1 e + Fips180.ch e f g + (k + w) := by
  have hstep : step1 e f g = Fips180.Sha256.bigSigma1 e + Fips180.ch e f g := rfl
  rw [hstep, ← UInt32.add_assoc h, UInt32.add_assoc _ k]

theorem step2_eq (a b c : UInt32) :
    step2 a b c = Fips180.Sha256.bigSigma0 a + Fips180.maj a b c := rfl

theorem fourRounds_eq (i j : Nat) (w : List UInt32) (r : Registers) :
    fourRounds i w r j = [0, 1, 2, 3].foldl
      (fun r m => roundWith (k.getD (i + j + m) 0 + w.getD (j + m) 0) r) r := by
  have hadd (d t : UInt32) : d + t = t + d := UInt32.add_comm d t
  simp only [fourRounds, List.foldl_cons, List.foldl_nil, roundWith, temp_eq, step2_eq, hadd r.d,
    hadd r.c, hadd r.b, hadd r.a]

theorem sixteenRounds_eq {x : List UInt32 × Registers}
    (hw : Window buffer i (updateW i buffer x.1)) :
    (sixteenRounds buffer x i).2 = (List.range' i 16).foldl (Fips180.Sha256.round buffer) x.2 := by
  have hround (r : Registers) {m : Nat} (hm : m < 16) :
      roundWith (k.getD (i + m) 0 + (updateW i buffer x.1).getD m 0) r =
        Fips180.Sha256.round buffer r (i + m) := by
    rw [Fips180.Sha256.round, k_eq, hw.2 m hm]
  have hlist : List.range' i 16 = [i + 0, i + 1, i + 2, i + 3, i + 4, i + 5, i + 6, i + 7, i + 8,
      i + 9, i + 10, i + 11, i + 12, i + 13, i + 14, i + 15] := rfl
  simp only [sixteenRounds, List.foldl_cons, List.foldl_nil, fourRounds_eq, hlist,
    Nat.add_assoc, Nat.reduceAdd]
  simp (disch := norm_num) only [hround]

/-- One round of the outer loop: the array is the next window, and sixteen rounds are done. -/
theorem sixteenRounds_spec (hbuffer : buffer.length = 64) {x : List UInt32 × Registers}
    (h : i = 0 ∧ x.1.length = 16 ∨ 16 ≤ i ∧ Window buffer (i - 16) x.1) :
    Window buffer i (sixteenRounds buffer x i).1 ∧
      (sixteenRounds buffer x i).2 =
        (List.range' i 16).foldl (Fips180.Sha256.round buffer) x.2 := by
  have hw := Window.updateW hbuffer h
  exact ⟨hw, sixteenRounds_eq hw⟩

/-- Four times sixteen rounds over the array are the sixty-four rounds over the schedule. -/
theorem rounds_eq (hbuffer : buffer.length = 64) {x : List UInt32 × Registers}
    (hx : x.1.length = 16) :
    ([0, 16, 32, 48].foldl (sixteenRounds buffer) x).2 =
      (List.range 64).foldl (Fips180.Sha256.round buffer) x.2 := by
  have hsplit : List.range 64 = List.range' 0 16 ++ List.range' 16 16 ++ List.range' 32 16 ++
      List.range' 48 16 := by decide
  have h0 := sixteenRounds_spec hbuffer (i := 0) (.inl ⟨rfl, hx⟩)
  rw [hsplit, List.foldl_append, List.foldl_append, List.foldl_append, ← h0.2]
  simp only [List.foldl_cons, List.foldl_nil]
  generalize sixteenRounds buffer x 0 = x at h0 ⊢
  have h16 := sixteenRounds_spec hbuffer (i := 16) (.inr ⟨by norm_num, h0.1⟩)
  rw [← h16.2]
  generalize sixteenRounds buffer x 16 = x at h16 ⊢
  have h32 := sixteenRounds_spec hbuffer (i := 32) (.inr ⟨by norm_num, h16.1⟩)
  rw [← h32.2]
  generalize sixteenRounds buffer x 32 = x at h32 ⊢
  exact (sixteenRounds_spec hbuffer (i := 48) (.inr ⟨by norm_num, h32.1⟩)).2

variable {sha : Sha256} {message : Bytes}

theorem state_sha256Block : (sha256Block sha).state =
    Fips180.Sha256.compress sha.state sha.buffer := by
  have hrounds := rounds_eq sha.buffer_length (x := (List.replicate 16 0, ⟨sha.state.getD 0 0,
    sha.state.getD 1 0, sha.state.getD 2 0, sha.state.getD 3 0, sha.state.getD 4 0,
    sha.state.getD 5 0, sha.state.getD 6 0, sha.state.getD 7 0⟩)) (List.length_replicate ..)
  simp only [sha256Block, Fips180.Sha256.compress, hrounds]

/-! ### The stream -/

/-- The state, and the bytes of the buffer that count. -/
def read (sha : Sha256) : BlockHash.Stream (List UInt32) UInt8 :=
  ⟨sha.state, sha.buffer.take sha.bufferCounter.toNat⟩

theorem read_state : (read sha).state = sha.state := rfl

/-- `message` has been appended since `sha256_init`. -/
structure Hashing (message : Bytes) (sha : Sha256) : Prop where
  counter : sha.bufferCounter.toNat < 64
  fed : BlockHash.Fed Fips180.Sha256.compress 64 Fips180.Sha256.initial message (read sha)
  bits : sha.nBits = UInt64.ofNat (8 * message.length)

theorem length_pending (h : sha.bufferCounter.toNat < 64) :
    (read sha).pending.length = sha.bufferCounter.toNat := by
  rw [read, List.length_take, sha.buffer_length, Nat.min_eq_left h.le]

theorem feeds_sha256AppendByte : BlockHash.Feeds Fips180.Sha256.compress 64 sha256AppendByte read
    fun sha => sha.bufferCounter.toNat < 64 := by
  intro sha byte h
  have hnext : (sha.bufferCounter + 1).toNat = sha.bufferCounter.toNat + 1 := by
    rw [UInt8.toNat_add, UInt8.toNat_one, Nat.mod_eq_of_lt (by omega)]
  have hput : (sha.buffer.set sha.bufferCounter.toNat byte).take (sha.bufferCounter.toNat + 1) =
      (read sha).pending ++ [byte] := by
    rw [List.take_add_one, List.getElem?_set_self (by rw [sha.buffer_length]; exact h),
      List.take_set_of_le le_rfl]
    rfl
  have hlength : ((read sha).pending ++ [byte]).length = sha.bufferCounter.toNat + 1 := by
    rw [List.length_append, length_pending h, List.length_singleton]
  have hfull : sha.bufferCounter + 1 = 64 ↔ sha.bufferCounter.toNat + 1 = 64 := by
    rw [← UInt8.toNat_inj, hnext]
    rfl
  rw [BlockHash.Stream.feed, hlength, sha256AppendByte]
  by_cases hblock : sha.bufferCounter.toNat + 1 = 64
  · rw [if_pos (hfull.mpr hblock), if_pos hblock]
    refine ⟨by norm_num [sha256Block], ?_⟩
    rw [← hput, hblock, List.take_of_length_le (by rw [List.length_set, sha.buffer_length])]
    exact BlockHash.Stream.ext state_sha256Block rfl
  · rw [if_neg (hfull.not.mpr hblock), if_neg hblock]
    refine ⟨by simp only [hnext]; omega, ?_⟩
    rw [← hput, ← hnext]
    rfl

theorem nBits_sha256AppendByte (byte : UInt8) :
    (sha256AppendByte sha byte).nBits = sha.nBits + 8 := by
  rw [sha256AppendByte]
  split_ifs <;> rfl

theorem hashing_sha256Init : Hashing [] (sha256Init sha) := by
  have hinitial : Fips180.Sha256.initial = [0x6a09e667, 0xbb67ae85, 0x3c6ef372, 0xa54ff53a,
      0x510e527f, 0x9b05688c, 0x1f83d9ab, 0x5be0cd19] := by decide +kernel
  refine ⟨by norm_num [sha256Init], ?_, rfl⟩
  rw [hinitial]
  exact BlockHash.Fed.start (by norm_num)

theorem Hashing.sha256AppendByte (h : Hashing message sha) (byte : UInt8) :
    Hashing (message ++ [byte]) (sha256AppendByte sha byte) := by
  obtain ⟨hcounter, hfed⟩ := feeds_sha256AppendByte.fed (by norm_num) h.counter h.fed byte
  refine ⟨hcounter, hfed, ?_⟩
  rw [nBits_sha256AppendByte, h.bits, List.length_append, List.length_singleton, Nat.mul_add,
    UInt64.ofNat_add]
  rfl

theorem Hashing.sha256Append (h : Hashing message sha) (src : Bytes) :
    Hashing (message ++ src) (sha256Append sha src) := by
  induction src generalizing message sha with
  | nil =>
    rw [List.append_nil]
    exact h
  | cons byte src ih =>
    rw [List.append_cons]
    exact ih (h.sha256AppendByte byte)

/-! ### The end of the message -/

theorem and_ff (x : Nat) : x &&& 255 = x % 256 := Nat.and_two_pow_sub_one_eq_mod x 8

/-- The eight bytes of the count, as the last loop of `sha256_finalize` takes them. -/
theorem lengthBytes_eq (n : UInt64) :
    ([7, 6, 5, 4, 3, 2, 1, 0] : List UInt64).map (fun i => ((n >>> (8 * i)) &&& 0xff).toUInt8) =
      Fips180.bigEndian 8 n.toNat := by
  have hbyte (i : UInt64) : ((n >>> (8 * i)) &&& 0xff).toUInt8 =
      UInt8.ofNat (n.toNat / 2 ^ (8 * i.toNat % 2 ^ 64 % 64)) := by
    apply UInt8.toNat_inj.mp
    simp [and_ff, Nat.shiftRight_eq_div_pow]
  simp only [hbyte, Fips180.bigEndian, LittleEndian.leBytes, List.map_cons, List.map_nil,
    List.reverse_cons, List.reverse_nil, List.nil_append, List.cons_append, Nat.div_div_eq_div_mul]
  simp

theorem wordBytes_eq (s : UInt32) : wordBytes s = Fips180.bigEndian 4 s.toNat := by
  have hbyte (j : UInt32) : ((s >>> (j * 8)) &&& 0xff).toUInt8 =
      UInt8.ofNat (s.toNat / 2 ^ (j.toNat * 8 % 2 ^ 32 % 32)) := by
    apply UInt8.toNat_inj.mp
    simp [and_ff, Nat.shiftRight_eq_div_pow]
  simp only [wordBytes, hbyte, Fips180.bigEndian, LittleEndian.leBytes, List.map_cons, List.map_nil,
    List.reverse_cons, List.reverse_nil, List.nil_append, List.cons_append, Nat.div_div_eq_div_mul]
  simp

theorem Hashing.bigEndian_nBits (h : Hashing message sha) :
    Fips180.bigEndian 8 sha.nBits.toNat = Fips180.bigEndian 8 (8 * message.length) := by
  rw [h.bits, UInt64.toNat_ofNat', ← Fips180.bigEndian_mod 8 (8 * message.length)]
  norm_num

theorem zeroStep_eq (h : sha.bufferCounter.toNat < 64) : zeroStep sha =
    if (read sha).pending.length = 56 then .inl sha else .inr (sha256AppendByte sha 0) := by
  have hroom : sha.bufferCounter = 56 ↔ (read sha).pending.length = 56 := by
    rw [length_pending h, ← UInt8.toNat_inj]
    rfl
  rw [zeroStep, ite_not]
  exact if_congr hroom rfl rfl

/-- The padding is that of the standard, and the loop that writes its zeros ends. -/
theorem Hashing.sha256Finalize (h : Hashing message sha) :
    ∃ sha', sha256Finalize sha = some sha' ∧ sha'.state =
      BlockHash.digest Fips180.Sha256.compress 64 Fips180.Sha256.initial (Fips180.pad message) := by
  have hone := h.sha256AppendByte 0x80
  obtain ⟨sha', hrun, hcounter, hfed⟩ := feeds_sha256AppendByte.run_untilRoom
    56 (by norm_num) le_rfl (fun t => zeroStep_eq) hone.counter hone.fed
  obtain ⟨-, hfed⟩ := feeds_sha256AppendByte.foldl (by norm_num) hcounter hfed
    (Fips180.bigEndian 8 (8 * message.length))
  rw [Fips180.append_padding] at hfed
  have hstate := hfed.state_eq (Fips180.length_pad_mod message _)
  rw [read_state] at hstate
  refine ⟨_, ?_, hstate⟩
  rw [Sha256.sha256Finalize, hrun, Option.bind_eq_bind, Option.bind_some, ← h.bigEndian_nBits,
    ← lengthBytes_eq, List.foldl_map]

theorem flatMap_wordBytes (state : List UInt32) :
    state.flatMap wordBytes = Fips180.output state := by
  rw [Fips180.output, funext wordBytes_eq]

/-- The two digits of a byte. -/
def byteDigits (b : UInt8) : List Char :=
  ["0123456789abcdef".toList.getD (b.toNat / 16) '0',
    "0123456789abcdef".toList.getD (b.toNat % 16) '0']

theorem and_f (x : Nat) : x &&& 15 = x % 16 := Nat.and_two_pow_sub_one_eq_mod x 4

/-- The eight digits of a word are those of its four bytes. -/
theorem hexDigits_eq (s : UInt32) : hexDigits s = (wordBytes s).flatMap byteDigits := by
  have hnibble (j : UInt32) : ((s >>> (j * 4)) &&& 0xf).toNat =
      s.toNat / 2 ^ (j.toNat * 4 % 2 ^ 32 % 32) % 16 := by
    simp [and_f, Nat.shiftRight_eq_div_pow]
  have hbyte (j : UInt32) : (((s >>> (j * 8)) &&& 0xff).toUInt8).toNat =
      s.toNat / 2 ^ (j.toNat * 8 % 2 ^ 32 % 32) % 256 := by
    simp [and_ff, Nat.shiftRight_eq_div_pow]
  have hhigh (x : Nat) : x % 256 / 16 = x / 16 % 16 := by omega
  have hlow (x : Nat) : x % 256 % 16 = x % 16 := by omega
  simp only [hexDigits, wordBytes, byteDigits, hnibble, hbyte, List.map_cons, List.map_nil,
    List.flatMap_cons, List.flatMap_nil, List.cons_append, List.nil_append, hhigh, hlow,
    Nat.div_div_eq_div_mul]
  simp

theorem hashing_foldl (chunks : List Bytes) :
    Hashing chunks.flatten (chunks.foldl sha256Append (sha256Init sha)) := by
  suffices h : ∀ (chunks : List Bytes) (message : Bytes) (sha : Sha256), Hashing message sha →
      Hashing (message ++ chunks.flatten) (chunks.foldl sha256Append sha) from
    h chunks [] _ hashing_sha256Init
  intro chunks
  induction chunks with
  | nil =>
    intro message sha h
    rw [List.flatten_nil, List.append_nil]
    exact h
  | cons chunk chunks ih =>
    intro message sha h
    rw [List.flatten_cons, ← List.append_assoc]
    exact ih _ _ (h.sha256Append chunk)

/-- However a message is cut up and whatever the structure held before: the bytes are the hash of
the standard, and the text is its digits. -/
theorem sha256_stream (sha : Sha256) (chunks : List Bytes) :
    sha256FinalizeBytes (chunks.foldl sha256Append (sha256Init sha)) =
        some (Fips180.Sha256.hash chunks.flatten) ∧
      sha256FinalizeHex (chunks.foldl sha256Append (sha256Init sha)) =
        some ((Fips180.Sha256.hash chunks.flatten).flatMap byteDigits) := by
  have hfold : Hashing chunks.flatten (chunks.foldl sha256Append (sha256Init sha)) :=
    hashing_foldl chunks
  obtain ⟨sha', hrun, hstate⟩ := hfold.sha256Finalize
  have hhash : sha'.state.flatMap wordBytes = Fips180.Sha256.hash chunks.flatten := by
    rw [flatMap_wordBytes, hstate, Fips180.Sha256.hash]
  constructor
  · rw [sha256FinalizeBytes, hrun, ← hhash]
    rfl
  · rw [sha256FinalizeHex, hrun, ← hhash, List.flatMap_assoc, ← funext hexDigits_eq]
    rfl

end Sha256

end Libtg.Mtx
