import Libtg.Lib.Fips180
import Libtg.Tl.Buf

/-!
# SHA-1 and its keyed code (`mtx/src/sha1.c`, `crypto/sha1.c`)

`buffer` and `state` are unions of bytes and of words. On a little-endian machine a byte stored at
`bufferOffset ^ 3` makes the words big-endian, and `sha1_result` turns the words of the state around
before it hands out their bytes. The bytes are counted in 32 bits. `sha1_stream` and `hmac_stream`:
up to that many bytes the results are those of the standards.
-/

namespace Libtg.Mtx

open LittleEndian (get32 le32)

/-- A word of a union. -/
def unionW (b : Bytes) (i : Nat) : UInt32 := get32 ((b.drop (4 * i)).take 4)

def setUnionW (b : Bytes) (i : Nat) (v : UInt32) : Bytes :=
  b.take (4 * i) ++ le32 v ++ b.drop (4 * i + 4)

/-- A loop over the first `n` words. -/
def mapWords (f : Nat → UInt32 → UInt32) (n : Nat) (b : Bytes) : Bytes :=
  (List.range n).foldl (fun b i => setUnionW b i (f i (unionW b i))) b

section
variable {b : Bytes} {i j n : Nat} {v : UInt32} {f : Nat → UInt32 → UInt32}

theorem length_setUnionW (h : 4 * i + 4 ≤ b.length) : (setUnionW b i v).length = b.length := by
  simp only [setUnionW, List.length_append, List.length_take, List.length_drop,
    LittleEndian.le32_length]
  omega

theorem unionW_setUnionW_self (h : 4 * i + 4 ≤ b.length) : unionW (setUnionW b i v) i = v := by
  have hlow : (b.take (4 * i)).length = 4 * i := List.length_take_of_le (by omega)
  rw [unionW, setUnionW, List.append_assoc, List.drop_left' hlow,
    List.take_left' (LittleEndian.le32_length v), LittleEndian.get32_le32]

theorem unionW_setUnionW_of_ne (h : 4 * i + 4 ≤ b.length) (hij : i ≠ j) :
    unionW (setUnionW b i v) j = unionW b j := by
  have hlow : (b.take (4 * i)).length = 4 * i := List.length_take_of_le (by omega)
  have hupto : (b.take (4 * i) ++ le32 v).length = 4 * i + 4 := by
    rw [List.length_append, hlow, LittleEndian.le32_length]
  rw [unionW, unionW, setUnionW]
  congr 1
  rcases Nat.lt_or_ge j i with hlt | hge
  · have hroom : 4 * j + 4 ≤ 4 * i := by omega
    rw [List.append_assoc, List.drop_append_of_le_length (by omega),
      List.take_append_of_le_length (by rw [List.length_drop, hlow]; omega), List.drop_take,
      List.take_take, Nat.min_eq_left (by omega)]
  · rw [List.drop_append, hupto, List.drop_eq_nil_of_le (by omega), List.nil_append,
      List.drop_drop]
    congr 2
    omega

theorem length_mapWords (h : 4 * n ≤ b.length) : (mapWords f n b).length = b.length := by
  induction n with
  | zero => rfl
  | succ n ih =>
    have hlength := ih (by omega)
    rw [mapWords, List.range_succ, List.foldl_append, List.foldl_cons, List.foldl_nil, ← mapWords,
      length_setUnionW (by omega), hlength]

theorem unionW_mapWords (h : 4 * n ≤ b.length) (j : Nat) :
    unionW (mapWords f n b) j = if j < n then f j (unionW b j) else unionW b j := by
  induction n with
  | zero => rfl
  | succ n ih =>
    have hlength : (mapWords f n b).length = b.length := length_mapWords (by omega)
    rw [mapWords, List.range_succ, List.foldl_append, List.foldl_cons, List.foldl_nil, ← mapWords]
    by_cases hj : n = j
    · subst hj
      rw [unionW_setUnionW_self (by omega), ih (by omega), if_neg (Nat.lt_irrefl n),
        if_pos (Nat.lt_succ_self n)]
    · rw [unionW_setUnionW_of_ne (by omega) hj, ih (by omega)]
      exact if_congr (by omega) rfl rfl

end

/-- `struct sha1nfo`. -/
structure Sha1nfo where
  buffer : Bytes
  bufferOffset : UInt8
  state : Bytes
  byteCount : UInt32
  keyBuffer : Bytes
  innerHash : Bytes
  buffer_length : buffer.length = 64
  state_length : state.length = 20

namespace Sha1

def sha1InitState : Bytes :=
  [0x01, 0x23, 0x45, 0x67,
   0x89, 0xab, 0xcd, 0xef,
   0xfe, 0xdc, 0xba, 0x98,
   0x76, 0x54, 0x32, 0x10,
   0xf0, 0xe1, 0xd2, 0xc3]

def sha1Init (s : Sha1nfo) : Sha1nfo :=
  { s with state := sha1InitState, state_length := rfl, byteCount := 0, bufferOffset := 0 }

def sha1Rol32 (number bits : UInt32) : UInt32 := (number <<< bits) ||| (number >>> (32 - bits))

/-- The local variables `a` to `e`. -/
abbrev Registers := Fips180.Sha1.Working

/-- The word of a round, put into the buffer where it is a new one. -/
def nextWord (buffer : Bytes) (i : Nat) : Bytes :=
  if 16 ≤ i then
    let t := unionW buffer ((i + 13) % 16) ^^^ unionW buffer ((i + 8) % 16) ^^^
      unionW buffer ((i + 2) % 16) ^^^ unionW buffer (i % 16)
    setUnionW buffer (i % 16) (sha1Rol32 t 1)
  else buffer

/-- One round of `sha1_hashBlock`. -/
def hashRound (x : Bytes × Registers) (i : Nat) : Bytes × Registers :=
  let buffer := nextWord x.1 i
  let ⟨a, b, c, d, e⟩ := x.2
  let t :=
    if i < 20 then (d ^^^ (b &&& (c ^^^ d))) + 0x5a827999
    else if i < 40 then (b ^^^ c ^^^ d) + 0x6ed9eba1
    else if i < 60 then ((b &&& c) ||| (d &&& (b ||| c))) + 0x8f1bbcdc
    else (b ^^^ c ^^^ d) + 0xca62c1d6
  let t := t + (sha1Rol32 a 5 + e + unionW buffer (i % 16))
  (buffer, ⟨t, a, sha1Rol32 b 30, c, d⟩)

theorem length_nextWord {buffer : Bytes} (h : buffer.length = 64) (i : Nat) :
    (nextWord buffer i).length = 64 := by
  rw [nextWord]
  split_ifs
  · rw [length_setUnionW (by omega), h]
  · exact h

theorem length_foldl_hashRound {x : Bytes × Registers} (h : x.1.length = 64) (l : List Nat) :
    (l.foldl hashRound x).1.length = 64 := by
  induction l generalizing x with
  | nil => exact h
  | cons i l ih => exact ih (length_nextWord h i)

/-- The five words of a state. -/
def stateWords (state : Bytes) : List UInt32 := [0, 1, 2, 3, 4].map (unionW state)

/-- The loop of `sha1_hashBlock`. -/
def hashRounds (buffer state : Bytes) : Bytes × Registers :=
  let w := unionW state
  (List.range 80).foldl hashRound (buffer, ⟨w 0, w 1, w 2, w 3, w 4⟩)

theorem length_hashRounds {buffer : Bytes} (h : buffer.length = 64) (state : Bytes) :
    (hashRounds buffer state).1.length = 64 := length_foldl_hashRound h _

/-- What the registers add to the words of the state. -/
def addRegisters (r : Registers) (i : Nat) (v : UInt32) : UInt32 :=
  v + [r.a, r.b, r.c, r.d, r.e].getD i 0

theorem length_mapState {f : Nat → UInt32 → UInt32} {state : Bytes} (h : state.length = 20) :
    (mapWords f 5 state).length = 20 := by
  rw [length_mapWords (by rw [h]), h]

def sha1HashBlock (s : Sha1nfo) : Sha1nfo :=
  { s with
    buffer := (hashRounds s.buffer s.state).1
    buffer_length := length_hashRounds s.buffer_length _
    state := mapWords (addRegisters (hashRounds s.buffer s.state).2) 5 s.state
    state_length := length_mapState s.state_length }

def sha1AddUncounted (s : Sha1nfo) (data : UInt8) : Sha1nfo :=
  let s := { s with
    buffer := s.buffer.set (s.bufferOffset.toNat ^^^ 3) data
    buffer_length := by rw [List.length_set, s.buffer_length]
    bufferOffset := s.bufferOffset + 1 }
  if s.bufferOffset = 64 then { sha1HashBlock s with bufferOffset := 0 } else s

def sha1Writebyte (s : Sha1nfo) (data : UInt8) : Sha1nfo :=
  sha1AddUncounted { s with byteCount := s.byteCount + 1 } data

def sha1Write (s : Sha1nfo) (data : Bytes) : Sha1nfo := data.foldl sha1Writebyte s

/-- `while (s->bufferOffset != 56)`. -/
def zeroStep (s : Sha1nfo) : Sha1nfo ⊕ Sha1nfo :=
  if s.bufferOffset ≠ 56 then .inr (sha1AddUncounted s 0) else .inl s

/-- The last eight bytes: only 32-bit lengths are used. -/
def lengthBytes (byteCount : UInt32) : Bytes :=
  [0, 0, 0, (byteCount >>> 29).toUInt8, (byteCount >>> 21).toUInt8, (byteCount >>> 13).toUInt8,
    (byteCount >>> 5).toUInt8, (byteCount <<< 3).toUInt8]

/-- The loop is given 64 rounds, which are always enough. -/
def sha1Pad (s : Sha1nfo) : Option Sha1nfo := do
  let s ← Loop.run zeroStep 64 (sha1AddUncounted s 0x80)
  some ((lengthBytes s.byteCount).foldl sha1AddUncounted s)

def swapWord (a : UInt32) : UInt32 :=
  (a <<< 24) ||| ((a <<< 8) &&& (0x00ff0000 : UInt32)) |||
    ((a >>> 8) &&& (0x0000ff00 : UInt32)) ||| (a >>> 24)

/-- `sha1_result`: the pointer it returns is that to the state. -/
def sha1Result (s : Sha1nfo) : Option Sha1nfo := do
  let s ← sha1Pad s
  some { s with
    state := mapWords (fun _ => swapWord) 5 s.state
    state_length := length_mapState s.state_length }

/-- `sha1`: `s` is what the stack holds where it is declared. -/
def sha1 (s : Sha1nfo) (d : Bytes) : Option Bytes := do
  let s ← sha1Result (sha1Write (sha1Init s) d)
  some s.state

def hmacIpad : UInt8 := 0x36

def hmacOpad : UInt8 := 0x5c

/-- The first part of `sha1_initHmac`: a long key is hashed. -/
def fillKeyBuffer (s : Sha1nfo) (key : Bytes) : Option Sha1nfo := do
  let zeros := List.replicate 64 0
  if 64 < key.length then
    let s ← sha1Result (sha1Write (sha1Init s) key)
    some { s with keyBuffer := s.state ++ zeros.drop 20 }
  else
    some { s with keyBuffer := key ++ zeros.drop key.length }

def sha1InitHmac (s : Sha1nfo) (key : Bytes) : Option Sha1nfo := do
  let s ← fillKeyBuffer s key
  some (sha1Write (sha1Init s) (s.keyBuffer.map (· ^^^ hmacIpad)))

def sha1ResultHmac (s : Sha1nfo) : Option Sha1nfo := do
  let s ← sha1Result s
  let s := { s with innerHash := s.state }
  let s := sha1Write (sha1Init s) (s.keyBuffer.map (· ^^^ hmacOpad))
  sha1Result (sha1Write s s.innerHash)

/-! ### The rounds -/

open Fips180.Sha1 (schedule)

/-- The choice and the majority as the loop writes them. -/
theorem ch_eq (b c d : UInt32) : d ^^^ (b &&& (c ^^^ d)) = Fips180.ch b c d := by
  apply UInt32.toBitVec_inj.mp
  ext i hi
  simp only [Fips180.ch, UInt32.toBitVec_xor, UInt32.toBitVec_and, UInt32.toBitVec_not,
    BitVec.getElem_xor, BitVec.getElem_and, BitVec.getElem_not]
  cases b.toBitVec[i] <;> cases c.toBitVec[i] <;> cases d.toBitVec[i] <;> rfl

theorem maj_eq (b c d : UInt32) : (b &&& c) ||| (d &&& (b ||| c)) = Fips180.maj b c d := by
  apply UInt32.toBitVec_inj.mp
  ext i hi
  simp only [Fips180.maj, UInt32.toBitVec_xor, UInt32.toBitVec_and, UInt32.toBitVec_or,
    BitVec.getElem_xor, BitVec.getElem_and, BitVec.getElem_or]
  cases b.toBitVec[i] <;> cases c.toBitVec[i] <;> cases d.toBitVec[i] <;> rfl

/-- Before round `i` the buffer holds the last sixteen words of the schedule, each in the place of
its index modulo sixteen. -/
def Recent (block : Bytes) (i : Nat) (buffer : Bytes) : Prop :=
  buffer.length = 64 ∧
    ∀ t, t < max i 16 → i ≤ t + 16 → unionW buffer (t % 16) = schedule block t

variable {block buffer : Bytes} {i : Nat}

theorem Recent.nextWord (h : Recent block i buffer) : Recent block (i + 1) (nextWord buffer i) ∧
    unionW (nextWord buffer i) (i % 16) = schedule block i := by
  have hlt := Nat.mod_lt i (show 0 < 16 by norm_num)
  have hroom : 4 * (i % 16) + 4 ≤ buffer.length := by
    rw [h.1]
    omega
  rw [Sha1.nextWord]
  split_ifs with hi
  · have hread {d : Nat} (hd : 0 < d) (hd' : d ≤ 16) :
        unionW buffer ((i - d) % 16) = schedule block (i - d) := h.2 _ (by omega) (by omega)
    have h3 : unionW buffer ((i + 13) % 16) = schedule block (i - 3) := by
      rw [show (i + 13) % 16 = (i - 3) % 16 by omega, hread (by norm_num) (by norm_num)]
    have h8 : unionW buffer ((i + 8) % 16) = schedule block (i - 8) := by
      rw [show (i + 8) % 16 = (i - 8) % 16 by omega, hread (by norm_num) (by norm_num)]
    have h14 : unionW buffer ((i + 2) % 16) = schedule block (i - 14) := by
      rw [show (i + 2) % 16 = (i - 14) % 16 by omega, hread (by norm_num) (by norm_num)]
    have h16 : unionW buffer (i % 16) = schedule block (i - 16) := by
      rw [show i % 16 = (i - 16) % 16 by omega, hread (by norm_num) le_rfl]
    have hword : sha1Rol32 (unionW buffer ((i + 13) % 16) ^^^ unionW buffer ((i + 8) % 16) ^^^
        unionW buffer ((i + 2) % 16) ^^^ unionW buffer (i % 16)) 1 = schedule block i := by
      rw [h3, h8, h14, h16, Fips180.Sha1.schedule_high hi]
      rfl
    simp only [hword]
    refine ⟨⟨(length_setUnionW hroom).trans h.1, fun t ht ht' => ?_⟩, unionW_setUnionW_self hroom⟩
    by_cases hti : t = i
    · rw [hti, unionW_setUnionW_self hroom]
    · rw [unionW_setUnionW_of_ne hroom (by omega), h.2 t (by omega) (by omega)]
  · exact ⟨⟨h.1, fun t ht ht' => h.2 t (by omega) (by omega)⟩, h.2 i (by omega) (by omega)⟩

/-- The function and the constant of a round. -/
theorem mix_eq (i : Nat) (b c d : UInt32) :
    (if i < 20 then (d ^^^ (b &&& (c ^^^ d))) + 0x5a827999
      else if i < 40 then (b ^^^ c ^^^ d) + 0x6ed9eba1
      else if i < 60 then ((b &&& c) ||| (d &&& (b ||| c))) + 0x8f1bbcdc
      else (b ^^^ c ^^^ d) + 0xca62c1d6) = Fips180.Sha1.f i b c d + Fips180.Sha1.k i := by
  rw [Fips180.Sha1.f, Fips180.Sha1.k, ch_eq, maj_eq]
  split_ifs <;> rfl

theorem hashRound_spec {x : Bytes × Registers} (h : Recent block i x.1) :
    Recent block (i + 1) (hashRound x i).1 ∧
      (hashRound x i).2 = Fips180.Sha1.round block x.2 i := by
  obtain ⟨hrecent, hword⟩ := h.nextWord
  refine ⟨hrecent, ?_⟩
  have hsum (f a e w k : UInt32) : f + k + (sha1Rol32 a 5 + e + w) =
      Fips180.rotl 5 a + f + e + k + w := by
    rw [show sha1Rol32 a 5 = Fips180.rotl 5 a from rfl]
    ac_rfl
  have hrol (b : UInt32) : sha1Rol32 b 30 = Fips180.rotl 30 b := rfl
  simp only [hashRound, hword, mix_eq, hsum, hrol, Fips180.Sha1.round]

theorem hashRounds_eq {state : Bytes} (h : Recent block 0 buffer) :
    (hashRounds buffer state).2 = (List.range 80).foldl (Fips180.Sha1.round block)
      ⟨unionW state 0, unionW state 1, unionW state 2, unionW state 3, unionW state 4⟩ := by
  have hrun (n : Nat) (r : Registers) :
      Recent block n ((List.range n).foldl hashRound (buffer, r)).1 ∧
        ((List.range n).foldl hashRound (buffer, r)).2 =
          (List.range n).foldl (Fips180.Sha1.round block) r := by
    induction n with
    | zero => exact ⟨h, rfl⟩
    | succ n ih =>
      simp only [List.range_succ, List.foldl_append, List.foldl_cons, List.foldl_nil]
      rw [← ih.2]
      exact hashRound_spec ih.1
  rw [hashRounds, (hrun 80 _).2]

variable {s : Sha1nfo} {message : Bytes}

theorem stateWords_mapWords {f : Nat → UInt32 → UInt32} {state : Bytes} (h : state.length = 20) :
    stateWords (mapWords f 5 state) = [f 0 (unionW state 0), f 1 (unionW state 1),
      f 2 (unionW state 2), f 3 (unionW state 3), f 4 (unionW state 4)] := by
  have hword := unionW_mapWords (f := f) (n := 5) (b := state) h.ge
  simp only [stateWords, List.map_cons, List.map_nil, hword, Nat.reduceLT, if_true]

theorem state_sha1HashBlock : (sha1HashBlock s).state =
    mapWords (addRegisters (hashRounds s.buffer s.state).2) 5 s.state := rfl

theorem stateWords_sha1HashBlock (h : Recent block 0 s.buffer) :
    stateWords (sha1HashBlock s).state = Fips180.Sha1.compress (stateWords s.state) block := by
  rw [state_sha1HashBlock, stateWords_mapWords s.state_length, hashRounds_eq h]
  simp only [Fips180.Sha1.compress, stateWords, List.map_cons, List.map_nil, addRegisters,
    List.getD_cons_zero, List.getD_cons_succ, List.zipWith_cons_cons, List.zipWith_nil_left]

/-! ### The stream -/

/-- The byte of the message that is kept at the other end of its word. -/
def pendingByte (buffer : Bytes) (k : Nat) : UInt8 := buffer.getD (k ^^^ 3) 0

def read (s : Sha1nfo) : BlockHash.Stream (List UInt32) UInt8 :=
  ⟨stateWords s.state, (List.range s.bufferOffset.toNat).map (pendingByte s.buffer)⟩

theorem read_state : (read s).state = stateWords s.state := rfl

theorem length_pending : (read s).pending.length = s.bufferOffset.toNat := by
  rw [read, List.length_map, List.length_range]

theorem xor_three_lt {c : Nat} (h : c < 64) : c ^^^ 3 < 64 :=
  Nat.xor_lt_two_pow (n := 6) h (by norm_num)

theorem xor_three_inj {c k : Nat} (h : c ^^^ 3 = k ^^^ 3) : c = k := by
  have hback := congrArg (· ^^^ 3) h
  simpa only [Nat.xor_assoc, Nat.xor_self, Nat.xor_zero] using hback

/-- The word at an index is read from the four bytes of the message there. -/
theorem unionW_pending {buffer : Bytes} (h : buffer.length = 64) {m : Nat} (hm : m < 16) :
    unionW buffer m = Fips180.word ((List.range 64).map (pendingByte buffer)) m := by
  have hcons {l : Bytes} (hl : l.length = 64) {k : Nat} (hk : k < 64) :
      l.drop k = l.getD k 0 :: l.drop (k + 1) := by
    rw [List.drop_eq_getElem_cons (hl.symm ▸ hk), List.getD_eq_getElem?_getD,
      List.getElem?_eq_getElem (hl.symm ▸ hk), Option.getD_some]
  have hfour {l : Bytes} (hl : l.length = 64) : (l.drop (4 * m)).take 4 =
      [l.getD (4 * m) 0, l.getD (4 * m + 1) 0, l.getD (4 * m + 2) 0, l.getD (4 * m + 3) 0] := by
    rw [hcons hl (by omega), hcons hl (by omega), hcons hl (by omega), hcons hl (by omega)]
    rfl
  have hturn : ∀ m < 16, (4 * m) ^^^ 3 = 4 * m + 3 ∧ (4 * m + 1) ^^^ 3 = 4 * m + 2 ∧
      (4 * m + 2) ^^^ 3 = 4 * m + 1 ∧ (4 * m + 3) ^^^ 3 = 4 * m := by decide
  obtain ⟨h0, h1, h2, h3⟩ := hturn m hm
  have hget {k : Nat} (hk : k < 64) :
      ((List.range 64).map (pendingByte buffer)).getD k 0 = buffer.getD (k ^^^ 3) 0 := by
    rw [List.getD_eq_getElem?_getD, List.getElem?_map, List.getElem?_range hk]
    rfl
  rw [unionW, Fips180.word, hfour h, hfour (by rw [List.length_map, List.length_range]),
    hget (by omega), hget (by omega), hget (by omega), hget (by omega), h0, h1, h2, h3]
  rfl

/-- A full buffer is a block of the message. -/
theorem recent_pending {buffer : Bytes} (h : buffer.length = 64) :
    Recent ((List.range 64).map (pendingByte buffer)) 0 buffer := by
  refine ⟨h, fun t ht _ => ?_⟩
  have ht : t < 16 := by omega
  rw [Nat.mod_eq_of_lt ht, unionW_pending h ht, Fips180.Sha1.schedule_low ht]

theorem feeds_sha1AddUncounted : BlockHash.Feeds Fips180.Sha1.compress 64 sha1AddUncounted read
    fun s => s.bufferOffset.toNat < 64 := by
  intro s data h
  have hnext : (s.bufferOffset + 1).toNat = s.bufferOffset.toNat + 1 := by
    rw [UInt8.toNat_add, UInt8.toNat_one, Nat.mod_eq_of_lt (by omega)]
  have hput : (List.range (s.bufferOffset.toNat + 1)).map
      (pendingByte (s.buffer.set (s.bufferOffset.toNat ^^^ 3) data)) =
        (read s).pending ++ [data] := by
    rw [List.range_succ, List.map_append, read]
    congr 1
    · refine List.map_congr_left fun k hk => ?_
      have hne : s.bufferOffset.toNat ^^^ 3 ≠ k ^^^ 3 := fun heq =>
        (List.mem_range.mp hk).ne' (xor_three_inj heq)
      rw [pendingByte, pendingByte, List.getD_eq_getElem?_getD, List.getElem?_set_ne hne,
        List.getD_eq_getElem?_getD]
    · have hroom : s.bufferOffset.toNat ^^^ 3 < s.buffer.length := by
        rw [s.buffer_length]
        exact xor_three_lt h
      rw [List.map_singleton, pendingByte, List.getD_eq_getElem?_getD,
        List.getElem?_set_self hroom, Option.getD_some]
  have hlength : ((read s).pending ++ [data]).length = s.bufferOffset.toNat + 1 := by
    rw [List.length_append, length_pending, List.length_singleton]
  have hfull : s.bufferOffset + 1 = 64 ↔ s.bufferOffset.toNat + 1 = 64 := by
    rw [← UInt8.toNat_inj, hnext]
    rfl
  rw [BlockHash.Stream.feed, hlength, sha1AddUncounted]
  by_cases hblock : s.bufferOffset.toNat + 1 = 64
  · rw [if_pos (hfull.mpr hblock), if_pos hblock, ← hput, hblock]
    have hlength' : (s.buffer.set (s.bufferOffset.toNat ^^^ 3) data).length = 64 := by
      rw [List.length_set, s.buffer_length]
    have hstate := stateWords_sha1HashBlock (recent_pending hlength')
      (s := { s with buffer := _, buffer_length := hlength', bufferOffset := s.bufferOffset + 1 })
    exact ⟨by norm_num, BlockHash.Stream.ext hstate rfl⟩
  · rw [if_neg (hfull.not.mpr hblock), if_neg hblock]
    refine ⟨by simp only [hnext]; omega, ?_⟩
    rw [← hput, ← hnext]
    rfl

/-- `message` has been written since `sha1_init`. -/
structure Hashing (message : Bytes) (s : Sha1nfo) : Prop where
  offset : s.bufferOffset.toNat < 64
  fed : BlockHash.Fed Fips180.Sha1.compress 64 Fips180.Sha1.initial message (read s)
  count : s.byteCount = UInt32.ofNat message.length

theorem byteCount_sha1AddUncounted (data : UInt8) :
    (sha1AddUncounted s data).byteCount = s.byteCount := by
  have hblock (t : Sha1nfo) : (sha1HashBlock t).byteCount = t.byteCount := by
    rw [sha1HashBlock]
  rw [sha1AddUncounted]
  split_ifs <;> simp only [hblock]

theorem hashing_sha1Init : Hashing [] (sha1Init s) := by
  have hinitial : Fips180.Sha1.initial = stateWords sha1InitState := by decide +kernel
  refine ⟨show (0 : UInt8).toNat < 64 by decide, ?_, rfl⟩
  rw [hinitial]
  exact BlockHash.Fed.start (by norm_num)

theorem Hashing.sha1Writebyte (h : Hashing message s) (data : UInt8) :
    Hashing (message ++ [data]) (sha1Writebyte s data) := by
  obtain ⟨hoffset, hfed⟩ :=
    feeds_sha1AddUncounted.fed (t := { s with byteCount := s.byteCount + 1 })
      (by norm_num) h.offset h.fed data
  refine ⟨hoffset, hfed, ?_⟩
  rw [Sha1.sha1Writebyte, byteCount_sha1AddUncounted, List.length_append, List.length_singleton,
    UInt32.ofNat_add, h.count]
  rfl

theorem Hashing.sha1Write (h : Hashing message s) (data : Bytes) :
    Hashing (message ++ data) (sha1Write s data) := by
  induction data generalizing message s with
  | nil =>
    rw [List.append_nil]
    exact h
  | cons byte data ih =>
    rw [List.append_cons]
    exact ih (h.sha1Writebyte byte)

/-! ### The end of the message -/

theorem zeroStep_eq (_ : s.bufferOffset.toNat < 64) : zeroStep s =
    if (read s).pending.length = 56 then .inl s else .inr (sha1AddUncounted s 0) := by
  have hroom : s.bufferOffset = 56 ↔ (read s).pending.length = 56 := by
    rw [length_pending, ← UInt8.toNat_inj]
    rfl
  rw [zeroStep, ite_not]
  exact if_congr hroom rfl rfl

/-- What every byte leaves alone the loop over the zeros does. -/
theorem run_zeroStep {α : Type*} {f : Sha1nfo → α} (hf : ∀ s, f (sha1AddUncounted s 0) = f s)
    {t : Sha1nfo} {fuel : Nat} (h : Loop.run zeroStep fuel s = some t) : f t = f s := by
  refine Loop.Yields.post (I := fun u => f u = f s) (Q := fun u => f u = f s) ⟨fuel, h⟩ rfl ?_ ?_
  · intro u r hu hstep
    rw [zeroStep] at hstep
    split_ifs at hstep
    cases hstep
    exact hu
  · intro u v hu hstep
    rw [zeroStep] at hstep
    split_ifs at hstep
    cases hstep
    rw [hf, hu]

theorem lengthBytes_eq (byteCount : UInt32) :
    lengthBytes byteCount = Fips180.bigEndian 8 (8 * byteCount.toNat) := by
  have hlt := byteCount.toNat_lt
  simp only [lengthBytes, Fips180.bigEndian, LittleEndian.leBytes, List.reverse_cons,
    List.reverse_nil, List.nil_append, List.cons_append, Nat.div_div_eq_div_mul, List.cons.injEq]
  have hbyte {a : UInt8} {n : Nat} (h : a.toNat = n % 256) : a = UInt8.ofNat n := by
    apply UInt8.toNat_inj.mp
    rw [h, UInt8.toNat_ofNat']
  refine ⟨hbyte ?_, hbyte ?_, hbyte ?_, hbyte ?_, hbyte ?_, hbyte ?_, hbyte ?_, hbyte ?_, trivial⟩
  all_goals simp [Nat.shiftRight_eq_div_pow, Nat.shiftLeft_eq]
  all_goals omega

/-- The message with the padding that `sha1_pad` gives it: the count is that of 32 bits. -/
def padded (message : Bytes) : Bytes :=
  message ++ Fips180.padding message.length (8 * (message.length % 2 ^ 32))

theorem Hashing.sha1Pad (h : Hashing message s) : ∃ s', sha1Pad s = some s' ∧
    stateWords s'.state =
      BlockHash.digest Fips180.Sha1.compress 64 Fips180.Sha1.initial (padded message) := by
  obtain ⟨hoffset, hfed⟩ := feeds_sha1AddUncounted.fed (by norm_num) h.offset h.fed 0x80
  obtain ⟨s', hrun, hoffset, hfed⟩ := feeds_sha1AddUncounted.run_untilRoom
    56 (by norm_num) le_rfl (fun t => zeroStep_eq) hoffset hfed
  obtain ⟨-, hfed⟩ := feeds_sha1AddUncounted.foldl (by norm_num) hoffset hfed
    (lengthBytes s'.byteCount)
  have hcount : s'.byteCount = UInt32.ofNat message.length := by
    rw [run_zeroStep (fun s => byteCount_sha1AddUncounted 0) hrun, byteCount_sha1AddUncounted,
      h.count]
  have hbits : lengthBytes s'.byteCount =
      Fips180.bigEndian 8 (8 * (message.length % 2 ^ 32)) := by
    rw [lengthBytes_eq, hcount, UInt32.toNat_ofNat']
  rw [hbits, Fips180.append_padding] at hfed
  have hstate := hfed.state_eq (Fips180.length_pad_mod message _)
  rw [read_state] at hstate
  refine ⟨_, ?_, hstate⟩
  rw [Sha1.sha1Pad, hrun, Option.bind_eq_bind, Option.bind_some, hbits]

theorem swapWord_eq (x : UInt32) : swapWord x = ((x &&& 0xff) <<< 24) |||
    (((x >>> 8) &&& 0xff) <<< 16) ||| (((x >>> 16) &&& 0xff) <<< 8) ||| ((x >>> 24) &&& 0xff) := by
  apply UInt32.toBitVec_inj.mp
  apply BitVec.eq_of_getLsbD_eq
  intro i hi
  simp only [swapWord, UInt32.toBitVec_or, UInt32.toBitVec_and, UInt32.toBitVec_shiftLeft,
    UInt32.toBitVec_shiftRight]
  interval_cases i <;> simp

theorem toUInt8_toUInt32 (x : UInt32) : x.toUInt8.toUInt32 = x &&& 0xff := by
  apply UInt32.toNat_inj.mp
  simp [show x.toNat &&& 255 = x.toNat % 256 from Nat.and_two_pow_sub_one_eq_mod x.toNat 8]

/-- A word turned around is stored most significant byte first. -/
theorem le32_swapWord (x : UInt32) : le32 (swapWord x) = Fips180.bigEndian 4 x.toNat := by
  have hbyte (k : UInt32) : (x >>> k).toUInt8 = UInt8.ofNat (x.toNat / 2 ^ (k.toNat % 32)) := by
    apply UInt8.toNat_inj.mp
    simp [Nat.shiftRight_eq_div_pow]
  have hlow : x.toUInt8 = UInt8.ofNat x.toNat := by
    apply UInt8.toNat_inj.mp
    simp
  rw [swapWord_eq, ← toUInt8_toUInt32, ← toUInt8_toUInt32, ← toUInt8_toUInt32, ← toUInt8_toUInt32,
    Fips180.word_of_bytes]
  change le32 (get32 _) = _
  rw [LittleEndian.le32_get32 rfl, hlow, hbyte, hbyte, hbyte]
  simp [Fips180.bigEndian, LittleEndian.leBytes, Nat.div_div_eq_div_mul]

/-- The bytes of a union are those of its words. -/
theorem flatMap_unionW {b : Bytes} {n : Nat} (h : 4 * n ≤ b.length) :
    (List.range n).flatMap (fun i => le32 (unionW b i)) = b.take (4 * n) := by
  induction n with
  | zero => rfl
  | succ n ih =>
    have hword : ((b.drop (4 * n)).take 4).length = 4 := by
      rw [List.length_take_of_le (by rw [List.length_drop]; omega)]
    rw [List.range_succ, List.flatMap_append, ih (by omega), List.flatMap_singleton, unionW,
      LittleEndian.le32_get32 hword, Nat.mul_succ, List.take_add]

theorem Hashing.sha1Result (h : Hashing message s) : ∃ s', sha1Result s = some s' ∧
    s'.state = Fips180.output
      (BlockHash.digest Fips180.Sha1.compress 64 Fips180.Sha1.initial (padded message)) := by
  obtain ⟨s', hpad, hstate⟩ := h.sha1Pad
  refine ⟨_, by rw [Sha1.sha1Result, hpad, Option.bind_eq_bind, Option.bind_some], ?_⟩
  have hlength : (mapWords (fun _ => swapWord) 5 s'.state).length = 20 :=
    length_mapState s'.state_length
  have hbytes := flatMap_unionW (b := mapWords (fun _ => swapWord) 5 s'.state) (n := 5) hlength.ge
  rw [List.take_of_length_le hlength.le] at hbytes
  have hwords : (List.range 5).flatMap (fun i => le32 (unionW (mapWords (fun _ => swapWord) 5
      s'.state) i)) = Fips180.output (stateWords s'.state) := by
    have hword := unionW_mapWords (f := fun _ => swapWord) (n := 5) s'.state_length.ge
    simp only [hword, List.range_succ, List.range_zero, List.nil_append, List.cons_append,
      List.flatMap_cons, List.flatMap_nil, Nat.reduceLT, if_true, le32_swapWord, Fips180.output,
      stateWords, List.map_cons, List.map_nil]
  rw [← hstate, ← hwords, hbytes]

theorem hashing_foldl (h : Hashing message s) (chunks : List Bytes) :
    Hashing (message ++ chunks.flatten) (chunks.foldl sha1Write s) := by
  induction chunks generalizing message s with
  | nil =>
    rw [List.flatten_nil, List.append_nil]
    exact h
  | cons chunk chunks ih =>
    rw [List.flatten_cons, ← List.append_assoc]
    exact ih (h.sha1Write chunk)

theorem padded_eq (h : message.length < 2 ^ 32) : padded message = Fips180.pad message := by
  rw [padded, Nat.mod_eq_of_lt h, Fips180.pad]

theorem Hashing.hash_eq (h : Hashing message s) (hlt : message.length < 2 ^ 32) :
    ∃ s', Sha1.sha1Result s = some s' ∧ s'.state = Fips180.Sha1.hash message := by
  obtain ⟨s', hrun, hstate⟩ := h.sha1Result
  rw [padded_eq hlt] at hstate
  exact ⟨s', hrun, hstate⟩

/-- However a message is cut up and whatever the structure held before: the result is the hash of
the message padded with the count of its bytes modulo `2 ^ 32`, which for a shorter one is the
standard's. -/
theorem sha1_stream (s : Sha1nfo) (chunks : List Bytes) :
    (sha1Result (chunks.foldl sha1Write (sha1Init s))).map Sha1nfo.state =
        some (Fips180.output (BlockHash.digest Fips180.Sha1.compress 64 Fips180.Sha1.initial
          (padded chunks.flatten))) ∧
      (chunks.flatten.length < 2 ^ 32 →
        (sha1Result (chunks.foldl sha1Write (sha1Init s))).map Sha1nfo.state =
          some (Fips180.Sha1.hash chunks.flatten)) := by
  have h : Hashing chunks.flatten (chunks.foldl sha1Write (sha1Init s)) :=
    hashing_foldl hashing_sha1Init chunks
  constructor
  · obtain ⟨s', hrun, hstate⟩ := h.sha1Result
    rw [hrun, Option.map_some, hstate]
  · intro hlt
    obtain ⟨s', hrun, hstate⟩ := h.hash_eq hlt
    rw [hrun, Option.map_some, hstate]

/-! ### The keyed code -/

/-- What the hashing leaves alone. -/
def kept (s : Sha1nfo) : Bytes × Bytes := (s.keyBuffer, s.innerHash)

theorem kept_sha1AddUncounted (data : UInt8) : kept (sha1AddUncounted s data) = kept s := by
  have hblock (t : Sha1nfo) : kept (sha1HashBlock t) = kept t := by
    rw [sha1HashBlock, kept, kept]
  rw [kept, kept, sha1AddUncounted]
  simp only [kept, Prod.mk.injEq] at hblock
  split_ifs <;> simp only [hblock]

theorem kept_foldl {put : Sha1nfo → UInt8 → Sha1nfo} (hput : ∀ s data, kept (put s data) = kept s)
    (data : Bytes) : kept (data.foldl put s) = kept s := by
  induction data generalizing s with
  | nil => rfl
  | cons byte data ih => exact ih.trans (hput s byte)

theorem kept_sha1Write (data : Bytes) : kept (sha1Write s data) = kept s :=
  kept_foldl (fun s => kept_sha1AddUncounted (s := { s with byteCount := s.byteCount + 1 })) data

theorem kept_chunks (chunks : List Bytes) : kept (chunks.foldl sha1Write s) = kept s := by
  induction chunks generalizing s with
  | nil => rfl
  | cons chunk chunks ih => exact ih.trans (kept_sha1Write chunk)

theorem kept_sha1Pad {s' : Sha1nfo} (h : sha1Pad s = some s') : kept s' = kept s := by
  obtain ⟨s₁, hrun, hs'⟩ := Option.bind_eq_some_iff.mp h
  have hone : kept s₁ = kept s :=
    (run_zeroStep (fun s => kept_sha1AddUncounted 0) hrun).trans (kept_sha1AddUncounted 0x80)
  have hlast : kept ((lengthBytes s₁.byteCount).foldl sha1AddUncounted s₁) = kept s₁ :=
    kept_foldl (fun _ => kept_sha1AddUncounted) _
  rw [← Option.some.inj hs', hlast, hone]

theorem kept_sha1Result {s' : Sha1nfo} (h : sha1Result s = some s') : kept s' = kept s := by
  obtain ⟨s₁, hpad, hs'⟩ := Option.bind_eq_some_iff.mp h
  rw [← Option.some.inj hs', ← kept_sha1Pad hpad]
  rfl

theorem keyBuffer_eq {s' : Sha1nfo} (h : kept s' = kept s) : s'.keyBuffer = s.keyBuffer :=
  congrArg Prod.fst h

theorem innerHash_eq {s' : Sha1nfo} (h : kept s' = kept s) : s'.innerHash = s.innerHash :=
  congrArg Prod.snd h

/-- The key as it is mixed into the message: a long one is hashed, and zeros fill the block. -/
def shortKey (key : Bytes) : Bytes := if 64 < key.length then Fips180.Sha1.hash key else key

def blockKey (key : Bytes) : Bytes :=
  shortKey key ++ List.replicate (64 - (shortKey key).length) 0

theorem length_shortKey (key : Bytes) : (shortKey key).length ≤ 64 := by
  rw [shortKey]
  split_ifs with hlong
  · rw [Fips180.Sha1.length_hash]
    norm_num
  · exact Nat.le_of_not_lt hlong

theorem length_blockKey (key : Bytes) : (blockKey key).length = 64 := by
  have hshort := length_shortKey key
  rw [blockKey, List.length_append, List.length_replicate]
  omega

theorem fillKeyBuffer_eq {key : Bytes} (hkey : key.length < 2 ^ 32) :
    ∃ s', fillKeyBuffer s key = some s' ∧ s'.keyBuffer = blockKey key := by
  by_cases hlong : 64 < key.length
  · have hhash : Hashing key (sha1Write (sha1Init s) key) := hashing_sha1Init.sha1Write key
    obtain ⟨s₁, hrun, hstate⟩ := hhash.hash_eq hkey
    refine ⟨{ s₁ with keyBuffer := s₁.state ++ (List.replicate 64 0).drop 20 }, ?_, ?_⟩
    · rw [fillKeyBuffer, if_pos hlong, hrun]
      rfl
    · simp only [blockKey, shortKey, if_pos hlong, hstate, Fips180.Sha1.length_hash,
        List.drop_replicate]
  · refine ⟨{ s with keyBuffer := key ++ (List.replicate 64 0).drop key.length }, ?_, ?_⟩
    · rw [fillKeyBuffer, if_neg hlong]
    · simp only [blockKey, shortKey, if_neg hlong, List.drop_replicate]

/-- What `sha1_initHmac` leaves behind. -/
theorem sha1InitHmac_eq {key : Bytes} (hkey : key.length < 2 ^ 32) :
    ∃ s', sha1InitHmac s key = some s' ∧ s'.keyBuffer = blockKey key ∧
      Hashing ((blockKey key).map (· ^^^ hmacIpad)) s' := by
  obtain ⟨s₁, hfill, hbuffer⟩ := fillKeyBuffer_eq (s := s) hkey
  refine ⟨sha1Write (sha1Init s₁) (s₁.keyBuffer.map (· ^^^ hmacIpad)), ?_,
    (keyBuffer_eq (kept_sha1Write _)).trans hbuffer, ?_⟩
  · rw [sha1InitHmac, hfill, Option.bind_eq_bind, Option.bind_some]
  · rw [hbuffer]
    exact hashing_sha1Init.sha1Write _

/-- `sha1_initHmac`, writes, and `sha1_resultHmac`: the keyed code of the standard over the hash of
the standard, for keys and messages whose bytes the count has room for. -/
theorem hmac_stream (s : Sha1nfo) (key : Bytes) (chunks : List Bytes) (hkey : key.length < 2 ^ 31)
    (hlength : 64 + chunks.flatten.length < 2 ^ 32) :
    (do
      let s ← sha1InitHmac s key
      let s ← sha1ResultHmac (chunks.foldl sha1Write s)
      some s.state) = some (Fips180.hmac Fips180.Sha1.hash 64 key chunks.flatten) := by
  obtain ⟨s₁, hinit, hbuffer, hhash⟩ := sha1InitHmac_eq (s := s) (show key.length < 2 ^ 32 by omega)
  have hinner := hashing_foldl hhash chunks
  obtain ⟨s₂, hresult, hstate⟩ := hinner.hash_eq (by
    rw [List.length_append, List.length_map, length_blockKey]
    exact hlength)
  have hbuffer₂ : s₂.keyBuffer = blockKey key :=
    (keyBuffer_eq ((kept_sha1Result hresult).trans (kept_chunks chunks))).trans hbuffer
  set s₃ := sha1Write (sha1Init { s₂ with innerHash := s₂.state })
    (s₂.keyBuffer.map (· ^^^ hmacOpad)) with hs₃
  have hinner₃ : s₃.innerHash = s₂.state := innerHash_eq (kept_sha1Write _)
  have houter : Hashing ((blockKey key).map (· ^^^ hmacOpad) ++ s₂.state)
      (sha1Write s₃ s₃.innerHash) := by
    rw [hinner₃, hs₃, hbuffer₂]
    exact (hashing_sha1Init.sha1Write _).sha1Write _
  obtain ⟨s₄, hresult₄, hstate₄⟩ := houter.hash_eq (by
    rw [List.length_append, List.length_map, length_blockKey, s₂.state_length]
    norm_num)
  have hcode : Fips180.hmac Fips180.Sha1.hash 64 key chunks.flatten = s₄.state := by
    rw [hstate₄, hstate]
    rfl
  rw [hcode, hinit, Option.bind_eq_bind, Option.bind_some, sha1ResultHmac, hresult,
    Option.bind_eq_bind, Option.bind_some]
  simp only [← hs₃]
  rw [hresult₄, Option.bind_some]

/-- The structure in static storage. -/
def zeroed : Sha1nfo :=
  ⟨List.replicate 64 0, 0, List.replicate 20 0, 0, List.replicate 64 0, List.replicate 20 0,
    List.length_replicate, List.length_replicate⟩

theorem hmac_stream_two_writes :
    (do
      let s ← sha1InitHmac zeroed [0x6b, 0x65, 0x79]
      let s ← sha1ResultHmac ([[0x61], [0x62, 0x63]].foldl sha1Write s)
      some s.state) =
      some (Fips180.hmac Fips180.Sha1.hash 64 [0x6b, 0x65, 0x79] [0x61, 0x62, 0x63]) :=
  hmac_stream zeroed [0x6b, 0x65, 0x79] [[0x61], [0x62, 0x63]] (by norm_num) (by norm_num)

end Sha1

end Libtg.Mtx
