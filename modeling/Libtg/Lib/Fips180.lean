import Libtg.Lib.BlockHash
import Libtg.Lib.LittleEndian

/-!
# The secure hash standard

SHA-1 and SHA-256 as FIPS 180-4 writes them down: the message schedule is a recurrence over all
words of the schedule, a round shifts all registers by one, and the message is padded to blocks of
64 bytes before the first of them is compressed. The constants of SHA-256 are the fractional parts
of roots of primes. `hmac` is the keyed code of FIPS 198-1 over a hash.
-/

namespace Fips180

abbrev Word := UInt32

def rotl (n : Nat) (x : Word) : Word := ⟨x.toBitVec.rotateLeft n⟩

def rotr (n : Nat) (x : Word) : Word := ⟨x.toBitVec.rotateRight n⟩

def ch (x y z : Word) : Word := (x &&& y) ^^^ (~~~x &&& z)

def parity (x y z : Word) : Word := x ^^^ y ^^^ z

def maj (x y z : Word) : Word := (x &&& y) ^^^ (x &&& z) ^^^ (y &&& z)

/-! ### Padding and parsing -/

/-- The `n` bytes of a number, most significant first. -/
def bigEndian (n v : Nat) : List UInt8 := (LittleEndian.leBytes n v).reverse

@[simp] theorem bigEndian_length (n v : Nat) : (bigEndian n v).length = n := by
  simp [bigEndian]

theorem bigEndian_mod (n v : Nat) : bigEndian n (v % 256 ^ n) = bigEndian n v := by
  rw [bigEndian, LittleEndian.leBytes_mod, bigEndian]

/-- A one bit, zeros up to the last 8 bytes of a block, and the count of bits. -/
def padding (len bits : Nat) : List UInt8 :=
  0x80 :: List.replicate (BlockHash.zeros 64 56 (len + 1)) 0 ++ bigEndian 8 bits

def pad (message : List UInt8) : List UInt8 :=
  message ++ padding message.length (8 * message.length)

theorem length_padding (len bits : Nat) : (len + (padding len bits).length) % 64 = 0 := by
  have hroom := BlockHash.add_zeros_mod (len + 1) (show 56 < 64 by norm_num)
  rw [padding, List.length_append, List.length_cons, List.length_replicate, bigEndian_length]
  omega

theorem append_padding (message : List UInt8) (bits : Nat) :
    message ++ [0x80] ++ List.replicate (BlockHash.zeros 64 56 (message ++ [0x80]).length) 0 ++
      bigEndian 8 bits = message ++ padding message.length bits := by
  simp only [padding, List.length_append, List.length_singleton, List.append_assoc,
    List.cons_append, List.nil_append]

theorem length_pad_mod (message : List UInt8) (bits : Nat) :
    (message ++ padding message.length bits).length % 64 = 0 := by
  rw [List.length_append, length_padding]

/-- The words of a block, most significant byte first. -/
def word (block : List UInt8) (t : Nat) : Word :=
  UInt32.ofNat (LittleEndian.leNat ((block.drop (4 * t)).take 4).reverse)

/-- Four bytes put in their places. -/
theorem word_of_bytes (a b c d : UInt8) :
    (a.toUInt32 <<< 24) ||| (b.toUInt32 <<< 16) ||| (c.toUInt32 <<< 8) ||| d.toUInt32 =
      UInt32.ofNat (LittleEndian.leNat [d, c, b, a]) := by
  have ha := a.toNat_lt
  have hb := b.toNat_lt
  have hc := c.toNat_lt
  have hd := d.toNat_lt
  have hlow : c.toNat <<< 8 ||| d.toNat = c.toNat * 2 ^ 8 + d.toNat := by
    rw [← Nat.shiftLeft_add_eq_or_of_lt hd, Nat.shiftLeft_eq]
  have hmid : b.toNat <<< 16 ||| (c.toNat * 2 ^ 8 + d.toNat) =
      b.toNat * 2 ^ 16 + (c.toNat * 2 ^ 8 + d.toNat) := by
    rw [← Nat.shiftLeft_add_eq_or_of_lt (by omega), Nat.shiftLeft_eq]
  have hhigh : a.toNat <<< 24 ||| (b.toNat * 2 ^ 16 + (c.toNat * 2 ^ 8 + d.toNat)) =
      a.toNat * 2 ^ 24 + (b.toNat * 2 ^ 16 + (c.toNat * 2 ^ 8 + d.toNat)) := by
    rw [← Nat.shiftLeft_add_eq_or_of_lt (by omega), Nat.shiftLeft_eq]
  have hin {x k : Nat} (h : x * 2 ^ k < 4294967296) : x <<< k % 4294967296 = x <<< k := by
    rw [Nat.shiftLeft_eq, Nat.mod_eq_of_lt h]
  apply UInt32.toNat_inj.mp
  simp only [UInt32.toNat_or, UInt32.toNat_shiftLeft, UInt8.toNat_toUInt32, UInt32.reduceToNat,
    Nat.reduceMod, Nat.reducePow, UInt32.toNat_ofNat', LittleEndian.leNat]
  rw [hin (by omega), hin (by omega), hin (by omega), Nat.or_assoc, Nat.or_assoc, hlow, hmid, hhigh]
  omega

/-- A state, written word after word. -/
def output (state : List Word) : List UInt8 := state.flatMap fun h => bigEndian 4 h.toNat

theorem length_output (state : List Word) : (output state).length = 4 * state.length := by
  simp only [output, List.length_flatMap, bigEndian_length, List.map_const', List.sum_replicate,
    smul_eq_mul]
  exact Nat.mul_comm _ _

/-! ### SHA-1 -/

namespace Sha1

def initial : List Word := [0x67452301, 0xefcdab89, 0x98badcfe, 0x10325476, 0xc3d2e1f0]

structure Working where
  a : Word
  b : Word
  c : Word
  d : Word
  e : Word

def schedule (block : List UInt8) (t : Nat) : Word :=
  if t < 16 then word block t
  else
    rotl 1 (schedule block (t - 3) ^^^ schedule block (t - 8) ^^^ schedule block (t - 14) ^^^
      schedule block (t - 16))

theorem schedule_low {block : List UInt8} {t : Nat} (h : t < 16) :
    schedule block t = word block t := by
  rw [schedule, if_pos h]

theorem schedule_high {block : List UInt8} {t : Nat} (h : 16 ≤ t) : schedule block t =
    rotl 1 (schedule block (t - 3) ^^^ schedule block (t - 8) ^^^ schedule block (t - 14) ^^^
      schedule block (t - 16)) := by
  rw [schedule, if_neg (Nat.not_lt.mpr h)]

def f (t : Nat) : Word → Word → Word → Word :=
  if t < 20 then ch else if t < 40 then parity else if t < 60 then maj else parity

def k (t : Nat) : Word :=
  if t < 20 then 0x5a827999 else if t < 40 then 0x6ed9eba1
  else if t < 60 then 0x8f1bbcdc else 0xca62c1d6

def round (block : List UInt8) (x : Working) (t : Nat) : Working where
  a := rotl 5 x.a + f t x.b x.c x.d + x.e + k t + schedule block t
  b := x.a
  c := rotl 30 x.b
  d := x.c
  e := x.d

def compress (state : List Word) (block : List UInt8) : List Word :=
  let x := (List.range 80).foldl (round block)
    ⟨state.getD 0 0, state.getD 1 0, state.getD 2 0, state.getD 3 0, state.getD 4 0⟩
  List.zipWith (· + ·) state [x.a, x.b, x.c, x.d, x.e]

def hash (message : List UInt8) : List UInt8 :=
  output (BlockHash.digest compress 64 initial (pad message))

theorem length_hash (message : List UInt8) : (hash message).length = 20 := by
  have hlength : (BlockHash.digest compress 64 initial (pad message)).length = 5 :=
    BlockHash.digest_invariant (P := fun state : List Word => state.length = 5) rfl
      fun state block hstate => by simp [compress, hstate]
  rw [hash, length_output, hlength]

end Sha1

/-! ### SHA-256 -/

namespace Sha256

/-- The greatest `x` below `2 ^ bits` that is added to `acc` without passing the `e`-th root of
`n`. -/
def rootFrom (e n : Nat) : Nat → Nat → Nat
  | 0, acc => acc
  | bits + 1, acc => rootFrom e n bits (if (acc + 2 ^ bits) ^ e ≤ n then acc + 2 ^ bits else acc)

/-- The first 32 bits of the fractional part of the `e`-th root of `p`. -/
def fractional (e p : Nat) : Word := UInt32.ofNat (rootFrom e (p * 2 ^ (32 * e)) 40 0)

def primes : List Nat :=
  [2, 3, 5, 7, 11, 13, 17, 19, 23, 29, 31, 37, 41, 43, 47, 53, 59, 61, 67, 71, 73, 79, 83, 89, 97,
    101, 103, 107, 109, 113, 127, 131, 137, 139, 149, 151, 157, 163, 167, 173, 179, 181, 191, 193,
    197, 199, 211, 223, 227, 229, 233, 239, 241, 251, 257, 263, 269, 271, 277, 281, 283, 293, 307,
    311]

/-- The square roots of the first eight primes. -/
def initial : List Word := (primes.take 8).map (fractional 2)

/-- The cube roots of the first sixty-four primes. -/
def constants : List Word := primes.map (fractional 3)

def bigSigma0 (x : Word) : Word := rotr 2 x ^^^ rotr 13 x ^^^ rotr 22 x

def bigSigma1 (x : Word) : Word := rotr 6 x ^^^ rotr 11 x ^^^ rotr 25 x

def sigma0 (x : Word) : Word := rotr 7 x ^^^ rotr 18 x ^^^ (x >>> 3)

def sigma1 (x : Word) : Word := rotr 17 x ^^^ rotr 19 x ^^^ (x >>> 10)

def schedule (block : List UInt8) (t : Nat) : Word :=
  if t < 16 then word block t
  else
    sigma1 (schedule block (t - 2)) + schedule block (t - 7) + sigma0 (schedule block (t - 15)) +
      schedule block (t - 16)

theorem schedule_low {block : List UInt8} {t : Nat} (h : t < 16) :
    schedule block t = word block t := by
  rw [schedule, if_pos h]

theorem schedule_high {block : List UInt8} {t : Nat} (h : 16 ≤ t) : schedule block t =
    sigma1 (schedule block (t - 2)) + schedule block (t - 7) + sigma0 (schedule block (t - 15)) +
      schedule block (t - 16) := by
  rw [schedule, if_neg (Nat.not_lt.mpr h)]

structure Working where
  a : Word
  b : Word
  c : Word
  d : Word
  e : Word
  f : Word
  g : Word
  h : Word

/-- One round, with the constant and the word of the schedule added up. -/
def roundWith (kw : Word) (x : Working) : Working :=
  let t1 := x.h + bigSigma1 x.e + ch x.e x.f x.g + kw
  let t2 := bigSigma0 x.a + maj x.a x.b x.c
  ⟨t1 + t2, x.a, x.b, x.c, x.d + t1, x.e, x.f, x.g⟩

def round (block : List UInt8) (x : Working) (t : Nat) : Working :=
  roundWith (constants.getD t 0 + schedule block t) x

def compress (state : List Word) (block : List UInt8) : List Word :=
  let x := (List.range 64).foldl (round block)
    ⟨state.getD 0 0, state.getD 1 0, state.getD 2 0, state.getD 3 0, state.getD 4 0,
      state.getD 5 0, state.getD 6 0, state.getD 7 0⟩
  List.zipWith (· + ·) state [x.a, x.b, x.c, x.d, x.e, x.f, x.g, x.h]

def hash (message : List UInt8) : List UInt8 :=
  output (BlockHash.digest compress 64 initial (pad message))

end Sha256

/-! ### Keyed hashing -/

/-- The code of FIPS 198-1 over a hash with blocks of `n` bytes: a long key is hashed first. -/
def hmac (hash : List UInt8 → List UInt8) (n : Nat) (key message : List UInt8) : List UInt8 :=
  let short := if n < key.length then hash key else key
  let k0 := short ++ List.replicate (n - short.length) 0
  hash (k0.map (· ^^^ 0x5c) ++ hash (k0.map (· ^^^ 0x36) ++ message))

end Fips180
