import Libtg.Tl.Buf

/-!
# The primitives of libcrypto

`crypto/hsh.c` and `crypto/aes.c` call `SHA1`, `SHA256` and `AES_ige_encrypt`. `Crypto` is any
functions with the output lengths of these, of which encryption and decryption undo each other on
whole blocks. `Crypto.table` builds one from the values at finitely many inputs.
-/

namespace Libtg

structure Crypto where
  sha1 : Bytes → Bytes
  sha256 : Bytes → Bytes
  /-- `AES_ige_encrypt` with `AES_ENCRYPT`: data, key, initialisation vector. -/
  aesIgeE : Bytes → Bytes → Bytes → Bytes
  aesIgeD : Bytes → Bytes → Bytes → Bytes
  sha1_length : ∀ b, (sha1 b).length = 20
  sha256_length : ∀ b, (sha256 b).length = 32
  aesIgeE_length : ∀ b k iv, 16 ∣ b.length → (aesIgeE b k iv).length = b.length
  aesIgeD_length : ∀ b k iv, 16 ∣ b.length → (aesIgeD b k iv).length = b.length
  aesIgeD_aesIgeE : ∀ b k iv, 16 ∣ b.length → k.length = 32 → iv.length = 32 →
    aesIgeD (aesIgeE b k iv) k iv = b
  aesIgeE_aesIgeD : ∀ b k iv, 16 ∣ b.length → k.length = 32 → iv.length = 32 →
    aesIgeE (aesIgeD b k iv) k iv = b

/-- `tg_hsh_sha1`. -/
def tgHshSha1 (C : Crypto) (b : Bytes) : Bytes := C.sha1 b

/-- `tg_hsh_sha256`: the buffer has 256 bytes, of which the hash is the first 32. -/
def tgHshSha256 (C : Crypto) (b : Bytes) : Bytes := C.sha256 b ++ List.replicate 224 0

/-- `tg_cry_aes_e`. -/
def tgCryAesE (C : Crypto) (b k iv : Bytes) : Bytes := C.aesIgeE b k iv

/-- `tg_cry_aes_d`. -/
def tgCryAesD (C : Crypto) (b k iv : Bytes) : Bytes := C.aesIgeD b k iv

/-! ## Primitives from a table of values -/

/-- The `n` bytes of a number as they are written, most significant first. -/
def bigEndian (n v : Nat) : Bytes := (LittleEndian.leBytes n v).reverse

@[simp] theorem bigEndian_length (n v : Nat) : (bigEndian n v).length = n := by
  simp [bigEndian]

/-- The key whose bytes are 0, 1, …, 255, as an example. -/
def countingKey : Bytes := (List.range 256).map UInt8.ofNat

theorem countingKey_length : countingKey.length = 256 := by
  simp [countingKey]

/-- The entry of a table, `n` bytes long. -/
def hashTable (n : Nat) (table : List (Bytes × Bytes)) (b : Bytes) : Bytes :=
  (((table.lookup b).getD []) ++ List.replicate n 0).take n

theorem hashTable_length (n : Nat) (table : List (Bytes × Bytes)) (b : Bytes) :
    (hashTable n table b).length = n := by
  simp [hashTable]

/-- The cipher that takes `p` to `c` under one key, and back; other blocks stay. -/
def swapCipher (p c key iv : Bytes) (b k i : Bytes) : Bytes :=
  if k = key ∧ i = iv then Equiv.swap p c b else b

theorem swapCipher_length {p c key iv : Bytes} (h : p.length = c.length) (b k i : Bytes) :
    (swapCipher p c key iv b k i).length = b.length := by
  rw [swapCipher, Equiv.swap_apply_def]
  split_ifs with _ hp hc
  · rw [hp, h]
  · rw [hc, h]
  · rfl
  · rfl

theorem swapCipher_swapCipher (p c key iv b k i : Bytes) :
    swapCipher p c key iv (swapCipher p c key iv b k i) k i = b := by
  by_cases h : k = key ∧ i = iv
  · simp only [swapCipher, if_pos h, Equiv.swap_apply_self]
  · simp only [swapCipher, if_neg h]

/-- Primitives with the hashes of two tables and one pair of plain and cipher text. -/
def Crypto.table (sha1s sha256s : List (Bytes × Bytes)) (p c key iv : Bytes)
    (h : p.length = c.length) : Crypto where
  sha1 := hashTable 20 sha1s
  sha256 := hashTable 32 sha256s
  aesIgeE := swapCipher p c key iv
  aesIgeD := swapCipher p c key iv
  sha1_length := hashTable_length 20 sha1s
  sha256_length := hashTable_length 32 sha256s
  aesIgeE_length b k i _ := swapCipher_length h b k i
  aesIgeD_length b k i _ := swapCipher_length h b k i
  aesIgeD_aesIgeE b k i _ _ _ := swapCipher_swapCipher p c key iv b k i
  aesIgeE_aesIgeD b k i _ _ _ := swapCipher_swapCipher p c key iv b k i

end Libtg
