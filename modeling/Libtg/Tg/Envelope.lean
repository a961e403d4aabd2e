import Libtg.Tg.Crypto

/-!
# The MTProto 2.0 envelope

The formulas of the comment in `encrypt.c`, as they stand there. `x` is 0 for messages from the
client to the server and 8 for those from the server to the client. A peer that follows them opens
what was sealed with them (`openMessage_sealMessage`).
-/

namespace Libtg

/-- `substr (b, off, n)`. -/
def substr (b : Bytes) (off n : Nat) : Bytes := (b.drop off).take n

theorem substr_length {b : Bytes} {off n : Nat} (h : off + n ≤ b.length) :
    (substr b off n).length = n := by
  simp only [substr, List.length_take, List.length_drop]
  omega

variable (C : Crypto) (authKey : Bytes) (x : Nat)

/-- The 64 lower bits of the SHA-1 of the key. -/
def authKeyId : Bytes := substr (C.sha1 authKey) 12 8

def msgKeyLarge (plaintext : Bytes) : Bytes := C.sha256 (substr authKey (88 + x) 32 ++ plaintext)

def msgKey (plaintext : Bytes) : Bytes := substr (msgKeyLarge C authKey x plaintext) 8 16

def sha256A (msgKey : Bytes) : Bytes := C.sha256 (msgKey ++ substr authKey x 36)

def sha256B (msgKey : Bytes) : Bytes := C.sha256 (substr authKey (40 + x) 36 ++ msgKey)

def aesKey (msgKey : Bytes) : Bytes :=
  substr (sha256A C authKey x msgKey) 0 8 ++ substr (sha256B C authKey x msgKey) 8 16 ++
    substr (sha256A C authKey x msgKey) 24 8

def aesIv (msgKey : Bytes) : Bytes :=
  substr (sha256B C authKey x msgKey) 0 8 ++ substr (sha256A C authKey x msgKey) 8 16 ++
    substr (sha256B C authKey x msgKey) 24 8

/-- The ciphertext a reader finds under a message key, and what it decrypts to. -/
def encryptedData (msgKey plaintext : Bytes) : Bytes :=
  C.aesIgeE plaintext (aesKey C authKey x msgKey) (aesIv C authKey x msgKey)

def decryptedData (msgKey data : Bytes) : Bytes :=
  C.aesIgeD data (aesKey C authKey x msgKey) (aesIv C authKey x msgKey)

/-- `auth_key_id msg_key encrypted_data`. -/
def sealMessage (plaintext : Bytes) : Bytes :=
  authKeyId C authKey ++ msgKey C authKey x plaintext ++
    encryptedData C authKey x (msgKey C authKey x plaintext) plaintext

/-- What the reader of a packet gets. -/
def openMessage (packet : Bytes) : Bytes :=
  decryptedData C authKey x (substr packet 8 16) (packet.drop 24)

variable {C authKey x}

theorem authKeyId_length : (authKeyId C authKey).length = 8 :=
  substr_length (by rw [C.sha1_length])

theorem msgKey_length (plaintext : Bytes) : (msgKey C authKey x plaintext).length = 16 :=
  substr_length (by rw [msgKeyLarge, C.sha256_length]; norm_num)

theorem aesKey_length (msgKey : Bytes) : (aesKey C authKey x msgKey).length = 32 := by
  have ha : (sha256A C authKey x msgKey).length = 32 := C.sha256_length _
  have hb : (sha256B C authKey x msgKey).length = 32 := C.sha256_length _
  simp only [aesKey, List.length_append]
  rw [substr_length (by omega), substr_length (by omega), substr_length (by omega)]

theorem aesIv_length (msgKey : Bytes) : (aesIv C authKey x msgKey).length = 32 := by
  have ha : (sha256A C authKey x msgKey).length = 32 := C.sha256_length _
  have hb : (sha256B C authKey x msgKey).length = 32 := C.sha256_length _
  simp only [aesIv, List.length_append]
  rw [substr_length (by omega), substr_length (by omega), substr_length (by omega)]

theorem decryptedData_encryptedData (msgKey : Bytes) {plaintext : Bytes}
    (h : 16 ∣ plaintext.length) :
    decryptedData C authKey x msgKey (encryptedData C authKey x msgKey plaintext) = plaintext :=
  C.aesIgeD_aesIgeE _ _ _ h (aesKey_length _) (aesIv_length _)

theorem encryptedData_decryptedData (msgKey : Bytes) {data : Bytes} (h : 16 ∣ data.length) :
    encryptedData C authKey x msgKey (decryptedData C authKey x msgKey data) = data :=
  C.aesIgeE_aesIgeD _ _ _ h (aesKey_length _) (aesIv_length _)

/-- The three parts of a packet. -/
theorem packet_parts {i k c : Bytes} (hi : i.length = 8) (hk : k.length = 16) :
    substr (i ++ k ++ c) 0 8 = i ∧ substr (i ++ k ++ c) 8 16 = k ∧ (i ++ k ++ c).drop 24 = c := by
  refine ⟨?_, ?_, ?_⟩
  · rw [substr, List.drop_zero, List.append_assoc, List.take_left' hi]
  · rw [substr, List.append_assoc, List.drop_left' hi, List.take_left' hk]
  · rw [List.drop_left' (by rw [List.length_append, hi, hk])]

theorem openMessage_sealMessage {plaintext : Bytes} (h : 16 ∣ plaintext.length) :
    openMessage C authKey x (sealMessage C authKey x plaintext) = plaintext := by
  obtain ⟨_, hkey, hdata⟩ := packet_parts (c := encryptedData C authKey x
    (msgKey C authKey x plaintext) plaintext)
    (authKeyId_length : (authKeyId C authKey).length = 8)
    (msgKey_length plaintext : (msgKey C authKey x plaintext).length = 16)
  rw [openMessage, sealMessage, hkey, hdata, decryptedData_encryptedData _ h]

end Libtg
