import Libtg.Tg.Envelope
import Libtg.Tg.Session

/-!
# Encryption of messages (`tg/encrypt.c`)

The slices of `tg_encrypt` and of `tg_decrypt` are written out twice in the source, with the offsets
of the two directions. A slice is a read at an offset into a block that is zero past the end of the
buffer. `tgEncrypt_eq` and `tgDecrypt_eq` say that for a key of 256 bytes they are the formulas of
the envelope.
-/

namespace Libtg

open LittleEndian

/-- `buf_add (b.data + off, n)`. -/
def readAt (b : Bytes) (off n : Nat) : Bytes := (b.drop off ++ List.replicate n 0).take n

theorem readAt_eq {b : Bytes} {off n : Nat} (h : off + n ≤ b.length) :
    readAt b off n = substr b off n := by
  rw [readAt, substr, List.take_append_of_le_length]
  rw [List.length_drop]
  omega

/-- `tg_encrypt`. -/
def tgEncrypt (C : Crypto) (tg : Tg) (b : Bytes) (enc : Bool) : Bytes :=
  if enc then
    let keyHash := tgHshSha1 C tg.key
    let authKeyId := readAt keyHash 12 8
    let msgKeyLarge := tgHshSha256 C (readAt tg.key 88 32 ++ b)
    let msgKey := readAt msgKeyLarge 8 16
    let sha256A := tgHshSha256 C (msgKey ++ readAt tg.key 0 36)
    let sha256B := tgHshSha256 C (readAt tg.key 40 36 ++ msgKey)
    let aesKey := readAt sha256A 0 8 ++ readAt sha256B 8 16 ++ readAt sha256A 24 8
    let aesIv := readAt sha256B 0 8 ++ readAt sha256A 8 16 ++ readAt sha256B 24 8
    let enc := tgCryAesE C b aesKey aesIv
    authKeyId ++ msgKey ++ enc
  else b

/-- `tg_decrypt`. The sizes are `uint32_t`: taking the 24 bytes of the header off 8 bytes leaves
`2 ^ 32 - 16`, and `AES_ige_encrypt` runs out of the buffer, which is `none` here. -/
def tgDecrypt (C : Crypto) (tg : Tg) (m : Bytes) (enc : Bool) : Option Bytes :=
  if m.length = 0 then some []
  else if enc then
    let keyHash := tgHshSha1 C tg.key
    if get64 (readAt m 0 8) ≠ get64 (readAt keyHash 12 8) then some []
    else
      let msgKey := readAt m 8 16
      let size := UInt32.ofNat m.length - 8 - 16
      if size % 16 ≠ 0 then some []
      else if m.length < 24 then none
      else
        let sha256A := tgHshSha256 C (msgKey ++ readAt tg.key 8 36)
        let sha256B := tgHshSha256 C (readAt tg.key (40 + 8) 36 ++ msgKey)
        let aesKey := readAt sha256A 0 8 ++ readAt sha256B 8 16 ++ readAt sha256A 24 8
        let aesIv := readAt sha256B 0 8 ++ readAt sha256A 8 16 ++ readAt sha256B 24 8
        some (tgCryAesD C (m.drop 24) aesKey aesIv)
  else some m

variable {C : Crypto} {tg : Tg}

theorem readAt_sha256 {b : Bytes} {off n : Nat} (h : off + n ≤ 32) :
    readAt (tgHshSha256 C b) off n = substr (C.sha256 b) off n := by
  have hlen := C.sha256_length b
  have hpad : off + n ≤ (tgHshSha256 C b).length := by
    rw [tgHshSha256, List.length_append]
    omega
  rw [readAt_eq hpad, tgHshSha256, substr, substr, List.drop_append_of_le_length (by omega),
    List.take_append_of_le_length]
  rw [List.length_drop]
  omega

theorem readAt_sha1 : readAt (tgHshSha1 C tg.key) 12 8 = authKeyId C tg.key :=
  readAt_eq (by rw [tgHshSha1, C.sha1_length])

/-- `tg_encrypt` seals with `x = 0`. -/
theorem tgEncrypt_eq (hkey : tg.key.length = 256) (b : Bytes) :
    tgEncrypt C tg b true = sealMessage C tg.key 0 b := by
  have h88 : readAt tg.key 88 32 = substr tg.key 88 32 := readAt_eq (by omega)
  have h0 : readAt tg.key 0 36 = substr tg.key 0 36 := readAt_eq (by omega)
  have h40 : readAt tg.key 40 36 = substr tg.key 40 36 := readAt_eq (by omega)
  simp only [tgEncrypt, if_true, h88, h0, h40, readAt_sha1, tgCryAesE]
  rw [readAt_sha256 (by norm_num), readAt_sha256 (by norm_num), readAt_sha256 (by norm_num),
    readAt_sha256 (by norm_num), readAt_sha256 (by norm_num), readAt_sha256 (by norm_num),
    readAt_sha256 (by norm_num)]
  rfl

/-- The cipher text is whole blocks exactly for these lengths, also where the subtraction of the
header wraps around. -/
theorem cipherSize_iff (l : Nat) : (UInt32.ofNat l - 8 - 16) % 16 ≠ 0 ↔ l % 16 ≠ 8 := by
  have h8 : (8 : UInt32).toNat = 8 := rfl
  have h16 : (16 : UInt32).toNat = 16 := rfl
  have h0 : (0 : UInt32).toNat = 0 := rfl
  rw [ne_eq, ← UInt32.toNat_inj, UInt32.toNat_mod, UInt32.toNat_sub, UInt32.toNat_sub,
    UInt32.toNat_ofNat', h8, h16, h0]
  omega

/-- `tg_decrypt` opens with `x = 8`, after its three checks. -/
theorem tgDecrypt_eq (hkey : tg.key.length = 256) (m : Bytes) :
    tgDecrypt C tg m true =
      if m.length = 0 then some []
      else if get64 (readAt m 0 8) ≠ get64 (authKeyId C tg.key) then some []
      else if m.length % 16 ≠ 8 then some []
      else if m.length < 24 then none
      else some (openMessage C tg.key 8 m) := by
  have h8 : readAt tg.key 8 36 = substr tg.key 8 36 := readAt_eq (by omega)
  have h48 : readAt tg.key (40 + 8) 36 = substr tg.key (40 + 8) 36 := readAt_eq (by omega)
  simp only [tgDecrypt, if_true, h8, h48, readAt_sha1, tgCryAesD, cipherSize_iff]
  refine if_congr Iff.rfl rfl (if_congr Iff.rfl rfl (if_congr Iff.rfl rfl ?_))
  by_cases hlen : m.length < 24
  · rw [if_pos hlen, if_pos hlen]
  · rw [if_neg hlen, if_neg hlen, readAt_eq (b := m) (by omega), readAt_sha256 (by norm_num),
      readAt_sha256 (by norm_num), readAt_sha256 (by norm_num), readAt_sha256 (by norm_num),
      readAt_sha256 (by norm_num), readAt_sha256 (by norm_num)]
    rfl

end Libtg
