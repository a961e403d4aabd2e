import Libtg.Lib.BigEndian
import Libtg.Lib.Fips180
import Libtg.Mtx.Types
import Libtg.Tg.Envelope
import Libtg.Tl.Serialize

/-!
# The key exchange, seen from the other side

The formulas that stand in the comments of `tgt.c`, and a server that follows them: what it sends in
an exchange, and the secret it gets from the packets of the client. It takes the new nonce as an
argument. A server reads it with its private key from the second packet of the client; anyone else
has to guess.
-/

namespace Libtg.Mtx

open LittleEndian BigEndian

section
variable (newNonce serverNonce : Bytes)

/-- `SHA1(new_nonce + server_nonce) + substr (SHA1(server_nonce + new_nonce), 0, 12)`. -/
def tmpAesKey : Bytes :=
  Fips180.Sha1.hash (newNonce ++ serverNonce) ++
    substr (Fips180.Sha1.hash (serverNonce ++ newNonce)) 0 12

/-- `substr (SHA1(server_nonce + new_nonce), 12, 8) + SHA1(new_nonce + new_nonce) +
substr (new_nonce, 0, 4)`. -/
def tmpAesIv : Bytes :=
  substr (Fips180.Sha1.hash (serverNonce ++ newNonce)) 12 8 ++
    Fips180.Sha1.hash (newNonce ++ newNonce) ++ substr newNonce 0 4

/-- `substr(new_nonce, 0, 8) XOR substr(server_nonce, 0, 8)`. -/
def serverSalt : Bytes :=
  List.zipWith (· ^^^ ·) (substr newNonce 0 8) (substr serverNonce 0 8)

variable {newNonce serverNonce}

theorem length_tmpAesKey : (tmpAesKey newNonce serverNonce).length = 32 := by
  have hsub : (substr (Fips180.Sha1.hash (serverNonce ++ newNonce)) 0 12).length = 12 :=
    substr_length (by rw [Fips180.Sha1.length_hash]; norm_num)
  rw [tmpAesKey, List.length_append, Fips180.Sha1.length_hash, hsub]

theorem length_tmpAesIv (h : 4 ≤ newNonce.length) :
    (tmpAesIv newNonce serverNonce).length = 32 := by
  have hsub : (substr (Fips180.Sha1.hash (serverNonce ++ newNonce)) 12 8).length = 8 :=
    substr_length (by rw [Fips180.Sha1.length_hash])
  have hnonce : (substr newNonce 0 4).length = 4 := substr_length (by omega)
  rw [tmpAesIv, List.length_append, List.length_append, Fips180.Sha1.length_hash, hsub, hnonce]

end

/-- A message without a key, behind the eight zeros for the key, and its length. -/
def plainPacket (msgId : UInt64) (body : Bytes) : Bytes :=
  let message := List.replicate 8 0 ++ (le64 msgId ++ (le32 (UInt32.ofNat body.length) ++ body))
  le32 (UInt32.ofNat message.length) ++ message

theorem length_plainPacket (msgId : UInt64) (body : Bytes) :
    (plainPacket msgId body).length = 24 + body.length := by
  simp only [plainPacket, List.length_append, List.length_replicate, le64_length, le32_length]
  omega

/-- The message in a packet. -/
def packetBody (packet : Bytes) : Bytes := packet.drop 24

theorem packetBody_plainPacket (msgId : UInt64) (body : Bytes) :
    packetBody (plainPacket msgId body) = body := by
  simp only [packetBody, plainPacket, ← List.append_assoc]
  rw [List.drop_left']
  simp only [List.length_append, List.length_replicate, le64_length, le32_length]

/-- The byte string at the beginning. -/
def readString (b : Bytes) : Bytes :=
  if (b.getD 0 0).toNat ≤ 253 then (b.drop 1).take (b.getD 0 0).toNat
  else (b.drop 4).take (leNat ((b.drop 1).take 3))

theorem readString_serializeBytes {x : Bytes} (h : x.length < 2 ^ 24) (rest : Bytes) :
    readString (serializeBytes x ++ rest) = x := by
  rw [serializeBytes]
  by_cases hshort : x.length ≤ 253
  · have hlen : (UInt8.ofNat x.length).toNat = x.length := by
      rw [UInt8.toNat_ofNat']
      omega
    simp only [if_pos hshort, leBytes, List.cons_append, List.nil_append, List.append_assoc,
      readString, List.getD_cons_zero, hlen, List.drop_succ_cons, List.drop_zero, List.take_left]
  · have hlong (rest : Bytes) :
        readString ((0xfe :: leBytes 3 x.length) ++ (x ++ rest)) = x := by
      have hfirst :
          ¬ (((0xfe :: leBytes 3 x.length) ++ (x ++ rest) : Bytes).getD 0 0).toNat ≤ 253 := by
        rw [List.cons_append, List.getD_cons_zero]
        decide
      have hdrop : ((0xfe :: leBytes 3 x.length) ++ (x ++ rest) : Bytes).drop 4 = x ++ rest :=
        List.drop_left' (by simp)
      have htake : (((0xfe :: leBytes 3 x.length) ++ (x ++ rest) : Bytes).drop 1).take 3 =
          leBytes 3 x.length := by
        rw [List.cons_append, List.drop_one, List.tail_cons, List.take_left' (by simp)]
      rw [readString, if_neg hfirst, hdrop, htake, leNat_leBytes_of_lt (by omega), List.take_left]
    rw [if_neg hshort]
    dsimp only
    split_ifs
    · rw [List.append_assoc, List.append_assoc]
      exact hlong _
    · rw [List.append_assoc]
      exact hlong rest

/-! ## A server -/

/-- What a server chooses in an exchange. Its prime takes 256 bytes, and so does, but for two zeros,
the power it sends. -/
structure Server where
  serverNonce : Bytes
  pq : Bytes
  fingerprint : UInt64
  fingerprints : List UInt64
  g : UInt32
  dhPrime : Bytes
  a : Nat
  gA : Bytes
  serverTime : UInt32
  padding : Bytes
  newNonceHash1 : Bytes
  msgId : Nat → UInt64
  serverNonce_length : serverNonce.length = 16
  pq_length : pq.length = 8
  fingerprints_length : fingerprints.length < 12
  dhPrime_length : dhPrime.length = 256
  dhPrime_ne_zero : beNat dhPrime ≠ 0
  gA_length : 254 ≤ gA.length ∧ gA.length ≤ 256
  gA_eq : beNat gA = g.toNat ^ a % beNat dhPrime
  padding_length : padding.length = 8
  newNonceHash1_length : newNonceHash1.length = 16

namespace Server

variable (S : Server) (C : Crypto) (newNonce nonce : Bytes)

/-- `resPQ`. -/
def resPQ : Bytes :=
  le32 idResPQ ++ (nonce ++ (S.serverNonce ++ (serializeBytes S.pq ++ (le32 idVector ++
    (le32 (UInt32.ofNat (S.fingerprints.length + 1)) ++
      (le64 S.fingerprint ++ S.fingerprints.flatMap le64))))))

/-- `server_DH_inner_data`. -/
def innerData : Bytes :=
  le32 idServerDHInnerData ++ (nonce ++ (S.serverNonce ++ (le32 S.g ++
    (serializeBytes S.dhPrime ++ (serializeBytes S.gA ++ le32 S.serverTime)))))

def encryptedAnswer : Bytes :=
  C.aesIgeE (Fips180.Sha1.hash (S.innerData nonce) ++ (S.innerData nonce ++ S.padding))
    (tmpAesKey newNonce S.serverNonce) (tmpAesIv newNonce S.serverNonce)

/-- `server_DH_params_ok`. -/
def serverDHParamsOk : Bytes :=
  le32 idServerDHParamsOk ++ (nonce ++ (S.serverNonce ++
    serializeBytes (S.encryptedAnswer C newNonce nonce)))

/-- `dh_gen_ok`. -/
def dhGenOk : Bytes := le32 idDhGenOk ++ (nonce ++ (S.serverNonce ++ S.newNonceHash1))

/-- What the client encrypted in its last packet, with what follows it. -/
def clientData (packet : Bytes) : Bytes :=
  C.aesIgeD (readString ((packetBody packet).drop 36))
    (tmpAesKey newNonce S.serverNonce) (tmpAesIv newNonce S.serverNonce)

/-- The power of the client, behind a hash, an id, two nonces and `retry_id`. -/
def gB (packet : Bytes) : Nat := beNat (readString ((S.clientData C newNonce packet).drop 64))

/-- The secret, after the last packet of the client. -/
def secret (packet : Bytes) : Nat := S.gB C newNonce packet ^ S.a % beNat S.dhPrime

end Server

/-- The nonce the client sends first. -/
def packetNonce (packet : Bytes) : Bytes := substr (packetBody packet) 4 16

/-- What opens a connection. -/
def intermediate : Bytes := [0xee, 0xee, 0xee, 0xee]

/-! ## Lengths -/

theorem length_serializeBytes_of_short {x : Bytes} (h : x.length ≤ 253) :
    (serializeBytes x).length = (x.length + 4) / 4 * 4 := by
  rw [serializeBytes, if_pos h]
  simp only [List.length_append, leBytes_length, List.length_replicate]
  omega

theorem length_serializeBytes_of_long {x : Bytes} (h : 253 < x.length) :
    (serializeBytes x).length = (x.length + 3) / 4 * 4 + 4 := by
  rw [serializeBytes, if_neg (by omega)]
  dsimp only
  split_ifs with hpad
  · simp only [List.length_append, leBytes_length, List.length_replicate, List.length_singleton]
    omega
  · simp only [List.length_append, leBytes_length, List.length_singleton] at hpad ⊢
    omega

section
variable {S : Server} {C : Crypto} {newNonce nonce : Bytes}

namespace Server

theorem length_pq_string : (serializeBytes S.pq).length = 12 := by
  rw [length_serializeBytes_of_short (by rw [S.pq_length]; norm_num), S.pq_length]

theorem length_dhPrime_string : (serializeBytes S.dhPrime).length = 260 := by
  rw [length_serializeBytes_of_long (by rw [S.dhPrime_length]; norm_num), S.dhPrime_length]

theorem length_gA_string : (serializeBytes S.gA).length = 260 := by
  have hlen := S.gA_length
  rw [length_serializeBytes_of_long (by omega)]
  omega

theorem length_flatMap_le64 (l : List UInt64) : (l.flatMap le64).length = 8 * l.length := by
  induction l with
  | nil => rfl
  | cons v l ih =>
    rw [List.flatMap_cons, List.length_append, le64_length, ih, List.length_cons]
    omega

theorem length_resPQ (h : nonce.length = 16) :
    (S.resPQ nonce).length = 64 + 8 * S.fingerprints.length := by
  simp only [resPQ, List.length_append, le32_length, le64_length, h, S.serverNonce_length,
    length_pq_string, length_flatMap_le64]
  omega

theorem length_innerData (h : nonce.length = 16) : (S.innerData nonce).length = 564 := by
  simp only [innerData, List.length_append, le32_length, h, S.serverNonce_length,
    length_dhPrime_string, length_gA_string]

theorem length_answer (h : nonce.length = 16) :
    (Fips180.Sha1.hash (S.innerData nonce) ++ (S.innerData nonce ++ S.padding)).length = 592 := by
  rw [List.length_append, List.length_append, Fips180.Sha1.length_hash, length_innerData h,
    S.padding_length]

theorem length_encryptedAnswer (h : nonce.length = 16) :
    (S.encryptedAnswer C newNonce nonce).length = 592 := by
  rw [encryptedAnswer, C.aesIgeE_length _ _ _ (by rw [length_answer h]; norm_num),
    length_answer h]

theorem length_serverDHParamsOk (h : nonce.length = 16) :
    (S.serverDHParamsOk C newNonce nonce).length = 632 := by
  have hlen : (serializeBytes (S.encryptedAnswer C newNonce nonce)).length = 596 := by
    rw [length_serializeBytes_of_long, length_encryptedAnswer h]
    rw [length_encryptedAnswer h]
    norm_num
  simp only [serverDHParamsOk, List.length_append, le32_length, h, S.serverNonce_length, hlen]

theorem length_dhGenOk (h : nonce.length = 16) : (S.dhGenOk nonce).length = 52 := by
  simp only [dhGenOk, List.length_append, le32_length, h, S.serverNonce_length,
    S.newNonceHash1_length]

/-- Who has the keys reads the answer. -/
theorem decrypt_encryptedAnswer (hnew : 4 ≤ newNonce.length) (h : nonce.length = 16) :
    C.aesIgeD (S.encryptedAnswer C newNonce nonce) (tmpAesKey newNonce S.serverNonce)
      (tmpAesIv newNonce S.serverNonce) =
      Fips180.Sha1.hash (S.innerData nonce) ++ (S.innerData nonce ++ S.padding) :=
  C.aesIgeD_aesIgeE _ _ _ (by rw [length_answer h]; norm_num) length_tmpAesKey
    (length_tmpAesIv hnew)

end Server

end

end Libtg.Mtx
