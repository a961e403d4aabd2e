import Libtg.Tg.Encrypt

/-!
# Receiving a message

`receive_inverts` composes `tg_decrypt` and `tg_deheader`: what the server sealed is read back, and
the session changes in its salt and its pending acknowledgements only. `acceptsGenuine_iff` is about
the packets nobody sealed: `tg_decrypt` compares no message key, so of the packets that pass its
checks on key id and length exactly those of the server carry the message key of their plaintext.
-/

namespace Libtg

open LittleEndian

variable {C : Crypto} {tg : Tg}

/-! ## The server's packets -/

/-- What the server encrypts: the session id is the client's. -/
structure ServerMessage where
  salt : UInt64
  msgId : UInt64
  seqno : UInt32
  data : Bytes
  padding : Bytes
  data_lt : data.length < 2 ^ 32
  blocks : 16 ∣ 32 + data.length + padding.length

/-- `salt ++ session id ++ msg_id ++ seqno ++ LE32(n) ++ data ++ padding`. -/
def ServerMessage.plaintext (m : ServerMessage) (ssid : Bytes) : Bytes :=
  le64 m.salt ++ ssid ++ le64 m.msgId ++ le32 m.seqno ++ le32 (UInt32.ofNat m.data.length) ++
    m.data ++ m.padding

theorem ServerMessage.plaintext_length (m : ServerMessage) {ssid : Bytes} (h : ssid.length = 8) :
    (m.plaintext ssid).length = 32 + m.data.length + m.padding.length := by
  simp only [plaintext, List.length_append, le64_length, le32_length, h]

/-- A packet of the server passes the checks of `tg_decrypt`. -/
theorem tgDecrypt_sealMessage (hkey : tg.key.length = 256) {plaintext : Bytes}
    (h : 16 ∣ plaintext.length) :
    tgDecrypt C tg (sealMessage C tg.key 8 plaintext) true = some plaintext := by
  have hid : (authKeyId C tg.key).length = 8 := authKeyId_length
  have hmk : (msgKey C tg.key 8 plaintext).length = 16 := msgKey_length plaintext
  have hdata : (encryptedData C tg.key 8 (msgKey C tg.key 8 plaintext) plaintext).length =
      plaintext.length := C.aesIgeE_length _ _ _ h
  have hlen : (sealMessage C tg.key 8 plaintext).length = 24 + plaintext.length := by
    rw [sealMessage, List.length_append, List.length_append, hid, hmk, hdata]
  have hfirst : readAt (sealMessage C tg.key 8 plaintext) 0 8 = authKeyId C tg.key := by
    rw [readAt_eq (by omega), sealMessage]
    exact (packet_parts hid hmk).1
  rw [tgDecrypt_eq hkey, if_neg (by omega), hfirst, if_neg (by simp), if_neg (by omega),
    if_neg (by omega), openMessage_sealMessage h]

/-- `tg_deheader` of what the server encrypted. -/
theorem tgDeheader_plaintext (m : ServerMessage) {ssid : Bytes} (hssid : ssid.length = 8) :
    tgDeheader tg (m.plaintext ssid) true =
      some (m.data, { tg with salt := le64 m.salt, msgids := tg.msgids ++ [m.msgId] }) := by
  have hlen := m.plaintext_length hssid
  have hdata : (UInt32.ofNat m.data.length).toNat = m.data.length := by
    rw [UInt32.toNat_ofNat', Nat.mod_eq_of_lt m.data_lt]
  have hplain : m.plaintext ssid = le64 m.salt ++ (le64 (get64 ssid) ++ (le64 m.msgId ++
      (le32 m.seqno ++ (le32 (UInt32.ofNat m.data.length) ++ (m.data ++ m.padding))))) := by
    simp only [ServerMessage.plaintext, List.append_assoc, le64_get64 hssid]
  rw [tgDeheader, if_neg (by omega), if_pos rfl, hplain]
  simp only [(consumes_deserializeUi64 _).eq, (consumes_deserializeUi32 _).eq, Option.bind_eq_bind,
    Option.bind_some, hdata, (consumes_deserializeBuf rfl).eq]
  rfl

/-- The client reads what the server sent, and changes nothing in the session but the salt and the
acknowledgements. -/
theorem receive_inverts (C : Crypto) (tg : Tg) (hkey : tg.key.length = 256)
    (hssid : tg.ssid.length = 8) (m : ServerMessage) :
    ((tgDecrypt C tg (sealMessage C tg.key 8 (m.plaintext tg.ssid)) true).bind fun d =>
      tgDeheader tg d true) =
      some (m.data, { tg with salt := le64 m.salt, msgids := tg.msgids ++ [m.msgId] }) := by
  have hblocks : 16 ∣ (m.plaintext tg.ssid).length := by
    rw [m.plaintext_length hssid]
    exact m.blocks
  rw [tgDecrypt_sealMessage hkey hblocks, Option.bind_some, tgDeheader_plaintext m hssid]

/-- The `pong` to a `ping`, as the server sends it. -/
def pong : ServerMessage where
  salt := 0x0909090909090909
  msgId := 0x6600000000000001
  seqno := 3
  data := le32 0x347773c5 ++ le64 0x6600000000000000 ++ le64 5
  padding := List.replicate 12 7
  data_lt := by decide
  blocks := by decide

def pongTg : Tg := ⟨countingKey, List.replicate 8 1, List.replicate 8 2, 1, [], [], 0, 1⟩

def pongPlaintext : Bytes :=
  bigEndian 64 0x0909090909090909020202020202020201000000000000660300000014000000c573773400000000000000660500000000000000070707070707070707070707

def pongMsgKey : Bytes := bigEndian 16 0x5ff78e84ad08fcacc3127c789d471dee

/-- The values of the primitives in the receiving of that `pong`. -/
def pongCrypto : Crypto :=
  .table [(countingKey, bigEndian 20 0x4916d6bdb7f78e6803698cab32d1586ea457dfc8)]
    [(substr countingKey 96 32 ++ pongPlaintext,
        bigEndian 32 0xe71c4158f3a930835ff78e84ad08fcacc3127c789d471dee33e076c3944246ab),
      (pongMsgKey ++ substr countingKey 8 36,
        bigEndian 32 0x2e914f920c944a29d87f781b5a3f8436f8f95c6f61f6b3665b8430560ed208c3),
      (substr countingKey 48 36 ++ pongMsgKey,
        bigEndian 32 0x20196193c53c442aadc379eb3363288cd85e6a388f5888745164204c447801e7)]
    pongPlaintext
    (bigEndian 64 0x25cb2c94c98c264c3825a4599b27f4c384bc219bfa8d77912b7e4c7fd02566179174599ffa375c1cc776dedb1d8cc259119b87f739f425aa16c3fe2b7c598886)
    (bigEndian 32 0x2e914f920c944a29adc379eb3363288cd85e6a388f5888745b8430560ed208c3)
    (bigEndian 32 0x20196193c53c442ad87f781b5a3f8436f8f95c6f61f6b3665164204c447801e7)
    (by simp [pongPlaintext])

theorem receive_inverts_pong :
    ((tgDecrypt pongCrypto pongTg
        (sealMessage pongCrypto pongTg.key 8 (pong.plaintext pongTg.ssid)) true).bind fun d =>
      tgDeheader pongTg d true) =
      some (pong.data,
        { pongTg with salt := le64 pong.salt, msgids := pongTg.msgids ++ [pong.msgId] }) :=
  receive_inverts pongCrypto pongTg countingKey_length rfl pong

/-! ## Packets the server did not send -/

/-- `tg_decrypt` returns an empty buffer, or a plaintext whose message key the packet carries. -/
def AcceptsGenuine (C : Crypto) (tg : Tg) (packet : Bytes) : Prop :=
  ∃ d, tgDecrypt C tg packet true = some d ∧
    (d = [] ∨ msgKey C tg.key 8 d = substr packet 8 16)

theorem readAt_zero {packet : Bytes} (h : 8 ≤ packet.length) :
    readAt packet 0 8 = packet.take 8 := by
  rw [readAt_eq (by omega), substr, List.drop_zero]

theorem get64_inj {b b' : Bytes} (hb : b.length = 8) (hb' : b'.length = 8)
    (h : get64 b = get64 b') : b = b' := by
  rw [← le64_get64 hb, h, le64_get64 hb']

/-- A packet with the key id whose message key is that of its plaintext is one the server built. -/
theorem sealMessage_openMessage {packet : Bytes} (hlen : 24 ≤ packet.length)
    (hblocks : packet.length % 16 = 8) (hid : packet.take 8 = authKeyId C tg.key)
    (hmk : msgKey C tg.key 8 (openMessage C tg.key 8 packet) = substr packet 8 16) :
    sealMessage C tg.key 8 (openMessage C tg.key 8 packet) = packet := by
  have hdata : 16 ∣ (packet.drop 24).length := by
    rw [List.length_drop]
    omega
  rw [sealMessage, hmk, openMessage, encryptedData_decryptedData _ hdata, ← hid, substr]
  have hdrop : packet.drop 24 = (packet.drop 8).drop 16 := by rw [List.drop_drop]
  rw [hdrop, List.append_assoc, List.take_append_drop, List.take_append_drop]

/-- `tg_decrypt` keeps to genuine plaintexts exactly on the packets it refuses and on those the
server built. -/
theorem acceptsGenuine_iff (C : Crypto) (tg : Tg) (hkey : tg.key.length = 256) (packet : Bytes) :
    AcceptsGenuine C tg packet ↔
      packet = [] ∨ get64 (readAt packet 0 8) ≠ get64 (authKeyId C tg.key) ∨
      packet.length % 16 ≠ 8 ∨ packet.length = 24 ∨
      ∃ d, 16 ∣ d.length ∧ packet = sealMessage C tg.key 8 d := by
  have hid : (authKeyId C tg.key).length = 8 := authKeyId_length
  constructor
  · rintro ⟨d, hd, hgenuine⟩
    rw [tgDecrypt_eq hkey] at hd
    by_cases hnil : packet = []
    · exact .inl hnil
    rw [if_neg (by simpa using hnil)] at hd
    by_cases hkeyId : get64 (readAt packet 0 8) = get64 (authKeyId C tg.key)
    swap
    · exact .inr (.inl hkeyId)
    rw [if_neg (by simpa using hkeyId)] at hd
    by_cases hblocks : packet.length % 16 = 8
    swap
    · exact .inr (.inr (.inl hblocks))
    rw [if_neg (by simpa using hblocks)] at hd
    split_ifs at hd with hlen
    cases hd
    have hdlen : (openMessage C tg.key 8 packet).length = packet.length - 24 := by
      rw [openMessage, decryptedData, C.aesIgeD_length _ _ _ (by rw [List.length_drop]; omega),
        List.length_drop]
    rcases hgenuine with hempty | hmk
    · rw [hempty, List.length_nil] at hdlen
      exact .inr (.inr (.inr (.inl (by omega))))
    · refine .inr (.inr (.inr (.inr ⟨_, by omega, (sealMessage_openMessage (by omega) hblocks ?_
        hmk).symm⟩)))
      rw [readAt_zero (by omega)] at hkeyId
      exact get64_inj (by rw [List.length_take]; omega) hid hkeyId
  · rintro (rfl | hkeyId | hblocks | hlen | ⟨d, hd, rfl⟩)
    · exact ⟨[], rfl, .inl rfl⟩
    · refine ⟨[], ?_, .inl rfl⟩
      rw [tgDecrypt_eq hkey, if_pos hkeyId]
      split_ifs <;> rfl
    · refine ⟨[], ?_, .inl rfl⟩
      rw [tgDecrypt_eq hkey, if_pos hblocks]
      split_ifs <;> rfl
    · have hdrop : (packet.drop 24).length = 0 := by rw [List.length_drop, hlen]
      have hopen : openMessage C tg.key 8 packet = [] := by
        rw [← List.length_eq_zero_iff, openMessage, decryptedData,
          C.aesIgeD_length _ _ _ (by rw [hdrop]; exact dvd_zero 16), hdrop]
      refine ⟨[], ?_, .inl rfl⟩
      rw [tgDecrypt_eq hkey, hopen, if_neg (show ¬ packet.length % 16 ≠ 8 by omega),
        if_neg (show ¬ packet.length < 24 by omega)]
      split_ifs <;> rfl
    · refine ⟨d, tgDecrypt_sealMessage hkey hd, .inr ?_⟩
      have hmk : (msgKey C tg.key 8 d).length = 16 := msgKey_length d
      rw [sealMessage, (packet_parts hid hmk).2.1]

/-- What `tg_decrypt` makes of 32 zero bytes under a message key of zeros. -/
def forgedPlaintext : Bytes :=
  bigEndian 32 0x47c51cebda2b967500cd42822a9c9924dadf6b293d98dab970b3a0b173ecc6a1

/-- The values of the primitives in the receiving of that packet. -/
def forgedCrypto : Crypto :=
  .table [(countingKey, bigEndian 20 0x4916d6bdb7f78e6803698cab32d1586ea457dfc8)]
    [(substr countingKey 96 32 ++ forgedPlaintext,
        bigEndian 32 0x00d6e41ce3b94361a4f98bf420e9015597a1ec69acb0593853dd18bf063dee44),
      (List.replicate 16 0 ++ substr countingKey 8 36,
        bigEndian 32 0xb9aaf85b75a36695d2bb2db85e8033674f190d0cb000cbf89ff243e293788368),
      (substr countingKey 48 36 ++ List.replicate 16 0,
        bigEndian 32 0xd7edca048c97d83872164550e044669417da504a70535a232a9fe8ed1adcc684)]
    forgedPlaintext (List.replicate 32 0)
    (bigEndian 32 0xb9aaf85b75a3669572164550e044669417da504a70535a239ff243e293788368)
    (bigEndian 32 0xd7edca048c97d838d2bb2db85e8033674f190d0cb000cbf82a9fe8ed1adcc684)
    (by simp [forgedPlaintext])

/-- The key id, then zeros only. -/
def forgedPacket : Bytes := bigEndian 8 0x32d1586ea457dfc8 ++ List.replicate 48 0

theorem acceptsGenuine_counterexample : ¬ AcceptsGenuine forgedCrypto pongTg forgedPacket := by
  rintro ⟨d, hd, hgenuine⟩
  have hrun : tgDecrypt forgedCrypto pongTg forgedPacket true = some forgedPlaintext := by
    decide +kernel
  cases hrun.symm.trans hd
  rcases hgenuine with h | h
  · exact absurd h (by decide)
  · exact absurd h (by decide +kernel)

theorem acceptsGenuine_iff_forged :
    AcceptsGenuine forgedCrypto pongTg forgedPacket ↔
      forgedPacket = [] ∨
      get64 (readAt forgedPacket 0 8) ≠ get64 (authKeyId forgedCrypto pongTg.key) ∨
      forgedPacket.length % 16 ≠ 8 ∨ forgedPacket.length = 24 ∨
      ∃ d, 16 ∣ d.length ∧ forgedPacket = sealMessage forgedCrypto pongTg.key 8 d :=
  acceptsGenuine_iff forgedCrypto pongTg countingKey_length forgedPacket

end Libtg
