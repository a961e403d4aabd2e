import Libtg.Mtx.Handshake
import Libtg.Tg.PrepareQuery
import Libtg.Tg.Receive
import Libtg.Tg.SendQuery

/-!
# The first query

`tg_send` takes the key and the salt of `shared_rc` over as they are, while the server has a key of
256 bytes. They are the same key unless its first byte is zero, and if they are, the two understand
each other (`firstQuery_answered`).
-/

namespace Libtg.Mtx

open LittleEndian BigEndian Exec

/-- What `tg` finds in `shared_rc`. -/
def Client.account (c : Client) : SendQuery.SharedRc where
  key := c.sharedRc.key.bytes
  salt := c.sharedRc.salt.bytes
  sockfd := c.sharedRc.sockfd.toNat
  seqnh := c.sharedRc.seqnh

/-- The session in which `tg_send` prepares its query. -/
def keyed (E : Env) (rc : SendQuery.SharedRc) (tg : Tg) : Tg :=
  let tg := if tg.key.length = 0 then
    { tg with key := rc.key, salt := rc.salt, seqn := rc.seqnh + 1 } else tg
  let tg := if tg.ssid.length = 0 then { tg with ssid := Libtg.bufRand E 8 } else tg
  if tg.salt.length = 0 then { tg with salt := Libtg.bufRand E 8 } else tg

/-- The key of the server. -/
def Server.authKey (S : Server) (C : Crypto) (packet : Bytes) : Bytes :=
  bigEndian 256 (S.secret C newNonce packet)

variable {W : World} {S : Server} {n e : Nat} {p q : UInt32} {s : Client} {E : Env} {tg : Tg}
  {rc : SendQuery.SharedRc} {C : Crypto} {readNonce verdict : Bytes → Bytes}

/-- The query of `tg_send` is prepared in that session. -/
theorem tgSend_keyed (V : SendQuery.World) (A : SendQuery.Attempt) (tg : Tg) (query : Bytes)
    (socket : Nat) :
    (SendQuery.tgSend V A tg query socket).2.2 =
      (tgPrepareQuery V.crypto V.env query true 0 (keyed V.env A.sharedRc tg)).2 := by
  simp only [SendQuery.tgSend, keyed]
  split_ifs <;> rfl

theorem keyed_key (hkey : tg.key = []) : (keyed E rc tg).key = rc.key := by
  simp only [keyed, hkey, List.length_nil, if_true]
  split_ifs <;> rfl

theorem keyed_salt (hkey : tg.key = []) (hsalt : rc.salt.length = 8) :
    (keyed E rc tg).salt = rc.salt := by
  have hne : ¬ rc.salt.length = 0 := by omega
  simp only [keyed, hkey, List.length_nil, if_true]
  split_ifs <;> rfl

theorem length_keyed_ssid (hkey : tg.key = []) (hssid : tg.ssid = [] ∨ tg.ssid.length = 8) :
    (keyed E rc tg).ssid.length = 8 := by
  rcases hssid with hnil | hlen
  · simp only [keyed, hkey, hnil, List.length_nil, if_true]
    split_ifs <;> exact bufRand_length E 8
  · have hne : ¬ tg.ssid.length = 0 := by omega
    simp only [keyed, hkey, List.length_nil, if_true, if_neg hne]
    split_ifs <;> exact hlen

theorem beBytes_eq_bigEndian_iff {v : Nat} (hv : v < 256 ^ 256) :
    beBytes v = bigEndian 256 v ↔ 256 ^ 255 ≤ v := by
  have hcount : byteCount v = 256 ↔ 256 ^ 255 ≤ v := by
    rw [byteCount_eq_succ_iff]
    exact and_iff_left hv
  rw [← hcount]
  constructor
  · intro h
    rw [← length_beBytes, h, bigEndian_length]
  · intro h
    rw [beBytes, h, bigEndian]

theorem length_serverSalt : (serverSalt newNonce S.serverNonce).length = 8 := by
  have hnew : (substr newNonce 0 8).length = 8 := substr_length (by
    rw [length_newNonce]
    decide)
  have hserver : (substr S.serverNonce 0 8).length = 8 := substr_length (by
    rw [S.serverNonce_length]
    decide)
  rw [serverSalt, List.length_zipWith, hnew, hserver, min_self]

/-- The server opens what is prepared under its key. -/
theorem openMessage_tgPrepareQuery (hkey : tg.key.length = 256) (hsalt : tg.salt.length = 8)
    (hssid : tg.ssid.length = 8) (query : Bytes) (msgid : UInt64) :
    ∃ msgId seqno data padding rest, CarriesQuery tg query data ∧
      (tgPrepareQuery C E query true msgid tg).1.1 = le32 (UInt32.ofNat rest.length) ++ rest ∧
      rest.take 8 = authKeyId C tg.key ∧
      openMessage C tg.key 0 rest = tg.salt ++ tg.ssid ++ le64 msgId ++ le32 seqno ++
        le32 (UInt32.ofNat data.length) ++ data ++ padding := by
  obtain ⟨msgId, seqno, data, padding, hcarries, hheader, hpad⟩ :=
    tgHeader_eq (E := E) query msgid tg
  obtain ⟨hkey', _, _⟩ := keepsKeys_tgHeader (E := E) query msgid tg
  have hblocks : 16 ∣ (tg.salt ++ tg.ssid ++ le64 msgId ++ le32 seqno ++
      le32 (UInt32.ofNat data.length) ++ data ++ padding).length := by
    simp only [List.length_append, hsalt, hssid, le64_length, le32_length, hpad]
    omega
  refine ⟨msgId, seqno, data, padding, sealMessage C tg.key 0 _, hcarries, ?_, ?_,
    openMessage_sealMessage hblocks⟩
  · have hout : (tgPrepareQuery C E query true msgid tg).1.1 =
        tgTransport (tgEncrypt C (tgHeader E query true true msgid tg).2
          (tgHeader E query true true msgid tg).1.1 true) := rfl
    rw [hout, tgEncrypt_eq (by rw [hkey', hkey]), hkey', hheader]
    rfl
  · rw [sealMessage, List.append_assoc, List.take_left' authKeyId_length]

/-- The client opens the answer after it has sent the query. -/
theorem tgDeheader_answer (hkey : tg.key.length = 256) (hssid : tg.ssid.length = 8)
    (query : Bytes) (msgid : UInt64) (m : ServerMessage) :
    ((tgDecrypt C (tgPrepareQuery C E query true msgid tg).2
      (sealMessage C tg.key 8 (m.plaintext tg.ssid)) true).bind fun d =>
        tgDeheader (tgPrepareQuery C E query true msgid tg).2 d true) =
      some (m.data, { (tgPrepareQuery C E query true msgid tg).2 with
        salt := le64 m.salt
        msgids := (tgPrepareQuery C E query true msgid tg).2.msgids ++ [m.msgId] }) := by
  have hkeys : SameKeys tg (tgPrepareQuery C E query true msgid tg).2 :=
    keepsKeys_tgHeader query msgid tg
  have hblocks : 16 ∣ (m.plaintext tg.ssid).length := by
    rw [m.plaintext_length hssid]
    exact m.blocks
  rw [← hkeys.key] at hkey ⊢
  rw [tgDecrypt_sealMessage hkey hblocks, Option.bind_some, tgDeheader_plaintext m hssid]

/-- After a handshake the server reads the first query under its own key, and the client its answer,
if the first byte of that key is not zero; otherwise the client has another key. -/
theorem firstQuery_answered (h : Counterpart W S n e p q readNonce verdict s)
    (hkey : tg.key = []) (hssid : tg.ssid = [] ∨ tg.ssid.length = 8) (query : Bytes) :
    Runs (appOpen W) s fun _ t => ∃ p₁ p₂ p₃, t.sent = s.sent ++ [intermediate, p₁, p₂, p₃] ∧
      ((keyed E t.account tg).key = S.authKey W.crypto p₃ ↔
        256 ^ 255 ≤ S.secret W.crypto newNonce p₃) ∧
      (256 ^ 255 ≤ S.secret W.crypto newNonce p₃ →
        (∃ msgId seqno data padding rest, CarriesQuery (keyed E t.account tg) query data ∧
          (tgPrepareQuery W.crypto E query true 0 (keyed E t.account tg)).1.1 =
            le32 (UInt32.ofNat rest.length) ++ rest ∧
          rest.take 8 = authKeyId W.crypto (S.authKey W.crypto p₃) ∧
          openMessage W.crypto (S.authKey W.crypto p₃) 0 rest =
            serverSalt newNonce S.serverNonce ++ (keyed E t.account tg).ssid ++ le64 msgId ++
              le32 seqno ++ le32 (UInt32.ofNat data.length) ++ data ++ padding) ∧
        ∀ m : ServerMessage, ∃ tg',
          ((tgDecrypt W.crypto (tgPrepareQuery W.crypto E query true 0 (keyed E t.account tg)).2
            (sealMessage W.crypto (S.authKey W.crypto p₃) 8
              (m.plaintext (keyed E t.account tg).ssid)) true).bind fun d =>
                tgDeheader (tgPrepareQuery W.crypto E query true 0 (keyed E t.account tg)).2
                  d true) = some (m.data, tg')) := by
  refine h.runs_appOpen.mono fun _ t hrun => ?_
  obtain ⟨k, hshook⟩ := hrun
  obtain ⟨m₁, m₂, m₃, j, pad, hpad, hblocks, hsent⟩ := hshook.sent
  refine ⟨_, _, _, hsent.trans (List.append_assoc _ _ _), ?_⟩
  rw [Server.authKey, secret_thirdBody length_firstNonce length_firstNonce hblocks hpad]
  have hlt : clientSecret W S k < 256 ^ 256 :=
    (Nat.mod_lt _ (Nat.pos_of_ne_zero S.dhPrime_ne_zero)).trans
      ((beNat_lt S.dhPrime).trans_eq (by rw [S.dhPrime_length]))
  have hiff := beBytes_eq_bigEndian_iff hlt
  set tg₁ := keyed E t.account tg with htg₁
  have hkeyed : tg₁.key = beBytes (clientSecret W S k) := (keyed_key hkey).trans hshook.key.bytes
  have hsalt : t.account.salt = serverSalt newNonce S.serverNonce := hshook.salt.bytes
  have hsaltlen : t.account.salt.length = 8 := by rw [hsalt, length_serverSalt]
  have hkeyedsalt : tg₁.salt = serverSalt newNonce S.serverNonce :=
    (keyed_salt hkey hsaltlen).trans hsalt
  have hssidlen : tg₁.ssid.length = 8 := length_keyed_ssid hkey hssid
  refine ⟨by rw [hkeyed, hiff], fun hlarge => ?_⟩
  have hsame : tg₁.key = bigEndian 256 (clientSecret W S k) := by rw [hkeyed, hiff.mpr hlarge]
  have hkeylen : tg₁.key.length = 256 := by rw [hsame, bigEndian_length]
  have hsaltlen' : tg₁.salt.length = 8 := by rw [hkeyedsalt, length_serverSalt]
  rw [← hsame, ← hkeyedsalt]
  obtain ⟨msgId, seqno, data, padding, rest, hcarries, hout, htake, hopen⟩ :=
    openMessage_tgPrepareQuery (C := W.crypto) (E := E) hkeylen hsaltlen' hssidlen query 0
  exact ⟨⟨msgId, seqno, data, padding, rest, hcarries, hout, htake, hopen⟩,
    fun m => ⟨_, tgDeheader_answer hkeylen hssidlen query 0 m⟩⟩

/-- A session in which nothing has happened yet. -/
def freshTg : Tg := ⟨[], [], [], 0, [], [], 0, 0⟩

theorem firstQuery_answered_impostor :
    Runs (appOpen impostorWorld) freshClient fun _ t => ∃ p₁ p₂ p₃,
      t.sent = [] ++ [intermediate, p₁, p₂, p₃] ∧
      ((keyed pingEnv t.account freshTg).key = impostor.authKey plainCrypto p₃ ↔
        256 ^ 255 ≤ impostor.secret plainCrypto newNonce p₃) ∧
      (256 ^ 255 ≤ impostor.secret plainCrypto newNonce p₃ →
        (∃ msgId seqno data padding rest, CarriesQuery (keyed pingEnv t.account freshTg) ping data ∧
          (tgPrepareQuery plainCrypto pingEnv ping true 0 (keyed pingEnv t.account freshTg)).1.1 =
            le32 (UInt32.ofNat rest.length) ++ rest ∧
          rest.take 8 = authKeyId plainCrypto (impostor.authKey plainCrypto p₃) ∧
          openMessage plainCrypto (impostor.authKey plainCrypto p₃) 0 rest =
            serverSalt newNonce impostor.serverNonce ++ (keyed pingEnv t.account freshTg).ssid ++
              le64 msgId ++ le32 seqno ++ le32 (UInt32.ofNat data.length) ++ data ++ padding) ∧
        ∀ m : ServerMessage, ∃ tg',
          ((tgDecrypt plainCrypto
            (tgPrepareQuery plainCrypto pingEnv ping true 0 (keyed pingEnv t.account freshTg)).2
            (sealMessage plainCrypto (impostor.authKey plainCrypto p₃) 8
              (m.plaintext (keyed pingEnv t.account freshTg).ssid)) true).bind fun d =>
                tgDeheader (tgPrepareQuery plainCrypto pingEnv ping true 0
                  (keyed pingEnv t.account freshTg)).2 d true) = some (m.data, tg')) :=
  firstQuery_answered counterpart_impostor rfl (.inl rfl) ping

end Libtg.Mtx
