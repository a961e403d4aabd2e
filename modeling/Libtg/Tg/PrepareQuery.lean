import Libtg.Tg.Encrypt

/-!
# Sending a query (`tg/transport.c`, `tg/prepare_query.c`)

`tgPrepareQuery_readable` composes the stages: what goes out is a length and an envelope, and the
peer who opens the envelope with the documented formulas finds the header fields, the data and the
padding.
-/

namespace Libtg

open LittleEndian

/-- `tg_transport`. -/
def tgTransport (buf : Bytes) : Bytes := le32 (UInt32.ofNat buf.length) ++ buf

/-- `tg_prepare_query`, with the value left in `*msgid`. -/
def tgPrepareQuery (C : Crypto) (E : Env) (query : Bytes) (enc : Bool) (msgid : UInt64) :
    TgM (Bytes × UInt64) := do
  let (h, msgid) ← tgHeader E query enc true msgid
  let tg ← get
  return (tgTransport (tgEncrypt C tg h enc), msgid)

variable {C : Crypto} {E : Env}

/-- The data part of a message: the query alone, or a container whose first message is the query. -/
def CarriesQuery (tg : Tg) (query data : Bytes) : Prop :=
  (tg.msgids = [] ∧ data = query) ∨
  (tg.msgids ≠ [] ∧ ∃ count msgId seqno others,
    data = le32 idMsgContainer ++ le32 count ++
      (le64 msgId ++ le32 seqno ++ le32 (UInt32.ofNat query.length) ++ query) ++ others)

/-- The parts of the state that headers read but do not change. -/
structure SameKeys (tg tg' : Tg) : Prop where
  key : tg'.key = tg.key
  salt : tg'.salt = tg.salt
  ssid : tg'.ssid = tg.ssid

theorem SameKeys.refl (tg : Tg) : SameKeys tg tg := ⟨rfl, rfl, rfl⟩

theorem SameKeys.trans {tg tg' tg'' : Tg} (h : SameKeys tg tg') (h' : SameKeys tg' tg'') :
    SameKeys tg tg'' :=
  ⟨h'.key.trans h.key, h'.salt.trans h.salt, h'.ssid.trans h.ssid⟩

/-- `c` leaves the keys alone. -/
def KeepsKeys {α : Type} (c : TgM α) : Prop := ∀ tg, SameKeys tg (c tg).2

theorem run_bind {α β : Type} (c : TgM α) (f : α → TgM β) (tg : Tg) :
    (c >>= f) tg = f (c tg).1 (c tg).2 := rfl

theorem KeepsKeys.pure {α : Type} (a : α) : KeepsKeys (pure a) := fun tg => SameKeys.refl tg

theorem KeepsKeys.bind {α β : Type} {c : TgM α} {f : α → TgM β} (hc : KeepsKeys c)
    (hf : ∀ a, KeepsKeys (f a)) : KeepsKeys (c >>= f) := fun tg =>
  (hc tg).trans (hf _ _)

theorem KeepsKeys.mapM {α β : Type} {f : α → TgM β} (h : ∀ a, KeepsKeys (f a)) (as : List α) :
    KeepsKeys (as.mapM f) := by
  induction as with
  | nil => exact KeepsKeys.pure []
  | cons a as ih =>
    rw [List.mapM_cons]
    exact (h a).bind fun b => ih.bind fun bs => KeepsKeys.pure _

theorem keepsKeys_get : KeepsKeys (get : TgM Tg) := fun tg => SameKeys.refl tg

theorem keepsKeys_tgGetCurrentTime : KeepsKeys (tgGetCurrentTime E) := fun _ => ⟨rfl, rfl, rfl⟩

theorem keepsKeys_nextSeqno (content : Bool) : KeepsKeys (nextSeqno content) := fun _ => by
  cases content <;> exact ⟨rfl, rfl, rfl⟩

theorem keepsKeys_tgMtpMessage (payload : Bytes) (content : Bool) :
    KeepsKeys (tgMtpMessage E payload content) :=
  keepsKeys_tgGetCurrentTime.bind fun _ => (keepsKeys_nextSeqno content).bind fun _ =>
    KeepsKeys.pure _

theorem keepsKeys_tgToDrop : KeepsKeys (tgToDrop E) := by
  refine keepsKeys_get.bind fun tg => ?_
  split_ifs
  · exact KeepsKeys.pure _
  · refine (KeepsKeys.mapM (fun id => keepsKeys_tgMtpMessage _ _) _).bind fun msgs => ?_
    exact KeepsKeys.bind (fun _ => ⟨rfl, rfl, rfl⟩) fun _ => KeepsKeys.pure _

theorem tgAck_eq (tg : Tg) :
    tgAck tg = if tg.msgids.length < 1 then ([], tg)
      else (tlMsgsAck tg.msgids, { tg with msgids := [] }) := by
  rw [tgAck, run_bind]
  change (if tg.msgids.length < 1 then _ else _ : TgM Bytes) tg = _
  split_ifs <;> rfl

theorem keepsKeys_tgAck : KeepsKeys tgAck := fun tg => by
  rw [tgAck_eq]
  split_ifs <;> exact ⟨rfl, rfl, rfl⟩

theorem keepsKeys_tgHeaderData (query : Bytes) (content : Bool) :
    KeepsKeys (tgHeaderData E query content) := by
  refine keepsKeys_tgAck.bind fun ack => ?_
  split_ifs
  · exact (keepsKeys_tgMtpMessage _ _).bind fun _ => (keepsKeys_tgMtpMessage _ _).bind fun _ =>
      keepsKeys_tgToDrop.bind fun _ => KeepsKeys.pure _
  · exact KeepsKeys.pure _

theorem tgHeaderData_carries (query : Bytes) (content : Bool) (tg : Tg) :
    CarriesQuery tg query (tgHeaderData E query content tg).1.1 := by
  by_cases h : tg.msgids = []
  · have hack : tgAck tg = ([], tg) := by rw [tgAck_eq, if_pos (by simp [h])]
    rw [tgHeaderData, run_bind, hack]
    exact .inl ⟨h, rfl⟩
  · have hack : tgAck tg = (tlMsgsAck tg.msgids, { tg with msgids := [] }) := by
      rw [tgAck_eq, if_neg (by simpa [Nat.pos_iff_ne_zero] using h)]
    have hlen : (tlMsgsAck tg.msgids).length > 0 := by
      rw [tlMsgsAck_eq]
      simp
    rw [tgHeaderData, run_bind, hack]
    dsimp only
    rw [if_pos hlen]
    exact .inr ⟨h, _, _, _, _, List.append_assoc _ _ _⟩

/-- What `tg_header` puts around the data. -/
theorem tgHeader_eq (query : Bytes) (msgid : UInt64) (tg : Tg) :
    ∃ msgId seqno data padding, CarriesQuery tg query data ∧
      (tgHeader E query true true msgid tg).1.1 = tg.salt ++ tg.ssid ++ le64 msgId ++ le32 seqno ++
        le32 (UInt32.ofNat data.length) ++ data ++ padding ∧
      padding.length = 16 + (16 - data.length % 16) % 16 := by
  obtain ⟨⟨⟨data, content, id⟩, tg'⟩, hdata⟩ : ∃ r, tgHeaderData E query true tg = r := ⟨_, rfl⟩
  have hcarries := tgHeaderData_carries (E := E) query true tg
  have hkeys := keepsKeys_tgHeaderData (E := E) query true tg
  rw [hdata] at hcarries hkeys
  refine ⟨(tgGetCurrentTime E tg').1, (nextSeqno content (tgGetCurrentTime E tg').2).1, data,
    bufRand E (16 + (16 - data.length % 16) % 16), hcarries, ?_, bufRand_length E _⟩
  rw [← hkeys.salt, ← hkeys.ssid]
  rw [tgHeader, if_pos rfl, run_bind, hdata]
  rfl

theorem keepsKeys_tgHeader (query : Bytes) (msgid : UInt64) :
    KeepsKeys (tgHeader E query true true msgid) :=
  (keepsKeys_tgHeaderData _ _).bind fun _ => keepsKeys_get.bind fun _ =>
    keepsKeys_tgGetCurrentTime.bind fun _ => (keepsKeys_nextSeqno _).bind fun _ => KeepsKeys.pure _

/-- What `tg_prepare_query` sends can be read back by a peer who has the key. -/
theorem tgPrepareQuery_readable (C : Crypto) (E : Env) {tg : Tg} (hkey : tg.key.length = 256)
    (hsalt : tg.salt.length = 8) (hssid : tg.ssid.length = 8) (query : Bytes) (msgid : UInt64) :
    ∃ mk c msgId seqno data padding,
      let rest := authKeyId C tg.key ++ mk ++ c
      let plaintext := tg.salt ++ tg.ssid ++ le64 msgId ++ le32 seqno ++
        le32 (UInt32.ofNat data.length) ++ data ++ padding
      (tgPrepareQuery C E query true msgid tg).1.1 = le32 (UInt32.ofNat rest.length) ++ rest ∧
      CarriesQuery tg query data ∧
      decryptedData C tg.key 0 mk c = plaintext ∧ mk = msgKey C tg.key 0 plaintext ∧
      16 ∣ plaintext.length ∧ 16 ≤ padding.length ∧ padding.length ≤ 31 := by
  obtain ⟨msgId, seqno, data, padding, hcarries, hheader, hpad⟩ :=
    tgHeader_eq (E := E) query msgid tg
  obtain ⟨hkey', _, _⟩ := keepsKeys_tgHeader (E := E) query msgid tg
  have hlen : (tg.salt ++ tg.ssid ++ le64 msgId ++ le32 seqno ++
      le32 (UInt32.ofNat data.length) ++ data ++ padding).length =
        32 + data.length + (16 + (16 - data.length % 16) % 16) := by
    simp only [List.length_append, hsalt, hssid, le64_length, le32_length, hpad]
  have hblocks : 16 ∣ (tg.salt ++ tg.ssid ++ le64 msgId ++ le32 seqno ++
      le32 (UInt32.ofNat data.length) ++ data ++ padding).length := by
    rw [hlen]
    omega
  refine ⟨msgKey C tg.key 0 _, encryptedData C tg.key 0 _ _, msgId, seqno, data, padding, ?_,
    hcarries, decryptedData_encryptedData _ hblocks, rfl, hblocks, by omega, by omega⟩
  have hout : (tgPrepareQuery C E query true msgid tg).1.1 =
      tgTransport (tgEncrypt C (tgHeader E query true true msgid tg).2
        (tgHeader E query true true msgid tg).1.1 true) := rfl
  rw [hout, tgEncrypt_eq (by rw [hkey', hkey]), hkey', hheader]
  rfl

/-- A session without pending acknowledgements, in which the first query is a `ping`. -/
def pingTg : Tg :=
  ⟨countingKey, List.replicate 8 1, List.replicate 8 2, 0, [], [], 0, 0⟩

def pingEnv : Env := ⟨fun _ => 0x6600000000000000, UInt8.ofNat⟩

/-- `ping#7abe77ec ping_id:long = Pong;`. -/
def ping : Bytes := le32 0x7abe77ec ++ le64 5

def pingPlaintext : Bytes :=
  bigEndian 64 0x010101010101010102020202020202020000000000000066010000000c000000ec77be7a0500000000000000000102030405060708090a0b0c0d0e0f10111213

def pingMsgKey : Bytes := bigEndian 16 0xdde7791c222ea741decefa4f46321639

/-- The values of the primitives in the sending of that `ping`. -/
def pingCrypto : Crypto :=
  .table [(countingKey, bigEndian 20 0x4916d6bdb7f78e6803698cab32d1586ea457dfc8)]
    [(substr countingKey 88 32 ++ pingPlaintext,
        bigEndian 32 0x91384c8709d88c2ddde7791c222ea741decefa4f4632163951da4023817d34c5),
      (pingMsgKey ++ substr countingKey 0 36,
        bigEndian 32 0x768c235023e19e3005794eb33b487c2b5754f445de107ee572add45ffb7c2a5c),
      (substr countingKey 40 36 ++ pingMsgKey,
        bigEndian 32 0x4646e2940ff3b8adcf99bb74724f5bde82f5b0c73deef2bac161cbd2f492e5be)]
    pingPlaintext
    (bigEndian 64 0x592f8ca4bd7a07e606c288137de0787c20981b4be5abec212cb7b4ae0234e0c19d91332fdc20b5ca58ff13286dc2b87e9aa505a835e4822d862b91bf29ad42ff)
    (bigEndian 32 0x768c235023e19e30cf99bb74724f5bde82f5b0c73deef2ba72add45ffb7c2a5c)
    (bigEndian 32 0x4646e2940ff3b8ad05794eb33b487c2b5754f445de107ee5c161cbd2f492e5be)
    (by simp [pingPlaintext])

theorem tgPrepareQuery_readable_ping :
    ∃ mk c msgId seqno data padding,
      let rest := authKeyId pingCrypto pingTg.key ++ mk ++ c
      let plaintext := pingTg.salt ++ pingTg.ssid ++ le64 msgId ++ le32 seqno ++
        le32 (UInt32.ofNat data.length) ++ data ++ padding
      (tgPrepareQuery pingCrypto pingEnv ping true 0 pingTg).1.1 =
        le32 (UInt32.ofNat rest.length) ++ rest ∧
      CarriesQuery pingTg ping data ∧
      decryptedData pingCrypto pingTg.key 0 mk c = plaintext ∧
      mk = msgKey pingCrypto pingTg.key 0 plaintext ∧
      16 ∣ plaintext.length ∧ 16 ≤ padding.length ∧ padding.length ≤ 31 :=
  tgPrepareQuery_readable pingCrypto pingEnv countingKey_length rfl rfl ping 0

end Libtg
