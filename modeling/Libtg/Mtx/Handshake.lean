import Libtg.Mtx.Requests

/-!
# The handshake

What `api.app.open` leaves in `shared_rc`. The client encrypts 32 zeros where the server expects its
new nonce, so that nobody needs the private key to answer it (`appOpen_agrees`); it draws its
exponent from the clock (`appOpen_eavesdropped`); and it never clears the answers of an earlier
handshake (`reopen_stale`).
-/

namespace Libtg.Mtx

open LittleEndian BigEndian Exec

/-! ## One handshake -/

section
variable (W : World) (S : Server) (n e : Nat) (p q : UInt32)

/-- The nonce of a handshake that begins in `s`. -/
def firstNonce (s : Client) : Bytes := randBytes W (W.time s.ticks) 16

/-- The number that is encrypted with the public key, if `dwh` is declared for the `j`-th time. -/
def encryptedNumber (nonce : Bytes) (j : Nat) : Nat :=
  beNat (rsaBlock (W.stack .dwh j).bytes (pqInnerData S nonce p q)) ^ e % n

def secondBody (nonce : Bytes) (j : Nat) : Bytes :=
  reqDHParamsBody S nonce p q (rsaField (encryptedNumber W S n e p q nonce j))

def thirdBody (nonce nonce₀ : Bytes) (k : Nat) (pad : Bytes) : Bytes :=
  setClientDHParamsBody S nonce
    (S.clientEncrypted W.crypto nonce₀ (S.clientPower (exponent W k)) pad)

/-- The key of the client. -/
def clientSecret (k : Nat) : Nat := beNat S.gA ^ beNat (exponent W k) % beNat S.dhPrime

/-- The first two answers of a server to `nonce₀` stand in the variables. -/
structure Settled (nonce₀ : Bytes) (t : TypeSystem) : Prop where
  resPQ : t.ctorResPQ = S.ctorResPQ nonce₀
  serverDHParamsOk : t.ctorServerDHParamsOk = S.ctorServerDHParamsOk W.crypto newNonce nonce₀
  nonces : NoncesFit t

/-- What `sil_concrete` makes of the three answers leaves the values of the server in the variables,
be they new or old. -/
structure Conversation (s : Client) (nonce₀ : Bytes) (f₁ f₂ f₃ : TypeSystem → TypeSystem) :
    Prop where
  first : ∃ answer es, Answers W f₁ es answer ∧
    Replies W s.sent (reqPqBody (firstNonce W s)) answer
  second : ∀ m j, ∃ answer es, Answers W f₂ es answer ∧
    Replies W (s.sent ++ [plainPacket m (reqPqBody (firstNonce W s))])
      (secondBody W S n e p q (firstNonce W s) j) answer
  third : ∀ m m' j k pad, ∃ answer es, Answers W f₃ es answer ∧
    Replies W (s.sent ++ [plainPacket m (reqPqBody (firstNonce W s)),
      plainPacket m' (secondBody W S n e p q (firstNonce W s) j)])
      (thirdBody W S (firstNonce W s) nonce₀ k pad) answer
  resPQ : (f₁ (resetOnce s).t).ctorResPQ = S.ctorResPQ nonce₀
  serverDHParamsOk : (f₂ (f₁ (resetOnce s).t)).ctorServerDHParamsOk =
    S.ctorServerDHParamsOk W.crypto newNonce nonce₀
  settled : ∀ serverTime, Settled W S nonce₀ (f₃ { f₂ (f₁ (resetOnce s).t) with
    ctorServerDHInnerData := S.ctorServerDHInnerData nonce₀ serverTime })

/-- `t` is where a handshake ends that began in `s`: the exponent is that of the `k`-th look at the
clock. -/
structure Shook (nonce₀ : Bytes) (k : Nat) (s t : Client) : Prop where
  sent : ∃ m₁ m₂ m₃ j pad, pad.length < 16 ∧
    16 ∣ (S.clientPlain nonce₀ (S.clientPower (exponent W k)) pad).length ∧
    t.sent = s.sent ++ [plainPacket m₁ (reqPqBody (firstNonce W s)),
      plainPacket m₂ (secondBody W S n e p q (firstNonce W s) j),
      plainPacket m₃ (thirdBody W S (firstNonce W s) nonce₀ k pad)]
  key : Holds t.sharedRc.key (beBytes (clientSecret W S k))
  salt : Holds t.sharedRc.salt (serverSalt newNonce S.serverNonce)
  drawn : s.ticks ≤ k ∧ k < t.ticks
  settled : Settled W S nonce₀ t.t
  flag : t.resetTgApiTypeSystemFlag ≠ 0
  sockfd : t.sharedRc.sockfd = s.sharedRc.sockfd
  seqnh : t.sharedRc.seqnh = s.sharedRc.seqnh

end

variable {W : World} {S : Server} {n e : Nat} {p q : UInt32} {s t : Client}
  {nonce nonce₀ pad : Bytes} {f₁ f₂ f₃ : TypeSystem → TypeSystem} {k : Nat}

theorem length_firstNonce : (firstNonce W s).length = 16 := length_randBytes _ _

theorem resetOnce_flag (s : Client) : (resetOnce s).resetTgApiTypeSystemFlag ≠ 0 := by
  rw [resetOnce]
  split_ifs with h
  · exact (by decide : (1 : UInt32) ≠ 0)
  · exact h

theorem resetOnce_of_flag (h : s.resetTgApiTypeSystemFlag ≠ 0) : resetOnce s = s := if_neg h

theorem Ready.length_rsaField (hr : Ready W S n e p q) (x : Nat) :
    (rsaField (x % n)).length = 256 :=
  Mtx.length_rsaField (byteCount_le_iff.mpr
    ((Nat.mod_lt _ (Nat.pos_of_ne_zero hr.n_ne_zero)).trans_le hr.n_le))

theorem runs_srlAuth (hr : Ready W S n e p q) (hn₀ : nonce₀.length = 16)
    (hc : Conversation W S n e p q s nonce₀ f₁ f₂ f₃) :
    Runs (srlAuth W) s fun _ t => ∃ k, Shook W S n e p q nonce₀ k s t := by
  have hn : (firstNonce W s).length = 16 := length_firstNonce
  -- the first request
  refine (runs_methodReqPqInit s).bind fun m t₁ hrun => ?_
  obtain ⟨ht₁, hm⟩ := hrun
  rw [hm]
  obtain ⟨a₁, es₁, hanswer₁, hreply₁⟩ := hc.first
  obtain ⟨htypes₁, hflag₁⟩ := resetOnce_congr ht₁.types ht₁.flag
  rw [← ht₁.sent] at hreply₁
  have hf₁ : (f₁ (resetOnce t₁).t).ctorResPQ = S.ctorResPQ nonce₀ := by
    rw [htypes₁]
    exact hc.resPQ
  refine (runs_methodReqPqDrive hn hanswer₁ hreply₁ hf₁).bind fun m t₂ hrun => ?_
  obtain ⟨hm, ht₂⟩ := hrun
  rw [hm]
  obtain ⟨m₁, hsent₂⟩ := ht₂.sent
  have hflag₂ : t₂.resetTgApiTypeSystemFlag ≠ 0 := by
    rw [ht₂.flag]
    exact resetOnce_flag t₁
  have htypes₂ : t₂.t = f₁ (resetOnce s).t := by rw [ht₂.types, htypes₁]
  -- the second request
  refine (runs_methodReqDHParamsInit hr hn t₂).bind fun m t₃ hrun => ?_
  obtain ⟨ht₃, j, hm⟩ := hrun
  rw [hm]
  obtain ⟨a₂, es₂, hanswer₂, hreply₂⟩ := hc.second m₁ j
  have hsent₃ : t₃.sent = s.sent ++ [plainPacket m₁ (reqPqBody (firstNonce W s))] := by
    rw [ht₃.sent, hsent₂, ht₁.sent]
  rw [← hsent₃] at hreply₂
  have hflag₃ : t₃.resetTgApiTypeSystemFlag ≠ 0 := by rwa [ht₃.flag]
  have htypes₃ : (resetOnce t₃).t = f₁ (resetOnce s).t := by
    rw [resetOnce_of_flag hflag₃, ht₃.types, htypes₂]
  have hf₂ : (f₂ (resetOnce t₃).t).ctorServerDHParamsOk =
      S.ctorServerDHParamsOk W.crypto newNonce nonce₀ := by
    rw [htypes₃]
    exact hc.serverDHParamsOk
  refine (runs_methodReqDHParamsDrive hn (hr.length_rsaField _) hanswer₂ hreply₂ hf₂).bind
    fun m t₄ hrun => ?_
  obtain ⟨hm, ht₄⟩ := hrun
  rw [hm]
  obtain ⟨m₂, hsent₄⟩ := ht₄.sent
  have hflag₄ : t₄.resetTgApiTypeSystemFlag ≠ 0 := by
    rw [ht₄.flag]
    exact resetOnce_flag t₃
  have htypes₄ : (resetOnce t₄).t = f₂ (f₁ (resetOnce s).t) := by
    rw [resetOnce_of_flag hflag₄, ht₄.types, htypes₃]
  -- the third request
  refine (runs_methodSetClientDHParamsInit hn₀ t₄).bind fun m t₅ hrun => ?_
  obtain ⟨k, pad, serverTime, hlo, hhi, hm, ht₅⟩ := hrun
  obtain ⟨a₃, es₃, hanswer₃, hreply₃⟩ := hc.third m₁ m₂ j k pad
  have hsent₅ : t₅.sent = s.sent ++ [plainPacket m₁ (reqPqBody (firstNonce W s)),
      plainPacket m₂ (secondBody W S n e p q (firstNonce W s) j)] := by
    rw [ht₅.sent, resetOnce_sent, hsent₄, hsent₃, List.append_assoc]
    rfl
  rw [← hsent₅] at hreply₃
  have hflag₅ : t₅.resetTgApiTypeSystemFlag ≠ 0 := by
    rw [ht₅.flag]
    exact resetOnce_flag _
  have htypes₅ : (resetOnce t₅).t = { f₂ (f₁ (resetOnce s).t) with
      ctorServerDHInnerData := S.ctorServerDHInnerData nonce₀ serverTime } := by
    rw [resetOnce_of_flag hflag₅, ht₅.types, htypes₄]
  have hsettled := hc.settled serverTime
  rw [← htypes₅] at hsettled
  refine (runs_methodSetClientDHParamsDrive hn hn₀ hm hanswer₃ hsettled.nonces hreply₃).bind
    fun m' t₆ hrun => ?_
  obtain ⟨es, hm', ht₆⟩ := hrun
  obtain ⟨m₃, hsent₆⟩ := ht₆.sent
  -- the key
  obtain ⟨serverTime', hinner⟩ := hm.innerData_eq
  have hgA : Holds m'.ctorServerDHInnerData.gA.value S.gA := by
    rw [hm']
    show Holds m.ctorServerDHInnerData.gA.value S.gA
    rw [hinner]
    exact holds_ofBytes (S.gA_length.2.trans (by decide))
  have hprime : Holds m'.ctorServerDHInnerData.dhPrime.value S.dhPrime := by
    rw [hm']
    show Holds m.ctorServerDHInnerData.dhPrime.value S.dhPrime
    rw [hinner]
    exact holds_of_length S.dhPrime_length
  have hb : Holds m'.ctorClientDHInnerData.b (exponent W k) := by
    rw [hm']
    show Holds m.ctorClientDHInnerData.b (exponent W k)
    rw [hm.b_eq]
    exact holds_of_length (length_randBytes _ _)
  have hsalt : Holds m'.salt (serverSalt newNonce S.serverNonce) := by
    rw [hm']
    exact hm.salt_holds
  refine (runs_cmnPowMod hgA hb hprime (length_randBytes _ _) S.dhPrime_length S.dhPrime_ne_zero
    t₆).bind fun key t₇ hrun => ?_
  obtain ⟨hkey, ht₇⟩ := hrun
  refine (runs_step _ t₇).mono fun _ t ht => ?_
  rw [ht]
  have hrc : t₇.sharedRc = s.sharedRc := by
    rw [ht₇.sharedRc, ht₆.sharedRc, ht₅.sharedRc, resetOnce_sharedRc, ht₄.sharedRc, ht₃.sharedRc,
      ht₂.sharedRc, ht₁.sharedRc]
  have hticks₄ : s.ticks ≤ t₄.ticks :=
    ((ht₁.ticks.trans ht₂.ticks).trans ht₃.ticks).trans ht₄.ticks
  refine ⟨k, ⟨m₁, m₂, m₃, j, pad, hm.pad_lt, hm.blocks, ?_⟩, hkey, hsalt, ⟨?_, ?_⟩, ?_, ?_, ?_, ?_⟩
  · show t₇.sent = _
    rw [ht₇.sent, hsent₆, hsent₅, List.append_assoc]
    rfl
  · exact hticks₄.trans hlo
  · exact hhi.trans_le (ht₆.ticks.trans ht₇.ticks)
  · show Settled W S nonce₀ t₇.t
    rw [ht₇.types, ht₆.types]
    exact hsettled
  · show t₇.resetTgApiTypeSystemFlag ≠ 0
    rw [ht₇.flag, ht₆.flag]
    exact resetOnce_flag t₅
  · show t₇.sharedRc.sockfd = _
    rw [hrc]
  · show t₇.sharedRc.seqnh = _
    rw [hrc]

/-! ## `api.app.open` -/

/-- The process once the connection is open. -/
def opened (W : World) (s : Client) : Client :=
  { s with
    errors := s.errors ++ (W.openError.map OpenError.text).toList
    sharedRc := { resetSharedRc s.sharedRc with sockfd := W.socket }
    sent := s.sent ++ [intermediate] }

theorem runs_appOpen {Q : Unit → Client → Prop} (h : Runs (srlAuth W) (opened W s) Q) :
    Runs (appOpen W) s Q := by
  refine (runs_step _ s).bind fun _ t ht => ?_
  rw [ht]
  refine (runs_step _ _).bind fun _ u hu => ?_
  rw [hu]
  exact h

theorem resetOnce_opened (s : Client) : (resetOnce (opened W s)).t = (resetOnce s).t :=
  (resetOnce_congr (s := s) (t := opened W s) rfl rfl).1

/-! ## A server -/

/-- An answer of which nothing is kept. -/
def Refuses (answer : Bytes) : Prop :=
  ∃ id x, id ∉ settingIds ∧ answer = le32 id ++ x ∧ answer.length + 24 ≤ maxBufSize

/-- The other side answers as the server does in one exchange, in which it takes the new nonce to be
what `readNonce` finds in the second packet. Its last answer is `verdict`. -/
structure Follows (W : World) (S : Server) (readNonce verdict : Bytes → Bytes)
    (before : List Bytes) : Prop where
  resPQ : ∀ p₁, W.recv (before ++ [intermediate, p₁]) =
    .data (plainPacket (S.msgId 0) (S.resPQ (packetNonce p₁)))
  serverDHParams : ∀ p₁ p₂, W.recv (before ++ [intermediate, p₁, p₂]) =
    .data (plainPacket (S.msgId 1)
      (S.serverDHParamsOk W.crypto (readNonce p₂) (packetNonce p₁)))
  dhGen : ∀ p₁ p₂ p₃, W.recv (before ++ [intermediate, p₁, p₂, p₃]) =
    .data (plainPacket (S.msgId 2) (verdict (packetNonce p₁)))

variable {readNonce verdict : Bytes → Bytes} {before : List Bytes} {answer : Bytes}
  {R : Nat → Bytes} {N : Nat}

theorem Refuses.answers (h : Refuses answer) : ∃ es, Answers W (fun t => t) es answer := by
  obtain ⟨id, x, hid, rfl, hle⟩ := h
  exact ⟨_, answers_ignored hid hle⟩

theorem packetNonce_reqPq (m : UInt64) (hn : nonce.length = 16) :
    packetNonce (plainPacket m (reqPqBody nonce)) = nonce := by
  rw [packetNonce, packetBody_plainPacket, reqPqBody, substr, List.drop_left' (le32_length _), ← hn,
    List.take_length]

/-- The last answer may accept or refuse. -/
theorem answers_verdict (hn : nonce.length = 16)
    (hverdict : verdict nonce = S.dhGenOk nonce ∨ Refuses (verdict nonce)) :
    ∃ f es, Answers W f es (verdict nonce) ∧ ∀ t : TypeSystem, (f t).ctorResPQ = t.ctorResPQ ∧
      (f t).ctorServerDHParamsOk = t.ctorServerDHParamsOk ∧ (NoncesFit t → NoncesFit (f t)) := by
  rcases hverdict with hok | hrefuses
  · have hnonce : (ofBytes nonce).size.toNat ≤ maxBufSize := by
      rw [(holds_of_length hn).size, hn]
      decide
    have hserver : (ofBytes S.serverNonce).size.toNat ≤ maxBufSize := by
      rw [(holds_of_length S.serverNonce_length).size, S.serverNonce_length]
      decide
    rw [hok]
    exact ⟨_, _, answers_dhGenOk hn, fun t => ⟨rfl, rfl, fun _ => ⟨hnonce, hserver⟩⟩⟩
  · obtain ⟨es, hanswers⟩ := hrefuses.answers (W := W)
    exact ⟨_, es, hanswers, fun t => ⟨rfl, rfl, id⟩⟩

theorem conversation_of_follows (hW : Follows W S readNonce verdict before)
    (hs : s.sent = before ++ [intermediate])
    (hverdict : ∀ nonce, verdict nonce = S.dhGenOk nonce ∨ Refuses (verdict nonce))
    (hread : ∀ m j,
      readNonce (plainPacket m (secondBody W S n e p q (firstNonce W s) j)) = newNonce)
    (hfit : NoncesFit (resetOnce s).t) :
    ∃ f₁ f₂ f₃, Conversation W S n e p q s (firstNonce W s) f₁ f₂ f₃ := by
  have hn : (firstNonce W s).length = 16 := length_firstNonce
  obtain ⟨f₃, es₃, hanswer₃, hf₃⟩ := answers_verdict (W := W) (S := S) hn (hverdict _)
  have hanswer₂ : Answers W (fun t => { t with
      ctorServerDHParamsOk := S.ctorServerDHParamsOk W.crypto newNonce (firstNonce W s) }) []
        (S.serverDHParamsOk W.crypto newNonce (firstNonce W s)) := answers_serverDHParamsOk hn
  refine ⟨_, _, f₃, ⟨⟨_, _, answers_resPQ hn, fun m => ⟨S.msgId 0, ?_⟩⟩,
    fun m j => ⟨_, _, hanswer₂, fun m' => ⟨S.msgId 1, ?_⟩⟩,
    fun m m' j k pad => ⟨_, _, hanswer₃, fun m'' => ⟨S.msgId 2, ?_⟩⟩, rfl, rfl,
    fun serverTime => ⟨(hf₃ _).1, (hf₃ _).2.1, (hf₃ _).2.2 hfit⟩⟩⟩
  · rw [hs, List.append_assoc]
    show W.recv (before ++ [intermediate, plainPacket m _]) = _
    rw [hW.resPQ, packetNonce_reqPq m hn]
  · rw [hs, List.append_assoc, List.append_assoc]
    show W.recv (before ++ [intermediate, plainPacket m _, plainPacket m' _]) = _
    rw [hW.serverDHParams, hread, packetNonce_reqPq m hn]
  · rw [hs, List.append_assoc, List.append_assoc]
    show W.recv (before ++ [intermediate, plainPacket m _, plainPacket m' _,
      plainPacket m'' _]) = _
    rw [hW.dhGen, packetNonce_reqPq m hn]

/-- The other side of a handshake that begins in `s` takes the new nonce to be 32 zeros, read or
guessed, and ends the exchange as it likes. -/
structure Counterpart (W : World) (S : Server) (n e : Nat) (p q : UInt32)
    (readNonce verdict : Bytes → Bytes) (s : Client) : Prop where
  follows : Follows W S readNonce verdict s.sent
  verdict_or : ∀ nonce, verdict nonce = S.dhGenOk nonce ∨ Refuses (verdict nonce)
  ready : Ready W S n e p q
  reads : ∀ m j,
    readNonce (plainPacket m (secondBody W S n e p q (firstNonce W (opened W s)) j)) = newNonce
  fit : NoncesFit (resetOnce s).t

theorem Counterpart.runs_appOpen (h : Counterpart W S n e p q readNonce verdict s) :
    Runs (appOpen W) s fun _ t =>
      ∃ k, Shook W S n e p q (firstNonce W (opened W s)) k (opened W s) t := by
  have hfit := h.fit
  rw [← resetOnce_opened (W := W)] at hfit
  obtain ⟨f₁, f₂, f₃, hc⟩ :=
    conversation_of_follows h.follows (s := opened W s) rfl h.verdict_or h.reads hfit
  exact Mtx.runs_appOpen (runs_srlAuth h.ready length_firstNonce hc)

/-! ### The secret of the other side -/

theorem readString_serializeBytes_nil {x : Bytes} (h : x.length < 2 ^ 24) :
    readString (serializeBytes x) = x := by
  have hread := readString_serializeBytes h []
  rwa [List.append_nil] at hread

theorem clientData_thirdBody (hn : nonce.length = 16) (hn₀ : nonce₀.length = 16)
    (hblocks : 16 ∣ (S.clientPlain nonce₀ (S.clientPower (exponent W k)) pad).length)
    (hpad : pad.length < 16) (m : UInt64) :
    S.clientData W.crypto newNonce (plainPacket m (thirdBody W S nonce nonce₀ k pad)) =
      S.clientPlain nonce₀ (S.clientPower (exponent W k)) pad := by
  have hlen := (length_clientPlain (S := S) hn₀ (byteCount_clientPower (S := S) (exponent W k))
    hpad).2
  have hdrop (x : Bytes) : (setClientDHParamsBody S nonce x).drop 36 = serializeBytes x := by
    rw [setClientDHParamsBody, ← List.append_assoc, ← List.append_assoc, List.drop_left']
    rw [List.length_append, List.length_append, le32_length, hn, S.serverNonce_length]
  have hencrypted : (S.clientEncrypted W.crypto nonce₀ (S.clientPower (exponent W k)) pad).length <
      2 ^ 24 := by
    rw [length_clientEncrypted hblocks]
    omega
  rw [Server.clientData, packetBody_plainPacket, thirdBody, hdrop,
    readString_serializeBytes_nil hencrypted]
  exact W.crypto.aesIgeD_aesIgeE _ _ _ hblocks length_tmpAesKey
    (length_tmpAesIv (by rw [length_newNonce]; decide))

/-- Both sides come to the same number. -/
theorem secret_thirdBody (hn : nonce.length = 16) (hn₀ : nonce₀.length = 16)
    (hblocks : 16 ∣ (S.clientPlain nonce₀ (S.clientPower (exponent W k)) pad).length)
    (hpad : pad.length < 16) (m : UInt64) :
    S.secret W.crypto newNonce (plainPacket m (thirdBody W S nonce nonce₀ k pad)) =
      clientSecret W S k := by
  have hcount : byteCount (S.clientPower (exponent W k)) ≤ 256 := byteCount_clientPower _
  have hdrop : (S.clientPlain nonce₀ (S.clientPower (exponent W k)) pad).drop 64 =
      serializeBytes (beBytes (S.clientPower (exponent W k))) ++ pad := by
    set v := S.clientPower (exponent W k) with hv
    have hsplit : S.clientPlain nonce₀ v pad = (Fips180.Sha1.hash (clientInnerData S nonce₀ v) ++
        (le32 0x6643b654 ++ (nonce₀ ++ (S.serverNonce ++ List.replicate 8 0)))) ++
          (serializeBytes (beBytes v) ++ pad) := by
      simp only [Server.clientPlain, clientInnerData, List.append_assoc]
    rw [hsplit, List.drop_left']
    simp only [List.length_append, Fips180.Sha1.length_hash, le32_length, hn₀,
      S.serverNonce_length, List.length_replicate]
  have hgB : S.gB W.crypto newNonce (plainPacket m (thirdBody W S nonce nonce₀ k pad)) =
      S.clientPower (exponent W k) := by
    rw [Server.gB, clientData_thirdBody hn hn₀ hblocks hpad, hdrop,
      readString_serializeBytes (by rw [length_beBytes]; omega), beNat_beBytes]
  rw [Server.secret, hgB, clientSecret, Server.clientPower, S.gA_eq, ← Nat.pow_mod, ← Nat.pow_mod,
    ← pow_mul, ← pow_mul, mul_comm]

/-! ### A server without the private key -/

/-- A cipher that changes nothing. -/
def plainCrypto : Crypto where
  sha1 _ := List.replicate 20 0
  sha256 _ := List.replicate 32 0
  aesIgeE b _ _ := b
  aesIgeD b _ _ := b
  sha1_length _ := List.length_replicate
  sha256_length _ := List.length_replicate
  aesIgeE_length _ _ _ _ := rfl
  aesIgeD_length _ _ _ _ := rfl
  aesIgeD_aesIgeE _ _ _ _ _ _ := rfl
  aesIgeE_aesIgeD _ _ _ _ _ _ := rfl

theorem two_pow_mod (k : Nat) : 2 ^ (8 * k + 7) % (256 ^ k * 255) = 256 ^ k * 128 := by
  have hbase : (256 : Nat) ^ k = 2 ^ (8 * k) := by
    rw [pow_mul]
    norm_num
  rw [hbase, pow_add]
  exact Nat.mod_eq_of_lt ((Nat.mul_lt_mul_left (Nat.two_pow_pos (8 * k))).mpr (by decide))

/-- A server with the generator 2 and a modulus of 256 bytes, whose power takes all of them. -/
def impostor : Server where
  serverNonce := List.replicate 16 7
  pq := List.replicate 8 1
  fingerprint := 0
  fingerprints := []
  g := 2
  dhPrime := [255] ++ List.replicate 255 0
  a := 8 * 255 + 7
  gA := [128] ++ List.replicate 255 0
  serverTime := 0
  padding := List.replicate 8 0
  newNonceHash1 := List.replicate 16 0
  msgId _ := 0
  serverNonce_length := List.length_replicate
  pq_length := List.length_replicate
  fingerprints_length := by decide
  dhPrime_length := by rw [List.length_append, List.length_replicate, List.length_singleton]
  dhPrime_ne_zero := by
    rw [beNat_append_zeros]
    exact Nat.mul_ne_zero (pow_ne_zero _ (by decide)) (by decide)
  gA_length := by
    rw [List.length_append, List.length_replicate, List.length_singleton]
    decide
  gA_eq := by
    have hpower : beNat [128] = 128 := by decide
    have hmodulus : beNat [255] = 255 := by decide
    have hbase : (2 : UInt32).toNat = 2 := rfl
    rw [beNat_append_zeros, beNat_append_zeros, hpower, hmodulus, hbase, two_pow_mod]
  padding_length := List.length_replicate
  newNonceHash1_length := List.length_replicate

/-- `dh_gen_retry`. -/
def dhGenRetry : Bytes := le32 0x46dc1fb9 ++ []

theorem refuses_dhGenRetry : Refuses dhGenRetry :=
  ⟨_, [], by decide, rfl, by decide⟩

/-- Who answers does not look at the second packet, and refuses everything from the fifth on. -/
def impostorWorld : World where
  crypto := plainCrypto
  rand _ k := if k = 255 then 1 else 0
  time _ := 0x5e0be100
  utime _ := 0
  stack _ _ := zeroBuf
  stackSha1 _ := Sha1.zeroed
  publicKey := some (1, 1)
  factor _ := some (1, 1)
  socket := 3
  openError := none
  recv
    | [_, p₁] => .data (plainPacket 0 (impostor.resPQ (packetNonce p₁)))
    | [_, p₁, _] =>
      .data (plainPacket 0 (impostor.serverDHParamsOk plainCrypto newNonce (packetNonce p₁)))
    | [_, p₁, _, _] => .data (plainPacket 0 (impostor.dhGenOk (packetNonce p₁)))
    | _ => .data (plainPacket 0 dhGenRetry)

/-- A process in which nothing has happened yet. -/
def freshClient : Client where
  sharedRc := ⟨zeroBuf, zeroBuf, zeroBuf, 0, 0⟩
  t := .zero
  resetTgApiTypeSystemFlag := 0
  errors := []
  sent := []
  ticks := 0
  locals := 0

theorem ready_impostor : Ready impostorWorld impostor 1 1 1 1 where
  factor := ⟨(1, 1), rfl, rfl⟩
  publicKey := rfl
  n_ne_zero := Nat.one_ne_zero
  n_le := Nat.one_le_pow _ _ (by decide)
  dwh _ := Nat.zero_le _

theorem counterpart_impostor : Counterpart impostorWorld impostor 1 1 1 1 (fun _ => newNonce)
    impostor.dhGenOk freshClient where
  follows := ⟨fun _ => rfl, fun _ _ => rfl, fun _ _ _ => rfl⟩
  verdict_or _ := .inl rfl
  ready := ready_impostor
  reads _ _ := rfl
  fit := ⟨Nat.zero_le _, Nat.zero_le _⟩

/-- The key, for whoever has the server's second answer and the second in which the exponent was
drawn. -/
def eavesdrop (C : Crypto) (rand : UInt32 → Nat → UInt8) (second : UInt32) (answer : Bytes) :
    Bytes :=
  let serverNonce := substr (packetBody answer) 20 16
  let inner := C.aesIgeD (readString ((packetBody answer).drop 36))
    (tmpAesKey newNonce serverNonce) (tmpAesIv newNonce serverNonce)
  let dhPrime := readString (inner.drop 60)
  let gA := readString (inner.drop 320)
  beBytes (beNat gA ^ beNat ((List.range 256).map (rand second)) % beNat dhPrime)

theorem eavesdrop_serverDHParamsOk (hn : nonce.length = 16) (m : UInt64) :
    eavesdrop W.crypto W.rand (W.time k)
      (plainPacket m (S.serverDHParamsOk W.crypto newNonce nonce)) =
        beBytes (clientSecret W S k) := by
  have hnew : 4 ≤ newNonce.length := by
    rw [length_newNonce]
    decide
  have hnonce : substr (S.serverDHParamsOk W.crypto newNonce nonce) 20 16 = S.serverNonce := by
    rw [substr, Server.serverDHParamsOk, ← List.append_assoc, List.drop_left' (by
      rw [List.length_append, le32_length, hn]), List.take_left' S.serverNonce_length]
  have hdrop : (S.serverDHParamsOk W.crypto newNonce nonce).drop 36 =
      serializeBytes (S.encryptedAnswer W.crypto newNonce nonce) := by
    rw [Server.serverDHParamsOk, ← List.append_assoc, ← List.append_assoc, List.drop_left']
    rw [List.length_append, List.length_append, le32_length, hn, S.serverNonce_length]
  have hencrypted : (S.encryptedAnswer W.crypto newNonce nonce).length < 2 ^ 24 := by
    rw [Server.length_encryptedAnswer hn]
    decide
  have hprime :
      (Fips180.Sha1.hash (S.innerData nonce) ++ (S.innerData nonce ++ S.padding)).drop 60 =
        serializeBytes S.dhPrime ++ (serializeBytes S.gA ++ (le32 S.serverTime ++ S.padding)) := by
    have hsplit : Fips180.Sha1.hash (S.innerData nonce) ++ (S.innerData nonce ++ S.padding) =
        (Fips180.Sha1.hash (S.innerData nonce) ++ (le32 idServerDHInnerData ++ (nonce ++
          (S.serverNonce ++ le32 S.g)))) ++ (serializeBytes S.dhPrime ++
            (serializeBytes S.gA ++ (le32 S.serverTime ++ S.padding))) := by
      simp only [Server.innerData, List.append_assoc]
    rw [hsplit, List.drop_left']
    simp only [List.length_append, Fips180.Sha1.length_hash, le32_length, hn, S.serverNonce_length]
  have hpower : (Fips180.Sha1.hash (S.innerData nonce) ++
      (S.innerData nonce ++ S.padding)).drop 320 =
        serializeBytes S.gA ++ (le32 S.serverTime ++ S.padding) := by
    rw [← List.drop_drop (i := 260) (j := 60), hprime, List.drop_left' Server.length_dhPrime_string]
  have hprimelen : S.dhPrime.length < 2 ^ 24 := by
    rw [S.dhPrime_length]
    decide
  have hpowerlen : S.gA.length < 2 ^ 24 := S.gA_length.2.trans_lt (by decide)
  simp only [eavesdrop, packetBody_plainPacket, hnonce, hdrop,
    readString_serializeBytes_nil hencrypted, Server.decrypt_encryptedAnswer hnew hn, hprime,
    hpower, readString_serializeBytes hprimelen, readString_serializeBytes hpowerlen]
  rfl

/-- The connection is opened again, as often as `i` says. -/
def reopen (W : World) : Nat → ClientM Unit
  | 0 => pure ()
  | i + 1 => do
    reopen W i
    appOpen W

/-- The values of an earlier handshake are in use. -/
structure Stale (W : World) (S : Server) (nonce₀ : Bytes) (N : Nat) (s : Client) : Prop where
  settled : Settled W S nonce₀ s.t
  flag : s.resetTgApiTypeSystemFlag ≠ 0
  sent : N ≤ s.sent.length
  key : ∃ k, k < s.ticks ∧ Holds s.sharedRc.key (beBytes (clientSecret W S k))
  salt : Holds s.sharedRc.salt (serverSalt newNonce S.serverNonce)

theorem Shook.stale (h : Shook W S n e p q nonce₀ k s t) (hN : N ≤ s.sent.length + 3) :
    Stale W S nonce₀ N t := by
  refine ⟨h.settled, h.flag, ?_, ⟨k, h.drawn.2, h.key⟩, h.salt⟩
  obtain ⟨m₁, m₂, m₃, j, pad, -, -, hsent⟩ := h.sent
  rw [hsent, List.length_append]
  exact hN

theorem conversation_of_refusals (hs : Settled W S nonce₀ s.t)
    (hflag : s.resetTgApiTypeSystemFlag ≠ 0)
    (hrecv : ∀ l : List Bytes, s.sent.length < l.length →
      ∃ m, W.recv l = .data (plainPacket m (R l.length)))
    (hrefusal : ∀ i, Refuses (R i)) :
    Conversation W S n e p q s nonce₀ (fun t => t) (fun t => t) (fun t => t) := by
  have hreply (l : List Bytes) (body : Bytes) (hl : s.sent.length ≤ l.length) :
      ∃ answer es, Answers W (fun t => t) es answer ∧ Replies W l body answer := by
    obtain ⟨es, hanswers⟩ := (hrefusal (l.length + 1)).answers (W := W)
    refine ⟨_, es, hanswers, fun m => ?_⟩
    obtain ⟨m', hm⟩ := hrecv (l ++ [plainPacket m body]) (by
      rw [List.length_append, List.length_singleton]
      omega)
    rw [List.length_append, List.length_singleton] at hm
    exact ⟨m', hm⟩
  have hreset : (resetOnce s).t = s.t := by rw [resetOnce_of_flag hflag]
  refine ⟨hreply _ _ le_rfl, fun m j => hreply _ _ ?_, fun m m' j k pad => hreply _ _ ?_, ?_, ?_,
    fun serverTime => ?_⟩
  · rw [List.length_append]
    omega
  · rw [List.length_append]
    omega
  · rw [hreset]
    exact hs.resPQ
  · rw [hreset]
    exact hs.serverDHParamsOk
  · rw [hreset]
    exact ⟨hs.resPQ, hs.serverDHParamsOk, hs.nonces⟩

/-- One more opening. -/
theorem Stale.runs_appOpen (h : Stale W S nonce₀ N s) (hr : Ready W S n e p q)
    (hn₀ : nonce₀.length = 16)
    (hrecv : ∀ l : List Bytes, N < l.length →
      ∃ m, W.recv l = .data (plainPacket m (R l.length)))
    (hrefusal : ∀ i, Refuses (R i)) :
    Runs (appOpen W) s fun _ t => Stale W S nonce₀ N t := by
  have hlen : (opened W s).sent.length = s.sent.length + 1 := by
    show (s.sent ++ [intermediate]).length = _
    rw [List.length_append, List.length_singleton]
  have hN := h.sent
  have hc : Conversation W S n e p q (opened W s) nonce₀ (fun t => t) (fun t => t) (fun t => t) :=
    conversation_of_refusals h.settled h.flag (fun l hl => hrecv l (by omega)) hrefusal
  refine Mtx.runs_appOpen ((runs_srlAuth hr hn₀ hc).mono fun _ t hrun => ?_)
  obtain ⟨k, hshook⟩ := hrun
  exact hshook.stale (by omega)

theorem Stale.runs_reopen (h : Stale W S nonce₀ N s) (hr : Ready W S n e p q)
    (hn₀ : nonce₀.length = 16)
    (hrecv : ∀ l : List Bytes, N < l.length →
      ∃ m, W.recv l = .data (plainPacket m (R l.length)))
    (hrefusal : ∀ i, Refuses (R i)) (i : Nat) :
    Runs (reopen W i) s fun _ t => Stale W S nonce₀ N t := by
  induction i with
  | zero => exact runs_pure h
  | succ i ih => exact ih.bind fun _ t ht => ht.runs_appOpen hr hn₀ hrecv hrefusal

theorem recv_impostorWorld {l : List Bytes} (h : 4 < l.length) :
    impostorWorld.recv l = .data (plainPacket 0 dhGenRetry) := by
  match l, h with
  | _ :: _ :: _ :: _ :: _ :: _, _ => rfl

end Libtg.Mtx
