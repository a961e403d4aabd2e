import Libtg.Mtx.Answers

/-!
# The three requests

What the client sends in each request of a handshake, and what it keeps of the answer. The answer
of a server may be older than the request: `nonce` is what the client drew, and `nonce₀` what the
server last saw.
-/

namespace Libtg.Mtx

open LittleEndian BigEndian Exec

/-! ## The messages of the client -/

/-- The new nonce of every exchange. -/
def newNonce : Bytes := List.replicate 32 0

def reqPqBody (nonce : Bytes) : Bytes := le32 0x60469778 ++ nonce

/-- A string of a number as it is sent. -/
def numberString (p : UInt32) : Bytes := serializeBytes (le32 p).reverse

section
variable (S : Server) (nonce : Bytes) (p q : UInt32)

/-- `p_q_inner_data`. -/
def pqInnerData : Bytes :=
  le32 0x83c95aec ++ (serializeBytes S.pq ++ (numberString p ++ (numberString q ++
    (nonce ++ (S.serverNonce ++ newNonce)))))

/-- What is encrypted with the public key, behind what stood in `dwh`. -/
def rsaBlock (junk inner : Bytes) : Bytes :=
  junk ++ (Fips180.Sha1.hash inner ++ (inner ++ List.replicate (139 - junk.length) 0))

/-- The number stands at the beginning of the field. -/
def rsaField (y : Nat) : Bytes := beBytes y ++ List.replicate (256 - byteCount y) 0

def reqDHParamsBody (encryptedData : Bytes) : Bytes :=
  le32 0xd712e4be ++ (nonce ++ (S.serverNonce ++ (numberString p ++ (numberString q ++
    (le64 S.fingerprint ++ serializeBytes encryptedData)))))

/-- `client_DH_inner_data`. -/
def clientInnerData (gB : Nat) : Bytes :=
  le32 0x6643b654 ++ (nonce ++ (S.serverNonce ++ (List.replicate 8 0 ++
    serializeBytes (beBytes gB))))

def setClientDHParamsBody (encryptedData : Bytes) : Bytes :=
  le32 0xf5045f1f ++ (nonce ++ (S.serverNonce ++ serializeBytes encryptedData))

end

variable {W : World} {S : Server} {nonce nonce₀ answer : Bytes} {p q : UInt32} {s t u : Client}
  {f : TypeSystem → TypeSystem} {es es' : List String} {x y : Bytes}

/-! ### Lengths -/

theorem length_numberString (p : UInt32) : (numberString p).length = 8 := by
  have hlen : (le32 p).reverse.length = 4 := by rw [List.length_reverse, le32_length]
  rw [numberString, length_serializeBytes_of_short (by omega), hlen]

theorem length_newNonce : newNonce.length = 32 := List.length_replicate

theorem length_pqInnerData (hn : nonce.length = 16) : (pqInnerData S nonce p q).length = 96 := by
  simp only [pqInnerData, List.length_append, le32_length, Server.length_pq_string,
    length_numberString, hn, S.serverNonce_length, length_newNonce]

theorem length_rsaField {y : Nat} (hy : byteCount y ≤ 256) : (rsaField y).length = 256 := by
  rw [rsaField, List.length_append, length_beBytes, List.length_replicate]
  omega

theorem length_serializeBytes_le {x : Bytes} : (serializeBytes x).length ≤ x.length + 8 := by
  by_cases hshort : x.length ≤ 253
  · rw [length_serializeBytes_of_short hshort]
    omega
  · rw [length_serializeBytes_of_long (by omega)]
    omega

theorem length_reqDHParamsBody (hn : nonce.length = 16) {e : Bytes} (he : e.length = 256) :
    (reqDHParamsBody S nonce p q e).length = 320 := by
  simp only [reqDHParamsBody, List.length_append, le32_length, le64_length, hn,
    S.serverNonce_length, length_numberString]
  rw [length_serializeBytes_of_long (by omega), he]

/-! ## Requests -/

/-- What a request and its answer leave behind. -/
structure Asked (f : TypeSystem → TypeSystem) (body : Bytes) (es : List String) (s t : Client) :
    Prop where
  sharedRc : t.sharedRc = s.sharedRc
  types : t.t = f (resetOnce s).t
  flag : t.resetTgApiTypeSystemFlag = (resetOnce s).resetTgApiTypeSystemFlag
  errors : t.errors = s.errors ++ es
  sent : ∃ m, t.sent = s.sent ++ [plainPacket m body]
  ticks : s.ticks ≤ t.ticks

theorem resetOnce_errors (s : Client) : (resetOnce s).errors = s.errors := by
  rw [resetOnce]
  split_ifs <;> rfl

theorem resetOnce_sent (s : Client) : (resetOnce s).sent = s.sent := by
  rw [resetOnce]
  split_ifs <;> rfl

theorem resetOnce_sharedRc (s : Client) : (resetOnce s).sharedRc = s.sharedRc := by
  rw [resetOnce]
  split_ifs <;> rfl

theorem resetOnce_ticks (s : Client) : (resetOnce s).ticks = s.ticks := by
  rw [resetOnce]
  split_ifs <;> rfl

theorem resetOnce_congr (ht : t.t = s.t)
    (hflag : t.resetTgApiTypeSystemFlag = s.resetTgApiTypeSystemFlag) :
    (resetOnce t).t = (resetOnce s).t ∧
      (resetOnce t).resetTgApiTypeSystemFlag = (resetOnce s).resetTgApiTypeSystemFlag := by
  simp only [resetOnce, hflag]
  split_ifs
  · exact ⟨rfl, rfl⟩
  · exact ⟨ht, hflag⟩

theorem Logs.concreted (h : Logs es s t) (h' : Concreted f es' t u) :
    Concreted f (es ++ es') s u := by
  obtain ⟨htypes, hflag⟩ := resetOnce_congr h.types h.flag
  refine ⟨?_, ?_, ?_, ?_, ?_, ?_⟩
  · rw [h'.sharedRc, resetOnce_sharedRc, resetOnce_sharedRc, h.sharedRc]
  · rw [h'.types, htypes]
  · rw [h'.flag, hflag]
  · rw [h'.errors, resetOnce_errors, resetOnce_errors, h.errors, List.append_assoc]
  · rw [h'.sent, resetOnce_sent, resetOnce_sent, h.sent]
  · rw [resetOnce_ticks]
    exact h.ticks.trans ((resetOnce_ticks t).ge.trans h'.ticks)

theorem Concreted.logs (h : Concreted f es s t) (h' : Logs es' t u) :
    Concreted f (es ++ es') s u where
  sharedRc := h'.sharedRc.trans h.sharedRc
  types := h'.types.trans h.types
  flag := h'.flag.trans h.flag
  errors := by rw [h'.errors, h.errors, List.append_assoc]
  sent := h'.sent.trans h.sent
  ticks := h.ticks.trans h'.ticks

theorem Drove.concreted {body : Bytes} (h : Drove body s t) (h' : Concreted f es t u) :
    Asked f body ("trl_transport: len mismatch" :: es) s u := by
  obtain ⟨htypes, hflag⟩ := resetOnce_congr h.types h.flag
  obtain ⟨m, hsent⟩ := h.sent
  refine ⟨?_, ?_, ?_, ?_, ⟨m, ?_⟩, ?_⟩
  · rw [h'.sharedRc, resetOnce_sharedRc, h.sharedRc]
  · rw [h'.types, htypes]
  · rw [h'.flag, hflag]
  · rw [h'.errors, resetOnce_errors, h.errors, List.append_assoc, List.singleton_append]
  · rw [h'.sent, resetOnce_sent, hsent]
  · exact h.ticks.trans ((resetOnce_ticks t).ge.trans h'.ticks)

theorem Asked.logs {body : Bytes} (h : Asked f body es s t) (h' : Logs es' t u) :
    Asked f body (es ++ es') s u := by
  obtain ⟨m, hsent⟩ := h.sent
  exact ⟨h'.sharedRc.trans h.sharedRc, h'.types.trans h.types, h'.flag.trans h.flag,
    by rw [h'.errors, h.errors, List.append_assoc], ⟨m, h'.sent.trans hsent⟩,
    h.ticks.trans h'.ticks⟩

/-- The other side answers a request. -/
def Replies (W : World) (sent : List Bytes) (body answer : Bytes) : Prop :=
  ∀ m, ∃ m', W.recv (sent ++ [plainPacket m body]) = .data (plainPacket m' answer)

/-- A request, its answer, and what is done with it. -/
theorem runs_ask {β : Type} {params : List Param} {xs : List Bytes} {Q : β → Client → Prop}
    {k : TypeSystem → ClientM β} (body : Bytes) (h : List.Forall₂ (Serializes W) params xs)
    (hbody : xs.flatten = body) (hne : body ≠ []) (hle : body.length + 24 ≤ maxBufSize)
    (hanswer : Answers W f es answer) (hrecv : Replies W s.sent body answer)
    (hk : ∀ t, Asked f body ("trl_transport: len mismatch" :: es) s t → Runs (k t.t) t Q) :
    Runs (stkDrive W params >>= fun a => silConcrete W a >>= k) s Q := by
  subst hbody
  obtain ⟨id, x, rfl, hfits, hconcrete⟩ := hanswer
  have hrest : x.length + 28 ≤ maxBufSize := by
    rw [List.length_append, le32_length] at hfits
    omega
  refine (runs_stkDrive h hne hle hrest hrecv).bind fun a t hrun => ?_
  obtain ⟨ha, ht⟩ := hrun
  rw [ha]
  refine (hconcrete t).bind fun r u hrun => ?_
  obtain ⟨hr, hu⟩ := hrun
  rw [hr]
  exact hk u (ht.concreted hu)

theorem idParam_eq (id : UInt32) : idParam id = some ⟨ofBytes (le32 id), .id⟩ := by
  rw [idParam, bufAddUi32_eq]
  rfl

theorem le32_append_ne_nil (id : UInt32) (x : Bytes) : le32 id ++ x ≠ [] :=
  List.ne_nil_of_length_pos (by
    rw [List.length_append, le32_length]
    omega)

theorem holds_of_length {n : Nat} (hx : x.length = n) (hn : n ≤ maxBufSize := by decide) :
    Holds (ofBytes x) x := holds_ofBytes (hx.trans_le hn)

/-! ## The dispatcher -/

theorem zero_methodReqPq : TypeSystem.zero.methodReqPq.id = 0 := rfl

theorem zero_ctorPQInnerData : TypeSystem.zero.ctorPQInnerData.id = 0 := rfl

theorem zero_methodReqDHParams : TypeSystem.zero.methodReqDHParams.id = 0 := rfl

theorem zero_ctorClientDHInnerData : TypeSystem.zero.ctorClientDHInnerData.id = 0 := rfl

theorem silAbstract_reqPq (m : MethodReqPq) (hid : m.id ≠ 0) :
    silAbstract { TypeSystem.zero with methodReqPq := m } =
      some [⟨ofBytes (le32 m.id), .id⟩, m.nonce] := by
  simp only [silAbstract, hid, idParam_eq, ne_eq, not_false_eq_true, if_true, Option.bind_eq_bind,
    Option.bind_some]

theorem silAbstract_pqInnerData (c : CtorPQInnerData) (hid : c.id ≠ 0) :
    silAbstract { TypeSystem.zero with ctorPQInnerData := c } =
      some [⟨ofBytes (le32 c.id), .id⟩, c.pq, c.p, c.q, c.nonce, c.serverNonce, c.newNonce] := by
  simp only [silAbstract, hid, idParam_eq, zero_methodReqPq, ne_eq, not_true_eq_false,
    not_false_eq_true, if_true, if_false, Option.bind_eq_bind, Option.bind_some]

theorem silAbstract_reqDHParams (m : MethodReqDHParams) (hid : m.id ≠ 0) :
    silAbstract { TypeSystem.zero with methodReqDHParams := m } =
      some [⟨ofBytes (le32 m.id), .id⟩, m.nonce, m.serverNonce, m.p, m.q, m.publicKeyFingerprint,
        m.encryptedData] := by
  simp only [silAbstract, hid, idParam_eq, zero_methodReqPq, zero_ctorPQInnerData, ne_eq,
    not_true_eq_false, not_false_eq_true, if_true, if_false, Option.bind_eq_bind, Option.bind_some]

theorem silAbstract_clientInnerData (c : CtorClientDHInnerData) (hid : c.id ≠ 0) :
    silAbstract { TypeSystem.zero with ctorClientDHInnerData := c } =
      some [⟨ofBytes (le32 c.id), .id⟩, c.nonce, c.serverNonce, c.retryId, c.gB] := by
  simp only [silAbstract, hid, idParam_eq, zero_methodReqPq, zero_ctorPQInnerData,
    zero_methodReqDHParams, ne_eq, not_true_eq_false, not_false_eq_true, if_true, if_false,
    Option.bind_eq_bind, Option.bind_some]

theorem silAbstract_setClientDHParams (m : MethodSetClientDHParams) (hid : m.id ≠ 0) :
    silAbstract { TypeSystem.zero with methodSetClientDHParams := m } =
      some [⟨ofBytes (le32 m.id), .id⟩, m.nonce, m.serverNonce, m.encryptedData] := by
  simp only [silAbstract, hid, idParam_eq, zero_methodReqPq, zero_ctorPQInnerData,
    zero_methodReqDHParams, zero_ctorClientDHInnerData, ne_eq, not_true_eq_false,
    not_false_eq_true, if_true, if_false, Option.bind_eq_bind, Option.bind_some]

/-! ## The first request -/

theorem runs_methodReqPqInit (s : Client) :
    Runs (methodReqPqInit W) s fun m t => Logs [] s t ∧
      m = { reqPq with nonce := ⟨ofBytes (randBytes W (W.time s.ticks) 16), .int128⟩ } := by
  refine (runs_bufRand (by decide) s).bind fun b t hrun => ?_
  obtain ⟨ht, _, hb⟩ := hrun
  refine runs_pure ⟨ht, ?_⟩
  rw [hb]
  rfl

/-- The method after its answer, or an older one. -/
def Server.asked (S : Server) (nonce nonce₀ : Bytes) : MethodReqPq :=
  { reqPq with nonce := ⟨ofBytes nonce, .int128⟩, ctorResPQ := S.ctorResPQ nonce₀ }

theorem runs_methodReqPqDrive (hn : nonce.length = 16) (hanswer : Answers W f es answer)
    (hrecv : Replies W s.sent (reqPqBody nonce) answer)
    (hf : (f (resetOnce s).t).ctorResPQ = S.ctorResPQ nonce₀) :
    Runs (methodReqPqDrive W { reqPq with nonce := ⟨ofBytes nonce, .int128⟩ }) s fun m t =>
      m = S.asked nonce nonce₀ ∧
        Asked f (reqPqBody nonce) ("trl_transport: len mismatch" :: es) s t := by
  have hserialize : List.Forall₂ (Serializes W)
      [⟨ofBytes (le32 reqPq.id), .id⟩, ⟨ofBytes nonce, .int128⟩] [le32 reqPq.id, nonce] :=
    .cons (serializes_id _) (.cons (serializes_int128 (holds_of_length hn) hn) .nil)
  have hid : reqPq.id ≠ 0 := by decide
  refine runs_bind_lift (silAbstract_reqPq _ hid) ?_
  refine runs_ask (reqPqBody nonce) hserialize ?_ (le32_append_ne_nil _ _) ?_ hanswer hrecv
    fun t ht => runs_pure ⟨?_, ht⟩
  · rw [List.flatten_cons, List.flatten_cons, List.flatten_nil, List.append_nil]
    rfl
  · rw [reqPqBody, List.length_append, le32_length, hn]
    decide
  · rw [ht.types, hf]
    rfl

/-! ## The second request -/

/-- What the second request needs: the factors of the number, a public key of at most 2048 bits, and
that what stands where `dwh` is declared does not look like a long buffer. -/
structure Ready (W : World) (S : Server) (n e : Nat) (p q : UInt32) : Prop where
  factor : ∃ r, W.factor (get64 S.pq.reverse) = some r ∧
    (if r.1 < r.2 then (r.1, r.2) else (r.2, r.1)) = (p, q)
  publicKey : W.publicKey = some (n, e)
  n_ne_zero : n ≠ 0
  n_le : n ≤ 256 ^ 256
  dwh : ∀ k, (W.stack .dwh k).size.toNat ≤ 139

variable {n e : Nat} {junk : Bytes}

def numberParam (p : UInt32) : Param := ⟨ofBytes (le32 p).reverse, .string⟩

/-- The method before it is sent. -/
def Server.requested (S : Server) (nonce : Bytes) (p q : UInt32) (encryptedData : Bytes) :
    MethodReqDHParams :=
  { methodReqDHParams with
    nonce := ⟨ofBytes nonce, .int128⟩
    serverNonce := ⟨ofBytes S.serverNonce, .int128⟩
    p := numberParam p
    q := numberParam q
    publicKeyFingerprint := ⟨ofBytes (le64 S.fingerprint), .vectorLong⟩
    encryptedData := ⟨ofBytes encryptedData, .string⟩
    ctorPQInnerData := ctorPQInnerDataInit (S.asked nonce nonce) (numberParam p) (numberParam q) }

theorem newNonceBuf : { zeroBuf with size := 32 } = ofBytes newNonce := ofBytes_zeros (by decide)

theorem holds_le32_reverse (p : UInt32) : Holds (ofBytes (le32 p).reverse) (le32 p).reverse :=
  holds_of_length (by rw [List.length_reverse, le32_length])

theorem serializes_number (p : UInt32) : Serializes W (numberParam p) (numberString p) :=
  serializes_string (holds_le32_reverse p) (by
    rw [List.length_reverse, le32_length]
    decide)

theorem swap_number (p : UInt32) :
    bufAddUi32 p = some (ofBytes (le32 p)) ∧
      bufSwap (ofBytes (le32 p)) = some (ofBytes (le32 p).reverse) :=
  ⟨bufAddUi32_eq p, bufSwap_ofBytes (by rw [le32_length]; decide)⟩

theorem runs_ctorPQInnerDataDrive (hn : nonce.length = 16) (s : Client) :
    Runs (ctorPQInnerDataDrive W
      (ctorPQInnerDataInit (S.asked nonce nonce₀) (numberParam p) (numberParam q))) s fun r t =>
        r = ofBytes (pqInnerData S nonce p q) ∧ Logs [] s t := by
  set c := ctorPQInnerDataInit (S.asked nonce nonce₀) (numberParam p) (numberParam q) with hc
  have hlen := length_pqInnerData (S := S) (p := p) (q := q) hn
  have hid : c.id ≠ 0 := (by decide : ctorPQInnerData.id ≠ 0)
  have hserialize : List.Forall₂ (Serializes W)
      [⟨ofBytes (le32 c.id), .id⟩, c.pq, c.p, c.q, c.nonce, c.serverNonce, c.newNonce]
      [le32 0x83c95aec, serializeBytes S.pq, numberString p, numberString q, nonce, S.serverNonce,
        newNonce] := by
    refine .cons (serializes_id _) (.cons (serializes_string (holds_of_length S.pq_length) ?_)
      (.cons (serializes_number p) (.cons (serializes_number q)
      (.cons (serializes_int128 (holds_of_length hn) hn)
      (.cons (serializes_int128 (holds_of_length S.serverNonce_length) S.serverNonce_length)
      (.cons (serializes_int256 ?_ List.length_replicate) .nil))))))
    · rw [S.pq_length]
      decide
    · rw [newNonceBuf]
      exact holds_of_length List.length_replicate
  have hflatten : [le32 0x83c95aec, serializeBytes S.pq, numberString p, numberString q, nonce,
      S.serverNonce, newNonce].flatten = pqInnerData S nonce p q := by
    simp only [List.flatten_cons, List.flatten_nil, List.append_nil]
    rfl
  refine runs_bind_lift (silAbstract_pqInnerData c hid) ?_
  refine (runs_selSerialize hserialize (by rw [hflatten, hlen]; decide) s).bind
    fun b t hrun => ?_
  obtain ⟨hb, ht⟩ := hrun
  rw [hb, hflatten]
  refine (runs_bufDump (holds_of_length hlen) (le32_append_ne_nil _ _) t).bind fun _ u hu => ?_
  exact runs_pure ⟨rfl, ht.trans hu⟩

theorem cryRsaE_eq {b : Buf} (hr : Ready W S n e p q) (hb : Holds b x) :
    cryRsaE W b = some (ofBytes (rsaField (beNat x ^ e % n))) := by
  have hlt : beNat x ^ e % n < 256 ^ 256 :=
    (Nat.mod_lt _ (Nat.pos_of_ne_zero hr.n_ne_zero)).trans_le hr.n_le
  have hcount : byteCount (beNat x ^ e % n) ≤ 256 := byteCount_le_iff.mpr hlt
  have hfield : (rsaField (beNat x ^ e % n)).length = 256 := length_rsaField hcount
  have hsizes : b.size.toNat ≤ maxBufSize ∧ byteCount (beNat x ^ e % n) ≤ maxBufSize :=
    ⟨hb.size.trans_le hb.length_le, hcount.trans (by decide)⟩
  have hover : { zeroBuf.over (beBytes (beNat x ^ e % n)) with size := 256 } =
      ofBytes (rsaField (beNat x ^ e % n)) := by
    refine Buf.ext ?_ (by rw [ofBytes, hfield]; rfl)
    show (beBytes _ ++ (ofBytes []).data.drop _).take maxBufSize = _
    rw [data_ofBytes (Nat.zero_le _), data_ofBytes (hfield.trans_le (by decide)), hfield,
      List.nil_append, List.drop_replicate, List.length_nil, Nat.sub_zero, length_beBytes,
      List.take_of_length_le, rsaField, List.append_assoc, List.replicate_append_replicate]
    · congr 2
      rw [maxBufSize]
      omega
    · rw [List.length_append, length_beBytes, List.length_replicate]
      omega
  simp only [cryRsaE, hr.publicKey, Option.bind_eq_bind, Option.bind_some, hb.bytes, bnModExp,
    if_neg hr.n_ne_zero, if_pos hsizes, hover]

theorem runs_methodReqDHParamsInit (hr : Ready W S n e p q) (hn : nonce.length = 16) (s : Client) :
    Runs (methodReqDHParamsInit W (S.asked nonce nonce₀)) s fun m t => Logs [] s t ∧ ∃ k,
      m = S.requested nonce p q (rsaField
        (beNat (rsaBlock (W.stack .dwh k).bytes (pqInnerData S nonce p q)) ^ e % n)) := by
  obtain ⟨⟨p₀, q₀⟩, hfactor, hpq⟩ := hr.factor
  have hrev : S.pq.reverse.length = 8 := by rw [List.length_reverse, S.pq_length]
  have hswap : bufSwap (ofBytes S.pq) = some (ofBytes S.pq.reverse) :=
    bufSwap_ofBytes (by rw [S.pq_length]; decide)
  have hnumber : bufGetUi64 (ofBytes S.pq.reverse) = get64 S.pq.reverse := by
    rw [bufGetUi64, (holds_of_length (n := 8) hrev).take_data hrev.ge, ← hrev, List.take_length]
  obtain ⟨hp, hp'⟩ := swap_number p
  obtain ⟨hq, hq'⟩ := swap_number q
  refine runs_bind_lift hswap ?_
  rw [hnumber]
  refine runs_bind_lift hfactor ?_
  dsimp only at hpq ⊢
  rw [hpq]
  dsimp only
  refine runs_bind_lift hp (runs_bind_lift hp' (runs_bind_lift hq (runs_bind_lift hq' ?_)))
  refine (runs_ctorPQInnerDataDrive (p := p) (q := q) hn s).bind fun d t₁ hrun => ?_
  obtain ⟨hd, ht₁⟩ := hrun
  rw [hd]
  set inner := pqInnerData S nonce p q with hinner
  have hinnerlen : inner.length = 96 := length_pqInnerData hn
  have hholds : Holds (ofBytes inner) inner := holds_of_length hinnerlen
  refine (runs_hshSha1 hholds t₁).bind fun h t₂ hrun => ?_
  obtain ⟨hh, ht₂⟩ := hrun
  refine (runs_newLocal .dwh t₂).bind fun dwh t₃ hrun => ?_
  obtain ⟨hdwh, ht₃⟩ := hrun
  have hjunksize := hr.dwh t₂.locals
  have hjunk : Holds dwh (W.stack .dwh t₂.locals).bytes := by
    rw [hdwh]
    exact holds_bytes (hjunksize.trans (by decide))
  set junk := (W.stack .dwh t₂.locals).bytes with hjunkdef
  have hjunklen : junk.length ≤ 139 := by
    rw [← hjunk.size, hdwh]
    exact hjunksize
  have hhash : (Fips180.Sha1.hash inner).length = 20 := Fips180.Sha1.length_hash inner
  obtain ⟨b₁, hb₁, hholds₁⟩ := hjunk.bufCat hh (by rw [hhash, maxBufSize]; omega)
  obtain ⟨b₂, hb₂, hholds₂⟩ := hholds₁.bufCat hholds (by
    rw [List.length_append, hhash, hinnerlen, maxBufSize]
    omega)
  have hb₂size : b₂.size.toNat = junk.length + 116 := by
    rw [hholds₂.size, List.length_append, List.length_append, hhash, hinnerlen]
  have hpad : (255 - b₂.size).toNat = 139 - junk.length := by
    rw [UInt32.toNat_sub_of_le _ _ (UInt32.le_iff_toNat_le.mpr (by
      rw [hb₂size]
      show junk.length + 116 ≤ 255
      omega)), hb₂size]
    show 255 - (junk.length + 116) = _
    omega
  have hzeros : Holds { zeroBuf with size := 255 - b₂.size }
      (List.replicate (139 - junk.length) 0) := by
    rw [ofBytes_zeros (by rw [hpad, maxBufSize]; omega), hpad]
    exact holds_ofBytes (by rw [List.length_replicate, maxBufSize]; omega)
  obtain ⟨b₃, hb₃, hholds₃⟩ := hholds₂.bufCat hzeros (by
    rw [List.length_append, List.length_append, hhash, hinnerlen, List.length_replicate, maxBufSize]
    omega)
  rw [List.append_assoc, List.append_assoc] at hholds₃
  refine runs_bind_lift hb₁ (runs_bind_lift hb₂ (runs_bind_lift hb₃ ?_))
  refine runs_bind_lift (cryRsaE_eq hr hholds₃) (runs_pure ⟨(ht₁.trans ht₂).trans ht₃, ?_⟩)
  exact ⟨t₂.locals, rfl⟩

/-- The method after its answer, or an older one. -/
def Server.answered (S : Server) (C : Crypto) (nonce nonce₀ : Bytes) (p q : UInt32)
    (encryptedData : Bytes) : MethodReqDHParams :=
  { S.requested nonce p q encryptedData with
    ctorServerDHParamsOk := S.ctorServerDHParamsOk C newNonce nonce₀ }

theorem runs_methodReqDHParamsDrive {encryptedData : Bytes} (hn : nonce.length = 16)
    (he : encryptedData.length = 256) (hanswer : Answers W f es answer)
    (hrecv : Replies W s.sent (reqDHParamsBody S nonce p q encryptedData) answer)
    (hf : (f (resetOnce s).t).ctorServerDHParamsOk =
      S.ctorServerDHParamsOk W.crypto newNonce nonce₀) :
    Runs (methodReqDHParamsDrive W (S.requested nonce p q encryptedData)) s fun m t =>
      m = S.answered W.crypto nonce nonce₀ p q encryptedData ∧
        Asked f (reqDHParamsBody S nonce p q encryptedData)
          ("trl_transport: len mismatch" :: es) s t := by
  set m := S.requested nonce p q encryptedData with hm
  have hid : m.id ≠ 0 := (by decide : methodReqDHParams.id ≠ 0)
  have hserialize : List.Forall₂ (Serializes W)
      [⟨ofBytes (le32 m.id), .id⟩, m.nonce, m.serverNonce, m.p, m.q, m.publicKeyFingerprint,
        m.encryptedData]
      [le32 0xd712e4be, nonce, S.serverNonce, numberString p, numberString q, le64 S.fingerprint,
        serializeBytes encryptedData] := by
    refine .cons (serializes_id _) (.cons (serializes_int128 (holds_of_length hn) hn)
      (.cons (serializes_int128 (holds_of_length S.serverNonce_length) S.serverNonce_length)
      (.cons (serializes_number p) (.cons (serializes_number q)
      (.cons (serializes_vectorLong (holds_of_length (le64_length _)))
      (.cons (serializes_string (holds_of_length he) ?_) .nil))))))
    rw [he]
    decide
  refine runs_bind_lift (silAbstract_reqDHParams m hid) ?_
  refine runs_ask (reqDHParamsBody S nonce p q encryptedData) hserialize ?_
    (le32_append_ne_nil _ _) ?_ hanswer hrecv fun t ht => runs_pure ⟨?_, ht⟩
  · simp only [List.flatten_cons, List.flatten_nil, List.append_nil]
    rfl
  · rw [length_reqDHParamsBody hn he]
    decide
  · rw [ht.types, hf]
    rfl

/-! ## The third request -/

theorem bufCat_zeroBuf {b : Buf} (h : Holds b x) : bufCat zeroBuf b = some (ofBytes x) :=
  bufCat_ofBytes h (by
    rw [List.length_nil, Nat.zero_add]
    exact h.length_le)

theorem Holds.bufAdd_substr {b : Buf} {k : Nat} {n : UInt32} (h : Holds b x)
    (hk : k + n.toNat ≤ x.length) :
    Mtx.bufAdd (b.data.drop k) n = some (ofBytes (substr x k n.toNat)) := by
  have hsplit : x = x.take k ++ substr x k n.toNat ++ (x.drop k).drop n.toNat := by
    rw [substr, List.append_assoc, List.take_append_drop, List.take_append_drop]
  have htake : k = (x.take k).length := by
    rw [List.length_take]
    omega
  rw [hsplit] at h
  exact h.bufAdd htake (substr_length hk).symm

/-- The hash of two values that are put together. -/
theorem runs_hashTwo {β : Type} {a b : Buf} {k : Buf → ClientM β} {Q : β → Client → Prop}
    (ha : Holds a x) (hb : Holds b y) (hle : x.length + y.length ≤ maxBufSize)
    (hk : ∀ r t, Holds r (Fips180.Sha1.hash (x ++ y)) → Logs [] s t → Runs (k r) t Q) :
    Runs (do
      let c ← (bufCat zeroBuf a : ClientM Buf)
      let d ← (bufCat c b : ClientM Buf)
      let h ← hshSha1 W d
      k h) s Q := by
  have hholds : Holds (ofBytes (x ++ y)) (x ++ y) := holds_ofBytes (by rwa [List.length_append])
  refine runs_bind_lift (bufCat_zeroBuf ha) (runs_bind_lift (bufCat_ofBytes hb hle) ?_)
  exact (runs_hshSha1 hholds s).bind fun r t hrun => hk r t hrun.1 hrun.2

theorem runs_ctorServerDHInnerDataInit {encryptedData : Bytes} (hn : nonce₀.length = 16)
    (s : Client) :
    Runs (ctorServerDHInnerDataInit W (S.asked nonce nonce₀)
      (S.answered W.crypto nonce nonce₀ p q encryptedData)) s fun r t => Logs [] s t ∧
        Holds r.answer (S.innerData nonce₀) ∧
        r.tmpAesKey = ofBytes (tmpAesKey newNonce S.serverNonce) ∧
        r.tmpAesIv = ofBytes (tmpAesIv newNonce S.serverNonce) := by
  have hnewlen : newNonce.length = 32 := length_newNonce
  have hserverlen := S.serverNonce_length
  have hserver : Holds (ofBytes S.serverNonce) S.serverNonce := holds_of_length hserverlen
  have hnew : Holds { zeroBuf with size := 32 } newNonce := by
    rw [newNonceBuf]
    exact holds_of_length hnewlen
  have hhash (x : Bytes) : (Fips180.Sha1.hash x).length = 20 := Fips180.Sha1.length_hash x
  refine runs_hashTwo hnew hserver (by rw [hnewlen, hserverlen]; decide) fun h₁ t₁ hh₁ ht₁ => ?_
  refine runs_hashTwo hserver hnew (by rw [hnewlen, hserverlen]; decide) fun h₂ t₂ hh₂ ht₂ => ?_
  have hkeylen : (tmpAesKey newNonce S.serverNonce).length = 32 := length_tmpAesKey
  have hivlen : (tmpAesIv newNonce S.serverNonce).length = 32 :=
    length_tmpAesIv (by rw [hnewlen]; decide)
  have h012 : bufAdd h₂.data 12 =
      some (ofBytes (substr (Fips180.Sha1.hash (S.serverNonce ++ newNonce)) 0 12)) :=
    hh₂.bufAdd_substr (k := 0) (n := 12) (by rw [hhash]; decide)
  have h128 : bufAdd (h₂.data.drop 12) 8 =
      some (ofBytes (substr (Fips180.Sha1.hash (S.serverNonce ++ newNonce)) 12 8)) :=
    hh₂.bufAdd_substr (k := 12) (n := 8) (by rw [hhash]; decide)
  have h04 : bufAdd ({ zeroBuf with size := 32 } : Buf).data 4 =
      some (ofBytes (substr newNonce 0 4)) :=
    hnew.bufAdd_substr (k := 0) (n := 4) (by rw [hnewlen]; decide)
  have hsubstr {x : Bytes} {k n : Nat} (h : k + n ≤ x.length) (hn : n ≤ maxBufSize) :
      Holds (ofBytes (substr x k n)) (substr x k n) :=
    holds_ofBytes ((substr_length h).trans_le hn)
  have hparts₁ : (substr (Fips180.Sha1.hash (S.serverNonce ++ newNonce)) 0 12).length = 12 :=
    substr_length (by rw [hhash]; decide)
  have hparts₂ : (substr (Fips180.Sha1.hash (S.serverNonce ++ newNonce)) 12 8).length = 8 :=
    substr_length (by rw [hhash])
  have hparts₃ : (substr newNonce 0 4).length = 4 := substr_length (by rw [hnewlen]; decide)
  refine runs_bind_lift h012 (runs_bind_lift (bufCat_zeroBuf hh₁) ?_)
  have hkey := bufCat_ofBytes (x := Fips180.Sha1.hash (newNonce ++ S.serverNonce))
    (holds_of_length hparts₁) (by rw [hhash, hparts₁]; decide)
  refine runs_bind_lift hkey (runs_bind_lift h128 ?_)
  refine runs_hashTwo hnew hnew (by rw [hnewlen]; decide) fun h₃ t₃ hh₃ ht₃ => ?_
  refine runs_bind_lift h04 (runs_bind_lift (bufCat_zeroBuf (holds_of_length hparts₂)) ?_)
  have hiv₁ := bufCat_ofBytes (x := substr (Fips180.Sha1.hash (S.serverNonce ++ newNonce)) 12 8)
    hh₃ (by rw [hhash, hparts₂]; decide)
  have hiv := bufCat_ofBytes (x := substr (Fips180.Sha1.hash (S.serverNonce ++ newNonce)) 12 8 ++
    Fips180.Sha1.hash (newNonce ++ newNonce)) (holds_of_length hparts₃) (by
      rw [List.length_append, hhash, hparts₂, hparts₃]
      decide)
  refine runs_bind_lift hiv₁ (runs_bind_lift hiv ?_)
  -- the answer is decrypted, and its hash and the end of its padding are cut off
  have hanswer : (S.encryptedAnswer W.crypto newNonce nonce₀).length = 592 :=
    Server.length_encryptedAnswer hn
  have hplain := Server.length_answer (S := S) hn
  refine (runs_cryAesD (holds_of_length hanswer) (holds_of_length hkeylen) (holds_of_length hivlen)
    (List.ne_nil_of_length_pos (by rw [hanswer]; decide)) (by rw [hanswer]; decide) hkeylen hivlen
    t₃).bind fun r t₄ hrun => ?_
  obtain ⟨hr, ht₄⟩ := hrun
  rw [hr, Server.decrypt_encryptedAnswer (by rw [hnewlen]; decide) hn]
  have hdecrypted := holds_of_length (n := 592) hplain
  have hinner := Server.length_innerData (S := S) hn
  refine runs_bind_lift (hdecrypted.bufAdd_drop (hhash _).symm (hhash _).symm) (runs_pure ?_)
  have hrest := holds_ofBytes_right hdecrypted
  refine ⟨((ht₁.trans ht₂).trans ht₃).trans ht₄, ⟨?_, ?_⟩, rfl, rfl⟩
  · have hsize := hrest.size
    rw [List.length_append, hinner, S.padding_length] at hsize
    rw [hinner]
    show ((ofBytes _).size - 8).toNat = 564
    rw [UInt32.toNat_sub_of_le _ _ (UInt32.le_iff_toNat_le.mpr (by rw [hsize]; decide)), hsize]
    rfl
  · exact (List.prefix_append _ _).trans hrest.data

/-- The exponent of the client, if it looks at the clock for the `k`-th time. -/
def exponent (W : World) (k : Nat) : Bytes := randBytes W (W.time k) 256

/-- The power of the client. -/
def Server.clientPower (S : Server) (b : Bytes) : Nat := S.g.toNat ^ beNat b % beNat S.dhPrime

/-- What the client encrypts in its last request. -/
def Server.clientPlain (S : Server) (nonce : Bytes) (gB : Nat) (pad : Bytes) : Bytes :=
  Fips180.Sha1.hash (clientInnerData S nonce gB) ++ (clientInnerData S nonce gB ++ pad)

def Server.clientEncrypted (S : Server) (C : Crypto) (nonce : Bytes) (gB : Nat) (pad : Bytes) :
    Bytes :=
  C.aesIgeE (S.clientPlain nonce gB pad) (tmpAesKey newNonce S.serverNonce)
    (tmpAesIv newNonce S.serverNonce)

theorem byteCount_mod (hS : x.length = 256) (hzero : beNat x ≠ 0) (a : Nat) :
    byteCount (a % beNat x) ≤ 256 :=
  byteCount_le_iff.mpr ((Nat.mod_lt _ (Nat.pos_of_ne_zero hzero)).trans
    ((beNat_lt x).trans_le (by rw [hS])))

theorem byteCount_clientPower (b : Bytes) : byteCount (S.clientPower b) ≤ 256 :=
  byteCount_mod S.dhPrime_length S.dhPrime_ne_zero _

theorem beNat_le32_reverse (v : UInt32) : beNat (le32 v).reverse = v.toNat := by
  have hlt : v.toNat < 256 ^ 4 := v.toNat_lt
  rw [beNat, List.reverse_reverse, le32, leNat_leBytes_of_lt hlt]

theorem runs_ctorClientDHInnerDataInit (serverTime : Param) (s : Client) :
    Runs (ctorClientDHInnerDataInit W (S.ctorServerDHInnerData nonce serverTime)) s fun c t =>
      ∃ gB, s.ticks < t.ticks ∧
        c = ⟨ctorClientDHInnerData.id, ⟨ofBytes nonce, .int128⟩, ⟨ofBytes S.serverNonce, .int128⟩,
          ⟨ofBytes (le32 0), .long⟩, ⟨gB, .string⟩, ofBytes (exponent W s.ticks)⟩ ∧
        Holds gB (beBytes (S.clientPower (exponent W s.ticks))) ∧
        Logs (powErrors (S.clientPower (exponent W s.ticks))) s t := by
  refine runs_bind_lift (bufAddUi32_eq 0) (runs_bind_lift (swap_number S.g).2 ?_)
  refine (runs_bufRand (by decide) s).bind fun b t hrun => ?_
  obtain ⟨ht, hlt, hb⟩ := hrun
  have hexponent : Holds b (exponent W s.ticks) := by
    rw [hb]
    exact holds_of_length (length_randBytes _ _)
  refine (runs_cmnPowMod (holds_le32_reverse S.g) hexponent (holds_of_length S.dhPrime_length)
    (length_randBytes _ _) S.dhPrime_length S.dhPrime_ne_zero t).bind fun gB u hrun => ?_
  obtain ⟨hgB, hu⟩ := hrun
  rw [beNat_le32_reverse] at hgB hu
  refine runs_pure ⟨gB, hlt.trans_le hu.ticks, ?_, hgB, ht.trans hu⟩
  rw [hb]
  rfl

theorem length_clientInnerData (hn : nonce.length = 16) {gB : Nat} (hgB : byteCount gB ≤ 256) :
    4 ≤ (clientInnerData S nonce gB).length ∧ (clientInnerData S nonce gB).length ≤ 308 := by
  have hstring := length_serializeBytes_le (x := beBytes gB)
  rw [length_beBytes] at hstring
  simp only [clientInnerData, List.length_append, le32_length, hn, S.serverNonce_length,
    List.length_replicate]
  omega

theorem runs_ctorClientDHInnerDataDrive {gB : Buf} {v : Nat} {b : Buf} (hn : nonce.length = 16)
    (hgB : Holds gB (beBytes v)) (hv : byteCount v ≤ 256) (s : Client) :
    Runs (ctorClientDHInnerDataDrive W ⟨ctorClientDHInnerData.id, ⟨ofBytes nonce, .int128⟩,
      ⟨ofBytes S.serverNonce, .int128⟩, ⟨ofBytes (le32 0), .long⟩, ⟨gB, .string⟩, b⟩) s
      fun r t => r = ofBytes (clientInnerData S nonce v) ∧ Logs [] s t := by
  set c : CtorClientDHInnerData := ⟨ctorClientDHInnerData.id, ⟨ofBytes nonce, .int128⟩,
    ⟨ofBytes S.serverNonce, .int128⟩, ⟨ofBytes (le32 0), .long⟩, ⟨gB, .string⟩, b⟩ with hc
  have hid : c.id ≠ 0 := (by decide : ctorClientDHInnerData.id ≠ 0)
  have hlen := (length_clientInnerData (S := S) hn hv).2
  have hserialize : List.Forall₂ (Serializes W)
      [⟨ofBytes (le32 c.id), .id⟩, c.nonce, c.serverNonce, c.retryId, c.gB]
      [le32 0x6643b654, nonce, S.serverNonce, List.replicate 8 0, serializeBytes (beBytes v)] := by
    refine .cons (serializes_id _) (.cons (serializes_int128 (holds_of_length hn) hn)
      (.cons (serializes_int128 (holds_of_length S.serverNonce_length) S.serverNonce_length)
      (.cons serializes_retryId (.cons (serializes_string hgB ?_) .nil))))
    rw [length_beBytes, maxBufSize]
    omega
  have hflatten : [le32 0x6643b654, nonce, S.serverNonce, List.replicate 8 0,
      serializeBytes (beBytes v)].flatten = clientInnerData S nonce v := by
    simp only [List.flatten_cons, List.flatten_nil, List.append_nil]
    rfl
  refine runs_bind_lift (silAbstract_clientInnerData c hid) ?_
  rw [← hflatten]
  exact runs_selSerialize hserialize (by rw [hflatten, maxBufSize]; omega) s

/-- The last method before it is sent, with the exponent of the `k`-th look at the clock. -/
structure Finishes (W : World) (S : Server) (nonce nonce₀ : Bytes) (k : Nat) (pad : Bytes)
    (m : MethodSetClientDHParams) : Prop where
  id_eq : m.id = methodSetClientDHParams.id
  nonce_eq : m.nonce = ⟨ofBytes nonce, .int128⟩
  serverNonce_eq : m.serverNonce = ⟨ofBytes S.serverNonce, .int128⟩
  encryptedData_eq : m.encryptedData = ⟨ofBytes (S.clientEncrypted W.crypto nonce₀
    (S.clientPower (exponent W k)) pad), .string⟩
  innerData_eq : ∃ serverTime, m.ctorServerDHInnerData = S.ctorServerDHInnerData nonce₀ serverTime
  b_eq : m.ctorClientDHInnerData.b = ofBytes (exponent W k)
  salt_holds : Holds m.salt (serverSalt newNonce S.serverNonce)
  blocks : 16 ∣ (S.clientPlain nonce₀ (S.clientPower (exponent W k)) pad).length
  pad_lt : pad.length < 16

theorem length_clientPlain (hn : nonce.length = 16) {gB : Nat} (hgB : byteCount gB ≤ 256)
    {pad : Bytes} (hpad : pad.length < 16) :
    0 < (S.clientPlain nonce gB pad).length ∧ (S.clientPlain nonce gB pad).length ≤ 343 := by
  obtain ⟨-, hlen⟩ := length_clientInnerData (S := S) hn hgB
  simp only [Server.clientPlain, List.length_append, Fips180.Sha1.length_hash]
  omega

/-- The bytes that fill the blocks. -/
theorem toNat_pad {a b : Buf} (ha : Holds a x) (hb : Holds b y) :
    ((16 - (a.size + b.size) % 16) % 16).toNat = (16 - (x.length + y.length) % 16) % 16 := by
  have hx := ha.length_le
  have hy := hb.length_le
  rw [maxBufSize] at hx hy
  have hsum : (a.size + b.size).toNat = x.length + y.length := by
    rw [UInt32.toNat_add, ha.size, hb.size, Nat.mod_eq_of_lt (by omega)]
  have hle : (a.size + b.size) % 16 ≤ 16 := by
    rw [UInt32.le_iff_toNat_le, UInt32.toNat_mod]
    exact (Nat.mod_lt _ (by decide)).le
  rw [UInt32.toNat_mod, UInt32.toNat_sub_of_le _ _ hle, UInt32.toNat_mod, hsum]
  rfl

theorem runs_methodSetClientDHParamsInit {encryptedData : Bytes} (hn : nonce₀.length = 16)
    (s : Client) :
    Runs (methodSetClientDHParamsInit W (S.asked nonce nonce₀)
      (S.answered W.crypto nonce nonce₀ p q encryptedData)) s fun m t =>
      ∃ k pad serverTime, s.ticks ≤ k ∧ k < t.ticks ∧ Finishes W S nonce nonce₀ k pad m ∧
        Concreted (fun t =>
          { t with ctorServerDHInnerData := S.ctorServerDHInnerData nonce₀ serverTime })
          (powErrors (S.clientPower (exponent W k))) s t := by
  obtain ⟨rest, hrest, hconcrete⟩ := runs_concrete_innerData (W := W) (S := S) hn
  refine (runs_ctorServerDHInnerDataInit hn s).bind fun c t₁ hrun => ?_
  obtain ⟨ht₁, hanswer, hkey, hiv⟩ := hrun
  rw [hrest] at hanswer
  refine Runs.bind (P := fun c t => ∃ serverTime,
    c = S.ctorServerDHInnerData nonce₀ serverTime ∧ Concreted (fun t =>
      { t with ctorServerDHInnerData := S.ctorServerDHInnerData nonce₀ serverTime }) [] t₁ t)
    ?_ fun c₁ t₂ hdecoded => ?_
  · refine runs_bind_lift (selDeserialize_eq hanswer) ?_
    refine (hconcrete t₁).bind fun r t hrun => ?_
    obtain ⟨hr, serverTime, ht⟩ := hrun
    refine runs_pure ⟨serverTime, ?_, ht⟩
    rw [hr, ht.types]
  obtain ⟨serverTime, hc₁, ht₂⟩ := hdecoded
  rw [hc₁]
  refine (runs_ctorClientDHInnerDataInit serverTime t₂).bind
    fun c₂ t₃ hrun => ?_
  obtain ⟨gB, hlt, hc₂, hgB, ht₃⟩ := hrun
  set v := S.clientPower (exponent W t₂.ticks) with hv
  have hcount : byteCount v ≤ 256 := byteCount_clientPower _
  rw [hc₂]
  refine (runs_ctorClientDHInnerDataDrive hn hgB hcount t₃).bind fun data t₄ hrun => ?_
  obtain ⟨hdata, ht₄⟩ := hrun
  rw [hdata]
  obtain ⟨hmin, hmax⟩ := length_clientInnerData (S := S) hn hcount
  set inner := clientInnerData S nonce₀ v with hinner
  have hholds : Holds (ofBytes inner) inner := holds_ofBytes (by rw [maxBufSize]; omega)
  refine (runs_hshSha1 hholds t₄).bind fun hash t₅ hrun => ?_
  obtain ⟨hhash, ht₅⟩ := hrun
  have hhashlen : (Fips180.Sha1.hash inner).length = 20 := Fips180.Sha1.length_hash inner
  have hpad := toNat_pad hhash hholds
  rw [hhashlen] at hpad
  have hpadlt : (16 - (20 + inner.length) % 16) % 16 < 16 := Nat.mod_lt _ (by decide)
  refine (runs_bufRand (by rw [hpad, maxBufSize]; omega) t₅).bind
    fun rand t₆ hrun => ?_
  obtain ⟨ht₆, _, hrand⟩ := hrun
  rw [hpad] at hrand
  set pad := randBytes W (W.time t₅.ticks) ((16 - (20 + inner.length) % 16) % 16) with hpaddef
  have hpadlen : pad.length = (16 - (20 + inner.length) % 16) % 16 := length_randBytes _ _
  have hrandholds : Holds rand pad := by
    rw [hrand]
    exact holds_ofBytes (by rw [hpadlen, maxBufSize]; omega)
  have hplain : Fips180.Sha1.hash inner ++ inner ++ pad = S.clientPlain nonce₀ v pad :=
    List.append_assoc _ _ _
  have hplainlen : (S.clientPlain nonce₀ v pad).length = 20 + inner.length + pad.length := by
    rw [← hplain, List.length_append, List.length_append, hhashlen]
  have hblocks : 16 ∣ (S.clientPlain nonce₀ v pad).length := by
    rw [hplainlen, hpadlen]
    omega
  have hcat₁ := bufCat_ofBytes (x := Fips180.Sha1.hash inner) hholds (by
    rw [hhashlen, maxBufSize]
    omega)
  have hcat₂ := bufCat_ofBytes (x := Fips180.Sha1.hash inner ++ inner) hrandholds (by
    rw [List.length_append, hhashlen, maxBufSize]
    omega)
  refine runs_bind_lift (bufCat_zeroBuf hhash) (runs_bind_lift hcat₁ (runs_bind_lift hcat₂ ?_))
  rw [hplain, hkey, hiv]
  have hnewlen : newNonce.length = 32 := length_newNonce
  have hkeylen : (tmpAesKey newNonce S.serverNonce).length = 32 := length_tmpAesKey
  have hivlen : (tmpAesIv newNonce S.serverNonce).length = 32 :=
    length_tmpAesIv (by rw [hnewlen]; decide)
  refine (runs_cryAesE (holds_ofBytes (by rw [hplainlen, maxBufSize]; omega))
    (holds_of_length hkeylen) (holds_of_length hivlen)
    (List.ne_nil_of_length_pos (by rw [hplainlen]; omega)) hblocks hkeylen hivlen t₆).bind
    fun r t₇ hrun => ?_
  obtain ⟨hr, ht₇⟩ := hrun
  -- the salt
  have hnew : Holds { zeroBuf with size := 32 } newNonce := by
    rw [newNonceBuf]
    exact holds_of_length hnewlen
  have hsub₁ := hnew.bufAdd_substr (k := 0) (n := 8) (by rw [hnewlen]; decide)
  have hsub₂ := (holds_of_length S.serverNonce_length).bufAdd_substr (k := 0) (n := 8)
    (by rw [S.serverNonce_length]; decide)
  have hsublen₁ : (substr newNonce 0 8).length = 8 := substr_length (by rw [hnewlen]; decide)
  have hsublen₂ : (substr S.serverNonce 0 8).length = 8 :=
    substr_length (by rw [S.serverNonce_length]; decide)
  refine runs_bind_lift hsub₁ (runs_bind_lift hsub₂ ?_)
  refine (runs_bufXor (holds_of_length hsublen₁) (holds_of_length hsublen₂)
    (hsublen₁.trans hsublen₂.symm) t₇).bind fun salt t₈ hrun => ?_
  obtain ⟨hsalt, ht₈⟩ := hrun
  refine runs_pure ?_
  have hlogs := ((((ht₃.trans ht₄).trans ht₅).trans ht₆).trans ht₇).trans ht₈
  simp only [List.append_nil] at hlogs
  refine ⟨t₂.ticks, pad, serverTime, ?_, ?_, ⟨rfl, rfl, rfl, by rw [hr]; rfl, ⟨serverTime, rfl⟩,
    rfl, hsalt, hblocks, hpadlen.trans_lt hpadlt⟩, ?_⟩
  · exact ht₁.ticks.trans ((resetOnce_ticks t₁).ge.trans ht₂.ticks)
  · exact hlt.trans_le ((((ht₄.trans ht₅).trans ht₆).trans ht₇).trans ht₈).ticks
  · exact (ht₁.concreted ht₂).logs hlogs

theorem length_clientEncrypted {gB : Nat} {pad : Bytes}
    (hblocks : 16 ∣ (S.clientPlain nonce gB pad).length) (C : Crypto) :
    (S.clientEncrypted C nonce gB pad).length = (S.clientPlain nonce gB pad).length :=
  C.aesIgeE_length _ _ _ hblocks

/-- The nonces of the last answer are buffers. -/
def NoncesFit (t : TypeSystem) : Prop :=
  t.ctorSetClientDHParamsAnswerOk.nonce.value.size.toNat ≤ maxBufSize ∧
    t.ctorSetClientDHParamsAnswerOk.serverNonce.value.size.toNat ≤ maxBufSize

/-- What is wrong with the last answer is logged. -/
theorem runs_methodSetClientDHParamsDrive {k : Nat} {pad : Bytes} {m : MethodSetClientDHParams}
    (hn : nonce.length = 16) (hn₀ : nonce₀.length = 16) (hm : Finishes W S nonce nonce₀ k pad m)
    (hanswer : Answers W f es answer) (hfit : NoncesFit (f (resetOnce s).t))
    (hrecv : Replies W s.sent (setClientDHParamsBody S nonce
      (S.clientEncrypted W.crypto nonce₀ (S.clientPower (exponent W k)) pad)) answer) :
    Runs (methodSetClientDHParamsDrive W m) s fun m' t => ∃ es,
      m' = { m with ctorSetClientDHParamsAnswerOk := t.t.ctorSetClientDHParamsAnswerOk } ∧
        Asked f (setClientDHParamsBody S nonce
          (S.clientEncrypted W.crypto nonce₀ (S.clientPower (exponent W k)) pad)) es s t := by
  set e := S.clientEncrypted W.crypto nonce₀ (S.clientPower (exponent W k)) pad with he
  have helen : e.length ≤ 343 := (length_clientEncrypted hm.blocks W.crypto).trans_le
    (length_clientPlain hn₀ (byteCount_clientPower _) hm.pad_lt).2
  have hid : m.id ≠ 0 := by
    rw [hm.id_eq]
    decide
  have hserialize : List.Forall₂ (Serializes W)
      [⟨ofBytes (le32 m.id), .id⟩, m.nonce, m.serverNonce, m.encryptedData]
      [le32 0xf5045f1f, nonce, S.serverNonce, serializeBytes e] := by
    rw [hm.id_eq, hm.nonce_eq, hm.serverNonce_eq, hm.encryptedData_eq]
    refine .cons (serializes_id _) (.cons (serializes_int128 (holds_of_length hn) hn)
      (.cons (serializes_int128 (holds_of_length S.serverNonce_length) S.serverNonce_length)
      (.cons (serializes_string (holds_ofBytes ?_) ?_) .nil)))
    · exact helen.trans (by decide)
    · exact (Nat.add_le_add_right helen 8).trans (by decide)
  refine runs_bind_lift (silAbstract_setClientDHParams m hid) ?_
  refine runs_ask (setClientDHParamsBody S nonce e) hserialize ?_ (le32_append_ne_nil _ _) ?_
    hanswer hrecv fun t ht => ?_
  · simp only [List.flatten_cons, List.flatten_nil, List.append_nil]
    rfl
  · have hstring := length_serializeBytes_le (x := e)
    simp only [setClientDHParamsBody, List.length_append, le32_length, hn, S.serverNonce_length,
      maxBufSize]
    omega
  · rw [← ht.types] at hfit
    refine (runs_bufCmp_any hfit.1 _ t).bind fun r t₁ hrun => ?_
    obtain ⟨es₁, ht₁⟩ := hrun
    refine (runs_logIf _ _ t₁).bind fun _ t₂ ht₂ => ?_
    refine (runs_bufCmp_any hfit.2 _ t₂).bind fun r t₃ hrun => ?_
    obtain ⟨es₃, ht₃⟩ := hrun
    refine (runs_logIf _ _ t₃).bind fun _ t₄ ht₄ => runs_pure ?_
    have hlogs := ((ht₁.trans ht₂).trans ht₃).trans ht₄
    exact ⟨_, by rw [hlogs.types], ht.logs hlogs⟩

end Libtg.Mtx
