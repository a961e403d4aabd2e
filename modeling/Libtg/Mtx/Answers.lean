import Libtg.Mtx.Steps

/-!
# What the answers of a server leave in the variables of `sil.c`

The values a server sent stand in `t` as it sent them. An answer with an unknown id leaves `t` as it
was.
-/

namespace Libtg.Mtx

open LittleEndian BigEndian Exec

/-! ## What is read -/

namespace Server

variable (S : Server) (C : Crypto) (newNonce nonce : Bytes)

def ctorResPQ : CtorResPQ :=
  ⟨idResPQ, ⟨ofBytes nonce, .int128⟩, ⟨ofBytes S.serverNonce, .int128⟩, ⟨ofBytes S.pq, .string⟩,
    ⟨ofBytes (le64 S.fingerprint), .vectorLong⟩⟩

def ctorServerDHParamsOk : CtorServerDHParamsOk :=
  ⟨idServerDHParamsOk, ⟨ofBytes nonce, .int128⟩, ⟨ofBytes S.serverNonce, .int128⟩,
    ⟨ofBytes (S.encryptedAnswer C newNonce nonce), .string⟩⟩

/-- The time is read from the wrong place where the power is shorter than 256 bytes. -/
def ctorServerDHInnerData (serverTime : Param) : CtorServerDHInnerData :=
  ⟨idServerDHInnerData, ⟨ofBytes nonce, .int128⟩, ⟨ofBytes S.serverNonce, .int128⟩,
    ⟨ofBytes (le32 S.g), .int⟩, ⟨ofBytes S.dhPrime, .string⟩, ⟨ofBytes S.gA, .string⟩, serverTime⟩

def ctorDhGenOk : CtorSetClientDHParamsAnswerOk :=
  ⟨idDhGenOk, ⟨ofBytes nonce, .int128⟩, ⟨ofBytes S.serverNonce, .int128⟩,
    ⟨ofBytes S.newNonceHash1, .int128⟩⟩

end Server

variable {W : World} {S : Server} {C : Crypto} {newNonce nonce : Bytes} {s t u : Client}
  {es es' : List String} {f : TypeSystem → TypeSystem} {b : Buf} {x y z : Bytes}

/-- Nothing but `t` has changed, and that by `f`. -/
structure Sets (f : TypeSystem → TypeSystem) (es : List String) (s t : Client) : Prop where
  sharedRc : t.sharedRc = s.sharedRc
  types : t.t = f s.t
  flag : t.resetTgApiTypeSystemFlag = s.resetTgApiTypeSystemFlag
  errors : t.errors = s.errors ++ es
  sent : t.sent = s.sent
  ticks : s.ticks ≤ t.ticks

theorem Logs.setT (h : Logs es s t) (f : TypeSystem → TypeSystem) :
    Runs (setT f) t fun _ u => Sets f es s u :=
  ⟨(), _, rfl, h.sharedRc, congrArg f h.types, h.flag, h.errors, h.sent, h.ticks⟩

/-- An answer, with the variables cleared before the first one. -/
def Concreted (f : TypeSystem → TypeSystem) (es : List String) (s t : Client) : Prop :=
  Sets f es (resetOnce s) t

theorem runs_silConcrete {id : UInt32} {rest : Buf} {P : Client → Prop}
    (h : Runs (concreteCase W (silConcreteN W 33) id rest) (resetOnce s) fun _ t => P t) :
    Runs (silConcrete W (ofBytes (le32 id), rest)) s fun r t => r = t.t ∧ P t := by
  have hid : bufGetUi32 (ofBytes (le32 id)) = id := by
    refine Holds.bufGetUi32 (y := []) ?_
    rw [List.append_nil]
    exact holds_ofBytes (by rw [le32_length]; decide)
  refine (runs_step resetOnce s).bind fun _ t ht => ?_
  subst ht
  show Runs (concreteCase W (silConcreteN W 33) (bufGetUi32 (ofBytes (le32 id))) rest >>= _) _ _
  rw [hid]
  refine h.bind fun _ t ht => (runs_get t).bind fun c u hrun => ?_
  obtain ⟨hc, hu⟩ := hrun
  refine runs_pure ?_
  rw [hc, hu]
  exact ⟨rfl, ht⟩

theorem dropBytes_eq {l : UInt32} (h : Holds b (x ++ y)) (hl : l.toNat = x.length) :
    dropBytes b l = some (ofBytes y) := h.bufAdd_drop hl hl

/-- The answer fits, and `sil_concrete` changes `t` by `f`. -/
def Answers (W : World) (f : TypeSystem → TypeSystem) (es : List String) (answer : Bytes) : Prop :=
  ∃ id x, answer = le32 id ++ x ∧ answer.length + 24 ≤ maxBufSize ∧
    ∀ s, Runs (silConcrete W (ofBytes (le32 id), ofBytes x)) s fun r t =>
      r = t.t ∧ Concreted f es s t

/-! ## `resPQ` -/

theorem holds_ofBytes_right (h : Holds b (x ++ y)) : Holds (ofBytes y) y := by
  have hle := h.length_le
  rw [List.length_append] at hle
  exact holds_ofBytes (by omega)

theorem runs_concreteResPQ (hn : nonce.length = 16)
    (h : Holds b (nonce ++ (S.serverNonce ++ (serializeBytes S.pq ++ (le32 idVector ++
      (le32 (UInt32.ofNat (S.fingerprints.length + 1)) ++
        (le64 S.fingerprint ++ S.fingerprints.flatMap le64))))))) (s : Client) :
    Runs (concreteResPQ W idResPQ b) s fun _ t =>
      Sets (fun t => { t with ctorResPQ := S.ctorResPQ nonce }) [] s t := by
  have h₁ := holds_ofBytes_right h
  have h₂ := holds_ofBytes_right h₁
  have h₃ := holds_ofBytes_right h₂
  refine (runs_int128 h hn s).bind fun p₁ t₁ hrun => ?_
  obtain ⟨hp₁, ht₁⟩ := hrun
  refine runs_bind_lift (dropBytes_eq h hn.symm) ?_
  refine (runs_int128 h₁ S.serverNonce_length t₁).bind fun p₂ t₂ hrun => ?_
  obtain ⟨hp₂, ht₂⟩ := hrun
  refine runs_bind_lift (dropBytes_eq h₁ S.serverNonce_length.symm) ?_
  refine (runs_string h₂ t₂).bind fun p₃ t₃ hrun => ?_
  obtain ⟨hp₃, ht₃⟩ := hrun
  have hpq : (p₃.value.size + 4).toNat = (serializeBytes S.pq).length := by
    rw [hp₃, Server.length_pq_string]
    show (UInt32.ofNat S.pq.length + 4).toNat = 12
    rw [S.pq_length]
    rfl
  refine runs_bind_lift (dropBytes_eq h₂ hpq) ?_
  refine (runs_vector S.fingerprints_length h₃ t₃).bind fun p₄ t₄ hrun => ?_
  obtain ⟨hp₄, ht₄⟩ := hrun
  rw [hp₁, hp₂, hp₃, hp₄]
  exact (((ht₁.trans ht₂).trans ht₃).trans ht₄).setT _

/-- `resPQ` is understood. -/
theorem answers_resPQ (hn : nonce.length = 16) :
    Answers W (fun t => { t with ctorResPQ := S.ctorResPQ nonce }) [] (S.resPQ nonce) := by
  have hlen := Server.length_resPQ (S := S) hn
  have hfingerprints := S.fingerprints_length
  have hle : (S.resPQ nonce).length + 24 ≤ maxBufSize := by
    rw [maxBufSize]
    omega
  refine ⟨_, _, rfl, hle, fun s => runs_silConcrete ?_⟩
  rw [concreteCase, if_pos rfl]
  refine runs_concreteResPQ hn (holds_ofBytes ?_) _
  rw [Server.resPQ, List.length_append, le32_length] at hlen
  rw [maxBufSize]
  omega

/-! ## `server_DH_params_ok` -/

theorem runs_concreteServerDHParamsOk (hn : nonce.length = 16)
    (h : Holds b (nonce ++ (S.serverNonce ++
      serializeBytes (S.encryptedAnswer C newNonce nonce)))) (s : Client) :
    Runs (concreteServerDHParamsOk W idServerDHParamsOk b) s fun _ t =>
      Sets (fun t => { t with ctorServerDHParamsOk := S.ctorServerDHParamsOk C newNonce nonce })
        [] s t := by
  have h₁ := holds_ofBytes_right h
  have h₂ := holds_ofBytes_right h₁
  refine (runs_int128 h hn s).bind fun p₁ t₁ hrun => ?_
  obtain ⟨hp₁, ht₁⟩ := hrun
  refine runs_bind_lift (dropBytes_eq h hn.symm) ?_
  refine (runs_int128 h₁ S.serverNonce_length t₁).bind fun p₂ t₂ hrun => ?_
  obtain ⟨hp₂, ht₂⟩ := hrun
  refine runs_bind_lift (dropBytes_eq h₁ S.serverNonce_length.symm) ?_
  have hstring : Holds (ofBytes (serializeBytes (S.encryptedAnswer C newNonce nonce)))
      (serializeBytes (S.encryptedAnswer C newNonce nonce) ++ []) := by
    rwa [List.append_nil]
  refine (runs_string hstring t₂).bind fun p₃ t₃ hrun => ?_
  obtain ⟨hp₃, ht₃⟩ := hrun
  rw [hp₁, hp₂, hp₃]
  exact ((ht₁.trans ht₂).trans ht₃).setT _

theorem answers_serverDHParamsOk (hn : nonce.length = 16) :
    Answers W (fun t => { t with ctorServerDHParamsOk := S.ctorServerDHParamsOk C newNonce nonce })
      [] (S.serverDHParamsOk C newNonce nonce) := by
  have hlen : (S.serverDHParamsOk C newNonce nonce).length = 632 :=
    Server.length_serverDHParamsOk hn
  refine ⟨_, _, rfl, by rw [hlen]; decide, fun s => runs_silConcrete ?_⟩
  rw [concreteCase, if_neg (by decide), if_pos rfl]
  refine runs_concreteServerDHParamsOk hn (holds_ofBytes ?_) _
  rw [Server.serverDHParamsOk, List.length_append, le32_length] at hlen
  rw [maxBufSize]
  omega

/-! ## `server_DH_inner_data` -/

theorem runs_concreteServerDHInnerData (hn : nonce.length = 16)
    (h : Holds b (nonce ++ (S.serverNonce ++ (le32 S.g ++ (serializeBytes S.dhPrime ++
      (serializeBytes S.gA ++ le32 S.serverTime)))))) (s : Client) :
    Runs (concreteServerDHInnerData W idServerDHInnerData b) s fun _ t =>
      ∃ serverTime, Sets (fun t =>
        { t with ctorServerDHInnerData := S.ctorServerDHInnerData nonce serverTime }) [] s t := by
  have h₁ := holds_ofBytes_right h
  have h₂ := holds_ofBytes_right h₁
  have h₃ := holds_ofBytes_right h₂
  have h₄ := holds_ofBytes_right h₃
  refine (runs_int128 h hn s).bind fun p₁ t₁ hrun => ?_
  obtain ⟨hp₁, ht₁⟩ := hrun
  refine runs_bind_lift (dropBytes_eq h hn.symm) ?_
  refine (runs_int128 h₁ S.serverNonce_length t₁).bind fun p₂ t₂ hrun => ?_
  obtain ⟨hp₂, ht₂⟩ := hrun
  refine runs_bind_lift (dropBytes_eq h₁ S.serverNonce_length.symm) ?_
  refine (runs_int h₂ (le32_length _) t₂).bind fun p₃ t₃ hrun => ?_
  obtain ⟨hp₃, ht₃⟩ := hrun
  refine runs_bind_lift (dropBytes_eq h₂ (le32_length _).symm) ?_
  refine (runs_string h₃ t₃).bind fun p₄ t₄ hrun => ?_
  obtain ⟨hp₄, ht₄⟩ := hrun
  have hprime : (p₄.value.size + 4).toNat = (serializeBytes S.dhPrime).length := by
    rw [hp₄, Server.length_dhPrime_string]
    show (UInt32.ofNat S.dhPrime.length + 4).toNat = 260
    rw [S.dhPrime_length]
    rfl
  refine runs_bind_lift (dropBytes_eq h₃ hprime) ?_
  refine (runs_string h₄ t₄).bind fun p₅ t₅ hrun => ?_
  obtain ⟨hp₅, ht₅⟩ := hrun
  -- the power is skipped by its own length and four, which may be less than its string takes
  obtain ⟨hmin, hmax⟩ := S.gA_length
  have hskip : (p₅.value.size + 4).toNat = S.gA.length + 4 := by
    rw [hp₅]
    show (UInt32.ofNat S.gA.length + 4).toNat = _
    rw [UInt32.toNat_add, UInt32.toNat_ofNat_of_lt' (by rw [UInt32.size]; omega)]
    exact Nat.mod_eq_of_lt (by show S.gA.length + 4 < 2 ^ 32; omega)
  have hlast : (serializeBytes S.gA ++ le32 S.serverTime).length = 264 := by
    rw [List.length_append, Server.length_gA_string, le32_length]
  have hsplit : (serializeBytes S.gA ++ le32 S.serverTime).take (S.gA.length + 4) ++
      (serializeBytes S.gA ++ le32 S.serverTime).drop (S.gA.length + 4) =
        serializeBytes S.gA ++ le32 S.serverTime := List.take_append_drop _ _
  have htake : ((serializeBytes S.gA ++ le32 S.serverTime).take (S.gA.length + 4)).length =
      S.gA.length + 4 := by
    rw [List.length_take, hlast]
    omega
  have hholds : Holds (ofBytes (serializeBytes S.gA ++ le32 S.serverTime))
      ((serializeBytes S.gA ++ le32 S.serverTime).take (S.gA.length + 4) ++
        (serializeBytes S.gA ++ le32 S.serverTime).drop (S.gA.length + 4)) := by
    rwa [hsplit]
  refine runs_bind_lift (dropBytes_eq hholds (hskip.trans htake.symm)) ?_
  have htime := holds_ofBytes_right hholds
  set rest := (serializeBytes S.gA ++ le32 S.serverTime).drop (S.gA.length + 4) with hrest
  have hfour : Holds (ofBytes rest) (rest.take 4 ++ rest.drop 4) := by
    rwa [List.take_append_drop]
  refine (runs_int hfour ?_ t₅).bind fun p₆ t₆ hrun => ?_
  · rw [List.length_take, hrest, List.length_drop, hlast]
    omega
  obtain ⟨_, ht₆⟩ := hrun
  rw [hp₁, hp₂, hp₃, hp₄, hp₅]
  exact ((((((ht₁.trans ht₂).trans ht₃).trans ht₄).trans ht₅).trans ht₆).setT _).mono
    fun _ _ hset => ⟨p₆, hset⟩

/-- The decrypted answer, with what is left of its padding. -/
theorem runs_concrete_innerData (hn : nonce.length = 16) :
    ∃ rest, S.innerData nonce = le32 idServerDHInnerData ++ rest ∧
      ∀ s, Runs (silConcrete W (ofBytes (le32 idServerDHInnerData), ofBytes rest)) s fun r t =>
        r = t.t ∧ ∃ serverTime, Concreted (fun t =>
          { t with ctorServerDHInnerData := S.ctorServerDHInnerData nonce serverTime }) [] s t := by
  have hlen := Server.length_innerData (S := S) hn
  refine ⟨_, rfl, fun s => runs_silConcrete ?_⟩
  rw [concreteCase, if_neg (by decide), if_neg (by decide), if_pos rfl]
  refine runs_concreteServerDHInnerData hn (holds_ofBytes ?_) _
  rw [Server.innerData, List.length_append, le32_length] at hlen
  rw [maxBufSize]
  omega

/-! ## `dh_gen_ok` -/

theorem runs_concreteDhGenOk (hn : nonce.length = 16)
    (h : Holds b (nonce ++ (S.serverNonce ++ S.newNonceHash1))) (s : Client) :
    Runs (concreteDhGenOk W idDhGenOk b) s fun _ t =>
      Sets (fun t => { t with ctorSetClientDHParamsAnswerOk := S.ctorDhGenOk nonce }) [] s t := by
  have h₁ := holds_ofBytes_right h
  have h₂ := holds_ofBytes_right h₁
  have hhash : Holds (ofBytes S.newNonceHash1) (S.newNonceHash1 ++ []) := by
    rwa [List.append_nil]
  refine (runs_int128 h hn s).bind fun p₁ t₁ hrun => ?_
  obtain ⟨hp₁, ht₁⟩ := hrun
  refine runs_bind_lift (dropBytes_eq h hn.symm) ?_
  refine (runs_int128 h₁ S.serverNonce_length t₁).bind fun p₂ t₂ hrun => ?_
  obtain ⟨hp₂, ht₂⟩ := hrun
  refine runs_bind_lift (dropBytes_eq h₁ S.serverNonce_length.symm) ?_
  refine (runs_int128 hhash S.newNonceHash1_length t₂).bind fun p₃ t₃ hrun => ?_
  obtain ⟨hp₃, ht₃⟩ := hrun
  rw [hp₁, hp₂, hp₃]
  exact ((ht₁.trans ht₂).trans ht₃).setT _

theorem answers_dhGenOk (hn : nonce.length = 16) :
    Answers W (fun t => { t with ctorSetClientDHParamsAnswerOk := S.ctorDhGenOk nonce }) []
      (S.dhGenOk nonce) := by
  have hlen := Server.length_dhGenOk (S := S) hn
  refine ⟨_, _, rfl, by rw [hlen]; decide, fun s => runs_silConcrete ?_⟩
  rw [concreteCase, if_neg (by decide), if_neg (by decide), if_neg (by decide), if_pos rfl]
  refine runs_concreteDhGenOk hn (holds_ofBytes ?_) _
  rw [Server.dhGenOk, List.length_append, le32_length] at hlen
  rw [maxBufSize]
  omega

/-! ## Other answers -/

/-- The ids of the cases of `sil_concrete` that set something. -/
def settingIds : List UInt32 :=
  [idResPQ, idServerDHParamsOk, idServerDHInnerData, idDhGenOk, idMsgContainer,
    idNewSessionCreated, idPong]

/-- What is logged of the others. -/
def complaint (id : UInt32) : String :=
  if id = idBadMsgNotification then "id_bad_msg_notification received" else "unknown id"

/-- Every other answer is logged, and leaves the variables as they were. -/
theorem answers_ignored {id : UInt32} (h : id ∉ settingIds)
    (hle : (le32 id ++ x).length + 24 ≤ maxBufSize) :
    Answers W (fun t => t) [complaint id] (le32 id ++ x) := by
  simp only [settingIds, List.mem_cons, List.not_mem_nil, or_false, not_or] at h
  refine ⟨id, x, rfl, hle, fun s => runs_silConcrete ?_⟩
  have hlogged (m : String) : Runs (logError m) (resetOnce s) fun _ t =>
      Concreted (fun t => t) [m] s t :=
    (runs_logError m _).mono fun _ t ht =>
      ⟨ht.sharedRc, ht.types, ht.flag, ht.errors, ht.sent, ht.ticks⟩
  rw [concreteCase, if_neg h.1, if_neg h.2.1, if_neg h.2.2.1, if_neg h.2.2.2.1,
    if_neg h.2.2.2.2.1, if_neg h.2.2.2.2.2.1, if_neg h.2.2.2.2.2.2, complaint]
  split_ifs
  · exact hlogged _
  · exact hlogged _

end Libtg.Mtx
