import Libtg.Tg.Deheader
import Libtg.Tg.Gunzip
import Libtg.Tg.Packets

/-!
# Packets that must have no effect (`_tg_receive` and `handle_tl` in `tg/queue.c`)

A message of another session and a compressed block that does not inflate are only reported, and the
thread goes on with what it has. `grows_tgReceiveN`: it takes nothing back. So a message of another
session always leaves its id among the acknowledgements (`not_ignoresForeign`), and of a block that
did not inflate nothing is left exactly when what zlib had written by then is inert
(`ignoresFailure_iff`).
-/

namespace Libtg.Receiving

open LittleEndian

/-! ## Nothing is taken back -/

/-- More calls, more updates and more acknowledgements, behind the old ones. -/
structure Grows (r r' : Receiver) : Prop where
  log : r.queries.log <:+ r'.queries.log
  updates : r.updates <+: r'.updates
  msgids : r.tg.msgids <+: r'.tg.msgids

/-- Wherever the program ends, the state has grown. -/
def Extends {α : Type} (c : RecvM α) : Prop := ∀ r out, c r = some out → Grows r out.2

section
variable {W : Setting} {i n : Nat} {α β : Type} {r r' r'' : Receiver}

theorem Grows.refl (r : Receiver) : Grows r r :=
  ⟨List.suffix_rfl, List.prefix_rfl, List.prefix_rfl⟩

theorem Grows.trans (h : Grows r r') (h' : Grows r' r'') : Grows r r'' :=
  ⟨h.log.trans h'.log, h.updates.trans h'.updates, h.msgids.trans h'.msgids⟩

theorem grows_addMsgid (r : Receiver) (msgId : UInt64) : Grows r (r.addMsgid msgId) :=
  ⟨List.suffix_rfl, List.prefix_rfl, List.prefix_append _ _⟩

theorem extends_pure (a : α) : Extends (pure a : RecvM α) := by
  intro r out h
  cases h
  exact .refl r

theorem extends_lift (x : Option α) : Extends (liftM x : RecvM α) := by
  intro r out h
  cases x with
  | none => cases h
  | some a =>
    cases h
    exact .refl r

theorem extends_modify {f : Receiver → Receiver} (h : ∀ r, Grows r (f r)) :
    Extends (modify f) := by
  intro r out hout
  cases hout
  exact h r

theorem Extends.bind {c : RecvM α} {f : α → RecvM β} (hc : Extends c) (hf : ∀ a, Extends (f a)) :
    Extends (c >>= f) := by
  intro r out h
  obtain ⟨⟨a, r'⟩, ha, h⟩ := Option.bind_eq_some_iff.mp h
  exact (hc r _ ha).trans (hf a r' out h)

theorem Extends.forM {γ : Type} {f : γ → RecvM Unit} (h : ∀ c, Extends (f c)) (cs : List γ) :
    Extends (cs.forM f) := by
  induction cs with
  | nil => exact extends_pure ()
  | cons c cs ih => exact (h c).bind fun _ => ih

/-- A query that is found leaves a mark. -/
theorem catchedTl_found {msgId : UInt64} {tl : Tl} {q : Nat} {out : Unit × Receiver}
    (hfind : r.queries.find msgId = some q) (h : catchedTl W i msgId tl r = some out) :
    .took i q msgId :: r.queries.log <:+ out.2.queries.log := by
  rw [catchedTl, hfind] at h
  obtain ⟨arg, -, rfl⟩ := Option.map_eq_some_iff.mp h
  dsimp only
  split_ifs <;> exact List.suffix_append _ _

theorem extends_catchedTl (msgId : UInt64) (tl : Tl) : Extends (catchedTl W i msgId tl) := by
  intro r out h
  cases hfind : r.queries.find msgId with
  | none =>
    rw [catchedTl, hfind] at h
    cases h
    exact .refl r
  | some q =>
    refine ⟨(List.suffix_cons _ _).trans (catchedTl_found hfind h), ?_, ?_⟩
    all_goals
      rw [catchedTl, hfind] at h
      obtain ⟨arg, -, rfl⟩ := Option.map_eq_some_iff.mp h
      dsimp only
      split_ifs <;> exact List.prefix_rfl

theorem extends_runCall {rec : Tl → RecvM Unit} (hrec : ∀ tl, Extends (rec tl)) (call : Call) :
    Extends (runCall W i rec call) := by
  cases call with
  | addMsgid msgId => exact extends_modify fun r => grows_addMsgid r msgId
  | message body => exact (extends_lift _).bind fun r => hrec r.1
  | handleTl tl => exact hrec tl
  | catchedTl msgId tl => exact extends_catchedTl msgId tl
  | timeDiff => exact extends_modify fun _ => ⟨List.suffix_rfl, List.prefix_rfl, List.prefix_rfl⟩
  | doUpdates tl =>
    exact extends_modify fun _ => ⟨List.suffix_rfl, List.prefix_append _ _, List.prefix_rfl⟩

theorem extends_handleTlN (tl : Tl) : Extends (handleTlN W i n tl) := by
  induction n generalizing tl with
  | zero =>
    intro r out h
    cases h
  | succ n ih => exact (extends_lift _).bind fun calls => .forM (extends_runCall ih) calls

theorem extends_dispatchN (msg : Bytes) : Extends (dispatchN W i n msg) := by
  refine (extends_lift _).bind fun x => ?_
  obtain ⟨tl, t⟩ := x
  cases tl with
  | null =>
    intro r out h
    cases h
  | _ =>
    dsimp only
    split_ifs
    · exact extends_pure _
    · exact (extends_handleTlN _).bind fun _ => extends_pure _

/-- No query is taken or called back, no update handed on and nothing queued. -/
structure Silent (r r' : Receiver) : Prop where
  queries : r'.queries = r.queries
  updates : r'.updates = r.updates
  msgids : r'.tg.msgids = r.tg.msgids

theorem not_silent_addMsgid {msgId : UInt64} (h : Grows (r.addMsgid msgId) r') : ¬ Silent r r' := by
  intro hs
  have hlen := h.msgids.length_le
  rw [hs.msgids] at hlen
  change (r.tg.msgids ++ [msgId]).length ≤ _ at hlen
  rw [List.length_append] at hlen
  exact absurd hlen (by simp)

end

/-! ## A message of another session -/

/-- The packet decrypts to a message whose session id is not the client's. -/
def ForeignMessage (C : Crypto) (tg : Tg) (packet : Bytes) : Prop :=
  ∃ d, tgDecrypt C tg packet true = some d ∧ 16 ≤ d.length ∧
    get64 (substr d 8 8) ≠ get64 tg.ssid

/-- `_tg_receive` ends and has changed neither the salt nor anything else. -/
def IgnoresForeign (W : Setting) (i : Nat) (packet : Bytes) (r : Receiver) : Prop :=
  ∃ out, Receives W i packet r out ∧ Silent r out.2 ∧ out.2.tg.salt = r.tg.salt

section
variable {W : Setting} {i : Nat} {r : Receiver} {packet d data : Bytes} {tg tg' : Tg}

/-- The id of the message is queued, whatever its session. -/
theorem tgDeheader_msgids (hd : d.length ≠ 0) (h : tgDeheader tg d true = some (data, tg')) :
    ∃ msgId, tg'.msgids = tg.msgids ++ [msgId] := by
  rw [tgDeheader_eq_cursor hd] at h
  simp only [cursorDeheader, Cursor.bind_apply, Option.map_eq_some_iff,
    Option.bind_eq_some_iff] at h
  obtain ⟨_, ⟨salt, -, ssid, -, msgId, -, seqNo, -, len, -, b, -, hret⟩, hout⟩ := h
  cases hret
  cases hout
  exact ⟨_, rfl⟩

/-- A packet of four bytes is not decrypted. -/
theorem tgDecrypt_four {C : Crypto} (hpacket : packet.length = 4)
    (h : tgDecrypt C tg packet true = some d) : d = [] := by
  rw [tgDecrypt, if_neg (by omega), if_pos rfl] at h
  dsimp only at h
  split_ifs at h with hid hsize
  · exact (Option.some.inj h).symm
  · exact (Option.some.inj h).symm
  · rw [hpacket] at hsize
    exact absurd (by decide) hsize

/-- Of a message of another session at least the acknowledgement stays. -/
theorem grows_foreign {out : Rtl × Receiver} (h : ForeignMessage W.crypto r.tg packet)
    (hout : Receives W i packet r out) : ∃ msgId, Grows (r.addMsgid msgId) out.2 := by
  obtain ⟨d, hd, hlen, -⟩ := h
  obtain ⟨n, hrun⟩ := hout
  have h404 : ¬ (packet.length = 4 ∧ get32 packet = 0xfffffe6c) := by
    rintro ⟨hfour, -⟩
    rw [tgDecrypt_four hfour hd] at hlen
    exact absurd hlen (by decide)
  have hne : d.length ≠ 0 := by omega
  rw [tgReceiveN, if_neg h404, get_bind, lift_bind_of_some hd, if_neg hne] at hrun
  cases hhead : tgDeheader r.tg d true with
  | none =>
    rw [hhead] at hrun
    cases hrun
  | some x =>
    obtain ⟨data, tg'⟩ := x
    obtain ⟨msgId, hmsgids⟩ := tgDeheader_msgids hne hhead
    rw [lift_bind_of_some hhead] at hrun
    obtain ⟨hlog, hupdates, hgrows⟩ := extends_dispatchN data { r with tg := tg' } out hrun
    refine ⟨msgId, hlog, hupdates, ?_⟩
    show r.tg.msgids ++ [msgId] <+: _
    rw [← hmsgids]
    exact hgrows

/-- No message of another session is ignored. -/
theorem not_ignoresForeign (W : Setting) (i : Nat) (r : Receiver) (packet : Bytes)
    (h : ForeignMessage W.crypto r.tg packet) : ¬ IgnoresForeign W i packet r := by
  rintro ⟨out, hout, hsilent, -⟩
  obtain ⟨msgId, hgrows⟩ := grows_foreign h hout
  exact not_silent_addMsgid hgrows hsilent

/-- The `pong` of another session. -/
def foreignPacket : Bytes :=
  sealMessage pingCrypto waiting.tg.key 8 (pong.plaintext (List.replicate 8 9))

theorem foreignMessage_pong : ForeignMessage wrapSetting.crypto waiting.tg foreignPacket := by
  refine ⟨pong.plaintext (List.replicate 8 9), tgDecrypt_sealMessage countingKey_length ?_, ?_, ?_⟩
  · rw [pong.plaintext_length (by decide)]
    exact pong.blocks
  · rw [pong.plaintext_length (by decide)]
    omega
  · decide +kernel

theorem not_ignoresForeign_pong : ¬ IgnoresForeign wrapSetting 0 foreignPacket waiting :=
  not_ignoresForeign wrapSetting 0 waiting foreignPacket foreignMessage_pong

theorem ignoresForeign_counterexample :
    ¬ ∀ (W : Setting) (i : Nat) (r : Receiver) (packet : Bytes),
      ForeignMessage W.crypto r.tg packet → IgnoresForeign W i packet r := by
  intro h
  obtain ⟨out, hout, hsilent, -⟩ := h wrapSetting 0 waiting foreignPacket foreignMessage_pong
  obtain ⟨msgId, hgrows⟩ := grows_foreign foreignMessage_pong hout
  exact not_silent_addMsgid hgrows hsilent

end

/-! ## A block that does not inflate -/

/-- Nothing comes of the object but a report. -/
inductive Inert (W : Setting) (s : State) : Tl → Prop where
  | gzip {tl x : Tl} {t : Bytes} (hid : tl.id = idGzipPacked)
    (hx : tlDeserialize W.schema (W.gunzip tl.packedData).buf = some (x, t)) (h : Inert W s x) :
    Inert W s tl
  | container {tl : Tl} (hid : tl.id = idMsgContainer) (h : tl.messages = some []) : Inert W s tl
  | answer {tl : Tl} {msgId : UInt64} (h : Answers tl msgId) (hfind : s.find msgId = none) :
    Inert W s tl
  | other {tl : Tl} (hgzip : tl.id ≠ idGzipPacked) (hcontainer : tl.id ≠ idMsgContainer)
    (hanswer : ∀ msgId, ¬ Answers tl msgId) (hupdates : isUpdates tl.id = false) : Inert W s tl

/-- The surroundings with this zlib. -/
def zlibSetting (Z : Zlib) (S : Schema) (C : Crypto) (ntp : Nat → UInt64) : Setting :=
  ⟨S, gunzipBuf Z, C, ntp⟩

/-- `handle_tl` of the object ends and has delivered nothing. -/
def HandledSilently (W : Setting) (i : Nat) (tl : Tl) (r : Receiver) : Prop :=
  ∃ n r', handleTlN W i n tl r = some ((), r') ∧ Silent r r'

section
variable {W : Setting} {i n : Nat} {r r' : Receiver} {tl : Tl}

theorem Silent.refl (r : Receiver) : Silent r r := ⟨rfl, rfl, rfl⟩

theorem handleTl_answers {msgId : UInt64} (h : Answers tl msgId) :
    ∃ x, handleTl W.gunzip tl = some [.catchedTl msgId x] := by
  rcases h with ⟨hid, rfl⟩ | ⟨hid | hid, rfl⟩
  · exact ⟨_, handleTl_rpcResult hid⟩
  · refine ⟨.null, ?_⟩
    rw [handleTl, hid]
    rfl
  · refine ⟨.null, ?_⟩
    rw [handleTl, hid]
    rfl

/-- The remaining objects lead to no call, or to one of `ntp_time_diff`. -/
theorem handleTl_other (hgzip : tl.id ≠ idGzipPacked) (hcontainer : tl.id ≠ idMsgContainer)
    (hanswer : ∀ msgId, ¬ Answers tl msgId) (hupdates : isUpdates tl.id = false) :
    handleTl W.gunzip tl = some [] ∨ handleTl W.gunzip tl = some [.timeDiff] := by
  rw [handleTl, if_neg hgzip, if_neg hcontainer]
  split_ifs with hbad hinfo hnew hresult hup
  · exact .inr rfl
  · exact absurd (.inr ⟨.inl hinfo, rfl⟩) (hanswer _)
  · exact absurd (.inr ⟨.inr hnew, rfl⟩) (hanswer _)
  · exact absurd (.inl ⟨hresult, rfl⟩) (hanswer _)
  · exact absurd hup (by rw [hupdates]; decide)
  · exact .inl rfl

theorem Inert.silently (h : Inert W r.queries tl) : HandledSilently W i tl r := by
  induction h with
  | @gzip tl x t hid hx _ ih =>
    obtain ⟨n, r', hrun, hsilent⟩ := ih
    refine ⟨n + 1, r', ?_, hsilent⟩
    rw [handleTlN_of_calls (handleTl_gzip hid), forM_singleton, runCall, lift_bind_of_some hx]
    exact hrun
  | container hid hms =>
    refine ⟨1, r, ?_, .refl r⟩
    rw [handleTlN_of_calls (handleTl_container hid hms)]
    rfl
  | answer hanswer hfind =>
    obtain ⟨x, hcalls⟩ := handleTl_answers (W := W) hanswer
    refine ⟨1, r, ?_, .refl r⟩
    rw [handleTlN_of_calls hcalls, forM_singleton, runCall, catchedTl, hfind]
  | other hgzip hcontainer hanswer hupdates =>
    rcases handleTl_other (W := W) hgzip hcontainer hanswer hupdates with hcalls | hcalls
    · exact ⟨1, r, by rw [handleTlN_of_calls hcalls]; rfl, .refl r⟩
    · refine ⟨1, r.setTimeDiff W, ?_, rfl, rfl, rfl⟩
      rw [handleTlN_of_calls hcalls, forM_singleton]
      rfl

theorem inert_of_silently (h : handleTlN W i n tl r = some ((), r')) (hs : Silent r r') :
    Inert W r.queries tl := by
  induction n generalizing tl with
  | zero => cases h
  | succ n ih =>
    obtain ⟨_, calls, hn, hcalls, hrun⟩ := handleTlN_eq_some h
    obtain rfl := Nat.succ.inj hn
    by_cases hgzip : tl.id = idGzipPacked
    · cases (handleTl_gzip hgzip).symm.trans hcalls
      rw [forM_singleton, runCall] at hrun
      obtain ⟨⟨x, t⟩, hx, hrun⟩ := lift_bind_eq_some hrun
      exact .gzip hgzip hx (ih hrun)
    by_cases hcontainer : tl.id = idMsgContainer
    · rw [handleTl, if_neg hgzip, if_pos hcontainer, Option.map_eq_some_iff] at hcalls
      obtain ⟨ms, hms, rfl⟩ := hcalls
      cases ms with
      | nil => exact .container hcontainer hms
      | cons m ms =>
        obtain ⟨r₁, hadd, hrest⟩ := forM_cons_eq_some hrun
        cases hadd
        exact absurd hs (not_silent_addMsgid (Extends.forM (extends_runCall extends_handleTlN) _ _ _
          hrest))
    by_cases hanswer : ∃ msgId, Answers tl msgId
    · obtain ⟨msgId, hmsgId⟩ := hanswer
      refine .answer hmsgId ?_
      obtain ⟨x, hx⟩ := handleTl_answers (W := W) hmsgId
      cases hx.symm.trans hcalls
      rw [forM_singleton, runCall] at hrun
      cases hfind : r.queries.find msgId with
      | none => rfl
      | some q =>
        have hlog := (catchedTl_found hfind hrun).length_le
        rw [hs.queries] at hlog
        exact absurd hlog (Nat.not_succ_le_self _)
    refine .other hgzip hcontainer (fun msgId hmsgId => hanswer ⟨msgId, hmsgId⟩) ?_
    by_contra hupdates
    have hup : isUpdates tl.id := by simpa using hupdates
    obtain ⟨hresult, -, hinfo, herror⟩ := isUpdates_ne hup
    have hdo : handleTl W.gunzip tl = some [.doUpdates tl] := by
      rw [handleTl, if_neg hgzip, if_neg hcontainer, if_neg fun hb => herror (.inr hb),
        if_neg fun hb => hinfo (.inl hb), if_neg fun hb => hinfo (.inr hb), if_neg hresult,
        if_pos hup]
    cases hdo.symm.trans hcalls
    rw [forM_singleton] at hrun
    cases hrun
    have hlen := congrArg List.length hs.updates
    change (r.updates ++ [tl]).length = _ at hlen
    rw [List.length_append] at hlen
    exact absurd hlen (by simp)

theorem Inert.of_gzip {s : State} (hid : tl.id = idGzipPacked) (h : Inert W s tl) :
    ∃ x t, tlDeserialize W.schema (W.gunzip tl.packedData).buf = some (x, t) ∧ Inert W s x := by
  cases h with
  | gzip _ hx h => exact ⟨_, _, hx, h⟩
  | container hid' _ => exact absurd (hid.symm.trans hid') (by decide)
  | answer h _ => rcases h with ⟨h, -⟩ | ⟨h | h, -⟩ <;> exact absurd (hid.symm.trans h) (by decide)
  | other hgzip _ _ _ => exact absurd hid hgzip

theorem Inert.not_isUpdates {s : State} (h : Inert W s tl) : isUpdates tl.id = false := by
  cases h with
  | gzip hid _ _ | container hid _ =>
    rw [hid]
    rfl
  | answer h _ => rcases h with ⟨h, -⟩ | ⟨h | h, -⟩ <;> rw [h] <;> rfl
  | other _ _ _ h => exact h

/-- `updatesTooLong#e317af7e = Updates;`. -/
def updatesTooLong : Entry := ⟨true, "updatesTooLong", idUpdatesTooLong, []⟩

/-- The id of `updatesTooLong`, stored in a gzip stream whose checksum is wrong. -/
def wrongCrc : Tl := .object idGzipPacked []
  [.buf (bigEndian 27 0x1f8b0800000000000003010400fbff7eaf17e30000000004000000)]

/-- zlib on that stream: all of the output, then `Z_DATA_ERROR`. -/
def reportsCrc : Zlib where
  inflateInit2 := Z_OK
  inflate _ room := (-3, (le32 idUpdatesTooLong).take room)
  written_le _ _ := List.length_take_le _ _

theorem gunzipBuf_wrongCrc : gunzipBuf reportsCrc wrongCrc.packedData =
    ⟨false, le32 idUpdatesTooLong ++ List.replicate 8189 0⟩ := by
  have hroom : gunzipRoom wrongCrc.packedData = 8192 := by
    rw [gunzipRoom_eq]
    rfl
  rw [gunzipBuf, hroom]
  rfl

/-- Behind its id `updatesTooLong` takes nothing. -/
theorem tlDeserialize_updatesTooLong (t : Bytes) :
    tlDeserialize [updatesTooLong] (le32 idUpdatesTooLong ++ t) =
      some (.object idUpdatesTooLong (le32 idUpdatesTooLong ++ t) [], t) := by
  rw [tlDeserialize_known (e := updatesTooLong) (by decide) rfl, tlDeserializeMethod,
    Cursor.bind_apply, Cursor.remaining, Option.bind_some, Cursor.bind_apply,
    (consumes_deserializeUi32 _).eq]
  rfl

end

end Libtg.Receiving
