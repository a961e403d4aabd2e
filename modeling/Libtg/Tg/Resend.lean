import Libtg.Tg.FailedSend
import Libtg.Tg.OwnAnswer
import Libtg.Tg.Queue

/-!
# Rejected salts (`_tg_receive` in `tg/queue.c`, `tg/send_query.c`)

A `bad_server_salt` names the message the server has rejected and the salt to send it with. What is
expected is `ResendsRejected`: the query that was sent under this id is sent again, once and with
this salt, and no other query is.

The code looks at neither: a thread sends its own query again, under the salt of the session, when a
packet is a `bad_server_salt`, and overlooks one inside of a container. When that is right is
`resendsRejected_iff`.
-/

namespace Libtg

open LittleEndian
open SendQuery (World Attempt Incoming Exchange unpack settle handleData preferAnswer
  packetMessages)

/-! ## Notices -/

/-- `bad_msg_id_` of a `bad_server_salt`. -/
def Tl.badMsgId (tl : Tl) : UInt64 := (tl.field 0).long?

/-- `new_server_salt_` of a `bad_server_salt`. -/
def Tl.newServerSalt (tl : Tl) : UInt64 := (tl.field 3).long?

structure IsNotice (bad salt : UInt64) (m : Tl) : Prop where
  id : m.id = idBadServerSalt
  badMsgId : m.badMsgId = bad
  newServerSalt : m.newServerSalt = salt

/-- No `bad_server_salt`, nor a result that is one. -/
def NoNotice (W : World) (m : Tl) : Prop :=
  m.id ≠ idBadServerSalt ∧ ∀ r, unpack W m.result = some r → r.id ≠ idBadServerSalt

/-- The packet holds this notice, and no other. -/
def Announces (W : World) (data : Bytes) (bad salt : UInt64) : Prop :=
  ∃ top before m after, packetMessages W.schema data = some (top, before ++ m :: after) ∧
    IsNotice bad salt m ∧ ∀ x ∈ before ++ after, NoNotice W x

/-- The packet is a notice. -/
def TopLevel (W : World) (data : Bytes) : Prop :=
  ∃ tl t, tlDeserialize W.schema data = some (tl, t) ∧ tl.id = idBadServerSalt

/-! ## What is sent again -/

/-- A packet given to `send`: the query in it, and the salt at its head. -/
structure Resent where
  query : Nat
  salt : Bytes
  packet : Bytes

/-- The queries named `rejected` are sent again, once each and with this salt, and no others. `none`
is a packet made of freed memory. -/
def ResendsRejected (rejected : Nat → Prop) [DecidablePred rejected] (salt : UInt64)
    (sends : Option (List Resent)) : Prop :=
  ∃ es, sends = some es ∧
    (∀ q, es.countP (fun e => e.query = q) = if rejected q then 1 else 0) ∧
    ∀ e ∈ es, e.salt = le64 salt

/-- The query threads, their session, and for each the bytes of `queue->query`: those of a query
that went into a container `tg_header` has freed. -/
structure Client where
  queue : State
  tg : Tg
  query : Nat → Option Bytes

/-- What `tg_send` of a query thread gives to `send`. -/
def queuePacket (W : World) (A : Attempt) (tg : Tg) (i : Nat) (msgid : UInt64) (query : Bytes) :
    Resent :=
  let tg := openSession W.env A tg
  ⟨i, tg.salt, (tgPrepareQuery W.crypto W.env query true msgid tg).1.1⟩

/-- What thread `i` sends again when it receives `r`. From the receiving to the sending, the other
threads make `others tg` of the session `tg`. -/
def resent (W : World) (A : Attempt) (others : Tg → Tg) (x : Client) (i : Nat) (r : Incoming) :
    Option (List Resent) :=
  match SendQuery.tgReceive W.crypto x.tg r with
  | some (some (data, tg)) =>
    match tgReceive W.schema x.queue i (.message data) with
    | some s =>
      match s.pc i with
      | .resending =>
        (x.query i).map fun query => [queuePacket W A (others tg) i (s.recs i).msgid query]
      | _ => some []
    | none => some []
  | _ => some []

/-- What `tg_send_query_via_with_progress` sends again when it has received `data`. -/
def viaResent (W : World) (A : Attempt) (others : Tg → Tg) (x : Exchange) (query : Option Bytes)
    (data : Bytes) : Option (List Resent) :=
  match handleData W x.msgId x.tg data with
  | .resend tg =>
    match A.socket with
    | none => some []
    | some _ => query.map fun query => [queuePacket W A (others tg) 0 0 query]
  | _ => some []

variable {W : World} {A : Attempt} {others : Tg → Tg} {data : Bytes} {bad salt : UInt64} {tg : Tg}

theorem resendsRejected_nil {rejected : Nat → Prop} [DecidablePred rejected] :
    ResendsRejected rejected salt (some []) ↔ ∀ q, ¬ rejected q := by
  constructor
  · rintro ⟨es, hes, hcount, -⟩ q hq
    cases hes
    have hq' := hcount q
    rw [if_pos hq] at hq'
    cases hq'
  · exact fun h => ⟨[], rfl, fun q => (if_neg (h q)).symm, nofun⟩

theorem resendsRejected_packet {rejected : Nat → Prop} [DecidablePred rejected]
    {query : Option Bytes} {i : Nat} {msgid : UInt64} :
    ResendsRejected rejected salt (query.map fun b => [queuePacket W A tg i msgid b]) ↔
      query.isSome ∧ (∀ q, rejected q ↔ q = i) ∧ (openSession W.env A tg).salt = le64 salt := by
  cases query with
  | none =>
    refine ⟨?_, fun h => by cases h.1⟩
    rintro ⟨es, hes, -⟩
    cases hes
  | some b =>
    have hcount : ∀ q, [queuePacket W A tg i msgid b].countP (fun e => e.query = q) =
        if q = i then 1 else 0 := by
      intro q
      rw [List.countP_singleton, queuePacket]
      by_cases h : i = q
      · simp [h]
      · simp [h, Ne.symm h]
    constructor
    · rintro ⟨es, hes, hq, hs⟩
      cases hes
      refine ⟨rfl, fun q => ?_, hs _ (List.mem_singleton_self _)⟩
      have heq := (hcount q).symm.trans (hq q)
      split_ifs at heq with hi hr hr
      · exact iff_of_true hr hi
      · exact iff_of_false hr hi
    · rintro ⟨-, hq, hs⟩
      refine ⟨_, rfl, fun q => ?_, fun e he => ?_⟩
      · rw [hcount]
        simp only [hq]
      · rw [List.mem_singleton.mp he]
        exact hs

/-! ## The threads of the queue -/

/-- A packet with a notice is the notice, or a container. -/
theorem Announces.top (h : Announces W data bad salt) :
    ∃ id b fields t, tlDeserialize W.schema data = some (.object id b fields, t) ∧
      (id = idBadServerSalt ∨ id = idMsgContainer) := by
  obtain ⟨top, before, m, after, hms, hm, -⟩ := h
  obtain ⟨⟨t, ht⟩, hms⟩ := SendQuery.packetMessages_eq_some hms
  have hid : top.id = idMsgContainer ∨ top.id = idBadServerSalt := by
    obtain hcont | hsingle := SendQuery.messagesIn_cases hms
    · exact .inl hcont
    · have hmem : m ∈ [top] := hsingle ▸ List.mem_append_right _ List.mem_cons_self
      exact .inr (List.mem_singleton.mp hmem ▸ hm.id)
  rcases tlDeserialize_buf ht with rfl | ⟨id, fields, rfl⟩
  · rcases hid with h | h <;> cases h
  · exact ⟨id, data, fields, t, ht, hid.symm⟩

theorem topLevel_iff {id : UInt32} {b : Bytes} {fields : List Tl} {t : Bytes}
    (h : tlDeserialize W.schema data = some (.object id b fields, t)) :
    TopLevel W data ↔ id = idBadServerSalt := by
  constructor
  · rintro ⟨tl, t', ht', hid⟩
    cases h.symm.trans ht'
    exact hid
  · exact fun hid => ⟨_, t, h, hid⟩

theorem resent_topLevel {x : Client} {i : Nat} {r : Incoming} (hpc : x.queue.pc i = .receiving)
    (hr : SendQuery.tgReceive W.crypto x.tg r = some (some (data, tg))) (h : TopLevel W data) :
    resent W A others x i r = (x.query i).map fun query =>
      [queuePacket W A (others tg) i (x.queue.recs i).msgid query] := by
  obtain ⟨tl, t, ht, hid⟩ := h
  rcases tlDeserialize_buf ht with rfl | ⟨id, fields, rfl⟩
  · cases hid
  · have hstep : tgReceive W.schema x.queue i (.message data) =
        some (x.queue.setPc i .resending) := by
      simp only [tgReceive, hpc, ht]
      exact if_pos hid
    rw [resent, hr]
    simp only [hstep, State.setPc_pc, Function.update_self]
    rfl

/-- A notice in a container is left to `handle_tl`, which has no case for it. -/
theorem resent_container {x : Client} {i : Nat} {r : Incoming} (hpc : x.queue.pc i = .receiving)
    (hr : SendQuery.tgReceive W.crypto x.tg r = some (some (data, tg)))
    (hn : Announces W data bad salt) (h : ¬ TopLevel W data) :
    resent W A others x i r = some [] := by
  obtain ⟨id, b, fields, t, ht, -⟩ := hn.top
  rw [topLevel_iff ht] at h
  have hstep : tgReceive W.schema x.queue i (.message data) =
      some (x.queue.setPc i (.handling [.handleTl (.object id b fields)])) := by
    simp only [tgReceive, hpc, ht, if_neg h]
  rw [resent, hr]
  simp only [hstep, State.setPc_pc, Function.update_self]

/-! ## `tg_send_query_via_with_progress` -/

/-- Where the object the callback has kept comes from. -/
def FromMessage (msgId : UInt64) (m answer : Tl) : Prop :=
  (IsAnswer msgId m ∧ answer = m.result) ∨
    (answer = m ∧ (m.id = idMsgsAck ∨ m.id = idMsgDetailedInfo ∨ m.id = idMsgNewDetailedInfo))

variable {S : Schema} {ntp msgId : UInt64} {m tl : Tl} {p p' : Parsing} {ms : List Tl}

theorem tgParseAnswerCallback_answer (hm : Decoded S m ∨ m = .null)
    (h : tgParseAnswerCallback S m p = some p') : p'.answer = m := by
  by_cases hne : m = .null
  · rw [hne] at h
    cases h
  · rw [tgParseAnswerCallback_eq (hm.resolve_right hne) hne] at h
    cases h
    rfl

theorem parseMessage_answer (hm : Decoded S m) (h : parseMessage S ntp msgId p m = some p') :
    p'.answer = p.answer ∨ FromMessage msgId m p'.answer := by
  rw [parseMessage, parseCase] at h
  by_cases hresult : m.id = idRpcResult
  · rw [if_pos hresult] at h
    dsimp only at h
    split_ifs at h with hreq
    · exact .inr (.inl ⟨⟨hresult, hreq.symm⟩, tgParseAnswerCallback_answer hm.result h⟩)
    · cases h
      exact .inl rfl
  rw [if_neg hresult] at h
  by_cases hinfo : m.id = idMsgDetailedInfo ∨ m.id = idMsgNewDetailedInfo
  · rw [if_pos hinfo] at h
    split_ifs at h with hanswer
    · obtain ⟨p₁, hp₁, hp'⟩ := Option.bind_eq_some_iff.mp h
      cases hp'
      have hkept : p₁.answer = m := tgParseAnswerCallback_answer (.inl hm) hp₁
      exact .inr (.inr ⟨hkept, .inr hinfo⟩)
    · cases h
      exact .inl rfl
  rw [if_neg hinfo] at h
  by_cases hack : m.id = idMsgsAck
  · have hne : m ≠ .null := by
      rintro rfl
      cases hack
    rw [hack, if_neg (by decide), if_neg (by decide), if_neg (by decide), if_neg (by decide),
      if_pos rfl] at h
    simp only [Option.bind_eq_bind, Option.bind_eq_some_iff] at h
    obtain ⟨ids, -, hids⟩ := h
    rw [foldlM_acks hm hne] at hids
    cases hids
    split_ifs
    · exact .inr (.inr ⟨rfl, .inl hack⟩)
    · exact .inl rfl
  by_cases hcont : m.id = idMsgContainer
  · rw [hcont, if_neg (by decide), if_neg (by decide), if_pos rfl] at h
    obtain ⟨bodies, -, hbodies⟩ := Option.bind_eq_some_iff.mp h
    cases bodies with
    | nil =>
      cases hbodies
      exact .inl rfl
    | cons body bodies =>
      obtain ⟨p₁, hp₁, -⟩ := Option.bind_eq_some_iff.mp hbodies
      obtain ⟨r, -, hr⟩ := Option.bind_eq_some_iff.mp hp₁
      cases hr
  · rw [if_neg hcont, if_neg hack] at h
    split_ifs at h <;> cases h <;> exact .inl rfl

theorem foldlM_answer (hms : ∀ m ∈ ms, Decoded S m)
    (h : ms.foldlM (parseMessage S ntp msgId) p = some p') :
    p'.answer = p.answer ∨ ∃ m ∈ ms, FromMessage msgId m p'.answer := by
  induction ms generalizing p with
  | nil =>
    cases h
    exact .inl rfl
  | cons m ms ih =>
    rw [List.foldlM_cons, Option.bind_eq_bind, Option.bind_eq_some_iff] at h
    obtain ⟨p₁, hp₁, hrest⟩ := h
    obtain heq | ⟨m', hm', hfrom⟩ := ih (fun m' hm' => hms m' (List.mem_cons_of_mem m hm')) hrest
    · obtain heq₁ | hfrom := parseMessage_answer (hms m List.mem_cons_self) hp₁
      · exact .inl (heq.trans heq₁)
      · exact .inr ⟨m, List.mem_cons_self, heq ▸ hfrom⟩
    · exact .inr ⟨m', List.mem_cons_of_mem m hm', hfrom⟩

/-- The query is sent again for nothing but a `bad_server_salt`. -/
theorem settle_ne_resend {tg' : Tg} (h : ∀ r, unpack W tl = some r → r.id ≠ idBadServerSalt) :
    settle W tg tl ≠ .resend tg' := by
  by_cases hne : tl = .null
  · rw [hne]
    exact nofun
  · rw [SendQuery.settle_eq hne]
    cases hr : unpack W tl with
    | none => exact nofun
    | some r =>
      cases r with
      | null => exact nofun
      | _ =>
        dsimp only
        rw [if_neg (h _ hr)]
        split_ifs <;> exact nofun

/-- An object kept from a message is no notice, if the message holds none. -/
theorem FromMessage.ne_notice {answer r : Tl} (h : FromMessage msgId m answer) (hm : NoNotice W m)
    (hr : unpack W answer = some r) : r.id ≠ idBadServerSalt := by
  obtain ⟨-, rfl⟩ | ⟨rfl, hid⟩ := h
  · exact hm.2 r hr
  · have hgzip : answer.id ≠ idGzipPacked := by
      rcases hid with hid | hid | hid <;> rw [hid] <;> decide
    rw [SendQuery.unpack_of_ne hgzip] at hr
    cases hr
    exact hm.1

theorem not_fromMessage_notice {answer : Tl} (hn : IsNotice bad salt m) :
    ¬ FromMessage msgId m answer := by
  rintro (⟨⟨hid, -⟩, -⟩ | ⟨-, hid | hid | hid⟩) <;> cases hn.id.symm.trans hid

/-- A notice in a container is overlooked. -/
theorem handleData_container {tg' : Tg} (hn : Announces W data bad salt) (h : ¬ TopLevel W data) :
    handleData W msgId tg data ≠ .resend tg' := by
  obtain ⟨top, before, n, after, hms, hnotice, honly⟩ := hn
  obtain ⟨⟨t, ht⟩, hms⟩ := SendQuery.packetMessages_eq_some hms
  have hcont : top.id = idMsgContainer := by
    obtain hcont | hsingle := SendQuery.messagesIn_cases hms
    · exact hcont
    · have hmem : n ∈ [top] := hsingle ▸ List.mem_append_right _ List.mem_cons_self
      exact absurd ⟨top, t, ht, List.mem_singleton.mp hmem ▸ hnotice.id⟩ h
  have htop : ∀ r, unpack W top = some r → r.id ≠ idBadServerSalt := by
    intro r hr
    rw [SendQuery.unpack_of_ne (SendQuery.container_final hcont).2] at hr
    cases hr
    rw [hcont]
    decide
  rw [handleData, ht]
  dsimp only
  rw [tgParseAnswer, tgParseAnswerN_eq, ← messagesIn, hms, Option.bind_some]
  cases hp : (before ++ n :: after).foldlM (parseMessage W.schema W.ntp msgId) ⟨tg, .null⟩ with
  | none =>
    intro h
    cases h
  | some p =>
    dsimp only
    apply settle_ne_resend
    by_cases hnull : p.answer = .null
    · rw [hnull]
      exact htop
    rw [SendQuery.preferAnswer_of_ne hnull]
    have hdec : ∀ m ∈ before ++ n :: after, Decoded W.schema m :=
      fun m hm => decoded_messagesInN ⟨data, t, ht⟩ hms hm
    obtain heq | ⟨m, hm, hfrom⟩ := foldlM_answer hdec hp
    · exact absurd heq hnull
    · have hne : m ≠ n := by
        rintro rfl
        exact not_fromMessage_notice hnotice hfrom
      have hother : m ∈ before ++ after := by
        simp only [List.mem_append, List.mem_cons] at hm ⊢
        exact hm.imp id fun h => h.resolve_left hne
      exact fun r hr => hfrom.ne_notice (honly m hother) hr

theorem handleData_topLevel (h : TopLevel W data) :
    handleData W msgId tg data = .resend tg := by
  obtain ⟨tl, t, ht, hid⟩ := h
  have hdec : Decoded W.schema tl := ⟨data, t, ht⟩
  have hne : tl ≠ .null := by
    rintro rfl
    cases hid
  have hparse : tgParseAnswer W.schema W.ntp msgId tl ⟨tg, .null⟩ = some ⟨tg, .null⟩ := by
    rw [tgParseAnswer_eq hdec, parseCase, hid]
    rfl
  have hgzip : tl.id ≠ idGzipPacked := by
    rw [hid]
    decide
  rw [handleData, ht]
  dsimp only
  rw [hparse]
  dsimp only
  rw [preferAnswer, SendQuery.settle_of_unpack hne (SendQuery.unpack_of_ne hgzip) hne, if_pos hid]

/-! ## When the right query is sent again -/

/-- The notice is obeyed by a query thread exactly if it is a packet of its own, for the query of
the thread that receives it, and the session has the new salt by then; or it is in a container and
for no live query. `tg_send_query_via_with_progress` obeys it exactly if it is a packet of its own,
for its query, and the session has the new salt; or not for its query and overlooked. -/
theorem resendsRejected_iff (W : World) (A : Attempt) (others : Tg → Tg) (data : Bytes)
    (bad salt : UInt64) (hn : Announces W data bad salt) :
    (∀ (x : Client) (i : Nat) (r : Incoming) (tg : Tg), x.queue.pc i = .receiving →
      SendQuery.tgReceive W.crypto x.tg r = some (some (data, tg)) →
      (ResendsRejected (fun q => q ∈ x.queue.queue ∧ (x.queue.recs q).msgid = bad) salt
          (resent W A others x i r) ↔
        (TopLevel W data ∧ (x.query i).isSome ∧
          (∀ q, q ∈ x.queue.queue ∧ (x.queue.recs q).msgid = bad ↔ q = i) ∧
          (openSession W.env A (others tg)).salt = le64 salt) ∨
        (¬ TopLevel W data ∧ ∀ q ∈ x.queue.queue, (x.queue.recs q).msgid ≠ bad))) ∧
    ∀ (x : Exchange) (query : Option Bytes),
      (ResendsRejected (fun q => q = 0 ∧ x.msgId = bad) salt (viaResent W A others x query data) ↔
        (TopLevel W data ∧ A.socket.isSome ∧ query.isSome ∧ x.msgId = bad ∧
          (openSession W.env A (others x.tg)).salt = le64 salt) ∨
        (¬ (TopLevel W data ∧ A.socket.isSome) ∧ x.msgId ≠ bad)) := by
  refine ⟨fun x i r tg hpc hr => ?_, fun x query => ?_⟩
  · by_cases htop : TopLevel W data
    · rw [resent_topLevel hpc hr htop, resendsRejected_packet]
      simp only [htop, true_and, not_true_eq_false, false_and, or_false]
    · rw [resent_container hpc hr hn htop, resendsRejected_nil]
      simp only [htop, false_and, not_false_eq_true, true_and, false_or, not_and]
  · by_cases hsent : TopLevel W data ∧ A.socket.isSome
    · obtain ⟨socket, hsocket⟩ := Option.isSome_iff_exists.mp hsent.2
      have hvia : viaResent W A others x query data =
          query.map fun b => [queuePacket W A (others x.tg) 0 0 b] := by
        rw [viaResent, handleData_topLevel hsent.1, hsocket]
      have hid : (∀ q, q = 0 ∧ x.msgId = bad ↔ q = 0) ↔ x.msgId = bad :=
        ⟨fun h => ((h 0).mpr rfl).2, fun h q => and_iff_left h⟩
      rw [hvia, resendsRejected_packet, hid]
      simp only [hsent.1, hsent.2, true_and, and_self, not_true_eq_false, false_and, or_false]
    · have hvia : viaResent W A others x query data = some [] := by
        rw [viaResent]
        split
        · rename_i tg htg
          have htop : TopLevel W data := by
            by_contra htop
            exact handleData_container hn htop htg
          cases hsocket : A.socket with
          | none => rfl
          | some socket => exact absurd ⟨htop, by rw [hsocket]; rfl⟩ hsent
        · rfl
      have hnot : ¬ (TopLevel W data ∧ A.socket.isSome ∧ query.isSome ∧ x.msgId = bad ∧
          (openSession W.env A (others x.tg)).salt = le64 salt) := fun h => hsent ⟨h.1, h.2.1⟩
      rw [hvia, resendsRejected_nil, or_iff_right hnot, and_iff_right hsent]
      exact ⟨fun h hid => h 0 ⟨rfl, hid⟩, fun h q hq => h hq.2⟩

/-- `bad_server_salt#edab447b bad_msg_id:long bad_msg_seqno:int error_code:int
new_server_salt:long = BadMsgNotification;`. -/
def badServerSalt : Entry :=
  ⟨true, "bad_server_salt", idBadServerSalt,
    [⟨"bad_msg_id", some "long", 0, 0⟩, ⟨"bad_msg_seqno", some "int", 0, 0⟩,
      ⟨"error_code", some "int", 0, 0⟩, ⟨"new_server_salt", some "long", 0, 0⟩]⟩

/-- Message 6 is to be sent with salt 9. -/
def saltNotice : ServerMessage where
  salt := 9
  msgId := 0x6600000000000001
  seqno := 0
  data := le32 idBadServerSalt ++ le64 6 ++ le32 1 ++ le32 48 ++ le64 9
  padding := List.replicate 20 0
  data_lt := by decide
  blocks := by decide

def saltWorld : World where
  schema := [badServerSalt]
  gunzip b := ⟨false, b⟩
  crypto := pingCrypto
  env := pingEnv
  ntp := 0
  attempt _ := ⟨some 3, ⟨[], [], 3, 0⟩, true⟩

/-- Queries 0 and 1 were sent, as messages 5 and 6. -/
def twoLive : Client where
  queue :=
    { recs := fun q => ⟨true, true, if q = 0 then 5 else 6, none, true⟩
      pc := fun q => if q < 2 then .receiving else .unborn
      cancelling := fun _ => none
      queue := [1, 0]
      log := [.sent 1 6, .sent 0 5] }
  tg := pingTg
  query _ := some ping

theorem saltNotice_messages : (packetMessages saltWorld.schema saltNotice.data).map (fun z =>
    (z.1.id, z.2.map fun m => (m.id, m.badMsgId, m.newServerSalt))) =
      some (idBadServerSalt, [(idBadServerSalt, 6, 9)]) := by
  decide +kernel

theorem saltNotice_announces : Announces saltWorld saltNotice.data 6 9 ∧
    TopLevel saltWorld saltNotice.data := by
  obtain ⟨⟨top, ms⟩, hms, heq⟩ := Option.map_eq_some_iff.mp saltNotice_messages
  obtain ⟨hid, hmap⟩ := Prod.mk.inj heq
  obtain ⟨m, rfl, hm⟩ := List.map_eq_singleton_iff.mp hmap
  simp only [Prod.mk.injEq] at hm
  obtain ⟨⟨t, ht⟩, -⟩ := SendQuery.packetMessages_eq_some hms
  exact ⟨⟨top, [], m, [], hms, ⟨hm.1, hm.2.1, hm.2.2⟩, nofun⟩, top, t, ht, hid⟩

theorem saltNotice_received :
    SendQuery.tgReceive saltWorld.crypto twoLive.tg
      (SendQuery.sealed saltWorld.crypto pingTg.key pingTg.ssid saltNotice) =
      some (some (saltNotice.data,
        { pingTg with salt := le64 9, msgids := [0x6600000000000001] })) :=
  SendQuery.tgReceive_sealed countingKey_length rfl saltNotice

/-- The query of message 6 has its thread receive the notice. -/
theorem resendsRejected_iff_own :
    ResendsRejected (fun q => q ∈ twoLive.queue.queue ∧ (twoLive.queue.recs q).msgid = 6) 9
      (resent saltWorld (saltWorld.attempt 0) id twoLive 1
        (SendQuery.sealed saltWorld.crypto pingTg.key pingTg.ssid saltNotice)) := by
  obtain ⟨hn, htop⟩ := saltNotice_announces
  refine ((resendsRejected_iff saltWorld (saltWorld.attempt 0) id saltNotice.data 6 9 hn).1
    twoLive 1 _ _ rfl saltNotice_received).mpr (.inl ⟨htop, rfl, fun q => ?_, ?_⟩)
  · simp only [twoLive, List.mem_cons, List.not_mem_nil, or_false]
    constructor
    · rintro ⟨rfl | rfl, hid⟩
      · rfl
      · cases hid
    · rintro rfl
      exact ⟨.inl rfl, rfl⟩
  · decide +kernel

/-- Every notice is obeyed. -/
def NoticesObeyed : Prop :=
  ∀ (W : World) (A : Attempt) (x : Client) (i : Nat) (r : Incoming) (data : Bytes) (tg : Tg)
    (bad salt : UInt64), x.queue.pc i = .receiving →
    SendQuery.tgReceive W.crypto x.tg r = some (some (data, tg)) → Announces W data bad salt →
    ResendsRejected (fun q => q ∈ x.queue.queue ∧ (x.queue.recs q).msgid = bad) salt
      (resent W A id x i r)

/-- The notice about message 6 makes the thread of message 5 send its own query again. -/
theorem noticesObeyed_counterexample : ¬ NoticesObeyed := by
  intro h
  obtain ⟨hn, htop⟩ := saltNotice_announces
  have hobeyed := h saltWorld (saltWorld.attempt 0) twoLive 0 _ _ _ 6 9 rfl saltNotice_received hn
  rw [resent_topLevel rfl saltNotice_received htop, resendsRejected_packet] at hobeyed
  have hzero := ((hobeyed.2.1 0).mpr rfl).2
  cases hzero

end Libtg
