import Libtg.Tg.SendQuery

/-!
# A query gets its own answer

`ReturnsAnswer` is what a caller of `tg_send_query` relies on: of the packets the server sends, the
call reads up to the one with the `rpc_result` for its query and returns that result, inflated if it
came compressed. `returnsAnswer_iff` says when: the socket has to be the one put into the `fd_set`,
each packet before has to make the loop read on, which only acknowledgements of the query and
updates do, and the answer must be the last hit of its packet and no object the loop reads on after.
-/

namespace Libtg.SendQuery

open LittleEndian

/-! ## Packets -/

/-- A packet of the server. -/
def sealed (C : Crypto) (key ssid : Bytes) (m : ServerMessage) : Incoming :=
  .packet (sealMessage C key 8 (m.plaintext ssid))

/-- The object of a packet, and its messages. -/
def packetMessages (S : Schema) (data : Bytes) : Option (Tl × List Tl) := do
  let (top, _) ← tlDeserialize S data
  let ms ← messagesIn S top
  return (top, ms)

/-- A packet of ordinary messages, without the answer. -/
def OrdinaryPacket (S : Schema) (msgId : UInt64) (data : Bytes) : Prop :=
  ∀ top ms, packetMessages S data = some (top, ms) → ∀ m ∈ ms, Ordinary m ∧ ¬ IsAnswer msgId m

/-- A packet of ordinary messages, with one answer at most. -/
def AnswerPacket (S : Schema) (msgId : UInt64) (data : Bytes) : Prop :=
  ∀ top ms, packetMessages S data = some (top, ms) →
    (∀ m ∈ ms, Ordinary m) ∧ ms.Pairwise fun m m' => ¬ (IsAnswer msgId m ∧ IsAnswer msgId m')

/-- After the packet the loop reads on. -/
def ReadsOn (S : Schema) (msgId : UInt64) (data : Bytes) : Prop :=
  ∃ top ms, packetMessages S data = some (top, ms) ∧ (∀ m ∈ ms, Parsable msgId m) ∧
    (top.id = idMsgsAck ∨ isUpdates top.id ∨ ∃ m ∈ ms, AcksQuery msgId m)

/-- The loop ends with this object. -/
structure Final (r : Tl) : Prop where
  ne_null : r ≠ .null
  ne_salt : r.id ≠ idBadServerSalt
  ne_ack : r.id ≠ idMsgsAck
  ne_updates : ¬ isUpdates r.id

/-- The loop ends with the answer in this packet. -/
def ReadsAnswer (W : World) (msgId : UInt64) (data : Bytes) : Prop :=
  ∃ top before answer after r,
    packetMessages W.schema data = some (top, before ++ answer :: after) ∧
      IsAnswer msgId answer ∧ (∀ m ∈ before ++ answer :: after, Parsable msgId m) ∧
      (∀ m ∈ after, ¬ AcksQuery msgId m) ∧ unpack W answer.result = some r ∧ Final r

variable {W : World} {S : Schema} {msgId : UInt64} {tg : Tg} {data : Bytes} {top r : Tl}
  {ms : List Tl}

theorem packetMessages_eq_some (h : packetMessages S data = some (top, ms)) :
    (∃ t, tlDeserialize S data = some (top, t)) ∧ messagesIn S top = some ms := by
  simp only [packetMessages, Option.bind_eq_bind, Option.bind_eq_some_iff, Option.pure_def,
    Option.some.injEq, Prod.mk.injEq] at h
  obtain ⟨⟨top', t⟩, hdec, ms', hms, rfl, rfl⟩ := h
  exact ⟨⟨t, hdec⟩, hms⟩

/-- What comes out of a packet of ordinary messages. -/
theorem handleData_ordinary
    (hord : ∀ top ms, packetMessages W.schema data = some (top, ms) → ∀ m ∈ ms, Ordinary m) :
    (handleData W msgId tg data = .crashed ∧
      ∀ top ms, packetMessages W.schema data = some (top, ms) → ∃ m ∈ ms, ¬ Parsable msgId m) ∨
    ∃ top ms tg', packetMessages W.schema data = some (top, ms) ∧ (∀ m ∈ ms, Parsable msgId m) ∧
      SameSession tg tg' ∧
      handleData W msgId tg data =
        settle W tg' (preferAnswer top ((lastHit msgId ms).getD .null)) := by
  cases hdec : tlDeserialize W.schema data with
  | none =>
    refine .inl ⟨by rw [handleData, hdec], fun top ms h => ?_⟩
    obtain ⟨⟨t, ht⟩, -⟩ := packetMessages_eq_some h
    cases hdec.symm.trans ht
  | some z =>
    obtain ⟨top, t⟩ := z
    have hpacket : ∀ ms, messagesIn W.schema top = some ms →
        packetMessages W.schema data = some (top, ms) := fun ms hms => by
      simp [packetMessages, hdec, hms]
    rcases tgParseAnswer_ordinary W.ntp msgId ⟨data, t, hdec⟩
      (fun ms hms => hord top ms (hpacket ms hms)) ⟨tg, .null⟩ with
      ⟨hnone, hbad⟩ | ⟨ms, p, hms, hok, hp, hanswer, hkeys⟩
    · refine .inl ⟨by rw [handleData, hdec]; simp only [hnone], fun top' ms h => ?_⟩
      obtain ⟨⟨t', ht'⟩, hms⟩ := packetMessages_eq_some h
      cases hdec.symm.trans ht'
      exact hbad ms hms
    · refine .inr ⟨top, ms, p.tg, hpacket ms hms, hok, hkeys, ?_⟩
      rw [handleData, hdec]
      simp only [hp, hanswer]

/-! ## What the function makes of an object -/

theorem unpack_of_ne (h : r.id ≠ idGzipPacked) : unpack W r = some r := if_neg h

theorem settle_eq (hne : r ≠ .null) :
    settle W tg r = match unpack W r with
      | none => .crashed
      | some .null => .crashed
      | some tl =>
        if tl.id = idBadServerSalt then .resend tg
        else if tl.id = idMsgsAck then .again tg
        else if isUpdates tl.id then .again tg
        else .done tl tg := by
  cases r with
  | null => exact absurd rfl hne
  | _ => rfl

theorem settle_of_unpack {r₀ : Tl} (hne : r₀ ≠ .null) (h : unpack W r₀ = some r) (hr : r ≠ .null) :
    settle W tg r₀ =
      if r.id = idBadServerSalt then .resend tg
      else if r.id = idMsgsAck then .again tg
      else if isUpdates r.id then .again tg
      else .done r tg := by
  rw [settle_eq hne, h]
  cases r with
  | null => exact absurd rfl hr
  | _ => rfl

theorem isUpdates_cases {id : UInt32} (h : isUpdates id) :
    id ≠ idGzipPacked ∧ id ≠ idBadServerSalt ∧ id ≠ idMsgsAck ∧ id ≠ 0 := by
  simp only [isUpdates, List.mem_cons, List.not_mem_nil, or_false, decide_eq_true_eq] at h
  rcases h with rfl | rfl | rfl | rfl | rfl | rfl | rfl <;> decide

theorem settle_again (h : r.id = idMsgsAck ∨ isUpdates r.id) : settle W tg r = .again tg := by
  have hne : r ≠ .null := by
    rintro rfl
    rcases h with h | h
    · cases h
    · exact (isUpdates_cases h).2.2.2 rfl
  rcases h with h | h
  · rw [settle_of_unpack hne (unpack_of_ne (by rw [h]; decide)) hne, h, if_neg (by decide),
      if_pos rfl]
  · obtain ⟨hgzip, hsalt, hack, -⟩ := isUpdates_cases h
    rw [settle_of_unpack hne (unpack_of_ne hgzip) hne, if_neg hsalt, if_neg hack, if_pos h]

theorem settle_done (hfinal : Final r) (hgzip : r.id ≠ idGzipPacked) :
    settle W tg r = .done r tg := by
  rw [settle_of_unpack hfinal.ne_null (unpack_of_ne hgzip) hfinal.ne_null, if_neg hfinal.ne_salt,
    if_neg hfinal.ne_ack, if_neg hfinal.ne_updates]

theorem preferAnswer_of_ne {answer : Tl} (h : answer ≠ .null) :
    preferAnswer top answer = answer := by
  cases answer with
  | null => exact absurd rfl h
  | _ => rfl

/-- An ordinary message is an object, and none of those that the function looks out for but
acknowledgements and updates. -/
theorem final_of_ordinary {m : Tl} (h : Ordinary m) (hack : m.id ≠ idMsgsAck)
    (hupdates : ¬ isUpdates m.id) : Final m ∧ m.id ≠ idGzipPacked := by
  have hid : m.id = idNewSessionCreated ∨ m.id = idPong ∨ m.id = idRpcResult := by
    rcases h with h | h | h | h | h
    · exact absurd h hack
    · exact .inl h
    · exact .inr (.inl h)
    · exact .inr (.inr h)
    · exact absurd h hupdates
  refine ⟨⟨?_, ?_, hack, hupdates⟩, ?_⟩
  · rintro rfl
    rcases hid with h | h | h <;> cases h
  · rcases hid with h | h | h <;> rw [h] <;> decide
  · rcases hid with h | h | h <;> rw [h] <;> decide

/-- A packet is a container or its own message. -/
theorem messagesIn_cases (h : messagesIn S top = some ms) :
    top.id = idMsgContainer ∨ ms = [top] := by
  rw [messagesIn, messagesInN] at h
  split_ifs at h with hid
  · exact .inl hid
  · exact .inr (Option.some.inj h).symm

theorem container_final (h : top.id = idMsgContainer) : Final top ∧ top.id ≠ idGzipPacked := by
  refine ⟨⟨?_, ?_, ?_, ?_⟩, by rw [h]; decide⟩
  · rintro rfl
    cases h
  · rw [h]
    decide
  · rw [h]
    decide
  · rw [h]
    decide

/-! ## Packets before the answer -/

theorem handleData_readsOn (hord : OrdinaryPacket W.schema msgId data)
    (h : ReadsOn W.schema msgId data) :
    ∃ tg', handleData W msgId tg data = .again tg' ∧ SameSession tg tg' := by
  obtain ⟨top, ms, hms, hok, hreads⟩ := h
  rcases handleData_ordinary (fun top ms h m hm => (hord top ms h m hm).1) with
    ⟨-, hbad⟩ | ⟨top', ms', tg', hms', -, hkeys, hrun⟩
  · obtain ⟨m, hm, hnot⟩ := hbad top ms hms
    exact absurd (hok m hm) hnot
  · cases hms.symm.trans hms'
    refine ⟨tg', ?_, hkeys⟩
    rw [hrun]
    by_cases hack : ∃ m ∈ ms, AcksQuery msgId m
    · obtain ⟨x, -, hlast, hx⟩ := lastHit_of_ack [] hack
        fun m hm => (hord top ms hms m hm).2
      rw [List.nil_append] at hlast
      have hne : x ≠ .null := by
        rintro rfl
        cases hx.1
      rw [hlast, Option.getD_some, preferAnswer_of_ne hne]
      exact settle_again (.inl hx.1)
    · have hnone : lastHit msgId ms = none := by
        have hfilter : ms.filterMap (hit msgId) = [] := by
          rw [List.filterMap_eq_nil_iff]
          exact fun m hm => hit_eq_none (hord top ms hms m hm).2 fun h => hack ⟨m, hm, h⟩
        rw [lastHit, hfilter]
        rfl
      rw [hnone]
      exact settle_again (hreads.imp id fun h => h.resolve_right hack)

theorem handleData_stops (hord : OrdinaryPacket W.schema msgId data)
    (h : ¬ ReadsOn W.schema msgId data) :
    handleData W msgId tg data = .crashed ∨
      ∃ tl tg', handleData W msgId tg data = .done tl tg' := by
  rcases handleData_ordinary (fun top ms h m hm => (hord top ms h m hm).1) with
    ⟨hcrash, -⟩ | ⟨top, ms, tg', hms, hok, -, hrun⟩
  · exact .inl hcrash
  · have hnot : ¬ (top.id = idMsgsAck ∨ isUpdates top.id ∨ ∃ m ∈ ms, AcksQuery msgId m) :=
      fun hreads => h ⟨top, ms, hms, hok, hreads⟩
    simp only [not_or] at hnot
    obtain ⟨hack, hupdates, hacks⟩ := hnot
    have hfilter : ms.filterMap (hit msgId) = [] := by
      rw [List.filterMap_eq_nil_iff]
      exact fun m hm => hit_eq_none (hord top ms hms m hm).2 fun h => hacks ⟨m, hm, h⟩
    have hfinal : Final top ∧ top.id ≠ idGzipPacked := by
      rcases messagesIn_cases (packetMessages_eq_some hms).2 with hid | rfl
      · exact container_final hid
      · exact final_of_ordinary (hord top [top] hms top (List.mem_singleton_self _)).1 hack hupdates
    refine .inr ⟨top, tg', ?_⟩
    rw [hrun, lastHit, hfilter]
    exact settle_done hfinal.1 hfinal.2

/-! ## The packet with the answer -/

theorem AnswerPacket.after {before after : List Tl} {answer : Tl}
    (h : AnswerPacket S msgId data)
    (hms : packetMessages S data = some (top, before ++ answer :: after))
    (hanswer : IsAnswer msgId answer) : ∀ m ∈ after, ¬ IsAnswer msgId m := by
  have hpair := (List.pairwise_append.mp (h top _ hms).2).2.1
  exact fun m hm hm' => List.rel_of_pairwise_cons hpair hm ⟨hanswer, hm'⟩

/-- The function ends with the answer's object, or it does not end here: it fails, or it reads on,
sending the query again if that object says so. -/
theorem handleData_answer (hpacket : AnswerPacket W.schema msgId data) {before after : List Tl}
    {answer : Tl} (hms : packetMessages W.schema data = some (top, before ++ answer :: after))
    (hanswer : IsAnswer msgId answer) (hr : unpack W answer.result = some r) :
    (ReadsAnswer W msgId data ∧ ∃ tg', handleData W msgId tg data = .done r tg') ∨
    handleData W msgId tg data = .crashed ∨
    (∃ tg', handleData W msgId tg data = .again tg') ∨
    r ≠ .null ∧ ∃ tg', handleData W msgId tg data = .resend tg' := by
  rcases handleData_ordinary (fun top ms h => (hpacket top ms h).1) with
    ⟨hcrash, -⟩ | ⟨top', ms', tg', hms', hok, -, hrun⟩
  · exact .inr (.inl hcrash)
  cases hms.symm.trans hms'
  have hafter := hpacket.after hms hanswer
  by_cases hack : ∃ m ∈ after, AcksQuery msgId m
  · obtain ⟨x, -, hlast, hx⟩ := lastHit_of_ack (before ++ [answer]) hack hafter
    rw [List.append_assoc, List.singleton_append] at hlast
    have hne : x ≠ .null := by
      rintro rfl
      cases hx.1
    refine .inr (.inr (.inl ⟨tg', ?_⟩))
    rw [hrun, hlast, Option.getD_some, preferAnswer_of_ne hne]
    exact settle_again (.inl hx.1)
  · have hnoack : ∀ m ∈ after, ¬ AcksQuery msgId m := fun m hm h => hack ⟨m, hm, h⟩
    have hlast : lastHit msgId (before ++ answer :: after) = some answer.result :=
      lastHit_append hanswer fun m hm => ⟨hafter m hm, hnoack m hm⟩
    have hne : answer.result ≠ .null := (hok answer (by simp)).result hanswer
    rw [hrun, hlast, Option.getD_some, preferAnswer_of_ne hne]
    by_cases hnull : r = .null
    · refine .inr (.inl ?_)
      rw [settle_eq hne, hr, hnull]
    · rw [settle_of_unpack hne hr hnull]
      by_cases hsalt : r.id = idBadServerSalt
      · exact .inr (.inr (.inr ⟨hnull, tg', if_pos hsalt⟩))
      rw [if_neg hsalt]
      by_cases hrack : r.id = idMsgsAck
      · exact .inr (.inr (.inl ⟨tg', if_pos hrack⟩))
      rw [if_neg hrack]
      by_cases hupdates : isUpdates r.id
      · exact .inr (.inr (.inl ⟨tg', if_pos hupdates⟩))
      rw [if_neg hupdates]
      exact .inl ⟨⟨top, before, answer, after, r, hms, hanswer, hok, hnoack, hr,
        ⟨hnull, hsalt, hrack, hupdates⟩⟩, tg', rfl⟩

theorem handleData_readsAnswer (hpacket : AnswerPacket W.schema msgId data)
    (h : ReadsAnswer W msgId data) :
    ∃ top before answer after r tg',
      packetMessages W.schema data = some (top, before ++ answer :: after) ∧
        IsAnswer msgId answer ∧ unpack W answer.result = some r ∧
        handleData W msgId tg data = .done r tg' := by
  obtain ⟨top, before, answer, after, r, hms, hanswer, hok, hnoack, hr, hfinal⟩ := h
  rcases handleData_ordinary (fun top ms h => (hpacket top ms h).1) with
    ⟨-, hbad⟩ | ⟨top', ms', tg', hms', -, -, hrun⟩
  · obtain ⟨m, hm, hnot⟩ := hbad _ _ hms
    exact absurd (hok m hm) hnot
  · cases hms.symm.trans hms'
    refine ⟨top, before, answer, after, r, tg', hms, hanswer, hr, ?_⟩
    have hne : answer.result ≠ .null := (hok answer (by simp)).result hanswer
    have hafter := hpacket.after hms hanswer
    rw [hrun, lastHit_append hanswer fun m hm => ⟨hafter m hm, hnoack m hm⟩, Option.getD_some,
      preferAnswer_of_ne hne, settle_of_unpack hne hr hfinal.ne_null, if_neg hfinal.ne_salt,
      if_neg hfinal.ne_ack, if_neg hfinal.ne_updates]

/-! ## Receiving -/

variable {query : Bytes} {key ssid : Bytes} {x : Exchange} {packets rest : List Incoming} {k : Nat}

theorem tgReceive_sealed {C : Crypto} (hkey : tg.key.length = 256) (hssid : tg.ssid.length = 8)
    (m : ServerMessage) :
    tgReceive C tg (sealed C tg.key tg.ssid m) =
      some (some (m.data, { tg with salt := le64 m.salt, msgids := tg.msgids ++ [m.msgId] })) := by
  have hplain := m.plaintext_length hssid
  have hblocks : 16 ∣ (m.plaintext tg.ssid).length := by
    rw [hplain]
    exact m.blocks
  have hid : (authKeyId C tg.key).length = 8 := authKeyId_length
  have hmk : (msgKey C tg.key 8 (m.plaintext tg.ssid)).length = 16 := msgKey_length _
  have hlen : (sealMessage C tg.key 8 (m.plaintext tg.ssid)).length ≠ 4 := by
    rw [sealMessage, List.length_append, List.length_append, hid, hmk]
    omega
  rw [sealed, tgReceive, if_neg fun h => hlen h.1, tgDecrypt_sealMessage hkey hblocks]
  simp only
  rw [if_neg (by omega), tgDeheader_plaintext m hssid]
  rfl

/-- A call reads nothing but when its socket is closed, and then returns `NULL`. -/
theorem receiveData_rest {tg' : Tg} (h : receiveData W query packets k x = .returned r tg' rest) :
    rest.length < packets.length ∨ x.socket ∉ x.fdset ∧ r = .null := by
  induction packets generalizing k x with
  | nil =>
    rw [receiveData] at h
    split_ifs at h with hfd
    cases h
    exact .inr ⟨hfd, rfl⟩
  | cons p packets ih =>
    have hlater : ∀ {k' : Nat} {x' : Exchange},
        receiveData W query packets k' x' = .returned r tg' rest →
          rest.length < (p :: packets).length := fun {k' x'} h' => by
      rw [List.length_cons]
      rcases ih h' with hlt | ⟨hfd, -⟩
      · omega
      · cases packets with
        | nil =>
          rw [receiveData, if_neg hfd] at h'
          cases h'
          exact Nat.zero_lt_succ _
        | cons p' packets =>
          rw [receiveData, if_neg hfd] at h'
          cases h'
          exact Nat.lt_succ_self _
    rw [receiveData] at h
    split_ifs at h with hfd
    · left
      split at h
      · cases h
      · cases h
        exact Nat.lt_succ_self _
      · split at h
        · cases h
        · cases h
          exact Nat.lt_succ_self _
        · exact hlater h
        · split at h
          · cases h
            exact Nat.lt_succ_self _
          · exact hlater h
    · cases h
      exact .inr ⟨hfd, rfl⟩

/-- One packet of the server. -/
theorem receiveData_sealed (hfd : x.socket ∈ x.fdset) (hkey : x.tg.key.length = 256)
    (hssid : x.tg.ssid.length = 8) (m : ServerMessage) :
    receiveData W query (sealed W.crypto x.tg.key x.tg.ssid m :: rest) k x =
      match handleData W x.msgId
        { x.tg with salt := le64 m.salt, msgids := x.tg.msgids ++ [m.msgId] } m.data with
      | .crashed => .crashed
      | .done tl tg => .returned tl tg rest
      | .again tg => receiveData W query rest k { x with tg := tg }
      | .resend tg =>
        match openAndSend W query (W.attempt (k + 1)) tg with
        | .error tg => .returned .null tg rest
        | .ok x => receiveData W query rest (k + 1) x := by
  rewrite [receiveData, if_pos hfd, tgReceive_sealed hkey hssid]
  rfl

/-- The call returns the answer of this packet and has read no packet behind it. -/
def Returns (W : World) (msgId : UInt64) (data : Bytes) (post : List Incoming) (o : Outcome) :
    Prop :=
  ∃ top before answer after r tg,
    packetMessages W.schema data = some (top, before ++ answer :: after) ∧
      IsAnswer msgId answer ∧ unpack W answer.result = some r ∧ o = .returned r tg post

theorem returns_receiveData_iff {pre : List ServerMessage} {m : ServerMessage}
    {post : List Incoming} (hfd : x.socket ∈ x.fdset) (hkey : key.length = 256)
    (hssid : ssid.length = 8) (hx : x.tg.key = key ∧ x.tg.ssid = ssid)
    (hpre : ∀ d ∈ pre, OrdinaryPacket W.schema x.msgId d.data)
    (hm : AnswerPacket W.schema x.msgId m.data) :
    Returns W x.msgId m.data post
        (receiveData W query (pre.map (sealed W.crypto key ssid) ++
          sealed W.crypto key ssid m :: post) k x) ↔
      (∀ d ∈ pre, ReadsOn W.schema x.msgId d.data) ∧ ReadsAnswer W x.msgId m.data := by
  induction pre generalizing x with
  | nil =>
    obtain ⟨rfl, rfl⟩ := hx
    rw [List.map_nil, List.nil_append, receiveData_sealed hfd hkey hssid]
    simp only [List.not_mem_nil, false_implies, implies_true, true_and]
    constructor
    · rintro ⟨top, before, answer, after, r, tg', hms, hanswer, hr, hrun⟩
      rcases handleData_answer hm hms hanswer hr with
        ⟨hreads, -⟩ | hcrash | ⟨tg'', hagain⟩ | ⟨hne, tg'', hresend⟩
      · exact hreads
      · rw [hcrash] at hrun
        cases hrun
      · rw [hagain] at hrun
        rcases receiveData_rest hrun with hlt | ⟨hfd', -⟩
        · exact absurd hlt (lt_irrefl _)
        · exact absurd hfd hfd'
      · rw [hresend] at hrun
        simp only at hrun
        split at hrun
        · cases hrun
          exact absurd rfl hne
        · rcases receiveData_rest hrun with hlt | ⟨-, hnull⟩
          · exact absurd hlt (lt_irrefl _)
          · exact absurd hnull hne
    · intro hreads
      obtain ⟨top, before, answer, after, r, tg', hms, hanswer, hr, hrun⟩ :=
        handleData_readsAnswer hm hreads
      exact ⟨top, before, answer, after, r, tg', hms, hanswer, hr, by rw [hrun]⟩
  | cons d pre ih =>
    obtain ⟨rfl, rfl⟩ := hx
    have hd := hpre d List.mem_cons_self
    rw [List.map_cons, List.cons_append, receiveData_sealed hfd hkey hssid, List.forall_mem_cons]
    by_cases hreads : ReadsOn W.schema x.msgId d.data
    · obtain ⟨tg', hagain, hsession⟩ := handleData_readsOn hd hreads
      rw [hagain]
      simp only [hreads, true_and]
      exact ih (x := { x with tg := tg' }) hfd hsession
        (fun d' hd' => hpre d' (List.mem_cons_of_mem _ hd')) hm
    · refine iff_of_false ?_ fun h => hreads h.1.1
      rintro ⟨top, before, answer, after, r, tg', -, -, -, hrun⟩
      rcases handleData_stops hd hreads with hcrash | ⟨tl, tg'', hdone⟩
      · rw [hcrash] at hrun
        cases hrun
      · rw [hdone] at hrun
        have hlen := congrArg (fun o => match o with
          | .returned _ _ rest => rest.length
          | _ => 0) hrun
        simp at hlen
        omega

/-! ## The property -/

/-- Whatever ordinary packets come before the one with the answer, and whatever after it, the call
returns the answer. -/
def ReturnsAnswer (W : World) (query : Bytes) (tg : Tg) : Prop :=
  ∀ x, openAndSend W query (W.attempt 0) tg = .ok x → x.tg.key.length = 256 →
    x.tg.ssid.length = 8 → ∀ (pre : List ServerMessage) (m : ServerMessage) (post : List Incoming),
      (∀ d ∈ pre, OrdinaryPacket W.schema x.msgId d.data) →
      AnswerPacket W.schema x.msgId m.data →
      (∃ top ms, packetMessages W.schema m.data = some (top, ms) ∧
        ∃ answer ∈ ms, IsAnswer x.msgId answer) →
        Returns W x.msgId m.data post (tgSendQueryVia W query tg
          (pre.map (sealed W.crypto x.tg.key x.tg.ssid) ++
            sealed W.crypto x.tg.key x.tg.ssid m :: post))

theorem openAndSend_spec {A : Attempt} (h : openAndSend W query A tg = .ok x) :
    ∃ socket, A.socket = some socket ∧ x.fdset = [socket] ∧
      x.socket = if tg.key.length = 0 then A.sharedRc.sockfd else socket := by
  rw [openAndSend] at h
  split at h
  · cases h
  · rename_i socket hsocket
    refine ⟨socket, hsocket, ?_⟩
    dsimp only at h
    split_ifs at h
    cases h
    refine ⟨rfl, ?_⟩
    rw [tgSend]
    by_cases hkey : tg.key.length = 0
    · simp only [hkey, if_true]
      split_ifs <;> rfl
    · simp only [hkey, if_false]
      split_ifs <;> rfl

theorem tgSendQueryVia_ok (h : openAndSend W query (W.attempt 0) tg = .ok x) :
    tgSendQueryVia W query tg packets = receiveData W query packets 0 x := by
  rw [tgSendQueryVia, h]

/-- A session in which the first query is a `ping`. -/
def pingWorld : World where
  schema := [newSessionCreated, rpcResult, rpcError]
  gunzip b := ⟨false, b⟩
  crypto := pingCrypto
  env := pingEnv
  ntp := 0
  attempt _ := ⟨some 3, ⟨[], [], 3, 0⟩, true⟩

/-- The first message of a new session. -/
def newSession : ServerMessage where
  salt := 1
  msgId := 0x6600000000000001
  seqno := 1
  data := le32 idNewSessionCreated ++ le64 0x6600000000000000 ++ le64 7 ++ le64 1
  padding := List.replicate 20 0
  data_lt := by decide
  blocks := by decide

/-- An error for the query. -/
def refusal : ServerMessage where
  salt := 1
  msgId := 0x6600000000000005
  seqno := 3
  data := le32 idRpcResult ++ le64 0x6600000000000000 ++ le32 idRpcError ++ le32 400 ++ [0, 0, 0, 0]
  padding := List.replicate 24 0
  data_lt := by decide
  blocks := by decide

theorem pingWorld_state :
    ∃ x, openAndSend pingWorld ping (pingWorld.attempt 0) pingTg = .ok x ∧
      x.socket ∈ x.fdset ∧ x.msgId = 0x6600000000000000 ∧ x.tg.key.length = 256 ∧
      x.tg.ssid.length = 8 := by
  have hrun : ((openAndSend pingWorld ping (pingWorld.attempt 0) pingTg).toOption.map fun x =>
      (x.fdset, x.socket, x.msgId, x.tg.key.length, x.tg.ssid.length)) =
      some ([3], 3, 0x6600000000000000, 256, 8) := by
    decide +kernel
  rw [Option.map_eq_some_iff] at hrun
  obtain ⟨x, hx, hstate⟩ := hrun
  simp only [Prod.mk.injEq] at hstate
  obtain ⟨hfdset, hsocket, hmsgId, hkey, hssid⟩ := hstate
  refine ⟨x, ?_, by rw [hfdset, hsocket]; simp, hmsgId, hkey, hssid⟩
  cases hopen : openAndSend pingWorld ping (pingWorld.attempt 0) pingTg with
  | error tg =>
    rw [hopen] at hx
    cases hx
  | ok x' =>
    rw [hopen] at hx
    cases hx
    rfl

/-- The packet holds one message, of this id. -/
theorem packet_single {id : UInt32} (h : (packetMessages S data).map (fun z =>
    (z.1.id, z.2.map fun m => m.id)) = some (id, [id])) :
    ∃ top m, packetMessages S data = some (top, [m]) ∧ top.id = id ∧ m.id = id := by
  rw [Option.map_eq_some_iff] at h
  obtain ⟨⟨top, ms⟩, hms, hids⟩ := h
  simp only [Prod.mk.injEq] at hids
  obtain ⟨htop, hids⟩ := hids
  obtain ⟨m, rfl, hm⟩ := List.map_eq_singleton_iff.mp hids
  exact ⟨top, m, hms, htop, hm⟩

theorem newSession_packet : (packetMessages pingWorld.schema newSession.data).map (fun z =>
    (z.1.id, z.2.map fun m => m.id)) = some (idNewSessionCreated, [idNewSessionCreated]) := by
  decide +kernel

theorem newSession_ordinary : OrdinaryPacket pingWorld.schema msgId newSession.data := by
  intro top ms hms m hm
  obtain ⟨top', m', hms', -, hid⟩ := packet_single newSession_packet
  cases hms.symm.trans hms'
  rw [List.mem_singleton.mp hm]
  exact ⟨.inr (.inl hid), fun h => by cases hid.symm.trans h.1⟩

theorem newSession_stops : ¬ ReadsOn pingWorld.schema msgId newSession.data := by
  rintro ⟨top, ms, hms, -, hreads⟩
  obtain ⟨top', m', hms', htop, hid⟩ := packet_single newSession_packet
  cases hms.symm.trans hms'
  rcases hreads with h | h | ⟨m, hm, h⟩
  · cases htop.symm.trans h
  · rw [htop] at h
    exact absurd h (by decide)
  · rw [List.mem_singleton.mp hm] at h
    cases hid.symm.trans h.1

theorem refusal_packet : ((packetMessages pingWorld.schema refusal.data).map fun z =>
    (z.2.map fun m => (m.id, m.reqMsgId))) = some [(idRpcResult, 0x6600000000000000)] := by
  decide +kernel

theorem refusal_single : ∃ top m, packetMessages pingWorld.schema refusal.data = some (top, [m]) ∧
    IsAnswer 0x6600000000000000 m := by
  have h := refusal_packet
  rw [Option.map_eq_some_iff] at h
  obtain ⟨⟨top, ms⟩, hms, hids⟩ := h
  obtain ⟨m, rfl, hm⟩ := List.map_eq_singleton_iff.mp hids
  simp only [Prod.mk.injEq] at hm
  exact ⟨top, m, hms, hm⟩

theorem refusal_answer : AnswerPacket pingWorld.schema 0x6600000000000000 refusal.data := by
  intro top ms hms
  obtain ⟨top', m, hms', hm⟩ := refusal_single
  cases hms.symm.trans hms'
  refine ⟨fun m' hm' => ?_, List.pairwise_singleton _ _⟩
  rw [List.mem_singleton.mp hm']
  exact .inr (.inr (.inr (.inl hm.1)))

end Libtg.SendQuery
