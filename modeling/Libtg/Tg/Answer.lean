import Libtg.Tg.Message
import Libtg.Tg.Session
import Libtg.TlGenerator.Fields

/-!
# Looking for an answer in a packet (`tg/answer.c`)

`tg_parse_answer` goes through a decoded packet, opens its containers, and calls back with what it
takes for an answer to the query; the callback of `tg_send_query` keeps a copy, and the next call
overwrites it. `messagesIn` lists the messages of a packet in the order they are met, and
`tgParseAnswer_ordinary` says what is left in `*answer` in its terms: the last hit.
-/

namespace Libtg

/-! ## `tg_parse_answer` -/

/-- The session, and what `*answer` points to. -/
structure Parsing where
  tg : Tg
  answer : Tl

def Parsing.addMsgid (p : Parsing) (msgId : UInt64) : Parsing :=
  { p with tg := (tgAddMsgid msgId p.tg).2 }

/-- `tg_parse_answer_callback`, which reads `tl->_buf`: of `NULL` that is `none`. -/
def tgParseAnswerCallback (S : Schema) (tl : Tl) (p : Parsing) : Option Parsing :=
  match tl with
  | .object _ b _ => (tlDeserialize S b).map fun r => { p with answer := r.1 }
  | _ => none

/-- The `switch` of `tg_parse_answer`, where `rec` is the function itself and `ntp` what
`ntp_time_diff` answers. A compressed message is handed over in a variable that is initialised with
itself, which is `none`. The effects of `tg_do_updates` are left out. -/
def parseCase (S : Schema) (ntp msgId : UInt64) (rec : Tl → Parsing → Option Parsing) (tl : Tl)
    (p : Parsing) : Option Parsing :=
  if tl.id = idRpcResult then
    let p := p.addMsgid msgId
    if msgId = tl.reqMsgId then tgParseAnswerCallback S tl.result p else some p
  else if tl.id = idMsgDetailedInfo ∨ tl.id = idMsgNewDetailedInfo then do
    let p ← if msgId = tl.answerMsgId then tgParseAnswerCallback S tl p else some p
    return p.addMsgid tl.answerMsgId
  else if tl.id = idRpcError ∨ tl.id = idBadMsgNotification then
    some { p with tg := { p.tg with timediff := ntp } }
  else if isUpdates tl.id then some p
  else if tl.id = idMsgContainer then do
    let ms ← tl.messages
    ms.foldlM (fun p m => (tlDeserialize S m.2).bind fun r => rec r.1 p) p
  else if tl.id = idGzipPacked then none
  else if tl.id = idMsgsAck then do
    let ids ← tl.msgIds
    ids.foldlM (fun p id => if msgId = id then tgParseAnswerCallback S tl p else some p) p
  else some p

/-- `tg_parse_answer` with containers up to a depth. -/
def tgParseAnswerN (S : Schema) (ntp msgId : UInt64) : Nat → Tl → Parsing → Option Parsing
  | 0 => fun _ _ => none
  | n + 1 => parseCase S ntp msgId (tgParseAnswerN S ntp msgId n)

/-- `tg_parse_answer`. -/
def tgParseAnswer (S : Schema) (ntp msgId : UInt64) (tl : Tl) : Parsing → Option Parsing :=
  tgParseAnswerN S ntp msgId (tl.data.length + 1) tl

/-! ## The messages of a packet -/

/-- The object is what `tl_deserialize` makes of some bytes. -/
def Decoded (S : Schema) (tl : Tl) : Prop := ∃ b t, tlDeserialize S b = some (tl, t)

def messagesInN (S : Schema) : Nat → Tl → Option (List Tl)
  | 0, _ => none
  | n + 1, tl =>
    if tl.id = idMsgContainer then do
      let ms ← tl.messages
      let parts ← ms.mapM fun m => (tlDeserialize S m.2).bind fun r => messagesInN S n r.1
      return parts.flatten
    else some [tl]

/-- The messages of a decoded packet, its containers opened. -/
def messagesIn (S : Schema) (tl : Tl) : Option (List Tl) := messagesInN S (tl.data.length + 1) tl

variable {S : Schema} {ntp msgId : UInt64} {tl : Tl} {p p' : Parsing}

/-- Without a container there is no recursion. -/
theorem parseCase_leaf {rec rec' : Tl → Parsing → Option Parsing} (h : tl.id ≠ idMsgContainer) :
    parseCase S ntp msgId rec tl p = parseCase S ntp msgId rec' tl p := by
  simp only [parseCase, if_neg h]

theorem parseCase_container {rec : Tl → Parsing → Option Parsing} (h : tl.id = idMsgContainer) :
    parseCase S ntp msgId rec tl p = tl.messages.bind fun ms =>
      ms.foldlM (fun p m => (tlDeserialize S m.2).bind fun r => rec r.1 p) p := by
  rw [parseCase, h, if_neg (by decide), if_neg (by decide), if_neg (by decide),
    if_neg (by decide), if_pos rfl]
  rfl

theorem Decoded.cases (h : Decoded S tl) :
    tl = .null ∨ ∃ id b fields t, tl = .object id b fields ∧ tlDeserialize S b = some (tl, t) := by
  obtain ⟨b, t, h⟩ := h
  rcases tlDeserialize_buf h with hnull | ⟨id, fields, rfl⟩
  · exact .inl hnull
  · exact .inr ⟨id, b, fields, t, rfl, h⟩

/-- The body of a message in a container is shorter than the container. -/
theorem Decoded.body_lt (h : Decoded S tl) {ms : List (UInt64 × Bytes)}
    (hms : tl.messages = some ms) (hid : tl.id = idMsgContainer) {m : UInt64 × Bytes}
    (hm : m ∈ ms) : m.2.length < tl.data.length := by
  obtain rfl | ⟨id, b, fields, t, rfl, hdec⟩ := h.cases
  · cases hid
  obtain ⟨hlen, hheld⟩ := tlDeserialize_held hdec
  change m.2.length < b.length
  simp only [Tl.messages, Option.map_eq_some_iff] at hms
  obtain ⟨xs, hxs, rfl⟩ := hms
  obtain ⟨x, hx, rfl⟩ := List.mem_map.mp hm
  rw [Tl.field, List.getD_eq_getElem?_getD] at hxs
  cases hfield : fields[0]? with
  | none =>
    rw [hfield] at hxs
    cases hxs
    cases hx
  | some y =>
    rw [hfield, Option.getD_some] at hxs
    have hy := hheld y (List.mem_of_getElem? hfield)
    cases y with
    | vector len ys =>
      rw [Tl.elements] at hxs
      split_ifs at hxs
      · cases hxs
        cases hx
      obtain rfl := Option.some.inj hxs
      cases x with
      | message i sq l body =>
        have hle := hy.bodies len ys rfl i sq l body hx
        change body.length < b.length
        omega
      | _ => exact lt_of_lt_of_le (by simp [Tl.mtpMessage]) hlen
    | _ =>
      cases hxs
      cases hx

theorem foldlM_congr {α β : Type} {f g : β → α → Option β} {l : List α}
    (h : ∀ a ∈ l, ∀ b, f b a = g b a) (b : β) : l.foldlM f b = l.foldlM g b := by
  induction l generalizing b with
  | nil => rfl
  | cons a l ih =>
    rw [List.foldlM_cons, List.foldlM_cons, h a List.mem_cons_self]
    exact Option.bind_congr fun b' _ => ih (fun a' ha' => h a' (List.mem_cons_of_mem _ ha')) b'

theorem data_length_le {b t : Bytes} (h : tlDeserialize S b = some (tl, t)) :
    tl.data.length ≤ b.length := by
  rcases tlDeserialize_buf h with rfl | ⟨id, fields, rfl⟩
  · exact Nat.zero_le _
  · exact le_refl _

/-- The depth does not matter for what is as long as the object or longer. -/
theorem tgParseAnswerN_agree {n k : Nat} (h : Decoded S tl) (hn : tl.data.length < n)
    (hk : tl.data.length < k) :
    tgParseAnswerN S ntp msgId n tl p = tgParseAnswerN S ntp msgId k tl p := by
  induction n generalizing k tl p with
  | zero => omega
  | succ n ih =>
    obtain ⟨k, rfl⟩ : ∃ k', k = k' + 1 := ⟨k - 1, by omega⟩
    rw [tgParseAnswerN, tgParseAnswerN]
    by_cases hid : tl.id = idMsgContainer
    · rw [parseCase_container hid, parseCase_container hid]
      refine Option.bind_congr fun ms hms => foldlM_congr (fun m hm p => ?_) p
      refine Option.bind_congr fun r hr => ?_
      have hbody := h.body_lt hms hid hm
      have hdata : r.1.data.length ≤ m.2.length := data_length_le (t := r.2) hr
      exact ih ⟨m.2, r.2, hr⟩ (by omega) (by omega)
    · exact parseCase_leaf hid

/-- `tg_parse_answer` as the source has it, calling itself without a depth. -/
theorem tgParseAnswer_eq (h : Decoded S tl) :
    tgParseAnswer S ntp msgId tl p = parseCase S ntp msgId (tgParseAnswer S ntp msgId) tl p := by
  rw [tgParseAnswer, tgParseAnswerN]
  by_cases hid : tl.id = idMsgContainer
  · rw [parseCase_container hid, parseCase_container hid]
    refine Option.bind_congr fun ms hms => foldlM_congr (fun m hm p => ?_) p
    refine Option.bind_congr fun r hr => ?_
    have hbody := h.body_lt hms hid hm
    have hdata : r.1.data.length ≤ m.2.length := data_length_le (t := r.2) hr
    exact tgParseAnswerN_agree ⟨m.2, r.2, hr⟩ (by omega) (by omega)
  · exact parseCase_leaf hid

/-- The parsing of one message that is not a container. -/
def parseMessage (S : Schema) (ntp msgId : UInt64) (p : Parsing) (m : Tl) : Option Parsing :=
  parseCase S ntp msgId (fun _ _ => none) m p

theorem foldlM_mapM {α β γ : Type} (g : α → Option (List γ)) (f : β → γ → Option β) (l : List α)
    (b : β) :
    l.foldlM (fun b a => (g a).bind fun xs => xs.foldlM f b) b =
      (l.mapM g).bind fun parts => parts.flatten.foldlM f b := by
  induction l generalizing b with
  | nil => rfl
  | cons a l ih =>
    simp only [List.foldlM_cons, List.mapM_cons, ih, Option.bind_eq_bind, Option.bind_assoc,
      Option.pure_def, Option.bind_some, List.flatten_cons, List.foldlM_append]
    cases l.mapM g with
    | none => simp
    | some parts => simp

/-- `tg_parse_answer` parses the messages of the packet one after the other. -/
theorem tgParseAnswerN_eq (n : Nat) (tl : Tl) (p : Parsing) :
    tgParseAnswerN S ntp msgId n tl p =
      (messagesInN S n tl).bind fun ms => ms.foldlM (parseMessage S ntp msgId) p := by
  induction n generalizing tl p with
  | zero => rfl
  | succ n ih =>
    rw [tgParseAnswerN, messagesInN]
    by_cases hid : tl.id = idMsgContainer
    · rw [parseCase_container hid, if_pos hid]
      simp only [Option.bind_eq_bind, Option.bind_assoc, ih, Option.pure_def, Option.bind_some]
      refine Option.bind_congr fun ms _ => ?_
      rw [← foldlM_mapM]
      exact foldlM_congr (fun m _ p => (Option.bind_assoc _ _ _).symm) p
    · rw [if_neg hid, Option.bind_some, List.foldlM_cons]
      refine Eq.trans ?_ (Option.bind_fun_some _).symm
      exact parseCase_leaf hid

/-! ## What the callback keeps -/

/-- The message is the `rpc_result` for the query. -/
def IsAnswer (msgId : UInt64) (m : Tl) : Prop := m.id = idRpcResult ∧ m.reqMsgId = msgId

/-- The message acknowledges the query. -/
def AcksQuery (msgId : UInt64) (m : Tl) : Prop :=
  m.id = idMsgsAck ∧ ∃ ids, m.msgIds = some ids ∧ msgId ∈ ids

/-- The kinds of messages that come along with an answer. -/
def Ordinary (m : Tl) : Prop :=
  m.id = idMsgsAck ∨ m.id = idNewSessionCreated ∨ m.id = idPong ∨ m.id = idRpcResult ∨
    isUpdates m.id

/-- The object the callback copies at this message. -/
def hit (msgId : UInt64) (m : Tl) : Option Tl :=
  if m.id = idRpcResult then if m.reqMsgId = msgId then some m.result else none
  else if m.id = idMsgsAck then if msgId ∈ m.msgIds.getD [] then some m else none
  else none

def lastHit (msgId : UInt64) (ms : List Tl) : Option Tl := (ms.filterMap (hit msgId)).getLast?

/-- The parsing of the message does not read through `NULL`: the ids it acknowledges are there, and
so is the result for the query. -/
structure Parsable (msgId : UInt64) (m : Tl) : Prop where
  msgIds : m.id = idMsgsAck → m.msgIds.isSome
  result : IsAnswer msgId m → m.result ≠ .null

/-- The keys of the session stay. -/
def SameSession (tg tg' : Tg) : Prop := tg'.key = tg.key ∧ tg'.ssid = tg.ssid

variable {m : Tl} {ms : List Tl} {n : Nat}

theorem hit_eq_none (h : ¬ IsAnswer msgId m) (hack : ¬ AcksQuery msgId m) : hit msgId m = none := by
  rw [hit]
  split_ifs with hid hreq hid' hmem
  · exact absurd ⟨hid, hreq⟩ h
  · rfl
  · cases hids : m.msgIds with
    | none =>
      rw [hids] at hmem
      cases hmem
    | some ids =>
      rw [hids] at hmem
      exact absurd ⟨hid', ids, hids, hmem⟩ hack
  · rfl
  · rfl

theorem hit_of_answer (h : IsAnswer msgId m) : hit msgId m = some m.result := by
  rw [hit, if_pos h.1, if_pos h.2]

theorem hit_of_ack (h : AcksQuery msgId m) : hit msgId m = some m := by
  obtain ⟨hid, ids, hids, hmem⟩ := h
  rw [hit, hid, if_neg (by decide), if_pos rfl, hids, Option.getD_some, if_pos hmem]

theorem lastHit_cons : lastHit msgId (m :: ms) = (lastHit msgId ms).or (hit msgId m) := by
  rw [lastHit, List.filterMap_cons]
  cases hit msgId m with
  | none => simp [lastHit]
  | some x =>
    rw [List.getLast?_cons, lastHit]
    cases (ms.filterMap (hit msgId)).getLast? <;> rfl

/-- The last hit is an answer behind which nothing else is one. -/
theorem lastHit_append {before after : List Tl} (hm : IsAnswer msgId m)
    (hafter : ∀ x ∈ after, ¬ IsAnswer msgId x ∧ ¬ AcksQuery msgId x) :
    lastHit msgId (before ++ m :: after) = some m.result := by
  have hnone : after.filterMap (hit msgId) = [] := by
    rw [List.filterMap_eq_nil_iff]
    exact fun x hx => hit_eq_none (hafter x hx).1 (hafter x hx).2
  rw [lastHit, List.filterMap_append, List.filterMap_cons, hit_of_answer hm, hnone]
  simp

/-- An acknowledgement behind the answer is a later hit. -/
theorem lastHit_of_ack (before : List Tl) {after : List Tl} (hack : ∃ x ∈ after, AcksQuery msgId x)
    (hafter : ∀ x ∈ after, ¬ IsAnswer msgId x) :
    ∃ x ∈ after, lastHit msgId (before ++ after) = some x ∧ AcksQuery msgId x := by
  obtain ⟨x, hx, hxack⟩ := hack
  have hne : after.filterMap (hit msgId) ≠ [] := by
    rw [ne_eq, List.filterMap_eq_nil_iff, not_forall]
    exact ⟨x, fun h => by cases (hit_of_ack hxack).symm.trans (h hx)⟩
  obtain ⟨y, hy⟩ := Option.isSome_iff_exists.mp (List.getLast?_isSome.mpr hne)
  obtain ⟨z, hz, hzy⟩ := List.mem_filterMap.mp (List.mem_of_getLast? hy)
  have hzack : AcksQuery msgId z := by
    by_contra hnot
    cases (hit_eq_none (hafter z hz) hnot).symm.trans hzy
  obtain rfl : z = y := Option.some.inj ((hit_of_ack hzack).symm.trans hzy)
  exact ⟨z, hz, by rw [lastHit, List.filterMap_append, List.getLast?_append, hy]; rfl, hzack⟩

/-! ## Parsing ordinary messages -/

theorem tgParseAnswerCallback_eq (h : Decoded S tl) (hne : tl ≠ .null) :
    tgParseAnswerCallback S tl p = some { p with answer := tl } := by
  obtain rfl | ⟨id, b, fields, t, rfl, hdec⟩ := h.cases
  · exact absurd rfl hne
  · rw [tgParseAnswerCallback, hdec]
    rfl

/-- A result is an object of its own. -/
theorem Decoded.result (h : Decoded S m) : Decoded S m.result ∨ m.result = .null := by
  obtain rfl | ⟨id, b, fields, t, rfl, hdec⟩ := h.cases
  · exact .inr rfl
  rw [Tl.result, Tl.field, List.getD_eq_getElem?_getD]
  cases hfield : fields[1]? with
  | none => exact .inr rfl
  | some x =>
    have hx := (tlDeserialize_held hdec).2 x (List.mem_of_getElem? hfield)
    cases x with
    | object id' b' fields' =>
      obtain ⟨t', ht'⟩ := hx.rereads id' b' fields' rfl
      exact .inl ⟨b', t', ht'⟩
    | _ => exact .inr rfl

theorem foldlM_acks (h : Decoded S m) (hne : m ≠ .null) (ids : List UInt64) :
    ids.foldlM (fun p id => if msgId = id then tgParseAnswerCallback S m p else some p) p =
      some (if msgId ∈ ids then { p with answer := m } else p) := by
  induction ids generalizing p with
  | nil => rfl
  | cons id ids ih =>
    rw [List.foldlM_cons]
    by_cases hid : msgId = id
    · rw [if_pos hid, tgParseAnswerCallback_eq h hne, if_pos (hid ▸ List.mem_cons_self)]
      refine (ih (p := { p with answer := m })).trans ?_
      split_ifs <;> rfl
    · rw [if_neg hid]
      refine (ih (p := p)).trans ?_
      simp only [List.mem_cons, hid, false_or]

/-- The parsing of the message fails, or keeps the object of its hit. -/
def KeepsHit (S : Schema) (ntp msgId : UInt64) (m : Tl) (p : Parsing) : Prop :=
  (¬ Parsable msgId m ∧ parseMessage S ntp msgId p m = none) ∨
    (Parsable msgId m ∧ ∃ p', parseMessage S ntp msgId p m = some p' ∧
      p'.answer = (hit msgId m).getD p.answer ∧ SameSession p.tg p'.tg)

theorem keepsHit_pass (hresult : m.id ≠ idRpcResult) (hack : m.id ≠ idMsgsAck)
    (h : parseMessage S ntp msgId p m = some p) : KeepsHit S ntp msgId m p := by
  have hhit : hit msgId m = none := by
    rw [hit, if_neg hresult, if_neg hack]
  exact .inr ⟨⟨fun h => absurd h hack, fun h => absurd h.1 hresult⟩, p, h, by rw [hhit]; rfl,
    rfl, rfl⟩

theorem keepsHit_msgsAck (hm : Decoded S m) (hid : m.id = idMsgsAck) :
    KeepsHit S ntp msgId m p := by
  have hne : m ≠ .null := by
    rintro rfl
    cases hid
  have hnot : ¬ IsAnswer msgId m := fun h => by cases hid.symm.trans h.1
  have hparse : parseMessage S ntp msgId p m = m.msgIds.bind fun ids =>
      ids.foldlM (fun p id => if msgId = id then tgParseAnswerCallback S m p else some p) p := by
    rw [parseMessage, parseCase, hid, if_neg (by decide), if_neg (by decide),
      if_neg (by decide), if_neg (by decide), if_neg (by decide), if_neg (by decide), if_pos rfl]
    rfl
  cases hids : m.msgIds with
  | none =>
    refine .inl ⟨fun h => ?_, by rw [hparse, hids]; rfl⟩
    have hsome := h.msgIds hid
    rw [hids] at hsome
    cases hsome
  | some ids =>
    have hhit : hit msgId m = if msgId ∈ ids then some m else none := by
      rw [hit, hid, if_neg (by decide), if_pos rfl, hids, Option.getD_some]
    rw [KeepsHit, hparse, hids, Option.bind_some, foldlM_acks hm hne, hhit]
    refine .inr ⟨⟨fun _ => by rw [hids]; rfl, fun h => absurd h hnot⟩, _, rfl, ?_, ?_⟩
    · split_ifs <;> rfl
    · split_ifs <;> exact ⟨rfl, rfl⟩

theorem keepsHit_rpcResult (hm : Decoded S m) (hid : m.id = idRpcResult) :
    KeepsHit S ntp msgId m p := by
  have hnot : m.id ≠ idMsgsAck := by
    rw [hid]
    decide
  by_cases hreq : msgId = m.reqMsgId
  · have hanswer : IsAnswer msgId m := ⟨hid, hreq.symm⟩
    have hparse : parseMessage S ntp msgId p m =
        tgParseAnswerCallback S m.result (p.addMsgid msgId) := by
      rw [parseMessage, parseCase, if_pos hid]
      exact if_pos hreq
    rw [KeepsHit, hparse, hit_of_answer hanswer]
    by_cases hnull : m.result = .null
    · rw [hnull]
      exact .inl ⟨fun h => h.result hanswer hnull, rfl⟩
    · rw [tgParseAnswerCallback_eq (hm.result.resolve_right hnull) hnull]
      exact .inr ⟨⟨fun h => absurd h hnot, fun _ => hnull⟩, _, rfl, rfl, rfl, rfl⟩
  · refine .inr ⟨⟨fun h => absurd h hnot, fun h => absurd h.2.symm hreq⟩, p.addMsgid msgId,
      ?_, ?_, rfl, rfl⟩
    · rw [parseMessage, parseCase, if_pos hid]
      exact if_neg hreq
    · rw [hit, if_pos hid, if_neg (Ne.symm hreq)]
      rfl

theorem isUpdates_ne {id : UInt32} (h : isUpdates id) : id ≠ idRpcResult ∧ id ≠ idMsgsAck ∧
    ¬ (id = idMsgDetailedInfo ∨ id = idMsgNewDetailedInfo) ∧
    ¬ (id = idRpcError ∨ id = idBadMsgNotification) := by
  simp only [isUpdates, List.mem_cons, List.not_mem_nil, or_false, decide_eq_true_eq] at h
  rcases h with rfl | rfl | rfl | rfl | rfl | rfl | rfl <;> decide

theorem parseMessage_ordinary (ntp msgId : UInt64) (hm : Decoded S m) (hord : Ordinary m)
    (p : Parsing) : KeepsHit S ntp msgId m p := by
  rcases hord with hid | hid | hid | hid | hid
  · exact keepsHit_msgsAck hm hid
  · refine keepsHit_pass (by rw [hid]; decide) (by rw [hid]; decide) ?_
    rw [parseMessage, parseCase, hid]
    rfl
  · refine keepsHit_pass (by rw [hid]; decide) (by rw [hid]; decide) ?_
    rw [parseMessage, parseCase, hid]
    rfl
  · exact keepsHit_rpcResult hm hid
  · obtain ⟨hresult, hack, hinfo, herror⟩ := isUpdates_ne hid
    refine keepsHit_pass hresult hack ?_
    rw [parseMessage, parseCase, if_neg hresult, if_neg hinfo, if_neg herror, if_pos hid]

theorem foldlM_parseMessage (ntp msgId : UInt64) (hms : ∀ m ∈ ms, Decoded S m ∧ Ordinary m)
    (p : Parsing) :
    ((∃ m ∈ ms, ¬ Parsable msgId m) ∧ ms.foldlM (parseMessage S ntp msgId) p = none) ∨
    ((∀ m ∈ ms, Parsable msgId m) ∧ ∃ p', ms.foldlM (parseMessage S ntp msgId) p = some p' ∧
      p'.answer = (lastHit msgId ms).getD p.answer ∧ SameSession p.tg p'.tg) := by
  induction ms generalizing p with
  | nil => exact .inr ⟨by simp, p, rfl, rfl, rfl, rfl⟩
  | cons m ms ih =>
    obtain ⟨hdec, hord⟩ := hms m List.mem_cons_self
    rw [List.foldlM_cons]
    rcases parseMessage_ordinary ntp msgId hdec hord p with
      ⟨hbad, hnone⟩ | ⟨hok, p₁, hp₁, hanswer₁, hkeys₁⟩
    · exact .inl ⟨⟨m, List.mem_cons_self, hbad⟩, by rw [hnone]; rfl⟩
    · have hrest := ih (fun m' hm' => hms m' (List.mem_cons_of_mem _ hm')) p₁
      rcases hrest with ⟨⟨m', hm', hbad⟩, hnone⟩ | ⟨hall, p', hp', hanswer, hkeys⟩
      · exact .inl ⟨⟨m', List.mem_cons_of_mem _ hm', hbad⟩, by rw [hp₁]; exact hnone⟩
      · refine .inr ⟨List.forall_mem_cons.mpr ⟨hok, hall⟩, p', by rw [hp₁]; exact hp', ?_,
          hkeys.1.trans hkeys₁.1, hkeys.2.trans hkeys₁.2⟩
        rw [hanswer, hanswer₁, lastHit_cons]
        cases lastHit msgId ms <;> rfl

theorem mem_mapM {α β : Type} {g : α → Option β} {l : List α} {l' : List β}
    (h : l.mapM g = some l') {y : β} (hy : y ∈ l') : ∃ x ∈ l, g x = some y := by
  induction l generalizing l' with
  | nil =>
    cases h
    cases hy
  | cons a l ih =>
    simp only [List.mapM_cons, Option.bind_eq_bind, Option.bind_eq_some_iff, Option.pure_def,
      Option.some.injEq] at h
    obtain ⟨b, hb, bs, hbs, rfl⟩ := h
    rcases List.mem_cons.mp hy with rfl | hy
    · exact ⟨a, List.mem_cons_self, hb⟩
    · obtain ⟨x, hx, hxy⟩ := ih hbs hy
      exact ⟨x, List.mem_cons_of_mem _ hx, hxy⟩

/-- The messages of a packet are decoded objects. -/
theorem decoded_messagesInN (h : Decoded S tl) (hms : messagesInN S n tl = some ms) (hm : m ∈ ms) :
    Decoded S m := by
  induction n generalizing tl ms with
  | zero => cases hms
  | succ n ih =>
    rw [messagesInN] at hms
    split_ifs at hms
    · simp only [Option.bind_eq_bind, Option.bind_eq_some_iff, Option.pure_def,
        Option.some.injEq] at hms
      obtain ⟨bodies, -, parts, hparts, rfl⟩ := hms
      obtain ⟨part, hpart, hmem⟩ := List.mem_flatten.mp hm
      obtain ⟨body, -, hbody⟩ := mem_mapM hparts hpart
      rw [Option.bind_eq_some_iff] at hbody
      obtain ⟨r, hr, hmsgs⟩ := hbody
      exact ih ⟨body.2, r.2, hr⟩ hmsgs hmem
    · cases hms
      rw [List.mem_singleton.mp hm]
      exact h

/-- Of a packet of ordinary messages `*answer` is the last hit, or what it was. -/
theorem tgParseAnswer_ordinary (ntp msgId : UInt64) (h : Decoded S tl)
    (hord : ∀ ms, messagesIn S tl = some ms → ∀ m ∈ ms, Ordinary m) (p : Parsing) :
    (tgParseAnswer S ntp msgId tl p = none ∧
      ∀ ms, messagesIn S tl = some ms → ∃ m ∈ ms, ¬ Parsable msgId m) ∨
    ∃ ms p', messagesIn S tl = some ms ∧ (∀ m ∈ ms, Parsable msgId m) ∧
      tgParseAnswer S ntp msgId tl p = some p' ∧
      p'.answer = (lastHit msgId ms).getD p.answer ∧ SameSession p.tg p'.tg := by
  rw [tgParseAnswer, tgParseAnswerN_eq]
  cases hms : messagesIn S tl with
  | none => exact .inl ⟨by rw [← messagesIn, hms]; rfl, nofun⟩
  | some ms =>
    rw [← messagesIn, hms, Option.bind_some]
    have hall : ∀ m ∈ ms, Decoded S m ∧ Ordinary m := fun m hm =>
      ⟨decoded_messagesInN h hms hm, hord ms hms m hm⟩
    rcases foldlM_parseMessage ntp msgId hall p with
      ⟨hbad, hnone⟩ | ⟨hall, p', hp', hanswer, hkeys⟩
    · refine .inl ⟨hnone, fun ms' hms' => ?_⟩
      cases hms'
      exact hbad
    · exact .inr ⟨ms, p', rfl, hall, hp', hanswer, hkeys⟩

end Libtg
