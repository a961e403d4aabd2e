import Libtg.Tg.Acks
import Libtg.Tg.QueueComplete

/-!
# Notices about a query (`handle_tl` and `tg_parse_answer`)

The server names a query by its message id when it says that the answer is waiting
(`msg_detailed_info`) and when it rejects the message (`bad_msg_notification`). Both paths look for
the id of the answer in the first, and neither looks for a query in the second: `detailedInfo_iff`
and `rejection_iff` say where the query that is named is reached all the same.
-/

namespace Libtg

/-- `msg_id_` of a `msg_detailed_info`. -/
def Tl.msgId (tl : Tl) : UInt64 := (tl.field 0).long?

namespace Receiving

open LittleEndian

/-! ## A query that is finished -/

/-- The query is taken out of the list, called back once if it has a callback, and told to stop.
The other queries stay as they were. -/
structure Finishes (s s' : State) (q : Nat) : Prop where
  unlisted : s'.queue = s.queue.erase q
  called : s'.log.countP (Event.isCall q) =
    s.log.countP (Event.isCall q) + if (s.recs q).onDone then 1 else 0
  stopped : (s'.recs q).loop = false
  others : ∀ p, p ≠ q → s'.recs p = s.recs p ∧
    s'.log.countP (Event.isCall p) = s.log.countP (Event.isCall p)

/-- No two queries of the list have one message id. -/
def DistinctIds (s : State) : Prop := (s.queue.map fun q => (s.recs q).msgid).Nodup

instance (s : State) : Decidable (DistinctIds s) := inferInstanceAs (Decidable (List.Nodup _))

section
variable {s s' : State} {q p : Nat} {msgId : UInt64}

theorem DistinctIds.nodup (h : DistinctIds s) : s.queue.Nodup := h.of_map _

theorem DistinctIds.unique (h : DistinctIds s) (hq : q ∈ s.queue) (hp : p ∈ s.queue)
    (heq : (s.recs q).msgid = (s.recs p).msgid) : q = p :=
  List.inj_on_of_nodup_map h hq hp heq

theorem msgid_ne_of_find (h : s.find msgId = none) (hq : q ∈ s.queue) :
    (s.recs q).msgid ≠ msgId := by
  intro heq
  exact List.find?_eq_none.mp h q hq (beq_iff_eq.mpr heq.symm)

theorem mem_of_find (h : s.find msgId = some q) : q ∈ s.queue ∧ (s.recs q).msgid = msgId := by
  have hcmp : s.cmpMsgid msgId q = true := List.find?_some h
  exact ⟨List.mem_of_find?_eq_some h, (beq_iff_eq.mp hcmp).symm⟩

/-- What has left the list was in it. -/
theorem Finishes.not_listed (h : Finishes s s' q) (hs : s.queue.Nodup) : q ∉ s'.queue := by
  rw [h.unlisted]
  exact hs.not_mem_erase

end

/-! ## `msg_detailed_info` -/

/-- `handle_tl` of the notice ends; a listed query whose message it names is finished, and without
one the list stays as it is. -/
def ReachesNamed (W : Setting) (i : Nat) (tl : Tl) (r : Receiver) : Prop :=
  ∃ n r', handleTlN W i n tl r = some ((), r') ∧
    (∀ q ∈ r.queries.queue, (r.queries.recs q).msgid = tl.msgId →
      Finishes r.queries r'.queries q) ∧
    ((∀ q ∈ r.queries.queue, (r.queries.recs q).msgid ≠ tl.msgId) →
      r'.queries.queue = r.queries.queue)

/-- `tg_parse_answer` calls back with the notice exactly when it names the query, for every callback
that can read it. -/
def CallsBackNamed (S : Schema) (ntp msgId : UInt64) (tl : Tl) : Prop :=
  ∀ (σ : Type) (f : Tl → σ → Option (σ × Bool)) (st : Parse σ), (∀ x, (f tl x).isSome) →
    ((∃ n out, parseAnswerN (some f) S ntp msgId n tl st = some out ∧
      out.2.trace = st.trace ++ [.callback tl]) ↔ msgId = tl.msgId)

section
variable {W : Setting} {i n : Nat} {tl : Tl} {r r' : Receiver} {S : Schema} {ntp msgId : UInt64}

theorem handleTlN_detailedInfo (hid : tl.id = idMsgDetailedInfo) :
    handleTlN W i (n + 1) tl = catchedTl W i tl.answerMsgId .null := by
  have hcalls : handleTl W.gunzip tl = some [.catchedTl tl.answerMsgId .null] := by
    rw [handleTl, hid]
    rfl
  rw [handleTlN_of_calls hcalls, forM_singleton]
  rfl

/-- The query the id of the answer belongs to is called back and out of the list, but its thread
goes on. -/
theorem catchedTl_null {q : Nat} (hfind : r.queries.find msgId = some q)
    (h : catchedTl W i msgId .null r = some ((), r')) :
    r'.queries.queue = r.queries.queue.erase q ∧ r'.queries.recs = r.queries.recs ∧
      r'.queries.log = (if (r.queries.recs q).onDone then [.called i q msgId .null] else []) ++
        .took i q msgId :: r.queries.log := by
  rw [catchedTl, hfind] at h
  obtain rfl : _ = r' := congrArg Prod.snd (Option.some.inj h)
  refine ⟨eraseP_of_find? hfind, ?_, rfl⟩
  show Function.update r.queries.recs q { r.queries.recs q with
    loop := (r.queries.recs q).loop && true } = _
  rw [Bool.and_true, Function.update_eq_self]

theorem finishes_catchedTl_null {q : Nat} (hfind : r.queries.find msgId = some q)
    (h : catchedTl W i msgId .null r = some ((), r')) (hstopped : (r.queries.recs q).loop = false) :
    Finishes r.queries r'.queries q := by
  obtain ⟨hqueue, hrecs, hlog⟩ := catchedTl_null hfind h
  refine ⟨hqueue, ?_, by rw [hrecs]; exact hstopped, fun p hp => ⟨by rw [hrecs], ?_⟩⟩
  · rw [hlog]
    split_ifs <;> simp [Event.isCall]
  · rw [hlog]
    split_ifs <;> simp [Event.isCall, hp.symm]

theorem reachesNamed_iff (hid : tl.id = idMsgDetailedInfo) (hs : DistinctIds r.queries) :
    ReachesNamed W i tl r ↔
      (∀ q ∈ r.queries.queue, (r.queries.recs q).msgid ≠ tl.msgId ∧
        (r.queries.recs q).msgid ≠ tl.answerMsgId) ∨
      ∃ q ∈ r.queries.queue, (r.queries.recs q).msgid = tl.msgId ∧
        tl.answerMsgId = tl.msgId ∧ (r.queries.recs q).loop = false := by
  constructor
  · rintro ⟨n, r', hrun, hnamed, hother⟩
    cases n with
    | zero => cases hrun
    | succ n =>
    rw [handleTlN_detailedInfo hid] at hrun
    cases hfind : r.queries.find tl.answerMsgId with
    | none =>
      rw [catchedTl, hfind] at hrun
      cases hrun
      refine .inl fun q hq => ⟨fun heq => ?_, msgid_ne_of_find hfind hq⟩
      exact (hnamed q hq heq).not_listed hs.nodup hq
    | some q =>
      obtain ⟨hq, hanswer⟩ := mem_of_find hfind
      obtain ⟨hqueue, hrecs, -⟩ := catchedTl_null hfind hrun
      have hgone : q ∉ r'.queries.queue := by
        rw [hqueue]
        exact hs.nodup.not_mem_erase
      -- the list has changed, so that a listed query must have been named
      obtain ⟨p, hp, hmsgid⟩ : ∃ p ∈ r.queries.queue, (r.queries.recs p).msgid = tl.msgId := by
        by_contra hnone
        push Not at hnone
        rw [hother hnone] at hgone
        exact hgone hq
      have hfin := hnamed p hp hmsgid
      obtain rfl : p = q := by
        by_contra hne
        refine hfin.not_listed hs.nodup ?_
        rw [hqueue]
        exact (List.mem_erase_of_ne hne).mpr hp
      refine .inr ⟨p, hq, hmsgid, hanswer.symm.trans hmsgid, ?_⟩
      rw [← hrecs]
      exact hfin.stopped
  · rintro (hnone | ⟨q, hq, hmsgid, hsame, hstopped⟩)
    · have hfind : r.queries.find tl.answerMsgId = none :=
        List.find?_eq_none.mpr fun q hq hcmp => (hnone q hq).2 (beq_iff_eq.mp hcmp).symm
      refine ⟨1, r, ?_, fun q hq heq => absurd heq (hnone q hq).1, fun _ => rfl⟩
      rw [handleTlN_detailedInfo hid, catchedTl, hfind]
    · obtain ⟨p, hfind⟩ : ∃ p, r.queries.find tl.answerMsgId = some p := by
        cases hfind : r.queries.find tl.answerMsgId with
        | none => exact absurd (hmsgid.trans hsame.symm) (msgid_ne_of_find hfind hq)
        | some p => exact ⟨p, rfl⟩
      obtain ⟨hp, hanswer⟩ := mem_of_find hfind
      obtain rfl := hs.unique hp hq (hanswer.trans (hsame.trans hmsgid.symm))
      obtain ⟨⟨_, r'⟩, hrun⟩ := Option.isSome_iff_exists.mp
        (catchedTl_null_isSome (W := W) (i := i) tl.answerMsgId r)
      refine ⟨1, r', (congrFun (handleTlN_detailedInfo hid) r).trans hrun, fun q hq heq => ?_,
        fun hnone => absurd hmsgid (hnone p hp)⟩
      obtain rfl := hs.unique hp hq (hmsgid.trans heq.symm)
      exact finishes_catchedTl_null hfind hrun hstopped

/-! ### `tg_parse_answer` -/

theorem parseAnswerN_detailedInfo {σ : Type} {cb : Callback σ} (hid : tl.id = idMsgDetailedInfo) :
    parseAnswerN cb S ntp msgId (n + 1) tl =
      (if msgId = tl.answerMsgId then invoke cb tl else pure false : ParseM σ Bool) >>=
        fun stop => if stop then pure () else modify (·.addMsgid tl.answerMsgId) := by
  rw [parseAnswerN, answerCase, hid, if_neg (by decide), if_pos (.inl rfl)]

theorem callsBackNamed_iff (hid : tl.id = idMsgDetailedInfo) :
    CallsBackNamed S ntp msgId tl ↔ (msgId = tl.answerMsgId ↔ msgId = tl.msgId) := by
  have hfires (σ : Type) (f : Tl → σ → Option (σ × Bool)) (st : Parse σ)
      (hf : ∀ x, (f tl x).isSome) :
      (∃ n out, parseAnswerN (some f) S ntp msgId n tl st = some out ∧
        out.2.trace = st.trace ++ [.callback tl]) ↔ msgId = tl.answerMsgId := by
    constructor
    · rintro ⟨n, out, hrun, htrace⟩
      cases n with
      | zero => cases hrun
      | succ n =>
      by_contra hne
      rw [parseAnswerN_detailedInfo hid, if_neg hne] at hrun
      cases hrun
      have hlen := congrArg List.length htrace
      rw [List.length_append] at hlen
      exact absurd hlen (by simp [Parse.addMsgid])
    · intro heq
      obtain ⟨⟨x, stop⟩, hx⟩ := Option.isSome_iff_exists.mp (hf st.ptr)
      have hcall : invoke (some f) tl st =
          some (stop, ⟨st.tg, x, st.trace ++ [.callback tl]⟩) := by
        rw [invoke, hx]
        rfl
      cases stop with
      | true =>
        refine ⟨1, ((), ⟨st.tg, x, st.trace ++ [.callback tl]⟩), ?_, rfl⟩
        rw [parseAnswerN_detailedInfo hid, if_pos heq]
        exact (congrArg (Option.bind · _) hcall)
      | false =>
        refine ⟨1, ((), Parse.addMsgid ⟨st.tg, x, st.trace ++ [.callback tl]⟩ tl.answerMsgId),
          ?_, rfl⟩
        rw [parseAnswerN_detailedInfo hid, if_pos heq]
        exact (congrArg (Option.bind · _) hcall)
  constructor
  · intro h
    obtain ⟨st⟩ : Nonempty (Parse Unit) := ⟨⟨⟨[], [], [], 0, [], [], 0, 0⟩, (), []⟩⟩
    let f : Tl → Unit → Option (Unit × Bool) := fun _ x => some (x, false)
    exact (hfires Unit f st fun _ => rfl).symm.trans (h Unit f st fun _ => rfl)
  · intro h σ f st hf
    exact (hfires σ f st hf).trans h

/-- The notice reaches the query it names on neither path, but for the same id on both sides. -/
theorem detailedInfo_iff (W : Setting) (i : Nat) (r : Receiver) (S : Schema) (ntp msgId : UInt64)
    (tl : Tl) (hid : tl.id = idMsgDetailedInfo) (hs : DistinctIds r.queries) :
    (ReachesNamed W i tl r ↔
      (∀ q ∈ r.queries.queue, (r.queries.recs q).msgid ≠ tl.msgId ∧
        (r.queries.recs q).msgid ≠ tl.answerMsgId) ∨
      ∃ q ∈ r.queries.queue, (r.queries.recs q).msgid = tl.msgId ∧
        tl.answerMsgId = tl.msgId ∧ (r.queries.recs q).loop = false) ∧
    (CallsBackNamed S ntp msgId tl ↔ (msgId = tl.answerMsgId ↔ msgId = tl.msgId)) :=
  ⟨reachesNamed_iff hid hs, callsBackNamed_iff hid⟩

/-- The answer to query 1, which was sent as message 6, is waiting as message 9. -/
def waitingNotice : Tl :=
  .object idMsgDetailedInfo [] [.long 6, .long 9, .int 0, .int 0]

theorem distinctIds_waiting : DistinctIds waiting.queries := by decide

theorem detailedInfo_iff_waiting :
    (ReachesNamed wrapSetting 1 waitingNotice waiting ↔
      (∀ q ∈ waiting.queries.queue, (waiting.queries.recs q).msgid ≠ waitingNotice.msgId ∧
        (waiting.queries.recs q).msgid ≠ waitingNotice.answerMsgId) ∨
      ∃ q ∈ waiting.queries.queue, (waiting.queries.recs q).msgid = waitingNotice.msgId ∧
        waitingNotice.answerMsgId = waitingNotice.msgId ∧
          (waiting.queries.recs q).loop = false) ∧
    (CallsBackNamed [] 0 6 waitingNotice ↔
      ((6 : UInt64) = waitingNotice.answerMsgId ↔ (6 : UInt64) = waitingNotice.msgId)) :=
  detailedInfo_iff wrapSetting 1 waiting [] 0 6 waitingNotice rfl distinctIds_waiting

/-- Query 1 is neither finished nor told. -/
theorem detailedInfo_counterexample :
    ¬ ∀ (W : Setting) (i : Nat) (r : Receiver) (S : Schema) (ntp msgId : UInt64) (tl : Tl),
      tl.id = idMsgDetailedInfo → DistinctIds r.queries →
        ReachesNamed W i tl r ∧ CallsBackNamed S ntp msgId tl := by
  intro h
  obtain ⟨hqueue, -⟩ := h wrapSetting 1 waiting [] 0 6 waitingNotice rfl distinctIds_waiting
  rcases (reachesNamed_iff rfl distinctIds_waiting).mp hqueue with hnone | ⟨q, -, -, heq, -⟩
  · exact (hnone 1 (by decide)).1 (by decide)
  · exact absurd heq (by decide)

end

/-! ## `bad_msg_notification` -/

/-- `handle_tl` of the object comes to `handle_tl` of another one, in this state. -/
inductive Comes (W : Setting) (i : Nat) : Tl → Receiver → Tl → Receiver → Prop where
  | here (tl : Tl) (r : Receiver) : Comes W i tl r tl r
  | inside {tl x m : Tl} {body t : Bytes} {before after : List Call} {n : Nat}
    {r r₁ r₂ : Receiver} (hcalls : handleTl W.gunzip tl = some (before ++ .message body :: after))
    (hbefore : before.forM (runCall W i (handleTlN W i n)) r = some ((), r₁))
    (hx : tlDeserialize W.schema body = some (x, t)) (h : Comes W i x r₁ m r₂) :
    Comes W i tl r m r₂

/-- The thread of the query is to send it again. The other queries stay as they were. -/
structure Resends (s s' : State) (q : Nat) : Prop where
  told : s'.pc q = .resending
  others : ∀ p, p ≠ q → s'.recs p = s.recs p ∧ s'.pc p = s.pc p ∧
    s'.log.countP (Event.isCall p) = s.log.countP (Event.isCall p)

/-- Wherever `handle_tl` comes to the notification, it gets through it, and a listed query that is
named is finished or sent again. -/
def RejectionHandled (W : Setting) (i : Nat) (tl : Tl) (r : Receiver) (m : Tl) : Prop :=
  ∀ r₁, Comes W i tl r m r₁ → ∃ n r₂, handleTlN W i n m r₁ = some ((), r₂) ∧
    ∀ q ∈ r₁.queries.queue, (r₁.queries.recs q).msgid = m.badMsgId →
      Finishes r₁.queries r₂.queries q ∨ Resends r₁.queries r₂.queries q

/-- No object, or what `tg_strerr` has a text for. -/
def IsError (tl : Tl) : Prop :=
  tl = .null ∨ tl.id = 0xfffffe6c ∨ tl.id = idRpcError ∨ tl.id = idBadMsgNotification

/-- A notification about the query ends the call with an error or has the query sent again, any
other has the call receive again. -/
structure RejectionSettled (W : SendQuery.World) (msgId : UInt64) (tg : Tg) (data : Bytes)
    (m : Tl) : Prop where
  named : m.badMsgId = msgId → (∃ tg', SendQuery.handleData W msgId tg data = .resend tg') ∨
    ∃ tl tg', SendQuery.handleData W msgId tg data = .done tl tg' ∧ IsError tl
  other : m.badMsgId ≠ msgId → ∃ tg', SendQuery.handleData W msgId tg data = .again tg'

section
variable {W : Setting} {i n : Nat} {m tl : Tl} {r r' : Receiver} {S : Schema}
  {gunzip : Bytes → Gunzipped}

/-- The notification is handled without a look at the list. -/
theorem handleTlN_rejection (hid : m.id = idBadMsgNotification) (r : Receiver) :
    handleTlN W i (n + 1) m r = some ((), r.setTimeDiff W) := by
  have hcalls : handleTl W.gunzip m = some [.timeDiff] := by
    rw [handleTl, hid]
    rfl
  rw [handleTlN_of_calls hcalls, forM_singleton]
  rfl

theorem rejectionHandled_iff (hid : m.id = idBadMsgNotification) :
    RejectionHandled W i tl r m ↔ ∀ r₁, Comes W i tl r m r₁ →
      ∀ q ∈ r₁.queries.queue, (r₁.queries.recs q).msgid = m.badMsgId →
        r₁.queries.pc q = .resending := by
  constructor
  · intro h r₁ hcomes q hq hmsgid
    obtain ⟨n, r₂, hrun, hnamed⟩ := h r₁ hcomes
    cases n with
    | zero => cases hrun
    | succ n =>
    cases (handleTlN_rejection hid r₁).symm.trans hrun
    rcases hnamed q hq hmsgid with hfin | hresend
    · have hlen := congrArg List.length hfin.unlisted
      have hpos := List.length_pos_of_mem hq
      rw [List.length_erase_of_mem hq] at hlen
      change r₁.queries.queue.length = _ at hlen
      omega
    · exact hresend.told
  · intro h r₁ hcomes
    refine ⟨1, r₁.setTimeDiff W, handleTlN_rejection hid r₁, fun q hq hmsgid => ?_⟩
    exact .inr ⟨h r₁ hcomes q hq hmsgid, fun p _ => ⟨rfl, rfl, rfl⟩⟩

/-! ### `tg_send_query_via_with_progress` -/

variable {V : SendQuery.World} {msgId : UInt64} {tg : Tg} {data t : Bytes} {p : Packet}

theorem parseLeaf_rejection {σ : Type} {cb : Callback σ} {S : Schema} {ntp : UInt64}
    (hid : m.id = idBadMsgNotification) (st : Parse σ) :
    parseLeaf cb S ntp msgId m st = some ((), st.setTimeDiff ntp) := by
  rw [parseLeaf, answerCase, hid, if_neg (by decide), if_neg (by decide), if_pos (.inr rfl)]
  rfl

/-- The root of a packet that is not compressed is a container or the only message. -/
theorem root_id (hp : p.Decodes S gunzip) (hgzip : p.NoGzip) (hleaves : p.leaves = [m]) :
    p = .leaf m ∨ p.root.id = idMsgContainer := by
  cases p with
  | leaf x =>
    obtain rfl := List.singleton_inj.mp hleaves
    exact .inl rfl
  | container x ms => exact .inr hp.1
  | gzip x p => exact hgzip.elim

/-- The call returns what was decoded, unless that is compressed. -/
theorem handleData_rejection (hid : m.id = idBadMsgNotification)
    (hroot : tlDeserialize V.schema data = some (p.root, t)) (hp : p.Decodes V.schema V.gunzip)
    (hleaves : p.leaves = [m]) :
    (¬ p.NoGzip → SendQuery.handleData V msgId tg data = .crashed) ∧
      (p.NoGzip → ∃ tg', SendQuery.handleData V msgId tg data = .done p.root tg') := by
  obtain ⟨hnone, hsome⟩ : _ ∧ (_ → tgParseAnswer V.schema V.ntp msgId p.root ⟨tg, .null⟩ = _) :=
    tgParseAnswer_packet ⟨data, t, hroot⟩ hp
  rw [SendQuery.handleData, hroot]
  dsimp only
  constructor
  · intro hgzip
    rw [hnone hgzip]
  · intro hgzip
    have hleaf : [m].forM (parseLeaf (copyAnswer V.schema) V.schema V.ntp msgId) =
        parseLeaf (copyAnswer V.schema) V.schema V.ntp msgId m := bind_pure _
    rw [hsome hgzip, hleaves, hleaf, parseLeaf_rejection hid]
    have hids : p.root.id = idBadMsgNotification ∨ p.root.id = idMsgContainer := by
      rcases root_id hp hgzip hleaves with rfl | hcontainer
      · exact .inl hid
      · exact .inr hcontainer
    have hne : p.root ≠ .null := by
      intro hnull
      rw [hnull] at hids
      exact absurd hids (by decide)
    refine ⟨(Parse.setTimeDiff ⟨tg, (.null : Tl), []⟩ V.ntp).tg, ?_⟩
    show SendQuery.settle V _ p.root = _
    rcases hids with h | h
    · rw [SendQuery.settle_of_unpack hne (SendQuery.unpack_of_ne (by rw [h]; decide)) hne, h]
      rfl
    · rw [SendQuery.settle_of_unpack hne (SendQuery.unpack_of_ne (by rw [h]; decide)) hne, h]
      rfl

theorem rejectionSettled_iff (hid : m.id = idBadMsgNotification)
    (hroot : tlDeserialize V.schema data = some (p.root, t)) (hp : p.Decodes V.schema V.gunzip)
    (hleaves : p.leaves = [m]) :
    RejectionSettled V msgId tg data m ↔ p = .leaf m ∧ m.badMsgId = msgId := by
  obtain ⟨hcrash, hdone⟩ : _ ∧ (_ → ∃ tg', SendQuery.handleData V msgId tg data = _) :=
    handleData_rejection hid hroot hp hleaves
  by_cases hgzip : p.NoGzip
  · obtain ⟨tg', hrun⟩ := hdone hgzip
    constructor
    · rintro ⟨hnamed, hother⟩
      rw [hrun] at hnamed hother
      have hmsgid : m.badMsgId = msgId := by
        by_contra hne
        obtain ⟨_, heq⟩ := hother hne
        cases heq
      refine ⟨(root_id hp hgzip hleaves).resolve_right fun hcontainer => ?_, hmsgid⟩
      rcases hnamed hmsgid with ⟨_, heq⟩ | ⟨tl, _, heq, herror⟩
      · cases heq
      · cases heq
        rcases herror with h | h | h | h
        · rw [h] at hcontainer
          exact absurd hcontainer (by decide)
        · exact absurd (hcontainer.symm.trans h) (by decide)
        · exact absurd (hcontainer.symm.trans h) (by decide)
        · exact absurd (hcontainer.symm.trans h) (by decide)
    · rintro ⟨rfl, hmsgid⟩
      exact ⟨fun _ => .inr ⟨m, tg', hrun, .inr (.inr (.inr hid))⟩, fun hne => absurd hmsgid hne⟩
  · have hrun := hcrash hgzip
    constructor
    · rintro ⟨hnamed, hother⟩
      rw [hrun] at hnamed hother
      by_cases hmsgid : m.badMsgId = msgId
      · rcases hnamed hmsgid with ⟨_, heq⟩ | ⟨_, _, heq, -⟩ <;> cases heq
      · obtain ⟨_, heq⟩ := hother hmsgid
        cases heq
    · rintro ⟨rfl, -⟩
      exact absurd trivial hgzip

/-- `bad_msg_notification#a7eff811 bad_msg_id:long bad_msg_seqno:int error_code:int`. -/
def badMsgNotification : Entry :=
  ⟨true, "bad_msg_notification", idBadMsgNotification,
    [⟨"bad_msg_id", some "long", 0, 0⟩, ⟨"bad_msg_seqno", some "int", 0, 0⟩,
      ⟨"error_code", some "int", 0, 0⟩]⟩

/-- Message 6 is rejected, its id too low. -/
def tooLowData : Bytes := le32 idBadMsgNotification ++ le64 6 ++ le32 1 ++ le32 16

def tooLow : Tl := .object idBadMsgNotification tooLowData [.long 6, .int 1, .int 16]

def rejectionWorld : SendQuery.World :=
  { saltWorld with schema := [badMsgNotification] }

theorem tooLow_decodes : tlDeserialize rejectionWorld.schema tooLowData = some (tooLow, []) := rfl

end

end Receiving

end Libtg
