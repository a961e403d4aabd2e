import Libtg.Tg.ParseAnswer

/-!
# Acknowledgements of the two receive paths

`tg_deheader` queues the id of a packet's outer message on both paths. For the messages of its
containers `handle_tl` queues their ids, while `tg_parse_answer` queues the id of the query for
every result, the announced id for every notice that a result is waiting, and nothing else
(`parseLeaf_msgids`). Where the two lists are the same is `acksServer_iff`.
-/

namespace Libtg.Receiving

/-- The notices that a result is waiting. -/
def IsInfo (tl : Tl) : Prop := tl.id = idMsgDetailedInfo ∨ tl.id = idMsgNewDetailedInfo

instance (tl : Tl) : Decidable (IsInfo tl) := inferInstanceAs (Decidable (_ ∨ _))

/-- What `tg_parse_answer` queues for a leaf. -/
def parseAck (msgId : UInt64) (m : Tl) : List UInt64 :=
  if m.id = idRpcResult then [msgId] else if IsInfo m then [m.answerMsgId] else []

/-- What `tg_parse_answer` queues. -/
def parseAcks (msgId : UInt64) (ms : List Tl) : List UInt64 := ms.flatMap (parseAck msgId)

/-- The packet decrypts to a message with id `outer` whose data is this tree. -/
structure Carries (W : Setting) (tg : Tg) (packet : Bytes) (outer : UInt64) (p : Packet) :
    Prop where
  opens : ∃ data t tg', Opens W.crypto tg packet data tg' ∧ tg'.msgids = tg.msgids ++ [outer] ∧
    tlDeserialize W.schema data = some (p.root, t)
  ne_null : p.root ≠ .null
  decodes : p.Decodes W.schema W.gunzip

/-- Both paths queue the ids of the server, each once, and not the one of the query. -/
structure AcksServer (W : Setting) (i : Nat) (ntp msgId : UInt64) (r : Receiver) (packet : Bytes)
    (outer : UInt64) (p : Packet) : Prop where
  parsed : ∃ data tg' tl t out,
    SendQuery.tgReceive W.crypto r.tg (.packet packet) = some (some (data, tg')) ∧
    tlDeserialize W.schema data = some (tl, t) ∧
    tgParseAnswer W.schema ntp msgId tl ⟨tg', .null⟩ = some out ∧
    out.tg.msgids = r.tg.msgids ++ outer :: p.serverIds
  handled : ∃ out, Receives W i packet r out ∧
    out.2.tg.msgids = r.tg.msgids ++ outer :: p.serverIds
  others : msgId ∉ outer :: p.serverIds

/-- Every message of the container announces its own id. -/
def OwnInfos : Messages → Prop
  | .nil => True
  | .cons msgId (.leaf tl) ms => IsInfo tl ∧ tl.answerMsgId = msgId ∧ OwnInfos ms
  | .cons _ _ _ => False

/-- The packet is one message for which nothing more is queued, or a container of messages that
announce their own ids. -/
def QueuesOwn : Packet → Prop
  | .leaf tl => tl.id ≠ idRpcResult ∧ ¬ IsInfo tl ∧ Readable tl
  | .container _ ms => OwnInfos ms
  | .gzip _ _ => False

/-! ## What `tg_parse_answer` queues -/

section
variable {S : Schema} {gunzip : Bytes → Gunzipped} {ntp msgId : UInt64} {m : Tl}
  {st st' : Parse Tl}

theorem invoke_tg {σ : Type} {cb : Callback σ} {tl : Tl} {st : Parse σ} {out : Bool × Parse σ}
    (h : invoke cb tl st = some out) : out.2.tg = st.tg := by
  cases cb with
  | none =>
    cases h
    rfl
  | some f =>
    obtain ⟨x, -, rfl⟩ := Option.map_eq_some_iff.mp h
    rfl

theorem invokeAcks_tg {σ : Type} {cb : Callback σ} {tl : Tl} {ids : List UInt64} {st : Parse σ}
    {out : Unit × Parse σ} (h : invokeAcks cb msgId tl ids st = some out) : out.2.tg = st.tg := by
  induction ids generalizing st with
  | nil =>
    cases h
    rfl
  | cons id ids ih =>
    rw [invokeAcks] at h
    split_ifs at h
    · obtain ⟨stop, st₁, hcall, hrest⟩ := parseM_bind_eq_some h
      split_ifs at hrest
      · cases hrest
        exact invoke_tg hcall
      · exact (ih hrest).trans (invoke_tg hcall)
    · exact ih h

/-- `tg_parse_answer_callback` answers 0. -/
theorem invoke_copyAnswer_false {tl : Tl} {out : Bool × Parse Tl}
    (h : invoke (copyAnswer S) tl st = some out) : out.1 = false := by
  rw [invoke_copyAnswer] at h
  obtain ⟨x, -, rfl⟩ := Option.map_eq_some_iff.mp h
  rfl

theorem parseLeaf_result {out : Unit × Parse Tl} (hid : m.id = idRpcResult)
    (h : parseLeaf (copyAnswer S) S ntp msgId m st = some out) :
    out.2.tg.msgids = st.tg.msgids ++ [msgId] := by
  rw [parseLeaf, answerCase, if_pos hid] at h
  obtain ⟨_, st₁, hadd, h⟩ := parseM_bind_eq_some h
  cases hadd
  split_ifs at h
  · obtain ⟨_, st₂, hcall, hret⟩ := parseM_bind_eq_some h
    cases hret
    exact congrArg Tg.msgids (invoke_tg hcall)
  · cases h
    rfl

theorem parseLeaf_info {out : Unit × Parse Tl} (hresult : m.id ≠ idRpcResult) (hinfo : IsInfo m)
    (h : parseLeaf (copyAnswer S) S ntp msgId m st = some out) :
    out.2.tg.msgids = st.tg.msgids ++ [m.answerMsgId] := by
  rw [IsInfo] at hinfo
  rw [parseLeaf, answerCase, if_neg hresult, if_pos hinfo] at h
  obtain ⟨stop, st₁, hcall, h⟩ := parseM_bind_eq_some h
  split_ifs at hcall with hanswer
  · obtain rfl : stop = false := invoke_copyAnswer_false hcall
    cases h
    exact congrArg (fun tg : Tg => tg.msgids ++ [m.answerMsgId]) (invoke_tg hcall)
  · cases hcall
    cases h
    rfl

theorem parseLeaf_other {σ : Type} {cb : Callback σ} {st : Parse σ} {out : Unit × Parse σ}
    (hcontainer : m.id ≠ idMsgContainer) (hgzip : m.id ≠ idGzipPacked)
    (hresult : m.id ≠ idRpcResult) (hinfo : ¬ IsInfo m)
    (h : parseLeaf cb S ntp msgId m st = some out) : out.2.tg.msgids = st.tg.msgids := by
  rw [IsInfo] at hinfo
  rw [parseLeaf, answerCase, if_neg hresult, if_neg hinfo, if_neg hcontainer, if_neg hgzip] at h
  split_ifs at h
  · cases h
    rfl
  · cases h
    rfl
  · cases hids : m.msgIds with
    | none =>
      rw [hids] at h
      cases h
    | some ids =>
      rw [parseM_lift_bind hids] at h
      exact congrArg Tg.msgids (invokeAcks_tg h)
  · cases h
    rfl

theorem parseLeaf_msgids {out : Unit × Parse Tl} (hcontainer : m.id ≠ idMsgContainer)
    (hgzip : m.id ≠ idGzipPacked) (h : parseLeaf (copyAnswer S) S ntp msgId m st = some out) :
    out.2.tg.msgids = st.tg.msgids ++ parseAck msgId m := by
  rw [parseAck]
  split_ifs with hresult hinfo
  · exact parseLeaf_result hresult h
  · exact parseLeaf_info hresult hinfo h
  · rw [List.append_nil]
    exact parseLeaf_other hcontainer hgzip hresult hinfo h

theorem forM_msgids {ms : List Tl} {out : Unit × Parse Tl}
    (hms : ∀ m ∈ ms, m.id ≠ idMsgContainer ∧ m.id ≠ idGzipPacked)
    (h : ms.forM (parseLeaf (copyAnswer S) S ntp msgId) st = some out) :
    out.2.tg.msgids = st.tg.msgids ++ parseAcks msgId ms := by
  induction ms generalizing st with
  | nil =>
    cases h
    exact (List.append_nil _).symm
  | cons m ms ih =>
    obtain ⟨hm, hrest⟩ := List.forall_mem_cons.mp hms
    obtain ⟨_, st₁, hhead, htail⟩ := parseM_bind_eq_some h
    rw [ih hrest htail, parseLeaf_msgids hm.1 hm.2 hhead, parseAcks, parseAcks, List.flatMap_cons,
      List.append_assoc]

/-- `tg_parse_answer` of a decoded packet. -/
theorem tgParseAnswer_packet {p : Packet} {tg : Tg} {tl : Tl} (hroot : Decoded S p.root)
    (hp : p.Decodes S gunzip) :
    (¬ p.NoGzip → tgParseAnswer S ntp msgId p.root ⟨tg, tl⟩ = none) ∧
      (p.NoGzip → tgParseAnswer S ntp msgId p.root ⟨tg, tl⟩ =
        (p.leaves.forM (parseLeaf (copyAnswer S) S ntp msgId) ⟨tg, tl, []⟩).map
          fun out => ⟨out.2.tg, out.2.ptr⟩) := by
  constructor
  · intro hgzip
    rw [tgParseAnswer, ← erases_parseAnswerN _ p.root ⟨tg, tl, []⟩,
      parseAnswerN_of_gzip p _ _ hp hgzip]
    rfl
  · intro hgzip
    have hdeep : Deepens (fun n => parseAnswerN (copyAnswer S) S ntp msgId n p.root) _ :=
      deepens_packet p hp hgzip
    obtain ⟨k, hk⟩ := hdeep.ends
    have hn := le_max_left k (p.root.data.length + 1)
    rw [tgParseAnswer, tgParseAnswerN_agree hroot (Nat.lt_succ_self _)
      (lt_of_lt_of_le (Nat.lt_succ_self _) (le_max_right k (p.root.data.length + 1))),
      ← erases_parseAnswerN _ p.root ⟨tg, tl, []⟩, hk _ hn]

/-! ## When the lists are the same -/

theorem parseAck_length_le : (parseAck msgId m).length ≤ 1 := by
  rw [parseAck]
  split_ifs <;> simp

theorem parseAcks_cons (p : Packet) (ms : Messages) (k : UInt64) :
    parseAcks msgId (Messages.cons k p ms).leaves =
      parseAcks msgId p.leaves ++ parseAcks msgId ms.leaves := List.flatMap_append

mutual

theorem parseAcks_packet_le : ∀ p : Packet, p.NoGzip →
    (parseAcks msgId p.leaves).length ≤ p.serverIds.length + 1
  | .leaf _, _ => by
    rw [Packet.leaves, parseAcks, List.flatMap_singleton]
    exact parseAck_length_le
  | .container _ ms, h => (parseAcks_messages_le ms h).trans (Nat.le_succ _)
  | .gzip _ _, h => h.elim

/-- There is one id for each message, and at most one acknowledgement for each leaf. -/
theorem parseAcks_messages_le : ∀ ms : Messages, ms.NoGzip →
    (parseAcks msgId ms.leaves).length ≤ ms.serverIds.length
  | .nil, _ => Nat.zero_le _
  | .cons k p ms, ⟨hp, hms⟩ => by
    have hhead := parseAcks_packet_le p hp
    have htail := parseAcks_messages_le ms hms
    rw [parseAcks_cons, Messages.serverIds, List.length_append, List.length_cons,
      List.length_append]
    omega

end

/-- Every id is needed: nothing is nested, and each message announces its own. -/
theorem ownInfos_of_parseAcks : ∀ ms : Messages, ms.NoGzip →
    parseAcks msgId ms.leaves = ms.serverIds → msgId ∉ ms.serverIds → OwnInfos ms
  | .nil, _, _, _ => trivial
  | .cons k (.leaf m) ms, ⟨_, hms⟩, heq, hnot => by
    have hle : (parseAcks msgId ms.leaves).length ≤ _ := parseAcks_messages_le ms hms
    have hleaf : parseAcks msgId (Packet.leaf m).leaves = parseAck msgId m :=
      List.flatMap_singleton ..
    rw [parseAcks_cons, hleaf, parseAck] at heq
    rw [Messages.serverIds] at heq hnot
    split_ifs at heq with hresult hinfo
    · obtain ⟨rfl, -⟩ := List.cons.inj heq
      exact absurd List.mem_cons_self hnot
    · obtain ⟨hown, hrest⟩ := List.cons.inj heq
      exact ⟨hinfo, hown, ownInfos_of_parseAcks ms hms hrest
        fun hmem => hnot (List.mem_cons_of_mem _ hmem)⟩
    · have hlen := congrArg List.length heq
      change (parseAcks msgId ms.leaves).length = ms.serverIds.length + 1 at hlen
      omega
  | .cons k (.container tl ms') ms, ⟨hp, hms⟩, heq, _ => by
    have hhead : (parseAcks msgId ms'.leaves).length ≤ _ := parseAcks_messages_le ms' hp
    have htail : (parseAcks msgId ms.leaves).length ≤ _ := parseAcks_messages_le ms hms
    have hlen := congrArg List.length heq
    rw [parseAcks_cons, Messages.serverIds, List.length_append, List.length_cons,
      List.length_append] at hlen
    change (parseAcks msgId ms'.leaves).length + _ = ms'.serverIds.length + _ + 1 at hlen
    omega
  | .cons _ (.gzip _ _) _, h, _, _ => h.1.elim

theorem IsInfo.ne_rpcResult (h : IsInfo m) : m.id ≠ idRpcResult := by
  rcases h with h | h <;> rw [h] <;> decide

/-- In such a container the announced ids are those of the messages. -/
theorem OwnInfos.spec : ∀ {ms : Messages}, OwnInfos ms → ms.NoGzip ∧
    parseAcks msgId ms.leaves = ms.serverIds ∧
      ∀ m ∈ ms.leaves, IsInfo m ∧ m.answerMsgId ∈ ms.serverIds
  | .nil, _ => ⟨trivial, rfl, nofun⟩
  | .cons k (.leaf m) ms, ⟨hinfo, hown, hms⟩ => by
    obtain ⟨hgzip, hacks, hall⟩ := OwnInfos.spec hms
    refine ⟨⟨trivial, hgzip⟩, ?_, ?_⟩
    · have hleaf : parseAcks msgId (Packet.leaf m).leaves = [m.answerMsgId] := by
        rw [Packet.leaves, parseAcks, List.flatMap_singleton, parseAck, if_neg hinfo.ne_rpcResult,
          if_pos hinfo]
      rw [parseAcks_cons, hleaf, hacks, hown]
      rfl
    · rintro m' (_ | ⟨_, hm'⟩)
      · exact ⟨hinfo, by rw [hown]; exact List.mem_cons_self⟩
      · obtain ⟨hinfo', hmem⟩ := hall m' hm'
        exact ⟨hinfo', List.mem_cons_of_mem _ hmem⟩
  | .cons _ (.container _ _) _, h => h.elim
  | .cons _ (.gzip _ _) _, h => h.elim

/-- Every other leaf that can be read is parsed to its end. -/
theorem parseLeaf_other_isSome (hm : Decoded S m) (hne : m ≠ .null) (hread : Readable m)
    (hcontainer : m.id ≠ idMsgContainer) (hgzip : m.id ≠ idGzipPacked)
    (hresult : m.id ≠ idRpcResult) (hinfo : ¬ IsInfo m) :
    (parseLeaf (copyAnswer S) S ntp msgId m st).isSome := by
  rw [IsInfo] at hinfo
  rw [parseLeaf, answerCase, if_neg hresult, if_neg hinfo, if_neg hcontainer, if_neg hgzip]
  split_ifs with herror hupdates hack
  · rfl
  · rfl
  · obtain ⟨ids, hids⟩ := Option.isSome_iff_exists.mp (hread hack)
    rw [parseM_lift_bind hids]
    have hacks : Erases (invokeAcks (copyAnswer S) msgId m ids) _ := erases_invokeAcks m ids
    have hrun := hacks st
    rw [foldlM_acks hm hne] at hrun
    obtain ⟨out, hout, -⟩ := Option.map_eq_some_iff.mp hrun
    rw [hout]
    rfl
  · rfl

theorem parseLeaf_info_isSome (hinfo : IsInfo m) (hne : msgId ≠ m.answerMsgId) :
    (parseLeaf (copyAnswer S) S ntp msgId m st).isSome := by
  have hresult := hinfo.ne_rpcResult
  rw [IsInfo] at hinfo
  rw [parseLeaf, answerCase, if_neg hresult, if_pos hinfo, if_neg hne]
  rfl

end

section
variable {W : Setting} {i : Nat} {ntp msgId outer : UInt64} {r : Receiver} {packet data : Bytes}
  {tg' : Tg} {p : Packet} {m : Tl}

theorem tgReceive_of_opens {C : Crypto} {tg : Tg} (h : Opens C tg packet data tg') :
    SendQuery.tgReceive C tg (.packet packet) = some (some (data, tg')) := by
  obtain ⟨h404, d, hd, hlen, hhead⟩ := h
  rw [SendQuery.tgReceive, if_neg h404, hd]
  dsimp only
  rw [if_neg hlen, hhead]
  rfl

theorem catchedTl_null_isSome (msgId : UInt64) (r : Receiver) :
    (catchedTl W i msgId .null r).isSome := by
  rw [catchedTl]
  cases r.queries.find msgId <;> rfl

theorem handleTlN_info_isSome (hinfo : IsInfo m) (r : Receiver) :
    (handleTlN W i 1 m r).isSome := by
  have hcalls : handleTl W.gunzip m = some [.catchedTl m.answerMsgId .null] := by
    rcases hinfo with h | h <;> rw [handleTl, h] <;> rfl
  rw [handleTlN_of_calls hcalls, forM_singleton]
  exact catchedTl_null_isSome _ r

/-- A leaf that is no answer is handled to its end. -/
theorem handleTlN_other_isSome (hcontainer : m.id ≠ idMsgContainer) (hgzip : m.id ≠ idGzipPacked)
    (hresult : m.id ≠ idRpcResult) (hinfo : ¬ IsInfo m) (r : Receiver) :
    (handleTlN W i 1 m r).isSome := by
  rw [IsInfo, not_or] at hinfo
  have hcalls : ∃ calls, handleTl W.gunzip m = some calls ∧
      (calls = [] ∨ calls = [.timeDiff] ∨ calls = [.doUpdates m]) := by
    rw [handleTl, if_neg hgzip, if_neg hcontainer, if_neg hinfo.1, if_neg hinfo.2,
      if_neg hresult]
    split_ifs
    · exact ⟨_, rfl, .inr (.inl rfl)⟩
    · exact ⟨_, rfl, .inr (.inr rfl)⟩
    · exact ⟨_, rfl, .inl rfl⟩
  obtain ⟨calls, hcalls, rfl | rfl | rfl⟩ := hcalls <;> rw [handleTlN_of_calls hcalls] <;> rfl

theorem OwnInfos.handled : ∀ {ms : Messages} {bodies : List (UInt64 × Bytes)} {r : Receiver},
    OwnInfos ms → ms.Decodes W.schema W.gunzip bodies →
      ((bodies.flatMap fun m => [.addMsgid m.1, .message m.2]).forM
        (runCall W i (handleTlN W i 1)) r).isSome
  | .nil, _, _, _, hbodies => by
    cases hbodies
    rfl
  | .cons k (.leaf m) ms, _, r, ⟨hinfo, _, hms⟩, ⟨b, t, rest, hbodies, hroot, _, hrest⟩ => by
    rw [hbodies, List.flatMap_cons]
    obtain ⟨out, hout⟩ := Option.isSome_iff_exists.mp
      (handleTlN_info_isSome hinfo (r.addMsgid k) : (handleTlN W i 1 m (r.addMsgid k)).isSome)
    have hhead : runCall W i (handleTlN W i 1) (.message b) (r.addMsgid k) = some out := by
      rw [runCall, lift_bind_of_some hroot]
      exact hout
    show ((runCall W i (handleTlN W i 1) (.message b) (r.addMsgid k)).bind _).isSome
    rw [hhead]
    exact OwnInfos.handled hms hrest
  | .cons _ (.container _ _) _, _, _, h, _ => h.elim
  | .cons _ (.gzip _ _) _, _, _, h, _ => h.elim

/-- `_tg_receive` queues the ids of the messages of a packet that `handle_tl` gets through. -/
theorem receives_msgids (hopens : Opens W.crypto r.tg packet data tg') {t : Bytes}
    (hmsgids : tg'.msgids = r.tg.msgids ++ [outer])
    (hroot : tlDeserialize W.schema data = some (p.root, t)) (hne : p.root ≠ .null)
    (hp : p.Decodes W.schema W.gunzip) {n : Nat}
    (hrun : (handleTlN W i n p.root { r with tg := tg' }).isSome) :
    ∃ out, Receives W i packet r out ∧
      out.2.tg.msgids = r.tg.msgids ++ outer :: p.serverIds := by
  obtain ⟨out, hout⟩ := Option.isSome_iff_exists.mp hrun
  have hcat : r.tg.msgids ++ outer :: p.serverIds = tg'.msgids ++ p.serverIds := by
    rw [hmsgids, List.append_assoc]
    rfl
  rw [hcat]
  by_cases hsalt : p.root.id = idBadServerSalt
  · refine ⟨_, (receives_iff hopens).mpr ⟨n, dispatchN_badServerSalt hroot hsalt⟩, ?_⟩
    -- a `bad_server_salt` has nothing below it
    cases p with
    | leaf tl => exact (List.append_nil _).symm
    | container tl ms => exact absurd (hp.1.symm.trans hsalt) (by decide)
    | gzip tl p => exact absurd (hp.1.symm.trans hsalt) (by decide)
  · refine ⟨(.rq, out.2), (receives_iff hopens).mpr ⟨n, ?_⟩, handleTlN_msgids p n _ hp hout⟩
    rw [dispatchN_of_some hroot hne hsalt, innerN_of_some hroot]
    show (handleTlN W i n p.root { r with tg := tg' }).bind _ = _
    rw [hout]
    rfl

/-- Where `tg_parse_answer` queues the ids of the server, nothing was compressed, and it is for its
own acknowledgements. -/
theorem AcksServer.parseAcks (h : Carries W r.tg packet outer p)
    (ha : AcksServer W i ntp msgId r packet outer p) :
    p.NoGzip ∧ parseAcks msgId p.leaves = p.serverIds ∧ ∃ st : Parse Tl,
      (p.leaves.forM (parseLeaf (copyAnswer W.schema) W.schema ntp msgId) st).isSome := by
  obtain ⟨⟨data, t, tg', hopens, hmsgids, hroot⟩, hne, hp⟩ := h
  obtain ⟨⟨data', tg'', tl, t', out, hrecv, hroot', hout, hlist⟩, -, -⟩ := ha
  cases (tgReceive_of_opens hopens).symm.trans hrecv
  cases hroot.symm.trans hroot'
  obtain ⟨hnone, hsome⟩ : _ ∧ (_ → tgParseAnswer W.schema ntp msgId p.root ⟨tg', .null⟩ = _) :=
    tgParseAnswer_packet ⟨data, t, hroot⟩ hp
  by_cases hgzip : p.NoGzip
  swap
  · cases (hnone hgzip).symm.trans hout
  rw [hsome hgzip] at hout
  obtain ⟨out', hrun, rfl⟩ := Option.map_eq_some_iff.mp hout
  refine ⟨hgzip, List.append_cancel_left ((forM_msgids (leaves_ids p hp) hrun).symm.trans ?_),
    ⟨tg', .null, []⟩, by rw [hrun]; rfl⟩
  rw [hlist, hmsgids, List.append_assoc]
  rfl

/-- Only for a single message that is no answer, and for notices in a container that announce their
own ids, do the two paths acknowledge the same. -/
theorem acksServer_iff (W : Setting) (i : Nat) (ntp msgId : UInt64) (r : Receiver)
    (packet : Bytes) (outer : UInt64) (p : Packet) (h : Carries W r.tg packet outer p) :
    AcksServer W i ntp msgId r packet outer p ↔ QueuesOwn p ∧ msgId ∉ outer :: p.serverIds := by
  constructor
  · intro ha
    obtain ⟨hgzip, heq, st, hrun⟩ := ha.parseAcks h
    refine ⟨?_, ha.others⟩
    have hnot : msgId ∉ p.serverIds := fun hmem => ha.others (List.mem_cons_of_mem _ hmem)
    cases p with
    | leaf m =>
      have hack : parseAck msgId m = [] := (List.flatMap_singleton ..).symm.trans heq
      rw [parseAck] at hack
      split_ifs at hack with hresult hinfo
      refine ⟨hresult, hinfo, ?_⟩
      by_contra hunread
      have hnone : (Packet.leaf m).leaves.forM
          (parseLeaf (copyAnswer W.schema) W.schema ntp msgId) st = none :=
        forM_eq_none (List.mem_singleton_self m) (parseLeaf_unreadable hunread) st
      rw [hnone] at hrun
      cases hrun
    | container tl ms => exact ownInfos_of_parseAcks ms hgzip heq hnot
    | gzip tl p => exact hgzip
  · rintro ⟨hown, hothers⟩
    obtain ⟨⟨data, t, tg', hopens, hmsgids, hroot⟩, hne, hp⟩ := h
    have hdec : Decoded W.schema p.root := ⟨data, t, hroot⟩
    have hnot : msgId ∉ p.serverIds := fun hmem => hothers (List.mem_cons_of_mem _ hmem)
    obtain ⟨hgzip, hacks, hsome, n, hrun⟩ : p.NoGzip ∧ parseAcks msgId p.leaves = p.serverIds ∧
        (p.leaves.forM (parseLeaf (copyAnswer W.schema) W.schema ntp msgId)
          ⟨tg', .null, []⟩).isSome ∧
        ∃ n, (handleTlN W i n p.root { r with tg := tg' }).isSome := by
      cases p with
      | leaf m =>
        obtain ⟨hresult, hinfo, hread⟩ := hown
        refine ⟨trivial, ?_, forM_isSome (fun x hx st => ?_) _, 1, handleTlN_other_isSome hp.1 hp.2
          hresult hinfo _⟩
        · rw [Packet.leaves, Receiving.parseAcks, List.flatMap_singleton, parseAck,
            if_neg hresult, if_neg hinfo]
          rfl
        · rw [List.mem_singleton.mp hx]
          exact parseLeaf_other_isSome hdec hne hread hp.1 hp.2 hresult hinfo
      | container tl ms =>
        obtain ⟨hid, bodies, hbodies, hms⟩ := hp
        obtain ⟨hgzip, hacks, hall⟩ := OwnInfos.spec hown
        refine ⟨hgzip, hacks, forM_isSome (fun x hx st => ?_) _, 2, ?_⟩
        · obtain ⟨hinfo, hmem⟩ := hall x hx
          exact parseLeaf_info_isSome hinfo fun heq => hnot (heq ▸ hmem)
        · show (handleTlN W i 2 tl _).isSome
          rw [handleTlN_of_calls (handleTl_container hid hbodies)]
          exact OwnInfos.handled hown hms
      | gzip tl p => exact hown.elim
    obtain ⟨-, hparse⟩ : _ ∧ (_ → tgParseAnswer W.schema ntp msgId p.root ⟨tg', .null⟩ = _) :=
      tgParseAnswer_packet hdec hp
    refine ⟨?_, receives_msgids hopens hmsgids hroot hne hp hrun, hothers⟩
    obtain ⟨out, hout⟩ := Option.isSome_iff_exists.mp hsome
    refine ⟨data, tg', p.root, t, _, tgReceive_of_opens hopens, hroot,
      (hparse hgzip).trans (congrArg (Option.map _) hout), ?_⟩
    rw [forM_msgids (leaves_ids p hp) hout, hacks, hmsgids, List.append_assoc]
    rfl

/-- The container with a `pong`, as a tree. -/
def pongTree : Packet :=
  .container
    (.object idMsgContainer pongContainer.data [.vector 1 [.message 7 3 20 pong.data]])
    (.cons 7 (.leaf (.object idPong pong.data [.long 0x6600000000000000, .long 5])) .nil)

theorem carries_pong : Carries wrapSetting waiting.tg (Receiving.packet pongContainer) pong.msgId
    pongTree where
  opens := ⟨pongContainer.data, [], _, opens_packet pongContainer, rfl, rfl⟩
  ne_null := nofun
  decodes := ⟨rfl, [(7, pong.data)], rfl, pong.data, [], [], rfl, rfl, ⟨by decide, by decide⟩, rfl⟩

theorem acksServer_iff_pong :
    AcksServer wrapSetting 0 0 0x6600000000000000 waiting (Receiving.packet pongContainer)
        pong.msgId pongTree ↔
      QueuesOwn pongTree ∧ 0x6600000000000000 ∉ pong.msgId :: pongTree.serverIds :=
  acksServer_iff wrapSetting 0 0 0x6600000000000000 waiting (Receiving.packet pongContainer)
    pong.msgId pongTree carries_pong

/-- On the path of `tg_send_query` the `pong` is never acknowledged. -/
theorem acksServer_counterexample :
    ¬ ∀ (W : Setting) (i : Nat) (ntp msgId : UInt64) (r : Receiver) (packet : Bytes)
      (outer : UInt64) (p : Packet), Carries W r.tg packet outer p →
        AcksServer W i ntp msgId r packet outer p := by
  intro h
  have hacks := (h wrapSetting 0 0 0x6600000000000000 waiting _ pong.msgId pongTree
    carries_pong).parseAcks carries_pong
  exact absurd hacks.2.1 (by decide)

end

end Libtg.Receiving
