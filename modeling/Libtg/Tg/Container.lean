import Libtg.Tg.Numbering
import Libtg.TlGenerator.Bounds

/-!
# The container `tg_header` builds (`tg/header.c`)

When there is something to acknowledge, `tg_header` puts the query, the acknowledgements and the
answers to drop into a container it assembles by hand. `ContainerOk` reads the packet back with the
decoder emitted for `msg_container` and says what is expected to be in it; `containerOk_iff` says
when that is what is there.
-/

namespace Libtg

open LittleEndian Cursor Threads

/-! ## Reading a container -/

/-- `msg_container#73f1f8dc messages:vector<%Message> = MessageContainer;`. -/
def msgContainer : Entry :=
  ⟨true, "msg_container", idMsgContainer, [⟨"messages", some "vector<%Message>", 0, 0⟩]⟩

/-- The decoders of `msg_container` and of the `vector` it names. -/
abbrev containerSchema : Schema := [vector, msgContainer]

/-- The message as `deserialize_mtp_message` returns it. -/
def Threads.Message.tl (m : Message) : Tl :=
  .message m.msgId m.seqno (UInt32.ofNat m.body.length) m.body

/-- A container of these messages, decoded from `data`. -/
def containerTl (data : Bytes) (ms : List Message) : Tl :=
  .object idMsgContainer data [.vector (UInt32.ofNat ms.length) (ms.map Message.tl)]

section
variable {b t : Bytes} {m : Message} {ms : List Message}

theorem deserializeMtpMessage_tl_iff :
    deserializeMtpMessage b = some (m.tl, t) ↔ m.body.length < 2 ^ 31 ∧ b = m.bytes ++ t := by
  constructor
  · intro h
    simp only [deserializeMtpMessage, bind_apply, Option.bind_eq_some_iff] at h
    obtain ⟨⟨msgId, b₁⟩, hid, ⟨seqno, b₂⟩, hseq, ⟨bytes, b₃⟩, hlen, ⟨body, b₄⟩, hbody, hret⟩ := h
    obtain rfl := deserializeUi64_eq_some.mp hid
    obtain rfl := deserializeUi32_eq_some.mp hseq
    obtain rfl := deserializeUi32_eq_some.mp hlen
    obtain ⟨hsize, hx, rfl⟩ := deserializeBody_eq_some.mp hbody
    simp only [pure_apply, Message.tl, Option.some.injEq, Prod.mk.injEq, Tl.message.injEq] at hret
    obtain ⟨⟨rfl, rfl, rfl, rfl⟩, rfl⟩ := hret
    refine ⟨hx ▸ hsize, ?_⟩
    simp only [Message.bytes, List.append_assoc]
  · rintro ⟨hlen, rfl⟩
    have hsize : (UInt32.ofNat m.body.length).toNat = m.body.length := by
      rw [UInt32.toNat_ofNat']
      omega
    have hbody : deserializeBody (UInt32.ofNat m.body.length) (m.body ++ t) = some (m.body, t) :=
      deserializeBody_eq_some.mpr ⟨hsize.symm ▸ hlen, hsize.symm, rfl⟩
    simp only [Message.bytes, List.append_assoc]
    rw [deserializeMtpMessage, bind_of_some (deserializeUi64_eq_some.mpr rfl),
      bind_of_some (deserializeUi32_eq_some.mpr rfl),
      bind_of_some (deserializeUi32_eq_some.mpr rfl), bind_of_some hbody]
    rfl

theorem times_tl_iff :
    deserializeMtpMessage.times ms.length b = some (ms.map Message.tl, t) ↔
      (∀ m ∈ ms, m.body.length < 2 ^ 31) ∧ b = (ms.map Message.bytes).flatten ++ t := by
  induction ms generalizing b with
  | nil =>
    rw [List.length_nil, times, pure_apply]
    simp
  | cons m ms ih =>
    constructor
    · intro h
      rw [List.length_cons, times, bind_apply, Option.bind_eq_some_iff] at h
      obtain ⟨⟨x, u⟩, hx, h⟩ := h
      obtain ⟨xs, hxs, heq⟩ := map_eq_some h
      obtain ⟨rfl, rfl⟩ := List.cons.inj heq
      obtain ⟨hm, rfl⟩ := deserializeMtpMessage_tl_iff.mp hx
      obtain ⟨hms, rfl⟩ := ih.mp hxs
      refine ⟨List.forall_mem_cons.mpr ⟨hm, hms⟩, ?_⟩
      rw [List.map_cons, List.flatten_cons, List.append_assoc]
    · rintro ⟨hlen, rfl⟩
      obtain ⟨hm, hms⟩ := List.forall_mem_cons.mp hlen
      rw [List.map_cons, List.flatten_cons, List.append_assoc, List.length_cons, times,
        bind_of_some (deserializeMtpMessage_tl_iff.mpr ⟨hm, rfl⟩),
        bind_of_some (ih.mpr ⟨hms, rfl⟩)]
      rfl

variable {data : Bytes} {rec : Cursor Tl}

theorem deserializeArgs_msgContainer :
    deserializeArgs containerSchema rec msgContainer.method.args [] = (do
      let (x, more) ← deserializeField containerSchema rec (.vector .message)
      if more then (x :: ·) <$> deserializeArgs containerSchema rec [] [] else return [x]) := by
  have hty : tyOf "vector<%Message>" = .vector .message := by decide
  simp only [msgContainer, deserializeArgs, Option.map_some, hty, isPresent, if_true]
  rfl

/-- The count of a container is not the id of `vector`. -/
theorem deserializeVectorLen_count {n : Nat} (h : n ≤ 100) :
    deserializeVectorLen containerSchema (le32 (UInt32.ofNat n) ++ b) =
      some (UInt32.ofNat n, b) := by
  have hid : containerSchema.idVector? = some 0x1cb5c415 := by decide
  have hne : containerSchema.idVector? ≠ some (UInt32.ofNat n) := by
    rw [hid]
    intro h'
    have hval : 0x1cb5c415 = n % 2 ^ 32 := by
      rw [← UInt32.toNat_ofNat', ← Option.some.inj h']
      rfl
    omega
  rw [deserializeVectorLen, bind_of_some (deserializeUi32_eq_some.mpr rfl), if_neg hne]
  rfl

/-- The decoder on a count of at most 100. -/
theorem tlDeserialize_msgContainer {n : Nat} (h : n ≤ 100) :
    tlDeserialize containerSchema (le32 idMsgContainer ++ (le32 (UInt32.ofNat n) ++ b)) =
      (deserializeMtpMessage.times n b).map fun r =>
        (.object idMsgContainer (le32 idMsgContainer ++ (le32 (UInt32.ofNat n) ++ b))
          [.vector (UInt32.ofNat n) r.1], r.2) := by
  have hn : (UInt32.ofNat n).toNat = n := by
    rw [UInt32.toNat_ofNat']
    omega
  have hle : ¬ UInt32.ofNat n > 100 := by
    rw [gt_iff_lt, UInt32.lt_iff_toNat_lt, hn]
    exact Nat.not_lt.mpr h
  rw [tlDeserialize_known (e := msgContainer) (by decide) rfl, tlDeserializeMethod,
    bind_of_some rfl, bind_of_some (deserializeUi32_eq_some.mpr rfl), deserializeVectorHead,
    if_neg (by decide), bind_of_some rfl, deserializeArgs_msgContainer, deserializeField]
  have helem : deserializeElem (tlDeserialize containerSchema) .message = deserializeMtpMessage :=
    rfl
  simp only [bind_apply, deserializeVectorLen_count h, Option.bind_some, if_neg hle, hn, helem]
  cases deserializeMtpMessage.times n b <;> rfl

/-- The decoder reads these messages, and nothing is left, exactly if the container is made of these
messages and each of them has a length an `int` can hold. -/
theorem tlDeserialize_containerTl_iff (hlen : ms.length ≤ 100)
    (hdata : data = le32 idMsgContainer ++ (le32 (UInt32.ofNat ms.length) ++ b)) :
    tlDeserialize containerSchema data = some (containerTl data ms, []) ↔
      (∀ m ∈ ms, m.body.length < 2 ^ 31) ∧ b = (ms.map Message.bytes).flatten := by
  have htimes : deserializeMtpMessage.times ms.length b = some (ms.map Message.tl, []) ↔ _ :=
    times_tl_iff
  rw [List.append_nil] at htimes
  rw [hdata, tlDeserialize_msgContainer hlen, ← htimes, containerTl, Option.map_eq_some_iff]
  constructor
  · rintro ⟨⟨xs, t⟩, hxs, heq⟩
    cases heq
    exact hxs
  · exact fun h => ⟨_, h, rfl⟩

/-- What is read as these messages has room for them. -/
theorem length_le_of_containerTl (hlen : ms.length ≤ 100)
    (h : tlDeserialize containerSchema data = some (containerTl data ms, t)) :
    (ms.map Message.bytes).flatten.length + 8 ≤ data.length := by
  obtain ⟨id, u, rfl, ⟨-, hnull, -⟩ | ⟨-, e, he, hread⟩⟩ := tlDeserialize_eq_some h
  · cases hnull
  obtain ⟨id', u', v, head, fields, heq, hhead, hargs, hx⟩ := tlDeserializeMethod_eq_some hread
  obtain ⟨hid, rfl⟩ := List.append_inj heq (by simp)
  rw [containerTl, Tl.object.injEq] at hx
  obtain ⟨rfl, -, hfields⟩ := hx
  obtain rfl := le32_inj hid
  obtain rfl : msgContainer = e := Option.some.inj he
  cases hhead
  rw [deserializeArgs_msgContainer, bind_apply, Option.bind_eq_some_iff] at hargs
  obtain ⟨⟨⟨x, more⟩, w⟩, hfield, hargs⟩ := hargs
  obtain ⟨len, p, q, xs, hp, rfl, rfl, hxs⟩ := deserializeField_vector_eq_some hfield
  have hn : (UInt32.ofNat ms.length).toNat = ms.length := by
    rw [UInt32.toNat_ofNat']
    omega
  obtain ⟨hlong, rfl, rfl, rfl⟩ | ⟨hle, rfl, hxs⟩ := hxs
  · cases hargs
    obtain ⟨hlen', -⟩ := Tl.vector.inj (List.cons.inj hfields).1
    rw [← hlen', UInt32.lt_iff_toNat_lt, hn] at hlong
    exact absurd hlong (Nat.not_lt.mpr hlen)
  · cases hargs
    obtain ⟨rfl, rfl⟩ := Tl.vector.inj (List.cons.inj hfields).1
    rw [hn] at hxs
    have helem : deserializeElem (tlDeserialize containerSchema) .message =
        deserializeMtpMessage := rfl
    obtain ⟨-, rfl⟩ := times_tl_iff.mp (helem ▸ hxs)
    have hfour : 4 ≤ p.length := by
      obtain ⟨rfl, -⟩ | ⟨id, -, rfl⟩ := hp <;> simp
    simp only [List.length_append, le32_length]
    omega

end

/-! ## What `tg_header` puts in it -/

/-- The answers to drop, one message for each, from a reading of the clock and a count on. -/
def dropMessages (msgId : Nat → UInt64) : Nat → UInt32 → List UInt64 → List Message
  | _, _, [] => []
  | n, k, id :: ids =>
    ⟨msgId n, k * 2 + 1, true, tlRpcDropAnswer id⟩ :: dropMessages msgId (n + 1) (k + 1) ids

/-- The messages of the container: the query, the acknowledgements and the answers to drop. -/
def containerMessages (E : Env) (tg : Tg) (payload : Bytes) : List Message :=
  ⟨messageId E tg tg.readings, tg.seqn * 2 + 1, true, payload⟩ ::
    ⟨messageId E tg (tg.readings + 1), (tg.seqn + 1) * 2, false, tlMsgsAck tg.msgids⟩ ::
    dropMessages (messageId E tg) (tg.readings + 2) (tg.seqn + 1) tg.todrop

/-- The id of the container. -/
def containerId (E : Env) (tg : Tg) : UInt64 :=
  messageId E tg (tg.readings + 2 + tg.todrop.length)

/-- The number of the container. -/
def containerSeqno (tg : Tg) : UInt32 := (tg.seqn + 1 + UInt32.ofNat tg.todrop.length) * 2

/-- After the salt and the session id: the id and the number of the message, and its data. -/
def readHeader (tg : Tg) : Cursor (UInt64 × UInt32 × Bytes) := do
  skip (tg.salt ++ tg.ssid).length
  let msgId ← deserializeUi64
  let seqno ← deserializeUi32
  let len ← deserializeUi32
  let data ← takeBytes len.toNat
  return (msgId, seqno, data)

section
variable {E : Env} {tg : Tg} {payload : Bytes} {content : Bool} {msgid : UInt64}

@[simp] theorem dropMessages_length (msgId : Nat → UInt64) (n : Nat) (k : UInt32)
    (ids : List UInt64) : (dropMessages msgId n k ids).length = ids.length := by
  induction ids generalizing n k with
  | nil => rfl
  | cons id ids ih => exact congrArg (· + 1) (ih (n + 1) (k + 1))

@[simp] theorem containerMessages_length :
    (containerMessages E tg payload).length = 2 + tg.todrop.length := by
  rw [containerMessages, List.length_cons, List.length_cons, dropMessages_length]
  omega

theorem mapM_tgMtpMessage (n : Nat) (k : UInt32) (ids : List UInt64) :
    (ids.mapM fun id => Libtg.tgMtpMessage E (tlRpcDropAnswer id) true)
        { tg with seqn := k, readings := n } =
      ((dropMessages (messageId E tg) n k ids).map fun m => (m.bytes, m.msgId),
        { tg with seqn := k + UInt32.ofNat ids.length, readings := n + ids.length }) := by
  induction ids generalizing n k with
  | nil =>
    have hseqn : k + UInt32.ofNat ([] : List UInt64).length = k := UInt32.add_zero k
    rw [hseqn]
    rfl
  | cons id ids ih =>
    have hone : Libtg.tgMtpMessage E (tlRpcDropAnswer id) true
        { tg with seqn := k, readings := n } =
        ((Message.bytes ⟨messageId E tg n, k * 2 + 1, true, tlRpcDropAnswer id⟩,
          messageId E tg n), { tg with seqn := k + 1, readings := n + 1 }) := rfl
    rw [List.mapM_cons, run_bind, hone, run_bind, ih (n + 1) (k + 1)]
    have hseqn : k + 1 + UInt32.ofNat ids.length = k + UInt32.ofNat (ids.length + 1) := by
      rw [UInt32.ofNat_add, UInt32.add_assoc, UInt32.add_comm 1]
      rfl
    have hread : n + 1 + ids.length = n + (ids.length + 1) := by omega
    rw [List.length_cons, hseqn, hread]
    rfl

theorem tgToDrop_run :
    Libtg.tgToDrop E tg =
      ((tg.todrop.length,
        ((dropMessages (messageId E tg) tg.readings tg.seqn tg.todrop).map Message.bytes).flatten),
        { tg with
          todrop := []
          seqn := tg.seqn + UInt32.ofNat tg.todrop.length
          readings := tg.readings + tg.todrop.length }) := by
  have hmap : (tg.todrop.mapM fun id => Libtg.tgMtpMessage E (tlRpcDropAnswer id) true) tg = _ :=
    mapM_tgMtpMessage tg.readings tg.seqn tg.todrop
  rw [tgToDrop_eq, hmap]
  split_ifs with hlen
  · have hnil : tg.todrop = [] := List.eq_nil_of_length_eq_zero (by omega)
    have hseqn : tg.seqn + UInt32.ofNat tg.todrop.length = tg.seqn := by
      rw [hnil]
      exact UInt32.add_zero tg.seqn
    rw [hseqn]
    cases tg
    cases hnil
    rfl
  · simp only [List.map_map]
    rfl

theorem tgHeaderData_plain (h : tg.msgids = []) :
    tgHeaderData E payload content tg = ((payload, content, 0), tg) := by
  have hack : tgAck tg = ([], tg) := by rw [tgAck_eq, if_pos (by simp [h])]
  rw [tgHeaderData, run_bind, hack]
  rfl

theorem tgHeaderData_container (h : tg.msgids ≠ []) :
    tgHeaderData E payload content tg =
      (((Data.container (containerMessages E tg payload)).bytes, false,
        messageId E tg tg.readings),
        { tg with
          msgids := []
          todrop := []
          seqn := tg.seqn + 1 + UInt32.ofNat tg.todrop.length
          readings := tg.readings + 2 + tg.todrop.length }) := by
  have hack : tgAck tg = (tlMsgsAck tg.msgids, { tg with msgids := [] }) := by
    rw [tgAck_eq, if_neg (by simpa [Nat.pos_iff_ne_zero] using h)]
  have hlen : (tlMsgsAck tg.msgids).length > 0 := by
    rw [tlMsgsAck_eq]
    simp
  rw [tgHeaderData, run_bind, hack]
  dsimp only
  have hquery : Libtg.tgMtpMessage E payload true { tg with msgids := [] } =
      ((Message.bytes ⟨messageId E tg tg.readings, tg.seqn * 2 + 1, true, payload⟩,
        messageId E tg tg.readings),
        { tg with msgids := [], seqn := tg.seqn + 1, readings := tg.readings + 1 }) := rfl
  have hacks : Libtg.tgMtpMessage E (tlMsgsAck tg.msgids) false
        { tg with msgids := [], seqn := tg.seqn + 1, readings := tg.readings + 1 } =
      ((Message.bytes ⟨messageId E tg (tg.readings + 1), (tg.seqn + 1) * 2, false,
          tlMsgsAck tg.msgids⟩, messageId E tg (tg.readings + 1)),
        { tg with msgids := [], seqn := tg.seqn + 1, readings := tg.readings + 2 }) := rfl
  have hcount : 2 + tg.todrop.length = (containerMessages E tg payload).length :=
    containerMessages_length.symm
  rw [if_pos hlen, run_bind, hquery, run_bind, hacks, run_bind, tgToDrop_run, Data.bytes, ← hcount,
    containerMessages, List.map_cons, List.map_cons, List.flatten_cons, List.flatten_cons,
    ← List.append_assoc, ← List.append_assoc]
  rfl

end

/-! ## Whether it is what the server should see -/

/-- The packet `tg_header` builds and the id it leaves are as expected. -/
def HeaderOk (E : Env) (tg : Tg) (payload : Bytes) (content : Bool) (msgid : UInt64) : Prop :=
  ∃ id seqno data padding,
    readHeader tg (Libtg.tgHeader E payload true content msgid tg).1.1 =
      some ((id, seqno, data), padding) ∧
    if tg.msgids = [] then
      data = payload ∧ (Libtg.tgHeader E payload true content msgid tg).1.2 = id
    else
      tlDeserialize containerSchema data =
        some (containerTl data (containerMessages E tg payload), []) ∧
      seqno % 2 = 0 ∧ (∀ m ∈ containerMessages E tg payload, m.seqno ≤ seqno) ∧
      (Libtg.tgHeader E payload true content msgid tg).1.2 = messageId E tg tg.readings

/-- The lengths fit the decoder and the header, no number wraps around, and the id of the query is
not taken for none. -/
structure ContainerFits (E : Env) (tg : Tg) (payload : Bytes) : Prop where
  payload_lt : payload.length < 2 ^ 31
  acks_lt : 12 + 8 * tg.msgids.length < 2 ^ 31
  data_lt : 52 + payload.length + 8 * tg.msgids.length + 28 * tg.todrop.length < 2 ^ 32
  seqn_lt : tg.seqn.toNat % 2 ^ 31 + 1 + tg.todrop.length < 2 ^ 31
  id_eq_zero : messageId E tg tg.readings = 0 → containerId E tg = 0

section
variable {E : Env} {tg : Tg} {payload : Bytes} {content : Bool} {msgid : UInt64}

theorem readHeader_eq {msgId : UInt64} {seqno : UInt32} {data padding : Bytes} :
    readHeader tg (tg.salt ++ tg.ssid ++ le64 msgId ++ le32 seqno ++
        le32 (UInt32.ofNat data.length) ++ data ++ padding) =
      some ((msgId, seqno, data.take (data.length % 2 ^ 32)),
        data.drop (data.length % 2 ^ 32) ++ padding) := by
  have hlen : (UInt32.ofNat data.length).toNat = data.length % 2 ^ 32 := UInt32.toNat_ofNat'
  have hle : data.length % 2 ^ 32 ≤ data.length := Nat.mod_le _ _
  have htake := List.length_take_of_le hle
  have hkeys : skip (tg.salt ++ tg.ssid).length (tg.salt ++ tg.ssid ++ le64 msgId ++ le32 seqno ++
      le32 (UInt32.ofNat data.length) ++ data ++ padding) = some ((), le64 msgId ++ (le32 seqno ++
      (le32 (UInt32.ofNat data.length) ++ (data.take (data.length % 2 ^ 32) ++
        (data.drop (data.length % 2 ^ 32) ++ padding))))) := by
    refine skip_eq_some.mpr ⟨tg.salt ++ tg.ssid, rfl, ?_⟩
    rw [← List.append_assoc (data.take _), List.take_append_drop]
    simp only [List.append_assoc]
  rw [readHeader, bind_of_some hkeys, bind_of_some (deserializeUi64_eq_some.mpr rfl),
    bind_of_some (deserializeUi32_eq_some.mpr rfl), bind_of_some (deserializeUi32_eq_some.mpr rfl),
    bind_of_some (takeBytes_eq_some.mpr ⟨htake.trans hlen.symm, rfl⟩)]
  rfl

variable (E payload) in
theorem tgHeader_plain (h : tg.msgids = []) :
    ∃ seqno padding, (Libtg.tgHeader E payload true content msgid tg).1 =
      (tg.salt ++ tg.ssid ++ le64 (messageId E tg tg.readings) ++ le32 seqno ++
        le32 (UInt32.ofNat payload.length) ++ payload ++ padding, messageId E tg tg.readings) := by
  rw [Libtg.tgHeader, if_pos rfl, run_bind, tgHeaderData_plain h]
  exact ⟨_, _, rfl⟩

variable (E payload) in
theorem tgHeader_container (h : tg.msgids ≠ []) :
    ∃ padding, (Libtg.tgHeader E payload true content msgid tg).1 =
      (tg.salt ++ tg.ssid ++ le64 (containerId E tg) ++ le32 (containerSeqno tg) ++
        le32 (UInt32.ofNat (Data.container (containerMessages E tg payload)).bytes.length) ++
        (Data.container (containerMessages E tg payload)).bytes ++ padding,
        if messageId E tg tg.readings = 0 then containerId E tg
        else messageId E tg tg.readings) := by
  rw [Libtg.tgHeader, if_pos rfl, run_bind, tgHeaderData_container h]
  exact ⟨_, rfl⟩

theorem tlMsgsAck_length (msgIds : List UInt64) :
    (tlMsgsAck msgIds).length = 12 + 8 * msgIds.length := by
  have hids : (msgIds.map le64).flatten.length = 8 * msgIds.length := by
    induction msgIds with
    | nil => rfl
    | cons id ids ih =>
      rw [List.map_cons, List.flatten_cons, List.length_append, le64_length, ih, List.length_cons]
      omega
  rw [tlMsgsAck_eq, List.length_append, hids]
  rfl

theorem tlRpcDropAnswer_length (reqMsgId : UInt64) : (tlRpcDropAnswer reqMsgId).length = 12 := by
  rw [tlRpcDropAnswer_eq]
  rfl

theorem Threads.Message.bytes_length (m : Message) : m.bytes.length = 16 + m.body.length := by
  rw [Message.bytes, List.length_append]
  rfl

theorem dropMessages_bytes_length (msgId : Nat → UInt64) (n : Nat) (k : UInt32)
    (ids : List UInt64) :
    ((dropMessages msgId n k ids).map Message.bytes).flatten.length = 28 * ids.length := by
  induction ids generalizing n k with
  | nil => rfl
  | cons id ids ih =>
    rw [dropMessages, List.map_cons, List.flatten_cons, List.length_append, Message.bytes_length,
      tlRpcDropAnswer_length, ih, List.length_cons]
    omega

theorem containerMessages_bytes_length :
    ((containerMessages E tg payload).map Message.bytes).flatten.length =
      44 + payload.length + 8 * tg.msgids.length + 28 * tg.todrop.length := by
  simp only [containerMessages, List.map_cons, List.flatten_cons, List.length_append,
    Message.bytes_length, tlMsgsAck_length, dropMessages_bytes_length]
  omega

theorem containerMessages_body_length :
    (∀ m ∈ containerMessages E tg payload, m.body.length < 2 ^ 31) ↔
      payload.length < 2 ^ 31 ∧ 12 + 8 * tg.msgids.length < 2 ^ 31 := by
  have hdrop (n : Nat) (k : UInt32) (ids : List UInt64) :
      ∀ m ∈ dropMessages (messageId E tg) n k ids, m.body.length < 2 ^ 31 := by
    induction ids generalizing n k with
    | nil => exact List.forall_mem_nil _
    | cons id ids ih =>
      refine List.forall_mem_cons.mpr ⟨?_, ih (n + 1) (k + 1)⟩
      rw [tlRpcDropAnswer_length]
      decide
  rw [containerMessages, List.forall_mem_cons, List.forall_mem_cons, tlMsgsAck_length]
  exact and_congr_right' (and_iff_left (hdrop _ _ _))

theorem content_seqno_toNat (k : UInt32) (n : Nat) :
    ((k + UInt32.ofNat n) * 2 + 1).toNat = 2 * ((k.toNat + n) % 2 ^ 31) + 1 := by
  simp only [UInt32.toNat_add, UInt32.toNat_mul, UInt32.toNat_ofNat', UInt32.toNat_one]
  show ((k.toNat + n % 2 ^ 32) % 2 ^ 32 * 2 % 2 ^ 32 + 1) % 2 ^ 32 = _
  omega

theorem seqno_toNat (k : UInt32) (n : Nat) :
    ((k + UInt32.ofNat n) * 2).toNat = 2 * ((k.toNat + n) % 2 ^ 31) := by
  simp only [UInt32.toNat_add, UInt32.toNat_mul, UInt32.toNat_ofNat']
  show (k.toNat + n % 2 ^ 32) % 2 ^ 32 * 2 % 2 ^ 32 = _
  omega

theorem mem_dropMessages {msgId : Nat → UInt64} {n : Nat} {k : UInt32} {ids : List UInt64}
    {m : Message} (h : m ∈ dropMessages msgId n k ids) :
    ∃ i < ids.length, m.seqno = (k + UInt32.ofNat i) * 2 + 1 := by
  induction ids generalizing n k with
  | nil => cases h
  | cons id ids ih =>
    obtain rfl | h := List.mem_cons.mp h
    · exact ⟨0, Nat.succ_pos _, congrArg (· * 2 + 1) (UInt32.add_zero k).symm⟩
    · obtain ⟨i, hi, hseqno⟩ := ih h
      refine ⟨i + 1, Nat.succ_lt_succ hi, ?_⟩
      rw [hseqno, Nat.add_comm i 1, UInt32.ofNat_add, ← UInt32.add_assoc]
      rfl

/-- The container is numbered after its messages exactly if no number wraps around. -/
theorem seqnos_le_iff (hdrop : tg.todrop.length ≤ 98) :
    (∀ m ∈ containerMessages E tg payload, m.seqno ≤ containerSeqno tg) ↔
      tg.seqn.toNat % 2 ^ 31 + 1 + tg.todrop.length < 2 ^ 31 := by
  have houter : (containerSeqno tg).toNat =
      2 * ((tg.seqn.toNat + (1 + tg.todrop.length)) % 2 ^ 31) := by
    rw [containerSeqno, UInt32.add_assoc, ← seqno_toNat, UInt32.ofNat_add]
    rfl
  have hquery : (tg.seqn * 2 + 1).toNat = 2 * ((tg.seqn.toNat + 0) % 2 ^ 31) + 1 := by
    rw [← content_seqno_toNat]
    exact congrArg (fun k => (k * 2 + 1 : UInt32).toNat) (UInt32.add_zero _).symm
  have hacks : ((tg.seqn + 1) * 2).toNat = 2 * ((tg.seqn.toNat + 1) % 2 ^ 31) :=
    seqno_toNat tg.seqn 1
  rw [containerMessages, List.forall_mem_cons, List.forall_mem_cons, UInt32.le_iff_toNat_le,
    UInt32.le_iff_toNat_le, houter, hquery, hacks]
  constructor
  · intro h
    omega
  · intro h
    refine ⟨by omega, by omega, fun m hm => ?_⟩
    obtain ⟨i, hi, hseqno⟩ := mem_dropMessages hm
    have hm : m.seqno.toNat = 2 * ((tg.seqn.toNat + (1 + i)) % 2 ^ 31) + 1 := by
      rw [hseqno, UInt32.add_assoc, ← content_seqno_toNat, UInt32.ofNat_add]
      rfl
    rw [UInt32.le_iff_toNat_le, hm, houter]
    omega

theorem container_bytes_length :
    (Data.container (containerMessages E tg payload)).bytes.length =
      52 + payload.length + 8 * tg.msgids.length + 28 * tg.todrop.length := by
  rw [Data.bytes, List.length_append, containerMessages_bytes_length, List.length_append,
    le32_length, le32_length]
  omega

/-- The decoder reads what the header announces exactly if all of it is announced. -/
theorem tlDeserialize_announced_iff (hdrop : tg.todrop.length ≤ 98) {data : Bytes}
    (hdata : data = (Data.container (containerMessages E tg payload)).bytes) :
    tlDeserialize containerSchema (data.take (data.length % 2 ^ 32)) =
        some (containerTl (data.take (data.length % 2 ^ 32)) (containerMessages E tg payload), []) ↔
      data.length < 2 ^ 32 ∧ payload.length < 2 ^ 31 ∧ 12 + 8 * tg.msgids.length < 2 ^ 31 := by
  have hlen : (containerMessages E tg payload).length ≤ 100 := by
    rw [containerMessages_length]
    omega
  rw [← containerMessages_body_length (E := E)]
  constructor
  · intro h
    have hroom := length_le_of_containerTl hlen h
    rw [containerMessages_bytes_length, List.length_take] at hroom
    have hlt : data.length < 2 ^ 32 := by
      have hall : data.length = _ := hdata ▸ container_bytes_length
      omega
    refine ⟨hlt, ?_⟩
    rw [Nat.mod_eq_of_lt hlt, List.take_length, tlDeserialize_containerTl_iff hlen] at h
    · exact h.1
    · rw [hdata, Data.bytes, List.append_assoc]
  · rintro ⟨hlt, hbody⟩
    rw [Nat.mod_eq_of_lt hlt, List.take_length, tlDeserialize_containerTl_iff hlen]
    · exact ⟨hbody, rfl⟩
    · rw [hdata, Data.bytes, List.append_assoc]

/-- What is expected of a packet, where the header announces `data`. -/
theorem headerOk_of_eq {id left : UInt64} {seqno : UInt32} {data padding : Bytes}
    (h : (Libtg.tgHeader E payload true content msgid tg).1 =
      (tg.salt ++ tg.ssid ++ le64 id ++ le32 seqno ++ le32 (UInt32.ofNat data.length) ++ data ++
        padding, left)) :
    HeaderOk E tg payload content msgid ↔
      if tg.msgids = [] then data.take (data.length % 2 ^ 32) = payload ∧ left = id
      else
        tlDeserialize containerSchema (data.take (data.length % 2 ^ 32)) =
          some (containerTl (data.take (data.length % 2 ^ 32)) (containerMessages E tg payload),
            []) ∧
        seqno % 2 = 0 ∧ (∀ m ∈ containerMessages E tg payload, m.seqno ≤ seqno) ∧
        left = messageId E tg tg.readings := by
  rw [HeaderOk, h]
  constructor
  · rintro ⟨id', seqno', data', padding', hread, hok⟩
    rw [readHeader_eq] at hread
    cases hread
    exact hok
  · intro hok
    exact ⟨id, seqno, _, _, readHeader_eq, hok⟩

/-- With nothing to acknowledge the header announces the payload, if it can; otherwise the container
is read back exactly if everything fits. -/
theorem headerOk_iff (hdrop : tg.todrop.length ≤ 98) :
    HeaderOk E tg payload content msgid ↔
      payload.length < 2 ^ 32 ∧ (tg.msgids ≠ [] → ContainerFits E tg payload) := by
  by_cases hack : tg.msgids = []
  · obtain ⟨seqno, padding, hheader⟩ := tgHeader_plain E payload hack
    have hlt : payload.take (payload.length % 2 ^ 32) = payload ↔ payload.length < 2 ^ 32 := by
      rw [List.take_eq_self_iff]
      omega
    rw [headerOk_of_eq hheader, if_pos hack, hlt, and_iff_left rfl]
    exact (and_iff_left (absurd hack)).symm
  · obtain ⟨padding, hheader⟩ := tgHeader_container E payload hack
    have heven : containerSeqno tg % 2 = 0 := by
      rw [← UInt32.toNat_inj, UInt32.toNat_mod, containerSeqno, seqno_toNat]
      exact Nat.mul_mod_right 2 _
    rw [headerOk_of_eq hheader, if_neg hack, tlDeserialize_announced_iff hdrop rfl,
      seqnos_le_iff hdrop, container_bytes_length]
    have hid : (if messageId E tg tg.readings = 0 then containerId E tg
        else messageId E tg tg.readings) = messageId E tg tg.readings ↔
        (messageId E tg tg.readings = 0 → containerId E tg = 0) := by
      split_ifs with hzero
      · rw [hzero]
        exact ⟨fun h _ => h, fun h => h rfl⟩
      · exact iff_of_true rfl fun h => absurd h hzero
    rw [hid]
    constructor
    · rintro ⟨⟨hdata, hpayload, hacks⟩, -, hseqn, hzero⟩
      exact ⟨by omega, fun _ => ⟨hpayload, hacks, hdata, hseqn, hzero⟩⟩
    · rintro ⟨-, hfits⟩
      obtain ⟨hpayload, hacks, hdata, hseqn, hzero⟩ := hfits hack
      exact ⟨⟨hdata, hpayload, hacks⟩, heven, hseqn, hzero⟩

end

/-- A session with something to acknowledge and something to drop. -/
def pendingTg : Tg := { pingTg with msgids := [3], todrop := [5] }

theorem headerOk_pendingTg : HeaderOk pingEnv pendingTg ping true 0 :=
  (headerOk_iff (by decide)).mpr
    ⟨by decide, fun _ => ⟨by decide, by decide, by decide, by decide, by decide⟩⟩

/-- Every packet is as expected. -/
def HeadersOk : Prop :=
  ∀ (E : Env) (tg : Tg) (payload : Bytes) (content : Bool) (msgid : UInt64),
    tg.todrop.length ≤ 98 → HeaderOk E tg payload content msgid

/-- An id of 0 is taken for none, and the caller is left the id of the container. -/
theorem headersOk_counterexample : ¬ HeadersOk := by
  intro h
  obtain ⟨id, seqno, data, padding, -, hok⟩ := h ticking pendingTg ping true 0 (by decide)
  have hpending : pendingTg.msgids ≠ [] := by decide
  rw [if_neg hpending] at hok
  exact absurd hok.2.2.2 (by decide +kernel)

end Libtg
