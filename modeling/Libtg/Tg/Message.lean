import Libtg.TlGenerator.DeserializeTable
import Libtg.Tl.Mtproto

/-!
# Received messages

How the functions that look at decoded messages read them. A `tl_t *` is a `Tl`, with `.null` for
`NULL`. The fields of an object are read at the places of the descriptor's arguments, and a field
that was not written to is zero.
-/

namespace Libtg

/-! ## Ids of `telegram_api.tl` -/

def idUpdatesTooLong : UInt32 := 0xe317af7e
def idUpdateShortMessage : UInt32 := 0x313bc7f8
def idUpdateShortChatMessage : UInt32 := 0x4d6deea5
def idUpdateShort : UInt32 := 0x78d4dec1
def idUpdatesCombined : UInt32 := 0x725b04c3
def idUpdates : UInt32 := 0x74ae4240
def idUpdateShortSentMessage : UInt32 := 0x9015e101

/-- The case of the `switch` that hands the object to `tg_do_updates`. -/
def isUpdates (id : UInt32) : Bool :=
  id ∈ [idUpdatesTooLong, idUpdateShort, idUpdateShortMessage, idUpdateShortChatMessage,
    idUpdateShortSentMessage, idUpdatesCombined, idUpdates]

/-! ## Fields of an object -/

namespace Tl

/-- `tl->_id`. -/
def id : Tl → UInt32
  | .object id _ _ => id
  | _ => 0

/-- `tl->_buf`. -/
def data : Tl → Bytes
  | .object _ b _ => b
  | _ => []

def field (tl : Tl) (i : Nat) : Tl :=
  match tl with
  | .object _ _ fields => fields.getD i .zero
  | _ => .zero

def int? : Tl → UInt32
  | .int v => v
  | _ => 0

def long? : Tl → UInt64
  | .long v => v
  | _ => 0

def bytes? : Tl → Bytes
  | .buf b => b
  | _ => []

/-- A pointer to an object. -/
def pointer : Tl → Tl
  | .object id b fields => .object id b fields
  | _ => .null

/-- The id and the body of an `mtp_message_t`. -/
def mtpMessage : Tl → UInt64 × Bytes
  | .message msgId _ _ body => (msgId, body)
  | _ => (0, [])

/-- The elements a loop up to `len`, an `int`, reads. Without the array for them it reads from
`NULL`. -/
def elements : Tl → Option (List Tl)
  | .vector len xs =>
    if 2 ^ 31 ≤ len.toNat then some [] else if len.toNat = xs.length then some xs else none
  | _ => some []

/-- `req_msg_id_` of an `rpc_result`. -/
def reqMsgId (tl : Tl) : UInt64 := (tl.field 0).long?

/-- `result_` of an `rpc_result`. -/
def result (tl : Tl) : Tl := (tl.field 1).pointer

/-- `answer_msg_id_` of a `msg_detailed_info` or a `msg_new_detailed_info`. -/
def answerMsgId (tl : Tl) : UInt64 :=
  if tl.id = idMsgDetailedInfo then (tl.field 1).long? else (tl.field 0).long?

/-- `packed_data_` of a `gzip_packed`. -/
def packedData (tl : Tl) : Bytes := (tl.field 0).bytes?

/-- `msg_ids_` of a `msgs_ack`. -/
def msgIds (tl : Tl) : Option (List UInt64) := (tl.field 0).elements.map fun xs => xs.map long?

/-- `messages_` of a `msg_container`. -/
def messages (tl : Tl) : Option (List (UInt64 × Bytes)) :=
  (tl.field 0).elements.map fun xs => xs.map mtpMessage

end Tl

/-- The message is an answer to the query sent under `msgId`: its result, or a notice that the
result is waiting. -/
def Answers (tl : Tl) (msgId : UInt64) : Prop :=
  (tl.id = idRpcResult ∧ tl.reqMsgId = msgId) ∨
  ((tl.id = idMsgDetailedInfo ∨ tl.id = idMsgNewDetailedInfo) ∧ tl.answerMsgId = msgId)

/-- What `gunzip_buf` leaves: whether it returned 0, and the bytes that can be read at `dst->data`,
the inflated ones or after a failure those of the block. -/
structure Gunzipped where
  ok : Bool
  buf : Bytes

end Libtg
