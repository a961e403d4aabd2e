import Libtg.TlGenerator.Layout

/-!
# The messages the client itself looks at

Ids and descriptors of `mtproto_api.tl` that `src/tg` names. The two requests it builds on its own,
acknowledgements and the dropping of an answer, are the outputs of their emitted encoders.
-/

namespace Libtg

open LittleEndian

def idMsgContainer : UInt32 := 0x73f1f8dc
def idRpcResult : UInt32 := 0xf35c6d01
def idRpcError : UInt32 := 0x2144ca19
def idGzipPacked : UInt32 := 0x3072cfa1
def idMsgsAck : UInt32 := 0x62d6b459
def idBadMsgNotification : UInt32 := 0xa7eff811
def idBadServerSalt : UInt32 := 0xedab447b
def idMsgDetailedInfo : UInt32 := 0x276d3ec6
def idMsgNewDetailedInfo : UInt32 := 0x809db6df
def idNewSessionCreated : UInt32 := 0x9ec20908
def idPong : UInt32 := 0x347773c5
def idRpcDropAnswer : UInt32 := 0x58e4a740

/-- `vector#1cb5c415 {t:Type} # [ t ] = Vector t;`. -/
def vector : Entry := ⟨false, "vector", 0x1cb5c415, []⟩

/-- `msgs_ack#62d6b459 msg_ids:Vector<long> = MsgsAck;`. -/
def msgsAck : Entry := ⟨true, "msgs_ack", idMsgsAck, [⟨"msg_ids", some "Vector<long>", 0, 0⟩]⟩

/-- `rpc_drop_answer#58e4a740 req_msg_id:long = RpcDropAnswer;`. -/
def rpcDropAnswer : Entry :=
  ⟨true, "rpc_drop_answer", idRpcDropAnswer, [⟨"req_msg_id", some "long", 0, 0⟩]⟩

/-- `rpc_result#f35c6d01 req_msg_id:long result:Object = RpcResult;`. -/
def rpcResult : Entry :=
  ⟨true, "rpc_result", idRpcResult,
    [⟨"req_msg_id", some "long", 0, 0⟩, ⟨"result", some "Object", 0, 0⟩]⟩

/-- `new_session_created#9ec20908 first_msg_id:long unique_id:long server_salt:long =
NewSession;`. -/
def newSessionCreated : Entry :=
  ⟨true, "new_session_created", idNewSessionCreated,
    [⟨"first_msg_id", some "long", 0, 0⟩, ⟨"unique_id", some "long", 0, 0⟩,
      ⟨"server_salt", some "long", 0, 0⟩]⟩

/-- `rpc_error#2144ca19 error_code:int error_message:string = RpcError;`. -/
def rpcError : Entry :=
  ⟨true, "rpc_error", idRpcError,
    [⟨"error_code", some "int", 0, 0⟩, ⟨"error_message", some "string", 0, 0⟩]⟩

/-- `tl_msgs_ack(msg_ids, len)`. -/
def tlMsgsAck (msgIds : List UInt64) : Bytes :=
  layout [vector] msgsAck [.vector (msgIds.map .long)] fun _ => 0

/-- `tl_rpc_drop_answer(req_msg_id)`. -/
def tlRpcDropAnswer (reqMsgId : UInt64) : Bytes :=
  layout [vector] rpcDropAnswer [.long reqMsgId] fun _ => 0

theorem tlMsgsAck_eq (msgIds : List UInt64) :
    tlMsgsAck msgIds = le32 idMsgsAck ++ le32 0x1cb5c415 ++ le32 (UInt32.ofNat msgIds.length) ++
      (msgIds.map le64).flatten := by
  have hty : tyOf "Vector<long>" = .vector .long := by decide
  have hid : Schema.idVector [vector] = 0x1cb5c415 := by decide
  have hmap : msgIds.map (elemPiece .long ∘ Value.long) = msgIds.map le64 :=
    List.map_congr_left fun _ _ => rfl
  simp [tlMsgsAck, layout, msgsAck, segs, seg, Backpatch.Seg.render, Arg.isFlags, argPieces, hty,
    pieces, hid, hmap]

theorem tlRpcDropAnswer_eq (reqMsgId : UInt64) :
    tlRpcDropAnswer reqMsgId = le32 idRpcDropAnswer ++ le64 reqMsgId := by
  have hty : tyOf "long" = .long := by decide
  simp [tlRpcDropAnswer, layout, rpcDropAnswer, segs, seg, Backpatch.Seg.render, Arg.isFlags,
    argPieces, hty, pieces]

end Libtg
