import Libtg.Tl.Deserialize
import Libtg.Tl.Mtproto

/-!
# Session state and message headers (`tg/ack.c`, `tg/header.c`)

`Tg` is the part of `struct tg_` the sending and receiving of messages reads or writes. Its mutexes
are taken around single accesses only and their operations succeed here. The answers of the system
clock and of `rand` come from `Env`, one reading after the other.
-/

namespace Libtg

open LittleEndian Cursor

/-- What the machine answers: the value of `(1LL << 32) * tg_get_utime(CLOCK_REALTIME)` at each
reading of the clock, and `rand() % 256` at each call after a `srand`. -/
structure Env where
  clock : Nat → UInt64
  rand : Nat → UInt8

/-- `tg_t`. `readings` counts how often the clock was read. -/
structure Tg where
  key : Bytes
  salt : Bytes
  ssid : Bytes
  seqn : UInt32
  msgids : List UInt64
  todrop : List UInt64
  timediff : UInt64
  readings : Nat

abbrev TgM := StateM Tg

/-- `buf_rand`. -/
def bufRand (E : Env) (s : Nat) : Bytes := (List.range s).map E.rand

@[simp] theorem bufRand_length (E : Env) (s : Nat) : (bufRand E s).length = s := by
  simp [bufRand]

/-! ## `ack.c` -/

/-- `tg_add_msgid`. -/
def tgAddMsgid (msgid : UInt64) : TgM Unit :=
  modify fun tg => { tg with msgids := tg.msgids ++ [msgid] }

/-- `tg_ack`: the pending acknowledgements, or an empty buffer. -/
def tgAck : TgM Bytes := do
  let tg ← get
  if tg.msgids.length < 1 then return []
  else
    set { tg with msgids := [] }
    return tlMsgsAck tg.msgids

/-! ## `header.c` -/

/-- `tg_get_current_time`. -/
def tgGetCurrentTime (E : Env) : TgM UInt64 := do
  let tg ← get
  set { tg with readings := tg.readings + 1 }
  return (E.clock tg.readings &&& ~~~3) + tg.timediff

/-- The `seqno` of the next message, which a content-related message counts. -/
def nextSeqno (content : Bool) : TgM UInt32 := do
  let tg ← get
  if content then
    set { tg with seqn := tg.seqn + 1 }
    return tg.seqn * 2 + 1
  else return tg.seqn * 2

/-- `tg_mtp_message`: the message, and its id. -/
def tgMtpMessage (E : Env) (payload : Bytes) (content : Bool) : TgM (Bytes × UInt64) := do
  let msgId ← tgGetCurrentTime E
  let seqno ← nextSeqno content
  return (le64 msgId ++ le32 seqno ++ le32 (UInt32.ofNat payload.length) ++ payload, msgId)

/-- `tg_to_drop`: the number of answers to drop, and a message for each. -/
def tgToDrop (E : Env) : TgM (Nat × Bytes) := do
  let tg ← get
  if tg.todrop.length < 1 then return (0, [])
  else
    let msgs ← tg.todrop.mapM fun id => tgMtpMessage E (tlRpcDropAnswer id) true
    modify fun tg => { tg with todrop := [] }
    return (tg.todrop.length, (msgs.map (·.1)).flatten)

/-- What `tg_header` sends: the data itself, or a container of the data, the acknowledgements and
the answers to drop; whether it is content-related; and the id of the data's message, 0 if it has
none of its own. -/
def tgHeaderData (E : Env) (b : Bytes) (content : Bool) : TgM (Bytes × Bool × UInt64) := do
  let ack ← tgAck
  if ack.length > 0 then
    let (msg₀, msgId) ← tgMtpMessage E b true
    let (msg₁, _) ← tgMtpMessage E ack false
    let (len, todrop) ← tgToDrop E
    return (le32 idMsgContainer ++ le32 (UInt32.ofNat (2 + len)) ++ msg₀ ++ msg₁ ++ todrop, false,
      msgId)
  else return (b, content, 0)

/-- `tg_header`, with the value left in `*msgid`. -/
def tgHeader (E : Env) (b : Bytes) (enc content : Bool) (msgid : UInt64) :
    TgM (Bytes × UInt64) := do
  if enc then
    let (b, content, msgid) ← tgHeaderData E b content
    let tg ← get
    let s := tg.salt ++ tg.ssid
    let _msgid ← tgGetCurrentTime E
    let seqno ← nextSeqno content
    let pad := 16 + (16 - b.length % 16) % 16
    let s := s ++ le64 _msgid ++ le32 seqno ++ le32 (UInt32.ofNat b.length) ++ b ++ bufRand E pad
    return (s, if msgid = 0 then _msgid else msgid)
  else
    let msgId ← tgGetCurrentTime E
    return (le64 0 ++ le64 msgId ++ le32 (UInt32.ofNat b.length) ++ b, msgid)

/-- `tg_deheader`: the data, and the session after it. Reading past the end of the buffer is
`none`; a wrong session id and a wrong length of plain data are only reported. -/
def tgDeheader (tg : Tg) (b : Bytes) (enc : Bool) : Option (Bytes × Tg) :=
  if b.length = 0 then some (b, tg)
  else if enc then do
    let (salt, b) ← deserializeUi64 b
    let tg := { tg with salt := le64 salt }
    let (_ssid, b) ← deserializeUi64 b
    let (msgId, b) ← deserializeUi64 b
    let tg := (tgAddMsgid msgId tg).2
    let (_seqNo, b) ← deserializeUi32 b
    let (msgDataLen, b) ← deserializeUi32 b
    -- `b.size = msg_data_len` before `b` is copied
    let (d, _) ← deserializeBuf msgDataLen.toNat b
    return (d, tg)
  else do
    let (authKeyId, b') ← deserializeUi64 b
    if authKeyId ≠ 0 then return (b, tg)
    else
      let (_msgId, b') ← deserializeUi64 b'
      let (_msgDataLen, b') ← deserializeUi32 b'
      return (b', tg)

end Libtg
