import Libtg.Tg.Answer
import Libtg.Tg.PrepareQuery
import Libtg.Tg.Receive

/-!
# Sending a query and waiting for its answer (`tg/send_query.c`)

`tg_send_query_via_with_progress` sends a query and receives packets until `handleData` is content
with one. Under which conditions that is the packet with the answer is `returnsAnswer_iff`.

The sockets, the outcome of `send` and the account `api.app.open` leaves in `shared_rc` are
parameters, one set for each time the query is sent. A packet is the bytes behind its length word.
-/

namespace Libtg.SendQuery

open LittleEndian

/-- What `api.app.open` leaves in `shared_rc`. -/
structure SharedRc where
  key : Bytes
  salt : Bytes
  sockfd : Nat
  seqnh : UInt32

/-- What the system answers while the query is sent: `tg_net_open`, `api.app.open`, and whether
`send` succeeds. -/
structure Attempt where
  socket : Option Nat
  sharedRc : SharedRc
  sent : Bool

structure World where
  schema : Schema
  gunzip : Bytes → Gunzipped
  crypto : Crypto
  env : Env
  ntp : UInt64
  attempt : Nat → Attempt

/-- The variables of the function once the query is sent. -/
structure Exchange where
  fdset : List Nat
  socket : Nat
  msgId : UInt64
  tg : Tg

/-- `tg_send`: the id of the query or 0, and the socket. -/
def tgSend (W : World) (A : Attempt) (tg : Tg) (query : Bytes) (socket : Nat) :
    UInt64 × Nat × Tg :=
  let rc := A.sharedRc
  let (tg, socket) :=
    if tg.key.length = 0 then
      ({ tg with key := rc.key, salt := rc.salt, seqn := rc.seqnh + 1 }, rc.sockfd)
    else (tg, socket)
  let tg := if tg.ssid.length = 0 then { tg with ssid := bufRand W.env 8 } else tg
  let tg := if tg.salt.length = 0 then { tg with salt := bufRand W.env 8 } else tg
  let ((b, msgId), tg) := tgPrepareQuery W.crypto W.env query true 0 tg
  if b.length = 0 then (0, socket, tg)
  else if A.sent then (msgId, socket, tg) else (0, socket, tg)

/-- What comes over the socket. -/
inductive Incoming where
  | error
  | packet (b : Bytes)

/-- `tg_receive` behind the test of the socket: `some none` is its error. -/
def tgReceive (C : Crypto) (tg : Tg) : Incoming → Option (Option (Bytes × Tg))
  | .error => some none
  | .packet b =>
    if b.length = 4 ∧ get32 b = 0xfffffe6c then some none
    else
      match tgDecrypt C tg b true with
      | none => none
      | some d => if d.length = 0 then some none else (tgDeheader tg d true).map some

/-- `tg_tl_from_gzip`. -/
def tgTlFromGzip (W : World) (tl : Tl) : Option Tl :=
  if tl.id ≠ idGzipPacked then some .null
  else
    let buf := W.gunzip tl.packedData
    if buf.ok then (tlDeserialize W.schema buf.buf).map (·.1) else some .null

/-- The object with its compression taken off. -/
def unpack (W : World) (tl : Tl) : Option Tl :=
  if tl.id = idGzipPacked then tgTlFromGzip W tl else some tl

/-- What the function does after a packet. -/
inductive Reaction where
  | crashed
  | done (tl : Tl) (tg : Tg)
  | again (tg : Tg)
  | resend (tg : Tg)

/-- From the test of `tl` against `NULL` on. -/
def settle (W : World) (tg : Tg) : Tl → Reaction
  | .null => .done .null tg
  | tl =>
    match unpack W tl with
    | none => .crashed
    | some .null => .crashed
    | some tl =>
      if tl.id = idBadServerSalt then .resend tg
      else if tl.id = idMsgsAck then .again tg
      else if isUpdates tl.id then .again tg
      else .done tl tg

/-- `if (answer) tl = answer`. -/
def preferAnswer (tl : Tl) : Tl → Tl
  | .null => tl
  | answer => answer

/-- From `tl_deserialize` on. -/
def handleData (W : World) (msgId : UInt64) (tg : Tg) (data : Bytes) : Reaction :=
  match tlDeserialize W.schema data with
  | none => .crashed
  | some (tl, _) =>
    match tgParseAnswer W.schema W.ntp msgId tl ⟨tg, .null⟩ with
    | none => .crashed
    | some p => settle W p.tg (preferAnswer tl p.answer)

/-- How a call ends, with the packets it has not read. -/
inductive Outcome where
  | returned (tl : Tl) (tg : Tg) (rest : List Incoming)
  /-- It waits in `recv`. -/
  | waiting
  | crashed

/-- Up to `recevive_data`. -/
def openAndSend (W : World) (query : Bytes) (A : Attempt) (tg : Tg) : Except Tg Exchange :=
  match A.socket with
  | none => .error tg
  | some socket =>
    let (msgId, socket', tg) := tgSend W A tg query socket
    if msgId = 0 then .error tg else .ok ⟨[socket], socket', msgId, tg⟩

/-- From `recevive_data` on, after the query was sent for the `k`-th time. -/
def receiveData (W : World) (query : Bytes) : List Incoming → Nat → Exchange → Outcome
  | [], _, x => if x.socket ∈ x.fdset then .waiting else .returned .null x.tg []
  | r :: rest, k, x =>
    if x.socket ∈ x.fdset then
      match tgReceive W.crypto x.tg r with
      | none => .crashed
      | some none => .returned .null x.tg rest
      | some (some (data, tg)) =>
        match handleData W x.msgId tg data with
        | .crashed => .crashed
        | .done tl tg => .returned tl tg rest
        | .again tg => receiveData W query rest k { x with tg := tg }
        | .resend tg =>
          match openAndSend W query (W.attempt (k + 1)) tg with
          | .error tg => .returned .null tg rest
          | .ok x => receiveData W query rest (k + 1) x
    else .returned .null x.tg (r :: rest)

/-- `tg_send_query_via_with_progress`. -/
def tgSendQueryVia (W : World) (query : Bytes) (tg : Tg) (packets : List Incoming) : Outcome :=
  match openAndSend W query (W.attempt 0) tg with
  | .error tg => .returned .null tg packets
  | .ok x => receiveData W query packets 0 x

end Libtg.SendQuery
