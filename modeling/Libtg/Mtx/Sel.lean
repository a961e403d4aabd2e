import Libtg.Mtx.Client

/-!
# Serialisation and the stack below it (`mtx/src/sel.c`, `hdl.c`, `enl.c`, `trl.c`, `stk.c`)

A request is its parameters one after the other; around it stand the time, its length, eight zeros
for the key there is not yet, and the length of all that. An answer is read in the other direction,
as bytes at offsets: what its checks find is logged, and reading goes on.
-/

namespace Libtg.Mtx

open LittleEndian

variable (W : World)

/-- `sel_serialize_string`. -/
def selSerializeString (b : Buf) : Option Buf := do
  if b.size ≤ 253 then
    let s ← bufAdd (le32 b.size) 1
    let s ← bufCat s b
    bufCat s { zeroBuf with size := (4 - s.size % 4) % 4 }
  else
    let s ← bufAdd [0xfe] 1
    let len ← bufAdd (le32 b.size) 3
    let s ← bufCat s len
    let s ← bufCat s b
    let pad := (4 - s.size % 4) % 4
    if pad ≠ 0 then bufCat s { zeroBuf with size := pad } else some s

/-- `sel_serialize_param`. -/
def selSerializeParam (p : Param) : ClientM Buf :=
  match p.type with
  | .int | .id => bufAdd p.value.data 4
  | .int128 => bufAdd p.value.data 16
  | .int256 => bufAdd p.value.data 32
  | .long => bufAdd p.value.data 8
  | .vectorLong | .qx => bufAdd p.value.data p.value.size
  | .string => selSerializeString p.value
  | .message | .vectorMessage => do
    let s ← newLocal W .selSerializeParam
    logError "unknown type"
    pure s

/-- `sel_serialize`. -/
def selSerialize (params : List Param) : ClientM Buf :=
  params.foldlM (fun s p => do
    let b ← selSerializeParam W p
    bufCat s b) zeroBuf

/-- `sel_deserialize_string`. -/
def selDeserializeString (b : Buf) : ClientM Buf := do
  let byte ← bufAdd b.data 4
  let first := byte.data.getD 0 0
  if first ≤ 253 then bufAdd (b.data.drop 1) first.toUInt32
  else
    let s1 ← bufAdd [0xfe] 1
    let s2 ← bufAdd b.data 1
    logIf (!(← bufCmp s1 s2)) "can't deserialize string"
    let len ← bufAdd (b.data.drop 1) 3
    let b ← bufAdd (b.data.drop 4) (b.size - 4)
    bufAdd b.data (bufGetUi32 len)

/-- A round of the loop of `sel_deserialize_vector`: there is room for 12 elements, and the last one
is returned. -/
def vectorRound (id : UInt32) (b d : Buf) (i : Nat) : Option Buf :=
  if id = idResPQ then if i < 12 then bufAdd b.data 8 else none
  else if id = idMsgContainer then if i < 12 then bufAdd b.data b.size else none
  else some d

/-- `sel_deserialize_vector`. -/
def selDeserializeVector (id : UInt32) (value : Buf) : ClientM Buf := do
  let d ← newLocal W .selDeserializeVector
  logIf (bufGetUi32 value ≠ idVector) "this is not vector id"
  let b ← bufAdd (value.data.drop 4) (value.size - 4)
  let q := bufGetUi32 b
  if q = 0 then pure zeroBuf
  else
    let b ← bufAdd (b.data.drop 4) (b.size - 4)
    liftM ((List.range q.toNat).foldlM (vectorRound id b) d)

/-- `sel_deserialize_param`. -/
def selDeserializeParam (id : UInt32) (p : Param) : ClientM Param := do
  let s ← match p.type with
    | .int | .id => (bufAdd p.value.data 4 : ClientM Buf)
    | .int128 => bufAdd p.value.data 16
    | .int256 => bufAdd p.value.data 32
    | .long => bufAdd p.value.data 8
    | .vectorLong | .vectorMessage => selDeserializeVector W id p.value
    | .string => selDeserializeString p.value
    | .message => bufAdd p.value.data p.value.size
    | .qx => do
      let s ← newLocal W .selDeserializeParam
      logError "unknown type"
      pure s
  pure ⟨s, p.type⟩

/-- `sel_deserialize`: the id and what follows it, which is all that `sil_concrete` looks at. -/
def selDeserialize (b : Buf) : Option (Buf × Buf) := do
  let id ← bufAddUi32 (bufGetUi32 b)
  let b ← bufAdd (b.data.drop 4) (b.size - 4)
  some (id, b)

/-! ## Headers -/

/-- `hdl_header` of a message without a key. -/
def hdlHeader (b : Buf) : ClientM Buf := do
  let msgId ← bufAddUi64 (← getCurrentTime W)
  let s ← bufCat zeroBuf msgId
  let msgDataLen ← bufAddUi32 b.size
  let s ← bufCat s msgDataLen
  bufCat s b

/-- `hdl_deheader` of a message without a key. -/
def hdlDeheader (b : Buf) : ClientM Buf := do
  let d ← bufAdd (b.data.drop 8) (b.size - 8)
  let size := d.size - 4
  logIf (bufGetUi32 d ≠ size) "msg_data_len mismatch"
  bufAdd (d.data.drop 4) size

/-- `hdl_deheader` of a message in a container. -/
def hdlDeheaderCter (b : Buf) : Option Buf := do
  let d ← bufAdd (b.data.drop 8) (b.size - 8)
  let d ← bufAdd (d.data.drop 4) (d.size - 4)
  bufAdd (d.data.drop 4) (bufGetUi32 d)

/-- `enl_encrypt` without a key. -/
def enlEncrypt (b : Buf) : Option Buf := do
  let e ← bufAdd zeroBuf.data 8
  bufCat e b

/-- `enl_decrypt` without a key. -/
def enlDecrypt (m : Buf) : ClientM Buf := do
  let key : Buf := { zeroBuf with size := 8 }
  let dKey ← bufAdd m.data 8
  logIf (!(← bufCmp key dKey)) "trl_transport: keys mismatch"
  bufAdd (m.data.drop 8) (m.size - 8)

/-- `trl_transport`. -/
def trlTransport (buf : Buf) : Option Buf := do
  let b ← bufAddUi32 buf.size
  bufCat b buf

/-- `trl_detransport`. -/
def trlDetransport (a : Buf) : ClientM Buf := do
  logIf (a.size = 0) "trl_transport: received nothing"
  let aLen ← bufAdd a.data 4
  let aLen' ← bufAddUi32 a.size
  logIf (!(← bufCmp aLen aLen')) "trl_transport: len mismatch"
  bufAdd (a.data.drop 4) (a.size - 4)

/-- `stk_drive` of a request that waits for its answer. -/
def stkDrive (params : List Param) : ClientM (Buf × Buf) := do
  let s ← selSerialize W params
  bufDump s
  let s1 ← hdlHeader W s
  bufDump s1
  let e ← enlEncrypt s1
  bufDump e
  let t ← trlTransport e
  bufDump t
  let nr ← netDrive W t .sendReceive
  bufDump nr
  let tr ← trlDetransport nr
  let d ← enlDecrypt tr
  let s1r ← hdlDeheader d
  selDeserialize s1r

end Libtg.Mtx
