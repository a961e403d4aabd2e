import Libtg.Mtx.Sel

/-!
# The key exchange (`mtx/src/sil.c`, `tgt.c`, `srl.c`, `scl.c`, `app.c`)

`api.app.open` opens the connection and asks for a key in three requests. The answers go into the
variable `t` of `sil.c`, which is cleared before the first answer of the process and never again: an
answer with an id that `sil_concrete` does not know is logged, and what `t` held is used.
-/

namespace Libtg.Mtx

variable (W : World)

/-! ## `sil.c` -/

def idParam (id : UInt32) : Option Param := do
  let value ← bufAddUi32 id
  some ⟨value, .id⟩

/-- `sil_abstract`: the first structure that is set. -/
def silAbstract (t : TypeSystem) : Option (List Param) := do
  if t.methodReqPq.id ≠ 0 then
    some [← idParam t.methodReqPq.id, t.methodReqPq.nonce]
  else if t.ctorPQInnerData.id ≠ 0 then
    let c := t.ctorPQInnerData
    some [← idParam c.id, c.pq, c.p, c.q, c.nonce, c.serverNonce, c.newNonce]
  else if t.methodReqDHParams.id ≠ 0 then
    let m := t.methodReqDHParams
    some [← idParam m.id, m.nonce, m.serverNonce, m.p, m.q, m.publicKeyFingerprint,
      m.encryptedData]
  else if t.ctorClientDHInnerData.id ≠ 0 then
    let c := t.ctorClientDHInnerData
    some [← idParam c.id, c.nonce, c.serverNonce, c.retryId, c.gB]
  else if t.methodSetClientDHParams.id ≠ 0 then
    let m := t.methodSetClientDHParams
    some [← idParam m.id, m.nonce, m.serverNonce, m.encryptedData]
  else none

/-- `s = api.buf.add (s.data + l, s.size - l)`. -/
def dropBytes (s : Buf) (l : UInt32) : Option Buf := bufAdd (s.data.drop l.toNat) (s.size - l)

def setT (f : TypeSystem → TypeSystem) : ClientM Unit := Exec.step fun c => { c with t := f c.t }

/-- The case `_id_resPQ` of `sil_concrete`. -/
def concreteResPQ (id : UInt32) (s : Buf) : ClientM Unit := do
  let nonce ← selDeserializeParam W id ⟨s, .int128⟩
  let s ← dropBytes s 16
  let serverNonce ← selDeserializeParam W id ⟨s, .int128⟩
  let s ← dropBytes s 16
  let pq ← selDeserializeParam W id ⟨s, .string⟩
  let s ← dropBytes s (pq.value.size + 4)
  let fingerprints ← selDeserializeParam W id ⟨s, .vectorLong⟩
  setT fun t => { t with ctorResPQ := ⟨id, nonce, serverNonce, pq, fingerprints⟩ }

/-- The case `_id_Server_DH_Params_ok`. -/
def concreteServerDHParamsOk (id : UInt32) (s : Buf) : ClientM Unit := do
  let nonce ← selDeserializeParam W id ⟨s, .int128⟩
  let s ← dropBytes s 16
  let serverNonce ← selDeserializeParam W id ⟨s, .int128⟩
  let s ← dropBytes s 16
  let encryptedAnswer ← selDeserializeParam W id ⟨s, .string⟩
  setT fun t => { t with ctorServerDHParamsOk := ⟨id, nonce, serverNonce, encryptedAnswer⟩ }

/-- The case `_id_server_DH_inner_data`. -/
def concreteServerDHInnerData (id : UInt32) (s : Buf) : ClientM Unit := do
  let nonce ← selDeserializeParam W id ⟨s, .int128⟩
  let s ← dropBytes s 16
  let serverNonce ← selDeserializeParam W id ⟨s, .int128⟩
  let s ← dropBytes s 16
  let g ← selDeserializeParam W id ⟨s, .int⟩
  let s ← dropBytes s 4
  let dhPrime ← selDeserializeParam W id ⟨s, .string⟩
  let s ← dropBytes s (dhPrime.value.size + 4)
  let gA ← selDeserializeParam W id ⟨s, .string⟩
  let s ← dropBytes s (gA.value.size + 4)
  let serverTime ← selDeserializeParam W id ⟨s, .int⟩
  setT fun t => { t with
    ctorServerDHInnerData := ⟨id, nonce, serverNonce, g, dhPrime, gA, serverTime⟩ }

/-- The case `_id_dh_gen_ok`. -/
def concreteDhGenOk (id : UInt32) (s : Buf) : ClientM Unit := do
  let nonce ← selDeserializeParam W id ⟨s, .int128⟩
  let s ← dropBytes s 16
  let serverNonce ← selDeserializeParam W id ⟨s, .int128⟩
  let s ← dropBytes s 16
  let newNonceHash1 ← selDeserializeParam W id ⟨s, .int128⟩
  setT fun t => { t with
    ctorSetClientDHParamsAnswerOk := ⟨id, nonce, serverNonce, newNonceHash1⟩ }

/-- The case `_id_new_session_created`. -/
def concreteNewSessionCreated (id : UInt32) (s : Buf) : ClientM Unit := do
  let firstMsgId ← selDeserializeParam W id ⟨s, .long⟩
  let s ← dropBytes s 8
  let uniqueId ← selDeserializeParam W id ⟨s, .long⟩
  let s ← dropBytes s 8
  let serverSalt ← selDeserializeParam W id ⟨s, .long⟩
  setT fun t => { t with ctorNewSession := ⟨id, firstMsgId, uniqueId, serverSalt⟩ }

/-- The case `_id_pong`. -/
def concretePong (id : UInt32) (s : Buf) : ClientM Unit := do
  let msgId ← selDeserializeParam W id ⟨s, .long⟩
  let s ← dropBytes s 8
  let pingId ← selDeserializeParam W id ⟨s, .long⟩
  setT fun t => { t with ctorPong := ⟨id, msgId, pingId⟩ }

/-- The case `_id_msg_container`: two messages, whatever their number is said to be. -/
def concreteMsgContainer (concrete : Buf × Buf → ClientM TypeSystem) (id : UInt32) (s : Buf) :
    ClientM Unit := do
  let content ← bufAdd s.data s.size
  let value ← bufAddUi32 idVector
  let value ← bufCat value content
  let p ← selDeserializeParam W id ⟨value, .vectorMessage⟩
  let _ ← (List.range 2).foldlM (fun value _ => do
    let b ← hdlDeheaderCter value
    let t ← concrete (← selDeserialize b)
    setT fun _ => t
    dropBytes value (b.size + 16)) p.value

/-- The switch of `sil_concrete`. -/
def concreteCase (concrete : Buf × Buf → ClientM TypeSystem) (id : UInt32) (s : Buf) :
    ClientM Unit :=
  if id = idResPQ then concreteResPQ W id s
  else if id = idServerDHParamsOk then concreteServerDHParamsOk W id s
  else if id = idServerDHInnerData then concreteServerDHInnerData W id s
  else if id = idDhGenOk then concreteDhGenOk W id s
  else if id = idMsgContainer then concreteMsgContainer W concrete id s
  else if id = idNewSessionCreated then concreteNewSessionCreated W id s
  else if id = idPong then concretePong W id s
  else if id = idBadMsgNotification then logError "id_bad_msg_notification received"
  else logError "unknown id"

/-- The variables are cleared before the first answer. -/
def resetOnce (c : Client) : Client :=
  if c.resetTgApiTypeSystemFlag = 0 then { c with t := .zero, resetTgApiTypeSystemFlag := 1 } else c

/-- `sil_concrete`, for containers in containers up to a depth. -/
def silConcreteN : Nat → Buf × Buf → ClientM TypeSystem
  | 0, _ => StateT.lift none
  | n + 1, a => do
    Exec.step resetOnce
    concreteCase W (silConcreteN n) (bufGetUi32 a.1) a.2
    pure (← get).t

/-- `sil_concrete`: every container takes at least 24 of the 800 bytes it is in. -/
def silConcrete : Buf × Buf → ClientM TypeSystem := silConcreteN W 34

/-! ## `tgt.c` -/

def methodReqPqInit : ClientM MethodReqPq := do
  let value ← bufRand W 16
  pure { reqPq with nonce := { reqPq.nonce with value := value } }

def methodReqPqDrive (m : MethodReqPq) : ClientM MethodReqPq := do
  let a ← silAbstract { TypeSystem.zero with methodReqPq := m }
  let a ← stkDrive W a
  let t ← silConcrete W a
  pure { m with ctorResPQ := t.ctorResPQ }

/-- `ctor_P_Q_inner_data_init`: the new nonce is 32 zeros. -/
def ctorPQInnerDataInit (m1 : MethodReqPq) (p q : Param) : CtorPQInnerData where
  id := ctorPQInnerData.id
  pq := m1.ctorResPQ.pq
  p := p
  q := q
  nonce := m1.nonce
  serverNonce := m1.ctorResPQ.serverNonce
  newNonce := ⟨{ zeroBuf with size := 32 }, .int256⟩

def ctorPQInnerDataDrive (c : CtorPQInnerData) : ClientM Buf := do
  let a ← silAbstract { TypeSystem.zero with ctorPQInnerData := c }
  let s ← selSerialize W a
  bufDump s
  pure s

/-- `method_req_DH_params_init`: nobody clears `dwh`, to which the hash is appended. -/
def methodReqDHParamsInit (m1 : MethodReqPq) : ClientM MethodReqDHParams := do
  let swapped ← bufSwap m1.ctorResPQ.pq.value
  let (p, q) ← W.factor (bufGetUi64 swapped)
  let (p, q) := if p < q then (p, q) else (q, p)
  let pValue ← bufSwap (← bufAddUi32 p)
  let qValue ← bufSwap (← bufAddUi32 q)
  let p := { methodReqDHParams.p with value := pValue }
  let q := { methodReqDHParams.q with value := qValue }
  let c := ctorPQInnerDataInit m1 p q
  let d ← ctorPQInnerDataDrive W c
  let h ← hshSha1 W d
  let dwh ← newLocal W .dwh
  let dwh ← bufCat dwh h
  let dwh ← bufCat dwh d
  let dwh ← bufCat dwh { zeroBuf with size := 255 - dwh.size }
  let encryptedData ← cryRsaE W dwh
  pure { methodReqDHParams with
    nonce := m1.nonce
    serverNonce := m1.ctorResPQ.serverNonce
    p := p
    q := q
    publicKeyFingerprint := m1.ctorResPQ.serverPublicKeyFingerprints
    encryptedData := ⟨encryptedData, .string⟩
    ctorPQInnerData := c }

def methodReqDHParamsDrive (m : MethodReqDHParams) : ClientM MethodReqDHParams := do
  let a ← silAbstract { TypeSystem.zero with methodReqDHParams := m }
  let a ← stkDrive W a
  let t ← silConcrete W a
  pure { m with ctorServerDHParamsOk := t.ctorServerDHParamsOk }

/-- What `ctor_Server_DH_inner_data_init` sets of its structure. -/
structure DecryptedAnswer where
  answer : Buf
  tmpAesKey : Buf
  tmpAesIv : Buf

def ctorServerDHInnerDataInit (m1 : MethodReqPq) (m2 : MethodReqDHParams) :
    ClientM DecryptedAnswer := do
  let newNonce := (ctorPQInnerDataInit m1 m2.p m2.q).newNonce.value
  let serverNonce := m1.ctorResPQ.serverNonce.value
  let newNonceServerNonce ← bufCat (← bufCat zeroBuf newNonce) serverNonce
  let newNonceServerNonceHash ← hshSha1 W newNonceServerNonce
  let serverNonceNewNonce ← bufCat (← bufCat zeroBuf serverNonce) newNonce
  let serverNonceNewNonceHash ← hshSha1 W serverNonceNewNonce
  let substr012 ← bufAdd serverNonceNewNonceHash.data 12
  let tmpAesKey ← bufCat (← bufCat zeroBuf newNonceServerNonceHash) substr012
  let substr128 ← bufAdd (serverNonceNewNonceHash.data.drop 12) 8
  let newNonceNewNonce ← bufCat (← bufCat zeroBuf newNonce) newNonce
  let newNonceNewNonceHash ← hshSha1 W newNonceNewNonce
  let substrNewNonce04 ← bufAdd newNonce.data 4
  let tmpAesIv ← bufCat (← bufCat (← bufCat zeroBuf substr128) newNonceNewNonceHash)
    substrNewNonce04
  let e := m2.ctorServerDHParamsOk.encryptedAnswer.value
  let answer ← cryAesD W e tmpAesKey tmpAesIv
  let answer ← bufAdd (answer.data.drop 20) (answer.size - 20)
  pure ⟨{ answer with size := answer.size - 8 }, tmpAesKey, tmpAesIv⟩

def ctorServerDHInnerDataDrive (b : Buf) : ClientM CtorServerDHInnerData := do
  let a ← selDeserialize b
  let t ← silConcrete W a
  pure t.ctorServerDHInnerData

def ctorClientDHInnerDataInit (c1 : CtorServerDHInnerData) : ClientM CtorClientDHInnerData := do
  let retryId ← bufAddUi32 0
  let g ← bufSwap c1.g.value
  let b ← bufRand W 256
  let gB ← cmnPowMod W g b c1.dhPrime.value
  pure ⟨ctorClientDHInnerData.id, c1.nonce, c1.serverNonce, ⟨retryId, .long⟩, ⟨gB, .string⟩, b⟩

def ctorClientDHInnerDataDrive (c1 : CtorClientDHInnerData) : ClientM Buf := do
  let a ← silAbstract { TypeSystem.zero with ctorClientDHInnerData := c1 }
  selSerialize W a

def methodSetClientDHParamsInit (m1 : MethodReqPq) (m2 : MethodReqDHParams) :
    ClientM MethodSetClientDHParams := do
  let c ← ctorServerDHInnerDataInit W m1 m2
  let c1 ← ctorServerDHInnerDataDrive W c.answer
  let c2 ← ctorClientDHInnerDataInit W c1
  let data ← ctorClientDHInnerDataDrive W c2
  let hash ← hshSha1 W data
  let pad := (16 - (hash.size + data.size) % 16) % 16
  let rand ← bufRand W pad
  let dataWithHash ← bufCat (← bufCat (← bufCat zeroBuf hash) data) rand
  let encryptedData ← cryAesE W dataWithHash c.tmpAesKey c.tmpAesIv
  let newNonceS ← bufAdd m2.ctorPQInnerData.newNonce.value.data 8
  let serverNonceS ← bufAdd m1.ctorResPQ.serverNonce.value.data 8
  let salt ← bufXor W newNonceS serverNonceS
  pure { methodSetClientDHParams with
    nonce := m1.nonce
    serverNonce := m1.ctorResPQ.serverNonce
    encryptedData := ⟨encryptedData, .string⟩
    ctorServerDHInnerData := c1
    ctorClientDHInnerData := c2
    salt := salt }

def methodSetClientDHParamsDrive (m : MethodSetClientDHParams) :
    ClientM MethodSetClientDHParams := do
  let a ← silAbstract { TypeSystem.zero with methodSetClientDHParams := m }
  let a ← stkDrive W a
  let t ← silConcrete W a
  let ok := t.ctorSetClientDHParamsAnswerOk
  logIf (!(← bufCmp ok.nonce.value m.ctorServerDHInnerData.nonce.value))
    "different nonce's"
  logIf (!(← bufCmp ok.serverNonce.value m.ctorServerDHInnerData.serverNonce.value))
    "different server nonce's"
  pure { m with ctorSetClientDHParamsAnswerOk := ok }

/-! ## `srl.c`, `scl.c`, `app.c` -/

/-- `srl_auth`. -/
def srlAuth : ClientM Unit := do
  let m ← methodReqPqInit W
  let m ← methodReqPqDrive W m
  let m1 ← methodReqDHParamsInit W m
  let m1 ← methodReqDHParamsDrive W m1
  let m2 ← methodSetClientDHParamsInit W m m1
  let m2 ← methodSetClientDHParamsDrive W m2
  let gA := m2.ctorServerDHInnerData.gA.value
  let b := m2.ctorClientDHInnerData.b
  let dhPrime := m2.ctorServerDHInnerData.dhPrime.value
  let key ← cmnPowMod W gA b dhPrime
  Exec.step fun c => { c with sharedRc := { c.sharedRc with key := key, salt := m2.salt } }

/-- `scl_open`. -/
def sclOpen : ClientM Unit := do
  netOpen W
  srlAuth W

/-- `app_open`. -/
def appOpen : ClientM Unit := do
  Exec.step fun c => { c with sharedRc := resetSharedRc c.sharedRc }
  sclOpen W

end Libtg.Mtx
