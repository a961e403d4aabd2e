import Libtg.Mtx.Buf

/-!
# The values of the handshake (`mtx/include/tgt.h`)

The structures of the methods and constructors of which the key exchange is made, and
`tg_api_type_system_t`, which holds one of each. All of them begin as zeros.
-/

namespace Libtg.Mtx

/-- The kinds of `tl_type_t` that occur in a parameter. -/
inductive TlType where
  | qx
  | message
  | vectorMessage
  | vectorLong
  | int
  | int128
  | int256
  | long
  | string
  | id
  deriving DecidableEq

/-- `param_t`. Its `id` is an argument of the functions that look at it. -/
structure Param where
  value : Buf
  type : TlType

/-- A parameter of zeros. -/
def zeroParam : Param := ⟨zeroBuf, .qx⟩

/-- A parameter of a template: no value yet. -/
def emptyParam (type : TlType) : Param := ⟨zeroBuf, type⟩

structure CtorResPQ where
  id : UInt32
  nonce : Param
  serverNonce : Param
  pq : Param
  serverPublicKeyFingerprints : Param

structure MethodReqPq where
  id : UInt32
  nonce : Param
  ctorResPQ : CtorResPQ

structure CtorPQInnerData where
  id : UInt32
  pq : Param
  p : Param
  q : Param
  nonce : Param
  serverNonce : Param
  newNonce : Param

structure CtorServerDHParamsOk where
  id : UInt32
  nonce : Param
  serverNonce : Param
  encryptedAnswer : Param

structure MethodReqDHParams where
  id : UInt32
  nonce : Param
  serverNonce : Param
  p : Param
  q : Param
  publicKeyFingerprint : Param
  encryptedData : Param
  ctorServerDHParamsOk : CtorServerDHParamsOk
  ctorPQInnerData : CtorPQInnerData

structure CtorServerDHInnerData where
  id : UInt32
  nonce : Param
  serverNonce : Param
  g : Param
  dhPrime : Param
  gA : Param
  serverTime : Param

structure CtorClientDHInnerData where
  id : UInt32
  nonce : Param
  serverNonce : Param
  retryId : Param
  gB : Param
  b : Buf

structure CtorSetClientDHParamsAnswerOk where
  id : UInt32
  nonce : Param
  serverNonce : Param
  newNonceHash1 : Param

structure MethodSetClientDHParams where
  id : UInt32
  nonce : Param
  serverNonce : Param
  encryptedData : Param
  ctorSetClientDHParamsAnswerOk : CtorSetClientDHParamsAnswerOk
  ctorServerDHInnerData : CtorServerDHInnerData
  ctorClientDHInnerData : CtorClientDHInnerData
  salt : Buf

structure CtorPong where
  id : UInt32
  msgId : Param
  pingId : Param

structure CtorNewSession where
  id : UInt32
  firstMsgId : Param
  uniqueId : Param
  serverSalt : Param

/-- `tg_api_type_system_t`, but for what only the pings and the sign-in would set. -/
structure TypeSystem where
  methodReqPq : MethodReqPq
  methodReqDHParams : MethodReqDHParams
  methodSetClientDHParams : MethodSetClientDHParams
  ctorResPQ : CtorResPQ
  ctorServerDHParamsOk : CtorServerDHParamsOk
  ctorPQInnerData : CtorPQInnerData
  ctorServerDHInnerData : CtorServerDHInnerData
  ctorClientDHInnerData : CtorClientDHInnerData
  ctorSetClientDHParamsAnswerOk : CtorSetClientDHParamsAnswerOk
  ctorPong : CtorPong
  ctorNewSession : CtorNewSession

/-! ## Structures of zeros -/

def CtorResPQ.zero : CtorResPQ := ⟨0, zeroParam, zeroParam, zeroParam, zeroParam⟩

def MethodReqPq.zero : MethodReqPq := ⟨0, zeroParam, .zero⟩

def CtorPQInnerData.zero : CtorPQInnerData :=
  ⟨0, zeroParam, zeroParam, zeroParam, zeroParam, zeroParam, zeroParam⟩

def CtorServerDHParamsOk.zero : CtorServerDHParamsOk := ⟨0, zeroParam, zeroParam, zeroParam⟩

def MethodReqDHParams.zero : MethodReqDHParams :=
  ⟨0, zeroParam, zeroParam, zeroParam, zeroParam, zeroParam, zeroParam, .zero, .zero⟩

def CtorServerDHInnerData.zero : CtorServerDHInnerData :=
  ⟨0, zeroParam, zeroParam, zeroParam, zeroParam, zeroParam, zeroParam⟩

def CtorClientDHInnerData.zero : CtorClientDHInnerData :=
  ⟨0, zeroParam, zeroParam, zeroParam, zeroParam, zeroBuf⟩

def CtorSetClientDHParamsAnswerOk.zero : CtorSetClientDHParamsAnswerOk :=
  ⟨0, zeroParam, zeroParam, zeroParam⟩

def MethodSetClientDHParams.zero : MethodSetClientDHParams :=
  ⟨0, zeroParam, zeroParam, zeroParam, .zero, .zero, .zero, zeroBuf⟩

def TypeSystem.zero : TypeSystem where
  methodReqPq := .zero
  methodReqDHParams := .zero
  methodSetClientDHParams := .zero
  ctorResPQ := .zero
  ctorServerDHParamsOk := .zero
  ctorPQInnerData := .zero
  ctorServerDHInnerData := .zero
  ctorClientDHInnerData := .zero
  ctorSetClientDHParamsAnswerOk := .zero
  ctorPong := ⟨0, zeroParam, zeroParam⟩
  ctorNewSession := ⟨0, zeroParam, zeroParam, zeroParam⟩

/-! ## The ids of `setup.h` -/

def idResPQ : UInt32 := 0x05162463
def idVector : UInt32 := 0x1cb5c415
def idServerDHParamsOk : UInt32 := 0xd0e8075c
def idServerDHInnerData : UInt32 := 0xb5890dba
def idDhGenOk : UInt32 := 0x3bcbf734
def idMsgContainer : UInt32 := 0x73f1f8dc
def idNewSessionCreated : UInt32 := 0x9ec20908
def idPong : UInt32 := 0x347773c5
def idBadMsgNotification : UInt32 := 0xa7eff811

/-! ## The templates of `tgt.c` -/

def reqPq : MethodReqPq := ⟨0x60469778, emptyParam .int128, .zero⟩

def methodReqDHParams : MethodReqDHParams where
  id := 0xd712e4be
  nonce := emptyParam .int128
  serverNonce := emptyParam .int128
  p := emptyParam .string
  q := emptyParam .string
  publicKeyFingerprint := emptyParam .long
  encryptedData := emptyParam .string
  ctorServerDHParamsOk := .zero
  ctorPQInnerData := .zero

def ctorPQInnerData : CtorPQInnerData where
  id := 0x83c95aec
  pq := emptyParam .string
  p := emptyParam .string
  q := emptyParam .string
  nonce := emptyParam .int128
  serverNonce := emptyParam .int128
  newNonce := emptyParam .int256

def ctorClientDHInnerData : CtorClientDHInnerData where
  id := 0x6643b654
  nonce := emptyParam .int128
  serverNonce := emptyParam .int128
  retryId := emptyParam .long
  gB := emptyParam .string
  b := zeroBuf

def methodSetClientDHParams : MethodSetClientDHParams where
  id := 0xf5045f1f
  nonce := emptyParam .int128
  serverNonce := emptyParam .int128
  encryptedData := emptyParam .string
  ctorSetClientDHParamsAnswerOk := .zero
  ctorServerDHInnerData := .zero
  ctorClientDHInnerData := .zero
  salt := zeroBuf

end Libtg.Mtx
