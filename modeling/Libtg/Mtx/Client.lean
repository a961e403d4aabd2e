import Libtg.Lib.BigEndian
import Libtg.Lib.Exec
import Libtg.Mtx.Sha1
import Libtg.Mtx.Types
import Libtg.Tg.Crypto

/-!
# The process of the handshake (`mtx/src/types.c`, `log.c`, `net.c`, `cmn.c`, `cry.c`, `hsh.c`)

What the functions of `mtx` keep between calls, and what they get from outside: what the other side
sends, the clock, `rand`, the public key of `pub.pkcs`, libcrypto, and what stands on the stack
where a variable is declared that nobody clears. A complaint is logged and stops nothing.
-/

namespace Libtg.Mtx

open BigEndian

/-- `shared_rc_t`, but for what only the pings use. -/
structure SharedRc where
  key : Buf
  salt : Buf
  ssid : Buf
  seqnh : UInt32
  sockfd : Int

/-- The variables of the process, the complaints it has logged and what it has sent. `ticks` and
`locals` count how often it looked at the clock and at variables nobody had cleared. -/
structure Client where
  sharedRc : SharedRc
  t : TypeSystem
  resetTgApiTypeSystemFlag : UInt32
  errors : List String
  sent : List Bytes
  ticks : Nat
  locals : Nat

/-- The buffers that are declared and not cleared, by the function they are in. -/
inductive Local where
  | hshSha1
  | bufXor
  | cmnPowMod
  | netReceive
  | selSerializeParam
  | selDeserializeParam
  | selDeserializeVector
  | dwh

/-- What can fail while the connection is opened. -/
inductive OpenError where
  | socket
  | host
  | connect

def OpenError.text : OpenError → String
  | .socket => "can't open socket"
  | .host => "no such host"
  | .connect => "can't connect"

/-- What a call of `recv` comes to. -/
inductive Recv where
  | error
  | data (b : Bytes)

structure World where
  crypto : Crypto
  /-- `rand () % 256` for the `k`-th time after `srand`. -/
  rand : UInt32 → Nat → UInt8
  /-- `(unsigned int)time (NULL)`. -/
  time : Nat → UInt32
  /-- `(1LL << 32) * get_utime (CLOCK_REALTIME)`. -/
  utime : Nat → UInt64
  stack : Local → Nat → Buf
  stackSha1 : Nat → Sha1nfo
  /-- The modulus and the exponent, if the file can be read. -/
  publicKey : Option (Nat × Nat)
  /-- `factor`, if it ends. -/
  factor : UInt64 → Option (UInt32 × UInt32)
  socket : Int
  openError : Option OpenError
  /-- What comes after the bytes that were sent. -/
  recv : List Bytes → Recv

abbrev ClientM := Exec Client

variable (W : World)

/-- `api.log.error`. -/
def logError (s : String) : ClientM Unit := Exec.step fun c => { c with errors := c.errors ++ [s] }

/-- `if (p) api.log.error (s)`. -/
def logIf (p : Prop) [Decidable p] (s : String) : ClientM Unit :=
  if p then logError s else pure ()

/-- A variable that is declared and not cleared. -/
def newLocal (l : Local) : ClientM Buf := fun c =>
  some (W.stack l c.locals, { c with locals := c.locals + 1 })

def now : ClientM UInt32 := fun c => some (W.time c.ticks, { c with ticks := c.ticks + 1 })

/-- `get_current_time`. -/
def getCurrentTime : ClientM UInt64 := fun c =>
  some (W.utime c.ticks &&& ~~~3, { c with ticks := c.ticks + 1 })

/-- The block of a buffer with `x` written over its beginning. -/
def Buf.over (b : Buf) (x : Bytes) : Buf where
  data := (x ++ b.data.drop x.length).take maxBufSize
  size := b.size
  data_length := by
    rw [List.length_take, List.length_append, List.length_drop, b.data_length]
    omega

/-! ## `buf.c` -/

/-- `buf_dump_`. -/
def bufDump (b : Buf) : ClientM Unit :=
  if maxBufSize < b.size.toNat then StateT.lift none
  else if b.size = 0 then logError "Error: buf_dump: buffer is empty"
  else pure ()

/-- `buf_cmp_`. -/
def bufCmp (a b : Buf) : ClientM Bool := do
  logIf (a.size ≠ b.size) "Error: buf_cmp: different sizes"
  if a.bytes = b.data.take a.size.toNat then
    if a.size.toNat ≤ maxBufSize then pure true else StateT.lift none
  else pure false

/-- The first `s` values of `rand () % 256`. -/
def randBytes (seed : UInt32) (s : Nat) : Bytes := (List.range s).map (W.rand seed)

/-- `buf_rand_`. -/
def bufRand (s : UInt32) : ClientM Buf := do
  let seed ← now W
  bufAdd (randBytes W seed s.toNat) s

/-- `buf_xor_`. -/
def bufXor (a b : Buf) : ClientM Buf := do
  logIf (a.size ≠ b.size) "Error: buf_cmp: different sizes"
  let r ← newLocal W .bufXor
  if a.size.toNat ≤ maxBufSize then
    pure { r.over (List.zipWith (· ^^^ ·) a.bytes b.data) with size := a.size }
  else StateT.lift none

/-! ## `hsh.c`, `cry.c`, `cmn.c` -/

/-- `hsh_sha1`. -/
def hshSha1 (b : Buf) : ClientM Buf := do
  let s := W.stackSha1 (← get).locals
  let h ← newLocal W .hshSha1
  if b.size.toNat ≤ maxBufSize then
    let md ← Sha1.sha1 s b.bytes
    pure { h.over md with size := 20 }
  else StateT.lift none

/-- `cry_aes_e` and `cry_aes_d`: libcrypto stops the process where the blocks are not whole. -/
def cryAes (aes : Bytes → Bytes → Bytes → Bytes) (error : String) (b key iv : Buf) :
    ClientM Buf := do
  if b.size.toNat ≤ maxBufSize ∧ 16 ∣ b.size.toNat then
    logIf (b.size = 0) error
    let r := zeroBuf.over (aes b.bytes (key.data.take 32) (iv.data.take 32))
    pure { r with size := b.size }
  else StateT.lift none

/-- `cry_aes_e`. -/
def cryAesE : Buf → Buf → Buf → ClientM Buf :=
  cryAes W.crypto.aesIgeE "error during aes encryption"

/-- `cry_aes_d`. -/
def cryAesD : Buf → Buf → Buf → ClientM Buf :=
  cryAes W.crypto.aesIgeD "error during aes decryption"

/-- `BN_mod_exp`, which knows no remainder by zero. -/
def bnModExp (a p m : Nat) : Option Nat := if m = 0 then none else some (a ^ p % m)

/-- `cry_rsa_e`: the number stands at the beginning of 256 zeros. -/
def cryRsaE (b : Buf) : Option Buf := do
  let (n, e) ← W.publicKey
  let y ← bnModExp (beNat b.bytes) e n
  if b.size.toNat ≤ maxBufSize ∧ byteCount y ≤ maxBufSize then
    some { zeroBuf.over (beBytes y) with size := 256 }
  else none

/-- `cmn_pow_mod`. -/
def cmnPowMod (g e m : Buf) : ClientM Buf := do
  logIf (e.size ≠ m.size ∨ e.size ≠ 256) "can't pow_mod"
  let r ← newLocal W .cmnPowMod
  if g.size.toNat ≤ maxBufSize ∧ e.size.toNat ≤ maxBufSize ∧ m.size.toNat ≤ maxBufSize then
    let y ← bnModExp (beNat g.bytes) (beNat e.bytes) (beNat m.bytes)
    logIf (byteCount y = 0) "pow_mod failed"
    let cleared := r.over (List.replicate m.size.toNat 0)
    pure { cleared.over (beBytes y) with size := UInt32.ofNat (byteCount y) }
  else StateT.lift none

/-! ## `net.c` -/

/-- `net_open`: what fails is logged, and the socket is used all the same. -/
def netOpen : ClientM Unit :=
  Exec.step fun c => { c with
    errors := c.errors ++ (W.openError.map OpenError.text).toList
    sharedRc := { c.sharedRc with sockfd := W.socket }
    sent := c.sent ++ [[0xee, 0xee, 0xee, 0xee]] }

/-- `net_send`. -/
def netSend (buf : Buf) : ClientM Unit :=
  if buf.size.toNat ≤ maxBufSize then Exec.step fun c => { c with sent := c.sent ++ [buf.bytes] }
  else StateT.lift none

/-- `net_receive`: one call of `recv`, with room for as much as a buffer holds. -/
def netReceive : ClientM Buf := do
  let buf ← newLocal W .netReceive
  match W.recv (← get).sent with
  | .error =>
    logError "ERROR reading from socket"
    pure { buf with size := 0xffffffff }
  | .data b =>
    let b := b.take maxBufSize
    pure { buf.over b with size := UInt32.ofNat b.length }

inductive StkMode where
  | send
  | sendReceive

/-- `net_drive`. -/
def netDrive (buf : Buf) (m : StkMode) : ClientM Buf := do
  netSend buf
  match m with
  | .sendReceive => netReceive W
  | .send => pure zeroBuf

/-- `reset_shared_rc`. -/
def resetSharedRc (rc : SharedRc) : SharedRc where
  key := { rc.key with size := 0 }
  salt := { rc.salt with size := 0 }
  ssid := { rc.ssid with size := 0 }
  seqnh := 0
  sockfd := 0

end Libtg.Mtx
