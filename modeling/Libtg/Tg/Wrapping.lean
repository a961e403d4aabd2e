import Libtg.Tg.Container
import Libtg.Tg.Resend

/-!
# Wrapped messages (`_tg_receive` in `tg/queue.c`)

A query thread takes a packet from its socket, takes off the envelope, and hands what is inside to
`handle_tl`, which opens containers and compressed blocks by calling itself. The whole of it is run
here without a pause: the locks are free when they are asked for. What stands in the packet by
itself, in a container of its own and in a compressed block is compared in `transparent_iff`.
-/

namespace Libtg.Receiving

open LittleEndian

/-- `enum RTL`. -/
inductive Rtl where
  /-- Exit the loop. -/
  | ex
  /-- Error of the socket. -/
  | er
  /-- Read the socket again. -/
  | rq
  /-- Resend the query. -/
  | rs
  deriving DecidableEq

/-- The session, the queries, the objects handed to `tg_do_updates`, and how often `ntp_time_diff`
was asked. -/
structure Receiver where
  tg : Tg
  queries : State
  updates : List Tl
  ntps : Nat

/-- `none` is a use of what is not there, or a recursion that does not end. -/
abbrev RecvM := StateT Receiver Option

/-- The surroundings: the decoders, zlib, the primitives, and the answers of the time server. -/
structure Setting where
  schema : Schema
  gunzip : Bytes → Gunzipped
  crypto : Crypto
  ntp : Nat → UInt64

namespace Receiver

def addMsgid (r : Receiver) (msgId : UInt64) : Receiver :=
  { r with tg := (tgAddMsgid msgId r.tg).2 }

def setTimeDiff (W : Setting) (r : Receiver) : Receiver :=
  { r with tg := { r.tg with timediff := W.ntp r.ntps }, ntps := r.ntps + 1 }

end Receiver

section
variable (W : Setting) (i : Nat)

/-- `catched_tl` in the thread `i`. -/
def catchedTl (msgId : UInt64) (tl : Tl) : RecvM Unit := fun r =>
  match r.queries.find msgId with
  | none => some ((), r)
  | some q => (onDoneArg W.schema W.gunzip tl).map fun arg =>
    let called := if (r.queries.recs q).onDone then [.called i q msgId arg] else []
    let queries := (((r.queries.cut msgId).emit [.took i q msgId]).modify q fun x =>
      { x with loop := x.loop && !stopsLoop tl }).emit called
    let r := if tl.id = idBadMsgNotification then r.setTimeDiff W else r
    ((), { r with queries := queries })

/-- A call of `handle_tl`, where `rec` is the function itself. -/
def runCall (rec : Tl → RecvM Unit) : Call → RecvM Unit
  | .addMsgid msgId => modify (·.addMsgid msgId)
  | .message body => do
    let (tl, _) ← (tlDeserialize W.schema body : Option (Tl × Bytes))
    rec tl
  | .handleTl tl => rec tl
  | .catchedTl msgId tl => catchedTl W i msgId tl
  | .timeDiff => modify (·.setTimeDiff W)
  | .doUpdates tl => modify fun r => { r with updates := r.updates ++ [tl] }

/-- `handle_tl` with messages in messages up to a depth. -/
def handleTlN : Nat → Tl → RecvM Unit
  | 0, _ => fun _ => none
  | n + 1, tl => do
    let calls ← (handleTl W.gunzip tl : Option (List Call))
    calls.forM (runCall W i (handleTlN n))

/-- `_tg_receive` behind `tg_deheader`. -/
def dispatchN (n : Nat) (msg : Bytes) : RecvM Rtl := do
  let (tl, _) ← (tlDeserialize W.schema msg : Option (Tl × Bytes))
  match tl with
  | .null => fun _ => none
  | tl =>
    if tl.id = idBadServerSalt then return .rs
    else
      handleTlN W i n tl
      return .rq

/-- `_tg_receive` of a packet that has arrived. -/
def tgReceiveN (n : Nat) (packet : Bytes) : RecvM Rtl := do
  if packet.length = 4 ∧ get32 packet = 0xfffffe6c then return .ex
  else
    let r ← get
    let d ← (tgDecrypt W.crypto r.tg packet true : Option Bytes)
    if d.length = 0 then return .ex
    else
      let (msg, tg) ← (tgDeheader r.tg d true : Option (Bytes × Tg))
      set { r with tg := tg }
      dispatchN W i n msg

/-- The packet makes `_tg_receive` do this. -/
def Receives (packet : Bytes) (r : Receiver) (out : Rtl × Receiver) : Prop :=
  ∃ n, tgReceiveN W i n packet r = some out

end

/-- With the lock of the query free, `catched_tl` is its two steps in a query thread. -/
theorem catchedTl_steps {W : Setting} {i : Nat} {msgId : UInt64} {tl : Tl} {calls : List Call}
    {r r' : Receiver} (hpc : r.queries.pc i = .handling (.catchedTl msgId tl :: calls))
    (hfree : ∀ q, (r.queries.recs q).m = none) (h : catchedTl W i msgId tl r = some ((), r')) :
    (r.queries.find msgId = none ∧
        catchQueue r.queries i = some (r'.queries.setPc i (.handling calls))) ∨
      ∃ t, catchQueue r.queries i = some t ∧
        callOnDone W.schema W.gunzip t i = some (r'.queries.setPc i (.handling calls)) := by
  rw [catchedTl] at h
  rw [catchQueue, hpc]
  dsimp only
  cases hfind : r.queries.find msgId with
  | none =>
    rw [hfind] at h
    cases h
    exact .inl ⟨rfl, rfl⟩
  | some q =>
    rw [hfind] at h
    dsimp only at h ⊢
    rw [hfree q]
    refine .inr ⟨_, rfl, ?_⟩
    simp only [Option.map_eq_some_iff] at h
    obtain ⟨arg, harg, heq⟩ := h
    obtain rfl := (Prod.mk.inj heq).2
    have hm := hfree q
    simp only [callOnDone, State.setPc, State.emit, State.modify, State.cut, Function.update_self,
      Function.update_idem, harg, Option.map_some, hm]

/-! ## The depth does not matter -/

/-- Where `c` ends, `c'` ends with the same. -/
def Below {α : Type} (c c' : RecvM α) : Prop := ∀ r out, c r = some out → c' r = some out

section
variable {W : Setting} {i n : Nat} {α β : Type}

theorem Below.refl (c : RecvM α) : Below c c := fun _ _ => id

theorem Below.bind {c c' : RecvM α} {f f' : α → RecvM β} (hc : Below c c')
    (hf : ∀ a, Below (f a) (f' a)) : Below (c >>= f) (c' >>= f') := by
  intro r out h
  obtain ⟨⟨a, r'⟩, ha, h⟩ := Option.bind_eq_some_iff.mp h
  exact Option.bind_eq_some_iff.mpr ⟨(a, r'), hc r _ ha, hf a r' out h⟩

theorem Below.forM {γ : Type} {f f' : γ → RecvM Unit} (h : ∀ c, Below (f c) (f' c))
    (cs : List γ) : Below (cs.forM f) (cs.forM f') := by
  induction cs with
  | nil => exact .refl _
  | cons c cs ih => exact (h c).bind fun _ => ih

theorem below_runCall {rec rec' : Tl → RecvM Unit} (h : ∀ tl, Below (rec tl) (rec' tl))
    (call : Call) : Below (runCall W i rec call) (runCall W i rec' call) := by
  cases call with
  | message body => exact (Below.refl _).bind fun r => h r.1
  | handleTl tl => exact h tl
  | addMsgid _ | catchedTl _ _ | timeDiff | doUpdates _ => exact .refl _

theorem below_handleTlN {k : Nat} (hle : n ≤ k) (tl : Tl) :
    Below (handleTlN W i n tl) (handleTlN W i k tl) := by
  induction n generalizing k tl with
  | zero =>
    intro r out h
    cases h
  | succ n ih =>
    obtain ⟨k, rfl⟩ : ∃ k', k = k' + 1 := ⟨k - 1, by omega⟩
    exact (Below.refl _).bind fun calls => .forM (below_runCall (ih (by omega))) calls

theorem below_tgReceiveN {k : Nat} (hle : n ≤ k) (packet : Bytes) :
    Below (tgReceiveN W i n packet) (tgReceiveN W i k packet) := by
  have hdispatch (msg : Bytes) : Below (dispatchN W i n msg) (dispatchN W i k msg) := by
    refine (Below.refl _).bind fun x => ?_
    obtain ⟨tl, t⟩ := x
    cases tl with
    | null => exact .refl _
    | _ =>
      dsimp only
      split_ifs
      · exact .refl _
      · exact (below_handleTlN hle _).bind fun _ => .refl _
  rw [tgReceiveN, tgReceiveN]
  split_ifs
  · exact .refl _
  · refine (Below.refl _).bind fun r => (Below.refl _).bind fun d => ?_
    split_ifs
    · exact .refl _
    · exact (Below.refl _).bind fun x => (Below.refl _).bind fun _ => hdispatch x.1

/-- A packet has one outcome. -/
theorem receives_unique {packet : Bytes} {r : Receiver} {out out' : Rtl × Receiver}
    (h : Receives W i packet r out) (h' : Receives W i packet r out') : out = out' := by
  obtain ⟨n, hn⟩ := h
  obtain ⟨k, hk⟩ := h'
  have hleft := below_tgReceiveN (le_max_left n k) packet r out hn
  have hright := below_tgReceiveN (le_max_right n k) packet r out' hk
  exact Option.some.inj (hleft.symm.trans hright)

end

/-! ## The acknowledgements come last -/

/-- The session with these ids queued before its own. -/
def Receiver.ack (l : List UInt64) (r : Receiver) : Receiver :=
  { r with tg := { r.tg with msgids := l ++ r.tg.msgids } }

/-- The program does not look at the ids that are queued. -/
def Blind {α : Type} (c : RecvM α) : Prop :=
  ∀ l r, c (r.ack l) = (c r).map fun out => (out.1, out.2.ack l)

section
variable {W : Setting} {i n : Nat} {α β : Type}

theorem blind_pure (a : α) : Blind (pure a : RecvM α) := fun _ _ => rfl

theorem blind_lift (x : Option α) : Blind (liftM x : RecvM α) := by
  intro l r
  cases x <;> rfl

theorem Blind.bind {c : RecvM α} {f : α → RecvM β} (hc : Blind c) (hf : ∀ a, Blind (f a)) :
    Blind (c >>= f) := by
  intro l r
  show (c (r.ack l)).bind _ = ((c r).bind _).map _
  rw [hc]
  cases c r with
  | none => rfl
  | some out => exact hf out.1 l out.2

theorem blind_modify {f : Receiver → Receiver} (h : ∀ l r, f (r.ack l) = (f r).ack l) :
    Blind (modify f) := fun l r => congrArg (fun r => some ((), r)) (h l r)

theorem Blind.forM {γ : Type} {f : γ → RecvM Unit} (h : ∀ c, Blind (f c)) (cs : List γ) :
    Blind (cs.forM f) := by
  induction cs with
  | nil => exact blind_pure ()
  | cons c cs ih => exact (h c).bind fun _ => ih

theorem ack_addMsgid (l : List UInt64) (r : Receiver) (msgId : UInt64) :
    (r.ack l).addMsgid msgId = (r.addMsgid msgId).ack l := by
  show { r with tg := { r.tg with msgids := l ++ r.tg.msgids ++ [msgId] } } =
    { r with tg := { r.tg with msgids := l ++ (r.tg.msgids ++ [msgId]) } }
  rw [List.append_assoc]

theorem ack_injective (l : List UInt64) : Function.Injective (Receiver.ack l) := by
  intro r r' h
  obtain ⟨⟨_, _, _, _, _, _, _, _⟩, _, _, _⟩ := r
  obtain ⟨⟨_, _, _, _, _, _, _, _⟩, _, _, _⟩ := r'
  simpa [Receiver.ack] using h

theorem blind_catchedTl (msgId : UInt64) (tl : Tl) : Blind (catchedTl W i msgId tl) := by
  intro l r
  have hfind : (r.ack l).queries.find msgId = r.queries.find msgId := rfl
  rw [catchedTl, catchedTl, hfind]
  cases r.queries.find msgId with
  | none => rfl
  | some q =>
    cases onDoneArg W.schema W.gunzip tl with
    | none => rfl
    | some arg =>
      by_cases hid : tl.id = idBadMsgNotification
      · simp only [hid, if_true]
        rfl
      · simp only [hid, if_false]
        rfl

theorem blind_runCall {rec : Tl → RecvM Unit} (hrec : ∀ tl, Blind (rec tl)) (call : Call) :
    Blind (runCall W i rec call) := by
  cases call with
  | addMsgid msgId => exact blind_modify fun l r => ack_addMsgid l r msgId
  | message body => exact (blind_lift _).bind fun r => hrec r.1
  | handleTl tl => exact hrec tl
  | catchedTl msgId tl => exact blind_catchedTl msgId tl
  | timeDiff => exact blind_modify fun _ _ => rfl
  | doUpdates tl => exact blind_modify fun _ _ => rfl

theorem blind_handleTlN (tl : Tl) : Blind (handleTlN W i n tl) := by
  induction n generalizing tl with
  | zero => exact fun _ _ => rfl
  | succ n ih => exact (blind_lift _).bind fun calls => .forM (blind_runCall ih) calls

end

/-! ## Inside of the wrapping -/

section
variable {W : Setting} {i n : Nat} {r : Receiver} {m msg : Bytes} {msgId : UInt64}

/-- What `handle_tl` does with the body of a message. -/
def innerN (W : Setting) (i n : Nat) (body : Bytes) : RecvM Rtl := do
  let (tl, _) ← (tlDeserialize W.schema body : Option (Tl × Bytes))
  handleTlN W i n tl
  return .rq

theorem blind_innerN : Blind (innerN W i n m) :=
  (blind_lift _).bind fun _ => (blind_handleTlN _).bind fun _ => blind_pure _

/-- The decoder sees a container of this one message. -/
def IsContainerOf (S : Schema) (msgId : UInt64) (m msg : Bytes) : Prop :=
  ∃ tl t, tlDeserialize S msg = some (tl, t) ∧ tl.id = idMsgContainer ∧
    tl.messages = some [(msgId, m)]

/-- The decoder sees a compressed block, from which zlib gets the message back. -/
def IsGzipOf (W : Setting) (m msg : Bytes) : Prop :=
  ∃ tl t, tlDeserialize W.schema msg = some (tl, t) ∧ tl.id = idGzipPacked ∧
    W.gunzip tl.packedData = ⟨true, m⟩

theorem lift_bind_of_some {α β : Type} {x : Option α} {a : α} (h : x = some a) (f : α → RecvM β) :
    (liftM x : RecvM α) >>= f = f a := by
  rw [h]
  rfl

theorem get_bind {α : Type} (f : Receiver → RecvM α) : (get >>= f) r = f r r := rfl

theorem innerN_of_some {tl : Tl} {t : Bytes} (h : tlDeserialize W.schema m = some (tl, t)) :
    innerN W i n m = do
      handleTlN W i n tl
      return .rq := by
  rw [innerN, lift_bind_of_some h]

/-- An object that is there and not a `bad_server_salt` is only handed on. -/
theorem dispatchN_of_some {tl : Tl} {t : Bytes} (h : tlDeserialize W.schema m = some (tl, t))
    (hnull : tl ≠ .null) (hsalt : tl.id ≠ idBadServerSalt) :
    dispatchN W i n m = innerN W i n m := by
  rw [dispatchN, lift_bind_of_some h, innerN_of_some h]
  cases tl with
  | null => exact absurd rfl hnull
  | _ => exact if_neg hsalt

theorem dispatchN_badServerSalt {tl : Tl} {t : Bytes}
    (h : tlDeserialize W.schema m = some (tl, t)) (hsalt : tl.id = idBadServerSalt) :
    dispatchN W i n m r = some (.rs, r) := by
  rw [dispatchN, lift_bind_of_some h]
  cases tl with
  | null => exact absurd hsalt (by decide)
  | _ =>
    simp only [hsalt, if_true]
    rfl

theorem dispatchN_null {t : Bytes} (h : tlDeserialize W.schema m = some (.null, t)) :
    dispatchN W i n m r = none := by
  rw [dispatchN, lift_bind_of_some h]

/-- A message that only wraps `m`: what its calls do is what `handle_tl` does with `m`. -/
theorem exists_dispatchN_wrapped {tl : Tl} {t : Bytes} {calls : List Call} {r' : Receiver}
    (h : tlDeserialize W.schema msg = some (tl, t)) (hid : tl.id ≠ 0)
    (hsalt : tl.id ≠ idBadServerSalt) (hcalls : handleTl W.gunzip tl = some calls)
    (hinner : ∀ n, (do calls.forM (runCall W i (handleTlN W i n)); return Rtl.rq : RecvM Rtl) r =
      innerN W i n m r') {out : Rtl × Receiver} :
    (∃ n, dispatchN W i n msg r = some out) ↔ ∃ n, innerN W i n m r' = some out := by
  have hnull : tl ≠ .null := by
    rintro rfl
    exact hid rfl
  have hzero : dispatchN W i 0 msg r = none := by
    rw [dispatchN_of_some h hnull hsalt, innerN_of_some h]
    rfl
  have hsucc (n : Nat) : dispatchN W i (n + 1) msg r = innerN W i n m r' := by
    rw [dispatchN_of_some h hnull hsalt, innerN_of_some h, handleTlN, lift_bind_of_some hcalls]
    exact hinner n
  constructor
  · rintro ⟨n, hn⟩
    cases n with
    | zero => cases hzero.symm.trans hn
    | succ n => exact ⟨n, (hsucc n).symm.trans hn⟩
  · rintro ⟨n, hn⟩
    exact ⟨n + 1, (hsucc n).trans hn⟩

theorem exists_dispatchN_container (h : IsContainerOf W.schema msgId m msg)
    {out : Rtl × Receiver} :
    (∃ n, dispatchN W i n msg r = some out) ↔
      ∃ n, innerN W i n m (r.addMsgid msgId) = some out := by
  obtain ⟨tl, t, htl, hid, hms⟩ := h
  have hcalls : handleTl W.gunzip tl = some [.addMsgid msgId, .message m] := by
    rw [handleTl, hid, if_neg (by decide), if_pos rfl, hms]
    rfl
  refine exists_dispatchN_wrapped htl (by rw [hid]; decide) (by rw [hid]; decide) hcalls
    fun n => ?_
  simp only [List.forM, runCall, bind_assoc, pure_bind]
  rfl

theorem exists_dispatchN_gzip (h : IsGzipOf W m msg) {out : Rtl × Receiver} :
    (∃ n, dispatchN W i n msg r = some out) ↔ ∃ n, innerN W i n m r = some out := by
  obtain ⟨tl, t, htl, hid, hgz⟩ := h
  have hcalls : handleTl W.gunzip tl = some [.message m] := by
    rw [handleTl, hid, if_pos rfl, hgz]
  refine exists_dispatchN_wrapped htl (by rw [hid]; decide) (by rw [hid]; decide) hcalls
    fun n => ?_
  simp only [List.forM, runCall, bind_assoc, pure_bind]
  rfl

/-- `m` is decoded to an object, and not to a `bad_server_salt`, if it is decoded. -/
def HandledAlike (S : Schema) (m : Bytes) : Prop :=
  ∀ tl t, tlDeserialize S m = some (tl, t) → tl ≠ .null ∧ tl.id ≠ idBadServerSalt

theorem dispatchN_eq_innerN (h : HandledAlike W.schema m) :
    dispatchN W i n m = innerN W i n m := by
  cases hm : tlDeserialize W.schema m with
  | none =>
    rw [dispatchN, innerN, hm]
    rfl
  | some x => exact dispatchN_of_some hm (h _ _ hm).1 (h _ _ hm).2

theorem innerN_rq {out : Rtl × Receiver} (h : innerN W i n m r = some out) : out.1 = .rq := by
  cases hm : tlDeserialize W.schema m with
  | none =>
    rw [innerN, hm] at h
    cases h
  | some x =>
    rw [innerN_of_some hm] at h
    change (handleTlN W i n x.1 r).bind (fun y => some (Rtl.rq, y.2)) = some out at h
    rw [Option.bind_eq_some_iff] at h
    obtain ⟨y, -, hy⟩ := h
    cases hy
    rfl

/-- `NULL` inside of a message is only reported. -/
theorem innerN_null {t : Bytes} (h : tlDeserialize W.schema m = some (.null, t)) :
    innerN W i 1 m r = some (.rq, r) := by
  rw [innerN_of_some h]
  rfl

end

/-! ## The three packets -/

section
variable (W : Setting) (i : Nat)

/-- `_tg_receive` finds these bytes in the packet, and this session behind the header. -/
def Opens (C : Crypto) (tg : Tg) (packet data : Bytes) (tg' : Tg) : Prop :=
  ¬ (packet.length = 4 ∧ get32 packet = 0xfffffe6c) ∧
    ∃ d, tgDecrypt C tg packet true = some d ∧ d.length ≠ 0 ∧
      tgDeheader tg d true = some (data, tg')

/-- The same outcome, but for an id that is queued in `out'` after those in `before`. -/
def AlsoQueues (before : List UInt64) (msgId : UInt64) (out out' : Rtl × Receiver) : Prop :=
  ∃ x : Rtl × Receiver, out = (x.1, x.2.ack before) ∧ out' = (x.1, x.2.ack (before ++ [msgId]))

/-- The packets of the message alone, of a container and of a compressed block make `_tg_receive` do
the same, and the container queues the id of its message. -/
def Transparent (r : Receiver) (alone container gzip : Bytes) (before : List UInt64)
    (msgId : UInt64) : Prop :=
  (∀ out, Receives W i gzip r out ↔ Receives W i alone r out) ∧
    ∀ out', Receives W i container r out' ↔
      ∃ out, Receives W i alone r out ∧ AlsoQueues before msgId out out'

end

section
variable {W : Setting} {i : Nat} {r : Receiver} {tg' : Tg} {packet m : Bytes}

theorem receives_iff (h : Opens W.crypto r.tg packet m tg') {out : Rtl × Receiver} :
    Receives W i packet r out ↔ ∃ n, dispatchN W i n m { r with tg := tg' } = some out := by
  obtain ⟨h404, d, hd, hlen, hhead⟩ := h
  refine exists_congr fun n => ?_
  have hrun : tgReceiveN W i n packet r = dispatchN W i n m { r with tg := tg' } := by
    rw [tgReceiveN, if_neg h404, get_bind, lift_bind_of_some hd, if_neg hlen,
      lift_bind_of_some hhead]
    rfl
  rw [hrun]

/-- Without the ids that were queued before it the outcome is the same. -/
theorem alsoQueues_innerN {before : List UInt64} {msgId : UInt64} {out' : Rtl × Receiver}
    (hr : r.tg.msgids = before) :
    (∃ n, innerN W i n m (r.addMsgid msgId) = some out') ↔
      ∃ out, (∃ n, innerN W i n m r = some out) ∧ AlsoQueues before msgId out out' := by
  obtain ⟨r₀, rfl, hr₀⟩ : ∃ r₀ : Receiver, r = r₀.ack before ∧ r₀.tg.msgids = [] := by
    refine ⟨{ r with tg := { r.tg with msgids := [] } }, ?_, rfl⟩
    rw [Receiver.ack, ← hr, List.append_nil]
  have hadd : (r₀.ack before).addMsgid msgId = r₀.ack (before ++ [msgId]) := by
    show { r₀ with tg := { r₀.tg with msgids := before ++ r₀.tg.msgids ++ [msgId] } } =
      { r₀ with tg := { r₀.tg with msgids := before ++ [msgId] ++ r₀.tg.msgids } }
    rw [hr₀, List.append_nil, List.append_nil]
  rw [hadd]
  constructor
  · rintro ⟨n, hn⟩
    rw [blind_innerN, Option.map_eq_some_iff] at hn
    obtain ⟨x, hx, rfl⟩ := hn
    refine ⟨_, ⟨n, ?_⟩, x, rfl, rfl⟩
    rw [blind_innerN, hx]
    rfl
  · rintro ⟨out, ⟨n, hn⟩, y, hout, rfl⟩
    rw [blind_innerN, Option.map_eq_some_iff] at hn
    obtain ⟨x, hx, hxout⟩ := hn
    obtain ⟨h₁, h₂⟩ := Prod.ext_iff.mp (hxout.trans hout)
    obtain rfl : x = y := Prod.ext h₁ (ack_injective before h₂)
    refine ⟨n, ?_⟩
    rw [blind_innerN, hx]
    rfl

/-- A wrapping is transparent exactly for what `_tg_receive` itself does not look for. -/
theorem transparent_iff {alone container gzip c g : Bytes} {msgId : UInt64}
    (halone : Opens W.crypto r.tg alone m tg') (hcontainer : Opens W.crypto r.tg container c tg')
    (hgzip : Opens W.crypto r.tg gzip g tg') (hc : IsContainerOf W.schema msgId m c)
    (hg : IsGzipOf W m g) :
    Transparent W i r alone container gzip tg'.msgids msgId ↔ HandledAlike W.schema m := by
  have hrc (out' : Rtl × Receiver) : Receives W i container r out' ↔
      ∃ out, (∃ n, innerN W i n m { r with tg := tg' } = some out) ∧
        AlsoQueues tg'.msgids msgId out out' := by
    rw [receives_iff hcontainer, exists_dispatchN_container hc, alsoQueues_innerN rfl]
  have hrg (out : Rtl × Receiver) : Receives W i gzip r out ↔
      ∃ n, innerN W i n m { r with tg := tg' } = some out := by
    rw [receives_iff hgzip, exists_dispatchN_gzip hg]
  constructor
  · rintro ⟨hsame, hadds⟩ tl t htl
    constructor
    · rintro rfl
      -- alone the message is read through `NULL`, in a container it is only reported
      have hout := (receives_iff hcontainer (i := i)).mpr
        ((exists_dispatchN_container hc (i := i)).mpr ⟨1, innerN_null htl⟩)
      obtain ⟨out, hrun, -⟩ := (hadds _).mp hout
      obtain ⟨n, hn⟩ := (receives_iff halone).mp hrun
      cases (dispatchN_null htl).symm.trans hn
    · intro hsalt
      have hrun := (receives_iff halone (i := i)).mpr ⟨0, dispatchN_badServerSalt htl hsalt⟩
      obtain ⟨n, hn⟩ := (hrg _).mp ((hsame _).mpr hrun)
      cases innerN_rq hn
  · intro hm
    have hra (out : Rtl × Receiver) : Receives W i alone r out ↔
        ∃ n, innerN W i n m { r with tg := tg' } = some out := by
      rw [receives_iff halone]
      simp only [dispatchN_eq_innerN hm]
    refine ⟨fun out => (hrg out).trans (hra out).symm, fun out' => (hrc out').trans ?_⟩
    simp only [hra]

/-- What the server sealed is opened. -/
theorem opens_sealMessage {C : Crypto} {tg : Tg} (hkey : tg.key.length = 256)
    (hssid : tg.ssid.length = 8) (m : ServerMessage) :
    Opens C tg (sealMessage C tg.key 8 (m.plaintext tg.ssid)) m.data
      { tg with salt := le64 m.salt, msgids := tg.msgids ++ [m.msgId] } := by
  have hlen := m.plaintext_length hssid
  have hblocks : 16 ∣ (m.plaintext tg.ssid).length := by
    rw [hlen]
    exact m.blocks
  refine ⟨fun h => ?_, m.plaintext tg.ssid, tgDecrypt_sealMessage hkey hblocks, by omega,
    tgDeheader_plaintext m hssid⟩
  have hmk : (msgKey C tg.key 8 (m.plaintext tg.ssid)).length = 16 := msgKey_length _
  have hpacket := h.1
  rw [sealMessage, List.length_append, List.length_append, hmk] at hpacket
  omega

end

/-! ## A wrapped `pong` and a wrapped `bad_server_salt` -/

/-- `gzip_packed#3072cfa1 packed_data:bytes = Object;`. -/
def gzipPacked : Entry :=
  ⟨true, "gzip_packed", idGzipPacked, [⟨"packed_data", some "bytes", 0, 0⟩]⟩

/-- `pong#347773c5 msg_id:long ping_id:long = Pong;`. -/
def pongEntry : Entry :=
  ⟨true, "pong", idPong, [⟨"msg_id", some "long", 0, 0⟩, ⟨"ping_id", some "long", 0, 0⟩]⟩

/-- A container of one message, with id 7. -/
def containerOf (m : Bytes) : Bytes :=
  le32 idMsgContainer ++ le32 1 ++ (le64 7 ++ le32 3 ++ le32 (UInt32.ofNat m.length) ++ m)

/-- `pong.data` and `saltNotice.data`, compressed. -/
def pongZ : Bytes := bigEndian 30 0x1f8b08000000000002033b5a5c6ec2000169ac5006001968eba414000000

def saltNoticeZ : Bytes :=
  bigEndian 35 0x1f8b0800000000000203ab7659fd968d01021881d8008839a17c008e9635b71c000000

/-- A `gzip_packed` of these bytes, which are fewer than 254. -/
def gzipOf (z : Bytes) : Bytes :=
  le32 idGzipPacked ++ UInt8.ofNat z.length :: z ++ List.replicate ((3 - z.length % 4) % 4) 0

/-- zlib on these two. -/
def inflate (z : Bytes) : Gunzipped :=
  if z = pongZ then ⟨true, pong.data⟩
  else if z = saltNoticeZ then ⟨true, saltNotice.data⟩ else ⟨false, z⟩

def wrapSetting : Setting where
  schema := [vector, msgContainer, gzipPacked, pongEntry, badServerSalt]
  gunzip := inflate
  crypto := pingCrypto
  ntp _ := 0

/-- This data under the header of a message. -/
def underHeader (m : ServerMessage) (data padding : Bytes) (hdata : data.length < 2 ^ 32)
    (hblocks : 16 ∣ 32 + data.length + padding.length) : ServerMessage :=
  ⟨m.salt, m.msgId, m.seqno, data, padding, hdata, hblocks⟩

def pongContainer : ServerMessage :=
  underHeader pong (containerOf pong.data) (List.replicate 20 7) (by decide) (by decide)

def pongGzip : ServerMessage :=
  underHeader pong (gzipOf pongZ) (List.replicate 12 7) (by decide) (by decide)

theorem isContainerOf_of_map {S : Schema} {m msg : Bytes} {msgId : UInt64}
    (h : (tlDeserialize S msg).map (fun x => (x.1.id, x.1.messages)) =
      some (idMsgContainer, some [(msgId, m)])) : IsContainerOf S msgId m msg := by
  rw [Option.map_eq_some_iff] at h
  obtain ⟨⟨tl, t⟩, htl, heq⟩ := h
  exact ⟨tl, t, htl, Prod.mk.inj heq⟩

theorem isGzipOf_of_map {W : Setting} {m msg z : Bytes}
    (h : (tlDeserialize W.schema msg).map (fun x => (x.1.id, x.1.packedData)) =
      some (idGzipPacked, z)) (hz : W.gunzip z = ⟨true, m⟩) : IsGzipOf W m msg := by
  rw [Option.map_eq_some_iff] at h
  obtain ⟨⟨tl, t⟩, htl, heq⟩ := h
  obtain ⟨hid, hpacked⟩ := Prod.mk.inj heq
  exact ⟨tl, t, htl, hid, by rw [hpacked, hz]⟩

theorem isContainerOf_pong : IsContainerOf wrapSetting.schema 7 pong.data pongContainer.data :=
  isContainerOf_of_map (by decide +kernel)

theorem isGzipOf_pong : IsGzipOf wrapSetting pong.data pongGzip.data :=
  isGzipOf_of_map (z := pongZ) (by decide +kernel) (if_pos rfl : inflate pongZ = _)

/-- Two queries wait for their answers. -/
def waiting : Receiver := ⟨twoLive.tg, twoLive.queue, [], 0⟩

/-- The packet of a message. -/
def packet (m : ServerMessage) : Bytes :=
  sealMessage pingCrypto waiting.tg.key 8 (m.plaintext waiting.tg.ssid)

theorem opens_packet (m : ServerMessage) : Opens wrapSetting.crypto waiting.tg (packet m) m.data
    { waiting.tg with salt := le64 m.salt, msgids := [m.msgId] } :=
  opens_sealMessage countingKey_length rfl m

theorem transparent_pong :
    Transparent wrapSetting 0 waiting (packet pong) (packet pongContainer) (packet pongGzip)
      [pong.msgId] 7 := by
  refine (transparent_iff (opens_packet pong) (opens_packet pongContainer) (opens_packet pongGzip)
    isContainerOf_pong isGzipOf_pong).mpr ?_
  intro tl t h
  have hid : (tlDeserialize wrapSetting.schema pong.data).map (fun x => x.1.id) =
      some idPong := by
    decide +kernel
  rw [h] at hid
  have hid' : tl.id = idPong := Option.some.inj hid
  constructor
  · rintro rfl
    exact absurd hid' (by decide)
  · rw [hid']
    decide

def saltContainer : ServerMessage :=
  underHeader saltNotice (containerOf saltNotice.data) (List.replicate 12 0) (by decide) (by decide)

def saltGzip : ServerMessage :=
  underHeader saltNotice (gzipOf saltNoticeZ) (List.replicate 24 0) (by decide) (by decide)

/-- Every wrapping is transparent. -/
def WrappingTransparent : Prop :=
  ∀ (W : Setting) (i : Nat) (r : Receiver) (tg' : Tg) (alone container gzip m c g : Bytes)
    (msgId : UInt64), Opens W.crypto r.tg alone m tg' → Opens W.crypto r.tg container c tg' →
    Opens W.crypto r.tg gzip g tg' → IsContainerOf W.schema msgId m c → IsGzipOf W m g →
    Transparent W i r alone container gzip tg'.msgids msgId

/-- A compressed `bad_server_salt` is dropped, and the query not sent again. -/
theorem wrappingTransparent_counterexample : ¬ WrappingTransparent := by
  intro h
  have hcontainer : IsContainerOf wrapSetting.schema 7 saltNotice.data saltContainer.data :=
    isContainerOf_of_map (by decide +kernel)
  have hgzip : IsGzipOf wrapSetting saltNotice.data saltGzip.data :=
    isGzipOf_of_map (z := saltNoticeZ) (by decide +kernel)
      ((if_neg (by decide)).trans (if_pos rfl) : inflate saltNoticeZ = _)
  obtain ⟨hsame, -⟩ := h wrapSetting 0 waiting _ _ _ _ _ _ _ 7 (opens_packet saltNotice)
    (opens_packet saltContainer) (opens_packet saltGzip) hcontainer hgzip
  have hid : (tlDeserialize wrapSetting.schema saltNotice.data).map (fun x => x.1.id) =
      some idBadServerSalt := by
    decide +kernel
  obtain ⟨⟨tl, t⟩, htl, hsalt⟩ := Option.map_eq_some_iff.mp hid
  have hrun := (receives_iff (opens_packet saltNotice) (i := 0)).mpr
    ⟨0, dispatchN_badServerSalt htl hsalt⟩
  obtain ⟨n, hn⟩ := (exists_dispatchN_gzip hgzip).mp
    ((receives_iff (opens_packet saltGzip)).mp ((hsame _).mpr hrun))
  cases innerN_rq hn

end Libtg.Receiving
