import Libtg.Lib.RelyGuarantee
import Libtg.Tg.PrepareQuery

/-!
# Threads that build messages (`tg/ack.c`, `tg/header.c`)

Any number of threads call the functions of `ack.c` and `header.c` on one session. An action is a
reading of the clock or a section under `seqnm`, `msgidsm` or `todropm`. The section of `tg_to_drop`
under `todropm` builds messages, and so has readings and sections of `seqnm` inside: its beginning
and its end are two actions, between which the others wait for `todropm` but for nothing else.

The functions are those of `Session` once more, with their actions told apart. A thread alone
computes what `Session` has (`simulates_tgHeader`). What is built is kept in its parts until
`Message.bytes` and `Packet.bytes` put it together.
-/

namespace Libtg.Threads

open LittleEndian

/-- A message: of `msg_id:long seqno:int bytes:int body:Object`. -/
structure Message where
  msgId : UInt64
  seqno : UInt32
  content : Bool
  body : Bytes
  deriving DecidableEq

def Message.bytes (m : Message) : Bytes :=
  le64 m.msgId ++ le32 m.seqno ++ le32 (UInt32.ofNat m.body.length) ++ m.body

/-- What `tg_header` puts a header around. -/
inductive Data where
  | query (b : Bytes)
  | container (msgs : List Message)
  deriving DecidableEq

def Data.bytes : Data → Bytes
  | .query b => b
  | .container msgs =>
    le32 idMsgContainer ++ le32 (UInt32.ofNat msgs.length) ++ (msgs.map Message.bytes).flatten

def Data.messages : Data → List Message
  | .query _ => []
  | .container msgs => msgs

/-- What `tg_header` returns. -/
inductive Packet where
  | plain (msgId : UInt64) (b : Bytes)
  | encrypted (salt ssid : Bytes) (msgId : UInt64) (seqno : UInt32) (content : Bool) (data : Data)
      (padding : Bytes)
  deriving DecidableEq

def Packet.bytes : Packet → Bytes
  | .plain msgId b => le64 0 ++ le64 msgId ++ le32 (UInt32.ofNat b.length) ++ b
  | .encrypted salt ssid msgId seqno _ data padding =>
    salt ++ ssid ++ le64 msgId ++ le32 seqno ++ le32 (UInt32.ofNat data.bytes.length) ++
      data.bytes ++ padding

/-! ## The actions -/

/-- `nextSeqno` names the message the number is for, `clearTodrop` the ids it was taken for. -/
inductive Action where
  /-- `tg_get_current_time`. -/
  | currentTime
  /-- The section of `seqnm`. -/
  | nextSeqno (content : Bool) (msgId : UInt64)
  /-- The section of `tg_ack`: the ids it takes. -/
  | takeMsgids
  | addMsgid (msgid : UInt64)
  | addTodrop (msgid : UInt64)
  /-- The section of `tg_to_drop`, up to the messages. -/
  | lockTodrop
  /-- Its end. -/
  | clearTodrop (ids : List UInt64)
  /-- `tg->salt` and `tg->ssid`. -/
  | keys

@[reducible]
def Answer : Action → Type
  | .currentTime => UInt64
  | .nextSeqno _ _ => UInt32
  | .takeMsgids | .lockTodrop => List UInt64
  | .addMsgid _ | .addTodrop _ | .clearTodrop _ => Unit
  | .keys => Bytes × Bytes

/-- What a call returns. -/
inductive Result where
  | none
  | message (m : Message)
  | messages (ms : List Message)
  | packet (p : Packet) (msgid : UInt64)
  deriving DecidableEq

/-- What happened to the session. -/
inductive Event where
  /-- A reading of the clock gave the id of a message. -/
  | generated (i : Nat) (msgId : UInt64)
  | numbered (i : Nat) (msgId : UInt64) (seqno : UInt32) (content : Bool)
  /-- `tg_ack` built the message that acknowledges these. -/
  | acked (i : Nat) (ids : List UInt64)
  /-- `tg_to_drop` built the messages that drop these. -/
  | dropped (i : Nat) (ids : List UInt64)
  | addedMsgid (i : Nat) (msgid : UInt64)
  | addedTodrop (i : Nat) (msgid : UInt64)
  | returned (i : Nat) (r : Result)
  deriving DecidableEq

/-- The session, who holds `todropm`, and what happened so far, newest first. -/
structure SharedTg where
  tg : Tg
  todropm : Option Nat
  log : List Event

/-- What an action of thread `i` does. -/
def handle (E : Env) (i : Nat) : (a : Action) → SharedTg → Option (Answer a × SharedTg)
  | .currentTime, s =>
    let (msgId, tg) := tgGetCurrentTime E s.tg
    some (msgId, { s with tg := tg, log := .generated i msgId :: s.log })
  | .nextSeqno content msgId, s =>
    let (seqno, tg) := Libtg.nextSeqno content s.tg
    some (seqno, { s with tg := tg, log := .numbered i msgId seqno content :: s.log })
  | .takeMsgids, s =>
    if s.tg.msgids.length < 1 then some ([], s)
    else some (s.tg.msgids,
      { s with tg := { s.tg with msgids := [] }, log := .acked i s.tg.msgids :: s.log })
  | .addMsgid msgid, s =>
    some ((), { s with tg := (Libtg.tgAddMsgid msgid s.tg).2, log := .addedMsgid i msgid :: s.log })
  | .addTodrop msgid, s =>
    if s.todropm.isSome then none
    else some ((), { s with tg := { s.tg with todrop := s.tg.todrop ++ [msgid] },
                            log := .addedTodrop i msgid :: s.log })
  | .lockTodrop, s =>
    if s.todropm.isSome then none
    else if s.tg.todrop.length < 1 then some ([], s)
    else some (s.tg.todrop, { s with todropm := some i })
  | .clearTodrop ids, s =>
    some ((), ⟨{ s.tg with todrop := [] }, none, .dropped i ids :: s.log⟩)
  | .keys, s => some ((s.tg.salt, s.tg.ssid), s)

/-! ## The functions -/

abbrev Program := Prog Action Answer

abbrev currentTime : Program UInt64 := .act .currentTime .done

abbrev nextSeqno (content : Bool) (msgId : UInt64) : Program UInt32 :=
  .act (.nextSeqno content msgId) .done

abbrev takeMsgids : Program (List UInt64) := .act .takeMsgids .done

abbrev lockTodrop : Program (List UInt64) := .act .lockTodrop .done

abbrev clearTodrop (ids : List UInt64) : Program Unit := .act (.clearTodrop ids) .done

abbrev keys : Program (Bytes × Bytes) := .act .keys .done

/-- `tg_add_msgid`. -/
abbrev tgAddMsgid (msgid : UInt64) : Program Unit := .act (.addMsgid msgid) .done

/-- `tg_add_todrop`. -/
abbrev tgAddTodrop (msgid : UInt64) : Program Unit := .act (.addTodrop msgid) .done

/-- `tg_ack`. -/
def tgAck : Program Bytes := do
  let ids ← takeMsgids
  if ids.length < 1 then return [] else return tlMsgsAck ids

/-- `tg_mtp_message`. -/
def tgMtpMessage (payload : Bytes) (content : Bool) : Program Message := do
  let msgId ← currentTime
  let seqno ← nextSeqno content msgId
  return ⟨msgId, seqno, content, payload⟩

/-- `tg_to_drop`. -/
def tgToDrop : Program (List Message) := do
  let ids ← lockTodrop
  if ids.length < 1 then return []
  else
    let msgs ← ids.mapM fun id => tgMtpMessage (tlRpcDropAnswer id) true
    clearTodrop ids
    return msgs

/-- The data of `tg_header`, whether it is content-related, and the id of the query's message. -/
def tgHeaderData (b : Bytes) (content : Bool) : Program (Data × Bool × UInt64) := do
  let ack ← tgAck
  if ack.length > 0 then
    let msg₀ ← tgMtpMessage b true
    let msg₁ ← tgMtpMessage ack false
    let todrop ← tgToDrop
    return (.container (msg₀ :: msg₁ :: todrop), false, msg₀.msgId)
  else return (.query b, content, 0)

/-- `tg_header`, with the value left in `*msgid`. -/
def tgHeader (E : Env) (b : Bytes) (enc content : Bool) (msgid : UInt64) :
    Program (Packet × UInt64) := do
  if enc then
    let (data, content, msgid) ← tgHeaderData b content
    let (salt, ssid) ← keys
    let _msgid ← currentTime
    let seqno ← nextSeqno content _msgid
    let pad := 16 + (16 - data.bytes.length % 16) % 16
    return (.encrypted salt ssid _msgid seqno content data (bufRand E pad),
      if msgid = 0 then _msgid else msgid)
  else
    let msgId ← currentTime
    return (.plain msgId b, msgid)

inductive Call where
  | tgMtpMessage (payload : Bytes) (content : Bool)
  | tgHeader (b : Bytes) (enc content : Bool) (msgid : UInt64)
  | tgToDrop
  | tgAddMsgid (msgid : UInt64)
  | tgAddTodrop (msgid : UInt64)

def program (E : Env) : Call → Program Result
  | .tgMtpMessage payload content => Result.message <$> tgMtpMessage payload content
  | .tgHeader b enc content msgid =>
    (fun r => Result.packet r.1 r.2) <$> tgHeader E b enc content msgid
  | .tgToDrop => Result.messages <$> tgToDrop
  | .tgAddMsgid msgid => (fun _ => Result.none) <$> tgAddMsgid msgid
  | .tgAddTodrop msgid => (fun _ => Result.none) <$> tgAddTodrop msgid

def onReturn (i : Nat) (_ : Call) (r : Result) (s : SharedTg) : SharedTg :=
  { s with log := .returned i r :: s.log }

abbrev TgPool := Pool Action Answer Result Call SharedTg

/-- A move of some thread. -/
abbrev move (E : Env) : TgPool → Pool.Move Call → Option TgPool :=
  Pool.move (handle E) (program E) onReturn

/-! ## A thread alone -/

/-- Alone, with `todropm` as in `held`, the program computes what `c` does. -/
def Simulates {α β : Type} (E : Env) (i : Nat) (held : Option Nat) (p : Program α) (c : TgM β)
    (R : α → β → Prop) : Prop :=
  ∀ s : SharedTg, s.todropm = held → ∃ x s', p.run (handle E i) s = some (x, s') ∧
    R x (c s.tg).1 ∧ s'.tg = (c s.tg).2 ∧ s'.todropm = held

variable {E : Env} {i : Nat} {held : Option Nat} {α β α' β' : Type}

theorem Simulates.done {x : α} {y : β} {R : α → β → Prop} (h : R x y) :
    Simulates E i held (.done x) (pure y) R := fun s hs => ⟨x, s, rfl, h, rfl, hs⟩

theorem Simulates.bind {p : Program α} {c : TgM β} {R : α → β → Prop} {f : α → Program α'}
    {g : β → TgM β'} {R' : α' → β' → Prop} (h : Simulates E i held p c R)
    (hf : ∀ x y, R x y → Simulates E i held (f x) (g y) R') :
    Simulates E i held (p >>= f) (c >>= g) R' := by
  intro s hs
  obtain ⟨x, s', hrun, hR, htg, hheld⟩ := h s hs
  obtain ⟨x', s'', hrun', hR', htg', hheld'⟩ := hf x _ hR s' hheld
  refine ⟨x', s'', ?_, ?_, ?_, hheld'⟩
  · rw [Prog.run_bind, hrun]
    exact hrun'
  · rw [run_bind, ← htg]
    exact hR'
  · rw [run_bind, ← htg]
    exact htg'

theorem simulates_currentTime :
    Simulates E i held currentTime (tgGetCurrentTime E) Eq :=
  fun _ hs => ⟨_, _, rfl, rfl, rfl, hs⟩

theorem simulates_nextSeqno (content : Bool) (msgId : UInt64) :
    Simulates E i held (nextSeqno content msgId) (Libtg.nextSeqno content) Eq :=
  fun _ hs => ⟨_, _, rfl, rfl, rfl, hs⟩

theorem simulates_tgMtpMessage (payload : Bytes) (content : Bool) :
    Simulates E i held (tgMtpMessage payload content) (Libtg.tgMtpMessage E payload content)
      fun m r => (m.bytes, m.msgId) = r := by
  refine simulates_currentTime.bind fun msgId _ h => ?_
  subst h
  refine (simulates_nextSeqno content msgId).bind fun seqno _ h => ?_
  subst h
  exact .done rfl

theorem simulates_mapM {γ : Type} {f : γ → Program α} {g : γ → TgM β} {R : α → β → Prop}
    (h : ∀ c, Simulates E i held (f c) (g c) R) (cs : List γ) :
    Simulates E i held (cs.mapM f) (cs.mapM g) fun xs ys => List.Forall₂ R xs ys := by
  induction cs with
  | nil => exact .done .nil
  | cons c cs ih =>
    rw [List.mapM_cons, List.mapM_cons]
    exact (h c).bind fun x y hxy => ih.bind fun xs ys hxys => .done (.cons hxy hxys)

theorem simulates_tgAck : Simulates E i held tgAck Libtg.tgAck Eq := by
  intro s hs
  by_cases hlen : s.tg.msgids.length < 1
  · refine ⟨[], s, ?_, ?_⟩
    · simp [tgAck, Prog.run, handle, hlen]
    · rw [tgAck_eq, if_pos hlen]
      exact ⟨rfl, rfl, hs⟩
  · refine ⟨tlMsgsAck s.tg.msgids,
      { s with tg := { s.tg with msgids := [] }, log := .acked i s.tg.msgids :: s.log }, ?_, ?_⟩
    · simp only [tgAck, Prog.act_bind, Prog.done_bind, Prog.run, handle, hlen, if_false,
        Option.bind_some]
      rfl
    · rw [tgAck_eq, if_neg hlen]
      exact ⟨rfl, rfl, hs⟩

theorem tgToDrop_eq (tg : Tg) : Libtg.tgToDrop E tg =
    if tg.todrop.length < 1 then ((0, []), tg)
    else
      let r := (tg.todrop.mapM fun id => Libtg.tgMtpMessage E (tlRpcDropAnswer id) true) tg
      ((tg.todrop.length, (r.1.map (·.1)).flatten), { r.2 with todrop := [] }) := by
  rw [Libtg.tgToDrop, run_bind]
  change (if tg.todrop.length < 1 then _ else _ : TgM (Nat × Bytes)) tg = _
  split_ifs <;> rfl

theorem mapM_length {γ : Type} (f : γ → TgM β) (cs : List γ) (tg : Tg) :
    (cs.mapM f tg).1.length = cs.length := by
  induction cs generalizing tg with
  | nil => rfl
  | cons c cs ih =>
    rw [List.mapM_cons]
    exact congrArg (· + 1) (ih (f c tg).2)

/-- The messages of `tg_to_drop` are counted, and put one after the other. -/
def Dropped (ms : List Message) (r : Nat × Bytes) : Prop :=
  r = (ms.length, (ms.map Message.bytes).flatten)

theorem simulates_tgToDrop : Simulates E i none tgToDrop (Libtg.tgToDrop E) Dropped := by
  intro s hs
  rw [tgToDrop_eq]
  by_cases hlen : s.tg.todrop.length < 1
  · refine ⟨[], s, ?_, ?_⟩
    · simp [tgToDrop, Prog.run, handle, hs, hlen]
    · rw [if_pos hlen]
      exact ⟨rfl, rfl, hs⟩
  · have hone (id : UInt64) : Simulates E i (some i) (tgMtpMessage (tlRpcDropAnswer id) true)
        (Libtg.tgMtpMessage E (tlRpcDropAnswer id) true) fun m r => (m.bytes, m.msgId) = r :=
      simulates_tgMtpMessage (tlRpcDropAnswer id) true
    obtain ⟨msgs, s', hrun, hmsgs, htg, -⟩ :=
      simulates_mapM hone s.tg.todrop { s with todropm := some i } rfl
    have hcount := mapM_length (fun id => Libtg.tgMtpMessage E (tlRpcDropAnswer id) true)
      s.tg.todrop s.tg
    rw [if_neg hlen]
    dsimp only at hmsgs htg ⊢
    generalize (s.tg.todrop.mapM fun id => Libtg.tgMtpMessage E (tlRpcDropAnswer id) true) s.tg = r
      at hmsgs htg hcount ⊢
    have hmap : msgs.map (fun m => (m.bytes, m.msgId)) = r.1 :=
      List.forall₂_eq_eq_eq ▸ List.forall₂_map_left_iff.mpr hmsgs
    refine ⟨msgs, ⟨{ s'.tg with todrop := [] }, none, .dropped i s.tg.todrop :: s'.log⟩, ?_, ?_,
      ?_, rfl⟩
    · simp only [tgToDrop, Prog.act_bind, Prog.done_bind, Prog.run, handle, hs, hlen, if_false,
        Option.isSome_none, Bool.false_eq_true, Option.bind_some, Prog.run_bind, hrun]
      rfl
    · rw [Dropped, ← hcount, ← hmap, List.length_map, List.map_map]
      rfl
    · rw [htg]

/-- The parts of the data are put together. -/
def Assembled (r : Data × Bool × UInt64) (r' : Bytes × Bool × UInt64) : Prop :=
  r' = (r.1.bytes, r.2)

theorem simulates_tgHeaderData (b : Bytes) (content : Bool) :
    Simulates E i none (tgHeaderData b content) (Libtg.tgHeaderData E b content) Assembled := by
  refine simulates_tgAck.bind fun ack _ h => ?_
  subst h
  split_ifs
  · refine (simulates_tgMtpMessage b true).bind fun msg₀ _ h₀ => ?_
    subst h₀
    refine (simulates_tgMtpMessage ack false).bind fun msg₁ _ h₁ => ?_
    subst h₁
    refine simulates_tgToDrop.bind fun todrop _ h => ?_
    subst h
    have hcount : 2 + todrop.length = (msg₀ :: msg₁ :: todrop).length := Nat.add_comm 2 _
    refine .done ?_
    rw [Assembled, Data.bytes, hcount]
    simp
  · exact .done rfl

/-- `tg_header` of a thread alone returns the bytes of the packet. -/
theorem simulates_tgHeader (b : Bytes) (enc content : Bool) (msgid : UInt64) :
    Simulates E i none (tgHeader E b enc content msgid) (Libtg.tgHeader E b enc content msgid)
      fun r r' => (r.1.bytes, r.2) = r' := by
  rw [tgHeader, Libtg.tgHeader]
  cases enc with
  | false =>
    refine simulates_currentTime.bind fun msgId _ h => ?_
    subst h
    exact .done rfl
  | true =>
    refine (simulates_tgHeaderData b content).bind fun r r' h => ?_
    subst h
    obtain ⟨data, content, msgid⟩ := r
    have hkeys : Simulates E i none keys (get : TgM Tg) fun k tg => k = (tg.salt, tg.ssid) :=
      fun _ hs => ⟨_, _, rfl, rfl, rfl, hs⟩
    refine hkeys.bind fun k tg h => ?_
    subst h
    refine simulates_currentTime.bind fun msgId _ h => ?_
    subst h
    refine (simulates_nextSeqno content msgId).bind fun seqno _ h => ?_
    subst h
    exact .done rfl

end Libtg.Threads
