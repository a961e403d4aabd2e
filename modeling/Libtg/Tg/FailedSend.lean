import Libtg.Tg.SendQuery

/-!
# When `send` fails (`tg_send` in `tg/queue.c` and `tg/send_query.c`)

Both senders open the session, prepare the packet and hand it to `send`. Preparing takes the pending
acknowledgements and drops out of the session, and a failing `send` does not put them back: they are
still there exactly if there was nothing to acknowledge (`failedSend_iff`).
-/

namespace Libtg

open SendQuery

/-! ## The sender of a query thread -/

/-- What `tg_send` of `queue.c` returns, and what it leaves in `queue->msgid` and
`queue->socket`. -/
structure QueueSent where
  err : Nat
  msgId : UInt64
  socket : Nat
  tg : Tg

/-- `tg_send` of `queue.c`. -/
def queueTgSend (W : World) (A : Attempt) (tg : Tg) (query : Bytes) (msgid : UInt64)
    (socket : Nat) : QueueSent :=
  let rc := A.sharedRc
  let (tg, socket) :=
    if tg.key.length = 0 then
      ({ tg with key := rc.key, salt := rc.salt, seqn := rc.seqnh + 1 }, rc.sockfd)
    else (tg, socket)
  let tg := if tg.ssid.length = 0 then { tg with ssid := bufRand W.env 8 } else tg
  let tg := if tg.salt.length = 0 then { tg with salt := bufRand W.env 8 } else tg
  let ((b, msgid), tg) := tgPrepareQuery W.crypto W.env query true msgid tg
  if b.length = 0 then ⟨1, msgid, socket, tg⟩
  else if A.sent then ⟨0, msgid, socket, tg⟩ else ⟨1, msgid, socket, tg⟩

/-- The session from which both senders prepare the packet. -/
def openSession (E : Env) (A : Attempt) (tg : Tg) : Tg :=
  let rc := A.sharedRc
  let tg :=
    if tg.key.length = 0 then { tg with key := rc.key, salt := rc.salt, seqn := rc.seqnh + 1 }
    else tg
  let tg := if tg.ssid.length = 0 then { tg with ssid := bufRand E 8 } else tg
  if tg.salt.length = 0 then { tg with salt := bufRand E 8 } else tg

variable {W : World} {A : Attempt} {E : Env} {C : Crypto} {tg : Tg} {query : Bytes}
  {msgid : UInt64} {socket : Nat}

theorem queueTgSend_eq (W : World) (A : Attempt) (tg : Tg) (query : Bytes) (msgid : UInt64)
    (socket : Nat) : ∃ socket', queueTgSend W A tg query msgid socket =
    let r := tgPrepareQuery W.crypto W.env query true msgid (openSession W.env A tg)
    if r.1.1.length = 0 then ⟨1, r.1.2, socket', r.2⟩
    else if A.sent then ⟨0, r.1.2, socket', r.2⟩ else ⟨1, r.1.2, socket', r.2⟩ := by
  unfold queueTgSend openSession
  generalize tgPrepareQuery W.crypto W.env query true msgid = prepare
  dsimp only
  by_cases hkey : tg.key.length = 0
  · refine ⟨A.sharedRc.sockfd, ?_⟩
    simp only [hkey, if_true]
    rfl
  · refine ⟨socket, ?_⟩
    simp only [hkey, if_false]
    rfl

theorem tgSend_eq (W : World) (A : Attempt) (tg : Tg) (query : Bytes) (socket : Nat) :
    ∃ socket', SendQuery.tgSend W A tg query socket =
    let r := tgPrepareQuery W.crypto W.env query true 0 (openSession W.env A tg)
    if r.1.1.length = 0 then (0, socket', r.2)
    else if A.sent then (r.1.2, socket', r.2) else (0, socket', r.2) := by
  unfold SendQuery.tgSend openSession
  generalize tgPrepareQuery W.crypto W.env query true 0 = prepare
  dsimp only
  by_cases hkey : tg.key.length = 0
  · refine ⟨A.sharedRc.sockfd, ?_⟩
    simp only [hkey, if_true]
    rfl
  · refine ⟨socket, ?_⟩
    simp only [hkey, if_false]
    rfl

theorem queueTgSend_tg : (queueTgSend W A tg query msgid socket).tg =
    (tgPrepareQuery W.crypto W.env query true msgid (openSession W.env A tg)).2 := by
  obtain ⟨socket', heq⟩ := queueTgSend_eq W A tg query msgid socket
  generalize tgPrepareQuery W.crypto W.env query true msgid (openSession W.env A tg) = r at heq ⊢
  dsimp only at heq
  rw [heq]
  split_ifs <;> rfl

theorem tgSend_tg : (SendQuery.tgSend W A tg query socket).2.2 =
    (tgPrepareQuery W.crypto W.env query true 0 (openSession W.env A tg)).2 := by
  obtain ⟨socket', heq⟩ := tgSend_eq W A tg query socket
  generalize tgPrepareQuery W.crypto W.env query true 0 (openSession W.env A tg) = r at heq ⊢
  dsimp only at heq
  rw [heq]
  split_ifs <;> rfl

/-- A failing `send` is reported. -/
theorem queueTgSend_err (hfail : A.sent = false) :
    (queueTgSend W A tg query msgid socket).err = 1 := by
  obtain ⟨socket', heq⟩ := queueTgSend_eq W A tg query msgid socket
  generalize tgPrepareQuery W.crypto W.env query true msgid (openSession W.env A tg) = r at heq
  dsimp only at heq
  rw [heq, hfail, if_neg Bool.false_ne_true]
  split_ifs <;> rfl

theorem tgSend_err (hfail : A.sent = false) : (SendQuery.tgSend W A tg query socket).1 = 0 := by
  obtain ⟨socket', heq⟩ := tgSend_eq W A tg query socket
  generalize tgPrepareQuery W.crypto W.env query true 0 (openSession W.env A tg) = r at heq
  dsimp only at heq
  rw [heq, hfail, if_neg Bool.false_ne_true]
  split_ifs <;> rfl

/-! ## What is pending -/

/-- The ids still to be acknowledged, and those still to be dropped. -/
def pending (tg : Tg) : List UInt64 × List UInt64 := (tg.msgids, tg.todrop)

theorem pending_openSession : pending (openSession E A tg) = pending tg := by
  unfold openSession
  dsimp only
  split_ifs <;> rfl

/-- `c` leaves a part of the session alone. -/
def Keeps {α β : Type} (f : Tg → β) (c : TgM α) : Prop := ∀ tg, f (c tg).2 = f tg

section

variable {α β γ : Type} {f : Tg → γ}

theorem Keeps.pure (x : α) : Keeps f (pure x) := fun _ => rfl

theorem Keeps.bind {c : TgM α} {k : α → TgM β} (hc : Keeps f c) (hk : ∀ x, Keeps f (k x)) :
    Keeps f (c >>= k) := fun tg => (hk _ _).trans (hc tg)

theorem Keeps.mapM {k : α → TgM β} (hk : ∀ x, Keeps f (k x)) (xs : List α) :
    Keeps f (xs.mapM k) := by
  induction xs with
  | nil => exact Keeps.pure []
  | cons x xs ih =>
    rw [List.mapM_cons]
    exact (hk x).bind fun _ => ih.bind fun _ => Keeps.pure _

variable (hf : ∀ tg readings seqn, f { tg with readings := readings, seqn := seqn } = f tg)

include hf

theorem keeps_tgGetCurrentTime : Keeps f (tgGetCurrentTime E) := fun tg => hf tg _ tg.seqn

theorem keeps_nextSeqno (content : Bool) : Keeps f (nextSeqno content) := by
  intro tg
  cases content
  · rfl
  · exact hf tg tg.readings _

theorem keeps_tgMtpMessage (payload : Bytes) (content : Bool) :
    Keeps f (tgMtpMessage E payload content) :=
  (keeps_tgGetCurrentTime hf).bind fun _ => (keeps_nextSeqno hf content).bind fun _ => Keeps.pure _

end

theorem keeps_tgToDrop : Keeps Tg.msgids (tgToDrop E) := by
  refine Keeps.bind (fun _ => rfl) fun tg => ?_
  split_ifs
  · exact Keeps.pure _
  · refine Keeps.bind (Keeps.mapM (fun id => keeps_tgMtpMessage (fun _ _ _ => rfl) _ _) _) ?_
    exact fun msgs => Keeps.bind (fun _ => rfl) fun _ => Keeps.pure _

/-- Without acknowledgements no container is built, and drops stay. -/
theorem pending_tgHeaderData_nil (h : tg.msgids = []) (content : Bool) :
    pending (tgHeaderData E query content tg).2 = pending tg := by
  have hack : tgAck tg = ([], tg) := by
    rw [tgAck_eq, if_pos (by simp [h])]
  rw [tgHeaderData, run_bind, hack]
  rfl

theorem msgids_tgHeaderData (h : tg.msgids ≠ []) (query : Bytes) (content : Bool) :
    (tgHeaderData E query content tg).2.msgids = [] := by
  have hack : tgAck tg = (tlMsgsAck tg.msgids, { tg with msgids := [] }) := by
    rw [tgAck_eq, if_neg (by simpa [Nat.pos_iff_ne_zero] using h)]
  have hlen : (tlMsgsAck tg.msgids).length > 0 := by
    rw [tlMsgsAck_eq]
    simp
  rw [tgHeaderData, run_bind, hack]
  dsimp only
  rw [if_pos hlen]
  refine Keeps.bind (keeps_tgMtpMessage (fun _ _ _ => rfl) query true) (fun msg₀ => ?_) _
  refine (keeps_tgMtpMessage (fun _ _ _ => rfl) _ false).bind fun msg₁ => ?_
  exact keeps_tgToDrop.bind fun _ => Keeps.pure _

/-- Preparing a packet takes everything out if there is something to acknowledge. -/
theorem pending_tgPrepareQuery : pending (tgPrepareQuery C E query true msgid tg).2 =
    pending (tgHeaderData E query true tg).2 := by
  obtain ⟨⟨data, content, id⟩, tg', hdata⟩ : ∃ r tg', tgHeaderData E query true tg = (r, tg') :=
    ⟨_, _, rfl⟩
  rw [tgPrepareQuery, run_bind, tgHeader, if_pos rfl, run_bind, hdata]
  refine Keeps.bind (f := pending) (fun _ => rfl) (fun tg => ?_) tg'
  refine (keeps_tgGetCurrentTime fun _ _ _ => rfl).bind fun msgId => ?_
  exact (keeps_nextSeqno (fun _ _ _ => rfl) content).bind fun _ => Keeps.pure _

theorem samePending_iff :
    pending (tgPrepareQuery C E query true msgid (openSession E A tg)).2 = pending tg ↔
      tg.msgids = [] := by
  have hopen : pending (openSession E A tg) = pending tg := pending_openSession
  have hmsgids : (openSession E A tg).msgids = tg.msgids := congrArg Prod.fst hopen
  rw [pending_tgPrepareQuery]
  constructor
  · intro h
    by_contra hne
    have hnil := msgids_tgHeaderData (E := E) (hmsgids.symm ▸ hne) query true
    exact hne ((congrArg Prod.fst h).symm.trans hnil)
  · intro h
    rw [pending_tgHeaderData_nil (hmsgids.trans h), hopen]

/-! ## Failing sends -/

/-- A sender that fails after it has prepared the packet loses nothing that is pending. -/
def FailedSendKeeps : Prop :=
  ∀ (W : World) (A : Attempt) (tg : Tg) (query : Bytes) (msgid : UInt64) (socket : Nat),
    A.sent = false → pending (queueTgSend W A tg query msgid socket).tg = pending tg ∧
      pending (SendQuery.tgSend W A tg query socket).2.2 = pending tg

/-- What is pending survives a failing `send`, of both senders, exactly if there is nothing to
acknowledge. -/
theorem failedSend_iff (W : World) (A : Attempt) (tg : Tg) (query : Bytes) (msgid : UInt64)
    (socket : Nat) (hfail : A.sent = false) :
    ((queueTgSend W A tg query msgid socket).err = 1 ∧
      (pending (queueTgSend W A tg query msgid socket).tg = pending tg ↔ tg.msgids = [])) ∧
    ((SendQuery.tgSend W A tg query socket).1 = 0 ∧
      (pending (SendQuery.tgSend W A tg query socket).2.2 = pending tg ↔ tg.msgids = [])) := by
  refine ⟨⟨queueTgSend_err hfail, ?_⟩, tgSend_err hfail, ?_⟩
  · rw [queueTgSend_tg, samePending_iff]
  · rw [tgSend_tg, samePending_iff]

/-- A network that is down. -/
def down : Attempt := ⟨some 3, ⟨[], [], 3, 0⟩, false⟩

def downWorld : World := ⟨[], fun b => ⟨false, b⟩, pingCrypto, pingEnv, 0, fun _ => down⟩

theorem failedSend_iff_down :
    (queueTgSend downWorld down pingTg ping 0 3).err = 1 ∧
      pending (queueTgSend downWorld down pingTg ping 0 3).tg = pending pingTg := by
  obtain ⟨⟨herr, hiff⟩, -⟩ := failedSend_iff downWorld down pingTg ping 0 3 rfl
  exact ⟨herr, hiff.mpr rfl⟩

/-- The acknowledgement of message 3 is lost. -/
theorem failedSendKeeps_counterexample : ¬ FailedSendKeeps := by
  intro h
  have hkept := (h downWorld down { pingTg with msgids := [3] } ping 0 3 rfl).1
  rw [queueTgSend_tg, samePending_iff] at hkept
  cases hkept

end Libtg
