import Libtg.Tg.DoUpdates
import Libtg.Tg.Wrapping

/-!
# Absent objects on the way of a packet (`tg/queue.c`)

A constructor that `tl_deserialize` does not know is `NULL`, in the place of the packet or in the
place of a field. The path of a packet is run here as before, with `tg_send_query_sync_cb` for every
`on_done` and with `tg_do_updates` written out, and every pointer it reads through is looked at.
`neverAbsent_iff` says on which packets the path does not come upon `NULL`.
-/

namespace Libtg.Receiving

/-! ## The path with its reads -/

/-- A run that stops at the first read through `NULL`. -/
abbrev CheckM := StateT Receiver (Except Fault)

/-- What the unchecked path does here. -/
def orStuck {α : Type} (c : RecvM α) : CheckM α := fun r =>
  match c r with
  | none => .error .stuck
  | some out => .ok out

/-- `tg_send_query_sync_cb`, which reads `tl->_buf`. -/
def tgSendQuerySyncCb (S : Schema) (tl : Tl) : Except Fault Tl := do
  deref tl
  match tlDeserialize S tl.data with
  | none => throw .stuck
  | some r => return r.1

section
variable (W : Setting) (onLog : Bool) (i : Nat)

/-- `catched_tl`. -/
def catchedTlChecked (msgId : UInt64) (tl : Tl) : CheckM Unit := fun r =>
  match r.queries.find msgId with
  | none => .ok ((), r)
  | some q =>
    match onDoneArg W.schema W.gunzip tl with
    | none => .error .stuck
    | some arg =>
      (if (r.queries.recs q).onDone then tgSendQuerySyncCb W.schema arg else pure .null) >>=
        fun _ => orStuck (catchedTl W i msgId tl) r

/-- A call of `handle_tl`, where `rec` is the function itself. -/
def runCallChecked (rec : Tl → CheckM Unit) : Call → CheckM Unit
  | .message body => do
    let (tl, _) ← orStuck (liftM (tlDeserialize W.schema body))
    rec tl
  | .handleTl tl => rec tl
  | .catchedTl msgId tl => catchedTlChecked W i msgId tl
  | .doUpdates tl => do
    tgDoUpdates onLog tl
    orStuck (runCall W i (fun _ _ => none) (.doUpdates tl))
  | call => orStuck (runCall W i (fun _ _ => none) call)

/-- `handle_tl` with messages in messages up to a depth. -/
def handleTlChecked : Nat → Tl → CheckM Unit
  | 0, _ => throw .stuck
  | n + 1, tl =>
    match handleTl W.gunzip tl with
    | none => throw .absent
    | some calls => calls.forM (runCallChecked W onLog i (handleTlChecked n))

/-- `_tg_receive` behind `tg_deheader`, which reads `tl->_id`. -/
def dispatchChecked (n : Nat) (msg : Bytes) : CheckM Rtl := do
  let (tl, _) ← orStuck (liftM (tlDeserialize W.schema msg))
  deref tl
  if tl.id = idBadServerSalt then return .rs
  else
    handleTlChecked W onLog i n tl
    return .rq

end

/-! ## It is the path of before -/

/-- Where `c` gets to its end, `d` gets there too. -/
def Checks {α : Type} (c : CheckM α) (d : RecvM α) : Prop := ∀ r out, c r = .ok out → d r = some out

section
variable {W : Setting} {onLog : Bool} {i n : Nat} {α β : Type}

theorem Checks.orStuck (d : RecvM α) : Checks (orStuck d) d := by
  intro r out h
  unfold Receiving.orStuck at h
  split at h
  · cases h
  · rename_i hd
    cases h
    exact hd

theorem Checks.bind {c : CheckM α} {d : RecvM α} {f : α → CheckM β} {g : α → RecvM β}
    (hc : Checks c d) (hf : ∀ a, Checks (f a) (g a)) : Checks (c >>= f) (d >>= g) := by
  intro r out h
  change (c r >>= fun x => f x.1 x.2) = _ at h
  cases hcr : c r with
  | error e =>
    rw [hcr] at h
    cases h
  | ok x =>
    rw [hcr] at h
    exact Option.bind_eq_some_iff.mpr ⟨x, hc r x hcr, hf x.1 x.2 out h⟩

theorem Checks.forM {γ : Type} {f : γ → CheckM Unit} {g : γ → RecvM Unit}
    (h : ∀ c, Checks (f c) (g c)) (cs : List γ) : Checks (cs.forM f) (cs.forM g) := by
  induction cs with
  | nil =>
    intro r out h
    cases h
    rfl
  | cons c cs ih => exact (h c).bind fun _ => ih

/-- Some reads first. -/
theorem Checks.after {p : Except Fault β} {c : CheckM α} {d : RecvM α} (h : Checks c d) :
    Checks ((liftM p : CheckM β) >>= fun _ => c) d := by
  intro r out hout
  cases p with
  | error e => cases hout
  | ok b => exact h r out hout

theorem checks_catchedTl (msgId : UInt64) (tl : Tl) :
    Checks (catchedTlChecked W i msgId tl) (catchedTl W i msgId tl) := by
  intro r out h
  unfold catchedTlChecked at h
  cases hfind : r.queries.find msgId with
  | none =>
    rw [hfind] at h
    cases h
    rw [catchedTl, hfind]
  | some q =>
    rw [hfind] at h
    dsimp only at h
    cases harg : onDoneArg W.schema W.gunzip tl with
    | none =>
      rw [harg] at h
      cases h
    | some arg =>
      rw [harg] at h
      dsimp only at h
      generalize (if (r.queries.recs q).onDone then tgSendQuerySyncCb W.schema arg
        else pure .null) = p at h
      cases p with
      | error e => cases h
      | ok b => exact Checks.orStuck _ r out h

theorem checks_runCall {rec : Tl → CheckM Unit} {rec' : Tl → RecvM Unit}
    (h : ∀ tl, Checks (rec tl) (rec' tl)) (call : Call) :
    Checks (runCallChecked W onLog i rec call) (runCall W i rec' call) := by
  cases call with
  | message body => exact (Checks.orStuck _).bind fun x => h x.1
  | handleTl tl => exact h tl
  | catchedTl msgId tl => exact checks_catchedTl msgId tl
  | doUpdates tl => exact (Checks.orStuck _).after
  | addMsgid msgId => exact Checks.orStuck (runCall W i rec' (.addMsgid msgId))
  | timeDiff => exact Checks.orStuck (runCall W i rec' .timeDiff)

theorem checks_handleTl (tl : Tl) :
    Checks (handleTlChecked W onLog i n tl) (handleTlN W i n tl) := by
  induction n generalizing tl with
  | zero =>
    intro r out h
    cases h
  | succ n ih =>
    intro r out h
    rw [handleTlChecked] at h
    cases hcalls : handleTl W.gunzip tl with
    | none =>
      rw [hcalls] at h
      cases h
    | some calls =>
      rw [hcalls] at h
      rw [handleTlN, hcalls]
      exact Checks.forM (checks_runCall ih) calls r out h

/-- A packet that gets through does what it does on the path without the looks. -/
theorem checks_dispatch (msg : Bytes) :
    Checks (dispatchChecked W onLog i n msg) (dispatchN W i n msg) := by
  refine (Checks.orStuck _).bind fun x => ?_
  obtain ⟨tl, t⟩ := x
  cases tl with
  | object id b fields =>
    refine Checks.after ?_
    dsimp only
    split_ifs
    · intro r out h
      cases h
      rfl
    · refine (checks_handleTl _).bind fun _ => ?_
      intro r out h
      cases h
      rfl
  | _ =>
    intro r out h
    cases h

end

/-! ## The messages a packet comes to

Of the queries in the list only their message ids matter, and who has an `on_done`. -/

/-- The queries of the list: the message id, and whether there is an `on_done`. -/
abbrev Waiting := List (UInt64 × Bool)

def waitingIn (s : State) : Waiting :=
  s.queue.map fun q => ((s.recs q).msgid, (s.recs q).onDone)

/-- The query the message answers, and the object it hands over. -/
def answerOf (m : Tl) : Option (UInt64 × Tl) :=
  if m.id = idMsgDetailedInfo ∨ m.id = idMsgNewDetailedInfo then some (m.answerMsgId, .null)
  else if m.id = idRpcResult then some (m.reqMsgId, m.result)
  else none

/-- The bodies `handle_tl` opens. -/
def wrapped (W : Setting) (tl : Tl) : Option (List Bytes) :=
  if tl.id = idGzipPacked then some [(W.gunzip tl.packedData).buf]
  else if tl.id = idMsgContainer then tl.messages.map fun ms => ms.map (·.2)
  else none

/-- The messages `handle_tl` comes to that it does not open, one after the other, up to a depth.
Where a body ends inside of its object there is `none`. -/
def messagesMet (W : Setting) : Nat → Tl → List (Option Tl)
  | 0, _ => [none]
  | n + 1, tl =>
    match wrapped W tl with
    | none => [some tl]
    | some bodies => bodies.flatMap fun body =>
      match tlDeserialize W.schema body with
      | none => [none]
      | some x => messagesMet W n x.1

/-- The answer waits for a query that is in the list, and its `on_done` gets `NULL`: for a notice or
a result that is `NULL`, a rejection, or a compressed result that does not inflate or inflates to
something unknown. -/
def AnswerFaults (W : Setting) (l : Waiting) (m : Tl) : Prop :=
  ∃ msgId x, answerOf m = some (msgId, x) ∧ l.find? (msgId == ·.1) = some (msgId, true) ∧
    ∃ arg, onDoneArg W.schema W.gunzip x = some arg ∧ arg.isNull = true

/-- The messages that are not handled without a read through `NULL`. A container is only met when
the array of its messages is not there. -/
def Faults (W : Setting) (onLog : Bool) (l : Waiting) (m : Tl) : Prop :=
  m.id = idMsgContainer ∨ AnswerFaults W l m ∨ UpdatesFault onLog m

/-- The answer for a query in the list is not a compressed one whose bytes end too early. -/
def AnswerEnds (W : Setting) (l : Waiting) (m : Tl) : Prop :=
  ∀ msgId x, answerOf m = some (msgId, x) → (l.find? (msgId == ·.1)).isSome →
    (onDoneArg W.schema W.gunzip x).isSome

/-- The list behind the message. -/
def next (l : Waiting) (m : Tl) : Waiting :=
  match answerOf m with
  | none => l
  | some (msgId, _) => l.eraseP (msgId == ·.1)

/-- One of the messages fails when its turn comes. -/
def OneFaults (W : Setting) (onLog : Bool) : List (Option Tl) → Waiting → Prop
  | some m :: ms, l => Faults W onLog l m ∨ AnswerEnds W l m ∧ OneFaults W onLog ms (next l m)
  | _, _ => False

/-! ### Going through them -/

section
variable (W : Setting) (onLog : Bool)

/-- `catched_tl`, as far as the list is concerned. -/
def settle (msgId : UInt64) (x : Tl) (l : Waiting) : Except Fault Waiting :=
  match l.find? (msgId == ·.1) with
  | none => pure l
  | some q =>
    match onDoneArg W.schema W.gunzip x with
    | none => throw .stuck
    | some arg => if q.2 && arg.isNull then throw .absent else pure (l.eraseP (msgId == ·.1))

/-- One message. -/
def turn (l : Waiting) (m : Tl) : Except Fault Waiting :=
  if m.id = idMsgContainer then throw .absent
  else
    match answerOf m with
    | some (msgId, x) => settle W msgId x l
    | none => (if isUpdates m.id then tgDoUpdates onLog m else pure ()) >>= fun _ => pure l

def turns (ms : List (Option Tl)) (l : Waiting) : Except Fault Waiting :=
  ms.foldlM (fun l m => match m with
    | none => throw .stuck
    | some m => turn W onLog l m) l

/-- The calls go through these messages. -/
def GoesThrough (c : CheckM Unit) (ms : List (Option Tl)) : Prop :=
  ∀ r, (c r).map (fun out => waitingIn out.2.queries) = turns W onLog ms (waitingIn r.queries)

end

section
variable {W : Setting} {onLog : Bool} {i n : Nat} {c : CheckM Unit} {ms ms' : List (Option Tl)}

theorem GoesThrough.bind {d : CheckM Unit} (hc : GoesThrough W onLog c ms)
    (hd : GoesThrough W onLog d ms') : GoesThrough W onLog (c >>= fun _ => d) (ms ++ ms') := by
  intro r
  have hcr := hc r
  unfold turns at hcr ⊢
  rw [List.foldlM_append, ← hcr]
  show ((c r >>= fun x => d x.2)).map _ = _
  cases c r with
  | error e => rfl
  | ok x => exact hd x.2

theorem GoesThrough.forM {γ : Type} {f : γ → CheckM Unit} {g : γ → List (Option Tl)}
    {cs : List γ} (h : ∀ c ∈ cs, GoesThrough W onLog (f c) (g c)) :
    GoesThrough W onLog (cs.forM f) (cs.flatMap g) := by
  induction cs with
  | nil => exact fun r => rfl
  | cons c cs ih =>
    exact (h c List.mem_cons_self).bind (ih fun c' hc' => h c' (List.mem_cons_of_mem _ hc'))

/-! ### `catched_tl` -/

theorem find_waitingIn (s : State) (msgId : UInt64) :
    (waitingIn s).find? (msgId == ·.1) =
      (s.find msgId).map fun q => ((s.recs q).msgid, (s.recs q).onDone) := by
  rw [waitingIn, List.find?_map]
  rfl

theorem waitingIn_catchedTl {msgId : UInt64} {tl : Tl} {r r' : Receiver} {q : Nat}
    (hfind : r.queries.find msgId = some q) (h : catchedTl W i msgId tl r = some ((), r')) :
    waitingIn r'.queries = (waitingIn r.queries).eraseP (msgId == ·.1) := by
  rw [catchedTl, hfind] at h
  simp only [Option.map_eq_some_iff] at h
  obtain ⟨arg, -, heq⟩ := h
  obtain rfl := (Prod.mk.inj heq).2
  rw [waitingIn, waitingIn, List.eraseP_map]
  refine List.map_congr_left fun p _ => ?_
  by_cases hp : p = q
  · subst hp
    simp
  · simp [hp]

/-- What `tl_deserialize` made can be copied. -/
theorem tgSendQuerySyncCb_eq {arg : Tl} (h : Decoded W.schema arg) (hnull : arg.isNull = false) :
    tgSendQuerySyncCb W.schema arg = .ok arg := by
  obtain rfl | ⟨id, b, fields, t, rfl, hdec⟩ := h.cases
  · cases hnull
  · unfold tgSendQuerySyncCb
    rw [deref_of_present hnull]
    simp only [Tl.data, hdec]
    rfl

theorem decoded_onDoneArg {x arg : Tl} (hx : Decoded W.schema x ∨ x = .null)
    (h : onDoneArg W.schema W.gunzip x = some arg) : Decoded W.schema arg ∨ arg = .null := by
  unfold onDoneArg at h
  split at h
  · cases h
    exact .inr rfl
  · rename_i tl
    dsimp only at h
    split_ifs at h
    · obtain ⟨out, hout, rfl⟩ := Option.map_eq_some_iff.mp h
      exact .inl ⟨_, _, hout⟩
    · cases h
      exact .inr rfl
    · cases h
      exact .inr rfl
    · cases h
      exact hx

theorem map_catchedTl {msgId : UInt64} {x : Tl} (hx : Decoded W.schema x ∨ x = .null)
    (r : Receiver) :
    (catchedTlChecked W i msgId x r).map (fun out => waitingIn out.2.queries) =
      settle W msgId x (waitingIn r.queries) := by
  unfold catchedTlChecked settle
  rw [find_waitingIn]
  cases hfind : r.queries.find msgId with
  | none => rfl
  | some q =>
    simp only [Option.map_some]
    cases harg : onDoneArg W.schema W.gunzip x with
    | none => rfl
    | some arg =>
      dsimp only
      obtain ⟨⟨_, r'⟩, hrun⟩ : ∃ out, catchedTl W i msgId x r = some out := by
        rw [catchedTl, hfind]
        dsimp only
        rw [harg]
        exact ⟨_, rfl⟩
      have hlist := waitingIn_catchedTl hfind hrun
      have hrest : orStuck (catchedTl W i msgId x) r = .ok ((), r') := by
        rw [orStuck, hrun]
      rw [hrest, ← hlist]
      cases hdone : (r.queries.recs q).onDone with
      | false => rfl
      | true =>
        rcases decoded_onDoneArg hx harg with hdec | rfl
        · cases hnull : arg.isNull with
          | true =>
            rw [if_pos rfl, tgSendQuerySyncCb, deref, hnull]
            rfl
          | false =>
            rw [if_pos rfl, tgSendQuerySyncCb_eq hdec hnull]
            rfl
        · rfl

/-! ### `handle_tl` -/

theorem goesThrough_catchedTl {m x : Tl} {msgId : UInt64} (hx : Decoded W.schema x ∨ x = .null)
    (hid : m.id ≠ idMsgContainer) (hm : answerOf m = some (msgId, x)) :
    GoesThrough W onLog (catchedTlChecked W i msgId x) [some m] := by
  intro r
  rw [map_catchedTl hx]
  show _ = (turn W onLog (waitingIn r.queries) m >>= fun l => pure l)
  rw [turn, if_neg hid, hm, bind_pure]

/-- A message without an answer leaves the list alone. -/
theorem goesThrough_other {m : Tl} (hid : m.id ≠ idMsgContainer) (hm : answerOf m = none)
    (h : ∀ r, (c r).map (fun out => waitingIn out.2.queries) =
      (if isUpdates m.id then tgDoUpdates onLog m else pure ()) >>= fun _ =>
        pure (waitingIn r.queries)) : GoesThrough W onLog c [some m] := by
  intro r
  rw [h r]
  show _ = (turn W onLog (waitingIn r.queries) m >>= fun l => pure l)
  rw [turn, if_neg hid, hm, bind_pure]

theorem map_doUpdates {rec : Tl → CheckM Unit} (tl : Tl) (r : Receiver) :
    (runCallChecked W onLog i rec (.doUpdates tl) r).map (fun out => waitingIn out.2.queries) =
      tgDoUpdates onLog tl >>= fun _ => pure (waitingIn r.queries) := by
  rw [runCallChecked]
  generalize tgDoUpdates onLog tl = reads
  cases reads with
  | error e => rfl
  | ok u => rfl

theorem forM_one {γ : Type} (f : γ → CheckM Unit) (c : γ) : [c].forM f = f c := bind_pure _

theorem goesThrough_leaf {m : Tl} (hm : Decoded W.schema m) (hleaf : wrapped W m = none) :
    GoesThrough W onLog (handleTlChecked W onLog i (n + 1) m) [some m] := by
  have hgzip : m.id ≠ idGzipPacked := by
    intro h
    rw [wrapped, if_pos h] at hleaf
    cases hleaf
  rw [handleTlChecked, handleTl, if_neg hgzip]
  by_cases hcontainer : m.id = idMsgContainer
  · have hnone : m.messages = none := by
      rw [wrapped, if_neg hgzip, if_pos hcontainer] at hleaf
      exact Option.map_eq_none_iff.mp hleaf
    rw [if_pos hcontainer, hnone]
    intro r
    show _ = (turn W onLog (waitingIn r.queries) m >>= fun l => pure l)
    rw [turn, if_pos hcontainer]
    rfl
  rw [if_neg hcontainer]
  split_ifs with hbad hinfo hnew hresult hupdates <;> dsimp only
  · rw [forM_one]
    refine goesThrough_other hcontainer (by simp +decide [answerOf, hbad]) fun r => ?_
    rw [hbad]
    rfl
  · rw [forM_one]
    exact goesThrough_catchedTl (.inr rfl) hcontainer (by simp [answerOf, hinfo])
  · rw [forM_one]
    exact goesThrough_catchedTl (.inr rfl) hcontainer (by simp [answerOf, hnew])
  · rw [forM_one]
    exact goesThrough_catchedTl hm.result hcontainer (by simp +decide [answerOf, hresult])
  · rw [forM_one]
    refine goesThrough_other hcontainer (by simp [answerOf, hinfo, hnew, hresult]) fun r => ?_
    rw [if_pos hupdates]
    exact map_doUpdates m r
  · refine goesThrough_other hcontainer (by simp [answerOf, hinfo, hnew, hresult]) fun r => ?_
    rw [if_neg hupdates]
    rfl

/-- What a call goes through. -/
def met (W : Setting) (n : Nat) : Call → List (Option Tl)
  | .message body =>
    match tlDeserialize W.schema body with
    | none => [none]
    | some x => messagesMet W n x.1
  | _ => []

theorem goesThrough_message (body : Bytes)
    (ih : ∀ tl, Decoded W.schema tl →
      GoesThrough W onLog (handleTlChecked W onLog i n tl) (messagesMet W n tl)) :
    GoesThrough W onLog (runCallChecked W onLog i (handleTlChecked W onLog i n) (.message body))
      (met W n (.message body)) := by
  rw [runCallChecked, met]
  cases hx : tlDeserialize W.schema body with
  | none => exact fun r => rfl
  | some x => exact fun r => ih x.1 ⟨body, x.2, hx⟩ r

/-- The calls for what is wrapped. -/
theorem handleTl_wrapped {tl : Tl} {bodies : List Bytes} (h : wrapped W tl = some bodies) :
    ∃ calls, handleTl W.gunzip tl = some calls ∧
      (∀ call ∈ calls, (∃ msgId, call = .addMsgid msgId) ∨ ∃ body, call = .message body) ∧
      calls.flatMap (met W n) = bodies.flatMap fun body => met W n (.message body) := by
  unfold wrapped at h
  split_ifs at h with hgzip hcontainer
  · obtain rfl := Option.some.inj h
    refine ⟨[.message (W.gunzip tl.packedData).buf], by rw [handleTl, if_pos hgzip], ?_, rfl⟩
    simp
  · obtain ⟨ms, hms, rfl⟩ := Option.map_eq_some_iff.mp h
    refine ⟨ms.flatMap fun m => [.addMsgid m.1, .message m.2], ?_, ?_, ?_⟩
    · rw [handleTl, if_neg hgzip, if_pos hcontainer, hms]
      rfl
    · simp only [List.mem_flatMap, List.mem_cons, List.not_mem_nil, or_false]
      rintro call ⟨m, -, rfl | rfl⟩
      · exact .inl ⟨_, rfl⟩
      · exact .inr ⟨_, rfl⟩
    · rw [List.flatMap_assoc, List.flatMap_map]
      simp [met]

/-- `handle_tl` opens what is wrapped and goes through the rest. -/
theorem goesThrough_handleTl {tl : Tl} (h : Decoded W.schema tl) :
    GoesThrough W onLog (handleTlChecked W onLog i n tl) (messagesMet W n tl) := by
  induction n generalizing tl with
  | zero => exact fun r => rfl
  | succ n ih =>
    cases hleaf : wrapped W tl with
    | none =>
      rw [messagesMet, hleaf]
      exact goesThrough_leaf h hleaf
    | some bodies =>
      obtain ⟨calls, hcalls, hkinds, hmet⟩ := handleTl_wrapped (n := n) hleaf
      rw [handleTlChecked, hcalls, messagesMet, hleaf]
      show GoesThrough W onLog (calls.forM _) (bodies.flatMap fun body => met W n (.message body))
      rw [← hmet]
      refine GoesThrough.forM fun call hcall => ?_
      rcases hkinds call hcall with ⟨msgId, rfl⟩ | ⟨body, rfl⟩
      · exact fun r => rfl
      · exact goesThrough_message body fun tl => ih

/-! ### The first that fails -/

theorem isUpdates_of_fault {m : Tl} (h : UpdatesFault onLog m) :
    isUpdates m.id = true ∧ answerOf m = none := by
  rcases h with ⟨hid, -⟩ | ⟨hid | hid, -⟩ <;> simp +decide [hid, answerOf]

theorem settle_cases {msgId : UInt64} {x : Tl} {l : Waiting} {m : Tl}
    (hm : answerOf m = some (msgId, x)) :
    AnswerFaults W l m ∧ settle W msgId x l = .error .absent ∨
      ¬ AnswerFaults W l m ∧ AnswerEnds W l m ∧ settle W msgId x l = .ok (next l m) ∨
      ¬ AnswerFaults W l m ∧ ¬ AnswerEnds W l m ∧ settle W msgId x l = .error .stuck := by
  have hfaults : AnswerFaults W l m ↔ l.find? (msgId == ·.1) = some (msgId, true) ∧
      ∃ arg, onDoneArg W.schema W.gunzip x = some arg ∧ arg.isNull = true := by
    unfold AnswerFaults
    rw [hm]
    simp
  have hends : AnswerEnds W l m ↔ ((l.find? (msgId == ·.1)).isSome →
      (onDoneArg W.schema W.gunzip x).isSome) := by
    unfold AnswerEnds
    rw [hm]
    simp
  have hnext : next l m = l.eraseP (msgId == ·.1) := by rw [next, hm]
  rw [hfaults, hends, hnext]
  unfold settle
  cases hfind : l.find? (msgId == ·.1) with
  | none =>
    have herase : l.eraseP (msgId == ·.1) = l :=
      List.eraseP_of_forall_not (List.find?_eq_none.mp hfind)
    exact .inr (.inl ⟨nofun, nofun, by rw [herase]; rfl⟩)
  | some q =>
    obtain ⟨id, onDone⟩ := q
    have hid : (msgId == id) = true := by simpa using List.find?_some hfind
    obtain rfl := beq_iff_eq.mp hid
    cases onDoneArg W.schema W.gunzip x with
    | none => exact .inr (.inr ⟨by simp, by simp, rfl⟩)
    | some arg =>
      cases onDone with
      | false => exact .inr (.inl ⟨by simp, fun _ => rfl, rfl⟩)
      | true =>
        cases hnull : arg.isNull with
        | true => exact .inl ⟨⟨rfl, arg, rfl, hnull⟩, by simp [hnull]; rfl⟩
        | false =>
          exact .inr (.inl ⟨by simp [hnull], fun _ => rfl, by simp [hnull]; rfl⟩)

/-- What a turn does. -/
theorem turn_cases (l : Waiting) (m : Tl) :
    Faults W onLog l m ∧ turn W onLog l m = .error .absent ∨
      ¬ Faults W onLog l m ∧ AnswerEnds W l m ∧ turn W onLog l m = .ok (next l m) ∨
      ¬ Faults W onLog l m ∧ ¬ AnswerEnds W l m ∧ turn W onLog l m = .error .stuck := by
  unfold Faults turn
  by_cases hcontainer : m.id = idMsgContainer
  · exact .inl ⟨.inl hcontainer, if_pos hcontainer⟩
  rw [if_neg hcontainer, or_iff_right hcontainer]
  cases hm : answerOf m with
  | some y =>
    obtain ⟨msgId, x⟩ := y
    have hupdates : ¬ UpdatesFault onLog m := by
      intro h
      rw [(isUpdates_of_fault h).2] at hm
      cases hm
    rw [or_iff_left hupdates]
    exact settle_cases hm
  | none =>
    have hanswer : ¬ AnswerFaults W l m := by
      rintro ⟨msgId, x, h, -⟩
      rw [hm] at h
      cases h
    have hends : AnswerEnds W l m := by
      intro msgId x h
      rw [hm] at h
      cases h
    have hnext : next l m = l := by rw [next, hm]
    rw [or_iff_right hanswer, hnext]
    by_cases hid : isUpdates m.id = true
    · have hreads : FailsIff (tgDoUpdates onLog m) (UpdatesFault onLog m) := failsIff_tgDoUpdates
      rcases hreads with ⟨hfault, hrun⟩ | ⟨hfault, hrun⟩
      · exact .inl ⟨hfault, by simp only [hid, if_true, hrun]; rfl⟩
      · exact .inr (.inl ⟨hfault, hends, by simp only [hid, if_true, hrun]; rfl⟩)
    · refine .inr (.inl ⟨fun h => hid (isUpdates_of_fault h).1, hends, ?_⟩)
      simp only [hid]
      rfl

theorem turns_absent_iff (ms : List (Option Tl)) (l : Waiting) :
    turns W onLog ms l = .error .absent ↔ OneFaults W onLog ms l := by
  induction ms generalizing l with
  | nil => exact iff_of_false nofun id
  | cons m ms ih =>
    cases m with
    | none => exact iff_of_false nofun id
    | some m =>
      show (turn W onLog l m >>= turns W onLog ms) = _ ↔ _
      unfold OneFaults
      have hturn : Faults W onLog l m ∧ _ ∨ _ := turn_cases l m
      rcases hturn with ⟨hfault, hrun⟩ | ⟨hok, hends, hrun⟩ | ⟨hok, hends, hrun⟩
      · rw [hrun]
        exact iff_of_true rfl (.inl hfault)
      · rw [hrun, or_iff_right hok, and_iff_right hends]
        exact ih (next l m)
      · rw [hrun, or_iff_right hok]
        exact iff_of_false nofun fun h => hends h.1

theorem dispatch_stuck {msg : Bytes} {r : Receiver} (h : tlDeserialize W.schema msg = none) :
    dispatchChecked W onLog i n msg r = .error .stuck := by
  unfold dispatchChecked
  rw [h]
  rfl

/-- Whether `handle_tl` reads through `NULL` shows in the messages. -/
theorem handleTl_absent_iff {tl : Tl} {r : Receiver} (h : Decoded W.schema tl) :
    handleTlChecked W onLog i n tl r = .error .absent ↔
      OneFaults W onLog (messagesMet W n tl) (waitingIn r.queries) := by
  rw [← turns_absent_iff, ← goesThrough_handleTl (i := i) h r]
  cases handleTlChecked W onLog i n tl r with
  | error e =>
    show _ ↔ Except.error e = _
    simp
  | ok out => exact iff_of_false nofun nofun

theorem dispatch_absent_iff {msg t : Bytes} {tl : Tl} {r : Receiver}
    (h : tlDeserialize W.schema msg = some (tl, t)) :
    dispatchChecked W onLog i n msg r = .error .absent ↔ tl.isNull = true ∨
      tl.id ≠ idBadServerSalt ∧ OneFaults W onLog (messagesMet W n tl) (waitingIn r.queries) := by
  have hrun : dispatchChecked W onLog i n msg r = ((do
      deref tl
      if tl.id = idBadServerSalt then return .rs
      else
        handleTlChecked W onLog i n tl
        return .rq : CheckM Rtl) r) := by
    rw [dispatchChecked, h]
    rfl
  rw [hrun]
  cases hnull : tl.isNull with
  | true =>
    rw [deref, hnull]
    exact iff_of_true rfl (.inl rfl)
  | false =>
    rw [deref_of_present hnull, or_iff_right Bool.false_ne_true]
    by_cases hsalt : tl.id = idBadServerSalt
    · simp only [hsalt, if_true]
      exact iff_of_false (fun heq => by cases heq) fun h => h.1 rfl
    · simp only [hsalt, if_false]
      rw [and_iff_right hsalt, ← handleTl_absent_iff (i := i) ⟨msg, t, h⟩]
      show ((handleTlChecked W onLog i n tl r >>= fun x => .ok (Rtl.rq, x.2)) = _) ↔ _
      cases handleTlChecked W onLog i n tl r with
      | error e =>
        show Except.error e = _ ↔ _
        simp
      | ok out =>
        show Except.ok _ = _ ↔ _
        simp

end

/-- The path does not come upon `NULL` exactly when the packet is a known object that, unless it is
a `bad_server_salt`, brings no message that fails in its turn. -/
theorem neverAbsent_iff (W : Setting) (onLog : Bool) (i : Nat) (msg : Bytes) (r : Receiver) :
    (∀ n, dispatchChecked W onLog i n msg r ≠ .error .absent) ↔
      ∀ tl t, tlDeserialize W.schema msg = some (tl, t) → tl.isNull = false ∧
        (tl.id ≠ idBadServerSalt →
          ∀ n, ¬ OneFaults W onLog (messagesMet W n tl) (waitingIn r.queries)) := by
  cases hdec : tlDeserialize W.schema msg with
  | none => exact iff_of_true (fun n => by rw [dispatch_stuck hdec]; nofun) nofun
  | some x =>
    obtain ⟨tl, t⟩ := x
    simp only [ne_eq, dispatch_absent_iff hdec, not_or, not_and, Bool.not_eq_true]
    constructor
    · intro h tl' t' heq
      cases heq
      exact ⟨(h 0).1, fun hsalt n => (h n).2 hsalt⟩
    · intro h n
      exact ⟨(h tl t rfl).1, fun hsalt => (h tl t rfl).2 hsalt n⟩

/-- A packet with nothing but an id that nobody knows. -/
theorem neverAbsent_counterexample :
    ¬ ∀ (W : Setting) (onLog : Bool) (i n : Nat) (msg : Bytes) (r : Receiver),
      dispatchChecked W onLog i n msg r ≠ .error .absent := by
  intro h
  have hunknown : tlDeserialize wrapSetting.schema [1, 2, 3, 4] = some (.null, [1, 2, 3, 4]) := rfl
  exact h wrapSetting false 1 1 [1, 2, 3, 4] waiting
    ((dispatch_absent_iff hunknown).mpr (.inl rfl))

end Libtg.Receiving
