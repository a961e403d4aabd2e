import Libtg.Tg.HandleTl
import Libtg.Tg.List

/-!
# Query threads (`tg/queue.c`)

Every query has a record `tg_queue_t` and a thread that sends it and then receives, on its own
socket, messages that may belong to any query. Thread and record share a number. A step is one
section between the taking and the giving back of a lock, one `tg_send`, or one action of a thread
between those. `catched_tl` and `tg_queue_cancell_queue` are two steps each: they find the record
under the list's lock and take the record's lock before they give the other back, and use the
record under its own lock alone.

Operations on mutexes succeed, `malloc` included. A record keeps its last contents when it is freed,
and no address is used twice. A step that would read past a buffer or through `NULL` does not exist.
-/

namespace Libtg

/-- Who holds the mutex of a record: a query thread in `catched_tl`, or a cancelling thread. -/
inductive Holder where
  | thread (i : Nat)
  | canceller (j : Nat)
  deriving DecidableEq

/-- `tg_queue_t`. `onDone` says whether there is a callback. -/
structure TgQueue where
  loop : Bool
  onDone : Bool
  msgid : UInt64
  m : Option Holder
  alive : Bool

/-- Where a query thread stands. -/
inductive Pc where
  | unborn
  /-- Before `tg_net_open`. -/
  | opening
  /-- In the list, before its first `tg_send`. -/
  | sending
  /-- At the test of the receive loop. -/
  | looping
  | receiving
  /-- In `handle_tl`, with these calls to make. -/
  | handling (calls : List Call)
  /-- In `catched_tl`, holding the mutex of `queue`. -/
  | catching (queue : Nat) (msgId : UInt64) (tl : Tl) (calls : List Call)
  /-- Before `tg_send` after `RTL_RS`. -/
  | resending
  /-- Behind the loop, before the last locked section. -/
  | leaving
  | ended

/-- What happened to the queries. -/
inductive Event where
  /-- `handle_tl` of an object in this thread. -/
  | handled (thread : Nat) (tl : Tl)
  /-- `list_cut` in the `catched_tl` of this thread found the query. -/
  | took (thread queue : Nat) (msgId : UInt64)
  /-- `on_done` of the query, called for the answer to `msgId`. -/
  | called (thread queue : Nat) (msgId : UInt64) (arg : Tl)
  | sent (queue : Nat) (msgId : UInt64)
  /-- A cancel took the query out of the list. -/
  | cancelled (queue : Nat)

/-- The records and threads by number, the queries the cancelling threads have locked, and
`tg->queue`. -/
structure State where
  recs : Nat → TgQueue
  pc : Nat → Pc
  cancelling : Nat → Option Nat
  queue : List Nat
  log : List Event

namespace State

@[simps]
def setPc (s : State) (i : Nat) (pc : Pc) : State := { s with pc := Function.update s.pc i pc }

@[simps]
def modify (s : State) (q : Nat) (f : TgQueue → TgQueue) : State :=
  { s with recs := Function.update s.recs q (f (s.recs q)) }

@[simps]
def emit (s : State) (es : List Event) : State := { s with log := es ++ s.log }

@[simps]
def setCancelling (s : State) (j : Nat) (q : Option Nat) : State :=
  { s with cancelling := Function.update s.cancelling j q }

/-- `cmp_msgid`. -/
def cmpMsgid (s : State) (msgId : UInt64) (q : Nat) : Bool := msgId == (s.recs q).msgid

/-- The item `list_cut` finds. -/
def find (s : State) (msgId : UInt64) : Option Nat := s.queue.find? (s.cmpMsgid msgId)

/-- `list_cut`. -/
@[simps]
def cut (s : State) (msgId : UInt64) : State :=
  { s with queue := s.queue.eraseP (s.cmpMsgid msgId) }

end State

/-- A thread is created or `tg_queue_new` has not returned yet: nothing but its own thread knows the
record. -/
def Pc.isPrivate : Pc → Bool
  | .unborn | .opening => true
  | _ => false

/-! ## The steps -/

/-- `tg_queue_new`. -/
def tgQueueNew (s : State) (i : Nat) (onDone : Bool) : Option State :=
  match s.pc i with
  | .unborn => some ((s.modify i fun _ => ⟨true, onDone, 0, none, true⟩).setPc i .opening)
  | _ => none

/-- `tg_run_queue` when `tg_net_open` fails. -/
def openFails (s : State) (i : Nat) : Option State :=
  match s.pc i with
  | .opening => some ((s.modify i fun r => { r with alive := false }).setPc i .ended)
  | _ => none

/-- `list_add` in `tg_run_queue`. -/
def addToList (s : State) (i : Nat) : Option State :=
  match s.pc i with
  | .opening => some ({ s with queue := i :: s.queue }.setPc i .sending)
  | _ => none

/-- `tg_send`, before and in the loop. The message has its id when the sending fails. -/
def tgSend (s : State) (i : Nat) (ok : Bool) (msgId : UInt64) : Option State :=
  match s.pc i with
  | .sending =>
    some (((s.modify i fun r => { r with msgid := msgId, loop := r.loop && ok }).emit
      [.sent i msgId]).setPc i .looping)
  | .resending =>
    some (((s.modify i fun r => { r with msgid := msgId }).emit [.sent i msgId]).setPc i
      (if ok then .looping else .leaving))
  | _ => none

/-- `while (queue->loop)`. -/
def loopTest (s : State) (i : Nat) : Option State :=
  match s.pc i with
  | .looping => some (s.setPc i (if (s.recs i).loop then .receiving else .leaving))
  | _ => none

/-- What comes over the socket: an error, a packet `_tg_receive` gives up on (the 404 word, one that
cannot be decrypted, a cancelled download), or a message with its header taken off. -/
inductive Received where
  | error
  | exit
  | message (data : Bytes)

/-- `_tg_receive` up to `handle_tl`. -/
def tgReceive (S : Schema) (s : State) (i : Nat) (r : Received) : Option State :=
  match s.pc i, r with
  | .receiving, .error => some (s.setPc i .leaving)
  | .receiving, .exit => some (s.setPc i .leaving)
  | .receiving, .message data =>
    match tlDeserialize S data with
    | some (.object id buf fields, _) =>
      if id = idBadServerSalt then some (s.setPc i .resending)
      else some (s.setPc i (.handling [.handleTl (.object id buf fields)]))
    | _ => none
  | _, _ => none

/-- The next call of `handle_tl`, other than `catched_tl`, or its return. -/
def nextCall (S : Schema) (gunzip : Bytes → Gunzipped) (s : State) (i : Nat) : Option State :=
  match s.pc i with
  | .handling [] => some (s.setPc i .looping)
  | .handling (.handleTl tl :: calls) =>
    (handleTl gunzip tl).map fun new =>
      (s.setPc i (.handling (new ++ calls))).emit [.handled i tl]
  | .handling (.message body :: calls) =>
    (tlDeserialize S body).map fun r => s.setPc i (.handling (.handleTl r.1 :: calls))
  | .handling (.addMsgid _ :: calls) => some (s.setPc i (.handling calls))
  | .handling (.timeDiff :: calls) => some (s.setPc i (.handling calls))
  | .handling (.doUpdates _ :: calls) => some (s.setPc i (.handling calls))
  | _ => none

/-- `catched_tl` up to the unlocking of the list. -/
def catchQueue (s : State) (i : Nat) : Option State :=
  match s.pc i with
  | .handling (.catchedTl msgId tl :: calls) =>
    match s.find msgId with
    | none => some (s.setPc i (.handling calls))
    | some q =>
      match (s.recs q).m with
      | some _ => none
      | none =>
        some ((((s.cut msgId).modify q fun r => { r with m := some (.thread i) }).setPc i
          (.catching q msgId tl calls)).emit [.took i q msgId])
  | _ => none

/-- The rest of `catched_tl`. -/
def callOnDone (S : Schema) (gunzip : Bytes → Gunzipped) (s : State) (i : Nat) : Option State :=
  match s.pc i with
  | .catching q msgId tl calls =>
    (onDoneArg S gunzip tl).map fun arg =>
      let called := if (s.recs q).onDone then [.called i q msgId arg] else []
      ((s.modify q fun r => { r with loop := r.loop && !stopsLoop tl, m := none }).emit
        called).setPc i (.handling calls)
  | _ => none

/-- The last locked section of `tg_run_queue`. -/
def leaveList (s : State) (i : Nat) : Option State :=
  match s.pc i with
  | .leaving =>
    some (((s.cut (s.recs i).msgid).modify i fun r => { r with alive := false }).setPc i .ended)
  | _ => none

/-- `tg_queue_cancell_queue` up to the unlocking of the list. -/
def cancelQueue (s : State) (j : Nat) (msgId : UInt64) : Option State :=
  match s.cancelling j, s.find msgId with
  | some _, _ => none
  | none, none => some s
  | none, some q =>
    match (s.recs q).m with
    | some _ => none
    | none =>
      some ((((s.cut msgId).modify q fun r => { r with m := some (.canceller j) }).setCancelling j
        (some q)).emit [.cancelled q])

/-- The rest of `tg_queue_cancell_queue`. -/
def stopQuery (s : State) (j : Nat) : Option State :=
  match s.cancelling j with
  | some q =>
    some ((s.modify q fun r => { r with loop := false, m := none }).setCancelling j none)
  | none => none

/-- `tg_queue_cancell_all`. -/
def cancelAll (s : State) : State :=
  { s with
    recs := fun q =>
      if q ∈ s.queue ∧ (s.recs q).m = none then { s.recs q with loop := false } else s.recs q
    queue := []
    log := s.queue.map .cancelled ++ s.log }

inductive Step where
  | tgQueueNew (i : Nat) (onDone : Bool)
  | openFails (i : Nat)
  | addToList (i : Nat)
  | tgSend (i : Nat) (ok : Bool) (msgId : UInt64)
  | loopTest (i : Nat)
  | tgReceive (i : Nat) (r : Received)
  | nextCall (i : Nat)
  | catchQueue (i : Nat)
  | callOnDone (i : Nat)
  | leaveList (i : Nat)
  | cancelQueue (j : Nat) (msgId : UInt64)
  | stopQuery (j : Nat)
  | cancelAll

def step (S : Schema) (gunzip : Bytes → Gunzipped) (s : State) : Step → Option State
  | .tgQueueNew i onDone => tgQueueNew s i onDone
  | .openFails i => openFails s i
  | .addToList i => addToList s i
  | .tgSend i ok msgId => tgSend s i ok msgId
  | .loopTest i => loopTest s i
  | .tgReceive i r => tgReceive S s i r
  | .nextCall i => nextCall S gunzip s i
  | .catchQueue i => catchQueue s i
  | .callOnDone i => callOnDone S gunzip s i
  | .leaveList i => leaveList s i
  | .cancelQueue j msgId => cancelQueue s j msgId
  | .stopQuery j => stopQuery s j
  | .cancelAll => some (cancelAll s)

/-- No query yet. -/
def State.init : State where
  recs _ := ⟨false, false, 0, none, false⟩
  pc _ := .unborn
  cancelling _ := none
  queue := []
  log := []

/-! ## What a step does -/

variable {S : Schema} {gunzip : Bytes → Gunzipped} {s t : State} {i j : Nat}

theorem tgQueueNew_spec {onDone : Bool} (h : tgQueueNew s i onDone = some t) :
    s.pc i = .unborn ∧
      t = (s.modify i fun _ => ⟨true, onDone, 0, none, true⟩).setPc i .opening := by
  unfold tgQueueNew at h
  split at h
  · exact ⟨‹_›, (Option.some.inj h).symm⟩
  · cases h

theorem openFails_spec (h : openFails s i = some t) :
    s.pc i = .opening ∧ t = (s.modify i fun r => { r with alive := false }).setPc i .ended := by
  unfold openFails at h
  split at h
  · exact ⟨‹_›, (Option.some.inj h).symm⟩
  · cases h

theorem addToList_spec (h : addToList s i = some t) :
    s.pc i = .opening ∧ t = { s with queue := i :: s.queue }.setPc i .sending := by
  unfold addToList at h
  split at h
  · exact ⟨‹_›, (Option.some.inj h).symm⟩
  · cases h

theorem tgSend_spec {ok : Bool} {msgId : UInt64} (h : tgSend s i ok msgId = some t) :
    (s.pc i = .sending ∨ s.pc i = .resending) ∧ ∃ loop pc, (pc = .looping ∨ pc = .leaving) ∧
      t = ((s.modify i fun r => { r with msgid := msgId, loop := loop }).emit
        [.sent i msgId]).setPc i pc := by
  unfold tgSend at h
  split at h
  · exact ⟨.inl ‹_›, _, _, .inl rfl, (Option.some.inj h).symm⟩
  · refine ⟨.inr ‹_›, _, _, ?_, (Option.some.inj h).symm⟩
    split_ifs
    · exact .inl rfl
    · exact .inr rfl
  · cases h

theorem loopTest_spec (h : loopTest s i = some t) :
    s.pc i = .looping ∧ t = s.setPc i (if (s.recs i).loop then .receiving else .leaving) := by
  unfold loopTest at h
  split at h
  · exact ⟨‹_›, (Option.some.inj h).symm⟩
  · cases h

theorem tgReceive_spec {r : Received} (h : tgReceive S s i r = some t) :
    s.pc i = .receiving ∧ ∃ pc, t = s.setPc i pc ∧
      (pc = .leaving ∨ pc = .resending ∨ ∃ tl, pc = .handling [.handleTl tl]) := by
  unfold tgReceive at h
  split at h
  · exact ⟨‹_›, _, (Option.some.inj h).symm, .inl rfl⟩
  · exact ⟨‹_›, _, (Option.some.inj h).symm, .inl rfl⟩
  · refine ⟨‹_›, ?_⟩
    split at h
    · split_ifs at h
      · exact ⟨_, (Option.some.inj h).symm, .inr (.inl rfl)⟩
      · exact ⟨_, (Option.some.inj h).symm, .inr (.inr ⟨_, rfl⟩)⟩
    · cases h
  · cases h

/-- A call leaves a thread in `handle_tl` or returns to the loop; only the one of `handle_tl` itself
adds calls of `catched_tl`. -/
theorem nextCall_spec (h : nextCall S gunzip s i = some t) :
    (s.pc i = .handling [] ∧ t = s.setPc i .looping) ∨
    (∃ tl calls new, s.pc i = .handling (.handleTl tl :: calls) ∧
      handleTl gunzip tl = some new ∧
      t = (s.setPc i (.handling (new ++ calls))).emit [.handled i tl]) ∨
    ∃ call calls calls', s.pc i = .handling (call :: calls) ∧ t = s.setPc i (.handling calls') ∧
      ∀ msgId x, .catchedTl msgId x ∈ calls' → .catchedTl msgId x ∈ calls := by
  unfold nextCall at h
  split at h
  · exact .inl ⟨‹_›, (Option.some.inj h).symm⟩
  · rw [Option.map_eq_some_iff] at h
    obtain ⟨new, hnew, rfl⟩ := h
    exact .inr (.inl ⟨_, _, new, ‹_›, hnew, rfl⟩)
  · rw [Option.map_eq_some_iff] at h
    obtain ⟨r, -, rfl⟩ := h
    exact .inr (.inr ⟨_, _, _, ‹_›, rfl, fun _ _ hm => by simpa using hm⟩)
  · exact .inr (.inr ⟨_, _, _, ‹_›, (Option.some.inj h).symm, fun _ _ hm => hm⟩)
  · exact .inr (.inr ⟨_, _, _, ‹_›, (Option.some.inj h).symm, fun _ _ hm => hm⟩)
  · exact .inr (.inr ⟨_, _, _, ‹_›, (Option.some.inj h).symm, fun _ _ hm => hm⟩)
  · cases h

theorem catchQueue_spec (h : catchQueue s i = some t) :
    ∃ msgId tl calls, s.pc i = .handling (.catchedTl msgId tl :: calls) ∧
      ((s.find msgId = none ∧ t = s.setPc i (.handling calls)) ∨
        ∃ q, s.find msgId = some q ∧ (s.recs q).m = none ∧
          t = (((s.cut msgId).modify q fun r => { r with m := some (.thread i) }).setPc i
            (.catching q msgId tl calls)).emit [.took i q msgId]) := by
  unfold catchQueue at h
  split at h
  · refine ⟨_, _, _, ‹_›, ?_⟩
    split at h
    · exact .inl ⟨‹_›, (Option.some.inj h).symm⟩
    · split at h
      · cases h
      · exact .inr ⟨_, ‹_›, ‹_›, (Option.some.inj h).symm⟩
  · cases h

theorem callOnDone_spec (h : callOnDone S gunzip s i = some t) :
    ∃ q msgId tl calls arg, s.pc i = .catching q msgId tl calls ∧
      onDoneArg S gunzip tl = some arg ∧
      t = ((s.modify q fun r => { r with loop := r.loop && !stopsLoop tl, m := none }).emit
        (if (s.recs q).onDone then [.called i q msgId arg] else [])).setPc i
          (.handling calls) := by
  unfold callOnDone at h
  split at h
  · rw [Option.map_eq_some_iff] at h
    obtain ⟨arg, harg, rfl⟩ := h
    exact ⟨_, _, _, _, arg, ‹_›, harg, rfl⟩
  · cases h

theorem leaveList_spec (h : leaveList s i = some t) :
    s.pc i = .leaving ∧
      t = ((s.cut (s.recs i).msgid).modify i fun r => { r with alive := false }).setPc i
        .ended := by
  unfold leaveList at h
  split at h
  · exact ⟨‹_›, (Option.some.inj h).symm⟩
  · cases h

theorem cancelQueue_spec {msgId : UInt64} (h : cancelQueue s j msgId = some t) :
    s.cancelling j = none ∧ (t = s ∨ ∃ q, s.find msgId = some q ∧ (s.recs q).m = none ∧
      t = (((s.cut msgId).modify q fun r => { r with m := some (.canceller j) }).setCancelling j
        (some q)).emit [.cancelled q]) := by
  unfold cancelQueue at h
  split at h
  · cases h
  · exact ⟨‹_›, .inl (Option.some.inj h).symm⟩
  · refine ⟨‹_›, .inr ?_⟩
    split at h
    · cases h
    · exact ⟨_, ‹_›, ‹_›, (Option.some.inj h).symm⟩

theorem stopQuery_spec (h : stopQuery s j = some t) :
    ∃ q, s.cancelling j = some q ∧
      t = (s.modify q fun r => { r with loop := false, m := none }).setCancelling j none := by
  unfold stopQuery at h
  split at h
  · exact ⟨_, ‹_›, (Option.some.inj h).symm⟩
  · cases h

end Libtg
