import Libtg.Tg.QueueOwned

/-!
# What `on_done` is called for

The log of a run says of each call of `on_done` that it is the first of its query, that no cancel
has taken the query before, and that the query was found by a thread handling an answer to the msgid
the query then had. The locks do not keep the query's own thread from sending it again, under
another msgid, between the finding and the call; they do where `catched_tl` is one step, from its
first lock to its last unlock (`atomicStep`).
-/

namespace Libtg

open Transition State

/-- The id of the query's last `tg_send`, and 0 before the first. -/
def currentMsgid (q : Nat) : List Event → UInt64
  | [] => 0
  | .sent q' msgId :: past => if q' = q then msgId else currentMsgid q past
  | _ :: past => currentMsgid q past

/-- What holds of an event, given the events before it. -/
def EventOk (past : List Event) : Event → Prop
  | .took i q msgId =>
    Untouched q past ∧ currentMsgid q past = msgId ∧
      ∃ tl, .handled i tl ∈ past ∧ Answers tl msgId
  | .called i q msgId _ => Pending i q msgId past
  | _ => True

/-- The events a step can add to the log. -/
def Step.Emits : Step → Event → Prop
  | .tgSend i _ msgId, e => e = .sent i msgId
  | .nextCall i, e => ∃ tl, e = .handled i tl
  | .catchQueue i, e => ∃ q msgId, e = .took i q msgId
  | .callOnDone i, e => ∃ q msgId arg, e = .called i q msgId arg
  | .cancelQueue _ _, e => ∃ q, e = .cancelled q
  | .cancelAll, e => ∃ q, e = .cancelled q
  | _, _ => False

variable {S : Schema} {gunzip : Bytes → Gunzipped} {s t : State} {i j q : Nat} {msgId : UInt64}
  {log new past : List Event}

theorem step_emits {l : Step} (h : step S gunzip s l = some t) :
    ∃ new, t.log = new ++ s.log ∧ ∀ e ∈ new, l.Emits e := by
  cases l with
  | tgQueueNew i onDone =>
    obtain ⟨-, rfl⟩ := tgQueueNew_spec h
    exact ⟨[], rfl, nofun⟩
  | openFails i =>
    obtain ⟨-, rfl⟩ := openFails_spec h
    exact ⟨[], rfl, nofun⟩
  | addToList i =>
    obtain ⟨-, rfl⟩ := addToList_spec h
    exact ⟨[], rfl, nofun⟩
  | tgSend i ok msgId =>
    obtain ⟨-, loop, pc, -, rfl⟩ := tgSend_spec h
    exact ⟨_, rfl, fun e he => List.mem_singleton.mp he⟩
  | loopTest i =>
    obtain ⟨-, rfl⟩ := loopTest_spec h
    exact ⟨[], rfl, nofun⟩
  | tgReceive i r =>
    obtain ⟨-, pc, rfl, -⟩ := tgReceive_spec h
    exact ⟨[], rfl, nofun⟩
  | nextCall i =>
    obtain ⟨-, rfl⟩ | ⟨tl, calls, new, -, -, rfl⟩ | ⟨call, calls, calls', -, rfl, -⟩ :=
      nextCall_spec h
    · exact ⟨[], rfl, nofun⟩
    · exact ⟨_, rfl, fun e he => ⟨tl, List.mem_singleton.mp he⟩⟩
    · exact ⟨[], rfl, nofun⟩
  | catchQueue i =>
    obtain ⟨msgId, tl, calls, -, ⟨-, rfl⟩ | ⟨q, -, -, rfl⟩⟩ := catchQueue_spec h
    · exact ⟨[], rfl, nofun⟩
    · exact ⟨_, rfl, fun e he => ⟨q, msgId, List.mem_singleton.mp he⟩⟩
  | callOnDone i =>
    obtain ⟨q, msgId, tl, calls, arg, -, -, rfl⟩ := callOnDone_spec h
    refine ⟨_, rfl, fun e he => ⟨q, msgId, arg, ?_⟩⟩
    split_ifs at he
    · exact List.mem_singleton.mp he
    · cases he
  | leaveList i =>
    obtain ⟨-, rfl⟩ := leaveList_spec h
    exact ⟨[], rfl, nofun⟩
  | cancelQueue j msgId =>
    obtain ⟨-, rfl | ⟨q, -, -, rfl⟩⟩ := cancelQueue_spec h
    · exact ⟨[], rfl, nofun⟩
    · exact ⟨_, rfl, fun e he => ⟨q, List.mem_singleton.mp he⟩⟩
  | stopQuery j =>
    obtain ⟨q, -, rfl⟩ := stopQuery_spec h
    exact ⟨[], rfl, nofun⟩
  | cancelAll =>
    cases h
    refine ⟨s.queue.map .cancelled, rfl, fun e he => ?_⟩
    obtain ⟨q, -, rfl⟩ := List.mem_map.mp he
    exact ⟨q, rfl⟩

/-! ## The msgids of the records -/

structure Sent (s : State) : Prop where
  msgid : ∀ q, (s.recs q).msgid = currentMsgid q s.log
  unborn : ∀ q, s.pc q = .unborn → currentMsgid q s.log = 0

theorem currentMsgid_append (hnew : ∀ e ∈ new, ∀ msgId, e ≠ .sent q msgId) :
    currentMsgid q (new ++ log) = currentMsgid q log := by
  induction new with
  | nil => rfl
  | cons e new ih =>
    have hrest := ih fun e' he' => hnew e' (List.mem_cons_of_mem _ he')
    cases e with
    | sent q' msgId =>
      have hq' : q' ≠ q := fun hq' => hnew _ List.mem_cons_self msgId (by rw [hq'])
      rw [List.cons_append, currentMsgid, if_neg hq', hrest]
    | _ => exact hrest

/-- A step other than `tg_send` and the creation of a record. -/
theorem Sent.of_same {l : Step} (hs : Sent s) (h : step S gunzip s l = some t)
    (hl : ∀ q msgId, ¬ l.Emits (.sent q msgId))
    (hm : ∀ q, (t.recs q).msgid = (s.recs q).msgid)
    (hpc : ∀ q, t.pc q = .unborn → s.pc q = .unborn) : Sent t := by
  obtain ⟨new, hlog, hnew⟩ := step_emits h
  have hcur : ∀ q, currentMsgid q t.log = currentMsgid q s.log := fun q => by
    rw [hlog]
    refine currentMsgid_append fun e he msgId hsent => hl q msgId ?_
    rw [← hsent]
    exact hnew e he
  exact ⟨fun q => by rw [hm, hcur, hs.msgid], fun q hq => by rw [hcur, hs.unborn q (hpc q hq)]⟩

/-- Where a thread goes on, it is not unborn. -/
theorem unborn_update {pc : Pc} (hpc : pc ≠ .unborn) (q : Nat)
    (h : Function.update s.pc i pc q = .unborn) : s.pc q = .unborn := by
  rw [Function.update_apply] at h
  split_ifs at h
  · exact absurd h hpc
  · exact h

theorem sent_step {l : Step} (hs : Sent s) (h : step S gunzip s l = some t) : Sent t := by
  have h' := h
  cases l with
  | tgQueueNew i onDone =>
    obtain ⟨hpc, rfl⟩ := tgQueueNew_spec h
    have hzero : (s.recs i).msgid = 0 := by rw [hs.msgid, hs.unborn i hpc]
    exact hs.of_same h' nofun (field_update (·.msgid) hzero.symm) (unborn_update nofun)
  | openFails i =>
    obtain ⟨-, rfl⟩ := openFails_spec h
    exact hs.of_same h' nofun (field_update (·.msgid) rfl) (unborn_update nofun)
  | addToList i =>
    obtain ⟨-, rfl⟩ := addToList_spec h
    exact hs.of_same h' nofun (fun _ => rfl) (unborn_update nofun)
  | tgSend i ok msgId =>
    obtain ⟨hpc, loop, pc, hpc', rfl⟩ := tgSend_spec h
    have hne : pc ≠ .unborn := by rcases hpc' with rfl | rfl <;> nofun
    refine ⟨fun q => ?_, fun q hq => ?_⟩
    · by_cases hq : q = i
      · subst hq
        simp [currentMsgid]
      · have hsent : currentMsgid q (.sent i msgId :: s.log) = currentMsgid q s.log :=
          if_neg (Ne.symm hq)
        simp [hq, hsent, hs.msgid]
    · have hold : s.pc q = .unborn := unborn_update hne q hq
      have hqi : i ≠ q := by
        rintro rfl
        rw [hold] at hpc
        rcases hpc with hpc | hpc <;> cases hpc
      exact (if_neg hqi).trans (hs.unborn q hold)
  | loopTest i =>
    obtain ⟨-, rfl⟩ := loopTest_spec h
    exact hs.of_same h' nofun (fun _ => rfl) (unborn_update (by split_ifs <;> nofun))
  | tgReceive i r =>
    obtain ⟨-, pc, rfl, hpc⟩ := tgReceive_spec h
    refine hs.of_same h' nofun (fun _ => rfl) (unborn_update ?_)
    rcases hpc with rfl | rfl | ⟨tl, rfl⟩ <;> nofun
  | nextCall i =>
    obtain ⟨-, rfl⟩ | ⟨tl, calls, new, -, -, rfl⟩ | ⟨call, calls, calls', -, rfl, -⟩ :=
      nextCall_spec h <;>
      exact hs.of_same h' (fun _ _ h => by obtain ⟨_, h⟩ := h; cases h) (fun _ => rfl)
        (unborn_update nofun)
  | catchQueue i =>
    have hl : ∀ q msgId, ¬ (Step.catchQueue i).Emits (.sent q msgId) := by
      rintro q msgId ⟨_, _, h⟩
      cases h
    obtain ⟨msgId, tl, calls, -, ⟨-, rfl⟩ | ⟨q, -, -, rfl⟩⟩ := catchQueue_spec h
    · exact hs.of_same h' hl (fun _ => rfl) (unborn_update nofun)
    · exact hs.of_same h' hl (field_update (·.msgid) rfl) (unborn_update nofun)
  | callOnDone i =>
    obtain ⟨q, msgId, tl, calls, arg, -, -, rfl⟩ := callOnDone_spec h
    refine hs.of_same h' ?_ (field_update (·.msgid) rfl) (unborn_update nofun)
    rintro q msgId ⟨_, _, _, h⟩
    cases h
  | leaveList i =>
    obtain ⟨-, rfl⟩ := leaveList_spec h
    exact hs.of_same h' nofun (field_update (·.msgid) rfl) (unborn_update nofun)
  | cancelQueue j msgId =>
    obtain ⟨-, rfl | ⟨q, -, -, rfl⟩⟩ := cancelQueue_spec h
    · exact hs
    · refine hs.of_same h' ?_ (field_update (·.msgid) rfl) fun _ h => h
      rintro q msgId ⟨_, h⟩
      cases h
  | stopQuery j =>
    obtain ⟨q, -, rfl⟩ := stopQuery_spec h
    exact hs.of_same h' nofun (field_update (·.msgid) rfl) fun _ h => h
  | cancelAll =>
    cases h
    refine hs.of_same h' ?_ (fun q => ?_) fun _ h => h
    · rintro q msgId ⟨_, h⟩
      cases h
    · simp only [cancelAll]
      split_ifs <;> rfl

/-! ## The calls still to make -/

def Pc.calls : Pc → List Call
  | .handling calls => calls
  | .catching _ _ _ calls => calls
  | _ => []

/-- Each `catched_tl` to come is for an answer the thread has handled. -/
def Answered (s : State) : Prop :=
  ∀ i msgId x, .catchedTl msgId x ∈ (s.pc i).calls →
    ∃ tl, .handled i tl ∈ s.log ∧ Answers tl msgId

/-- A thread goes on with calls it had. -/
theorem Answered.of_sub {l : Step} (hs : Answered s) (h : step S gunzip s l = some t)
    (hpc : ∀ i msgId x, .catchedTl msgId x ∈ (t.pc i).calls →
      .catchedTl msgId x ∈ (s.pc i).calls) : Answered t := by
  obtain ⟨new, hlog, -⟩ := step_emits h
  intro i msgId x hx
  obtain ⟨tl, hmem, hans⟩ := hs i msgId x (hpc i msgId x hx)
  exact ⟨tl, hlog ▸ List.mem_append_right _ hmem, hans⟩

theorem calls_update {pc pc' : Pc} (hi : s.pc i = pc')
    (hpc : ∀ msgId x, .catchedTl msgId x ∈ pc.calls → .catchedTl msgId x ∈ pc'.calls)
    (i' : Nat) (msgId : UInt64) (x : Tl)
    (h : .catchedTl msgId x ∈ (Function.update s.pc i pc i').calls) :
    .catchedTl msgId x ∈ (s.pc i').calls := by
  rw [Function.update_apply] at h
  split_ifs at h with hi'
  · rw [hi', hi]
    exact hpc msgId x h
  · exact h

theorem answered_step {l : Step} (hs : Answered s) (h : step S gunzip s l = some t) :
    Answered t := by
  have h' := h
  cases l with
  | tgQueueNew i onDone =>
    obtain ⟨-, rfl⟩ := tgQueueNew_spec h
    exact hs.of_sub h' (calls_update rfl nofun)
  | openFails i =>
    obtain ⟨-, rfl⟩ := openFails_spec h
    exact hs.of_sub h' (calls_update rfl nofun)
  | addToList i =>
    obtain ⟨-, rfl⟩ := addToList_spec h
    exact hs.of_sub h' (calls_update rfl nofun)
  | tgSend i ok msgId =>
    obtain ⟨-, loop, pc, hpc, rfl⟩ := tgSend_spec h
    refine hs.of_sub h' (calls_update rfl ?_)
    rcases hpc with rfl | rfl <;> nofun
  | loopTest i =>
    obtain ⟨-, rfl⟩ := loopTest_spec h
    exact hs.of_sub h' (calls_update rfl (by split_ifs <;> nofun))
  | tgReceive i r =>
    obtain ⟨-, pc, rfl, hpc⟩ := tgReceive_spec h
    refine hs.of_sub h' (calls_update rfl ?_)
    rcases hpc with rfl | rfl | ⟨tl, rfl⟩
    · nofun
    · nofun
    · simp [Pc.calls]
  | nextCall i =>
    obtain ⟨-, rfl⟩ | ⟨tl, calls, new, hpc, hnew, rfl⟩ | ⟨call, calls, calls', hpc, rfl, hsub⟩ :=
      nextCall_spec h
    · exact hs.of_sub h' (calls_update rfl nofun)
    · intro i' msgId x hx
      rw [emit_pc, setPc_pc, Function.update_apply] at hx
      split_ifs at hx with hi
      · subst hi
        rcases List.mem_append.mp hx with hx | hx
        · exact ⟨tl, List.mem_cons_self, (handleTl_calls hnew).1 msgId x hx⟩
        · obtain ⟨tl', hmem, hans⟩ := hs i' msgId x (by
            rw [hpc]
            exact List.mem_cons_of_mem _ hx)
          exact ⟨tl', List.mem_cons_of_mem _ hmem, hans⟩
      · obtain ⟨tl', hmem, hans⟩ := hs i' msgId x hx
        exact ⟨tl', List.mem_cons_of_mem _ hmem, hans⟩
    · exact hs.of_sub h' (calls_update hpc fun msgId x hx =>
        List.mem_cons_of_mem _ (hsub msgId x hx))
  | catchQueue i =>
    obtain ⟨msgId, tl, calls, hpc, ⟨-, rfl⟩ | ⟨q, -, -, rfl⟩⟩ := catchQueue_spec h <;>
      exact hs.of_sub h' (calls_update hpc fun _ _ hx => List.mem_cons_of_mem _ hx)
  | callOnDone i =>
    obtain ⟨q, msgId, tl, calls, arg, hpc, -, rfl⟩ := callOnDone_spec h
    exact hs.of_sub h' (calls_update hpc fun _ _ hx => hx)
  | leaveList i =>
    obtain ⟨-, rfl⟩ := leaveList_spec h
    exact hs.of_sub h' (calls_update rfl nofun)
  | cancelQueue j msgId =>
    obtain ⟨-, rfl | ⟨q, -, -, rfl⟩⟩ := cancelQueue_spec h
    · exact hs
    · exact hs.of_sub h' fun _ _ _ hx => hx
  | stopQuery j =>
    obtain ⟨q, -, rfl⟩ := stopQuery_spec h
    exact hs.of_sub h' fun _ _ _ hx => hx
  | cancelAll =>
    cases h
    exact hs.of_sub h' fun _ _ _ hx => hx

/-! ## The log of a run -/

structure Inv (s : State) : Prop where
  owned : Owned s
  sent : Sent s
  answered : Answered s
  log : Chronicle EventOk s.log

/-- Events of which `EventOk` says nothing. -/
theorem chronicle_of_ok (h : Chronicle EventOk log) (hnew : ∀ e ∈ new, ∀ past, EventOk past e) :
    Chronicle EventOk (new ++ log) :=
  h.append fun post past e he => hnew e (by rw [he]; simp) _

theorem chronicle_step {l : Step} (hs : Inv s) (h : step S gunzip s l = some t) :
    Chronicle EventOk t.log := by
  have h' := h
  cases l with
  | catchQueue i =>
    obtain ⟨msgId, tl, calls, hpc, ⟨-, rfl⟩ | ⟨q, hq, -, rfl⟩⟩ := catchQueue_spec h
    · exact hs.log
    · obtain ⟨hmsgid, hfresh, -, -⟩ := hs.owned.found hq
      refine ⟨⟨hfresh.2, (hs.sent.msgid q).symm.trans hmsgid, ?_⟩, hs.log⟩
      exact hs.answered i msgId tl (by rw [hpc]; exact List.mem_cons_self)
  | callOnDone i =>
    obtain ⟨q, msgId, tl, calls, arg, hpc, -, rfl⟩ := callOnDone_spec h
    rw [setPc_log, emit_log, modify_log]
    split_ifs
    · exact ⟨(hs.owned.catching i q msgId tl calls hpc).2, hs.log⟩
    · exact hs.log
  | _ =>
    obtain ⟨new, hlog, hnew⟩ := step_emits h'
    rw [hlog]
    refine chronicle_of_ok hs.log fun e he past => ?_
    have hemit := hnew e he
    cases e with
    | took | called => simp [Step.Emits] at hemit
    | _ => trivial

theorem inv_init : Inv .init where
  owned := owned_init
  sent := ⟨fun _ => rfl, fun _ _ => rfl⟩
  answered := nofun
  log := trivial

theorem inv_step {l : Step} (hs : Inv s) (h : step S gunzip s l = some t) : Inv t :=
  ⟨owned_step hs.owned h, sent_step hs.sent h, answered_step hs.answered h, chronicle_step hs h⟩

theorem inv_reach {ok : State → Step → Prop} (h : Reach (step S gunzip) ok .init s) : Inv s :=
  h.invariant inv_init fun _ _ _ hs _ hstep => inv_step hs hstep

/-! ## `catched_tl` as one step -/

/-- The steps with `catched_tl` and `tg_queue_cancell_queue` as one step each. -/
def atomicStep (S : Schema) (gunzip : Bytes → Gunzipped) (s : State) : Step → Option State
  | .catchQueue i => do
    let s ← catchQueue s i
    match s.pc i with
    | .catching _ _ _ _ => callOnDone S gunzip s i
    | _ => return s
  | .callOnDone _ => none
  | .cancelQueue j msgId => do
    let s ← cancelQueue s j msgId
    if (s.cancelling j).isSome then stopQuery s j else return s
  | .stopQuery _ => none
  | l => step S gunzip s l

/-- Such a step is one of the finer steps, or the two of `catched_tl` or of
`tg_queue_cancell_queue`. -/
theorem atomicStep_spec {l : Step} (h : atomicStep S gunzip s l = some t) :
    (step S gunzip s l = some t ∧ ∀ i, l ≠ .callOnDone i) ∨
    (∃ i u, catchQueue s i = some u ∧ callOnDone S gunzip u i = some t) ∨
    ∃ j msgId u, cancelQueue s j msgId = some u ∧ stopQuery u j = some t := by
  cases l with
  | catchQueue i =>
    simp only [atomicStep, Option.bind_eq_bind, Option.bind_eq_some_iff] at h
    obtain ⟨u, hu, h⟩ := h
    split at h
    · exact .inr (.inl ⟨i, u, hu, h⟩)
    · cases h
      exact .inl ⟨hu, nofun⟩
  | cancelQueue j msgId =>
    simp only [atomicStep, Option.bind_eq_bind, Option.bind_eq_some_iff] at h
    obtain ⟨u, hu, h⟩ := h
    split_ifs at h
    · exact .inr (.inr ⟨j, msgId, u, hu, h⟩)
    · cases h
      exact .inl ⟨hu, nofun⟩
  | callOnDone i => cases h
  | stopQuery j => cases h
  | _ => exact .inl ⟨h, nofun⟩

theorem reach_atomicStep {l : Step} (h : atomicStep S gunzip s l = some t) :
    Reach (step S gunzip) Any s t := by
  obtain ⟨h, -⟩ | ⟨i, u, hu, h⟩ | ⟨j, msgId, u, hu, h⟩ := atomicStep_spec h
  · exact .single trivial h
  · exact .step (l := .callOnDone i) (.single (l := .catchQueue i) trivial hu) trivial h
  · exact .step (l := .stopQuery j) (.single (l := .cancelQueue j msgId) trivial hu) trivial h

/-- `on_done` is called under the query's current msgid. -/
def CurrentOk (past : List Event) : Event → Prop
  | .called _ q msgId _ => currentMsgid q past = msgId
  | _ => True

/-- Only the step that calls `on_done` has to be looked at. -/
theorem currentOk_step {l : Step} (hlog : Chronicle CurrentOk s.log)
    (h : step S gunzip s l = some t) (hl : ∀ i, l ≠ .callOnDone i) :
    Chronicle CurrentOk t.log := by
  obtain ⟨new, hnew, hemit⟩ := step_emits h
  rw [hnew]
  refine hlog.append fun post past e he => ?_
  cases e with
  | called i q msgId arg =>
    have hcalled := hemit (.called i q msgId arg) (by rw [he]; simp)
    cases l with
    | callOnDone i => exact absurd rfl (hl i)
    | _ => simp [Step.Emits] at hcalled
  | _ => trivial

theorem currentOk_atomicStep {l : Step} (hs : Inv s) (hlog : Chronicle CurrentOk s.log)
    (h : atomicStep S gunzip s l = some t) : Chronicle CurrentOk t.log := by
  obtain ⟨h, hl⟩ | ⟨i, u, hu, h⟩ | ⟨j, msgId, u, hu, h⟩ := atomicStep_spec h
  · exact currentOk_step hlog h hl
  · obtain ⟨q', msgId', tl', calls', arg, hpc', -, rfl⟩ := callOnDone_spec h
    obtain ⟨msgId, tl, calls, -, ⟨-, rfl⟩ | ⟨q, hq, -, rfl⟩⟩ := catchQueue_spec hu
    · rw [setPc_pc, Function.update_self] at hpc'
      cases hpc'
    · rw [emit_pc, setPc_pc, Function.update_self] at hpc'
      cases hpc'
      have hcur : currentMsgid q' (.took i q' msgId' :: s.log) = msgId' :=
        (hs.sent.msgid q').symm.trans (hs.owned.found hq).1
      rw [setPc_log, emit_log, modify_log]
      split_ifs
      · exact ⟨hcur, trivial, hlog⟩
      · exact ⟨trivial, hlog⟩
  · have hulog := currentOk_step hlog
      (show step S gunzip s (.cancelQueue j msgId) = some u from hu) nofun
    exact currentOk_step hulog (show step S gunzip u (.stopQuery j) = some t from h) nofun

/-! ## The property -/

/-- A call of `on_done` after `past`: the first of the query, which no cancel has taken, by the
thread that found the query under its msgid for an answer it had handled. -/
structure Invoked (past : List Event) (i q : Nat) (msgId : UInt64) : Prop where
  once : ∀ i' msgId' arg, .called i' q msgId' arg ∉ past
  uncancelled : .cancelled q ∉ past
  answer : ∃ since before, past = since ++ .took i q msgId :: before ∧
    currentMsgid q before = msgId ∧ ∃ tl, .handled i tl ∈ before ∧ Answers tl msgId

def OnDoneSafe (log : List Event) : Prop :=
  ∀ post past i q msgId arg, log = post ++ .called i q msgId arg :: past → Invoked past i q msgId

/-- `on_done` is called under the msgid the query has at the call. -/
def OnDoneCurrent (log : List Event) : Prop :=
  ∀ post past i q msgId arg, log = post ++ .called i q msgId arg :: past →
    currentMsgid q past = msgId

theorem invoked_of_chronicle (h : Chronicle EventOk log) : OnDoneSafe log := by
  rintro post past i q msgId arg rfl
  obtain ⟨⟨htook, hfinish⟩, hpast⟩ := h.at
  obtain ⟨since, before, rfl, -, hcur, hans⟩ := hpast.of_mem htook
  exact ⟨fun i' msgId' arg' hmem => hfinish _ hmem rfl, fun hmem => hfinish _ hmem rfl,
    since, before, rfl, hcur, hans⟩

/-- In every run each call of `on_done` is an `Invoked` one, and where `catched_tl` is one step it
is made under the query's current msgid. -/
theorem onDone_safe (S : Schema) (gunzip : Bytes → Gunzipped) :
    (∀ s, Reach (step S gunzip) Any .init s → OnDoneSafe s.log) ∧
      ∀ s, Reach (atomicStep S gunzip) Any .init s → OnDoneSafe s.log ∧ OnDoneCurrent s.log := by
  have hinv : ∀ s, Reach (atomicStep S gunzip) Any .init s → Inv s := fun s hs => by
    have hfine : Reach (step S gunzip) Any .init s := hs.refine fun _ _ _ => reach_atomicStep
    exact inv_reach hfine
  refine ⟨fun s hs => invoked_of_chronicle (inv_reach hs).log, fun s hs =>
    ⟨invoked_of_chronicle (hinv s hs).log, ?_⟩⟩
  have hcurrent : Chronicle CurrentOk s.log :=
    hs.invariant_of_reach (I := fun s => Chronicle CurrentOk s.log)
      (show Chronicle CurrentOk State.init.log from trivial)
      fun s l t hreach hlog _ hstep => currentOk_atomicStep (hinv s hreach) hlog hstep
  intro post past i q msgId arg hlog
  rw [hlog] at hcurrent
  exact hcurrent.at.1

end Libtg
