import Libtg.Tg.QueueAnswers

/-!
# An answer completes its query

`handle_tl` of an `rpc_result` for a listed query takes the query out of the list, calls its
`on_done` and unlocks it, whatever the result is. It clears the query's `loop` in each exit of
`catched_tl` but the one for a result the decoder left `NULL`, where the thread of the query goes on
reading (`completes_iff`).
-/

namespace Libtg

open Transition State

/-- The object a thread is about to hand to `handle_tl`. -/
def State.nextObject (s : State) (i : Nat) : Option Tl :=
  match s.pc i with
  | .handling (.handleTl tl :: _) => some tl
  | _ => none

/-- `handle_tl` of an `rpc_result`, with its call of `catched_tl`. -/
def handleRpcResult (S : Schema) (gunzip : Bytes → Gunzipped) (s : State) (i : Nat) :
    Option State := do
  let s ← nextCall S gunzip s i
  let s ← catchQueue s i
  callOnDone S gunzip s i

def Event.isCall (q : Nat) : Event → Bool
  | .called _ q' _ _ => q' == q
  | _ => false

/-- `on_done` was called once, if there is one, and the query is out of the list, unlocked and told
to stop. -/
structure Completed (s : State) (q : Nat) : Prop where
  called : s.log.countP (Event.isCall q) = if (s.recs q).onDone then 1 else 0
  unlisted : q ∉ s.queue
  unlocked : (s.recs q).m = none
  stopped : (s.recs q).loop = false

/-- Every `rpc_result` for a listed query completes it. -/
def AnswerCompletes (S : Schema) (gunzip : Bytes → Gunzipped) : Prop :=
  ∀ s, Reach (step S gunzip) Any .init s → ∀ i q tl, q ∈ s.queue → s.nextObject i = some tl →
    tl.id = idRpcResult → tl.reqMsgId = (s.recs q).msgid →
      ∃ t, handleRpcResult S gunzip s i = some t ∧ Completed t q

variable {S : Schema} {gunzip : Bytes → Gunzipped} {s t : State} {i q : Nat} {tl : Tl}

theorem nextObject_eq_some (h : s.nextObject i = some tl) :
    ∃ calls, s.pc i = .handling (.handleTl tl :: calls) := by
  unfold nextObject at h
  split at h
  · cases h
    exact ⟨_, ‹_›⟩
  · cases h

theorem stopsLoop_eq_false : stopsLoop tl = false ↔ tl = .null := by
  cases tl <;> simp [stopsLoop]

/-! ## One `rpc_result` -/

variable {calls : List Call}

theorem nextCall_rpcResult (hpc : s.pc i = .handling (.handleTl tl :: calls))
    (hid : tl.id = idRpcResult) :
    nextCall S gunzip s i =
      some ((s.setPc i (.handling (.catchedTl tl.reqMsgId tl.result :: calls))).emit
        [.handled i tl]) := by
  simp [nextCall, hpc, handleTl_rpcResult hid]

theorem handleRpcResult_isSome (hs : Owned s)
    (hpc : s.pc i = .handling (.handleTl tl :: calls)) (hid : tl.id = idRpcResult)
    (hfind : s.find tl.reqMsgId = some q) :
    (handleRpcResult S gunzip s i).isSome ↔ (onDoneArg S gunzip tl.result).isSome := by
  have hfree : (s.recs q).m = none := (hs.found hfind).2.1.1
  have hfind' : ((s.setPc i (.handling (.catchedTl tl.reqMsgId tl.result :: calls))).emit
      [.handled i tl]).find tl.reqMsgId = some q := hfind
  simp [handleRpcResult, nextCall_rpcResult hpc hid, catchQueue, hfind', hfree, callOnDone]

/-- What it leaves of the query that `list_cut` found. -/
theorem handleRpcResult_spec (hpc : s.pc i = .handling (.handleTl tl :: calls))
    (hid : tl.id = idRpcResult) (hfind : s.find tl.reqMsgId = some q)
    (h : handleRpcResult S gunzip s i = some t) :
    t.queue = s.queue.eraseP (s.cmpMsgid tl.reqMsgId) ∧ (t.recs q).m = none ∧
      (t.recs q).loop = ((s.recs q).loop && !stopsLoop tl.result) ∧
      (t.recs q).onDone = (s.recs q).onDone ∧
      t.log.countP (Event.isCall q) =
        s.log.countP (Event.isCall q) + if (s.recs q).onDone then 1 else 0 := by
  simp only [handleRpcResult, nextCall_rpcResult hpc hid, Option.bind_eq_bind, Option.bind_some,
    Option.bind_eq_some_iff] at h
  obtain ⟨u, hu, ht⟩ := h
  obtain ⟨msgId, x, rest, hcall, hfound⟩ := catchQueue_spec hu
  rw [emit_pc, setPc_pc, Function.update_self] at hcall
  cases hcall
  obtain ⟨hnone, -⟩ | ⟨q', hq', -, rfl⟩ := hfound
  · cases hfind.symm.trans hnone
  · cases hfind.symm.trans hq'
    obtain ⟨q', msgId, x, rest, arg, hcatch, -, rfl⟩ := callOnDone_spec ht
    rw [emit_pc, setPc_pc, Function.update_self] at hcatch
    cases hcatch
    refine ⟨rfl, by simp, by simp, by simp, ?_⟩
    cases hdone : (s.recs q).onDone <;> simp [hdone, Event.isCall]

theorem countP_isCall {log : List Event} (h : Untouched q log) :
    log.countP (Event.isCall q) = 0 := by
  rw [List.countP_eq_zero]
  intro e he hcall
  refine h e he ?_
  cases e with
  | called i q' msgId arg => exact beq_iff_eq.mp hcall
  | _ => cases hcall

/-! ## The property -/

/-- The query is completed exactly if `list_cut` comes to it first, a compressed answer ends where
its object ends, and the answer is not `NULL` or the query was told to stop before. -/
theorem completes_iff (S : Schema) (gunzip : Bytes → Gunzipped) (s : State)
    (hs : Reach (step S gunzip) Any .init s) (i q : Nat) (tl : Tl) (hq : q ∈ s.queue)
    (htl : s.nextObject i = some tl) (hid : tl.id = idRpcResult)
    (hmsgid : tl.reqMsgId = (s.recs q).msgid) :
    (∃ t, handleRpcResult S gunzip s i = some t ∧ Completed t q) ↔
      s.find tl.reqMsgId = some q ∧ (onDoneArg S gunzip tl.result).isSome ∧
        (tl.result ≠ .null ∨ (s.recs q).loop = false) := by
  have howned := owned_reach hs
  obtain ⟨calls, hpc⟩ := nextObject_eq_some htl
  obtain ⟨q', hq'⟩ : ∃ q', s.find tl.reqMsgId = some q' := by
    rw [← Option.isSome_iff_exists, find, List.find?_isSome]
    exact ⟨q, hq, beq_iff_eq.mpr hmsgid⟩
  constructor
  · rintro ⟨t, ht, hdone⟩
    obtain ⟨hqueue, -, hloop, -⟩ := handleRpcResult_spec hpc hid hq' ht
    obtain rfl : q' = q := by
      by_contra hne
      refine hdone.unlisted ?_
      rw [hqueue]
      exact mem_eraseP_of_find? hq fun h => hne (Option.some.inj (hq'.symm.trans h))
    refine ⟨hq', ?_, ?_⟩
    · rw [← handleRpcResult_isSome howned hpc hid hq', ht]
      rfl
    · rw [hdone.stopped, eq_comm, Bool.and_eq_false_iff] at hloop
      rcases hloop with hloop | hstop
      · exact .inr hloop
      · refine .inl fun hnull => ?_
        rw [hnull] at hstop
        cases hstop
  · rintro ⟨hfind, harg, hstop⟩
    obtain ⟨t, ht⟩ := Option.isSome_iff_exists.mp
      ((handleRpcResult_isSome howned hpc hid hfind).mpr harg)
    obtain ⟨hqueue, hm, hloop, hdone, hcalls⟩ := handleRpcResult_spec hpc hid hfind ht
    have hfound := howned.found hfind
    refine ⟨t, ht, ?_, ?_, hm, ?_⟩
    · rw [hcalls, hdone, countP_isCall hfound.2.1.2, Nat.zero_add]
    · rw [hqueue]
      exact hfound.2.2.2
    · rw [hloop, Bool.and_eq_false_iff]
      rcases hstop with hresult | hstop
      · refine .inr ?_
        rw [Bool.not_eq_false', ← Bool.not_eq_false, stopsLoop_eq_false]
        exact hresult
      · exact .inl hstop

/-- A query whose answer is of a constructor the decoder does not know. -/
def unknownAnswer : List Step :=
  [.tgQueueNew 0 true, .addToList 0, .tgSend 0 true 5, .loopTest 0,
    .tgReceive 0 (.message (LittleEndian.le32 idRpcResult ++ LittleEndian.le64 5 ++
      LittleEndian.le32 0xdeadbeef))]

theorem unknownAnswer_state :
    ∃ s tl, Reach (step [rpcResult] fun b => ⟨false, b⟩) Any .init s ∧ 0 ∈ s.queue ∧
      s.nextObject 0 = some tl ∧ tl.id = idRpcResult ∧ tl.reqMsgId = (s.recs 0).msgid ∧
      (handleRpcResult [rpcResult] (fun b => ⟨false, b⟩) s 0).map (fun t => (t.recs 0).loop) =
        some true := by
  have hrun : ((unknownAnswer.foldlM (step [rpcResult] fun b => ⟨false, b⟩) .init).bind fun s =>
      (s.nextObject 0).map fun tl => (s.queue, tl.id, tl.reqMsgId, (s.recs 0).msgid,
        (handleRpcResult [rpcResult] (fun b => ⟨false, b⟩) s 0).map fun t => (t.recs 0).loop)) =
      some ([0], idRpcResult, 5, 5, some true) := by
    decide +kernel
  rw [Option.bind_eq_some_iff] at hrun
  obtain ⟨s, hs, htl⟩ := hrun
  rw [Option.map_eq_some_iff] at htl
  obtain ⟨tl, htl, hstate⟩ := htl
  simp only [Prod.mk.injEq] at hstate
  obtain ⟨hqueue, hid, hreq, hmsgid, hloop⟩ := hstate
  exact ⟨s, tl, .of_foldlM (fun _ _ _ => trivial) hs, by rw [hqueue]; simp, htl, hid,
    hreq.trans hmsgid.symm, hloop⟩

theorem completes_iff_unknownAnswer :
    ∃ s tl, s.nextObject 0 = some tl ∧
      ((∃ t, handleRpcResult [rpcResult] (fun b => ⟨false, b⟩) s 0 = some t ∧ Completed t 0) ↔
        s.find tl.reqMsgId = some 0 ∧
          (onDoneArg [rpcResult] (fun b => ⟨false, b⟩) tl.result).isSome ∧
          (tl.result ≠ .null ∨ (s.recs 0).loop = false)) := by
  obtain ⟨s, tl, hs, hq, htl, hid, hmsgid, -⟩ := unknownAnswer_state
  exact ⟨s, tl, htl, completes_iff _ _ s hs 0 0 tl hq htl hid hmsgid⟩

theorem answerCompletes_counterexample :
    ¬ AnswerCompletes [rpcResult] fun b => ⟨false, b⟩ := by
  intro h
  obtain ⟨s, tl, hs, hq, htl, hid, hmsgid, hloop⟩ := unknownAnswer_state
  obtain ⟨t, ht, hdone⟩ := h s hs 0 0 tl hq htl hid hmsgid
  rw [ht, Option.map_some, hdone.stopped] at hloop
  cases hloop

end Libtg
