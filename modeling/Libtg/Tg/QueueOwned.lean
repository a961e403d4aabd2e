import Libtg.Tg.Queue

/-!
# Who owns a query

`Owned` ties together the list, the mutexes of the records, the threads in the middle of
`catched_tl` and the log: a listed query is free and nobody has taken it yet, one that is taken is
locked by whoever took it. It holds in every reachable state (`owned_reach`). Most steps do not
bear on it at all; `Quiet` says so, and the others are the steps that lock, unlock or list a query.
-/

namespace Libtg

open Transition State

/-- The query's `on_done` was called, or a cancel took the query. -/
def Event.Finishes (q : Nat) : Event → Prop
  | .called _ q' _ _ => q' = q
  | .cancelled q' => q' = q
  | _ => False

/-- The query was taken out of the list for an answer or by a cancel, or its `on_done` called. -/
def Event.Removes (q : Nat) : Event → Prop
  | .took _ q' _ => q' = q
  | e => e.Finishes q

theorem Event.Finishes.removes {q : Nat} {e : Event} (h : e.Finishes q) : e.Removes q := by
  cases e with
  | took => exact h.elim
  | _ => exact h

def Untouched (q : Nat) (log : List Event) : Prop := ∀ e ∈ log, ¬ e.Removes q

/-- The thread found the query and has not called `on_done` yet. -/
def Pending (i q : Nat) (msgId : UInt64) (log : List Event) : Prop :=
  .took i q msgId ∈ log ∧ ∀ e ∈ log, ¬ e.Finishes q

def Fresh (s : State) (q : Nat) : Prop := (s.recs q).m = none ∧ Untouched q s.log

structure Owned (s : State) : Prop where
  nodup : s.queue.Nodup
  listed : ∀ q ∈ s.queue, Fresh s q ∧ ¬ (s.pc q).isPrivate
  own : ∀ q, (s.pc q).isPrivate → Fresh s q
  catching : ∀ i q msgId tl calls, s.pc i = .catching q msgId tl calls →
    (s.recs q).m = some (.thread i) ∧ Pending i q msgId s.log
  cancelling : ∀ j q, s.cancelling j = some q → (s.recs q).m = some (.canceller j)

variable {S : Schema} {gunzip : Bytes → Gunzipped} {s t : State} {i j q : Nat} {msgId : UInt64}
  {log new : List Event}

theorem untouched_append :
    Untouched q (new ++ log) ↔ (∀ e ∈ new, ¬ e.Removes q) ∧ Untouched q log := by
  simp only [Untouched, List.mem_append, or_imp, forall_and]

theorem Pending.append (h : Pending i q msgId log) (hnew : ∀ e ∈ new, ¬ e.Finishes q) :
    Pending i q msgId (new ++ log) :=
  ⟨List.mem_append_right _ h.1, fun e he =>
    (List.mem_append.mp he).elim (hnew e) (h.2 e)⟩

theorem owned_init : Owned .init where
  nodup := List.nodup_nil
  listed := nofun
  own _ _ := ⟨rfl, nofun⟩
  catching := nofun
  cancelling := nofun

/-- What `list_cut` finds in such a state. -/
theorem Owned.found (hs : Owned s) (hq : s.find msgId = some q) :
    (s.recs q).msgid = msgId ∧ Fresh s q ∧ ¬ (s.pc q).isPrivate ∧ q ∉ (s.cut msgId).queue := by
  have hmem := List.mem_of_find?_eq_some hq
  have hcmp := List.find?_some hq
  rw [cmpMsgid, beq_iff_eq] at hcmp
  exact ⟨hcmp.symm, (hs.listed q hmem).1, (hs.listed q hmem).2,
    not_mem_eraseP_of_find? hs.nodup hq⟩

/-! ## Steps that do not bear on it -/

structure Quiet (s t : State) : Prop where
  queue : t.queue.Sublist s.queue
  m : ∀ q, (t.recs q).m = (s.recs q).m
  cancelling : t.cancelling = s.cancelling
  log : ∃ new, t.log = new ++ s.log ∧ ∀ e ∈ new, ∀ q, ¬ e.Removes q
  catching : ∀ i q msgId tl calls, t.pc i = .catching q msgId tl calls →
    s.pc i = .catching q msgId tl calls
  own : ∀ q, (t.pc q).isPrivate → (s.pc q).isPrivate

theorem Quiet.owned (h : Quiet s t) (hs : Owned s) : Owned t := by
  obtain ⟨new, hlog, hnew⟩ := h.log
  have hfresh : ∀ q, Fresh s q → Fresh t q := fun q hq => by
    refine ⟨(h.m q).trans hq.1, ?_⟩
    rw [hlog, untouched_append]
    exact ⟨fun e he => hnew e he q, hq.2⟩
  refine ⟨hs.nodup.sublist h.queue, fun q hq => ?_, fun q hq => hfresh q (hs.own q (h.own q hq)),
    fun i q msgId tl calls hpc => ?_, fun j q hj => ?_⟩
  · obtain ⟨hf, hpriv⟩ := hs.listed q (h.queue.subset hq)
    exact ⟨hfresh q hf, fun hp => hpriv (h.own q hp)⟩
  · obtain ⟨hm, hpend⟩ := hs.catching i q msgId tl calls (h.catching i q msgId tl calls hpc)
    rw [h.m, hlog]
    exact ⟨hm, hpend.append fun e he hf => hnew e he q hf.removes⟩
  · rw [h.m]
    exact hs.cancelling j q (h.cancelling ▸ hj)

/-- A thread moves on, to a place outside of `catched_tl`. -/
theorem Quiet.of_pc {pc : Pc} (hpc : t.pc = Function.update s.pc i pc)
    (hcatch : ∀ q msgId tl calls, pc ≠ .catching q msgId tl calls)
    (hown : pc.isPrivate → (s.pc i).isPrivate) (hqueue : t.queue.Sublist s.queue)
    (hm : ∀ q, (t.recs q).m = (s.recs q).m) (hcanc : t.cancelling = s.cancelling)
    (hlog : ∃ new, t.log = new ++ s.log ∧ ∀ e ∈ new, ∀ q, ¬ e.Removes q) : Quiet s t := by
  refine ⟨hqueue, hm, hcanc, hlog, fun i' q msgId tl calls h => ?_, fun q h => ?_⟩
  · rw [hpc, Function.update_apply] at h
    split_ifs at h
    · exact absurd h (hcatch q msgId tl calls)
    · exact h
  · rw [hpc, Function.update_apply] at h
    split_ifs at h with hq
    · exact hq ▸ hown h
    · exact h

/-- A write to a record that leaves a field alone. -/
theorem field_update {α : Type} (f : TgQueue → α) {r : TgQueue} (hr : f r = f (s.recs i))
    (q : Nat) : f (Function.update s.recs i r q) = f (s.recs q) := by
  rw [Function.update_apply]
  split_ifs with hq
  · rw [hr, hq]
  · rfl

theorem quiet_setPc {pc : Pc} (hcatch : ∀ q msgId tl calls, pc ≠ .catching q msgId tl calls)
    (hown : pc.isPrivate → (s.pc i).isPrivate) : Quiet s (s.setPc i pc) :=
  .of_pc rfl hcatch hown (List.Sublist.refl _) (fun _ => rfl) rfl ⟨[], rfl, nofun⟩

theorem quiet_tgQueueNew (hs : Owned s) {onDone : Bool} (h : tgQueueNew s i onDone = some t) :
    Quiet s t := by
  obtain ⟨hpc, rfl⟩ := tgQueueNew_spec h
  have hfree : (s.recs i).m = none := (hs.own i (by rw [hpc]; rfl)).1
  exact .of_pc rfl nofun (fun _ => by rw [hpc]; rfl) (List.Sublist.refl _)
    (field_update (·.m) hfree.symm) rfl ⟨[], rfl, nofun⟩

theorem quiet_openFails (h : openFails s i = some t) : Quiet s t := by
  obtain ⟨-, rfl⟩ := openFails_spec h
  exact .of_pc rfl nofun nofun (List.Sublist.refl _) (field_update (·.m) rfl) rfl ⟨[], rfl, nofun⟩

theorem quiet_tgSend {ok : Bool} (h : tgSend s i ok msgId = some t) : Quiet s t := by
  obtain ⟨-, loop, pc, hpc, rfl⟩ := tgSend_spec h
  refine .of_pc rfl ?_ ?_ (List.Sublist.refl _) (field_update (·.m) rfl) rfl
    ⟨[.sent i msgId], rfl, ?_⟩
  · rcases hpc with rfl | rfl <;> nofun
  · rcases hpc with rfl | rfl <;> nofun
  · intro e he q
    cases List.mem_singleton.mp he
    exact id

theorem quiet_loopTest (h : loopTest s i = some t) : Quiet s t := by
  obtain ⟨-, rfl⟩ := loopTest_spec h
  split_ifs <;> exact quiet_setPc nofun nofun

theorem quiet_tgReceive {r : Received} (h : tgReceive S s i r = some t) : Quiet s t := by
  obtain ⟨-, pc, rfl, rfl | rfl | ⟨tl, rfl⟩⟩ := tgReceive_spec h <;>
    exact quiet_setPc nofun nofun

theorem quiet_nextCall (h : nextCall S gunzip s i = some t) : Quiet s t := by
  obtain ⟨-, rfl⟩ | ⟨tl, calls, new, -, -, rfl⟩ | ⟨call, calls, calls', -, rfl, -⟩ :=
    nextCall_spec h
  · exact quiet_setPc nofun nofun
  · refine .of_pc rfl nofun nofun (List.Sublist.refl _) (fun _ => rfl) rfl
      ⟨[.handled i tl], rfl, ?_⟩
    intro e he q
    cases List.mem_singleton.mp he
    exact id
  · exact quiet_setPc nofun nofun

theorem quiet_leaveList (h : leaveList s i = some t) : Quiet s t := by
  obtain ⟨-, rfl⟩ := leaveList_spec h
  exact .of_pc rfl nofun nofun List.eraseP_sublist (field_update (·.m) rfl) rfl ⟨[], rfl, nofun⟩

/-! ## Steps that list, lock or unlock a query -/

theorem owned_addToList (hs : Owned s) (h : addToList s i = some t) : Owned t := by
  obtain ⟨hpc, rfl⟩ := addToList_spec h
  have hpriv : (s.pc i).isPrivate := by rw [hpc]; rfl
  have hpc' : ∀ q, q ≠ i → Function.update s.pc i .sending q = s.pc q := fun q hq =>
    Function.update_of_ne hq _ _
  refine ⟨List.nodup_cons.mpr ⟨fun hi => (hs.listed i hi).2 hpriv, hs.nodup⟩, fun q hq => ?_,
    fun q hq => ?_, fun i' q msgId tl calls hi' => ?_, hs.cancelling⟩
  · by_cases hqi : q = i
    · subst hqi
      refine ⟨hs.own q hpriv, ?_⟩
      rw [setPc_pc, Function.update_self]
      nofun
    · rw [setPc_pc, hpc' q hqi]
      exact hs.listed q ((List.mem_cons.mp hq).resolve_left hqi)
  · rw [setPc_pc, Function.update_apply] at hq
    split_ifs at hq
    · cases hq
    · exact hs.own q hq
  · rw [setPc_pc, Function.update_apply] at hi'
    split_ifs at hi'
    exact hs.catching i' q msgId tl calls hi'

/-- Locking the query that `list_cut` found keeps the rest as it was. -/
theorem Owned.lock_found (hs : Owned s) (hq : s.find msgId = some q) {e : Event}
    (he : ∀ q', e.Removes q' → q' = q) {holder : Holder}
    (hqueue : t.queue = (s.cut msgId).queue)
    (hrecs : t.recs = Function.update s.recs q { s.recs q with m := some holder })
    (hlog : t.log = [e] ++ s.log)
    (hcatch : ∀ i q' msgId tl calls, t.pc i = .catching q' msgId tl calls →
      s.pc i = .catching q' msgId tl calls ∨
        (t.recs q').m = some (.thread i) ∧ Pending i q' msgId t.log)
    (hown : ∀ q', (t.pc q').isPrivate → (s.pc q').isPrivate)
    (hcanc : ∀ j q', t.cancelling j = some q' →
      s.cancelling j = some q' ∨ (t.recs q').m = some (.canceller j)) : Owned t := by
  obtain ⟨-, hfresh, hpriv, hout⟩ := hs.found hq
  have hother : ∀ q', q' ≠ q → t.recs q' = s.recs q' := fun q' hne => by
    rw [hrecs, Function.update_of_ne hne]
  have hfresh' : ∀ q', q' ≠ q → Fresh s q' → Fresh t q' := fun q' hne hf => by
    refine ⟨by rw [hother q' hne, hf.1], ?_⟩
    intro e' he' hr
    rw [hlog] at he'
    rcases List.mem_cons.mp he' with rfl | hmem
    · exact hne (he q' hr)
    · exact hf.2 e' hmem hr
  refine ⟨?_, fun q' hq' => ?_, fun q' hq' => ?_, fun i q' msgId' tl calls hpc => ?_,
    fun j q' hj => ?_⟩
  · rw [hqueue]
    exact hs.nodup.sublist List.eraseP_sublist
  · rw [hqueue] at hq'
    obtain ⟨hf, hp⟩ := hs.listed q' (List.mem_of_mem_eraseP hq')
    exact ⟨hfresh' q' (fun hne => hout (hne ▸ hq')) hf, fun h => hp (hown q' h)⟩
  · exact hfresh' q' (fun hne => hpriv (hne ▸ hown q' hq')) (hs.own q' (hown q' hq'))
  · rcases hcatch i q' msgId' tl calls hpc with hold | hnew
    · obtain ⟨hm, hpend⟩ := hs.catching i q' msgId' tl calls hold
      have hne : q' ≠ q := by
        rintro rfl
        rw [hfresh.1] at hm
        cases hm
      rw [hother q' hne, hlog]
      exact ⟨hm, hpend.append fun e' he' hf =>
        hne (he q' (List.mem_singleton.mp he' ▸ hf.removes))⟩
    · exact hnew
  · rcases hcanc j q' hj with hold | hnew
    · have hm := hs.cancelling j q' hold
      have hne : q' ≠ q := by
        rintro rfl
        rw [hfresh.1] at hm
        cases hm
      rw [hother q' hne, hm]
    · exact hnew

theorem owned_catchQueue (hs : Owned s) (h : catchQueue s i = some t) : Owned t := by
  obtain ⟨msgId, tl, calls, hpc, ⟨-, rfl⟩ | ⟨q, hq, -, rfl⟩⟩ := catchQueue_spec h
  · refine Quiet.owned (quiet_setPc ?_ ?_) hs <;> nofun
  · refine hs.lock_found hq (e := .took i q msgId) (fun _ h => h.symm) rfl rfl rfl
      (fun i' q' msgId' tl' calls' h => ?_) (fun q' h => ?_) fun _ _ h => .inl h
    · rw [emit_pc, setPc_pc, Function.update_apply] at h
      split_ifs at h with hi
      · cases h
        subst hi
        refine .inr ⟨by simp, List.mem_cons_self, fun e he hf => ?_⟩
        rcases List.mem_cons.mp he with rfl | hmem
        · exact hf
        · exact (hs.found hq).2.1.2 e hmem hf.removes
      · exact .inl h
    · rw [emit_pc, setPc_pc, Function.update_apply] at h
      split_ifs at h
      · cases h
      · exact h

theorem owned_cancelQueue (hs : Owned s) (h : cancelQueue s j msgId = some t) : Owned t := by
  obtain ⟨-, rfl | ⟨q, hq, -, rfl⟩⟩ := cancelQueue_spec h
  · exact hs
  · refine hs.lock_found hq (e := .cancelled q) (fun _ h => h.symm) rfl rfl rfl
      (fun _ _ _ _ _ h => .inl h) (fun _ h => h) fun j' q' h => ?_
    rw [emit_cancelling, setCancelling_cancelling, Function.update_apply] at h
    split_ifs at h with hj
    · cases h
      subst hj
      exact .inr (by simp)
    · exact .inl h

/-- Unlocking a record keeps the rest as it was. -/
theorem Owned.unlock (hs : Owned s) {holder : Holder} (hq : (s.recs q).m = some holder)
    (hqueue : t.queue = s.queue) (hrecs : ∀ q', q' ≠ q → t.recs q' = s.recs q')
    (hlog : ∃ new, t.log = new ++ s.log ∧ ∀ e ∈ new, ∀ q', e.Removes q' → q' = q)
    (hcatch : ∀ i q' msgId tl calls, t.pc i = .catching q' msgId tl calls →
      s.pc i = .catching q' msgId tl calls ∧ .thread i ≠ holder)
    (hown : ∀ q', (t.pc q').isPrivate → (s.pc q').isPrivate)
    (hcanc : ∀ j q', t.cancelling j = some q' →
      s.cancelling j = some q' ∧ .canceller j ≠ holder) : Owned t := by
  obtain ⟨new, hlog, hnew⟩ := hlog
  have hfresh : ∀ q', Fresh s q' → Fresh t q' := fun q' hf => by
    have hne : q' ≠ q := by
      rintro rfl
      rw [hf.1] at hq
      cases hq
    rw [Fresh, hrecs q' hne, hlog, untouched_append]
    exact ⟨hf.1, fun e he hr => hne (hnew e he q' hr), hf.2⟩
  refine ⟨hqueue ▸ hs.nodup, fun q' hq' => ?_, fun q' hq' => hfresh q' (hs.own q' (hown q' hq')),
    fun i q' msgId tl calls hpc => ?_, fun j q' hj => ?_⟩
  · rw [hqueue] at hq'
    obtain ⟨hf, hp⟩ := hs.listed q' hq'
    exact ⟨hfresh q' hf, fun h => hp (hown q' h)⟩
  · obtain ⟨hold, hholder⟩ := hcatch i q' msgId tl calls hpc
    obtain ⟨hm, hpend⟩ := hs.catching i q' msgId tl calls hold
    have hne : q' ≠ q := by
      rintro rfl
      exact hholder (Option.some.inj (hm.symm.trans hq))
    rw [hrecs q' hne, hlog]
    exact ⟨hm, hpend.append fun e he hf => hne (hnew e he q' hf.removes)⟩
  · obtain ⟨hold, hholder⟩ := hcanc j q' hj
    have hm := hs.cancelling j q' hold
    have hne : q' ≠ q := by
      rintro rfl
      exact hholder (Option.some.inj (hm.symm.trans hq))
    rw [hrecs q' hne, hm]

theorem owned_callOnDone (hs : Owned s) (h : callOnDone S gunzip s i = some t) : Owned t := by
  obtain ⟨q, msgId, tl, calls, arg, hpc, -, rfl⟩ := callOnDone_spec h
  refine hs.unlock (hs.catching i q msgId tl calls hpc).1 rfl
    (fun q' hq' => Function.update_of_ne hq' _ _) ⟨_, rfl, fun e he q' hr => ?_⟩
    (fun i' q' msgId' tl' calls' h => ?_) (fun q' h => ?_) fun _ _ h => ⟨h, nofun⟩
  · split_ifs at he
    · cases List.mem_singleton.mp he
      exact hr.symm
    · cases he
  · rw [setPc_pc, Function.update_apply, emit_pc, modify_pc] at h
    split_ifs at h with hi
    exact ⟨h, fun hi' => hi (Holder.thread.inj hi')⟩
  · rw [setPc_pc, Function.update_apply, emit_pc, modify_pc] at h
    split_ifs at h
    · cases h
    · exact h

theorem owned_stopQuery (hs : Owned s) (h : stopQuery s j = some t) : Owned t := by
  obtain ⟨q, hq, rfl⟩ := stopQuery_spec h
  refine hs.unlock (hs.cancelling j q hq) rfl (fun q' hq' => Function.update_of_ne hq' _ _)
    ⟨[], rfl, nofun⟩ (fun _ _ _ _ _ h => ⟨h, nofun⟩) (fun _ h => h) fun j' q' h => ?_
  rw [setCancelling_cancelling, Function.update_apply] at h
  split_ifs at h with hj
  exact ⟨h, fun hj' => hj (Holder.canceller.inj hj')⟩

theorem owned_cancelAll (hs : Owned s) : Owned (cancelAll s) := by
  have hm : ∀ q, ((cancelAll s).recs q).m = (s.recs q).m := fun q => by
    simp only [cancelAll]
    split_ifs <;> rfl
  have hnew : ∀ q ∉ s.queue, ∀ e ∈ s.queue.map Event.cancelled, ¬ e.Removes q := by
    intro q hq e he
    obtain ⟨q', hq', rfl⟩ := List.mem_map.mp he
    exact ne_of_mem_of_not_mem hq' hq
  refine ⟨List.nodup_nil, nofun, fun q hq => ?_, fun i q msgId tl calls hpc => ?_,
    fun j q hj => ?_⟩
  · obtain ⟨hfree, huntouched⟩ := hs.own q hq
    refine ⟨by rw [hm, hfree], untouched_append.mpr ⟨hnew q fun hmem => ?_, huntouched⟩⟩
    exact (hs.listed q hmem).2 hq
  · obtain ⟨hheld, hpend⟩ := hs.catching i q msgId tl calls hpc
    refine ⟨by rw [hm, hheld], hpend.append fun e he hf => ?_⟩
    refine hnew q (fun hmem => ?_) e he hf.removes
    rw [(hs.listed q hmem).1.1] at hheld
    cases hheld
  · rw [hm]
    exact hs.cancelling j q hj

theorem owned_step {l : Step} (hs : Owned s) (h : step S gunzip s l = some t) : Owned t := by
  cases l with
  | tgQueueNew i onDone => exact (quiet_tgQueueNew hs h).owned hs
  | openFails i => exact (quiet_openFails h).owned hs
  | addToList i => exact owned_addToList hs h
  | tgSend i ok msgId => exact (quiet_tgSend h).owned hs
  | loopTest i => exact (quiet_loopTest h).owned hs
  | tgReceive i r => exact (quiet_tgReceive h).owned hs
  | nextCall i => exact (quiet_nextCall h).owned hs
  | catchQueue i => exact owned_catchQueue hs h
  | callOnDone i => exact owned_callOnDone hs h
  | leaveList i => exact (quiet_leaveList h).owned hs
  | cancelQueue j msgId => exact owned_cancelQueue hs h
  | stopQuery j => exact owned_stopQuery hs h
  | cancelAll =>
    cases h
    exact owned_cancelAll hs

theorem owned_reach {ok : State → Step → Prop} (h : Reach (step S gunzip) ok .init s) : Owned s :=
  h.invariant owned_init fun _ _ _ hs _ hstep => owned_step hs hstep

end Libtg
