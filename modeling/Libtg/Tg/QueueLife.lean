import Libtg.Tg.QueueOwned

/-!
# The life of a query record

A record is freed by its own thread, in the last locked section of `tg_run_queue`. Nothing in that
section asks whether another thread is inside `catched_tl` or `tg_queue_cancell_queue` with the
record's mutex, and `list_cut` takes out whichever query it first finds under the msgid. `safe_iff`
says that no freed record is ever used in the runs where these two things do not go wrong, and that
nothing less will do. `useAfterFree` is a run where the first does.
-/

namespace Libtg

open Transition State

/-- The records `list_cut` looks at. -/
def State.visited (s : State) (msgId : UInt64) : List Nat :=
  s.queue.takeWhile (fun q => !s.cmpMsgid msgId q) ++ (s.find msgId).toList

/-- The records a step locks, unlocks, reads or writes. -/
def State.uses (s : State) : Step → List Nat
  | .tgQueueNew _ _ => []
  | .openFails i | .addToList i | .tgSend i _ _ | .loopTest i | .tgReceive i _ | .nextCall i => [i]
  | .catchQueue i =>
    match s.pc i with
    | .handling (.catchedTl msgId _ :: _) => i :: s.visited msgId
    | _ => []
  | .callOnDone i =>
    match s.pc i with
    | .catching q _ _ _ => [i, q]
    | _ => []
  | .leaveList i => i :: s.visited (s.recs i).msgid
  | .cancelQueue _ msgId => s.visited msgId
  | .stopQuery j => (s.cancelling j).toList
  | .cancelAll => s.queue

/-- The step uses living records only, and does not free one whose mutex is held. -/
structure Safe (s : State) (l : Step) : Prop where
  alive : ∀ q ∈ s.uses l, (s.recs q).alive
  released : ∀ i, l = .leaveList i → (s.recs i).m = none

/-- A thread that ends finds its mutex free, and its own record under its msgid if it is still
listed. -/
def LeavesClean (s : State) (l : Step) : Prop :=
  ∀ i, l = .leaveList i →
    (s.recs i).m = none ∧ (i ∈ s.queue → s.find (s.recs i).msgid = some i)

/-- The thread has its record. -/
def Pc.isRunning : Pc → Bool
  | .unborn | .ended => false
  | _ => true

structure Live (s : State) : Prop where
  listed : ∀ q ∈ s.queue, (s.recs q).alive
  catching : ∀ i q msgId tl calls, s.pc i = .catching q msgId tl calls → (s.recs q).alive
  cancelling : ∀ j q, s.cancelling j = some q → (s.recs q).alive
  running : ∀ i, (s.pc i).isRunning → (s.recs i).alive

variable {S : Schema} {gunzip : Bytes → Gunzipped} {s t : State} {i j q : Nat} {msgId : UInt64}

theorem live_init : Live .init where
  listed := nofun
  catching := nofun
  cancelling := nofun
  running := nofun

/-! ## A safe step -/

theorem mem_visited (h : q ∈ s.visited msgId) : q ∈ s.queue := by
  rcases List.mem_append.mp h with h | h
  · exact (List.takeWhile_sublist _).subset h
  · exact List.mem_of_find?_eq_some (Option.mem_toList.mp h)

theorem Live.safe {l : Step} (hs : Live s) (h : step S gunzip s l = some t)
    (hok : LeavesClean s l) : Safe s l := by
  refine ⟨?_, fun i hi => (hok i hi).1⟩
  have hown : ∀ i, (s.pc i).isRunning → ∀ q ∈ [i], (s.recs q).alive := fun i hi q hq => by
    rw [List.mem_singleton.mp hq]
    exact hs.running i hi
  cases l with
  | tgQueueNew i onDone => nofun
  | openFails i => exact hown i (by rw [(openFails_spec h).1]; rfl)
  | addToList i => exact hown i (by rw [(addToList_spec h).1]; rfl)
  | tgSend i ok msgId =>
    refine hown i ?_
    rcases (tgSend_spec h).1 with hpc | hpc <;> rw [hpc] <;> rfl
  | loopTest i => exact hown i (by rw [(loopTest_spec h).1]; rfl)
  | tgReceive i r => exact hown i (by rw [(tgReceive_spec h).1]; rfl)
  | nextCall i =>
    refine hown i ?_
    obtain ⟨hpc, -⟩ | ⟨tl, calls, new, hpc, -⟩ | ⟨call, calls, calls', hpc, -⟩ :=
      nextCall_spec h <;> rw [hpc] <;> rfl
  | catchQueue i =>
    obtain ⟨msgId, tl, calls, hpc, -⟩ := catchQueue_spec h
    intro q hq
    simp only [uses, hpc, List.mem_cons] at hq
    rcases hq with rfl | hq
    · exact hs.running q (by rw [hpc]; rfl)
    · exact hs.listed q (mem_visited hq)
  | callOnDone i =>
    obtain ⟨q, msgId, tl, calls, arg, hpc, -⟩ := callOnDone_spec h
    intro q' hq'
    simp only [uses, hpc, List.mem_cons, List.not_mem_nil, or_false] at hq'
    rcases hq' with rfl | rfl
    · exact hs.running q' (by rw [hpc]; rfl)
    · exact hs.catching i q' msgId tl calls hpc
  | leaveList i =>
    intro q hq
    rcases List.mem_cons.mp hq with rfl | hq
    · exact hs.running q (by rw [(leaveList_spec h).1]; rfl)
    · exact hs.listed q (mem_visited hq)
  | cancelQueue j msgId => exact fun q hq => hs.listed q (mem_visited hq)
  | stopQuery j => exact fun q hq => hs.cancelling j q (Option.mem_toList.mp hq)
  | cancelAll => exact hs.listed

/-! ## Living records stay so while they can be reached -/

/-- A step that frees nothing. -/
theorem Live.of_keep (hs : Live s) (halive : ∀ q, (s.recs q).alive → (t.recs q).alive)
    (hqueue : ∀ q ∈ t.queue, q ∈ s.queue ∨ (t.recs q).alive)
    (hcatch : ∀ i q msgId tl calls, t.pc i = .catching q msgId tl calls →
      s.pc i = .catching q msgId tl calls ∨ (t.recs q).alive)
    (hcanc : ∀ j q, t.cancelling j = some q → s.cancelling j = some q ∨ (t.recs q).alive)
    (hrun : ∀ i, (t.pc i).isRunning → (s.pc i).isRunning ∨ (t.recs i).alive) : Live t where
  listed q hq := (hqueue q hq).elim (fun h => halive q (hs.listed q h)) id
  catching i q msgId tl calls hpc := (hcatch i q msgId tl calls hpc).elim
    (fun h => halive q (hs.catching i q msgId tl calls h)) id
  cancelling j q hj := (hcanc j q hj).elim (fun h => halive q (hs.cancelling j q h)) id
  running i hi := (hrun i hi).elim (fun h => halive i (hs.running i h)) id

/-- A running thread goes on, outside of `catched_tl`. -/
theorem Live.of_pc {pc : Pc} (hs : Live s) (hpc : t.pc = Function.update s.pc i pc)
    (hcatch : ∀ q msgId tl calls, pc ≠ .catching q msgId tl calls) (hrun : (s.pc i).isRunning)
    (halive : ∀ q, (t.recs q).alive = (s.recs q).alive)
    (hqueue : ∀ q ∈ t.queue, q ∈ s.queue ∨ q = i) (hcanc : t.cancelling = s.cancelling) :
    Live t := by
  refine hs.of_keep (fun q hq => (halive q).trans hq) (fun q hq => ?_)
    (fun i' q msgId tl calls h => ?_) (fun j q hj => .inl (hcanc ▸ hj)) fun i' h => ?_
  · refine (hqueue q hq).imp id fun hqi => ?_
    rw [halive, hqi]
    exact hs.running i hrun
  · rw [hpc, Function.update_apply] at h
    split_ifs at h
    · exact absurd h (hcatch q msgId tl calls)
    · exact .inl h
  · rw [hpc, Function.update_apply] at h
    split_ifs at h with hi
    · exact .inl (hi ▸ hrun)
    · exact .inl h

/-- A thread ends and frees its record, which nobody else can reach. -/
theorem Live.free (hs : Live s) (ho : Owned s) (hm : (s.recs i).m = none)
    (hrecs : t.recs = Function.update s.recs i { s.recs i with alive := false })
    (hpc : t.pc = Function.update s.pc i .ended) (hcanc : t.cancelling = s.cancelling)
    (hqueue : ∀ q ∈ t.queue, q ∈ s.queue ∧ q ≠ i) : Live t := by
  have hother : ∀ q, q ≠ i → t.recs q = s.recs q := fun q hq => by
    rw [hrecs, Function.update_of_ne hq]
  have hheld : ∀ q holder, (s.recs q).m = some holder → q ≠ i := by
    rintro q holder hq rfl
    rw [hm] at hq
    cases hq
  refine ⟨fun q hq => ?_, fun i' q msgId tl calls h => ?_, fun j q hj => ?_, fun i' h => ?_⟩
  · obtain ⟨hmem, hne⟩ := hqueue q hq
    rw [hother q hne]
    exact hs.listed q hmem
  · rw [hpc, Function.update_apply] at h
    split_ifs at h
    rw [hother q (hheld q _ (ho.catching i' q msgId tl calls h).1)]
    exact hs.catching i' q msgId tl calls h
  · rw [hcanc] at hj
    rw [hother q (hheld q _ (ho.cancelling j q hj))]
    exact hs.cancelling j q hj
  · rw [hpc, Function.update_apply] at h
    split_ifs at h with hi
    · cases h
    · rw [hother i' hi]
      exact hs.running i' h

theorem live_step {l : Step} (hs : Live s) (ho : Owned s) (h : step S gunzip s l = some t)
    (hok : LeavesClean s l) : Live t := by
  cases l with
  | tgQueueNew i onDone =>
    obtain ⟨hpc, rfl⟩ := tgQueueNew_spec h
    refine hs.of_keep (fun q hq => ?_) (fun _ h => .inl h) (fun i' _ _ _ _ h => .inl ?_)
      (fun _ _ h => .inl h) fun i' h => ?_
    · rw [setPc_recs, modify_recs, Function.update_apply]
      split_ifs
      · rfl
      · exact hq
    · rw [setPc_pc, Function.update_apply] at h
      split_ifs at h
      exact h
    · rw [setPc_pc, Function.update_apply] at h
      split_ifs at h with hi
      · subst hi
        exact .inr (by simp)
      · exact .inl h
  | openFails i =>
    obtain ⟨hpc, rfl⟩ := openFails_spec h
    have hpriv : (s.pc i).isPrivate := by rw [hpc]; rfl
    refine hs.free ho (ho.own i hpriv).1 rfl rfl rfl fun q hq => ⟨hq, ?_⟩
    rintro rfl
    exact (ho.listed q hq).2 hpriv
  | addToList i =>
    obtain ⟨hpc, rfl⟩ := addToList_spec h
    exact hs.of_pc rfl nofun (by rw [hpc]; rfl) (fun _ => rfl)
      (fun q hq => (List.mem_cons.mp hq).symm) rfl
  | tgSend i ok msgId =>
    obtain ⟨hpc, loop, pc, hpc', rfl⟩ := tgSend_spec h
    refine hs.of_pc rfl ?_ ?_ (field_update (·.alive) rfl) (fun _ h => .inl h) rfl
    · rcases hpc' with rfl | rfl <;> nofun
    · rcases hpc with hpc | hpc <;> rw [hpc] <;> rfl
  | loopTest i =>
    obtain ⟨hpc, rfl⟩ := loopTest_spec h
    exact hs.of_pc rfl (by split_ifs <;> nofun) (by rw [hpc]; rfl) (fun _ => rfl)
      (fun _ h => .inl h) rfl
  | tgReceive i r =>
    obtain ⟨hpc, pc, rfl, hpc'⟩ := tgReceive_spec h
    refine hs.of_pc rfl ?_ (by rw [hpc]; rfl) (fun _ => rfl) (fun _ h => .inl h) rfl
    rcases hpc' with rfl | rfl | ⟨tl, rfl⟩ <;> nofun
  | nextCall i =>
    obtain ⟨hpc, rfl⟩ | ⟨tl, calls, new, hpc, -, rfl⟩ | ⟨call, calls, calls', hpc, rfl, -⟩ :=
      nextCall_spec h <;>
      exact hs.of_pc rfl nofun (by rw [hpc]; rfl) (fun _ => rfl) (fun _ h => .inl h) rfl
  | catchQueue i =>
    obtain ⟨msgId, tl, calls, hpc, ⟨-, rfl⟩ | ⟨q, hq, -, rfl⟩⟩ := catchQueue_spec h
    · exact hs.of_pc rfl nofun (by rw [hpc]; rfl) (fun _ => rfl) (fun _ h => .inl h) rfl
    · have hsame : ∀ q', ((Function.update s.recs q
          { s.recs q with m := some (.thread i) }) q').alive = (s.recs q').alive :=
        field_update (·.alive) rfl
      refine hs.of_keep (fun q' hq' => (hsame q').trans hq')
        (fun q' hq' => .inl (List.mem_of_mem_eraseP hq')) (fun i' q' msgId' tl' calls' h => ?_)
        (fun _ _ h => .inl h) fun i' h => .inl ?_
      · rw [emit_pc, setPc_pc, Function.update_apply] at h
        split_ifs at h
        · cases h
          exact .inr ((hsame q).trans (hs.listed q (List.mem_of_find?_eq_some hq)))
        · exact .inl h
      · rw [emit_pc, setPc_pc, Function.update_apply] at h
        split_ifs at h with hi
        · rw [hi, hpc]
          rfl
        · exact h
  | callOnDone i =>
    obtain ⟨q, msgId, tl, calls, arg, hpc, -, rfl⟩ := callOnDone_spec h
    exact hs.of_pc rfl nofun (by rw [hpc]; rfl) (field_update (·.alive) rfl)
      (fun _ h => .inl h) rfl
  | leaveList i =>
    obtain ⟨hm, hfind⟩ := hok i rfl
    obtain ⟨hpc, rfl⟩ := leaveList_spec h
    refine hs.free ho hm rfl rfl rfl fun q hq => ⟨List.mem_of_mem_eraseP hq, ?_⟩
    rintro rfl
    exact (ho.found (hfind (List.mem_of_mem_eraseP hq))).2.2.2 hq
  | cancelQueue j msgId =>
    obtain ⟨-, rfl | ⟨q, hq, -, rfl⟩⟩ := cancelQueue_spec h
    · exact hs
    · have hsame : ∀ q', ((Function.update s.recs q
          { s.recs q with m := some (.canceller j) }) q').alive = (s.recs q').alive :=
        field_update (·.alive) rfl
      refine hs.of_keep (fun q' hq' => (hsame q').trans hq')
        (fun q' hq' => .inl (List.mem_of_mem_eraseP hq')) (fun _ _ _ _ _ h => .inl h)
        (fun j' q' h => ?_) fun _ h => .inl h
      rw [emit_cancelling, setCancelling_cancelling, Function.update_apply] at h
      split_ifs at h
      · cases h
        exact .inr ((hsame q).trans (hs.listed q (List.mem_of_find?_eq_some hq)))
      · exact .inl h
  | stopQuery j =>
    obtain ⟨q, -, rfl⟩ := stopQuery_spec h
    have hsame : ∀ q', ((Function.update s.recs q
        { s.recs q with loop := false, m := none }) q').alive = (s.recs q').alive :=
      field_update (·.alive) rfl
    refine hs.of_keep (fun q' hq' => (hsame q').trans hq') (fun _ h => .inl h)
      (fun _ _ _ _ _ h => .inl h) (fun j' q' h => ?_) fun _ h => .inl h
    rw [setCancelling_cancelling, Function.update_apply] at h
    split_ifs at h
    exact .inl h
  | cancelAll =>
    cases h
    refine hs.of_keep (fun q hq => ?_) nofun (fun _ _ _ _ _ h => .inl h) (fun _ _ h => .inl h)
      fun _ h => .inl h
    simp only [cancelAll]
    split_ifs <;> exact hq

theorem live_reach (h : Reach (step S gunzip) LeavesClean .init s) : Live s ∧ Owned s :=
  h.invariant (I := fun s => Live s ∧ Owned s) ⟨live_init, owned_init⟩
    fun _ _ _ hs hok hstep => ⟨live_step hs.1 hs.2 hstep hok, owned_step hs.2 hstep⟩

/-! ## The property -/

/-- No run comes to an unsafe step. -/
def NoUseAfterFree (S : Schema) (gunzip : Bytes → Gunzipped) : Prop :=
  ∀ s, Reach (step S gunzip) Any .init s → ∀ l t, step S gunzip s l = some t → Safe s l

/-- Every step of a run in which each thread leaves cleanly is safe. A thread that does not leaves a
held mutex or a freed record in the list behind, which `tg_queue_cancell_all` then uses. -/
theorem safe_iff (S : Schema) (gunzip : Bytes → Gunzipped) (s : State)
    (hs : Reach (step S gunzip) LeavesClean .init s) :
    (∀ l t, step S gunzip s l = some t → LeavesClean s l → Safe s l) ∧
      ∀ i t, leaveList s i = some t →
        (LeavesClean s (.leaveList i) ↔ Safe s (.leaveList i) ∧ Safe t .cancelAll) := by
  obtain ⟨hlive, howned⟩ := live_reach hs
  refine ⟨fun l t h hok => hlive.safe h hok, fun i t h => ⟨fun hok => ?_, ?_⟩⟩
  · have hstep : step S gunzip s (.leaveList i) = some t := h
    exact ⟨hlive.safe hstep hok, (live_step hlive howned hstep hok).listed, nofun⟩
  · rintro ⟨hsafe, hall⟩ i' hi'
    cases hi'
    refine ⟨hsafe.released i rfl, fun hmem => ?_⟩
    by_contra hfind
    obtain ⟨-, rfl⟩ := leaveList_spec h
    have hdead := hall.alive i (mem_eraseP_of_find? hmem hfind)
    simp at hdead

/-- Thread 1 finds query 0 for its answer; thread 0 receives a 404 and ends; thread 1 goes on. -/
def useAfterFree : List Step :=
  [.tgQueueNew 0 true, .addToList 0, .tgSend 0 true 5, .loopTest 0,
    .tgQueueNew 1 true, .addToList 1, .tgSend 1 true 9, .loopTest 1,
    .tgReceive 1 (.message (LittleEndian.le32 idRpcResult ++ LittleEndian.le64 5 ++
      LittleEndian.le32 idRpcError ++ LittleEndian.le32 400 ++ [0, 0, 0, 0])),
    .nextCall 1, .catchQueue 1, .tgReceive 0 .exit, .leaveList 0]

/-- The condition is about the last step of that run. -/
theorem safe_iff_useAfterFree :
    ∃ s t, leaveList s 0 = some t ∧
      (LeavesClean s (.leaveList 0) ↔ Safe s (.leaveList 0) ∧ Safe t .cancelAll) := by
  have hrun : (((useAfterFree.take 12).foldlM
      (step [rpcResult, rpcError] fun b => ⟨false, b⟩) .init).bind fun s =>
        leaveList s 0).isSome := by
    decide +kernel
  obtain ⟨t, ht⟩ := Option.isSome_iff_exists.mp hrun
  rw [Option.bind_eq_some_iff] at ht
  obtain ⟨s, hs, ht⟩ := ht
  refine ⟨s, t, ht, (safe_iff _ _ s (.of_foldlM (fun l hl s i hi => ?_) hs)).2 0 t ht⟩
  rw [hi] at hl
  simp [useAfterFree] at hl

theorem noUseAfterFree_counterexample :
    ¬ NoUseAfterFree [rpcResult, rpcError] fun b => ⟨false, b⟩ := by
  intro h
  have hrun : ((useAfterFree.foldlM (step [rpcResult, rpcError] fun b => ⟨false, b⟩) .init).map
      fun s => ((s.recs 0).alive, s.uses (.callOnDone 1),
        (step [rpcResult, rpcError] (fun b => ⟨false, b⟩) s (.callOnDone 1)).isSome)) =
      some (false, [1, 0], true) := by
    decide +kernel
  rw [Option.map_eq_some_iff] at hrun
  obtain ⟨s, hs, hstate⟩ := hrun
  simp only [Prod.mk.injEq] at hstate
  obtain ⟨hdead, huses, hnext⟩ := hstate
  obtain ⟨t, ht⟩ := Option.isSome_iff_exists.mp hnext
  have halive := (h s (.of_foldlM (fun _ _ _ => trivial) hs) _ t ht).alive 0 (by rw [huses]; simp)
  rw [hdead] at halive
  cases halive

end Libtg
