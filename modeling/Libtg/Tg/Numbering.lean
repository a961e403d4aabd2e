import Libtg.Tg.Records

/-!
# The ids and numbers of messages (`tg/header.c`)

Read off the log of a run: the ids are the readings of the clock, one after the other, and the
numbers count the content-related messages before.

Which runs generate unique and increasing ids is `idsOk_iff`: those in which the clock never answers
twice within a tick of four. That the numbers are the documented ones is `numbersOk`; that they
ascend with the ids takes that no thread overtakes another between its reading of the clock and its
section of `seqnm` (`inOrder_iff`).
-/

namespace Libtg

/-- `ntp_time_diff`, which returns before it asks anybody. -/
def ntpTimeDiff : UInt64 := 0

theorem and_compl_three_toNat (x : UInt64) : (x &&& ~~~3).toNat = 4 * (x.toNat / 4) := by
  have hbits : x.toBitVec &&& ~~~3#64 = (x.toBitVec >>> 2) <<< 2 := by
    refine BitVec.eq_of_getLsbD_eq fun i hi => ?_
    have hthree : (3#64).getLsbD i = decide (i < 2) := by
      rw [BitVec.getLsbD_ofNat, Nat.testBit_two_pow_sub_one 2 i]
      simp only [Bool.and_eq_right_iff_imp, decide_eq_true_eq]
      omega
    simp only [BitVec.getLsbD_and, BitVec.getLsbD_not, hthree, BitVec.getLsbD_shiftLeft,
      BitVec.getLsbD_ushiftRight, hi, decide_true, Bool.true_and]
    by_cases h : i < 2
    · simp [h]
    · simp [h, Nat.add_sub_cancel' (Nat.le_of_not_lt h)]
  have hlt := x.toNat_lt
  rw [← UInt64.toNat_toBitVec, UInt64.toBitVec_and]
  show (x.toBitVec &&& ~~~3#64).toNat = _
  rw [hbits, BitVec.toNat_shiftLeft, BitVec.toNat_ushiftRight, Nat.shiftLeft_eq,
    Nat.shiftRight_eq_div_pow, UInt64.toNat_toBitVec]
  omega

namespace Threads

open Transition

variable {E : Env} {v : Prop} {i j : Nat} {tg₀ : Tg} {log past : List Event}

/-! ## Message ids -/

def Event.generatedId : Event → Option UInt64
  | .generated _ msgId => some msgId
  | _ => none

/-- The ids that were generated, oldest first. -/
def ids (log : List Event) : List UInt64 := (log.filterMap Event.generatedId).reverse

theorem mem_ids {msgId : UInt64} : msgId ∈ ids log ↔ ∃ i, .generated i msgId ∈ log := by
  rw [ids, List.mem_reverse, List.mem_filterMap]
  constructor
  · rintro ⟨e, he, heq⟩
    cases e with
    | generated i id =>
      cases heq
      exact ⟨i, he⟩
    | _ => cases heq
  · rintro ⟨i, hi⟩
    exact ⟨_, hi, rfl⟩

/-- The ids of the messages in a result. -/
def Result.msgIds : Result → List UInt64
  | .none => []
  | .message m => [m.msgId]
  | .messages ms => ms.map Message.msgId
  | .packet (.plain msgId _) _ => [msgId]
  | .packet (.encrypted _ _ msgId _ _ data _) _ => msgId :: data.messages.map Message.msgId

/-- The id a result leaves in `*msgid`: that of the query. -/
def Result.queryId : Result → Option UInt64
  | .packet p msgid => if p.isEncrypted then some msgid else Option.none
  | _ => Option.none

def Event.queryId : Event → Option UInt64
  | .returned _ r => r.queryId
  | _ => none

/-- The ids of the queries that were prepared, newest first. -/
def queryIds (log : List Event) : List UInt64 := log.filterMap Event.queryId

/-- What is expected of the ids. -/
structure IdsOk (log : List Event) : Prop where
  multiples : ∀ id ∈ ids log, id.toNat % 4 = 0
  nodup : (ids log).Nodup
  increasing : (ids log).Pairwise (· < ·)
  queries : (queryIds log).Nodup

/-- From reading `a` on and before reading `b`, the clock goes on by a tick of four at least. -/
def Ticks (E : Env) (a b : Nat) : Prop :=
  ∀ n, a ≤ n → n + 1 < b → E.clock n / 4 < E.clock (n + 1) / 4

/-- The id of a message for which the clock is read for the `n`-th time. -/
def messageId (E : Env) (tg : Tg) (n : Nat) : UInt64 := (E.clock n &&& ~~~3) + tg.timediff

theorem replay_timediff : (replay tg₀ log).timediff = tg₀.timediff := by
  induction log with
  | nil => rfl
  | cons e past ih =>
    rw [replay_cons]
    cases e with
    | numbered i msgId seqno content => cases content <;> exact ih
    | _ => exact ih

/-- Every reading of the clock is an id. -/
theorem ids_eq (h : Chronicle (fun past e => e.Lawful E v (replay tg₀ past) past) log) :
    (replay tg₀ log).readings = tg₀.readings + (ids log).length ∧
      ids log = (List.range' tg₀.readings (ids log).length).map (messageId E tg₀) := by
  induction log with
  | nil => exact ⟨rfl, rfl⟩
  | cons e past ih =>
    obtain ⟨hreadings, hids⟩ := ih h.2
    cases e with
    | generated i msgId =>
      have hnew : msgId = messageId E tg₀ (tg₀.readings + (ids past).length) := by
        have htimediff : (replay tg₀ past).timediff = tg₀.timediff := replay_timediff
        rw [messageId, ← hreadings, ← htimediff]
        exact h.1
      have hcons : ids (.generated i msgId :: past) = ids past ++ [msgId] := by
        rw [ids, ids, ← List.reverse_cons]
        rfl
      rw [hcons, List.length_append, List.length_singleton]
      refine ⟨congrArg (· + 1) hreadings, ?_⟩
      rw [List.range'_1_concat, List.map_append, List.map_singleton, ← hids, ← hnew]
    | numbered j msgId seqno content => cases content <;> exact ⟨hreadings, hids⟩
    | _ => exact ⟨hreadings, hids⟩

/-- The messages in a result have ids that were generated. -/
theorem Result.Recorded.msgIds {r : Result} (h : r.Recorded i log) :
    ∀ id ∈ r.msgIds, id ∈ ids log := by
  have hmem : ∀ {m : Message}, Threads.Recorded i log m → m.msgId ∈ ids log :=
    fun hm => mem_ids.mpr ⟨i, since_subset hm.1⟩
  cases r with
  | none => exact nofun
  | message m => exact fun id hid => List.mem_singleton.mp hid ▸ hmem h
  | messages ms =>
    intro id hid
    obtain ⟨m, hm, rfl⟩ := List.mem_map.mp hid
    exact hmem (DropsRecorded.recorded h hm)
  | packet p msgid =>
    cases p with
    | plain msgId b =>
      exact fun id hid => List.mem_singleton.mp hid ▸ mem_ids.mpr ⟨i, since_subset h.1⟩
    | encrypted salt ssid msgId seqno content data padding =>
      obtain ⟨hgen, past, hpast, hdata⟩ := h.1
      refine List.forall_mem_cons.mpr ⟨mem_ids.mpr ⟨i, since_subset hgen⟩, fun id hid => ?_⟩
      obtain ⟨m, hm, rfl⟩ := List.mem_map.mp hid
      exact hmem ((hdata.recorded hm).mono ((Quiet.cons rfl).trans hpast))

theorem Event.Lawful.queryId {e : Event} {tg : Tg} {id : UInt64} (h : e.Lawful E v tg past)
    (hid : e.queryId = some id) : .generated e.thread id ∈ since e.thread past := by
  cases e with
  | returned i r =>
    cases r with
    | packet p msgid =>
      simp only [Event.queryId, Result.queryId] at hid
      split_ifs at hid with henc
      cases hid
      exact h.2 henc
    | _ => cases hid
  | _ => cases hid

theorem Event.isReturn_of_queryId {e : Event} {id : UInt64} (hid : e.queryId = some id) :
    e.isReturn e.thread = true := by
  cases e with
  | returned i r => exact decide_eq_true rfl
  | _ => cases hid

theorem eq_of_nodup_filterMap {α β : Type} {f : α → Option β} {l : List α}
    (hn : (l.filterMap f).Nodup) {a b : α} {x : β} (ha : a ∈ l) (hb : b ∈ l) (hfa : f a = some x)
    (hfb : f b = some x) : a = b := by
  by_contra hne
  have hpair := List.pairwise_filterMap.mp hn
  have : Std.Symm fun a b => ∀ x, f a = some x → ∀ y, f b = some y → x ≠ y :=
    ⟨fun a b h x hx y hy => (h y hy x hx).symm⟩
  exact hpair.forall ha hb hne x hfa x hfb rfl

theorem since_append_return {post : List Event} {e : Event} (he : e.isReturn i = true) :
    since i (post ++ e :: past) ⊆ post := by
  induction post with
  | nil =>
    rw [since, List.nil_append, List.takeWhile_cons, he]
    exact List.Subset.refl _
  | cons e' post ih =>
    rw [since, List.cons_append, List.takeWhile_cons]
    split_ifs
    · exact List.cons_subset_cons _ ih
    · exact List.nil_subset _

/-- Where ids are unique, so are those of queries: a thread that prepares a query has generated its
id since it last returned. -/
theorem queryIds_nodup (h : Chronicle (fun past e => e.Lawful E v (replay tg₀ past) past) log)
    (hn : (log.filterMap Event.generatedId).Nodup) : (queryIds log).Nodup := by
  induction log with
  | nil => exact List.nodup_nil
  | cons e past ih =>
    have hpast : (past.filterMap Event.generatedId).Nodup :=
      hn.sublist ((List.sublist_cons_self e past).filterMap _)
    rw [queryIds, List.filterMap_cons]
    cases hid : e.queryId with
    | none => exact ih h.2 hpast
    | some id =>
      refine List.nodup_cons.mpr ⟨fun hmem => ?_, ih h.2 hpast⟩
      obtain ⟨e', he', hid'⟩ := List.mem_filterMap.mp hmem
      have hgen := h.1.queryId hid
      obtain ⟨post, past', rfl⟩ := List.append_of_mem he'
      have hgen' : .generated e'.thread id ∈ past' := since_subset (h.2.at.1.queryId hid')
      have heq : Event.generated e.thread id = .generated e'.thread id :=
        eq_of_nodup_filterMap hpast (since_subset hgen)
          (List.mem_append_right _ (List.mem_cons_of_mem _ hgen')) rfl rfl
      have hthread : e.thread = e'.thread := (Event.generated.inj heq).1
      have hpost := since_append_return (hthread ▸ Event.isReturn_of_queryId hid') hgen
      rw [List.filterMap_append, List.nodup_append] at hpast
      refine hpast.2.2 id ?_ id ?_ rfl
      · exact List.mem_filterMap.mpr ⟨_, hpost, rfl⟩
      · exact List.mem_filterMap.mpr ⟨_, List.mem_cons_of_mem _ hgen', rfl⟩

theorem pairwise_range'_iff {α : Type} {r : α → α → Prop} [Trans r r r] {f : Nat → α}
    {a k : Nat} :
    ((List.range' a k).map f).Pairwise r ↔ ∀ n, a ≤ n → n + 1 < a + k → r (f n) (f (n + 1)) := by
  rw [← List.isChain_iff_pairwise, List.isChain_iff_getElem]
  simp only [List.getElem_map, List.getElem_range', List.length_map, List.length_range',
    Nat.one_mul]
  constructor
  · intro h n hn hlt
    have hstep := h (n - a) (by omega)
    rwa [Nat.add_sub_cancel' hn, ← Nat.add_assoc, Nat.add_sub_cancel' hn] at hstep
  · intro h m hm
    exact h (a + m) (Nat.le_add_right a m) (by omega)

section

variable (htd : tg₀.timediff = ntpTimeDiff)

include htd

theorem messageId_toNat (n : Nat) :
    (messageId E tg₀ n).toNat = 4 * ((E.clock n).toNat / 4) := by
  rw [messageId, htd, ntpTimeDiff, UInt64.add_zero, and_compl_three_toNat]

theorem messageId_lt {m n : Nat} :
    messageId E tg₀ m < messageId E tg₀ n ↔ E.clock m / 4 < E.clock n / 4 := by
  rw [UInt64.lt_iff_toNat_lt, UInt64.lt_iff_toNat_lt, messageId_toNat htd, messageId_toNat htd,
    UInt64.toNat_div, UInt64.toNat_div]
  show 4 * ((E.clock m).toNat / 4) < 4 * ((E.clock n).toNat / 4) ↔
    (E.clock m).toNat / 4 < (E.clock n).toNat / 4
  omega

theorem ids_increasing_iff
    (h : Chronicle (fun past e => e.Lawful E v (replay tg₀ past) past) log) :
    (ids log).Pairwise (· < ·) ↔ Ticks E tg₀.readings (replay tg₀ log).readings := by
  obtain ⟨hreadings, hids⟩ := ids_eq h
  rw [hids, hreadings, pairwise_range'_iff]
  exact forall_congr' fun n => imp_congr_right fun _ => imp_congr_right fun _ => messageId_lt htd

end

/-- The ids of a session's messages are in order exactly where the clock goes on by a tick of four
between any two readings. -/
theorem idsOk_iff {P : TgPool} {ok : TgPool → Pool.Move Call → Prop}
    (htd : tg₀.timediff = ntpTimeDiff) (hr : Reach (move E) ok (start tg₀) P) :
    (∀ i r, .returned i r ∈ P.shared.log → ∀ id ∈ r.msgIds, id ∈ ids P.shared.log) ∧
      (IdsOk P.shared.log ↔ Ticks E tg₀.readings P.shared.tg.readings) := by
  have hlaw := lawful (v := False) (fun P l _ => by cases l <;> simp [Pool.Calls]) hr
  refine ⟨fun i r hret id hid => ?_, ?_⟩
  · obtain ⟨post, past, heq, hrec⟩ := hlaw.lawful.of_mem hret
    obtain ⟨j, hgen⟩ := mem_ids.mp (hrec.msgIds id hid)
    exact mem_ids.mpr ⟨j, heq ▸ List.mem_append_right _ (List.mem_cons_of_mem _ hgen)⟩
  · rw [hlaw.session, ← ids_increasing_iff htd hlaw.lawful]
    refine ⟨IdsOk.increasing, fun hinc => ?_⟩
    have hnodup : (ids P.shared.log).Nodup := hinc.imp fun h => UInt64.ne_of_lt h
    refine ⟨fun id hid => ?_, hnodup, hinc, queryIds_nodup hlaw.lawful ?_⟩
    · rw [(ids_eq hlaw.lawful).2] at hid
      obtain ⟨n, -, rfl⟩ := List.mem_map.mp hid
      rw [messageId_toNat htd, Nat.mul_mod_right]
    · exact List.nodup_reverse.mp hnodup

/-- Two threads prepare a query each. -/
def twoQueries : List (Pool.Move Call) :=
  [.call 0 (.tgHeader [1, 2, 3, 4] true true 0), .call 1 (.tgHeader [5, 6, 7, 8] true true 0)] ++
    List.replicate 5 (.act 0) ++ List.replicate 5 (.act 1)

theorem idsOk_iff_twoQueries :
    ∃ P, Reach (move ticking) Any (start freshSession) P ∧ ids P.shared.log = [0, 4] ∧
      (IdsOk P.shared.log ↔ Ticks ticking 0 P.shared.tg.readings) := by
  obtain ⟨P, hr, hids⟩ : ∃ P, Reach (move ticking) Any (start freshSession) P ∧
      ids P.shared.log = [0, 4] :=
    Reach.of_run (fun P : TgPool => ids P.shared.log) twoQueries (fun _ _ _ => trivial)
      (by decide +kernel)
  exact ⟨P, hr, hids, (idsOk_iff rfl hr).2⟩

/-- The ids are in order whenever the clock does not go back. -/
def IdsAlwaysOk : Prop :=
  ∀ (E : Env) (tg₀ : Tg) (P : TgPool), tg₀.timediff = ntpTimeDiff →
    (∀ n, E.clock n ≤ E.clock (n + 1)) → Reach (move E) Any (start tg₀) P → IdsOk P.shared.log

/-- Two queries are prepared within one tick, and get the same id. -/
theorem idsAlwaysOk_counterexample : ¬ IdsAlwaysOk := by
  intro h
  obtain ⟨P, hr, hids⟩ : ∃ P, Reach (move ⟨fun _ => 8, fun _ => 0⟩) Any (start freshSession) P ∧
      queryIds P.shared.log = [8, 8] :=
    Reach.of_run (fun P : TgPool => queryIds P.shared.log) twoQueries (fun _ _ _ => trivial)
      (by decide +kernel)
  have hnodup := (h _ _ P rfl (fun _ => UInt64.le_refl 8) hr).queries
  rw [hids] at hnodup
  revert hnodup
  decide

/-! ## Numbers -/

def Event.isContent : Event → Bool
  | .numbered _ _ _ content => content
  | _ => false

/-- How many content-related messages there were. -/
def contents (log : List Event) : Nat := log.countP Event.isContent

/-- The number of a message tells how many content-related messages came before it. -/
def NumberOk (s₀ : Nat) (past : List Event) : Event → Prop
  | .numbered _ _ seqno content =>
    seqno.toNat = 2 * (s₀ + contents past) + if content then 1 else 0
  | _ => True

def Event.contentSeqno : Event → Option UInt32
  | .numbered _ _ seqno content => if content then some seqno else none
  | _ => none

theorem numbered_of_contentSeqno {e : Event} {sn : UInt32} (h : e.contentSeqno = some sn) :
    ∃ i id, e = .numbered i id sn true := by
  cases e with
  | numbered i id seqno content =>
    cases content
    · cases h
    · cases h
      exact ⟨i, id, rfl⟩
  | _ => cases h

/-- Ids, numbers and content-relatedness of the messages in a result. -/
def Result.headers : Result → List (UInt64 × UInt32 × Bool)
  | .none | .packet (.plain _ _) _ => []
  | .message m => [(m.msgId, m.seqno, m.content)]
  | .messages ms => ms.map fun m => (m.msgId, m.seqno, m.content)
  | .packet (.encrypted _ _ msgId seqno content data _) _ =>
    (msgId, seqno, content) :: data.messages.map fun m => (m.msgId, m.seqno, m.content)

/-- A container has no smaller number than the messages in it. -/
def Result.ContainerOk : Result → Prop
  | .packet (.encrypted _ _ _ seqno _ data _) _ => ∀ m ∈ data.messages, m.seqno ≤ seqno
  | _ => True

/-- What is expected of the numbers, where the counter was at `s₀`. -/
structure NumbersOk (s₀ : Nat) (s : SharedTg) : Prop where
  counter : s.tg.seqn.toNat = s₀ + contents s.log
  numbers : Chronicle (NumberOk s₀) s.log
  distinct : (s.log.filterMap Event.contentSeqno).Nodup
  returned : ∀ i r, .returned i r ∈ s.log → ∀ h ∈ r.headers, .numbered i h.1 h.2.1 h.2.2 ∈ s.log
  containers : ∀ i r, .returned i r ∈ s.log → r.ContainerOk

theorem contents_cons (e : Event) (past : List Event) :
    contents (e :: past) = contents past + if e.isContent then 1 else 0 := List.countP_cons

theorem contents_mono {log' : List Event} (h : log <:+ log') : contents log ≤ contents log' :=
  h.sublist.countP_le

theorem replay_seqn : (replay tg₀ log).seqn = tg₀.seqn + UInt32.ofNat (contents log) := by
  induction log with
  | nil => exact (UInt32.add_zero _).symm
  | cons e past ih =>
    rw [replay_cons, contents_cons]
    cases e with
    | numbered i msgId seqno content =>
      cases content
      · exact ih
      · show (replay tg₀ past).seqn + 1 = _
        rw [ih, UInt32.add_assoc]
        congr 1
        exact (UInt32.ofNat_add _ 1).symm
    | _ => exact ih

/-- The counter does not wrap. -/
theorem replay_seqn_toNat (hb : tg₀.seqn.toNat + contents log < 2 ^ 30) :
    (replay tg₀ log).seqn.toNat = tg₀.seqn.toNat + contents log := by
  rw [replay_seqn, UInt32.toNat_add, UInt32.toNat_ofNat']
  omega

theorem numbers_of_lawful
    (h : Chronicle (fun past e => e.Lawful E v (replay tg₀ past) past) log)
    (hb : tg₀.seqn.toNat + contents log < 2 ^ 30) :
    Chronicle (NumberOk tg₀.seqn.toNat) log := by
  induction log with
  | nil => trivial
  | cons e past ih =>
    have hpast : contents past ≤ contents (e :: past) := contents_mono (List.suffix_cons e past)
    refine ⟨?_, ih h.2 (by omega)⟩
    cases e with
    | numbered i msgId seqno content =>
      have hseqn : (replay tg₀ past).seqn.toNat = tg₀.seqn.toNat + contents past :=
        replay_seqn_toNat (by omega)
      rw [NumberOk, h.1.1]
      cases content
      · show ((replay tg₀ past).seqn * 2).toNat = _
        rw [UInt32.toNat_mul, hseqn]
        show _ * 2 % _ = _
        simp
        omega
      · show ((replay tg₀ past).seqn * 2 + 1).toNat = _
        rw [UInt32.toNat_add, UInt32.toNat_mul, hseqn]
        simp
        omega
    | _ => trivial

/-- Numbers do not descend, and ascend after a content-related message. -/
theorem number_mono {s₀ : Nat} {msgId msgId' : UInt64} {seqno seqno' : UInt32}
    {content content' : Bool}
    (h : Chronicle (NumberOk s₀) (.numbered j msgId' seqno' content' :: past))
    (he : .numbered i msgId seqno content ∈ past) :
    seqno.toNat + (if content then 1 else 0) ≤ seqno'.toNat := by
  obtain ⟨post, older, rfl⟩ := List.append_of_mem he
  have hnew : seqno'.toNat = _ := h.1
  have hold : seqno.toNat = _ := h.2.at.1
  have hcount : contents older + (if content then 1 else 0) ≤
      contents (post ++ .numbered i msgId seqno content :: older) :=
    calc contents older + (if content then 1 else 0)
        = contents (.numbered i msgId seqno content :: older) :=
           (contents_cons (.numbered i msgId seqno content) older).symm
      _ ≤ _ := contents_mono (List.suffix_append _ _)
  rw [hnew, hold]
  cases content <;> simp only [if_true, Bool.false_eq_true, if_false] at hcount ⊢ <;> omega

theorem contentSeqnos_nodup {s₀ : Nat} (h : Chronicle (NumberOk s₀) log) :
    (log.filterMap Event.contentSeqno).Nodup := by
  induction log with
  | nil => exact List.nodup_nil
  | cons e past ih =>
    rw [List.filterMap_cons]
    cases hsn : e.contentSeqno with
    | none => exact ih h.2
    | some sn =>
      refine List.nodup_cons.mpr ⟨fun hmem => ?_, ih h.2⟩
      obtain ⟨e', he', hsn'⟩ := List.mem_filterMap.mp hmem
      obtain ⟨i, id, rfl⟩ := numbered_of_contentSeqno hsn
      obtain ⟨i', id', rfl⟩ := numbered_of_contentSeqno hsn'
      exact absurd (number_mono h he') (Nat.not_succ_le_self _)

theorem Result.Recorded.headers {r : Result} (h : r.Recorded i log) :
    ∀ x ∈ r.headers, .numbered i x.1 x.2.1 x.2.2 ∈ log := by
  have hmem : ∀ {ms : List Message}, (∀ m ∈ ms, Threads.Recorded i log m) →
      ∀ x ∈ ms.map fun m => (m.msgId, m.seqno, m.content), .numbered i x.1 x.2.1 x.2.2 ∈ log := by
    intro ms hms x hx
    obtain ⟨m, hm, rfl⟩ := List.mem_map.mp hx
    exact since_subset (hms m hm).2
  cases r with
  | none => exact nofun
  | message m =>
    have hms : ∀ m' ∈ [m], Threads.Recorded i log m' := fun m' hm' => List.mem_singleton.mp hm' ▸ h
    exact hmem hms
  | messages ms => exact hmem fun m hm => DropsRecorded.recorded h hm
  | packet p msgid =>
    cases p with
    | plain msgId b => exact nofun
    | encrypted salt ssid msgId seqno content data padding =>
      obtain ⟨-, past, hpast, hdata⟩ := h.1
      refine List.forall_mem_cons.mpr ⟨hpast.subset List.mem_cons_self, hmem fun m hm => ?_⟩
      exact (hdata.recorded hm).mono ((Quiet.cons rfl).trans hpast)

theorem Result.Recorded.containerOk {r : Result} {s₀ : Nat} (h : r.Recorded i log)
    (hn : Chronicle (NumberOk s₀) log) : r.ContainerOk := by
  cases r with
  | packet p msgid =>
    cases p with
    | plain msgId b => trivial
    | encrypted salt ssid msgId seqno content data padding =>
      intro m hm
      obtain ⟨-, past, ⟨post, rfl, -⟩, hdata⟩ := h.1
      have hle := number_mono ⟨hn.at.1, hn.at.2⟩ (since_subset (hdata.recorded hm).2)
      exact UInt32.le_iff_toNat_le.mpr (le_trans (Nat.le_add_right _ _) hle)
  | _ => trivial

/-- The numbers of a session's messages, whatever its threads do. -/
theorem numbersOk {P : TgPool} {ok : TgPool → Pool.Move Call → Prop}
    (hr : Reach (move E) ok (start tg₀) P)
    (hb : tg₀.seqn.toNat + contents P.shared.log < 2 ^ 30) :
    NumbersOk tg₀.seqn.toNat P.shared := by
  have hlaw := lawful (v := False) (fun P l _ => by cases l <;> simp [Pool.Calls]) hr
  have hnum := numbers_of_lawful hlaw.lawful hb
  refine ⟨?_, hnum, contentSeqnos_nodup hnum, fun i r hret x hx => ?_, fun i r hret => ?_⟩
  · rw [hlaw.session]
    exact replay_seqn_toNat hb
  · obtain ⟨post, past, heq, hrec⟩ := hlaw.lawful.of_mem hret
    exact heq ▸ List.mem_append_right _ (List.mem_cons_of_mem _ (hrec.headers x hx))
  · obtain ⟨post, past, heq, hrec⟩ := hlaw.lawful.of_mem hret
    exact hrec.containerOk (heq ▸ hnum).at.2

/-- The answer to drop is numbered after the query, and the container after both. -/
theorem numbersOk_container :
    ∃ P, Reach (move ticking) Any
        (start { freshSession with seqn := 7, msgids := [3], todrop := [5] }) P ∧
      P.shared.log.filterMap Event.contentSeqno = [17, 15] ∧ NumbersOk 7 P.shared := by
  obtain ⟨P, hr, hlog⟩ : ∃ P, Reach (move ticking) Any
      (start { freshSession with seqn := 7, msgids := [3], todrop := [5] }) P ∧
      (P.shared.log.filterMap Event.contentSeqno, contents P.shared.log) = ([17, 15], 2) :=
    Reach.of_run
      (fun P : TgPool => (P.shared.log.filterMap Event.contentSeqno, contents P.shared.log))
      (.call 0 (.tgHeader [1, 2, 3, 4] true true 0) :: List.replicate 13 (.act 0))
      (fun _ _ _ => trivial) (by decide +kernel)
  obtain ⟨hseqnos, hcount⟩ := Prod.mk.inj hlog
  exact ⟨P, hr, hseqnos, numbersOk hr (by rw [hcount]; decide)⟩

/-! ## Numbers and ids -/

/-- Content-related messages with ascending ids have ascending numbers. -/
def InOrder (log : List Event) : Prop :=
  ∀ i j id id' sn sn', .numbered i id sn true ∈ log → .numbered j id' sn' true ∈ log →
    id < id' → sn < sn'

/-- Since thread `i` read the clock for this id, both were done for a content-related message with
another id: the clock was read, and a number drawn. -/
def Overtaken (i : Nat) (id : UInt64) (past : List Event) : Prop :=
  ∃ new older j id' sn', past = new ++ .generated i id :: older ∧ id' ≠ id ∧
    .generated j id' ∈ new ∧ .numbered j id' sn' true ∈ new

def NotOvertaken (past : List Event) : Event → Prop
  | .numbered i id _ true => ¬ Overtaken i id past
  | _ => True

/-- From reading `a` on and before reading `b`, the clock ascends. -/
def Ascending (E : Env) (a b : Nat) : Prop :=
  ∀ n, a ≤ n → n + 1 < b → E.clock n < E.clock (n + 1)

theorem ids_ascending (htd : tg₀.timediff = ntpTimeDiff)
    (h : Chronicle (fun past e => e.Lawful E v (replay tg₀ past) past) log)
    (hclock : Ascending E tg₀.readings (replay tg₀ log).readings) :
    (ids log).Pairwise (· ≤ ·) := by
  obtain ⟨hreadings, hids⟩ := ids_eq h
  rw [hids, pairwise_range'_iff]
  intro n hn hlt
  have hstep := UInt64.lt_iff_toNat_lt.mp (hclock n hn (hreadings ▸ hlt))
  rw [UInt64.le_iff_toNat_le, messageId_toNat htd, messageId_toNat htd]
  exact Nat.mul_le_mul_left 4 (Nat.div_le_div_right hstep.le)

/-- Ids ascend in the order in which they are generated. -/
theorem generated_order {new older : List Event} {id id' : UInt64}
    (h : (ids (new ++ .generated i id :: older)).Pairwise (· ≤ ·)) :
    (.generated j id' ∈ new → id ≤ id') ∧ (.generated j id' ∈ older → id' ≤ id) := by
  have hids : ids (new ++ .generated i id :: older) = ids older ++ id :: ids new := by
    rw [ids, List.filterMap_append, List.filterMap_cons, List.reverse_append]
    show (id :: _).reverse ++ _ = _
    rw [List.reverse_cons, List.append_assoc]
    rfl
  rw [hids, List.pairwise_append, List.pairwise_cons] at h
  refine ⟨fun hj => h.2.1.1 id' (mem_ids.mpr ⟨j, hj⟩), fun hj => ?_⟩
  exact h.2.2 id' (mem_ids.mpr ⟨j, hj⟩) id List.mem_cons_self

theorem notOvertaken_of_inOrder {s₀ : Nat} (hids : (ids log).Pairwise (· ≤ ·))
    (hnum : Chronicle (NumberOk s₀) log) (h : InOrder log) : Chronicle NotOvertaken log := by
  induction log with
  | nil => trivial
  | cons e past ih =>
    have hids' : (ids past).Pairwise (· ≤ ·) := by
      refine hids.sublist (List.Sublist.reverse ?_)
      exact (List.sublist_cons_self e past).filterMap _
    refine ⟨?_, ih hids' hnum.2 fun i j id id' sn sn' hi hj =>
      h i j id id' sn sn' (List.mem_cons_of_mem e hi) (List.mem_cons_of_mem e hj)⟩
    cases e with
    | numbered i id sn content =>
      cases content with
      | false => trivial
      | true =>
        rintro ⟨new, older, j, id', sn', rfl, hne, hgen, hj⟩
        have hle : id ≤ id' := (generated_order hids').1 hgen
        have hj' := List.mem_append_left (.generated i id :: older) hj
        have hlt : sn < sn' := h i j id id' sn sn' List.mem_cons_self
          (List.mem_cons_of_mem _ hj') (UInt64.lt_of_le_of_ne hle hne.symm)
        have hgt : sn'.toNat + 1 ≤ sn.toNat := number_mono hnum hj'
        rw [UInt32.lt_iff_toNat_lt] at hlt
        omega
    | _ => trivial

/-- A message whose id is larger, and which has its number, was given both since. -/
theorem overtaken_of_mem {id id' : UInt64} {sn' : UInt32}
    (hlaw : Chronicle (fun past e => e.Lawful E v (replay tg₀ past) past) log)
    (hids : (ids log).Pairwise (· ≤ ·)) (hgen : .generated i id ∈ log)
    (hj : .numbered j id' sn' true ∈ log) (hlt : id < id') : Overtaken i id log := by
  obtain ⟨new, older, rfl⟩ := List.append_of_mem hgen
  have horder : (.generated j id' ∈ new → id ≤ id') ∧ (.generated j id' ∈ older → id' ≤ id) :=
    generated_order hids
  have hne : id' ≠ id := (UInt64.ne_of_lt hlt).symm
  have hnot : .generated j id' ∉ older := fun h => UInt64.not_le.mpr hlt (horder.2 h)
  refine ⟨new, older, j, id', sn', rfl, hne, ?_⟩
  obtain hnew | hrest := List.mem_append.mp hj
  · refine ⟨?_, hnew⟩
    obtain ⟨post, past, rfl⟩ := List.append_of_mem hnew
    rw [List.append_assoc, List.cons_append] at hlaw
    obtain hpast | hrest := List.mem_append.mp (since_subset hlaw.at.1.2)
    · exact List.mem_append_right _ (List.mem_cons_of_mem _ hpast)
    · obtain heq | holder := List.mem_cons.mp hrest
      · exact absurd (Event.generated.inj heq).2 hne
      · exact absurd holder hnot
  · obtain heq | holder := List.mem_cons.mp hrest
    · cases heq
    · obtain ⟨post, past, rfl⟩ := List.append_of_mem holder
      have hpast := since_subset (hlaw.at.2.at.1.2)
      exact absurd (List.mem_append_right _ (List.mem_cons_of_mem _ hpast)) hnot

theorem inOrder_of_notOvertaken {s₀ : Nat}
    (hlaw : Chronicle (fun past e => e.Lawful E v (replay tg₀ past) past) log)
    (hids : (ids log).Pairwise (· ≤ ·)) (hnum : Chronicle (NumberOk s₀) log)
    (h : Chronicle NotOvertaken log) : InOrder log := by
  induction log with
  | nil => exact nofun
  | cons e past ih =>
    have hids' : (ids past).Pairwise (· ≤ ·) := by
      refine hids.sublist (List.Sublist.reverse ?_)
      exact (List.sublist_cons_self e past).filterMap _
    intro i j id id' sn sn' hi hj hlt
    obtain hi' | hi' := List.mem_cons.mp hi <;> obtain hj' | hj' := List.mem_cons.mp hj
    · cases hi'.trans hj'.symm
      exact absurd hlt (UInt64.lt_irrefl id)
    · subst hi'
      exact absurd (overtaken_of_mem hlaw.2 hids' (since_subset hlaw.1.2) hj' hlt) h.1
    · subst hj'
      exact UInt32.lt_iff_toNat_lt.mpr (number_mono hnum hi')
    · exact ih hlaw.2 hids' hnum.2 h.2 i j id id' sn sn' hi' hj' hlt

/-- Numbers ascend with the ids exactly where no thread is overtaken between its reading of the
clock and its section of `seqnm`. -/
theorem inOrder_iff {P : TgPool} {ok : TgPool → Pool.Move Call → Prop}
    (htd : tg₀.timediff = ntpTimeDiff) (hr : Reach (move E) ok (start tg₀) P)
    (hclock : Ascending E tg₀.readings P.shared.tg.readings)
    (hb : tg₀.seqn.toNat + contents P.shared.log < 2 ^ 30) :
    InOrder P.shared.log ↔ Chronicle NotOvertaken P.shared.log := by
  have hlaw := lawful (v := False) (fun P l _ => by cases l <;> simp [Pool.Calls]) hr
  have hids := ids_ascending htd hlaw.lawful (hlaw.session ▸ hclock)
  have hnum := numbers_of_lawful hlaw.lawful hb
  exact ⟨notOvertaken_of_inOrder hids hnum, inOrder_of_notOvertaken hlaw.lawful hids hnum⟩

/-- While a query is between its id and its number, another thread prepares one. -/
def overtaking : List (Pool.Move Call) :=
  .call 0 (.tgHeader [1, 2, 3, 4] true true 0) :: List.replicate 3 (.act 0) ++
    .call 1 (.tgHeader [5, 6, 7, 8] true true 0) :: List.replicate 5 (.act 1) ++
    List.replicate 2 (.act 0)

theorem ticking_ascending {b : Nat} (hb : b ≤ 2) : Ascending ticking 0 b := by
  intro n _ hn
  have hzero : n = 0 := by omega
  rw [hzero]
  decide

theorem overtaking_run :
    ∃ P, Reach (move ticking) Any (start freshSession) P ∧ P.shared.tg.readings = 2 ∧
      contents P.shared.log = 2 ∧ .numbered 0 0 3 true ∈ P.shared.log ∧
      .numbered 1 4 1 true ∈ P.shared.log := by
  obtain ⟨P, hr, hP⟩ : ∃ P, Reach (move ticking) Any (start freshSession) P ∧
      (P.shared.tg.readings, contents P.shared.log, decide (.numbered 0 0 3 true ∈ P.shared.log),
        decide (.numbered 1 4 1 true ∈ P.shared.log)) = (2, 2, true, true) :=
    Reach.of_run (fun P : TgPool => (P.shared.tg.readings, contents P.shared.log,
      decide (.numbered 0 0 3 true ∈ P.shared.log), decide (.numbered 1 4 1 true ∈ P.shared.log)))
      overtaking (fun _ _ _ => trivial) (by decide +kernel)
  simp only [Prod.mk.injEq, decide_eq_true_eq] at hP
  exact ⟨P, hr, hP⟩

theorem inOrder_iff_overtaking :
    ∃ P, Reach (move ticking) Any (start freshSession) P ∧ contents P.shared.log = 2 ∧
      (InOrder P.shared.log ↔ Chronicle NotOvertaken P.shared.log) := by
  obtain ⟨P, hr, hreadings, hcount, -⟩ := overtaking_run
  refine ⟨P, hr, hcount, inOrder_iff rfl hr ?_ ?_⟩
  · exact ticking_ascending hreadings.le
  · rw [hcount]
    decide

/-- Numbers ascend with ids in every session of less than `2 ^ 30` messages. -/
def AlwaysInOrder : Prop :=
  ∀ (E : Env) (tg₀ : Tg) (P : TgPool), tg₀.timediff = ntpTimeDiff →
    Reach (move E) Any (start tg₀) P → Ascending E tg₀.readings P.shared.tg.readings →
    tg₀.seqn.toNat + contents P.shared.log < 2 ^ 30 → InOrder P.shared.log

theorem alwaysInOrder_counterexample : ¬ AlwaysInOrder := by
  intro h
  obtain ⟨P, hr, hreadings, hcount, h₀, h₁⟩ := overtaking_run
  have hbound : freshSession.seqn.toNat + contents P.shared.log < 2 ^ 30 := by
    rw [hcount]
    decide
  have horder := h ticking freshSession P rfl hr (ticking_ascending hreadings.le) hbound
  exact absurd (horder 0 1 0 4 3 1 h₀ h₁ (by decide)) (by decide)

end Threads

end Libtg
