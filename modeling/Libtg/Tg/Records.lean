import Libtg.Tg.Threads

/-!
# The log of a session

Each event of a run tells what it did to the session (`Event.apply`), so the session is what its log
says (`replay`). `lawful`: whatever the threads do, every event is lawful where it happens. An id is
the reading of the clock, a number is the counter's and for an id the thread has, what is
acknowledged or dropped is all that is pending, and what a thread returns is what it has built since
it last returned.

Lawful is what each thread guarantees (`Guar`). It relies on the others to not return in its place,
and to leave `tg->todrop` alone while it holds `todropm` (`Rely`).
-/

namespace Libtg.Threads

open Transition LittleEndian

variable {E : Env} {v : Prop} {i j : Nat} {s t : SharedTg} {log log' : List Event}

/-! ## A thread's events since it last returned -/

def Event.thread : Event → Nat
  | .generated i _ | .numbered i _ _ _ | .acked i _ | .dropped i _ | .addedMsgid i _
  | .addedTodrop i _ | .returned i _ => i

def Event.isReturn (i : Nat) : Event → Bool
  | .returned j _ => j = i
  | _ => false

theorem Event.isReturn_of_ne {e : Event} (he : e.thread ≠ i) : e.isReturn i = false := by
  cases e with
  | returned j r => exact decide_eq_false he
  | _ => rfl

/-- What happened since thread `i` last returned. -/
def since (i : Nat) (log : List Event) : List Event := log.takeWhile fun e => !e.isReturn i

theorem since_subset : since i log ⊆ log := (List.takeWhile_sublist _).subset

/-- The log grows, and thread `i` does not return. -/
def Quiet (i : Nat) (log log' : List Event) : Prop :=
  ∃ new, log' = new ++ log ∧ ∀ e ∈ new, e.isReturn i = false

theorem Quiet.refl (log : List Event) : Quiet i log log := ⟨[], rfl, nofun⟩

theorem Quiet.cons {e : Event} (he : e.isReturn i = false) : Quiet i log (e :: log) :=
  ⟨[e], rfl, fun _ h => List.mem_singleton.mp h ▸ he⟩

theorem Quiet.trans {log'' : List Event} (h : Quiet i log log') (h' : Quiet i log' log'') :
    Quiet i log log'' := by
  obtain ⟨new, rfl, hnew⟩ := h
  obtain ⟨new', rfl, hnew'⟩ := h'
  refine ⟨new' ++ new, (List.append_assoc _ _ _).symm, fun e he => ?_⟩
  exact (List.mem_append.mp he).elim (hnew' e) (hnew e)

theorem Quiet.since_eq {new : List Event} (h : ∀ e ∈ new, e.isReturn i = false) :
    since i (new ++ log) = new ++ since i log :=
  List.takeWhile_append_of_pos fun e he => by rw [h e he, Bool.not_false]

theorem Quiet.since_subset (h : Quiet i log log') : since i log ⊆ since i log' := by
  obtain ⟨new, rfl, hnew⟩ := h
  rw [Quiet.since_eq hnew]
  exact List.subset_append_right _ _

theorem Quiet.subset (h : Quiet i log log') : log ⊆ log' := by
  obtain ⟨new, rfl, -⟩ := h
  exact List.subset_append_right _ _

theorem mem_since_cons {e : Event} (he : e.isReturn i = false) : e ∈ since i (e :: log) := by
  rw [since, List.takeWhile_cons, he]
  exact List.mem_cons_self

/-! ## Records -/

/-- The thread built this message. -/
def Recorded (i : Nat) (log : List Event) (m : Message) : Prop :=
  .generated i m.msgId ∈ since i log ∧ .numbered i m.msgId m.seqno m.content ∈ since i log

/-- The thread took these ids, and these messages drop them. -/
def DropsRecorded (i : Nat) (log : List Event) (ms : List Message) : Prop :=
  ms = [] ∨ ∃ ids, .dropped i ids ∈ since i log ∧
    ms.map Message.body = ids.map tlRpcDropAnswer ∧ ∀ m ∈ ms, Recorded i log m

/-- The thread built what is in the data: in a container, first the query's message, then the
acknowledgements it took, and the answers to drop. -/
def Data.Recorded (i : Nat) (log : List Event) : Data → Prop
  | .query _ => True
  | .container msgs => ∃ msg₀ msg₁ todrop ids, msgs = msg₀ :: msg₁ :: todrop ∧
      Threads.Recorded i log msg₀ ∧ Threads.Recorded i log msg₁ ∧
      .acked i ids ∈ since i log ∧ msg₁.body = tlMsgsAck ids ∧ DropsRecorded i log todrop

/-- The thread built this packet: first what is inside, then the number of its own. -/
def Packet.Recorded (i : Nat) (log : List Event) : Packet → Prop
  | .plain msgId _ => .generated i msgId ∈ since i log
  | .encrypted _ _ msgId seqno content data _ =>
    .generated i msgId ∈ since i log ∧ ∃ past,
      Quiet i (.numbered i msgId seqno content :: past) log ∧ data.Recorded i past

def Packet.isEncrypted : Packet → Bool
  | .plain _ _ => false
  | .encrypted .. => true

def Result.Recorded (i : Nat) (log : List Event) : Result → Prop
  | .none => True
  | .message m => Threads.Recorded i log m
  | .messages ms => DropsRecorded i log ms
  | .packet p msgid => p.Recorded i log ∧ (p.isEncrypted → .generated i msgid ∈ since i log)

theorem Recorded.mono {m : Message} (h : Recorded i log m) (hl : Quiet i log log') :
    Recorded i log' m := ⟨hl.since_subset h.1, hl.since_subset h.2⟩

theorem DropsRecorded.mono {ms : List Message} (h : DropsRecorded i log ms)
    (hl : Quiet i log log') : DropsRecorded i log' ms := by
  obtain h | ⟨ids, hdropped, hbody, hms⟩ := h
  · exact .inl h
  · exact .inr ⟨ids, hl.since_subset hdropped, hbody, fun m hm => (hms m hm).mono hl⟩

theorem Data.Recorded.mono {data : Data} (h : data.Recorded i log) (hl : Quiet i log log') :
    data.Recorded i log' := by
  cases data with
  | query b => trivial
  | container msgs =>
    obtain ⟨msg₀, msg₁, todrop, ids, hmsgs, h₀, h₁, hacked, hbody, hdrop⟩ := h
    exact ⟨msg₀, msg₁, todrop, ids, hmsgs, h₀.mono hl, h₁.mono hl, hl.since_subset hacked, hbody,
      hdrop.mono hl⟩

theorem Packet.Recorded.mono {p : Packet} (h : p.Recorded i log) (hl : Quiet i log log') :
    p.Recorded i log' := by
  cases p with
  | plain msgId b => exact hl.since_subset h
  | encrypted salt ssid msgId seqno content data padding =>
    obtain ⟨hgen, past, hpast, hdata⟩ := h
    exact ⟨hl.since_subset hgen, past, hpast.trans hl, hdata⟩

theorem Result.Recorded.mono {r : Result} (h : r.Recorded i log) (hl : Quiet i log log') :
    r.Recorded i log' := by
  cases r with
  | none => trivial
  | message m => exact Threads.Recorded.mono h hl
  | messages ms => exact DropsRecorded.mono h hl
  | packet p msgid => exact ⟨Packet.Recorded.mono h.1 hl, fun henc => hl.since_subset (h.2 henc)⟩

theorem DropsRecorded.recorded {ms : List Message} (h : DropsRecorded i log ms) {m : Message}
    (hm : m ∈ ms) : Recorded i log m := by
  obtain rfl | ⟨ids, -, -, hms⟩ := h
  · exact absurd hm List.not_mem_nil
  · exact hms m hm

theorem Data.Recorded.recorded {data : Data} (h : data.Recorded i log) {m : Message}
    (hm : m ∈ data.messages) : Threads.Recorded i log m := by
  cases data with
  | query b => exact absurd hm List.not_mem_nil
  | container msgs =>
    obtain ⟨msg₀, msg₁, todrop, ids, rfl, h₀, h₁, -, -, hdrop⟩ := h
    obtain rfl | hm := List.mem_cons.mp hm
    · exact h₀
    obtain rfl | hm := List.mem_cons.mp hm
    · exact h₁
    · exact hdrop.recorded hm

/-! ## Lawful events -/

/-- What an event does to the session. -/
def Event.apply : Event → Tg → Tg
  | .generated _ _, tg => { tg with readings := tg.readings + 1 }
  | .numbered _ _ _ content, tg => if content then { tg with seqn := tg.seqn + 1 } else tg
  | .acked _ _, tg => { tg with msgids := [] }
  | .dropped _ _, tg => { tg with todrop := [] }
  | .addedMsgid _ msgid, tg => { tg with msgids := tg.msgids ++ [msgid] }
  | .addedTodrop _ msgid, tg => { tg with todrop := tg.todrop ++ [msgid] }
  | .returned _ _, tg => tg

/-- The session after what the log says. -/
def replay (tg₀ : Tg) (log : List Event) : Tg := log.foldr Event.apply tg₀

@[simp] theorem replay_cons (tg₀ : Tg) (e : Event) (log : List Event) :
    replay tg₀ (e :: log) = e.apply (replay tg₀ log) := rfl

/-- What can happen to a session. Under `v`, `tg_to_drop` is called by `tg_header` only, which has
called `tg_ack` before. -/
def Event.Lawful (E : Env) (v : Prop) (tg : Tg) (past : List Event) : Event → Prop
  | .generated _ msgId => msgId = (tgGetCurrentTime E tg).1
  | .numbered i msgId seqno content =>
    seqno = (Libtg.nextSeqno content tg).1 ∧ .generated i msgId ∈ since i past
  | .acked _ ids => ids = tg.msgids
  | .dropped i ids => ids = tg.todrop ∧ (v → ∃ ids', .acked i ids' ∈ since i past)
  | .addedMsgid _ _ | .addedTodrop _ _ => True
  | .returned i r => r.Recorded i past

/-- Thread `i` is in `tg_to_drop`, for these ids. -/
def Holds (i : Nat) (ids : List UInt64) (s : SharedTg) : Prop :=
  s.todropm = some i ∧ s.tg.todrop = ids

/-- What thread `i` relies on. -/
structure Rely (i : Nat) (s t : SharedTg) : Prop where
  quiet : Quiet i s.log t.log
  held : ∀ ids, Holds i ids s → Holds i ids t

/-- What thread `i` guarantees. -/
structure Guar (E : Env) (v : Prop) (i : Nat) (s t : SharedTg) : Prop where
  logged : (t.log = s.log ∧ t.tg = s.tg) ∨ ∃ e, e.thread = i ∧ t.log = e :: s.log ∧
    t.tg = e.apply s.tg ∧ e.Lawful E v s.tg s.log
  held : ∀ j ids, j ≠ i → Holds j ids s → Holds j ids t

/-- What it guarantees within a call. -/
def InCall (E : Env) (v : Prop) (i : Nat) (s t : SharedTg) : Prop :=
  Guar E v i s t ∧ Quiet i s.log t.log

theorem Rely.refl (s : SharedTg) : Rely i s s := ⟨Quiet.refl _, fun _ => id⟩

theorem Rely.trans {u : SharedTg} (h : Rely i s t) (h' : Rely i t u) : Rely i s u :=
  ⟨h.quiet.trans h'.quiet, fun ids hs => h'.held ids (h.held ids hs)⟩

theorem Guar.rely (h : Guar E v j s t) (hne : i ≠ j) : Rely i s t := by
  refine ⟨?_, fun ids => h.held i ids hne⟩
  obtain ⟨hlog, -⟩ | ⟨e, he, hlog, -⟩ := h.logged
  · exact hlog ▸ Quiet.refl _
  · exact hlog ▸ Quiet.cons (Event.isReturn_of_ne (he ▸ hne.symm))

theorem InCall.of_event {e : Event} (he : e.thread = i) (hret : e.isReturn i = false)
    (hlog : t.log = e :: s.log) (htg : t.tg = e.apply s.tg) (hlaw : e.Lawful E v s.tg s.log)
    (hheld : ∀ j ids, j ≠ i → Holds j ids s → Holds j ids t) : InCall E v i s t :=
  ⟨⟨.inr ⟨e, he, hlog, htg, hlaw⟩, hheld⟩, hlog ▸ Quiet.cons hret⟩

/-- At most one thread is in `tg_to_drop`. -/
theorem Holds.eq {ids ids' : List UInt64} (h : Holds i ids s) (h' : Holds j ids' s) : j = i :=
  Option.some.inj (h'.1.symm.trans h.1)

/-- What must be the case before an action. -/
def Action.Ready (v : Prop) (i : Nat) (s : SharedTg) : Action → Prop
  | .nextSeqno _ msgId => .generated i msgId ∈ since i s.log
  | .clearTodrop ids => Holds i ids s ∧ (v → ∃ ids', .acked i ids' ∈ since i s.log)
  | _ => True

/-- Actions are within the guarantee. -/
theorem handle_inCall {a : Action} {r : Answer a} (ha : a.Ready v i s)
    (h : handle E i a s = some (r, t)) : InCall E v i s t := by
  cases a with
  | currentTime =>
    cases h
    exact .of_event (e := .generated i _) rfl rfl rfl rfl rfl fun _ _ _ => id
  | nextSeqno content msgId =>
    cases h
    refine .of_event (e := .numbered i msgId _ content) rfl rfl rfl ?_ ⟨rfl, ha⟩ ?_
    · cases content <;> rfl
    · intro j ids _ hj
      cases content <;> exact hj
  | takeMsgids =>
    simp only [handle] at h
    split_ifs at h <;> cases h
    · exact ⟨⟨.inl ⟨rfl, rfl⟩, fun _ _ _ => id⟩, Quiet.refl _⟩
    · exact .of_event (e := .acked i _) rfl rfl rfl rfl rfl fun _ _ _ => id
  | addMsgid msgid =>
    cases h
    exact .of_event (e := .addedMsgid i msgid) rfl rfl rfl rfl trivial fun _ _ _ => id
  | addTodrop msgid =>
    simp only [handle] at h
    split_ifs at h with hfree
    cases h
    refine .of_event (e := .addedTodrop i msgid) rfl rfl rfl rfl trivial fun j ids _ hj => ?_
    exact absurd (Option.isSome_iff_exists.mpr ⟨j, hj.1⟩) hfree
  | lockTodrop =>
    simp only [handle] at h
    split_ifs at h with hfree <;> cases h
    · exact ⟨⟨.inl ⟨rfl, rfl⟩, fun _ _ _ => id⟩, Quiet.refl _⟩
    · refine ⟨⟨.inl ⟨rfl, rfl⟩, fun j ids _ hj => ?_⟩, Quiet.refl _⟩
      exact absurd (Option.isSome_iff_exists.mpr ⟨j, hj.1⟩) hfree
  | clearTodrop ids =>
    cases h
    obtain ⟨hheld, hack⟩ := ha
    refine .of_event (e := .dropped i ids) rfl rfl rfl rfl ⟨hheld.2.symm, hack⟩ ?_
    exact fun j ids' hne hj => absurd (hheld.eq hj) hne
  | keys =>
    cases h
    exact ⟨⟨.inl ⟨rfl, rfl⟩, fun _ _ _ => id⟩, Quiet.refl _⟩

/-! ## The triples -/

abbrev Triple (E : Env) (v : Prop) (i : Nat) {α : Type} (p : Program α) (s : SharedTg)
    (Q : α → SharedTg → Prop) : Prop :=
  Ensures (handle E) (Rely i) (InCall E v i) i p s Q

variable {α β : Type} {p : Program α} {P Q : α → SharedTg → Prop}

theorem triple_done {x : α} (hQ : ∀ t, Rely i s t → Q x t) : Triple E v i (.done x) s Q := hQ

theorem triple_act {a : Action} {k : Answer a → Program α} (ha : ∀ s', Rely i s s' → a.Ready v i s')
    (hk : ∀ s' r t, Rely i s s' → handle E i a s' = some (r, t) → Triple E v i (k r) t Q) :
    Triple E v i (.act a k) s Q := by
  intro s' hs' r t hr
  exact ⟨handle_inCall (ha s' hs') hr, hk s' r t hs' hr⟩

theorem triple_bind {f : α → Program β} {Q : β → SharedTg → Prop} (hp : Triple E v i p s P)
    (hf : ∀ x t, Quiet i s.log t.log → P x t → Triple E v i (f x) t Q) :
    Triple E v i (p >>= f) s Q := by
  have hsince : Triple E v i p s fun x t => P x t ∧ Quiet i s.log t.log :=
    hp.since (T := fun s t => Quiet i s.log t.log) (fun _ _ _ => Quiet.trans)
      (fun _ _ h => h.quiet) fun _ _ h => h.2
  exact Ensures.bind Rely.refl (hsince.mono fun x t h => hf x t h.2 h.1)

theorem triple_currentTime :
    Triple E v i currentTime s fun msgId t =>
      .generated i msgId ∈ since i t.log ∧ ∀ ids, Holds i ids s → Holds i ids t := by
  refine triple_act (fun _ _ => trivial) fun s' msgId t hs' hr => ?_
  cases hr
  refine triple_done fun u hu => ⟨hu.quiet.since_subset (mem_since_cons rfl), ?_⟩
  exact fun ids hs => hu.held ids (hs'.held ids hs)

/-- The section of `seqnm` for a message that has its id. -/
theorem triple_nextSeqno {content : Bool} {msgId : UInt64} {f : UInt32 → α}
    (hgen : .generated i msgId ∈ since i s.log)
    (hQ : ∀ seqno s' u, Rely i s s' → Quiet i (.numbered i msgId seqno content :: s'.log) u.log →
      (∀ ids, Holds i ids s' → Holds i ids u) → Q (f seqno) u) :
    Triple E v i (.act (.nextSeqno content msgId) fun seqno => .done (f seqno)) s Q := by
  refine triple_act (fun s' hs' => hs'.quiet.since_subset hgen) fun s' seqno t hs' hr => ?_
  cases hr
  refine triple_done fun u hu => hQ _ s' u hs' hu.quiet fun ids hs => hu.held ids ?_
  cases content <;> exact hs

theorem triple_tgMtpMessage (payload : Bytes) (content : Bool) :
    Triple E v i (tgMtpMessage payload content) s fun m t =>
      (Recorded i t.log m ∧ m.body = payload) ∧ ∀ ids, Holds i ids s → Holds i ids t := by
  refine triple_bind triple_currentTime fun msgId t _ hgen => triple_nextSeqno hgen.1 ?_
  intro seqno s' u hs' hu hheld
  have hnew : Quiet i s'.log u.log := (Quiet.cons rfl).trans hu
  have hnum : .numbered i msgId seqno content ∈ since i u.log :=
    hu.since_subset (mem_since_cons rfl)
  refine ⟨⟨⟨(hs'.quiet.trans hnew).since_subset hgen.1, hnum⟩, rfl⟩, fun ids hs => ?_⟩
  exact hheld ids (hs'.held ids (hgen.2 ids hs))

theorem triple_drops (ids : List UInt64) :
    Triple E v i (ids.mapM fun id => tgMtpMessage (tlRpcDropAnswer id) true) s fun ms t =>
      (ms.map Message.body = ids.map tlRpcDropAnswer ∧ ∀ m ∈ ms, Recorded i t.log m) ∧
        ∀ held, Holds i held s → Holds i held t := by
  induction ids generalizing s with
  | nil => exact triple_done fun t ht => ⟨⟨rfl, nofun⟩, ht.held⟩
  | cons id ids ih =>
    rw [List.mapM_cons]
    refine triple_bind (triple_tgMtpMessage (tlRpcDropAnswer id) true) fun m t _ hm => ?_
    refine triple_bind ih fun ms u htu hms => triple_done fun w huw => ⟨⟨?_, ?_⟩, ?_⟩
    · rw [List.map_cons, List.map_cons, hm.1.2, hms.1.1]
    · refine List.forall_mem_cons.mpr ⟨hm.1.1.mono (htu.trans huw.quiet), fun m' hm' => ?_⟩
      exact (hms.1.2 m' hm').mono huw.quiet
    · exact fun held hs => huw.held held (hms.2 held (hm.2 held hs))

/-- Within `tg_header`, `tg_ack` came before. -/
theorem triple_tgToDrop (hack : v → ∃ ids, .acked i ids ∈ since i s.log) :
    Triple E v i tgToDrop s fun ms t => DropsRecorded i t.log ms := by
  rw [tgToDrop, Prog.act_bind]
  refine triple_act (fun _ _ => trivial) fun s₁ ids t hs₁ ht => ?_
  rw [Prog.done_bind]
  split_ifs with hlen
  · exact triple_done fun _ _ => .inl rfl
  · have hheld : Holds i ids t ∧ t.log = s₁.log := by
      simp only [handle] at ht
      split_ifs at ht <;> cases ht
      · exact absurd Nat.one_pos hlen
      · exact ⟨⟨rfl, rfl⟩, rfl⟩
    refine triple_bind (triple_drops ids) fun ms u htu hms => ?_
    refine triple_act (fun u' huu' => ?_) fun u' _ w huu' hw => ?_
    · have hsince : Quiet i s.log u'.log :=
        hs₁.quiet.trans ((hheld.2 ▸ htu).trans huu'.quiet)
      refine ⟨huu'.held ids (hms.2 ids hheld.1), fun hv => ?_⟩
      obtain ⟨ids', hacked⟩ := hack hv
      exact ⟨ids', hsince.since_subset hacked⟩
    · cases hw
      refine triple_done fun x hx => .inr ⟨ids, ?_, hms.1.1, fun m hm => ?_⟩
      · exact hx.quiet.since_subset (mem_since_cons rfl)
      · exact (hms.1.2 m hm).mono (huu'.quiet.trans ((Quiet.cons rfl).trans hx.quiet))

theorem triple_tgAck :
    Triple E v i tgAck s fun ack t => ack.length > 0 →
      ∃ ids, .acked i ids ∈ since i t.log ∧ ack = tlMsgsAck ids := by
  rw [tgAck, Prog.act_bind]
  refine triple_act (fun _ _ => trivial) fun s₁ ids t _ ht => ?_
  rw [Prog.done_bind]
  split_ifs with hlen
  · exact triple_done fun _ _ h => absurd h (Nat.lt_irrefl 0)
  · simp only [handle] at ht
    split_ifs at ht <;> cases ht
    · exact absurd Nat.one_pos hlen
    · exact triple_done fun u hu _ => ⟨_, hu.quiet.since_subset (mem_since_cons rfl), rfl⟩

/-- The data, and the id of the query's message in a container. -/
theorem triple_tgHeaderData (b : Bytes) (content : Bool) :
    Triple E v i (tgHeaderData b content) s fun r t =>
      r.1.Recorded i t.log ∧ (r.2.2 = 0 ∨ .generated i r.2.2 ∈ since i t.log) := by
  refine triple_bind triple_tgAck fun ack t _ hack => ?_
  split_ifs with hlen
  · obtain ⟨ids, hacked, rfl⟩ := hack hlen
    refine triple_bind (triple_tgMtpMessage b true) fun msg₀ t₀ ht₀ h₀ => ?_
    refine triple_bind (triple_tgMtpMessage (tlMsgsAck ids) false) fun msg₁ t₁ h₀₁ h₁ => ?_
    have hacked₁ : .acked i ids ∈ since i t₁.log := (ht₀.trans h₀₁).since_subset hacked
    refine triple_bind (triple_tgToDrop fun _ => ⟨ids, hacked₁⟩) fun todrop t₂ h₁₂ hdrop => ?_
    refine triple_done fun u hu => ?_
    have hsince₁ : Quiet i t₁.log u.log := h₁₂.trans hu.quiet
    have hmsg₀ : Recorded i u.log msg₀ := h₀.1.1.mono (h₀₁.trans hsince₁)
    exact ⟨⟨msg₀, msg₁, todrop, ids, rfl, hmsg₀, h₁.1.1.mono hsince₁,
      hsince₁.since_subset hacked₁, h₁.1.2, hdrop.mono hu.quiet⟩, .inr hmsg₀.1⟩
  · exact triple_done fun _ _ => ⟨trivial, .inl rfl⟩

theorem triple_tgHeader (b : Bytes) (enc content : Bool) (msgid : UInt64) :
    Triple E v i (tgHeader E b enc content msgid) s fun r t =>
      Result.Recorded i t.log (.packet r.1 r.2) := by
  rw [tgHeader]
  cases enc with
  | false =>
    refine triple_bind triple_currentTime fun msgId t _ hgen => triple_done fun u hu => ?_
    refine ⟨hu.quiet.since_subset hgen.1, ?_⟩
    intro h
    cases h
  | true =>
    refine triple_bind (triple_tgHeaderData b content) fun r t _ hdata => ?_
    obtain ⟨data, content, msgid⟩ := r
    dsimp only at hdata ⊢
    rw [Prog.act_bind]
    refine triple_act (fun _ _ => trivial) fun t₁ keys t₂ ht₁ hkeys => ?_
    cases hkeys
    rw [Prog.done_bind]
    refine triple_bind triple_currentTime fun msgId t₃ ht₃ hgen => triple_nextSeqno hgen.1 ?_
    intro seqno s' u hs' hu _
    have hnew : Quiet i s'.log u.log := (Quiet.cons rfl).trans hu
    have hsince : Quiet i t.log s'.log := (ht₁.quiet.trans ht₃).trans hs'.quiet
    have hown : .generated i msgId ∈ since i u.log := (hs'.quiet.trans hnew).since_subset hgen.1
    refine ⟨⟨hown, s'.log, hu, hdata.1.mono hsince⟩, fun _ => ?_⟩
    split_ifs with hzero
    · exact hown
    · exact (hsince.trans hnew).since_subset (hdata.2.resolve_left hzero)

theorem triple_program {c : Call} (hc : v → c ≠ .tgToDrop) :
    Triple E v i (program E c) s fun r t => r.Recorded i t.log := by
  cases c with
  | tgMtpMessage payload content =>
    exact triple_bind (triple_tgMtpMessage payload content) fun m t _ hm =>
      triple_done fun u hu => hm.1.1.mono hu.quiet
  | tgHeader b enc content msgid =>
    exact triple_bind (triple_tgHeader b enc content msgid) fun r t _ hr =>
      triple_done fun u hu => hr.mono hu.quiet
  | tgToDrop =>
    refine triple_bind (triple_tgToDrop fun hv => absurd rfl (hc hv)) fun ms t _ hms => ?_
    exact triple_done fun u hu => hms.mono hu.quiet
  | tgAddMsgid msgid | tgAddTodrop msgid =>
    exact triple_act (fun _ _ => trivial) fun _ _ _ _ _ => triple_done fun _ _ => trivial

/-! ## Runs -/

/-- The contract of all threads. -/
def contract (E : Env) (v : Prop) :
    Pool.Contract (handle E) (program E) onReturn fun c => v → c ≠ .tgToDrop where
  rely := Rely
  guar := Guar E v
  post i _ r s := r.Recorded i s.log
  refl _ := Rely.refl
  trans _ _ _ _ := Rely.trans
  compatible _ _ _ _ hne h := h.rely hne
  ensures _ _ _ hc := (triple_program hc).guar_mono fun _ _ h => h.1
  returns i _ r _ hr := ⟨.inr ⟨.returned i r, rfl, rfl, rfl, hr⟩, fun _ _ _ => id⟩

/-- No thread is in a call, and nothing happened yet. -/
def start (tg : Tg) : TgPool := Pool.idle ⟨tg, none, []⟩

/-- A session whose clock was not read yet. -/
def freshSession : Tg := ⟨List.replicate 256 7, le64 1, le64 2, 0, [], [], 0, 0⟩

/-- A clock that goes on by a tick of four at each of its first readings. -/
def ticking : Env := ⟨fun n => 4 * UInt64.ofNat n, fun _ => 0⟩

/-- The log of a run is lawful, and tells what the session is. -/
structure Lawful (E : Env) (v : Prop) (tg₀ : Tg) (s : SharedTg) : Prop where
  session : s.tg = replay tg₀ s.log
  lawful : Chronicle (fun past e => e.Lawful E v (replay tg₀ past) past) s.log

theorem lawful {tg₀ : Tg} {P : TgPool} {ok : TgPool → Pool.Move Call → Prop}
    (hok : ∀ P l, ok P l → Pool.Calls (fun c => v → c ≠ .tgToDrop) P l)
    (hr : Reach (move E) ok (start tg₀) P) : Lawful E v tg₀ P.shared := by
  have hinit : Lawful E v tg₀ ⟨tg₀, none, []⟩ := ⟨rfl, trivial⟩
  refine Pool.invariant_of_guar (contract E v) hok (fun i s t hs hguar => ?_) hinit hr
  obtain ⟨hlog, htg⟩ | ⟨e, -, hlog, htg, he⟩ := hguar.logged
  · exact ⟨by rw [htg, hlog, hs.session], hlog ▸ hs.lawful⟩
  · refine ⟨by rw [htg, hlog, hs.session, replay_cons], hlog ▸ ⟨?_, hs.lawful⟩⟩
    show e.Lawful E v (replay tg₀ s.log) s.log
    rw [← hs.session]
    exact he

end Libtg.Threads
