import Libtg.Tg.Untouched

/-!
# `tg_parse_answer` with any callback (`tg/answer.c`)

The callback is a parameter here, and `Parse` keeps what was handed to it and to `tg_do_updates`.
With the callback of `tg_send_query` this is the function of before (`erases_parseAnswerN`). On a
packet without compressed blocks it goes through the leaves (`deepens_packet`); a compressed
block is handed over in a variable that is initialised with itself, so that nothing is said about
what happens there (`parseAnswerN_of_gzip`).
-/

namespace Libtg

/-! ## The function -/

/-- What `tg_parse_answer` hands on. -/
inductive Notice where
  | callback (tl : Tl)
  | updates (tl : Tl)

/-- The session, what `ptr` points to, and what was handed on. -/
structure Parse (σ : Type) where
  tg : Tg
  ptr : σ
  trace : List Notice

abbrev ParseM (σ α : Type) := StateT (Parse σ) Option α

/-- A callback, or `NULL`. It changes `*ptr` and answers whether to stop; `none` is a read through
`NULL` in it. -/
abbrev Callback (σ : Type) := Option (Tl → σ → Option (σ × Bool))

section
variable {σ : Type}

def Parse.addMsgid (st : Parse σ) (msgId : UInt64) : Parse σ :=
  { st with tg := (tgAddMsgid msgId st.tg).2 }

def Parse.setTimeDiff (st : Parse σ) (ntp : UInt64) : Parse σ :=
  { st with tg := { st.tg with timediff := ntp } }

def Parse.doUpdates (st : Parse σ) (tl : Tl) : Parse σ :=
  { st with trace := st.trace ++ [.updates tl] }

/-- `if (callback) callback (ptr, tl)`. -/
def invoke (cb : Callback σ) (tl : Tl) : ParseM σ Bool := fun st =>
  match cb with
  | none => some (false, st)
  | some f => (f tl st.ptr).map fun out =>
    (out.2, { st with ptr := out.1, trace := st.trace ++ [.callback tl] })

/-- The loop over the ids of a `msgs_ack`. -/
def invokeAcks (cb : Callback σ) (msgId : UInt64) (tl : Tl) : List UInt64 → ParseM σ Unit
  | [] => pure ()
  | id :: ids =>
    if msgId = id then do
      let stop ← invoke cb tl
      if stop then pure () else invokeAcks cb msgId tl ids
    else invokeAcks cb msgId tl ids

/-- The loop over a container. -/
def parseBodies (S : Schema) (rec : Tl → ParseM σ Unit) : List (UInt64 × Bytes) → ParseM σ Unit
  | [] => pure ()
  | m :: ms => do
    let (x, _) ← (tlDeserialize S m.2 : Option (Tl × Bytes))
    rec x
    parseBodies S rec ms

/-- The `switch`, where `rec` is the function itself. -/
def answerCase (cb : Callback σ) (S : Schema) (ntp msgId : UInt64) (rec : Tl → ParseM σ Unit)
    (tl : Tl) : ParseM σ Unit :=
  if tl.id = idRpcResult then do
    modify (·.addMsgid msgId)
    if msgId = tl.reqMsgId then do
      let _ ← invoke cb tl.result
      pure ()
    else pure ()
  else if tl.id = idMsgDetailedInfo ∨ tl.id = idMsgNewDetailedInfo then do
    -- `break` leaves the `switch`
    let stop ← (if msgId = tl.answerMsgId then invoke cb tl else pure false : ParseM σ Bool)
    if stop then pure () else modify (·.addMsgid tl.answerMsgId)
  else if tl.id = idRpcError ∨ tl.id = idBadMsgNotification then modify (·.setTimeDiff ntp)
  else if isUpdates tl.id then modify (·.doUpdates tl)
  else if tl.id = idMsgContainer then do
    let ms ← (tl.messages : Option (List (UInt64 × Bytes)))
    parseBodies S rec ms
  else if tl.id = idGzipPacked then fun _ => none
  else if tl.id = idMsgsAck then do
    let ids ← (tl.msgIds : Option (List UInt64))
    invokeAcks cb msgId tl ids
  else pure ()

/-- `tg_parse_answer` with containers up to a depth. -/
def parseAnswerN (cb : Callback σ) (S : Schema) (ntp msgId : UInt64) : Nat → Tl → ParseM σ Unit
  | 0, _ => fun _ => none
  | n + 1, tl => answerCase cb S ntp msgId (parseAnswerN cb S ntp msgId n) tl

/-- A leaf needs no recursion. -/
def parseLeaf (cb : Callback σ) (S : Schema) (ntp msgId : UInt64) (tl : Tl) : ParseM σ Unit :=
  answerCase cb S ntp msgId (fun _ _ => none) tl

/-- `tg_parse_answer_callback`. -/
def copyAnswer (S : Schema) : Callback Tl := some fun tl _ =>
  match tl with
  | .object _ b _ => (tlDeserialize S b).map fun r => (r.1, false)
  | _ => none

end

/-! ## The callback of `tg_send_query` -/

/-- Without the trace `c` is `g`. -/
def Erases (c : ParseM Tl Unit) (g : Parsing → Option Parsing) : Prop :=
  ∀ st, (c st).map (fun out => ⟨out.2.tg, out.2.ptr⟩) = g ⟨st.tg, st.ptr⟩

section
variable {S : Schema} {ntp msgId : UInt64}

theorem Erases.bind {c c' : ParseM Tl Unit} {g g' : Parsing → Option Parsing} (h : Erases c g)
    (h' : Erases c' g') : Erases (do c; c') fun p => (g p).bind g' := by
  intro st
  show ((c st).bind _).map _ = (g _).bind g'
  rw [← h st]
  cases hc : c st with
  | none => rfl
  | some out => exact h' out.2

theorem erases_pure : Erases (pure ()) some := fun _ => rfl

theorem erases_lift {α : Type} {x : Option α} {c : α → ParseM Tl Unit}
    {g : α → Parsing → Option Parsing} (h : ∀ a, Erases (c a) (g a)) :
    Erases (do let a ← (x : Option α); c a) fun p => x.bind fun a => g a p := by
  intro st
  cases x with
  | none => rfl
  | some a => exact h a st

theorem erases_parseBodies {rec : Tl → ParseM Tl Unit} {rec' : Tl → Parsing → Option Parsing}
    (hrec : ∀ tl, Erases (rec tl) (rec' tl)) (ms : List (UInt64 × Bytes)) :
    Erases (parseBodies S rec ms) fun p =>
      ms.foldlM (fun p m => (tlDeserialize S m.2).bind fun r => rec' r.1 p) p := by
  induction ms with
  | nil => exact erases_pure
  | cons m ms ih =>
    intro st
    simp only [List.foldlM_cons, parseBodies]
    cases tlDeserialize S m.2 with
    | none => rfl
    | some x => exact (hrec x.1).bind ih st

theorem Erases.ite {q : Prop} [Decidable q] {c c' : ParseM Tl Unit}
    {g g' : Parsing → Option Parsing} (h : Erases c g) (h' : Erases c' g') :
    Erases (if q then c else c') fun p => if q then g p else g' p := by
  split_ifs
  · exact h
  · exact h'

theorem invoke_copyAnswer (tl : Tl) (st : Parse Tl) : invoke (copyAnswer S) tl st =
    (tgParseAnswerCallback S tl ⟨st.tg, st.ptr⟩).map fun p =>
      (false, ⟨p.tg, p.answer, st.trace ++ [.callback tl]⟩) := by
  cases tl with
  | object id b fields =>
    show Option.map _ (Option.map _ (tlDeserialize S b)) = Option.map _ (Option.map _ _)
    cases tlDeserialize S b <;> rfl
  | _ => rfl

/-- The callback never stops anything. -/
theorem erases_invoke_bind (tl : Tl) {c : Bool → ParseM Tl Unit} {g : Parsing → Option Parsing}
    (h : Erases (c false) g) :
    Erases (invoke (copyAnswer S) tl >>= c) fun p => (tgParseAnswerCallback S tl p).bind g := by
  intro st
  show ((invoke (copyAnswer S) tl st).bind _).map _ =
    (tgParseAnswerCallback S tl ⟨st.tg, st.ptr⟩).bind g
  rw [invoke_copyAnswer]
  cases tgParseAnswerCallback S tl ⟨st.tg, st.ptr⟩ with
  | none => rfl
  | some p => exact h ⟨p.tg, p.answer, _⟩

theorem erases_invokeAcks (tl : Tl) (ids : List UInt64) :
    Erases (invokeAcks (copyAnswer S) msgId tl ids) fun p =>
      ids.foldlM (fun p id => if msgId = id then tgParseAnswerCallback S tl p else some p) p := by
  induction ids with
  | nil => exact erases_pure
  | cons id ids ih =>
    rw [invokeAcks]
    simp only [List.foldlM_cons]
    split_ifs with hid
    · exact erases_invoke_bind tl ih
    · exact ih

theorem erases_modify_bind {f : Parse Tl → Parse Tl} {k : Parsing → Parsing}
    {c : ParseM Tl Unit} {g : Parsing → Option Parsing}
    (hf : ∀ st, ⟨(f st).tg, (f st).ptr⟩ = k ⟨st.tg, st.ptr⟩) (h : Erases c g) :
    Erases (do modify f; c) fun p => g (k p) := fun st => (h (f st)).trans (congrArg g (hf st))

theorem erases_rpcResult (tl : Tl) : Erases
    (do
      modify (·.addMsgid msgId)
      if msgId = tl.reqMsgId then do
        let _ ← invoke (copyAnswer S) tl.result
        pure ()
      else pure ())
    fun p => if msgId = tl.reqMsgId then tgParseAnswerCallback S tl.result (p.addMsgid msgId)
      else some (p.addMsgid msgId) := by
  refine erases_modify_bind (k := (·.addMsgid msgId)) (fun _ => rfl)
    (g := fun p => if msgId = tl.reqMsgId then tgParseAnswerCallback S tl.result p else some p)
    (.ite ?_ erases_pure)
  simpa only [Option.bind_fun_some] using
    erases_invoke_bind tl.result (c := fun _ => pure ()) erases_pure

theorem erases_detailedInfo (tl : Tl) : Erases
    (do
      let stop ← (if msgId = tl.answerMsgId then invoke (copyAnswer S) tl else pure false :
        ParseM Tl Bool)
      if stop then pure () else modify (·.addMsgid tl.answerMsgId))
    fun p => do
      let p ← if msgId = tl.answerMsgId then tgParseAnswerCallback S tl p else some p
      return p.addMsgid tl.answerMsgId := by
  split_ifs
  · exact erases_invoke_bind tl fun _ => rfl
  · exact fun _ => rfl

theorem erases_answerCase {rec : Tl → ParseM Tl Unit} {rec' : Tl → Parsing → Option Parsing}
    (hrec : ∀ tl, Erases (rec tl) (rec' tl)) (tl : Tl) :
    Erases (answerCase (copyAnswer S) S ntp msgId rec tl) (parseCase S ntp msgId rec' tl) := by
  unfold answerCase parseCase
  refine .ite (erases_rpcResult tl) (.ite (erases_detailedInfo tl) (.ite (fun _ => rfl)
    (.ite (fun _ => rfl) (.ite ?_ (.ite (fun _ => rfl) (.ite ?_ erases_pure))))))
  · exact erases_lift fun ms => erases_parseBodies hrec ms
  · exact erases_lift fun ids => erases_invokeAcks tl ids

/-- With this callback it is the function of `tg_send_query`. -/
theorem erases_parseAnswerN (n : Nat) (tl : Tl) :
    Erases (parseAnswerN (copyAnswer S) S ntp msgId n tl) (tgParseAnswerN S ntp msgId n tl) := by
  induction n generalizing tl with
  | zero => exact fun _ => rfl
  | succ n ih => exact erases_answerCase ih tl

end

/-! ## Over a tree -/

section
variable {σ : Type} {cb : Callback σ} {S : Schema} {gunzip : Bytes → Gunzipped}
  {ntp msgId : UInt64} {n : Nat} {tl : Tl}

theorem parseM_lift_bind {α β : Type} {x : Option α} {a : α} (h : x = some a)
    (f : α → ParseM σ β) : (liftM x : ParseM σ α) >>= f = f a := by
  rw [h]
  rfl

theorem parseM_bind_eq_some {α β : Type} {c : ParseM σ α} {f : α → ParseM σ β} {st : Parse σ}
    {out : β × Parse σ} (h : (c >>= f) st = some out) :
    ∃ a st₁, c st = some (a, st₁) ∧ f a st₁ = some out := by
  obtain ⟨⟨a, st₁⟩, hc, hf⟩ := Option.bind_eq_some_iff.mp h
  exact ⟨a, st₁, hc, hf⟩

theorem parseAnswerN_leaf (hid : tl.id ≠ idMsgContainer) :
    parseAnswerN cb S ntp msgId (n + 1) tl = parseLeaf cb S ntp msgId tl := by
  rw [parseAnswerN, parseLeaf]
  simp only [answerCase, if_neg hid]

theorem parseAnswerN_container {bodies : List (UInt64 × Bytes)} (hid : tl.id = idMsgContainer)
    (hbodies : tl.messages = some bodies) :
    parseAnswerN cb S ntp msgId (n + 1) tl =
      parseBodies S (parseAnswerN cb S ntp msgId n) bodies := by
  rw [parseAnswerN, answerCase, hid, if_neg (by decide), if_neg (by decide), if_neg (by decide),
    if_neg (by decide), if_pos rfl, parseM_lift_bind hbodies]

/-- The variable is not initialised, and what it points to is not defined. -/
theorem parseAnswerN_gzip (hid : tl.id = idGzipPacked) (st : Parse σ) :
    parseAnswerN cb S ntp msgId n tl st = none := by
  cases n with
  | zero => rfl
  | succ n =>
    rw [parseAnswerN, answerCase, hid, if_neg (by decide), if_neg (by decide), if_neg (by decide),
      if_neg (by decide), if_neg (by decide), if_pos rfl]

/-- With depth enough `c` is `d`, and with less it does not end or does the same. -/
structure Deepens (c : Nat → ParseM σ Unit) (d : ParseM σ Unit) : Prop where
  ends : ∃ k, ∀ n ≥ k, c n = d
  agrees : ∀ n st, c n st = none ∨ c n st = d st

section
variable {c c' : Nat → ParseM σ Unit} {d d' : ParseM σ Unit}

theorem Deepens.const (d : ParseM σ Unit) : Deepens (fun _ => d) d :=
  ⟨⟨0, fun _ _ => rfl⟩, fun _ _ => .inr rfl⟩

theorem Deepens.succ (h : Deepens c d) (hzero : ∀ st, c' 0 st = none)
    (hsucc : ∀ n, c' (n + 1) = c n) : Deepens c' d where
  ends := by
    obtain ⟨k, hk⟩ := h.ends
    refine ⟨k + 1, fun n hn => ?_⟩
    obtain ⟨m, rfl⟩ : ∃ m, n = m + 1 := ⟨n - 1, by omega⟩
    exact (hsucc m).trans (hk m (by omega))
  agrees n st := by
    cases n with
    | zero => exact .inl (hzero st)
    | succ n =>
      rw [hsucc]
      exact h.agrees n st

theorem Deepens.bind (h : Deepens c d) (h' : Deepens c' d') :
    Deepens (fun n => c n >>= fun _ => c' n) (d >>= fun _ => d') where
  ends := by
    obtain ⟨k, hk⟩ := h.ends
    obtain ⟨l, hl⟩ := h'.ends
    refine ⟨max k l, fun n hn => ?_⟩
    rw [hk n (le_trans (le_max_left _ _) hn), hl n (le_trans (le_max_right _ _) hn)]
  agrees n st := by
    show (c n st).bind _ = none ∨ (c n st).bind _ = (d st).bind _
    rcases h.agrees n st with hnone | heq
    · exact .inl (by rw [hnone]; rfl)
    · rw [heq]
      cases d st with
      | none => exact .inl rfl
      | some out => exact h'.agrees n out.2

theorem Deepens.some_iff (h : Deepens c d) {st : Parse σ} {out : Unit × Parse σ} :
    (∃ n, c n st = some out) ↔ d st = some out := by
  constructor
  · rintro ⟨n, hn⟩
    rcases h.agrees n st with hnone | heq
    · cases hnone.symm.trans hn
    · exact heq.symm.trans hn
  · intro hd
    obtain ⟨k, hk⟩ := h.ends
    exact ⟨k, (congrFun (hk k le_rfl) st).trans hd⟩

end

theorem deepens_leaf (hid : tl.id ≠ idMsgContainer) :
    Deepens (fun n => parseAnswerN cb S ntp msgId n tl) (parseLeaf cb S ntp msgId tl) :=
  (Deepens.const _).succ (fun _ => rfl) fun _ => parseAnswerN_leaf hid

mutual

/-- A packet without compressed blocks is parsed leaf by leaf. -/
theorem deepens_packet : ∀ p : Packet, p.Decodes S gunzip → p.NoGzip →
    Deepens (fun n => parseAnswerN cb S ntp msgId n p.root)
      (p.leaves.forM (parseLeaf cb S ntp msgId))
  | .leaf tl, hp, _ => by
    have hleaf : [tl].forM (parseLeaf cb S ntp msgId) = parseLeaf cb S ntp msgId tl := bind_pure _
    rw [Packet.leaves, hleaf]
    exact deepens_leaf hp.1
  | .container _ ms, ⟨hid, bodies, hbodies, hms⟩, hgzip =>
    (deepens_messages ms bodies hms hgzip).succ (fun _ => rfl)
      fun _ => parseAnswerN_container hid hbodies
  | .gzip _ _, _, hgzip => hgzip.elim

theorem deepens_messages : ∀ (ms : Messages) (bodies : List (UInt64 × Bytes)),
    ms.Decodes S gunzip bodies → ms.NoGzip →
      Deepens (fun n => parseBodies S (parseAnswerN cb S ntp msgId n) bodies)
        (ms.leaves.forM (parseLeaf cb S ntp msgId))
  | .nil, bodies, hbodies, _ => by
    rw [hbodies]
    exact .const _
  | .cons _ p ms, bodies, ⟨b, t, rest, hbodies, hroot, hp, hms⟩, hgzip => by
    have hboth := (deepens_packet p hp hgzip.1).bind (deepens_messages ms rest hms hgzip.2)
    have hcons (n : Nat) : parseBodies S (parseAnswerN cb S ntp msgId n) bodies =
        parseAnswerN cb S ntp msgId n p.root >>= fun _ =>
          parseBodies S (parseAnswerN cb S ntp msgId n) rest := by
      rw [hbodies, parseBodies, parseM_lift_bind hroot]
    have happend : (p.leaves ++ ms.leaves).forM (parseLeaf cb S ntp msgId) =
        p.leaves.forM (parseLeaf cb S ntp msgId) >>= fun _ =>
          ms.leaves.forM (parseLeaf cb S ntp msgId) := List.forM_append
    rw [Messages.leaves, happend]
    simp only [hcons]
    exact hboth

end

mutual

/-- A compressed block makes the parsing of the whole packet undefined. -/
theorem parseAnswerN_of_gzip : ∀ (p : Packet) (n : Nat) (st : Parse σ), p.Decodes S gunzip →
    ¬ p.NoGzip → parseAnswerN cb S ntp msgId n p.root st = none
  | .leaf _, _, _, _, hgzip => absurd trivial hgzip
  | .container tl ms, n, st, ⟨hid, bodies, hbodies, hms⟩, hgzip => by
    cases n with
    | zero => rfl
    | succ n =>
      exact (congrFun (parseAnswerN_container hid hbodies) st).trans
        (forM_messages_of_gzip ms bodies n st hms hgzip)
  | .gzip _ _, _, st, ⟨hid, _⟩, _ => parseAnswerN_gzip hid st

theorem forM_messages_of_gzip : ∀ (ms : Messages) (bodies : List (UInt64 × Bytes)) (n : Nat)
    (st : Parse σ), ms.Decodes S gunzip bodies → ¬ ms.NoGzip →
      parseBodies S (parseAnswerN cb S ntp msgId n) bodies st = none
  | .nil, _, _, _, _, hgzip => absurd trivial hgzip
  | .cons msgId' p ms, bodies, n, st, ⟨b, t, rest, hbodies, hroot, hp, hms⟩, hgzip => by
    rw [hbodies, parseBodies, parseM_lift_bind hroot]
    show (parseAnswerN cb S ntp msgId n p.root st).bind _ = none
    cases hrun : parseAnswerN cb S ntp msgId n p.root st with
    | none => rfl
    | some out =>
      by_cases hfirst : p.NoGzip
      · exact forM_messages_of_gzip ms rest n out.2 hms fun hrest => hgzip ⟨hfirst, hrest⟩
      · cases (parseAnswerN_of_gzip p n st hp hfirst).symm.trans hrun

end

mutual

theorem leaves_ids : ∀ p : Packet, p.Decodes S gunzip →
    ∀ m ∈ p.leaves, m.id ≠ idMsgContainer ∧ m.id ≠ idGzipPacked
  | .leaf tl, hp, m, hm => by
    rw [List.mem_singleton.mp hm]
    exact hp
  | .container _ ms, ⟨_, bodies, _, hms⟩, m, hm => messages_leaves_ids ms bodies hms m hm
  | .gzip _ p, ⟨_, _, hp⟩, m, hm => leaves_ids p hp m hm

theorem messages_leaves_ids : ∀ (ms : Messages) (bodies : List (UInt64 × Bytes)),
    ms.Decodes S gunzip bodies →
      ∀ m ∈ ms.leaves, m.id ≠ idMsgContainer ∧ m.id ≠ idGzipPacked
  | .nil, _, _, _, hm => absurd hm List.not_mem_nil
  | .cons _ p ms, _, ⟨_, _, rest, _, _, hp, hms⟩, m, hm =>
    (List.mem_append.mp hm).elim (leaves_ids p hp m) (messages_leaves_ids ms rest hms m)

end

/-! ## Seeing through the nesting -/

/-- The ids a `msgs_ack` announces are there. -/
def Readable (m : Tl) : Prop := m.id = idMsgsAck → m.msgIds.isSome

/-- For every callback, query and state, the packet as a whole makes the calls its leaves make,
taken from left to right. -/
def SeesThrough (S : Schema) (p : Packet) : Prop :=
  ∀ (σ : Type) (cb : Callback σ) (ntp msgId : UInt64) (st : Parse σ) (trace : List Notice),
    (∃ n out, parseAnswerN cb S ntp msgId n p.root st = some out ∧ out.2.trace = trace) ↔
      ∃ n out, p.leaves.forM (parseAnswerN cb S ntp msgId n) st = some out ∧ out.2.trace = trace

theorem deepens_leaves {ms : List Tl} (h : ∀ m ∈ ms, m.id ≠ idMsgContainer) :
    Deepens (fun n => ms.forM (parseAnswerN cb S ntp msgId n))
      (ms.forM (parseLeaf cb S ntp msgId)) := by
  induction ms with
  | nil => exact .const _
  | cons m ms ih =>
    obtain ⟨hm, hms⟩ := List.forall_mem_cons.mp h
    exact (deepens_leaf hm).bind (ih hms)

theorem forM_eq_none {ms : List Tl} {f : Tl → ParseM σ Unit} {m : Tl} (hm : m ∈ ms)
    (h : ∀ st, f m st = none) (st : Parse σ) : ms.forM f st = none := by
  induction ms generalizing st with
  | nil => cases hm
  | cons x ms ih =>
    show (f x st).bind _ = none
    rcases List.mem_cons.mp hm with rfl | hm
    · rw [h]
      rfl
    · cases f x st with
      | none => rfl
      | some out => exact ih hm out.2

theorem forM_isSome {ms : List Tl} {f : Tl → ParseM σ Unit}
    (h : ∀ m ∈ ms, ∀ st, (f m st).isSome) (st : Parse σ) : (ms.forM f st).isSome := by
  induction ms generalizing st with
  | nil => rfl
  | cons m ms ih =>
    obtain ⟨hm, hms⟩ := List.forall_mem_cons.mp h
    show ((f m st).bind _).isSome
    obtain ⟨out, hout⟩ := Option.isSome_iff_exists.mp (hm st)
    rw [hout]
    exact ih hms out.2

theorem parseLeaf_unreadable {m : Tl} (h : ¬ Readable m) (st : Parse σ) :
    parseLeaf cb S ntp msgId m st = none := by
  rw [Readable, Classical.not_imp] at h
  obtain ⟨hid, hids⟩ := h
  rw [Option.not_isSome_iff_eq_none] at hids
  rw [parseLeaf, answerCase, hid, if_neg (by decide), if_neg (by decide), if_neg (by decide),
    if_neg (by decide), if_neg (by decide), if_neg (by decide), if_pos rfl, hids]
  rfl

theorem invokeAcks_none (tl : Tl) (ids : List UInt64) (st : Parse σ) :
    invokeAcks none msgId tl ids st = some ((), st) := by
  induction ids with
  | nil => rfl
  | cons id ids ih =>
    rw [invokeAcks]
    split_ifs
    · exact ih
    · exact ih

/-- Without a callback a readable leaf is parsed to its end. -/
theorem parseLeaf_readable {m : Tl} (h : Readable m) (hgzip : m.id ≠ idGzipPacked)
    (hcontainer : m.id ≠ idMsgContainer) (st : Parse σ) :
    (parseLeaf none S ntp msgId m st).isSome := by
  rw [parseLeaf, answerCase, if_neg hcontainer, if_neg hgzip]
  split_ifs with hresult hreq hinfo hanswer herror hupdates hack
  · rfl
  · rfl
  · rfl
  · rfl
  · rfl
  · rfl
  · obtain ⟨ids, hids⟩ := Option.isSome_iff_exists.mp (h hack)
    rw [parseM_lift_bind hids, invokeAcks_none]
    rfl
  · rfl

/-- The nesting makes no difference exactly when nothing is compressed, or a leaf cannot be parsed
at all. -/
theorem seesThrough_iff (S : Schema) (gunzip : Bytes → Gunzipped) (p : Packet)
    (hp : p.Decodes S gunzip) :
    SeesThrough S p ↔ p.NoGzip ∨ ∃ m ∈ p.leaves, ¬ Readable m := by
  have hids := leaves_ids p hp
  constructor
  · intro h
    by_contra hcontra
    obtain ⟨hgzip, hreadable⟩ := not_or.mp hcontra
    push Not at hreadable
    obtain ⟨st⟩ : Nonempty (Parse Unit) := ⟨⟨⟨[], [], [], 0, [], [], 0, 0⟩, (), []⟩⟩
    obtain ⟨out, hout⟩ := Option.isSome_iff_exists.mp <|
      forM_isSome (f := parseLeaf none S 0 0) (fun m hm st =>
        parseLeaf_readable (hreadable m hm) (hids m hm).2 (hids m hm).1 st) st
    obtain ⟨n, hn⟩ := (deepens_leaves fun m hm => (hids m hm).1).some_iff.mpr hout
    obtain ⟨k, out', hrun, -⟩ := (h Unit none 0 0 st out.2.trace).mpr ⟨n, out, hn, rfl⟩
    cases (parseAnswerN_of_gzip p k st hp hgzip).symm.trans hrun
  · rintro (hgzip | ⟨m, hm, hunread⟩) σ cb ntp msgId st trace
    · have hroot {out : Unit × Parse σ} :
          (∃ n, parseAnswerN cb S ntp msgId n p.root st = some out) ↔
          ∃ n, p.leaves.forM (parseAnswerN cb S ntp msgId n) st = some out :=
        (deepens_packet p hp hgzip).some_iff.trans
          (deepens_leaves fun m hm => (hids m hm).1).some_iff.symm
      constructor
      · rintro ⟨n, out, hn, htrace⟩
        obtain ⟨k, hk⟩ := hroot.mp ⟨n, hn⟩
        exact ⟨k, out, hk, htrace⟩
      · rintro ⟨n, out, hn, htrace⟩
        obtain ⟨k, hk⟩ := hroot.mpr ⟨n, hn⟩
        exact ⟨k, out, hk, htrace⟩
    · have hleaves := forM_eq_none (f := parseLeaf cb S ntp msgId) hm (parseLeaf_unreadable hunread)
      constructor
      · rintro ⟨n, out, hn, -⟩
        by_cases hgzip : p.NoGzip
        · cases (hleaves st).symm.trans ((deepens_packet p hp hgzip).some_iff.mp ⟨n, hn⟩)
        · cases (parseAnswerN_of_gzip p n st hp hgzip).symm.trans hn
      · rintro ⟨n, out, hn, -⟩
        cases (hleaves st).symm.trans
          ((deepens_leaves fun m hm => (hids m hm).1).some_iff.mp ⟨n, hn⟩)

end

/-! ## Compressed updates -/

section

open LittleEndian Receiving

/-- The id of `updatesTooLong` in gzip. -/
def tooLongZ : Bytes := bigEndian 24 0x1f8b0800000000000203ab5b2ffe1800ba25004404000000

def tooLong : Tl := .object idUpdatesTooLong (le32 idUpdatesTooLong) []

/-- zlib on that stream. -/
def inflateTooLong (z : Bytes) : Gunzipped :=
  if z = tooLongZ then ⟨true, le32 idUpdatesTooLong⟩ else ⟨false, []⟩

/-- A compressed `updatesTooLong`. -/
def zippedUpdates : Packet := .gzip (.object idGzipPacked [] [.buf tooLongZ]) (.leaf tooLong)

theorem zippedUpdates_decodes : zippedUpdates.Decodes [updatesTooLong] inflateTooLong := by
  have hroot := tlDeserialize_updatesTooLong []
  rw [List.append_nil] at hroot
  exact ⟨rfl, ⟨_, [], if_pos rfl, hroot⟩, by decide, by decide⟩

theorem seesThrough_iff_zippedUpdates : SeesThrough [updatesTooLong] zippedUpdates ↔
    zippedUpdates.NoGzip ∨ ∃ m ∈ zippedUpdates.leaves, ¬ Readable m :=
  seesThrough_iff [updatesTooLong] inflateTooLong zippedUpdates zippedUpdates_decodes

/-- Alone the updates are handed on, compressed they are not. -/
theorem seesThrough_counterexample :
    ¬ ∀ (S : Schema) (gunzip : Bytes → Gunzipped) (p : Packet), p.Decodes S gunzip →
      SeesThrough S p := by
  intro h
  obtain ⟨k, out, hrun, -⟩ := (h [updatesTooLong] inflateTooLong zippedUpdates
    zippedUpdates_decodes Unit none 0 0 ⟨⟨[], [], [], 0, [], [], 0, 0⟩, (), []⟩
    [.updates tooLong]).mpr ⟨1, _, rfl, rfl⟩
  cases (parseAnswerN_gzip rfl _).symm.trans hrun

end

end Libtg
