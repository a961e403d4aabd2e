import Libtg.Lib.Handed
import Libtg.Tg.FromTl

/-!
# The messages of a reply (`tg/messages.c`)

`parse_tl` with the loop of `parse_msgs`. A record that the callback receives is `none` if no
conversion filled in the structure. What is printed and `tg_users_save` and `tg_chats_save`, which
test every pointer, are left out, and so is `tg_message_free`.
-/

namespace Libtg.FromTl

open Database Consumer

def idMessages : UInt32 := 0x8c718e87
def idMessagesSlice : UInt32 := 0x3a54685e
def idChannelMessages : UInt32 := 0xc776ba4e
def idMessageEmpty : UInt32 := 0x90a6ca84

/-- What the callback answers to a record, by the records it has received with it. -/
abbrev Callback := List (Option Record) → Int

/-- The callback asks to stop. -/
def Callback.stops (callback : Callback) (log : List (Option Record)) : Bool := callback log ≠ 0

section
variable (T : Texts) (callback : Option Callback)

/-- The loop of `parse_msgs` from `i` on: what it returns, and what the callback received. -/
def parseMsgs (i : Nat) (log : List (Option Record)) :
    List Tl → Except Fault (Nat × List (Option Record))
  | [] => .ok (i, log)
  | tlm :: argv =>
    if tlm.isNull then parseMsgs (i + 1) log argv
    else do
      Libtg.tgMessageFromTlUnknown tlm
      match callback with
      | none => parseMsgs (i + 1) log argv
      | some f =>
        let log := log ++ [tgMessageFromTlUnknown T tlm]
        if f.stops log then .ok (i, log) else parseMsgs (i + 1) log argv

/-- `parse_msgs`, which reads the array at each index. -/
def parseArray (messages : Tl) : Except Fault (Nat × List (Option Record)) :=
  match messages.elements with
  | none => .error .absent
  | some argv => parseMsgs T callback 0 [] argv

/-- `parse_tl`. -/
def parseTl (tl : Tl) : Except Fault (Nat × List (Option Record)) :=
  if tl.id = idChannelMessages then parseArray T callback (tl.field 5)
  else if tl.id = idMessages then parseArray T callback (tl.field 0)
  else if tl.id = idMessagesSlice then parseArray T callback (tl.field 5)
  else .ok (0, [])

end

/-! ## What is to be delivered -/

/-- The replies with messages. -/
inductive Reply where
  | messages | slice | channel
  deriving DecidableEq

def Reply.id : Reply → UInt32
  | messages => idMessages
  | slice => idMessagesSlice
  | channel => idChannelMessages

/-- `messages_` of a reply. -/
def Reply.array (k : Reply) (tl : Tl) : Tl := tl.field (if k = .messages then 0 else 5)

section
variable (T : Texts) (callback : Callback) (argv : List Tl)

/-- The conversions of the messages and the service messages. -/
def wanted : List (Option Record) := (argv.filterMap (tgMessageFromTlUnknown T)).map some

/-- The callback receives the messages of a reply up to where it stops, and their number is
returned. -/
def DeliversMessages (k : Reply) (tl : Tl) : Prop :=
  ∃ argv log, (k.array tl).elements = some argv ∧
    parseTl T (some callback) tl = .ok (log.length, log) ∧
    log = handed callback.stops [] (wanted T argv)

/-- A message or a service message with every pointer that its conversion reads through. -/
def Converts (tlm : Tl) : Prop :=
  (tlm.id = idMessage ∨ tlm.id = idMessageService) ∧ ¬ MessageFaults tlm

/-- Either all entries are messages and the callback does not stop, or before the message it stops
at there are messages and one entry that is `NULL`. -/
def Deliverable : Prop :=
  (∀ tlm ∈ argv, Converts tlm) ∧ TakesAll callback.stops [] (wanted T argv) ∨
    ∃ before tlm after, argv = before ++ tlm :: after ∧
      (∀ m ∈ before, m.isNull = false → Converts m) ∧ Converts tlm ∧
      TakesAll callback.stops [] (wanted T before) ∧
      callback.stops (wanted T before ++ [tgMessageFromTlUnknown T tlm]) = .true ∧
      before.countP Tl.isNull = 1

end

section
variable {T : Texts} {callback : Callback} {argv before after : List Tl} {tlm : Tl} {i n : Nat}
  {log log' : List (Option Record)}

/-! ## Entry after entry -/

theorem isNull_of_converts (h : Converts tlm) : tlm.isNull = false :=
  h.1.elim (fun h => isNull_of_id h (by decide)) (fun h => isNull_of_id h (by decide))

theorem Converts.reads (h : Converts tlm) : Libtg.tgMessageFromTlUnknown tlm = pure () :=
  (failsIff_tgMessageFromTlUnknown.resolve_left fun h' => h.2 h'.1).2

theorem Converts.record (h : Converts tlm) (T : Texts) :
    ∃ r, tgMessageFromTlUnknown T tlm = some r := by
  unfold tgMessageFromTlUnknown
  obtain hid | hid := h.1
  · exact ⟨_, if_pos hid⟩
  · exact ⟨_, by rw [if_neg (by rw [hid]; decide), if_pos hid]⟩

theorem record_of_isNull (h : tlm.isNull = true) (T : Texts) :
    tgMessageFromTlUnknown T tlm = none := by
  unfold tgMessageFromTlUnknown
  rw [id_of_isNull h]
  exact (if_neg (by decide)).trans (if_neg (by decide))

theorem wanted_append : wanted T (before ++ after) = wanted T before ++ wanted T after := by
  rw [wanted, List.filterMap_append, List.map_append]
  rfl

theorem wanted_cons_null (h : tlm.isNull = true) : wanted T (tlm :: argv) = wanted T argv := by
  rw [wanted, List.filterMap_cons_none (record_of_isNull h T)]
  rfl

theorem wanted_cons (h : Converts tlm) :
    wanted T (tlm :: argv) = tgMessageFromTlUnknown T tlm :: wanted T argv := by
  obtain ⟨r, hr⟩ := h.record T
  rw [wanted, List.filterMap_cons_some hr, hr]
  rfl

theorem parseMsgs_null (h : tlm.isNull = true) :
    parseMsgs T (some callback) i log (tlm :: argv) =
      parseMsgs T (some callback) (i + 1) log argv := by
  rw [parseMsgs, if_pos h]

theorem parseMsgs_message (h : tlm.isNull = false)
    (hreads : Libtg.tgMessageFromTlUnknown tlm = pure ()) :
    parseMsgs T (some callback) i log (tlm :: argv) =
      if callback.stops (log ++ [tgMessageFromTlUnknown T tlm]) then
        .ok (i, log ++ [tgMessageFromTlUnknown T tlm])
      else parseMsgs T (some callback) (i + 1) (log ++ [tgMessageFromTlUnknown T tlm]) argv := by
  rw [parseMsgs, h, hreads]
  rfl

/-- The loop goes on over messages and `NULL`. -/
theorem parseMsgs_append (hbefore : ∀ m ∈ before, m.isNull = false → Converts m)
    (hgoes : TakesAll callback.stops log (wanted T before)) :
    parseMsgs T (some callback) i log (before ++ after) =
      parseMsgs T (some callback) (i + before.length) (log ++ wanted T before) after := by
  induction before generalizing i log with
  | nil => rw [List.nil_append, wanted, List.filterMap_nil, List.map_nil, List.append_nil]; rfl
  | cons tlm before ih =>
    have hrest := fun m hm => hbefore m (List.mem_cons_of_mem _ hm)
    rw [List.cons_append, List.length_cons, ← Nat.add_assoc, Nat.add_right_comm]
    cases hnull : tlm.isNull with
    | true =>
      rw [wanted_cons_null hnull] at hgoes ⊢
      rw [parseMsgs_null hnull, ih hrest hgoes]
    | false =>
      have hconverts := hbefore tlm List.mem_cons_self hnull
      rw [wanted_cons hconverts] at hgoes ⊢
      rw [parseMsgs_message hnull hconverts.reads, hgoes.1, if_neg Bool.false_ne_true,
        ih hrest hgoes.2, List.append_assoc]
      rfl

/-- What has been received stays received. -/
theorem prefix_of_parseMsgs (h : parseMsgs T (some callback) i log argv = .ok (n, log')) :
    log <+: log' := by
  induction argv generalizing i log with
  | nil =>
    cases h
    exact List.prefix_rfl
  | cons tlm argv ih =>
    cases hnull : tlm.isNull with
    | true =>
      rw [parseMsgs_null hnull] at h
      exact ih h
    | false =>
      obtain ⟨-, hreads⟩ | ⟨-, hreads⟩ := failsIff_tgMessageFromTlUnknown (m := tlm)
      · rw [parseMsgs, hnull, hreads] at h
        cases h
      · rw [parseMsgs_message hnull hreads] at h
        split_ifs at h
        · cases h
          exact List.prefix_append ..
        · exact (List.prefix_append ..).trans (ih h)

/-- An entry of another kind is handed over as whatever the structure was. -/
theorem none_mem_of_parseMsgs (hnull : tlm.isNull = false) (hnot : ¬ Converts tlm)
    (h : parseMsgs T (some callback) i log (tlm :: argv) = .ok (n, log')) : none ∈ log' := by
  obtain ⟨-, hreads⟩ | ⟨hfaults, hreads⟩ := failsIff_tgMessageFromTlUnknown (m := tlm)
  · rw [parseMsgs, hnull, hreads] at h
    cases h
  · have hid : ¬ (tlm.id = idMessage ∨ tlm.id = idMessageService) := fun h => hnot ⟨h, hfaults⟩
    have hnone : tgMessageFromTlUnknown T tlm = none := by
      rw [tgMessageFromTlUnknown, if_neg (not_or.mp hid).1, if_neg (not_or.mp hid).2]
    rw [parseMsgs_message hnull hreads, hnone] at h
    have hmem : none ∈ log ++ [none] := List.mem_append_right _ List.mem_cons_self
    split_ifs at h
    · cases h
      exact hmem
    · exact (prefix_of_parseMsgs h).subset hmem

theorem none_notMem_wanted : none ∉ wanted T argv := by
  rw [wanted, List.mem_map]
  rintro ⟨r, -, hr⟩
  cases hr

/-- Every entry that is no `NULL` is a record. -/
theorem length_wanted (h : ∀ m ∈ argv, m.isNull = false → Converts m) :
    (wanted T argv).length + argv.countP Tl.isNull = argv.length := by
  induction argv with
  | nil => rfl
  | cons tlm argv ih =>
    have ih := ih fun m hm => h m (List.mem_cons_of_mem _ hm)
    cases hnull : tlm.isNull with
    | true =>
      rw [wanted_cons_null hnull, List.countP_cons_of_pos hnull, List.length_cons]
      omega
    | false =>
      rw [wanted_cons (h tlm List.mem_cons_self hnull), List.length_cons, List.length_cons,
        List.countP_cons_of_neg (by rw [hnull]; exact Bool.false_ne_true)]
      omega

/-- How far the loop comes: to the end, to a message at which the callback stops, or to an entry of
another kind. -/
theorem entries_cases (T : Texts) (callback : Callback) (log : List (Option Record))
    (argv : List Tl) :
    (∀ m ∈ argv, m.isNull = false → Converts m) ∧ TakesAll callback.stops log (wanted T argv) ∨
      ∃ before tlm after, argv = before ++ tlm :: after ∧
        (∀ m ∈ before, m.isNull = false → Converts m) ∧
        TakesAll callback.stops log (wanted T before) ∧ tlm.isNull = false ∧
        (Converts tlm →
          callback.stops (log ++ wanted T before ++ [tgMessageFromTlUnknown T tlm]) = true) := by
  induction argv generalizing log with
  | nil => exact .inl ⟨fun m hm => absurd hm List.not_mem_nil, trivial⟩
  | cons tlm argv ih =>
    have hcons : ∀ {xs : List Tl}, (tlm.isNull = false → Converts tlm) →
        (∀ m ∈ xs, m.isNull = false → Converts m) →
        ∀ m ∈ tlm :: xs, m.isNull = false → Converts m :=
      fun h h' => List.forall_mem_cons.mpr ⟨h, h'⟩
    by_cases hconverts : Converts tlm
    · have hnull := isNull_of_converts hconverts
      cases hstops : callback.stops (log ++ [tgMessageFromTlUnknown T tlm]) with
      | true =>
        refine .inr ⟨[], tlm, argv, rfl, fun m hm => absurd hm List.not_mem_nil, trivial, hnull, ?_⟩
        rw [wanted, List.filterMap_nil, List.map_nil, List.append_nil]
        exact fun _ => hstops
      | false =>
        obtain ⟨h, hgoes⟩ | ⟨before, m, after, rfl, h, hgoes, hm, hstop⟩ :=
          ih (log ++ [tgMessageFromTlUnknown T tlm])
        · refine .inl ⟨hcons (fun _ => hconverts) h, ?_⟩
          rw [wanted_cons hconverts]
          exact ⟨hstops, hgoes⟩
        · refine .inr ⟨tlm :: before, m, after, rfl, hcons (fun _ => hconverts) h, ?_, hm, ?_⟩
          · rw [wanted_cons hconverts]
            exact ⟨hstops, hgoes⟩
          · rw [wanted_cons hconverts]
            rwa [List.append_assoc log] at hstop
    · cases hnull : tlm.isNull with
      | true =>
        have hvacuous : tlm.isNull = false → Converts tlm :=
          fun h => absurd (h.symm.trans hnull) Bool.false_ne_true
        rw [wanted_cons_null hnull]
        obtain ⟨h, hgoes⟩ | ⟨before, m, after, rfl, h, hgoes, hm, hstop⟩ := ih log
        · exact .inl ⟨hcons hvacuous h, hgoes⟩
        · refine .inr ⟨tlm :: before, m, after, rfl, hcons hvacuous h, ?_, hm, ?_⟩
          · rwa [wanted_cons_null hnull]
          · rwa [wanted_cons_null hnull]
      | false =>
        exact .inr ⟨[], tlm, argv, rfl, fun m hm => absurd hm List.not_mem_nil, trivial, hnull,
          fun h => absurd h hconverts⟩

/-! ## When the messages are delivered -/

theorem parseTl_reply (k : Reply) (buf : Bytes) (fields : List Tl) :
    parseTl T (some callback) (.object k.id buf fields) =
      parseArray T (some callback) (k.array (.object k.id buf fields)) := by
  cases k <;> rfl

theorem parseMsgs_end (h : ∀ m ∈ argv, m.isNull = false → Converts m)
    (hgoes : TakesAll callback.stops [] (wanted T argv)) :
    parseMsgs T (some callback) 0 [] argv = .ok (argv.length, wanted T argv) := by
  have hend : parseMsgs T (some callback) 0 [] (argv ++ []) =
      parseMsgs T (some callback) (0 + argv.length) ([] ++ wanted T argv) [] :=
    parseMsgs_append h hgoes
  rwa [List.append_nil, parseMsgs, Nat.zero_add] at hend

theorem parseMsgs_stop (after : List Tl) (h : ∀ m ∈ before, m.isNull = false → Converts m)
    (hgoes : TakesAll callback.stops [] (wanted T before)) (htlm : Converts tlm)
    (hstop : callback.stops (wanted T before ++ [tgMessageFromTlUnknown T tlm]) = true) :
    parseMsgs T (some callback) 0 [] (before ++ tlm :: after) =
        .ok (before.length, wanted T before ++ [tgMessageFromTlUnknown T tlm]) ∧
      handed callback.stops [] (wanted T (before ++ tlm :: after)) =
        wanted T before ++ [tgMessageFromTlUnknown T tlm] := by
  constructor
  · rw [parseMsgs_append h hgoes, Nat.zero_add, List.nil_append,
      parseMsgs_message (isNull_of_converts htlm) htlm.reads, if_pos hstop]
  · rw [wanted_append, wanted_cons htlm]
    exact handed_of_stops hgoes hstop

/-- The loop over these entries returns the number of records, and they are those wanted. -/
theorem parseMsgs_iff (T : Texts) (callback : Callback) (argv : List Tl) :
    (∃ log, parseMsgs T (some callback) 0 [] argv = .ok (log.length, log) ∧
      log = handed callback.stops [] (wanted T argv)) ↔ Deliverable T callback argv := by
  constructor
  · rintro ⟨log, hrun, hlog⟩
    obtain ⟨hall, hgoes⟩ | ⟨before, tlm, after, rfl, hbefore, hgoes, hnull, hstop⟩ :=
      entries_cases T callback [] argv
    · have hcount := length_wanted (T := T) hall
      rw [parseMsgs_end hall hgoes] at hrun
      obtain ⟨hlength, rfl⟩ := Prod.mk.inj (Except.ok.inj hrun)
      have hzero : argv.countP Tl.isNull = 0 := by omega
      refine .inl ⟨fun m hm => hall m hm ?_, hgoes⟩
      exact Bool.eq_false_of_not_eq_true (List.countP_eq_zero.mp hzero m hm)
    · by_cases hconverts : Converts tlm
      · have hcount := length_wanted (T := T) hbefore
        rw [(parseMsgs_stop after hbefore hgoes hconverts (hstop hconverts)).1] at hrun
        obtain ⟨hlength, rfl⟩ := Prod.mk.inj (Except.ok.inj hrun)
        rw [List.length_append, List.length_singleton] at hlength
        exact .inr ⟨before, tlm, after, rfl, hbefore, hconverts, hgoes, hstop hconverts, by omega⟩
      · rw [parseMsgs_append hbefore hgoes] at hrun
        have hnone := none_mem_of_parseMsgs hnull hconverts hrun
        rw [hlog] at hnone
        exact absurd ((handed_prefix_append ..).subset hnone) none_notMem_wanted
  · rintro (⟨hall, hgoes⟩ | ⟨before, tlm, after, rfl, hbefore, htlm, hgoes, hstop, hone⟩)
    · have hcount := length_wanted (T := T) fun m hm _ => hall m hm
      have hzero : argv.countP Tl.isNull = 0 := List.countP_eq_zero.mpr fun m hm => by
        rw [isNull_of_converts (hall m hm)]
        exact Bool.false_ne_true
      refine ⟨wanted T argv, ?_, (handed_of_takesAll hgoes).symm⟩
      rw [parseMsgs_end (fun m hm _ => hall m hm) hgoes]
      exact congrArg (fun n => Except.ok (n, _)) (by omega)
    · have hcount := length_wanted (T := T) hbefore
      obtain ⟨hrun, hhanded⟩ := parseMsgs_stop after hbefore hgoes htlm hstop
      refine ⟨_, ?_, hhanded.symm⟩
      rw [hrun, List.length_append, List.length_singleton]
      exact congrArg (fun n => Except.ok (n, _)) (by omega)

/-- The messages of a reply are delivered if and only if its array is there, up to where the
callback stops it has messages that are converted without a read through `NULL`, and before that
there is no entry that is `NULL` if the callback does not stop, and just one if it does. -/
theorem deliversMessages_iff (T : Texts) (callback : Callback) (k : Reply) (buf : Bytes)
    (fields : List Tl) :
    DeliversMessages T callback k (.object k.id buf fields) ↔
      ∃ argv, (k.array (.object k.id buf fields)).elements = some argv ∧
        Deliverable T callback argv := by
  unfold DeliversMessages
  rw [parseTl_reply]
  constructor
  · rintro ⟨argv, log, hargv, hrun, hlog⟩
    rw [parseArray, hargv] at hrun
    exact ⟨argv, hargv, (parseMsgs_iff T callback argv).mp ⟨log, hrun, hlog⟩⟩
  · rintro ⟨argv, hargv, h⟩
    obtain ⟨log, hrun, hlog⟩ := (parseMsgs_iff T callback argv).mpr h
    refine ⟨argv, log, hargv, ?_, hlog⟩
    rw [parseArray, hargv]
    exact hrun

/-- A reply with an empty message. -/
def emptyReply : Tl :=
  .object idMessages [] [.vector 1 [.object idMessageEmpty [] [.zero, .int 5]]]

/-- A structure that nothing filled in is handed over for it. -/
theorem not_deliversMessages_empty :
    ¬ DeliversMessages noTexts (fun _ => 0) .messages emptyReply := by
  rintro ⟨argv, log, hargv, hrun, hlog⟩
  obtain rfl : _ = argv := Option.some.inj hargv
  obtain ⟨-, rfl⟩ : 1 = log.length ∧ [none] = log := Prod.mk.inj (Except.ok.inj hrun)
  cases hlog

end

end Libtg.FromTl
