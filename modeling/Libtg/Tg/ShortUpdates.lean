import Libtg.Tg.FromTl

/-!
# Short updates (`tg/updates.c`)

`message_update` fills in a message from an `updateShortMessage` or an `updateShortChatMessage`, by
way of an `updateShortMessage` of its own. The statements it saves the message with are left out;
they print the same structure.
-/

namespace Libtg.FromTl

open Database

/-- The fields `message_update` takes from an `updateShortMessage`, `up`. -/
structure ShortMessage where
  out_ : UInt64
  mentioned_ : UInt64
  media_unread_ : UInt64
  silent_ : UInt64
  id_ : UInt32
  message_ : Bytes
  date_ : UInt32
  ttl_period_ : UInt32

/-- `*(tl_updateShortMessage_t *)tl`. -/
def ofShortMessage (tl : Tl) : ShortMessage where
  out_ := flag (tl.field 1)
  mentioned_ := flag (tl.field 2)
  media_unread_ := flag (tl.field 3)
  silent_ := flag (tl.field 4)
  id_ := (tl.field 5).int?
  message_ := (tl.field 7).bytes?
  date_ := (tl.field 10).int?
  ttl_period_ := (tl.field 15).int?

/-- The one that is filled from an `updateShortChatMessage`. Its `id_` is the constructor's. -/
def ofShortChatMessage (cm : Tl) : ShortMessage where
  out_ := flag (cm.field 1)
  mentioned_ := flag (cm.field 2)
  media_unread_ := flag (cm.field 3)
  silent_ := flag (cm.field 4)
  id_ := cm.id
  message_ := (cm.field 8).bytes?
  date_ := (cm.field 11).int?
  ttl_period_ := (cm.field 16).int?

/-- The part of `message_update` from `msg->out_` on. -/
def ofShort (up : ShortMessage) (msg : Record) : Record :=
  msg |> setInt "out_" up.out_ |> setInt "mentioned_" up.mentioned_
    |> setInt "media_unread_" up.media_unread_ |> setInt "silent_" up.silent_
    |> setInt "id_" up.id_.toUInt64 |> setStr "message_" (bufStrdup up.message_)
    |> setInt "date_" up.date_.toUInt64 |> setInt "ttl_period_" up.ttl_period_.toUInt64

/-- `message_update`: the message, and the chat it returns. -/
def messageUpdate (tl : Tl) : Record × UInt64 :=
  if tl.id = idUpdateShortChatMessage then
    (ofShort (ofShortChatMessage tl) (setInt "from_id_" (tl.field 6).long? zero),
      (tl.field 7).long?)
  else (ofShort (ofShortMessage tl) zero, 0)

/-- What `tg_do_updates` delivers. -/
inductive Delivered where
  | message (m : Record)
  | chatMessage (chatId : UInt64) (m : Record)

def Delivered.msg : Delivered → Record
  | message m => m
  | chatMessage _ m => m

/-- The cases of `tg_do_updates` for short messages. -/
def tgDoUpdatesShort (tl : Tl) : Option Delivered :=
  if tl.id = idUpdateShortMessage then some (.message (messageUpdate tl).1)
  else if tl.id = idUpdateShortChatMessage then
    some (.chatMessage (messageUpdate tl).2 (messageUpdate tl).1)
  else none

/-! ## The full message -/

/-- The two short messages. -/
inductive Short where
  | user | chat
  deriving DecidableEq

def Short.id : Short → UInt32
  | .user => idUpdateShortMessage
  | .chat => idUpdateShortChatMessage


/-- The fields of an update of this constructor, from its text on one place later for a chat. -/
def Short.text (k : Short) (tl : Tl) : Tl := tl.field (if k = .chat then 8 else 7)
def Short.date (k : Short) (tl : Tl) : Tl := tl.field (if k = .chat then 11 else 10)
def Short.ttlPeriod (k : Short) (tl : Tl) : Tl := tl.field (if k = .chat then 16 else 15)
def Short.fwdFrom (k : Short) (tl : Tl) : Tl := tl.field (if k = .chat then 12 else 11)
def Short.viaBot (k : Short) (tl : Tl) : Tl := tl.field (if k = .chat then 13 else 12)
def Short.replyTo (k : Short) (tl : Tl) : Tl := tl.field (if k = .chat then 14 else 13)
def Short.entities (k : Short) (tl : Tl) : Tl := tl.field (if k = .chat then 15 else 14)

/-- The peer the message is in. -/
def Short.peer (k : Short) (tl : Tl) : Tl :=
  match k with
  | .user => .object idPeerUser [] [tl.field 6]
  | .chat => .object idPeerChat [] [tl.field 7]

/-- The full message an update announces: `user_id` or `from_id` is who sent it. -/
def Short.full (k : Short) (tl : Tl) : Tl :=
  .object idMessage []
    [tl.field 0, tl.field 1, tl.field 2, tl.field 3, tl.field 4, .zero, .zero, .zero, .zero, .zero,
      .zero, .zero, .int 0, .zero, tl.field 5, .object idPeerUser [] [tl.field 6], .zero, k.peer tl,
      .null, k.fwdFrom tl, k.viaBot tl, .zero, k.replyTo tl, k.date tl, k.text tl, .null, .null,
      k.entities tl, .zero, .zero, .null, .zero, .zero, .zero, .null, .zero, k.ttlPeriod tl]

/-- The fields that are asked for, but for the text. -/
def shortFields : List String :=
  ["out_", "mentioned_", "media_unread_", "silent_", "id_", "from_id_", "date_", "ttl_period_"]

/-- The message has the fields of the update, and they are those of the full message. -/
structure KeepsMessage (T : Texts) (k : Short) (tl : Tl) (msg : Record) : Prop where
  out : msg.int "out_" = flag (tl.field 1)
  mentioned : msg.int "mentioned_" = flag (tl.field 2)
  media_unread : msg.int "media_unread_" = flag (tl.field 3)
  silent : msg.int "silent_" = flag (tl.field 4)
  id : msg.int "id_" = (tl.field 5).int?.toUInt64
  sender : msg.int "from_id_" = (tl.field 6).long?
  text : msg.str "message_" = bufStrdup (k.text tl).bytes?
  date : msg.int "date_" = (k.date tl).int?.toUInt64
  ttl_period : msg.int "ttl_period_" = (k.ttlPeriod tl).int?.toUInt64
  full_int : ∀ n ∈ shortFields, msg.int n = (tgMessageFromTl T (k.full tl)).int n
  full_text : msg.str "message_" = (tgMessageFromTl T (k.full tl)).str "message_"

/-- A short update delivers the message it announces. -/
def KeepsUpdate (T : Texts) (k : Short) (tl : Tl) : Prop :=
  ∃ d, tgDoUpdatesShort tl = some d ∧ KeepsMessage T k tl d.msg

section
variable (T : Texts) (k : Short) (tl : Tl)

/-! ## What the full message gives -/

theorem messageArgs_once :
    messageArgs.Pairwise fun c c' => c.n ≠ c'.n ∧ c.n ≠ "type_" ++ c'.n := by
  decide +kernel

theorem full_agree {n : String} (h : Misses replyHeaderArgs n) (hfwd : Misses fwdHeaderArgs n) :
    Agree n (tgMessageFromTl T (k.full tl)) (copyAll messageArgs (k.full tl) zero) :=
  messageReply_agree h hfwd ..

/-- A field that is copied from the full message has what its macro copies. -/
theorem full_of_mem {c : Copied} (h : c ∈ messageArgs) (hreply : Misses replyHeaderArgs c.n)
    (hfwd : Misses fwdHeaderArgs c.n) :
    ∃ m', Agree c.n (tgMessageFromTl T (k.full tl)) (c.run (k.full tl) m') :=
  have ⟨m', hm⟩ := copyAll_of_mem (m := zero) h messageArgs_once
  ⟨m', (full_agree T k tl hreply hfwd).trans hm⟩

theorem full_flag {c : Copied} (h : c ∈ messageArgs) (hc : c.copy = .flag)
    (hreply : Misses replyHeaderArgs c.n) (hfwd : Misses fwdHeaderArgs c.n) :
    (tgMessageFromTl T (k.full tl)).int c.n = flag ((k.full tl).field c.i) := by
  obtain ⟨m', hm, -⟩ := full_of_mem T k tl h hreply hfwd
  rw [hm, Copied.run_flag hc]

theorem full_of_int {c : Copied} (h : c ∈ messageArgs) (hc : c.copy = .int)
    (hreply : Misses replyHeaderArgs c.n) (hfwd : Misses fwdHeaderArgs c.n) :
    (tgMessageFromTl T (k.full tl)).int c.n = ((k.full tl).field c.i).int?.toUInt64 := by
  obtain ⟨m', hm, -⟩ := full_of_mem T k tl h hreply hfwd
  rw [hm, Copied.run_int hc]

theorem full_out : (tgMessageFromTl T (k.full tl)).int "out_" = flag (tl.field 1) :=
  full_flag T k tl (c := ⟨.flag, "out_", 1⟩) (by decide) rfl (by decide) (by decide)

theorem full_mentioned : (tgMessageFromTl T (k.full tl)).int "mentioned_" = flag (tl.field 2) :=
  full_flag T k tl (c := ⟨.flag, "mentioned_", 2⟩) (by decide) rfl (by decide) (by decide)

theorem full_media_unread :
    (tgMessageFromTl T (k.full tl)).int "media_unread_" = flag (tl.field 3) :=
  full_flag T k tl (c := ⟨.flag, "media_unread_", 3⟩) (by decide) rfl (by decide) (by decide)

theorem full_silent : (tgMessageFromTl T (k.full tl)).int "silent_" = flag (tl.field 4) :=
  full_flag T k tl (c := ⟨.flag, "silent_", 4⟩) (by decide) rfl (by decide) (by decide)

theorem full_id : (tgMessageFromTl T (k.full tl)).int "id_" = (tl.field 5).int?.toUInt64 :=
  full_of_int T k tl (c := ⟨.int, "id_", 14⟩) (by decide) rfl (by decide) (by decide)

theorem full_from_id : (tgMessageFromTl T (k.full tl)).int "from_id_" = (tl.field 6).long? := by
  obtain ⟨m', hm, -⟩ :=
    full_of_mem T k tl (c := ⟨.per, "from_id_", 15⟩) (by decide) (by decide) (by decide)
  rw [hm, Copied.run_per rfl rfl]
  rfl

theorem full_date : (tgMessageFromTl T (k.full tl)).int "date_" = (k.date tl).int?.toUInt64 :=
  full_of_int T k tl (c := ⟨.int, "date_", 23⟩) (by decide) rfl (by decide) (by decide)

/-- `ttl_period_` is not copied at all. -/
theorem full_ttl_period : (tgMessageFromTl T (k.full tl)).int "ttl_period_" = 0 :=
  ((full_agree T k tl (by decide) (by decide)).trans (copyAll_of_misses (by decide))).1

/-- A text without a byte is not copied. -/
theorem full_message :
    (tgMessageFromTl T (k.full tl)).str "message_" =
      if (k.text tl).bytes? ≠ [] then bufStrdup (k.text tl).bytes? else none := by
  have hargs : messageArgs = messageArgs.dropLast ++ [⟨.str, "message_", 24⟩] := by decide
  have hsplit : copyAll messageArgs (k.full tl) zero =
      Copied.run (k.full tl) (copyAll messageArgs.dropLast (k.full tl) zero)
        ⟨.str, "message_", 24⟩ := by
    conv_lhs => rw [hargs]
    rw [copyAll, List.foldl_append]
    rfl
  rw [(full_agree T k tl (by decide) (by decide)).2, hsplit]
  refine (Copied.run_str rfl ..).trans ?_
  rw [(copyAll_of_misses (by decide)).2]
  rfl

end

/-! ## When the message is kept -/

/-- What has to hold of an update for its message to be kept. The sender of an `updateShortMessage`
is not set, the number of the message in an `updateShortChatMessage` is that of its constructor; an
empty text and a period are not what the full message gives. -/
def Kept (k : Short) (tl : Tl) : Prop :=
  (match k with
    | .user => (tl.field 6).long? = 0
    | .chat => (tl.field 5).int? = idUpdateShortChatMessage) ∧
    (k.text tl).bytes? ≠ [] ∧ (k.ttlPeriod tl).int? = 0

instance : (k : Short) → (tl : Tl) → Decidable (Kept k tl)
  | .user, tl => inferInstanceAs (Decidable ((tl.field 6).long? = 0 ∧ _ ∧ _))
  | .chat, tl => inferInstanceAs (Decidable ((tl.field 5).int? = idUpdateShortChatMessage ∧ _ ∧ _))

theorem ofShort_fields (up : ShortMessage) (m : Record) :
    (ofShort up m).int "out_" = up.out_ ∧ (ofShort up m).int "mentioned_" = up.mentioned_ ∧
      (ofShort up m).int "media_unread_" = up.media_unread_ ∧
      (ofShort up m).int "silent_" = up.silent_ ∧ (ofShort up m).int "id_" = up.id_.toUInt64 ∧
      (ofShort up m).int "date_" = up.date_.toUInt64 ∧
      (ofShort up m).int "ttl_period_" = up.ttl_period_.toUInt64 := by
  simp [ofShort]

theorem ofShort_sender (up : ShortMessage) (m : Record) :
    (ofShort up m).int "from_id_" = m.int "from_id_" := by
  simp [ofShort]

theorem ofShort_text (up : ShortMessage) (m : Record) :
    (ofShort up m).str "message_" = bufStrdup up.message_ := by
  simp [ofShort]

/-- What is taken from an update of this constructor. -/
def Short.taken (k : Short) (tl : Tl) : ShortMessage :=
  match k with
  | .user => ofShortMessage tl
  | .chat => ofShortChatMessage tl

/-- The sender of the message that is delivered. -/
def Short.sent (k : Short) (tl : Tl) : UInt64 :=
  match k with
  | .user => 0
  | .chat => (tl.field 6).long?

/-- What is delivered is the structure that is filled in. -/
theorem delivered (k : Short) (buf : Bytes) (fields : List Tl) :
    ∃ d m, tgDoUpdatesShort (.object k.id buf fields) = some d ∧
      m.int "from_id_" = k.sent (.object k.id buf fields) ∧
      d.msg = ofShort (k.taken (.object k.id buf fields)) m := by
  cases k with
  | user => exact ⟨_, zero, rfl, rfl, rfl⟩
  | chat =>
    let sender := ((Tl.object idUpdateShortChatMessage buf fields).field 6).long?
    exact ⟨_, setInt "from_id_" sender zero, rfl, setInt_self .., rfl⟩

/-- All but the sender and the number is taken from its place. -/
theorem Short.taken_fields (k : Short) (tl : Tl) :
    (k.taken tl).out_ = flag (tl.field 1) ∧ (k.taken tl).mentioned_ = flag (tl.field 2) ∧
      (k.taken tl).media_unread_ = flag (tl.field 3) ∧ (k.taken tl).silent_ = flag (tl.field 4) ∧
      (k.taken tl).message_ = (k.text tl).bytes? ∧ (k.taken tl).date_ = (k.date tl).int? ∧
      (k.taken tl).ttl_period_ = (k.ttlPeriod tl).int? := by
  cases k <;> exact ⟨rfl, rfl, rfl, rfl, rfl, rfl, rfl⟩

theorem kept_iff {k : Short} {buf : Bytes} {fields : List Tl} :
    Kept k (.object k.id buf fields) ↔
      (k.taken (.object k.id buf fields)).id_ = ((Tl.object k.id buf fields).field 5).int? ∧
        k.sent (.object k.id buf fields) = ((Tl.object k.id buf fields).field 6).long? ∧
        (k.text (.object k.id buf fields)).bytes? ≠ [] ∧
        (k.ttlPeriod (.object k.id buf fields)).int? = 0 := by
  cases k with
  | user => exact ⟨fun ⟨h, h'⟩ => ⟨rfl, h.symm, h'⟩, fun ⟨_, h, h'⟩ => ⟨h.symm, h'⟩⟩
  | chat => exact ⟨fun ⟨h, h'⟩ => ⟨h.symm, rfl, h'⟩, fun ⟨h, _, h'⟩ => ⟨h.symm, h'⟩⟩

/-- A structure filled from what is taken keeps the message under the condition, and only then. -/
theorem keepsMessage_iff (T : Texts) (k : Short) (tl : Tl) (m : Record) :
    KeepsMessage T k tl (ofShort (k.taken tl) m) ↔
      (k.taken tl).id_ = (tl.field 5).int? ∧ m.int "from_id_" = (tl.field 6).long? ∧
        (k.text tl).bytes? ≠ [] ∧ (k.ttlPeriod tl).int? = 0 := by
  obtain ⟨hout, hmentioned, hunread, hsilent, hid, hdate, httl⟩ := ofShort_fields (k.taken tl) m
  obtain ⟨tout, tmentioned, tunread, tsilent, tmessage, tdate, tttl⟩ := k.taken_fields tl
  have hsender := ofShort_sender (k.taken tl) m
  have htext := ofShort_text (k.taken tl) m
  constructor
  · intro h
    refine ⟨?_, hsender.symm.trans h.sender, ?_, ?_⟩
    · exact UInt32.toUInt64_inj.mp (hid.symm.trans h.id)
    · intro hnil
      have := h.full_text
      rw [htext, full_message, if_neg (not_not.mpr hnil)] at this
      cases this
    · have := h.full_int "ttl_period_" (by decide)
      rw [httl, tttl, full_ttl_period] at this
      exact UInt32.toUInt64_inj.mp this
  · rintro ⟨hid', hsender', hne, hzero⟩
    rw [tout] at hout
    rw [tmentioned] at hmentioned
    rw [tunread] at hunread
    rw [tsilent] at hsilent
    rw [hid'] at hid
    rw [hsender'] at hsender
    rw [tmessage] at htext
    rw [tdate] at hdate
    rw [tttl] at httl
    refine ⟨hout, hmentioned, hunread, hsilent, hid, hsender, htext, hdate, httl, ?_, ?_⟩
    · intro n hn
      simp only [shortFields, List.mem_cons, List.not_mem_nil, or_false] at hn
      obtain rfl | rfl | rfl | rfl | rfl | rfl | rfl | rfl := hn
      · rw [hout, full_out]
      · rw [hmentioned, full_mentioned]
      · rw [hunread, full_media_unread]
      · rw [hsilent, full_silent]
      · rw [hid, full_id]
      · rw [hsender, full_from_id]
      · rw [hdate, full_date]
      · rw [httl, full_ttl_period, hzero]
        rfl
    · rw [htext, full_message, if_pos hne]

/-- Message 7 of chat 9 from user 5, with the text `hi`. -/
def hiUpdate : Tl :=
  .object idUpdateShortChatMessage []
    [.zero, .zero, .zero, .zero, .zero, .int 7, .long 5, .long 9, .buf (Sql.bytes "hi")]

end Libtg.FromTl
