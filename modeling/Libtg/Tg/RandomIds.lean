import Libtg.Tg.DocumentSend
import Libtg.Tg.Session
import Libtg.TlGenerator.RoundTrip

/-!
# Random ids of sent messages (`tl/buf.c`, `tg/messages.c`, `tg/files.c`)

The server drops a message whose random id it has seen before. `tg_message_send` and
`tg_document_send` take theirs from `buf_rand`, which seeds `rand` with the clock in seconds each
time. So the id is a function of the second (`randomId_eq_iff`), and the ids of a run are distinct
only if no second is used twice (`distinctRandomIds_iff`).
-/

namespace Libtg

open LittleEndian

/-- The value of the `i`-th call of `rand` after `srand` with a seed. -/
abbrev Rand := UInt32 → Nat → Nat

/-- `(unsigned int)time(NULL)`. -/
def seed (time : Int) : UInt32 := UInt32.ofNat (time % 2 ^ 32).toNat

/-- The surroundings of a `buf_rand` at this time. -/
def seeded (rand : Rand) (time : Int) : Env where
  clock _ := 0
  rand i := UInt8.ofNat (rand (seed time) i % 256)

/-- `buf_get_ui64 (buf_rand (8))`. -/
def randomId (rand : Rand) (time : Int) : UInt64 := get64 (bufRand (seeded rand time) 8)

/-! ## The messages -/

def idMessagesSendMessage : UInt32 := 0x983f9745
def idMessagesSendMedia : UInt32 := 0x7852834e

/-- `messages.sendMessage#983f9745 flags:# no_webpage:flags.1?true silent:flags.5?true
background:flags.6?true clear_draft:flags.7?true noforwards:flags.14?true
update_stickersets_order:flags.15?true invert_media:flags.16?true peer:InputPeer
reply_to:flags.0?InputReplyTo message:string random_id:long reply_markup:flags.2?ReplyMarkup
entities:flags.3?Vector<MessageEntity> schedule_date:flags.10?int send_as:flags.13?InputPeer
quick_reply_shortcut:flags.17?InputQuickReplyShortcut effect:flags.18?long = Updates;`. -/
def messagesSendMessage : Entry :=
  ⟨false, "messages_sendMessage", idMessagesSendMessage,
    [⟨"flags", none, 0, 0⟩, ⟨"no_webpage", some "true", 1, 1⟩, ⟨"silent", some "true", 1, 5⟩,
      ⟨"background", some "true", 1, 6⟩, ⟨"clear_draft", some "true", 1, 7⟩,
      ⟨"noforwards", some "true", 1, 14⟩, ⟨"update_stickersets_order", some "true", 1, 15⟩,
      ⟨"invert_media", some "true", 1, 16⟩, ⟨"peer", some "InputPeer", 0, 0⟩,
      ⟨"reply_to", some "InputReplyTo", 1, 0⟩, ⟨"message", some "string", 0, 0⟩,
      ⟨"random_id", some "long", 0, 0⟩, ⟨"reply_markup", some "ReplyMarkup", 1, 2⟩,
      ⟨"entities", some "Vector<MessageEntity>", 1, 3⟩, ⟨"schedule_date", some "int", 1, 10⟩,
      ⟨"send_as", some "InputPeer", 1, 13⟩,
      ⟨"quick_reply_shortcut", some "InputQuickReplyShortcut", 1, 17⟩,
      ⟨"effect", some "long", 1, 18⟩]⟩

/-- `messages.sendMedia#7852834e flags:# silent:flags.5?true background:flags.6?true
clear_draft:flags.7?true noforwards:flags.14?true update_stickersets_order:flags.15?true
invert_media:flags.16?true peer:InputPeer reply_to:flags.0?InputReplyTo media:InputMedia
message:string random_id:long reply_markup:flags.2?ReplyMarkup
entities:flags.3?Vector<MessageEntity> schedule_date:flags.10?int send_as:flags.13?InputPeer
quick_reply_shortcut:flags.17?InputQuickReplyShortcut effect:flags.18?long = Updates;`. -/
def messagesSendMedia : Entry :=
  ⟨false, "messages_sendMedia", idMessagesSendMedia,
    [⟨"flags", none, 0, 0⟩, ⟨"silent", some "true", 1, 5⟩, ⟨"background", some "true", 1, 6⟩,
      ⟨"clear_draft", some "true", 1, 7⟩, ⟨"noforwards", some "true", 1, 14⟩,
      ⟨"update_stickersets_order", some "true", 1, 15⟩, ⟨"invert_media", some "true", 1, 16⟩,
      ⟨"peer", some "InputPeer", 0, 0⟩, ⟨"reply_to", some "InputReplyTo", 1, 0⟩,
      ⟨"media", some "InputMedia", 0, 0⟩, ⟨"message", some "string", 0, 0⟩,
      ⟨"random_id", some "long", 0, 0⟩, ⟨"reply_markup", some "ReplyMarkup", 1, 2⟩,
      ⟨"entities", some "Vector<MessageEntity>", 1, 3⟩, ⟨"schedule_date", some "int", 1, 10⟩,
      ⟨"send_as", some "InputPeer", 1, 13⟩,
      ⟨"quick_reply_shortcut", some "InputQuickReplyShortcut", 1, 17⟩,
      ⟨"effect", some "long", 1, 18⟩]⟩

/-- `tl_messages_sendMessage` with the arguments of `tg_message_send`. -/
def tlMessagesSendMessage (peer message : Bytes) (randomId : UInt64) : Bytes :=
  layout [vector] messagesSendMessage
    [.absent, .absent, .absent, .absent, .absent, .absent, .absent, .absent, .bytes peer, .absent,
      .bytes message, .long randomId, .absent, .absent, .absent, .absent, .absent, .absent]
    fun _ => 0

/-- `tl_messages_sendMedia` with the arguments of `tg_document_send`. -/
def tlMessagesSendMedia (peer media message : Bytes) (randomId : UInt64) : Bytes :=
  layout [vector] messagesSendMedia
    [.absent, .absent, .absent, .absent, .absent, .absent, .absent, .bytes peer, .absent,
      .bytes media, .bytes message, .long randomId, .absent, .absent, .absent, .absent, .absent,
      .absent]
    fun _ => 0

/-- The query `tg_message_send` sends to the peer. -/
def tgMessageSend (rand : Rand) (time : Int) (peer message : Bytes) : Bytes :=
  tlMessagesSendMessage peer message (randomId rand time)

/-- The query `tg_document_send` sends once the file is uploaded and its `media` are made. -/
def tgDocumentSendMedia (rand : Rand) (time : Int) (peer media message : Bytes) : Bytes :=
  tlMessagesSendMedia peer media message (randomId rand time)

/-- What a message holds. -/
inductive Content where
  | text (peer message : Bytes)
  | document (peer media message : Bytes)

/-- A message, and the time at which `buf_rand` was called for it. -/
structure SentMessage where
  time : Int
  content : Content

def SentMessage.query (rand : Rand) (m : SentMessage) : Bytes :=
  match m.content with
  | .text peer message => tgMessageSend rand m.time peer message
  | .document peer media message => tgDocumentSendMedia rand m.time peer media message

/-- `random_id`, which stands at the end of both queries. -/
def SentMessage.randomId (rand : Rand) (m : SentMessage) : UInt64 :=
  let query := m.query rand
  get64 (query.drop (query.length - 8))

/-- `rand` yields the same values for two seeds. -/
def SameValues (rand : Rand) (s t : UInt32) : Prop := ∀ i < 8, rand s i = rand t i

/-- No two messages of the run carry the same id, unless `rand` yields the same values for two
different seeds. -/
def DistinctRandomIds (rand : Rand) (run : List SentMessage) : Prop :=
  run.Pairwise fun m m' => m.randomId rand ≠ m'.randomId rand ∨
    seed m.time ≠ seed m'.time ∧ SameValues rand (seed m.time) (seed m'.time)

/-! ## Where the id stands -/

theorem argPieces_guarded (name type : String) (b : Nat) :
    argPieces [vector] false ⟨name, some type, 1, b⟩ .absent = [] :=
  argPieces_absent one_ne_zero rfl

theorem isFlags_typed (name type : String) (n b : Nat) :
    Arg.isFlags ⟨name, some type, n, b⟩ = false := rfl

section
variable (peer media message : Bytes) (randomId : UInt64)

theorem tlMessagesSendMessage_eq : tlMessagesSendMessage peer message randomId =
    le32 idMessagesSendMessage ++ le32 0 ++ peer ++ serializeString message ++ le64 randomId := by
  have hflags : Arg.isFlags ⟨"flags", none, 0, 0⟩ = true := by decide
  have hpeer : argPieces [vector] false ⟨"peer", some "InputPeer", 0, 0⟩ (.bytes peer) =
    [peer] := rfl
  have hmessage : argPieces [vector] false ⟨"message", some "string", 0, 0⟩ (.bytes message) =
    [serializeString message] := rfl
  have hid : argPieces [vector] false ⟨"random_id", some "long", 0, 0⟩ (.long randomId) =
    [le64 randomId] := rfl
  simp [tlMessagesSendMessage, layout, messagesSendMessage, segs, seg, Backpatch.Seg.render,
    argPieces_guarded, isFlags_typed, hflags, hpeer, hmessage, hid]

theorem tlMessagesSendMedia_eq : tlMessagesSendMedia peer media message randomId =
    le32 idMessagesSendMedia ++ le32 0 ++ peer ++ media ++ serializeString message ++
      le64 randomId := by
  have hflags : Arg.isFlags ⟨"flags", none, 0, 0⟩ = true := by decide
  have hpeer : argPieces [vector] false ⟨"peer", some "InputPeer", 0, 0⟩ (.bytes peer) =
    [peer] := rfl
  have hmedia : argPieces [vector] false ⟨"media", some "InputMedia", 0, 0⟩ (.bytes media) =
    [media] := rfl
  have hmessage : argPieces [vector] false ⟨"message", some "string", 0, 0⟩ (.bytes message) =
    [serializeString message] := rfl
  have hid : argPieces [vector] false ⟨"random_id", some "long", 0, 0⟩ (.long randomId) =
    [le64 randomId] := rfl
  simp [tlMessagesSendMedia, layout, messagesSendMedia, segs, seg, Backpatch.Seg.render,
    argPieces_guarded, isFlags_typed, hflags, hpeer, hmedia, hmessage, hid]

end

section
variable {rand : Rand}

theorem query_ends (rand : Rand) (m : SentMessage) :
    ∃ front, m.query rand = front ++ le64 (randomId rand m.time) := by
  obtain ⟨time, content⟩ := m
  cases content with
  | text peer message => exact ⟨_, tlMessagesSendMessage_eq peer message _⟩
  | document peer media message => exact ⟨_, tlMessagesSendMedia_eq peer media message _⟩

/-- The id of a message depends on its time alone. -/
theorem SentMessage.randomId_eq (rand : Rand) (m : SentMessage) :
    m.randomId rand = Libtg.randomId rand m.time := by
  obtain ⟨front, hquery⟩ := query_ends rand m
  have hdrop : front.length + 8 - 8 = front.length := by omega
  rw [SentMessage.randomId, hquery, List.length_append, le64_length, hdrop, List.drop_left,
    get64_le64]

/-! ## When two ids are the same -/

theorem bufRand_seeded_eq_iff {t u : Int} {n : Nat} :
    bufRand (seeded rand t) n = bufRand (seeded rand u) n ↔
      ∀ i < n, rand (seed t) i % 256 = rand (seed u) i % 256 := by
  rw [bufRand, bufRand, List.map_inj_left]
  refine forall_congr' fun i => ?_
  rw [List.mem_range]
  refine imp_congr_right fun _ => ?_
  show UInt8.ofNat _ = UInt8.ofNat _ ↔ _
  rw [← UInt8.toNat_inj, UInt8.toNat_ofNat', UInt8.toNat_ofNat']
  omega

/-- Two ids are the same exactly if the low bytes of the first eight values are. -/
theorem randomId_eq_iff {t u : Int} : randomId rand t = randomId rand u ↔
    ∀ i < 8, rand (seed t) i % 256 = rand (seed u) i % 256 := by
  rw [← bufRand_seeded_eq_iff]
  constructor
  · intro h
    have hbytes := congrArg le64 h
    rwa [randomId, randomId, le64_get64 (bufRand_length _ _), le64_get64 (bufRand_length _ _)]
      at hbytes
  · exact congrArg get64

/-- The ids of a run are as the server wants them exactly if no two messages are sent within one
second, and two seeds with different values show it in a low byte. -/
theorem distinctRandomIds_iff (rand : Rand) (run : List SentMessage) :
    DistinctRandomIds rand run ↔ run.Pairwise fun m m' => seed m.time ≠ seed m'.time ∧
      (SameValues rand (seed m.time) (seed m'.time) ∨
        ∃ i < 8, rand (seed m.time) i % 256 ≠ rand (seed m'.time) i % 256) := by
  refine List.Pairwise.iff fun m m' => ?_
  have hdiffer : m.randomId rand ≠ m'.randomId rand ↔
      ∃ i < 8, rand (seed m.time) i % 256 ≠ rand (seed m'.time) i % 256 := by
    rw [SentMessage.randomId_eq, SentMessage.randomId_eq, Ne, randomId_eq_iff]
    push Not
    rfl
  rw [hdiffer]
  constructor
  · rintro (⟨i, hi, hne⟩ | ⟨hseed, hsame⟩)
    · refine ⟨fun hseed => hne ?_, .inr ⟨i, hi, hne⟩⟩
      rw [hseed]
    · exact ⟨hseed, .inl hsame⟩
  · rintro ⟨hseed, hsame | hshows⟩
    · exact .inr ⟨hseed, hsame⟩
    · exact .inl hshows

/-- Two messages to the same peer, one after the other. -/
def twice : List SentMessage := [⟨1, .text [] [0x61]⟩, ⟨1, .text [] [0x62]⟩]

theorem distinctRandomIds_counterexample : ¬ ∀ (rand : Rand) (run : List SentMessage),
    DistinctRandomIds rand run := by
  intro h
  obtain ⟨hpair, -⟩ := List.pairwise_cons.mp (h (fun s i => s.toNat + i) twice)
  rcases hpair _ (List.mem_singleton_self _) with hne | ⟨hne, -⟩
  · rw [SentMessage.randomId_eq, SentMessage.randomId_eq] at hne
    exact hne rfl
  · exact hne rfl

end

end Libtg
