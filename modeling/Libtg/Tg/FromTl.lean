import Libtg.Tg.Accounts
import Libtg.Tg.DoUpdates
import Libtg.Tg.SvgPath

/-!
# Messages from objects (`tg/messages.c`)

What `tg_message_from_tl` and `tg_message_from_tl_service` fill in. The pointers they read through
are those of `Libtg.tgMessageFromTl` and `Libtg.tgMessageFromTlService`; here a field of a missing
object is zero. A field of the structure goes by its name, one of the reply header in it by the name
after `reply_to_.`.
-/

namespace Libtg.FromTl

open Database

def idPeerUser : UInt32 := 0x59511722
def idPeerChat : UInt32 := 0x36c6019a
def idUser : UInt32 := 0x83314fca
def idPhotoSize : UInt32 := 0x75c78e60
def idPhotoCachedSize : UInt32 := 0x021e1ad6
def idPhotoStrippedSize : UInt32 := 0xe0b0bc2e
def idPhotoPathSize : UInt32 := 0xd8214d41
def idVideoSize : UInt32 := 0xde33b094
def idMessageMediaContact : UInt32 := 0x70322949
def idDocumentAttributeImageSize : UInt32 := 0x6c37c15c
def idDocumentAttributeVideo : UInt32 := 0x17399fad
def idDocumentAttributeAudio : UInt32 := 0x9852f9c6
def idDocumentAttributeFilename : UInt32 := 0x15590068
def idDocumentAttributeSticker : UInt32 := 0x6319d612
def idMessageActionEmpty : UInt32 := 0xb6aef7b0
def idMessageActionChatCreate : UInt32 := 0xbd47cbad
def idMessageActionChatEditTitle : UInt32 := 0xb5a1ce5a
def idMessageActionChatEditPhoto : UInt32 := 0x7fcb13a8
def idMessageActionChatDeletePhoto : UInt32 := 0x95e3fbef
def idMessageActionChatAddUser : UInt32 := 0x15cefd00
def idMessageActionChatDeleteUser : UInt32 := 0xa43f30cc
def idMessageActionChatJoinedByLink : UInt32 := 0x031224c3
def idMessageActionChannelCreate : UInt32 := 0x95d2ac92
def idMessageActionChatMigrateTo : UInt32 := 0xe1037f92
def idMessageActionChannelMigrateFrom : UInt32 := 0xea3948e9
def idMessageActionCustomAction : UInt32 := 0xfae69f56
def idPhoneCallDiscardReasonMissed : UInt32 := 0x85e42301
def idPhoneCallDiscardReasonDisconnect : UInt32 := 0xe095c1a0
def idPhoneCallDiscardReasonHangup : UInt32 := 0x57adc690
def idPhoneCallDiscardReasonBusy : UInt32 := 0xfaf7e8c9

/-! ## Texts and fields -/

/-- What the conversion only calls: `buf_to_base64`, the image of `BUF2IMG`, `"%lf"`, a `double` as
a `uint64_t`, and `TL_NAME_FROM_ID`. -/
structure Texts where
  base64 : Bytes → Option CString
  image : Bytes → Option CString
  lf : UInt64 → Bytes
  truncate : UInt64 → UInt64
  name : UInt32 → CString

def noTexts : Texts := ⟨fun _ => none, fun _ => none, fun _ => [], id, fun _ => .ofText []⟩

/-- `"%s"` of the data of a buffer. -/
def cText (b : Bytes) : Bytes := b.takeWhile (· ≠ 0)

/-- `"%d"` of a `uint32_t`. -/
def dText (v : UInt32) : Bytes := Sql.intText v.toInt32.toInt

/-- `"%ld"` of a `uint64_t`. -/
def ldText (v : UInt64) : Bytes := Sql.intText v.toInt64.toInt

/-- What `snprintf` leaves in the `BUFSIZ - 1` bytes `STR` and `str_appendf` give it. -/
def printed (b : Bytes) : Bytes := b.take 8190

/-- `strdup(STR(...))`. -/
def strdup (b : Bytes) : Option CString := some (.ofText (printed b))

/-- `buf_strdup`, and `BUF2STR`. -/
def bufStrdup (b : Bytes) : Option CString := some (.ofText b)

def setInt (n : String) (v : UInt64) (m : Record) : Record :=
  { m with int := Function.update m.int n v }

def setStr (n : String) (v : Option CString) (m : Record) : Record :=
  { m with str := Function.update m.str n v }

@[simp] theorem setInt_int (n n' : String) (v : UInt64) (m : Record) :
    (setInt n v m).int n' = if n' = n then v else m.int n' := Function.update_apply ..

@[simp] theorem setInt_str (n n' : String) (v : UInt64) (m : Record) :
    (setInt n v m).str n' = m.str n' := rfl

@[simp] theorem setStr_int (n n' : String) (v : Option CString) (m : Record) :
    (setStr n v m).int n' = m.int n' := rfl

@[simp] theorem setStr_str (n n' : String) (v : Option CString) (m : Record) :
    (setStr n v m).str n' = if n' = n then v else m.str n' := Function.update_apply ..

theorem setInt_self (n : String) (v : UInt64) (m : Record) : (setInt n v m).int n = v :=
  Function.update_self ..

theorem setStr_self (n : String) (v : Option CString) (m : Record) : (setStr n v m).str n = v :=
  Function.update_self ..

/-- A field that is a flag. -/
def flag : Tl → UInt64
  | .true => 1
  | _ => 0

/-- The bits of a `double`. -/
def double? : Tl → UInt64
  | .double bits => bits
  | _ => 0

/-- How the macro of a field copies it: a flag, an `int` or a text that is not empty, or the id and
the type of a peer. -/
inductive Copy where
  | flag | int | str | per
  deriving DecidableEq

/-- A field of the structure, and the place of the one it is copied from. -/
structure Copied where
  copy : Copy
  n : String
  i : Nat
  deriving DecidableEq

def Copied.run (tl : Tl) (m : Record) (c : Copied) : Record :=
  let f := tl.field c.i
  match c.copy with
  | .flag => setInt c.n (flag f) m
  | .int => setInt c.n f.int?.toUInt64 m
  | .str => if f.bytes? ≠ [] then setStr c.n (bufStrdup f.bytes?) m else m
  | .per =>
    if f.isNull then m
    else m |> setInt c.n (f.field 0).long? |> setInt ("type_" ++ c.n) f.id.toInt32.toInt64.toUInt64

/-- The fields of a structure, after another. -/
def copyAll (args : List Copied) (tl : Tl) (m : Record) : Record := args.foldl (Copied.run tl) m

/-- The field is the same in both. -/
def Agree (n : String) (m m' : Record) : Prop := m.int n = m'.int n ∧ m.str n = m'.str n

/-- None of the fields is this one. -/
def Misses (args : List Copied) (n : String) : Prop := ∀ c ∈ args, n ≠ c.n ∧ n ≠ "type_" ++ c.n

instance (args : List Copied) (n : String) : Decidable (Misses args n) :=
  inferInstanceAs (Decidable (∀ c ∈ args, _))

section
variable {tl : Tl} {m : Record} {c : Copied} {args : List Copied} {n : String}

theorem Copied.run_flag (h : c.copy = .flag) (tl : Tl) (m : Record) :
    (c.run tl m).int c.n = flag (tl.field c.i) := by
  rw [Copied.run, h]
  exact setInt_self ..

theorem Copied.run_int (h : c.copy = .int) (tl : Tl) (m : Record) :
    (c.run tl m).int c.n = (tl.field c.i).int?.toUInt64 := by
  rw [Copied.run, h]
  exact setInt_self ..

theorem Copied.run_str (h : c.copy = .str) (tl : Tl) (m : Record) :
    (c.run tl m).str c.n =
      if (tl.field c.i).bytes? ≠ [] then bufStrdup (tl.field c.i).bytes? else m.str c.n := by
  rw [Copied.run, h]
  dsimp only
  split_ifs
  · exact setStr_self ..
  · rfl

theorem ne_type_append (n : String) : n ≠ "type_" ++ n := by
  intro h
  have hlen := congrArg String.length h
  rw [String.length_append, show "type_".length = 5 from rfl] at hlen
  omega

theorem Copied.run_per (h : c.copy = .per) (hpeer : (tl.field c.i).isNull = false) (m : Record) :
    (c.run tl m).int c.n = ((tl.field c.i).field 0).long? := by
  rw [Copied.run, h]
  dsimp only
  rw [hpeer]
  exact (Function.update_of_ne (ne_type_append c.n) ..).trans (setInt_self ..)

/-- A field is not touched by the copy of another one. -/
theorem Copied.run_of_ne (h : n ≠ c.n) (htype : n ≠ "type_" ++ c.n) (tl : Tl) (m : Record) :
    Agree n (c.run tl m) m := by
  unfold Copied.run
  cases c.copy with
  | flag => exact ⟨Function.update_of_ne h .., rfl⟩
  | int => exact ⟨Function.update_of_ne h .., rfl⟩
  | str =>
    dsimp only
    split_ifs
    · exact ⟨rfl, Function.update_of_ne h ..⟩
    · exact ⟨rfl, rfl⟩
  | per =>
    dsimp only
    split_ifs
    · exact ⟨rfl, rfl⟩
    · exact ⟨(Function.update_of_ne htype ..).trans (Function.update_of_ne h ..), rfl⟩

theorem Agree.trans {m₁ m₂ m₃ : Record} (h : Agree n m₁ m₂) (h' : Agree n m₂ m₃) :
    Agree n m₁ m₃ := ⟨h.1.trans h'.1, h.2.trans h'.2⟩

theorem copyAll_cons : copyAll (c :: args) tl m = copyAll args tl (c.run tl m) := rfl

theorem copyAll_of_misses (h : Misses args n) : Agree n (copyAll args tl m) m := by
  induction args generalizing m with
  | nil => exact ⟨rfl, rfl⟩
  | cons c args ih =>
    obtain ⟨⟨hn, htype⟩, h⟩ := List.forall_mem_cons.mp h
    rw [copyAll_cons]
    exact (ih h).trans (Copied.run_of_ne hn htype tl m)

/-- What is copied into a field stays there if no later copy is one of it. -/
theorem copyAll_of_mem (h : c ∈ args)
    (hlater : args.Pairwise fun c c' => c.n ≠ c'.n ∧ c.n ≠ "type_" ++ c'.n) :
    ∃ m', Agree c.n (copyAll args tl m) (c.run tl m') := by
  induction args generalizing m with
  | nil => cases h
  | cons c' args ih =>
    obtain ⟨hmisses, hlater⟩ := List.pairwise_cons.mp hlater
    rw [copyAll_cons]
    obtain rfl | h := List.mem_cons.mp h
    · exact ⟨m, copyAll_of_misses hmisses⟩
    · exact ih h hlater

end

/-! ## The headers -/

/-- `TG_MESSAGE_FWD_HEADER_ARGS`, in the header of a reply. -/
def fwdHeaderArgs : List Copied :=
  [⟨.flag, "reply_to_.reply_from_.imported_", 1⟩, ⟨.flag, "reply_to_.reply_from_.saved_out_", 2⟩,
    ⟨.per, "reply_to_.reply_from_.from_id_", 3⟩, ⟨.str, "reply_to_.reply_from_.from_name_", 4⟩,
    ⟨.int, "reply_to_.reply_from_.date_", 5⟩, ⟨.int, "reply_to_.reply_from_.channel_post_", 6⟩,
    ⟨.str, "reply_to_.reply_from_.post_author_", 7⟩,
    ⟨.per, "reply_to_.reply_from_.saved_from_peer_", 8⟩,
    ⟨.int, "reply_to_.reply_from_.saved_from_msg_id_", 9⟩,
    ⟨.per, "reply_to_.reply_from_.saved_from_id_", 10⟩,
    ⟨.str, "reply_to_.reply_from_.saved_from_name_", 11⟩,
    ⟨.int, "reply_to_.reply_from_.saved_date_", 12⟩,
    ⟨.str, "reply_to_.reply_from_.psa_type_", 13⟩]

/-- `TG_MESSAGE_REPLY_HEADER_ARGS`, but for `reply_from_`. -/
def replyHeaderArgs : List Copied :=
  [⟨.flag, "reply_to_.reply_to_scheduled_", 1⟩, ⟨.flag, "reply_to_.forum_topic_", 2⟩,
    ⟨.flag, "reply_to_.quote_", 3⟩, ⟨.int, "reply_to_.reply_to_msg_id_", 4⟩,
    ⟨.per, "reply_to_.reply_to_peer_id_", 5⟩, ⟨.int, "reply_to_.reply_to_top_id_", 8⟩,
    ⟨.str, "reply_to_.quote_text_", 9⟩, ⟨.int, "reply_to_.quote_offset_", 11⟩]

/-- `tg_message_fwd`. -/
def tgMessageFwd (tlh : Tl) (m : Record) : Record := copyAll fwdHeaderArgs tlh m

/-- `tg_message_reply`. -/
def tgMessageReply (tlh : Tl) (m : Record) : Record :=
  let m := copyAll replyHeaderArgs tlh m
  if (tlh.field 6).id = idMessageFwdHeader then tgMessageFwd (tlh.field 6) m else m

/-- `TG_MESSAGE_RPL`, and its like for a service message. -/
def messageReply (replyTo : Tl) (m : Record) : Record :=
  if replyTo.id = idMessageReplyHeader then tgMessageReply replyTo m else m

/-- The header of a reply has fields of its own. -/
theorem messageReply_agree {n : String} (h : Misses replyHeaderArgs n)
    (hfwd : Misses fwdHeaderArgs n) (replyTo : Tl) (m : Record) :
    Agree n (messageReply replyTo m) m := by
  unfold messageReply tgMessageReply
  split_ifs
  · exact (copyAll_of_misses hfwd).trans (copyAll_of_misses h)
  · exact copyAll_of_misses h
  · exact ⟨rfl, rfl⟩

/-! ## The media -/

section
variable (T : Texts)

/-- The elements of a vector; a loop that finds no array does nothing. -/
def elements (argv : Tl) : List Tl := argv.elements.getD []

/-- `video_sizes`. -/
def videoSizes (argv : Tl) (m : Record) : Record :=
  let sizes := (elements argv).flatMap fun vs =>
    if vs.id = idVideoSize then
      printed (cText (vs.field 1).bytes? ++ Sql.bytes "=" ++ dText (vs.field 2).int? ++
        Sql.bytes "x" ++ dText (vs.field 3).int? ++ Sql.bytes "=" ++ dText (vs.field 4).int? ++
        Sql.bytes "=" ++ T.lf (double? (vs.field 5)) ++ Sql.bytes " ")
    else []
  setStr "video_sizes" (some (.ofText sizes)) m

/-- A round of the loop of `photo_sizes`, but for the text that is printed. -/
def photoSize (m : Record) (ps : Tl) : Record :=
  if ps.id = idPhotoCachedSize then
    setStr "photo_cached_size"
      (some (.ofText (dText (ps.field 1).int? ++ Sql.bytes "x" ++ dText (ps.field 2).int?))) m
  else if ps.id = idPhotoStrippedSize then setStr "photo_stripped" (T.image (ps.field 1).bytes?) m
  else if ps.id = idPhotoPathSize then
    setStr "photo_svg" (some (.ofText (imageFromSvgPath (ps.field 1).bytes?))) m
  else m

/-- `photo_sizes`. -/
def photoSizes (argv : Tl) (m : Record) : Record :=
  let sizes := (elements argv).flatMap fun ps =>
    if ps.id = idPhotoSize then
      printed (cText (ps.field 0).bytes? ++ Sql.bytes "=" ++ dText (ps.field 1).int? ++
        Sql.bytes "x" ++ dText (ps.field 2).int? ++ Sql.bytes " ")
    else []
  (elements argv).foldl (photoSize T) m |> setStr "photo_sizes" (some (.ofText sizes))

/-- A round of the loop over the attributes of a document. -/
def documentAttribute (m : Record) (a : Tl) : Record :=
  if a.id = idDocumentAttributeImageSize then
    m |> setInt "doc_w" (a.field 0).int?.toUInt64 |> setInt "doc_h" (a.field 1).int?.toUInt64
  else if a.id = idDocumentAttributeVideo then
    m |> setInt "doc_vw" (a.field 5).int?.toUInt64 |> setInt "doc_vh" (a.field 6).int?.toUInt64
      |> setInt "doc_vduration" (T.truncate (double? (a.field 4))) |> setInt "doc_isVideo" 1
  else if a.id = idDocumentAttributeAudio then
    m |> setStr "doc_title" (bufStrdup (a.field 3).bytes?)
      |> setInt "doc_aduration" (a.field 2).int?.toUInt64
  else if a.id = idDocumentAttributeFilename then
    setStr "doc_file_name" (bufStrdup (a.field 0).bytes?) m
  else if a.id = idDocumentAttributeSticker then
    m |> setStr "message_" (bufStrdup (a.field 2).bytes?) |> setInt "is_sticker" 1
  else m

/-- The cases of the `switch` over the media. -/
def mediaPhoto (photo : Tl) (m : Record) : Record :=
  m |> setInt "photo_access_hash" (photo.field 3).long? |> setInt "photo_id" (photo.field 2).long?
    |> setInt "photo_dc_id" (photo.field 8).int?.toUInt64
    |> setInt "photo_date" (photo.field 5).int?.toUInt64
    |> setStr "photo_file_reference" (T.base64 (photo.field 4).bytes?)
    |> photoSizes T (photo.field 6)

def mediaGeo (geo : Tl) (m : Record) : Record :=
  m |> setInt "geo_long" (double? (geo.field 1)) |> setInt "geo_lat" (double? (geo.field 2))
    |> setInt "geo_access_hash" (geo.field 3).long?
    |> setInt "geo_accuracy_radius" (geo.field 4).int?.toUInt64

/-- `doc_isVoice` is set twice, and in the end to `voice_`. -/
def mediaDocument (mmp doc : Tl) (m : Record) : Record :=
  let m := m |> setInt "doc_isVoice" (flag (mmp.field 3))
    |> setInt "doc_isRound" (flag (mmp.field 4))
    |> setInt "doc_isVoice" (flag (mmp.field 5)) |> setInt "doc_id" (doc.field 1).long?
    |> setInt "doc_access_hash" (doc.field 2).long?
    |> setStr "doc_file_reference" (T.base64 (doc.field 3).bytes?)
    |> setInt "doc_date" (doc.field 4).int?.toUInt64 |> setInt "doc_size" (doc.field 6).long?
    |> setInt "doc_dc_id" (doc.field 9).int?.toUInt64 |> photoSizes T (doc.field 7)
    |> videoSizes T (doc.field 8)
  (elements (doc.field 10)).foldl (documentAttribute T) m

def webPhoto (photo : Tl) (m : Record) : Record :=
  m |> setInt "web_photo_id" (photo.field 2).long?
    |> setInt "web_photo_access_hash" (photo.field 3).long?
    |> setInt "web_photo_dc_id" (photo.field 8).int?.toUInt64
    |> setInt "web_photo_date" (photo.field 5).int?.toUInt64
    |> setStr "web_photo_file_reference" (T.base64 (photo.field 4).bytes?)

def mediaWebPage (web : Tl) (m : Record) : Record :=
  let m := m |> setInt "web_id" (web.field 2).long?
    |> setStr "web_url" (bufStrdup (web.field 3).bytes?)
    |> setStr "web_display_url" (bufStrdup (web.field 4).bytes?)
    |> setInt "web_hash" (web.field 5).int?.toUInt64
    |> setStr "web_type" (bufStrdup (web.field 6).bytes?)
    |> setStr "web_site_name" (bufStrdup (web.field 7).bytes?)
    |> setStr "web_title" (bufStrdup (web.field 8).bytes?)
    |> setStr "web_description" (bufStrdup (web.field 9).bytes?)
  if (web.field 10).id = idPhoto then webPhoto T (web.field 10) m else m

def mediaContact (mmp : Tl) (m : Record) : Record :=
  m |> setStr "contact_phone_number" (bufStrdup (mmp.field 0).bytes?)
    |> setStr "contact_first_name" (bufStrdup (mmp.field 1).bytes?)
    |> setStr "contact_last_name" (bufStrdup (mmp.field 2).bytes?)
    |> setStr "contact_vcard" (bufStrdup (mmp.field 3).bytes?)
    |> setInt "contact_user_id" (mmp.field 4).long?

/-- The media of a message. -/
def messageMedia (media : Tl) (m : Record) : Record :=
  if media.isNull then m
  else
    let m := setInt "media_type" media.id.toUInt64 m
    if media.id = idMessageMediaPhoto then
      if (media.field 2).id = idPhoto then mediaPhoto T (media.field 2) m else m
    else if media.id = idMessageMediaGeo then
      if (media.field 0).id = idGeoPoint then mediaGeo (media.field 0) m else m
    else if media.id = idMessageMediaDocument then
      if (media.field 6).id = idDocument then mediaDocument T media (media.field 6) m else m
    else if media.id = idMessageMediaWebPage then
      if (media.field 5).id = idWebPage then mediaWebPage T (media.field 5) m else m
    else if media.id = idMessageMediaContact then mediaContact media m
    else m

/-! ## The messages -/

/-- `TG_MESSAGE_ARGS`, as far as `tg_message_from_tl` copies them: `ttl_period_` is none of them. -/
def messageArgs : List Copied :=
  [⟨.flag, "out_", 1⟩, ⟨.flag, "mentioned_", 2⟩, ⟨.flag, "media_unread_", 3⟩, ⟨.flag, "silent_", 4⟩,
    ⟨.flag, "post_", 5⟩, ⟨.flag, "from_scheduled_", 6⟩, ⟨.flag, "legacy_", 7⟩,
    ⟨.flag, "edit_hide_", 8⟩, ⟨.flag, "pinned_", 9⟩, ⟨.flag, "noforwards_", 10⟩,
    ⟨.flag, "invert_media_", 11⟩, ⟨.flag, "offline_", 13⟩, ⟨.int, "id_", 14⟩,
    ⟨.per, "from_id_", 15⟩, ⟨.int, "from_boosts_applied_", 16⟩, ⟨.per, "peer_id_", 17⟩,
    ⟨.per, "saved_peer_id_", 18⟩, ⟨.int, "date_", 23⟩, ⟨.str, "message_", 24⟩]

/-- `tg_message_from_tl`. -/
def tgMessageFromTl (tlm : Tl) : Record :=
  zero |> copyAll messageArgs tlm |> messageReply (tlm.field 22) |> messageMedia T (tlm.field 25)

/-- What `tg_message_from_tl_service` copies. -/
def serviceArgs : List Copied :=
  [⟨.flag, "out_", 1⟩, ⟨.flag, "mentioned_", 2⟩, ⟨.flag, "media_unread_", 3⟩, ⟨.flag, "silent_", 4⟩,
    ⟨.flag, "post_", 5⟩, ⟨.flag, "legacy_", 6⟩, ⟨.int, "id_", 7⟩, ⟨.per, "from_id_", 8⟩,
    ⟨.per, "peer_id_", 9⟩, ⟨.int, "date_", 11⟩]

/-- `strdup` of a text with something in the middle. -/
def about (before text after : Bytes) : Option CString := strdup (before ++ text ++ after)

/-- The text of a call that ended, by its reason. A reason that is not there is a fault before. -/
def phoneCallText (p : Tl) : Option CString :=
  let video := flag (p.field 1) = 1
  let reason := p.field 3
  if reason.id = idPhoneCallDiscardReasonMissed then
    strdup (Sql.bytes (if video then "missed video call" else "missed phone call"))
  else if reason.id = idPhoneCallDiscardReasonDisconnect then
    strdup (Sql.bytes (if video then "video call disconnected" else "phone call disconnected"))
  else if reason.id = idPhoneCallDiscardReasonHangup then
    strdup (Sql.bytes (if video then "video call hanged up" else "phone call hanged up"))
  else if reason.id = idPhoneCallDiscardReasonBusy then
    strdup (Sql.bytes (if video then "video call busy" else "phone call busy"))
  else none

/-- The users of a `messageActionChatAddUser` whose number is that of the constructor `user`: the
loop stops at any other. -/
def addedUsers (users : Tl) : Bytes :=
  let ids := ((elements users).map Tl.long?).takeWhile fun n => n = idUser.toUInt64
  ids.flatMap fun n => printed (ldText n ++ Sql.bytes " ")

/-- `message_` of a service message, but for a call. -/
def actionText (p : Tl) : Option CString :=
  if p.id = idMessageActionEmpty then strdup (Sql.bytes "empty")
  else if p.id = idMessageActionChatCreate then
    about (Sql.bytes "chat create: \"") (cText (p.field 0).bytes?) (Sql.bytes "\"")
  else if p.id = idMessageActionChatEditTitle then
    about (Sql.bytes "chat edit title: \"") (cText (p.field 0).bytes?) (Sql.bytes "\"")
  else if p.id = idMessageActionChatEditPhoto then strdup (Sql.bytes "chat edit photo")
  else if p.id = idMessageActionChatDeletePhoto then strdup (Sql.bytes "chat delete photo")
  else if p.id = idMessageActionChatAddUser then
    some (.ofText (Sql.bytes "chat add users: " ++ addedUsers (p.field 0)))
  else if p.id = idMessageActionChatDeleteUser then
    about (Sql.bytes "chat delete user: ") (ldText (p.field 0).long?) []
  else if p.id = idMessageActionChatJoinedByLink then
    about (Sql.bytes "chat joined by link: ") (ldText (p.field 0).long?) []
  else if p.id = idMessageActionChannelCreate then
    about (Sql.bytes "channel create: \"") (cText (p.field 0).bytes?) (Sql.bytes "\"")
  else if p.id = idMessageActionChatMigrateTo then
    about (Sql.bytes "chat migrate to: ") (ldText (p.field 0).long?) []
  else if p.id = idMessageActionChannelMigrateFrom then
    about (Sql.bytes "chat migrate from: ") (ldText (p.field 1).long?) []
  else if p.id = idMessageActionCustomAction then bufStrdup (p.field 0).bytes?
  else some (T.name p.id)

/-- The `switch` over the action. -/
def serviceAction (p : Tl) (m : Record) : Record :=
  if p.id = idMessageActionPhoneCall then
    m |> setInt "phone_call_video" (flag (p.field 1)) |> setInt "phone_call_id" (p.field 2).long?
      |> setInt "phone_call_duration" (p.field 4).int?.toUInt64
      |> setInt "phone_call_reason" (p.field 3).id.toUInt64 |> setStr "message_" (phoneCallText p)
  else setStr "message_" (actionText T p) m

/-- `tg_message_from_tl_service`. -/
def tgMessageFromTlService (tlm : Tl) : Record :=
  zero |> setInt "is_service" 1 |> copyAll serviceArgs tlm |> messageReply (tlm.field 10)
    |> serviceAction T (tlm.field 12) |> setInt "ttl_period_" (tlm.field 13).int?.toUInt64

/-- `tg_message_from_tl_unknown`: `none` is a structure that is left as it was. -/
def tgMessageFromTlUnknown (tlm : Tl) : Option Record :=
  if tlm.id = idMessage then some (tgMessageFromTl T tlm)
  else if tlm.id = idMessageService then some (tgMessageFromTlService T tlm)
  else none

end

end Libtg.FromTl
