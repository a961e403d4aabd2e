import Libtg.Lib.Handed
import Libtg.Tg.FromTl

/-!
# Dialogs from a reply (`tg/dialogs.c`)

`tg_dialogs_from_tl` looks for the name of a dialog first among the users and then among the chats
of the reply, by the bare number of its peer. Left out are `tg_users_save` and `tg_chats_save`,
which test every pointer, what is saved of a dialog, the hash, and the messages of the log but for
the last.
-/

namespace Libtg.FromTl

open Database Consumer

def idDialog : UInt32 := 0xd58a08c6
def idDialogFolder : UInt32 := 0x71bd134c
def idDialogs : UInt32 := 0x15ba6c40
def idDialogsSlice : UInt32 := 0x71e094f3
def idUserProfilePhoto : UInt32 := 0x82d1f706
def idChat : UInt32 := 0x41cbf256
def idChannel : UInt32 := 0x0aadfc8f
def idChatPhoto : UInt32 := 0x1c6e1c11
def idPeerChannel : UInt32 := 0xa2a5371e

/-- What the loop takes from its variable `dialog`, a `tl_dialog_t`. -/
structure TlDialog where
  pinned_ : UInt64
  unread_mark_ : UInt64
  top_message_ : UInt32
  read_inbox_max_id_ : UInt32
  read_outbox_max_id_ : UInt32
  unread_count_ : UInt32
  unread_mentions_count_ : UInt32
  unread_reactions_count_ : UInt32
  folder_id_ : UInt32

/-- A variable that is zero. -/
def TlDialog.zero : TlDialog := ⟨0, 0, 0, 0, 0, 0, 0, 0, 0⟩

/-- `dialog = *(tl_dialog_t *)md.dialogs_[i]`. -/
def ofDialog (tl : Tl) : TlDialog where
  pinned_ := flag (tl.field 1)
  unread_mark_ := flag (tl.field 2)
  top_message_ := (tl.field 5).int?
  read_inbox_max_id_ := (tl.field 6).int?
  read_outbox_max_id_ := (tl.field 7).int?
  unread_count_ := (tl.field 8).int?
  unread_mentions_count_ := (tl.field 9).int?
  unread_reactions_count_ := (tl.field 10).int?
  folder_id_ := (tl.field 14).int?

/-- What is assigned for a `dialogFolder`. The rest stays what it was. -/
def ofDialogFolder (dialog : TlDialog) (df : Tl) : TlDialog :=
  { dialog with
    top_message_ := (df.field 4).int?
    pinned_ := flag (df.field 1)
    unread_count_ := (df.field 7).int?
    folder_id_ := ((df.field 2).field 4).int? }

/-- The part of the loop before its searches, after `d` has been cleared. -/
def ofTlDialog (dialog : TlDialog) (peer pns : Tl) : Record :=
  let d := zero |> setInt "top_message_id" dialog.top_message_.toUInt64
    |> setInt "pinned" dialog.pinned_ |> setInt "unread_mark" dialog.unread_mark_
    |> setInt "read_inbox_max_id" dialog.read_inbox_max_id_.toUInt64
    |> setInt "read_outbox_max_id" dialog.read_outbox_max_id_.toUInt64
    |> setInt "unread_count" dialog.unread_count_.toUInt64
    |> setInt "unread_mentions_count" dialog.unread_mentions_count_.toUInt64
    |> setInt "unread_reactions_count" dialog.unread_reactions_count_.toUInt64
    |> setInt "folder_id" dialog.folder_id_.toUInt64
  let d := if peer.isNull then d else setInt "peer_id" (peer.field 0).long? d
  if pns.isNull then d
  else d |> setInt "silent" (flag (pns.field 2)) |> setInt "mute_until" (pns.field 3).int?.toUInt64

section
variable (T : Texts)

/-- A round of the loop over the users. -/
def takeUser (d : Record) (user : Tl) : Record :=
  if user.id = idUser ∧ d.int "peer_id" = (user.field 27).long? then
    let d := d |> setInt "access_hash" (user.field 28).long?
      |> setInt "peer_type" idPeerUser.toUInt64
      |> setStr "name"
        (bufStrdup (if (user.field 31).bytes? ≠ [] then user.field 31 else user.field 29).bytes?)
    let photo := user.field 33
    if photo.id = idUserProfilePhoto then
      d |> setInt "photo_id" (photo.field 3).long?
        |> setStr "thumb" (T.image (photo.field 4).bytes?)
    else d
  else d

/-- The photo of a channel or a chat. -/
def takeChatPhoto (photo : Tl) (d : Record) : Record :=
  if photo.id = idChatPhoto then
    d |> setInt "photo_id" (photo.field 2).long? |> setStr "thumb" (T.image (photo.field 3).bytes?)
  else d

/-- A round of the loop over the chats. -/
def takeChat (d : Record) (chat : Tl) : Record :=
  if chat.id = idChannel then
    if d.int "peer_id" = (chat.field 25).long? then
      d |> setInt "access_hash" (chat.field 26).long?
        |> setInt "peer_type" idPeerChannel.toUInt64
        |> setStr "name" (bufStrdup (chat.field 27).bytes?)
        |> setInt "broadcast" (flag (chat.field 3)) |> takeChatPhoto T (chat.field 29)
    else d
  else if chat.id = idChat then
    if d.int "peer_id" = (chat.field 7).long? then
      d |> setInt "peer_type" idPeerChat.toUInt64
        |> setStr "name" (bufStrdup (chat.field 8).bytes?) |> takeChatPhoto T (chat.field 9)
    else d
  else d

/-- The text that stands for a message, if any. -/
def topMessageText (message : Tl) : Option CString :=
  let tgm := tgMessageFromTl T message
  if (message.field 24).bytes? ≠ [] then bufStrdup (message.field 24).bytes?
  else if tgm.int "doc_isVideo" ≠ 0 then strdup (Sql.bytes "*video*")
  else if tgm.int "doc_isRound" ≠ 0 then strdup (Sql.bytes "*round*")
  else if tgm.int "doc_isVoice" ≠ 0 then strdup (Sql.bytes "*voice message*")
  else if (tgm.str "doc_title").isSome then tgm.str "doc_title"
  else if tgm.int "doc_id" ≠ 0 then strdup (Sql.bytes "*document*")
  else if tgm.int "media_type" = idMessageMediaDocument.toUInt64 then
    strdup (Sql.bytes "*document*")
  else if tgm.int "media_type" = idMessageMediaContact.toUInt64 then
    strdup (Sql.bytes "*contact*")
  else if tgm.int "media_type" = idMessageMediaPhoto.toUInt64 then strdup (Sql.bytes "*photo*")
  else if tgm.int "media_type" = idMessageMediaGeo.toUInt64 then strdup (Sql.bytes "*geopoint*")
  else none

/-- Who a message is from. -/
def takeFrom (sender : Tl) (d : Record) : Record :=
  if sender.isNull then d
  else if sender.id ∈ [idPeerUser, idPeerChannel, idPeerChat] then
    d |> setInt "top_message_from_peer_type" sender.id.toUInt64
      |> setInt "top_message_from_peer_id" (sender.field 0).long?
  else setInt "top_message_from_peer_type" 0 d

/-- What a message tells about the dialog whose top message it is. -/
def takeTopMessage (message : Tl) (d : Record) : Record :=
  let d := setInt "top_message_date" (message.field 23).int?.toUInt64 d
  let d := if (topMessageText T message).isSome then
    setStr "top_message_text" (topMessageText T message) d else d
  takeFrom (message.field 15) d

/-- A round of the loop over the messages. -/
def takeMessage (d : Record) (message : Tl) : Except Fault Record :=
  if message.id = idMessage ∧ (message.field 14).int?.toUInt64 = d.int "top_message_id" then do
    Libtg.tgMessageFromTl message
    return takeTopMessage T message d
  else .ok d

end

/-! ## The loop -/

/-- What is taken from the reply: the arrays. -/
structure Dialogs where
  dialogs : Tl
  messages : Tl
  chats : Tl
  users : Tl

/-- The array is read at each index. -/
def array (argv : Tl) : Except Fault (List Tl) :=
  match argv.elements with
  | none => .error .absent
  | some xs => .ok xs

/-- `peer` of an entry. -/
def peerOf (entry : Tl) : Tl :=
  if entry.id = idDialogFolder then entry.field 3 else entry.field 4

section
variable (T : Texts) (onLog : Bool) (md : Dialogs)

/-- The round after the searches. A dialog of which nothing has been found is only reported, with
its peer. -/
def completeDialog (peer : Tl) (d : Record) : Except Fault (Option Record) :=
  if d.int "peer_type" = 0 then do
    logName onLog peer
    return none
  else do
    let messages ← array md.messages
    return some (← messages.foldlM (takeMessage T) d)

/-- The searches among the users and the chats. -/
def findDialog (peer : Tl) (d : Record) : Except Fault (Option Record) := do
  let users ← array md.users
  let chats ← array md.chats
  completeDialog T onLog md peer (chats.foldl (takeChat T) (users.foldl (takeUser T) d))

/-- A round of the loop up to the callback, with what is in `dialog` when it begins. -/
def dialogOf (dialog : TlDialog) (entry : Tl) : Except Fault (Option Record) :=
  if entry.isNull then .ok none
  else if entry.id = idDialogFolder then do
    deref (entry.field 2)
    findDialog T onLog md (peerOf entry)
      (ofTlDialog (ofDialogFolder dialog entry) (peerOf entry) .null)
  else if entry.id = idDialog then
    findDialog T onLog md (peerOf entry)
      (ofTlDialog (ofDialog entry) (peerOf entry) (entry.field 11))
  else .ok none

/-- A dialog as the callback receives it, with the entry it was made from. -/
abbrev Made := Tl × Record

/-- What the callback answers to a dialog, by the dialogs it has received with it. -/
def stopsAt (callback : List Record → Int) (log : List Made) : Bool :=
  callback (log.map Prod.snd) ≠ 0

/-- The loop from `i` on, where `n` dialogs have been counted. -/
def dialogsLoop (stack : Nat → TlDialog) (callback : Option (List Record → Int)) (i n : Nat)
    (log : List Made) : List Tl → List Made × Except Fault Nat
  | [] => (log, .ok n)
  | entry :: entries =>
    match dialogOf T onLog md (stack i) entry with
    | .error fault => (log, .error fault)
    | .ok none => dialogsLoop stack callback (i + 1) n log entries
    | .ok (some d) =>
      match callback with
      | none => dialogsLoop stack callback (i + 1) (n + 1) log entries
      | some f =>
        let log := log ++ [(entry, d)]
        if stopsAt f log then (log, .ok n)
        else dialogsLoop stack callback (i + 1) (n + 1) log entries

end

/-- `md` of a reply. -/
def dialogsOf (tl : Tl) : Option Dialogs :=
  if tl.id = idDialogsSlice then some ⟨tl.field 1, tl.field 2, tl.field 3, tl.field 4⟩
  else if tl.id = idDialogs then some ⟨tl.field 0, tl.field 1, tl.field 2, tl.field 3⟩
  else none

/-- `tg_dialogs_from_tl`: what the callback receives, and what is returned. `stack` is what the
variable `dialog` of each round of the loop finds on the stack. -/
def tgDialogsFromTl (T : Texts) (onLog : Bool) (stack : Nat → TlDialog)
    (callback : Option (List Record → Int)) (tl : Tl) : List Made × Except Fault Nat :=
  match dialogsOf tl with
  | none => ([], .ok 0)
  | some md =>
    match md.dialogs.elements with
    | none => ([], .ok 0)
    | some entries => dialogsLoop T onLog md stack callback 0 0 [] entries

/-! ## What is handed over -/

theorem exists_of_bind_eq_ok {α β : Type} {x : Except Fault α} {f : α → Except Fault β} {b : β}
    (h : x >>= f = .ok b) : ∃ a, x = .ok a ∧ f a = .ok b := by
  cases x with
  | error fault => cases h
  | ok a => exact ⟨a, rfl, h⟩

section
variable {T : Texts} {onLog : Bool} {md : Dialogs} {peer entry : Tl} {d r : Record}
  {dialog : TlDialog}

theorem elements_of_array {argv : Tl} {xs : List Tl} (h : array argv = .ok xs) :
    argv.elements = some xs := by
  unfold array at h
  split at h
  · cases h
  · cases h
    assumption

/-- A dialog is made from what the searches find. -/
theorem findDialog_eq_some (h : findDialog T onLog md peer d = .ok (some r)) :
    ∃ users chats, md.users.elements = some users ∧ md.chats.elements = some chats ∧
      (chats.foldl (takeChat T) (users.foldl (takeUser T) d)).int "peer_type" ≠ 0 ∧
      ∃ messages : List Tl,
        messages.foldlM (takeMessage T) (chats.foldl (takeChat T) (users.foldl (takeUser T) d)) =
          .ok r := by
  obtain ⟨users, husers, h⟩ := exists_of_bind_eq_ok h
  obtain ⟨chats, hchats, h⟩ := exists_of_bind_eq_ok h
  refine ⟨users, chats, elements_of_array husers, elements_of_array hchats, ?_⟩
  unfold completeDialog at h
  split_ifs at h with htype
  · obtain ⟨_, _, h⟩ := exists_of_bind_eq_ok h
    cases h
  · obtain ⟨messages, -, h⟩ := exists_of_bind_eq_ok h
    obtain ⟨r', hr, h⟩ := exists_of_bind_eq_ok h
    cases h
    exact ⟨htype, messages, hr⟩

/-- A dialog that is handed over was found from a structure with the number of its peer. -/
theorem dialogOf_eq_some (h : dialogOf T onLog md dialog entry = .ok (some r)) :
    ∃ filled pns, findDialog T onLog md (peerOf entry) (ofTlDialog filled (peerOf entry) pns) =
      .ok (some r) := by
  unfold dialogOf at h
  split_ifs at h
  · cases h
  · obtain ⟨_, -, h⟩ := exists_of_bind_eq_ok h
    exact ⟨_, _, h⟩
  · exact ⟨_, _, h⟩
  · cases h

/-- Every dialog that the callback receives is made in a round of the loop. -/
theorem mem_dialogsLoop {stack : Nat → TlDialog} {callback : Option (List Record → Int)}
    {i n : Nat} {log : List Made} {entries : List Tl} {p : Made}
    (h : p ∈ (dialogsLoop T onLog md stack callback i n log entries).1) :
    p ∈ log ∨ ∃ j, dialogOf T onLog md (stack j) p.1 = .ok (some p.2) := by
  induction entries generalizing i n log with
  | nil => exact .inl h
  | cons entry entries ih =>
    unfold dialogsLoop at h
    split at h
    · exact .inl h
    · exact ih h
    · rename_i d hd
      split at h
      · exact ih h
      · have hlog : ∀ {q}, q ∈ log ++ [(entry, d)] → q ∈ log ∨
            ∃ j, dialogOf T onLog md (stack j) q.1 = .ok (some q.2) := by
          intro q hq
          obtain hq | hq := List.mem_append.mp hq
          · exact .inl hq
          · rw [List.mem_singleton.mp hq]
            exact .inr ⟨i, hd⟩
        dsimp only at h
        split_ifs at h
        · exact hlog h
        · exact (ih h).elim hlog .inr

end

end Libtg.FromTl
