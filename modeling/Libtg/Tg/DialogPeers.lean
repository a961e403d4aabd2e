import Libtg.Lib.LastOf
import Libtg.Tg.Dialogs

/-!
# The peer of a dialog

The rounds of the two searches are those of one search over entities, which takes every entity with
the bare number of the peer. What a dialog has in the end is from the last of them, and what that
one does not have is from one before (`found_of_matches`).
-/

namespace Libtg.FromTl

open Database Consumer LastOf

/-! ## Entities -/

/-- What a user, a channel or a chat tells about its dialog. -/
structure Entity where
  type : UInt32
  id : UInt64
  name : Option CString
  accessHash : Option UInt64
  broadcast : Option UInt64
  photo : Option (UInt64 × Option CString)

/-- `f` of the value, if there is one. -/
def setBy {β : Type} (f : β → Record → Record) (v : Option β) (d : Record) : Record :=
  v.elim d (f · d)

/-- The dialog becomes that of the entity. -/
def Entity.take (e : Entity) (d : Record) : Record :=
  d |> setBy (setInt "access_hash") e.accessHash |> setInt "peer_type" e.type.toUInt64
    |> setStr "name" e.name |> setBy (setInt "broadcast") e.broadcast
    |> setBy (fun p d => d |> setInt "photo_id" p.1 |> setStr "thumb" p.2) e.photo

/-- A round of the search. -/
def Entity.visit (d : Record) (e : Entity) : Record :=
  if d.int "peer_id" = e.id then e.take d else d

section
variable (T : Texts)

def userPhoto (photo : Tl) : Option (UInt64 × Option CString) :=
  if photo.id = idUserProfilePhoto then
    some ((photo.field 3).long?, T.image (photo.field 4).bytes?)
  else none

def chatPhoto (photo : Tl) : Option (UInt64 × Option CString) :=
  if photo.id = idChatPhoto then some ((photo.field 2).long?, T.image (photo.field 3).bytes?)
  else none

def userEntity (user : Tl) : Option Entity :=
  if user.id = idUser then
    some ⟨idPeerUser, (user.field 27).long?,
      bufStrdup (if (user.field 31).bytes? ≠ [] then user.field 31 else user.field 29).bytes?,
      some (user.field 28).long?, none, userPhoto T (user.field 33)⟩
  else none

def chatEntity (chat : Tl) : Option Entity :=
  if chat.id = idChannel then
    some ⟨idPeerChannel, (chat.field 25).long?, bufStrdup (chat.field 27).bytes?,
      some (chat.field 26).long?, some (flag (chat.field 3)), chatPhoto T (chat.field 29)⟩
  else if chat.id = idChat then
    some ⟨idPeerChat, (chat.field 7).long?, bufStrdup (chat.field 8).bytes?, none, none,
      chatPhoto T (chat.field 9)⟩
  else none

/-- The entities of a reply, in the order in which they are visited. -/
def entities (md : Dialogs) : List Entity :=
  (elements md.users).filterMap (userEntity T) ++ (elements md.chats).filterMap (chatEntity T)

end

section
variable {T : Texts} {d : Record}

theorem takeUser_eq (user : Tl) :
    takeUser T d user = (userEntity T user).elim d (Entity.visit d) := by
  unfold takeUser userEntity
  by_cases hid : user.id = idUser
  · rw [if_pos hid, Option.elim_some, Entity.visit]
    by_cases hpeer : d.int "peer_id" = (user.field 27).long?
    · rw [if_pos ⟨hid, hpeer⟩, if_pos hpeer, Entity.take]
      by_cases hphoto : (user.field 33).id = idUserProfilePhoto
      · rw [if_pos hphoto, userPhoto, if_pos hphoto]
        rfl
      · rw [if_neg hphoto, userPhoto, if_neg hphoto]
        rfl
    · rw [if_neg fun h => hpeer h.2, if_neg hpeer]
  · rw [if_neg (fun h => hid h.1), if_neg hid]
    rfl

theorem takeChatPhoto_eq (photo : Tl) :
    takeChatPhoto T photo d =
      setBy (fun p d => d |> setInt "photo_id" p.1 |> setStr "thumb" p.2) (chatPhoto T photo)
        d := by
  unfold takeChatPhoto chatPhoto
  split_ifs <;> rfl

theorem takeChat_eq (chat : Tl) :
    takeChat T d chat = (chatEntity T chat).elim d (Entity.visit d) := by
  unfold takeChat chatEntity
  split_ifs with hchannel hpeer hchat hpeer
  · rw [Option.elim_some, Entity.visit, if_pos hpeer, takeChatPhoto_eq]
    rfl
  · exact (if_neg hpeer).symm
  · rw [Option.elim_some, Entity.visit, if_pos hpeer, takeChatPhoto_eq]
    rfl
  · exact (if_neg hpeer).symm
  · rfl

/-- The two searches are one. -/
theorem foldl_takeUser (users : List Tl) :
    users.foldl (takeUser T) d = (users.filterMap (userEntity T)).foldl Entity.visit d := by
  rw [List.foldl_filterMap]
  congr 1
  funext d user
  rw [takeUser_eq]
  cases userEntity T user <;> rfl

theorem foldl_takeChat (chats : List Tl) :
    chats.foldl (takeChat T) d = (chats.filterMap (chatEntity T)).foldl Entity.visit d := by
  rw [List.foldl_filterMap]
  congr 1
  funext d chat
  rw [takeChat_eq]
  cases chatEntity T chat <;> rfl

end

/-! ## What is found -/

/-- The photo of a dialog. -/
def dialogPhoto (d : Record) : UInt64 × Option CString := (d.int "photo_id", d.str "thumb")

section
variable {T : Texts} {onLog : Bool} {md : Dialogs} {peer : Tl} {d r : Record}

theorem Entity.take_fields (e : Entity) (d : Record) :
    (e.take d).int "peer_type" = e.type.toUInt64 ∧ (e.take d).int "peer_id" = d.int "peer_id" ∧
      (e.take d).str "name" = e.name ∧
      (e.take d).int "access_hash" = e.accessHash.getD (d.int "access_hash") ∧
      dialogPhoto (e.take d) = e.photo.getD (dialogPhoto d) := by
  obtain ⟨type, id, name, accessHash, broadcast, p⟩ := e
  cases accessHash <;> cases broadcast <;> cases p <;> simp [Entity.take, setBy, dialogPhoto]

/-- Only the entities with the number of the peer count. -/
theorem foldl_visit (es : List Entity) (d : Record) :
    es.foldl Entity.visit d =
      (es.filter fun e => d.int "peer_id" = e.id).foldl (fun d e => e.take d) d := by
  induction es generalizing d with
  | nil => rfl
  | cons e es ih =>
    rw [List.foldl_cons, Entity.visit]
    split_ifs with hpeer
    · rw [List.filter_cons, if_pos (decide_eq_true hpeer), List.foldl_cons, ih,
        (e.take_fields d).2.1]
    · rw [List.filter_cons, if_neg (fun h => hpeer (of_decide_eq_true h)), ih]

theorem foldl_take_id (es : List Entity) (d : Record) :
    (es.foldl (fun d e => e.take d) d).int "peer_id" = d.int "peer_id" := by
  induction es generalizing d with
  | nil => rfl
  | cons e es ih => rw [List.foldl_cons, ih, (e.take_fields d).2.1]

theorem foldl_take_type (es : List Entity) (d : Record) :
    (es.foldl (fun d e => e.take d) d).int "peer_type" =
      (lastOf (fun e => some e.type.toUInt64) es).getD (d.int "peer_type") := by
  refine foldl_eq_lastOf (fun d : Record => d.int "peer_type") (fun d e => ?_) es d
  exact (e.take_fields d).1

theorem foldl_take_name (es : List Entity) (d : Record) :
    (es.foldl (fun d e => e.take d) d).str "name" =
      (lastOf (fun e => some e.name) es).getD (d.str "name") := by
  refine foldl_eq_lastOf (fun d : Record => d.str "name") (fun d e => ?_) es d
  exact (e.take_fields d).2.2.1

theorem foldl_take_accessHash (es : List Entity) (d : Record) :
    (es.foldl (fun d e => e.take d) d).int "access_hash" =
      (lastOf Entity.accessHash es).getD (d.int "access_hash") := by
  refine foldl_eq_lastOf (fun d : Record => d.int "access_hash") (fun d e => ?_) es d
  exact (e.take_fields d).2.2.2.1

theorem foldl_take_photo (es : List Entity) (d : Record) :
    dialogPhoto (es.foldl (fun d e => e.take d) d) =
      (lastOf Entity.photo es).getD (dialogPhoto d) := by
  refine foldl_eq_lastOf dialogPhoto (fun d e => ?_) es d
  exact (e.take_fields d).2.2.2.2

/-- A message tells nothing about the peer. -/
structure SamePeer (d r : Record) : Prop where
  type : r.int "peer_type" = d.int "peer_type"
  id : r.int "peer_id" = d.int "peer_id"
  name : r.str "name" = d.str "name"
  accessHash : r.int "access_hash" = d.int "access_hash"
  photo : dialogPhoto r = dialogPhoto d

theorem samePeer_takeTopMessage (message : Tl) (d : Record) :
    SamePeer d (takeTopMessage T message d) := by
  unfold takeTopMessage takeFrom
  constructor <;> dsimp only [dialogPhoto] <;> split_ifs <;> simp

theorem samePeer_foldlM {messages : List Tl} (h : messages.foldlM (takeMessage T) d = .ok r) :
    SamePeer d r := by
  induction messages generalizing d with
  | nil =>
    cases h
    exact ⟨rfl, rfl, rfl, rfl, rfl⟩
  | cons message messages ih =>
    rw [List.foldlM_cons] at h
    obtain ⟨d', hd, h⟩ := exists_of_bind_eq_ok h
    have hrest := ih h
    unfold takeMessage at hd
    split_ifs at hd
    · obtain ⟨_, -, hd⟩ := exists_of_bind_eq_ok hd
      cases hd
      have htop := samePeer_takeTopMessage (T := T) message d
      exact ⟨hrest.type.trans htop.type, hrest.id.trans htop.id, hrest.name.trans htop.name,
        hrest.accessHash.trans htop.accessHash, hrest.photo.trans htop.photo⟩
    · cases hd
      exact hrest

theorem ofTlDialog_fields (dialog : TlDialog) (peer pns : Tl) :
    (ofTlDialog dialog peer pns).int "peer_type" = 0 ∧
      (ofTlDialog dialog peer pns).int "peer_id" = (peer.field 0).long? ∧
      (ofTlDialog dialog peer pns).int "access_hash" = 0 ∧
      dialogPhoto (ofTlDialog dialog peer pns) = (0, none) := by
  have hzero : peer.isNull = true → (peer.field 0).long? = 0 := by
    cases peer <;> intro h <;> first | rfl | cases h
  unfold ofTlDialog dialogPhoto
  dsimp only
  split_ifs <;> simp [zero, *]

/-- The entities with the number of the peer. -/
def matching (T : Texts) (md : Dialogs) (peer : Tl) : List Entity :=
  (entities T md).filter fun e => (peer.field 0).long? = e.id

/-- What is found is that of the last entity with the number. -/
theorem found_of_matches {dialog : TlDialog} {pns : Tl}
    (h : findDialog T onLog md peer (ofTlDialog dialog peer pns) = .ok (some r)) :
    ∃ before x, matching T md peer = before ++ [x] ∧ r.int "peer_type" = x.type.toUInt64 ∧
      r.int "peer_id" = (peer.field 0).long? ∧ r.str "name" = x.name ∧
      r.int "access_hash" = x.accessHash.getD ((lastOf Entity.accessHash before).getD 0) ∧
      dialogPhoto r = x.photo.getD ((lastOf Entity.photo before).getD (0, none)) := by
  obtain ⟨users, chats, husers, hchats, htype, messages, hrun⟩ := findDialog_eq_some h
  obtain ⟨hzero, hid, hhash, hphoto⟩ := ofTlDialog_fields dialog peer pns
  have hentities :
      entities T md = users.filterMap (userEntity T) ++ chats.filterMap (chatEntity T) := by
    unfold entities elements
    rw [husers, hchats]
    rfl
  have hfold : chats.foldl (takeChat T) (users.foldl (takeUser T) (ofTlDialog dialog peer pns)) =
      (matching T md peer).foldl (fun d e => e.take d) (ofTlDialog dialog peer pns) := by
    rw [foldl_takeUser, foldl_takeChat, ← List.foldl_append, ← hentities, foldl_visit, hid]
    rfl
  rw [hfold] at htype hrun
  have hsame := samePeer_foldlM hrun
  obtain hnil | ⟨before, x, hx⟩ := List.eq_nil_or_concat' (matching T md peer)
  · rw [hnil] at htype
    exact absurd hzero htype
  · refine ⟨before, x, hx, ?_, ?_, ?_, ?_, ?_⟩
    · rw [hsame.type, foldl_take_type, hx, lastOf_append]
      rfl
    · rw [hsame.id, foldl_take_id, hid]
    · rw [hsame.name, foldl_take_name, hx, lastOf_append]
      rfl
    · rw [hsame.accessHash, foldl_take_accessHash, hx, lastOf_append, hhash]
      cases x.accessHash <;> rfl
    · rw [hsame.photo, foldl_take_photo, hx, lastOf_append, hphoto]
      cases x.photo <;> rfl

end

/-! ## The own peer -/

section
variable (T : Texts) (md : Dialogs)

/-- The dialog has the name, the access hash and the photo of the entity; where the entity has none,
it is zero. -/
def Shows (d : Record) (e : Entity) : Prop :=
  d.str "name" = e.name ∧ d.int "access_hash" = e.accessHash.getD 0 ∧
    dialogPhoto d = e.photo.getD (0, none)

/-- The dialog has the type and the number of the peer of its entry, and shows the entity of that
type with that number. -/
structure OwnPeer (p : Made) : Prop where
  type : p.2.int "peer_type" = (peerOf p.1).id.toUInt64
  id : p.2.int "peer_id" = ((peerOf p.1).field 0).long?
  entity : ∀ e ∈ matching T md (peerOf p.1), e.type = (peerOf p.1).id → Shows p.2 e

/-- Every dialog that is handed over has its own peer. -/
def GivesOwnPeers (onLog : Bool) (stack : Nat → TlDialog) (callback : Option (List Record → Int))
    (tl : Tl) : Prop :=
  ∀ md, dialogsOf tl = some md →
    ∀ p ∈ (tgDialogsFromTl T onLog stack callback tl).1, OwnPeer T md p

/-- The two entities have the same name, access hash and photo. -/
def Entity.Same (e e' : Entity) : Prop :=
  e.name = e'.name ∧ e.accessHash.getD 0 = e'.accessHash.getD 0 ∧
    e.photo.getD (0, none) = e'.photo.getD (0, none)

/-- Of the entities with the number of the peer the last is of its type. What this one does not have
is zero in those before, and others of its type are the same. -/
def LastIsOwn (entry : Tl) : Prop :=
  ∃ before x, matching T md (peerOf entry) = before ++ [x] ∧ x.type = (peerOf entry).id ∧
    (x.accessHash = none → (lastOf Entity.accessHash before).getD 0 = 0) ∧
    (x.photo = none → (lastOf Entity.photo before).getD (0, none) = (0, none)) ∧
    ∀ e ∈ before, e.type = x.type → e.Same x

end

section
variable {T : Texts} {onLog : Bool} {md : Dialogs} {dialog : TlDialog} {p : Made}

theorem ownPeer_iff_lastIsOwn (h : dialogOf T onLog md dialog p.1 = .ok (some p.2)) :
    OwnPeer T md p ↔ LastIsOwn T md p.1 := by
  obtain ⟨filled, pns, h⟩ := dialogOf_eq_some h
  obtain ⟨before, x, hmatching, htype, hid, hname, hhash, hphoto⟩ := found_of_matches h
  have hx : x ∈ matching T md (peerOf p.1) := hmatching ▸ List.mem_append_right _ List.mem_cons_self
  constructor
  · intro hown
    have hxtype : x.type = (peerOf p.1).id := UInt32.toUInt64_inj.mp (htype.symm.trans hown.type)
    obtain ⟨-, hxhash, hxphoto⟩ := hown.entity x hx hxtype
    refine ⟨before, x, hmatching, hxtype, fun hnone => ?_, fun hnone => ?_, fun e he hetype => ?_⟩
    · rw [hhash, hnone] at hxhash
      exact hxhash
    · rw [hphoto, hnone] at hxphoto
      exact hxphoto
    · obtain ⟨hename, hehash, hephoto⟩ :=
        hown.entity e (hmatching ▸ List.mem_append_left _ he) (hetype.trans hxtype)
      exact ⟨hename.symm.trans hname, hehash.symm.trans hxhash, hephoto.symm.trans hxphoto⟩
  · rintro ⟨before', x', hmatching', hxtype, hnohash, hnophoto, hsame⟩
    obtain ⟨rfl, hlast⟩ := List.append_inj' (hmatching.symm.trans hmatching') rfl
    obtain rfl : x = x' := List.singleton_inj.mp hlast
    have hshows : Shows p.2 x := by
      refine ⟨hname, ?_, ?_⟩
      · rw [hhash]
        cases hxhash : x.accessHash with
        | none => exact hnohash hxhash
        | some v => rfl
      · rw [hphoto]
        cases hxphoto : x.photo with
        | none => exact hnophoto hxphoto
        | some v => rfl
    refine ⟨htype.trans (congrArg UInt32.toUInt64 hxtype), hid, fun e he hetype => ?_⟩
    rw [hmatching, List.mem_append, List.mem_singleton] at he
    obtain he | rfl := he
    · obtain ⟨hename, hehash, hephoto⟩ := hsame e he (hetype.trans hxtype.symm)
      exact ⟨hshows.1.trans hename.symm, hshows.2.1.trans hehash.symm,
        hshows.2.2.trans hephoto.symm⟩
    · exact hshows

end

/-- A dialog with user 5, and a chat that has this number too. -/
def sameNumber : Dialogs where
  dialogs := .vector 1 [.object idDialog []
    [.zero, .zero, .zero, .zero, .object idPeerUser [] [.long 5], .int 1]]
  messages := .vector 0 []
  chats := .vector 1 [.object idChat [] (List.replicate 7 .zero ++ [.long 5, .buf [99]])]
  users := .vector 1 [.object idUser [] (List.replicate 27 .zero ++ [.long 5, .long 8, .buf [117]])]

def sameNumberReply : Tl :=
  .object idDialogs []
    [sameNumber.dialogs, sameNumber.messages, sameNumber.chats, sameNumber.users]

def sameNumberMade : List Made :=
  (tgDialogsFromTl noTexts false (fun _ => .zero) (some fun _ => 0) sameNumberReply).1

end Libtg.FromTl
