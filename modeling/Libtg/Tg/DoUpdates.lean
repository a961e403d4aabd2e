import Libtg.Tg.Message

/-!
# The pointers behind an update (`tg/updates.c`, `tg/messages.c`)

A field whose constructor `tl_deserialize` does not know is `NULL`. The functions under
`tg_do_updates` are written out here with the pointers they read through and the tests before them,
in the order of the source; the values they copy, and `tg_users_save` and `tg_chats_save`, which
test every pointer, are left out. Each function is followed by the updates it fails on.
-/

namespace Libtg

def idMessage : UInt32 := 0x94345242
def idMessageService : UInt32 := 0x2b085862
def idMessageFwdHeader : UInt32 := 0x4e4df4bb
def idMessageReplyHeader : UInt32 := 0xafbc09db
def idMessageMediaPhoto : UInt32 := 0x695150d7
def idMessageMediaGeo : UInt32 := 0x56e0d474
def idMessageMediaDocument : UInt32 := 0x4cf4d72d
def idMessageMediaWebPage : UInt32 := 0xddf10c3b
def idPhoto : UInt32 := 0xfb197a65
def idGeoPoint : UInt32 := 0xb2a2f663
def idDocument : UInt32 := 0x8fd4c4d8
def idWebPage : UInt32 := 0xe89c45b2
def idMessageActionPhoneCall : UInt32 := 0x80e11a7f
def idUpdateNewMessage : UInt32 := 0x1f2b0afd
def idUpdateDeleteMessages : UInt32 := 0xa20db0e5
def idUpdateUserTyping : UInt32 := 0xc01e857f
def idUpdateChatUserTyping : UInt32 := 0x83487af0
def idUpdateChannelUserTyping : UInt32 := 0x8c88c923
def idUpdateUserStatus : UInt32 := 0xe5bdf8de

/-! ## Reading through a pointer -/

/-- Why a run does not get to its end. -/
inductive Fault where
  /-- It reads an object or an array that is not there. -/
  | absent
  /-- The bytes of an object end inside of it, or a recursion does not end. -/
  | stuck
  deriving DecidableEq

/-- What a function reads through pointers. -/
abbrev Reads := Except Fault Unit

/-- `p == NULL`. -/
def Tl.isNull : Tl → Bool
  | .object _ _ _ => .false
  | _ => .true

/-- A field of `*p` is read. -/
def deref (p : Tl) : Reads := if p.isNull then throw .absent else pure ()

/-- `if (p)`. -/
def ifPresent (p : Tl) (c : Reads) : Reads := if p.isNull then pure () else c

/-- `if (p && p->_id == id)`. -/
def ifPresentAs (p : Tl) (id : UInt32) (c : Reads) : Reads :=
  ifPresent p do
    deref p
    if p.id = id then c else pure ()

/-- A loop that reads its array at each index. -/
def overArray (array : Tl) (c : Tl → Reads) : Reads :=
  match array.elements with
  | none => throw .absent
  | some xs => xs.forM c

/-- A loop that goes on where the array or the element is `NULL`. -/
def overPresent (array : Tl) (c : Tl → Reads) : Reads :=
  match array.elements with
  | none => pure ()
  | some xs => xs.forM fun x => ifPresent x (c x)

/-! ## `tg/messages.c` -/

/-- `TG_MESSAGE_PER` and its likes. -/
def readPeer (tl : Tl) (i : Nat) : Reads := ifPresent (tl.field i) (deref (tl.field i))

/-- `tg_message_fwd`, with `from_id_`, `saved_from_peer_` and `saved_from_id_`. -/
def tgMessageFwd (tlh : Tl) : Reads := do
  deref tlh
  readPeer tlh 3
  readPeer tlh 8
  readPeer tlh 10

/-- `tg_message_reply`, with `reply_to_peer_id_` and `reply_from_`. -/
def tgMessageReply (tlh : Tl) : Reads := do
  deref tlh
  readPeer tlh 5
  ifPresentAs (tlh.field 6) idMessageFwdHeader (tgMessageFwd (tlh.field 6))

/-- `photo_sizes`, and `video_sizes`. -/
def photoSizes (argv : Tl) : Reads := overPresent argv deref

/-- The loop of `tg_message_from_tl` over the attributes of a document. -/
def documentAttributes (doc : Tl) : Reads :=
  overArray (doc.field 10) fun attr => ifPresent attr (deref attr)

/-- The `switch` of `tg_message_from_tl` over the media. -/
def messageMedia (media : Tl) : Reads := do
  deref media
  if media.id = idMessageMediaPhoto then
    let photo := media.field 2
    ifPresentAs photo idPhoto do
      deref photo
      photoSizes (photo.field 6)
  else if media.id = idMessageMediaGeo then
    ifPresentAs (media.field 0) idGeoPoint (deref (media.field 0))
  else if media.id = idMessageMediaDocument then
    let doc := media.field 6
    ifPresentAs doc idDocument do
      deref doc
      photoSizes (doc.field 7)
      photoSizes (doc.field 8)
      documentAttributes doc
  else if media.id = idMessageMediaWebPage then
    let web := media.field 5
    ifPresentAs web idWebPage do
      deref web
      ifPresentAs (web.field 10) idPhoto (deref (web.field 10))
  else pure ()

/-- `tg_message_from_tl`, with `from_id_`, `peer_id_`, `saved_peer_id_`, `reply_to_` and
`media_`. -/
def tgMessageFromTl (tlm : Tl) : Reads := do
  deref tlm
  readPeer tlm 15
  readPeer tlm 17
  readPeer tlm 18
  ifPresentAs (tlm.field 22) idMessageReplyHeader (tgMessageReply (tlm.field 22))
  ifPresent (tlm.field 25) (messageMedia (tlm.field 25))

/-- The `switch` of `tg_message_from_tl_service`. The reason of a call is read once before it is
tested. -/
def messageAction (action : Tl) : Reads := do
  deref action
  if action.id = idMessageActionPhoneCall then
    deref (action.field 3)
    ifPresent (action.field 3) (deref (action.field 3))
  else pure ()

/-- `tg_message_from_tl_service`, with `from_id_`, `peer_id_`, `reply_to_` and `action_`. -/
def tgMessageFromTlService (tlm : Tl) : Reads := do
  deref tlm
  readPeer tlm 8
  readPeer tlm 9
  ifPresentAs (tlm.field 10) idMessageReplyHeader (tgMessageReply (tlm.field 10))
  messageAction (tlm.field 12)

/-- `tg_message_from_tl_unknown`. -/
def tgMessageFromTlUnknown (tlm : Tl) : Reads :=
  ifPresent tlm do
    deref tlm
    if tlm.id = idMessage then tgMessageFromTl tlm
    else if tlm.id = idMessageService then tgMessageFromTlService tlm
    else pure ()

/-! ## `tg/updates.c` -/

/-- `ON_LOG` with the name of the object: its id is read when there is somebody to report to. -/
def logName (onLog : Bool) (tl : Tl) : Reads := if onLog then deref tl else pure ()

/-- The cases of `tg_do_update` for someone typing in a chat or a channel. -/
def peerTyping (peer action : Tl) : Reads :=
  ifPresent peer do
    deref peer
    deref action

/-- `tg_do_update`, which reports before it tests the pointer. -/
def tgDoUpdate (onLog : Bool) (update : Tl) : Reads := do
  logName onLog update
  ifPresent update do
    deref update
    if update.id = idUpdateNewMessage then tgMessageFromTlUnknown (update.field 0)
    else if update.id = idUpdateDeleteMessages then overArray (update.field 0) fun _ => pure ()
    else if update.id = idUpdateUserTyping then deref (update.field 1)
    else if update.id = idUpdateChatUserTyping then peerTyping (update.field 1) (update.field 2)
    else if update.id = idUpdateChannelUserTyping then peerTyping (update.field 3) (update.field 4)
    else if update.id = idUpdateUserStatus then deref (update.field 1)
    else pure ()

/-- `tg_do_updates`. -/
def tgDoUpdates (onLog : Bool) (tl : Tl) : Reads :=
  ifPresent tl do
    deref tl
    if tl.id = idUpdateShort then tgDoUpdate onLog (tl.field 0)
    else if tl.id = idUpdatesCombined ∨ tl.id = idUpdates then
      overPresent (tl.field 0) (tgDoUpdate onLog)
    else pure ()

/-! ## What is tested before it is read -/

theorem deref_of_present {p : Tl} (h : p.isNull = false) : deref p = pure () := by
  rw [deref, h]
  rfl

theorem id_of_isNull {p : Tl} (h : p.isNull = true) : p.id = 0 := by
  cases p with
  | object id b fields => cases h
  | _ => rfl

theorem isNull_of_id {p : Tl} {id : UInt32} (h : p.id = id) (hid : id ≠ 0) : p.isNull = false := by
  rw [← Bool.not_eq_true]
  exact fun hnull => hid (h.symm.trans (id_of_isNull hnull))

section
variable {p array : Tl} {id : UInt32} {c : Reads}

theorem ifPresent_eq (h : p.isNull = false → c = pure ()) : ifPresent p c = pure () := by
  unfold ifPresent
  split_ifs with hp
  · rfl
  · exact h (Bool.eq_false_of_not_eq_true hp)

theorem ifPresentAs_eq (h : p.isNull = false → c = pure ()) : ifPresentAs p id c = pure () := by
  refine ifPresent_eq fun hp => ?_
  rw [deref_of_present hp, h hp]
  exact ite_self _

theorem forM_eq_pure {c : Tl → Reads} {xs : List Tl} (h : ∀ x ∈ xs, c x = pure ()) :
    xs.forM c = pure () := by
  induction xs with
  | nil => rfl
  | cons x xs ih =>
    show (c x >>= fun _ => xs.forM c) = _
    rw [h x List.mem_cons_self]
    exact ih fun y hy => h y (List.mem_cons_of_mem _ hy)

theorem photoSizes_eq : photoSizes array = pure () := by
  unfold photoSizes overPresent
  cases array.elements with
  | none => rfl
  | some xs => exact forM_eq_pure fun x _ => ifPresent_eq deref_of_present

theorem readPeer_eq (i : Nat) : readPeer p i = pure () := ifPresent_eq deref_of_present

theorem tgMessageFwd_eq (h : p.isNull = false) : tgMessageFwd p = pure () := by
  rw [tgMessageFwd, deref_of_present h, readPeer_eq, readPeer_eq, readPeer_eq]
  rfl

theorem tgMessageReply_eq (h : p.isNull = false) : tgMessageReply p = pure () := by
  rw [tgMessageReply, deref_of_present h, readPeer_eq, ifPresentAs_eq tgMessageFwd_eq]
  rfl

end

/-! ## What is not -/

/-- The reads come upon something absent just then. -/
def FailsIff (c : Reads) (P : Prop) : Prop := P ∧ c = throw .absent ∨ ¬ P ∧ c = pure ()

namespace FailsIff

variable {p array : Tl} {c d : Reads} {P Q : Prop}

theorem iff (h : FailsIff c P) : c = throw .absent ↔ P := by
  rcases h with ⟨hP, hc⟩ | ⟨hP, hc⟩
  · exact iff_of_true hc hP
  · rw [hc]
    exact iff_of_false nofun hP

theorem of_eq (h : c = pure ()) : FailsIff c False := .inr ⟨id, h⟩

theorem congr (h : FailsIff c P) (hPQ : P ↔ Q) : FailsIff c Q := by
  rwa [← hPQ]

theorem deref (p : Tl) : FailsIff (deref p) (p.isNull = true) := by
  cases h : p.isNull with
  | true => exact .inl ⟨rfl, by rw [Libtg.deref, h]; rfl⟩
  | false => exact .inr ⟨Bool.false_ne_true, deref_of_present h⟩

theorem bind (hc : FailsIff c P) (hd : ¬ P → FailsIff d Q) :
    FailsIff (c >>= fun _ => d) (P ∨ Q) := by
  rcases hc with ⟨hP, rfl⟩ | ⟨hP, rfl⟩
  · exact .inl ⟨.inl hP, rfl⟩
  · exact (hd hP).congr (or_iff_right hP).symm

theorem ifPresent (h : p.isNull = false → FailsIff c P) :
    FailsIff (ifPresent p c) (p.isNull = false ∧ P) := by
  cases hp : p.isNull with
  | true => exact .inr ⟨fun h => Bool.false_ne_true h.1.symm, by rw [Libtg.ifPresent, hp]; rfl⟩
  | false =>
    rw [Libtg.ifPresent, hp]
    exact (h hp).congr (and_iff_right rfl).symm

theorem forM {c : Tl → Reads} {P : Tl → Prop} (h : ∀ x, FailsIff (c x) (P x)) (xs : List Tl) :
    FailsIff (xs.forM c) (∃ x ∈ xs, P x) := by
  induction xs with
  | nil => exact .inr ⟨by simp, rfl⟩
  | cons x xs ih => exact ((h x).bind fun _ => ih).congr (by simp)

end FailsIff

namespace FailsIff

variable {p : Tl} {id : UInt32} {c d : Reads} {P Q : Prop}

theorem ifPresentAs (hid : id ≠ 0) (h : p.id = id → FailsIff c P) :
    FailsIff (ifPresentAs p id c) (p.id = id ∧ P) := by
  by_cases hp : p.id = id
  · have hnull := isNull_of_id hp hid
    rw [Libtg.ifPresentAs, Libtg.ifPresent, hnull, deref_of_present hnull, if_pos hp]
    exact (h hp).congr (and_iff_right hp).symm
  · refine .inr ⟨fun h => hp h.1, ?_⟩
    unfold Libtg.ifPresentAs Libtg.ifPresent
    split_ifs with hnull
    · rfl
    · rw [deref_of_present (Bool.eq_false_of_not_eq_true hnull)]
      rfl

end FailsIff

/-- The media is a document without the array of its attributes. -/
def MediaFaults (media : Tl) : Prop :=
  media.id = idMessageMediaDocument ∧ (media.field 6).id = idDocument ∧
    ((media.field 6).field 10).elements = none

/-- There is no action, or it is a call without a reason. -/
def ActionFaults (action : Tl) : Prop :=
  action.isNull = true ∨ action.id = idMessageActionPhoneCall ∧ (action.field 3).isNull = true

def MessageFaults (m : Tl) : Prop :=
  m.id = idMessage ∧ MediaFaults (m.field 25) ∨ m.id = idMessageService ∧ ActionFaults (m.field 12)

/-- The updates `tg_do_update` fails on. -/
def UpdateFaults (onLog : Bool) (update : Tl) : Prop :=
  update.isNull = true ∧ onLog = true ∨
  update.id = idUpdateNewMessage ∧ MessageFaults (update.field 0) ∨
  update.id = idUpdateDeleteMessages ∧ (update.field 0).elements = none ∨
  (update.id = idUpdateUserTyping ∨ update.id = idUpdateUserStatus) ∧
    (update.field 1).isNull = true ∨
  update.id = idUpdateChatUserTyping ∧ (update.field 1).isNull = false ∧
    (update.field 2).isNull = true ∨
  update.id = idUpdateChannelUserTyping ∧ (update.field 3).isNull = false ∧
    (update.field 4).isNull = true

/-- The objects `tg_do_updates` fails on. -/
def UpdatesFault (onLog : Bool) (tl : Tl) : Prop :=
  tl.id = idUpdateShort ∧ UpdateFaults onLog (tl.field 0) ∨
  (tl.id = idUpdatesCombined ∨ tl.id = idUpdates) ∧ ∃ us, (tl.field 0).elements = some us ∧
    ∃ u ∈ us, u.isNull = false ∧ UpdateFaults onLog u

section
variable {media doc action m update tl : Tl} {onLog : Bool}

theorem failsIff_documentAttributes :
    FailsIff (documentAttributes doc) ((doc.field 10).elements = none) := by
  unfold documentAttributes overArray
  cases (doc.field 10).elements with
  | none => exact .inl ⟨rfl, rfl⟩
  | some xs => exact .inr ⟨nofun, forM_eq_pure fun x _ => ifPresent_eq deref_of_present⟩

theorem failsIff_document (h : doc.isNull = false) :
    FailsIff (do deref doc; photoSizes (doc.field 7); photoSizes (doc.field 8)
                 documentAttributes doc) ((doc.field 10).elements = none) := by
  rw [deref_of_present h, photoSizes_eq, photoSizes_eq]
  exact failsIff_documentAttributes

theorem failsIff_messageMedia (h : media.isNull = false) :
    FailsIff (messageMedia media) (MediaFaults media) := by
  unfold messageMedia
  rw [deref_of_present h]
  by_cases hdoc : media.id = idMessageMediaDocument
  · rw [hdoc]
    refine (FailsIff.ifPresentAs (by decide) fun hid => ?_).congr (and_iff_right hdoc).symm
    exact failsIff_document (isNull_of_id hid (by decide))
  · refine (FailsIff.of_eq ?_).congr (iff_of_false id fun h => hdoc h.1)
    show ite _ _ _ = _
    rw [if_neg hdoc]
    split_ifs
    · refine ifPresentAs_eq fun hphoto => ?_
      rw [deref_of_present hphoto, photoSizes_eq]
      rfl
    · exact ifPresentAs_eq deref_of_present
    · refine ifPresentAs_eq fun hweb => ?_
      rw [deref_of_present hweb, ifPresentAs_eq deref_of_present]
      rfl
    · rfl

theorem failsIff_tgMessageFromTl (h : m.isNull = false) :
    FailsIff (tgMessageFromTl m) (MediaFaults (m.field 25)) := by
  rw [tgMessageFromTl, deref_of_present h, readPeer_eq, readPeer_eq, readPeer_eq,
    ifPresentAs_eq tgMessageReply_eq]
  refine (FailsIff.ifPresent failsIff_messageMedia).congr (and_iff_right_of_imp fun hmedia => ?_)
  exact isNull_of_id hmedia.1 (by decide)

theorem failsIff_messageAction : FailsIff (messageAction action) (ActionFaults action) := by
  refine (FailsIff.deref action).bind fun _ => ?_
  by_cases hid : action.id = idMessageActionPhoneCall
  · rw [if_pos hid, ifPresent_eq deref_of_present]
    exact ((FailsIff.deref _).bind fun _ => .of_eq rfl).congr (by simp [hid])
  · rw [if_neg hid]
    exact (FailsIff.of_eq rfl).congr (by simp [hid])

theorem failsIff_tgMessageFromTlService (h : m.isNull = false) :
    FailsIff (tgMessageFromTlService m) (ActionFaults (m.field 12)) := by
  rw [tgMessageFromTlService, deref_of_present h, readPeer_eq, readPeer_eq,
    ifPresentAs_eq tgMessageReply_eq]
  exact failsIff_messageAction

theorem failsIff_tgMessageFromTlUnknown :
    FailsIff (tgMessageFromTlUnknown m) (MessageFaults m) := by
  refine (FailsIff.ifPresent (P := MessageFaults m) fun hm => ?_).congr (and_iff_right_of_imp ?_)
  · rw [deref_of_present hm]
    show FailsIff (ite _ _ _) _
    split_ifs with hid hid'
    · exact (failsIff_tgMessageFromTl hm).congr (by simp +decide [MessageFaults, hid])
    · exact (failsIff_tgMessageFromTlService hm).congr (by simp +decide [MessageFaults, hid'])
    · exact (FailsIff.of_eq rfl).congr (by simp [MessageFaults, hid, hid'])
  · rintro (⟨hid, -⟩ | ⟨hid, -⟩) <;> exact isNull_of_id hid (by decide)

theorem failsIff_peerTyping {peer : Tl} :
    FailsIff (peerTyping peer action) (peer.isNull = false ∧ action.isNull = true) := by
  refine FailsIff.ifPresent fun hpeer => ?_
  rw [deref_of_present hpeer]
  exact FailsIff.deref action

theorem failsIff_deleteMessages {messages : Tl} :
    FailsIff (overArray messages fun _ => pure ()) (messages.elements = none) := by
  unfold overArray
  cases messages.elements with
  | none => exact .inl ⟨rfl, rfl⟩
  | some xs => exact .inr ⟨nofun, forM_eq_pure fun _ _ => rfl⟩

theorem failsIff_tgDoUpdate : FailsIff (tgDoUpdate onLog update) (UpdateFaults onLog update) := by
  cases hnull : update.isNull with
  | true =>
    have hid := id_of_isNull hnull
    cases onLog with
    | true => exact .inl ⟨.inl ⟨hnull, rfl⟩, by simp [tgDoUpdate, logName, deref, hnull]; rfl⟩
    | false =>
      refine .inr ⟨?_, by simp [tgDoUpdate, logName, ifPresent, hnull]⟩
      unfold UpdateFaults
      rw [hid]
      rintro (⟨-, h⟩ | ⟨h, -⟩ | ⟨h, -⟩ | ⟨h | h, -⟩ | ⟨h, -⟩ | ⟨h, -⟩) <;>
        exact absurd h (by decide)
  | false =>
    have hlog : logName onLog update = pure () := by
      unfold logName
      rw [deref_of_present hnull]
      exact ite_self _
    rw [tgDoUpdate, hlog, ifPresent, hnull, deref_of_present hnull]
    show FailsIff (ite _ _ _) _
    unfold UpdateFaults
    rw [hnull]
    split_ifs with h₁ h₂ h₃ h₄ h₅ h₆
    · exact failsIff_tgMessageFromTlUnknown.congr (by simp +decide [h₁])
    · exact failsIff_deleteMessages.congr (by simp +decide [h₂])
    · exact (FailsIff.deref _).congr (by simp +decide [h₃])
    · exact failsIff_peerTyping.congr (by simp +decide [h₄])
    · exact failsIff_peerTyping.congr (by simp +decide [h₅])
    · exact (FailsIff.deref _).congr (by simp +decide [h₆])
    · exact (FailsIff.of_eq rfl).congr (by simp [h₁, h₂, h₃, h₄, h₅, h₆])

/-- `tg_do_updates` fails on the updates that it does not test, and on no others. -/
theorem failsIff_tgDoUpdates : FailsIff (tgDoUpdates onLog tl) (UpdatesFault onLog tl) := by
  refine (FailsIff.ifPresent (P := UpdatesFault onLog tl) fun hnull => ?_).congr
    (and_iff_right_of_imp ?_)
  · rw [deref_of_present hnull]
    show FailsIff (ite _ _ _) _
    unfold UpdatesFault
    split_ifs with hshort hupdates
    · exact failsIff_tgDoUpdate.congr (by simp +decide [hshort])
    · unfold overPresent
      cases (tl.field 0).elements with
      | none => exact (FailsIff.of_eq rfl).congr (by simp [hshort])
      | some xs =>
        refine (FailsIff.forM (fun u => .ifPresent fun _ => failsIff_tgDoUpdate) xs).congr ?_
        simp [hshort, hupdates]
    · exact (FailsIff.of_eq rfl).congr (by simp [hshort, hupdates])
  · rintro (⟨hid, -⟩ | ⟨hid | hid, -⟩) <;> exact isNull_of_id hid (by decide)

end

end Libtg
