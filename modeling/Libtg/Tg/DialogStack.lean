import Libtg.Tg.DialogPeers

/-!
# What is left on the stack

The variable `dialog` of the loop is not cleared: `memset` is given `d` twice. For a `dialogFolder`
five fields of the dialog come from whatever was there. They are never looked at, so the rest of the
round does the same for all of it (`Blind`).
-/

namespace Libtg.FromTl

open Database Consumer

/-- The fields a `dialogFolder` does not set. -/
def unset : List String :=
  ["unread_mark", "read_inbox_max_id", "read_outbox_max_id", "unread_mentions_count",
    "unread_reactions_count"]

theorem mem_unset {n : String} : n ∈ unset ↔ n = "unread_mark" ∨ n = "read_inbox_max_id" ∨
    n = "read_outbox_max_id" ∨ n = "unread_mentions_count" ∨ n = "unread_reactions_count" := by
  simp [unset]

theorem notMem_unset {n : String} : n ∉ unset ↔ n ≠ "unread_mark" ∧ n ≠ "read_inbox_max_id" ∧
    n ≠ "read_outbox_max_id" ∧ n ≠ "unread_mentions_count" ∧ n ≠ "unread_reactions_count" := by
  simp [unset]

/-- What is on the stack gets into these fields. -/
def TlDialog.leftover (dialog : TlDialog) (d : Record) : Record :=
  d |> setInt "unread_mark" dialog.unread_mark_
    |> setInt "read_inbox_max_id" dialog.read_inbox_max_id_.toUInt64
    |> setInt "read_outbox_max_id" dialog.read_outbox_max_id_.toUInt64
    |> setInt "unread_mentions_count" dialog.unread_mentions_count_.toUInt64
    |> setInt "unread_reactions_count" dialog.unread_reactions_count_.toUInt64

/-- A change of these fields alone, which the other fields do not see. -/
structure Blind (f : Record → Record) : Prop where
  int : ∀ n ∉ unset, ∀ d, (f d).int n = d.int n
  setInt : ∀ n ∉ unset, ∀ v d, f (setInt n v d) = setInt n v (f d)
  setStr : ∀ n v d, f (setStr n v d) = setStr n v (f d)

theorem setInt_comm {n n' : String} (h : n ≠ n') (v v' : UInt64) (m : Record) :
    setInt n v (setInt n' v' m) = setInt n' v' (setInt n v m) := by
  unfold setInt
  rw [Function.update_comm h]

theorem setInt_setStr (n n' : String) (v : UInt64) (v' : Option CString) (m : Record) :
    setInt n v (setStr n' v' m) = setStr n' v' (setInt n v m) := rfl

theorem blind_leftover (dialog : TlDialog) : Blind dialog.leftover := by
  refine ⟨fun n hn d => ?_, fun n hn v d => ?_, fun n v d => rfl⟩ <;>
    obtain ⟨h₁, h₂, h₃, h₄, h₅⟩ := notMem_unset.mp hn
  · simp [TlDialog.leftover, h₁, h₂, h₃, h₄, h₅]
  · simp only [TlDialog.leftover]
    rw [setInt_comm h₁.symm, setInt_comm h₂.symm, setInt_comm h₃.symm, setInt_comm h₄.symm,
      setInt_comm h₅.symm]

/-! ## A round -/

section
variable {T : Texts} {onLog : Bool} {md : Dialogs} {f : Record → Record}

theorem Blind.setBy {β : Type} {g : β → Record → Record} (h : ∀ v d, f (g v d) = g v (f d))
    (v : Option β) (d : Record) : f (setBy g v d) = FromTl.setBy g v (f d) := by
  cases v with
  | none => rfl
  | some v => exact h v d

theorem Blind.take (h : Blind f) (e : Entity) (d : Record) : f (e.take d) = e.take (f d) := by
  unfold Entity.take
  have hphoto : ∀ (p : UInt64 × Option CString) d, f (d |> FromTl.setInt "photo_id" p.1
      |> FromTl.setStr "thumb" p.2) =
        (f d |> FromTl.setInt "photo_id" p.1 |> FromTl.setStr "thumb" p.2) := fun p d => by
    rw [h.setStr, h.setInt _ (by decide)]
  rw [Blind.setBy hphoto, Blind.setBy fun v d => h.setInt _ (by decide) v d, h.setStr,
    h.setInt _ (by decide), Blind.setBy fun v d => h.setInt _ (by decide) v d]

theorem Blind.foldl_visit (h : Blind f) (es : List Entity) (d : Record) :
    f (es.foldl Entity.visit d) = es.foldl Entity.visit (f d) := by
  induction es generalizing d with
  | nil => rfl
  | cons e es ih =>
    rw [List.foldl_cons, List.foldl_cons, ih]
    congr 1
    unfold Entity.visit
    rw [h.int _ (by decide)]
    split_ifs
    · exact h.take e d
    · rfl

theorem Blind.takeTopMessage (h : Blind f) (message : Tl) (d : Record) :
    f (takeTopMessage T message d) = takeTopMessage T message (f d) := by
  unfold FromTl.takeTopMessage takeFrom
  dsimp only
  split_ifs <;> simp only [h.setStr, h.setInt _ (by decide : "top_message_date" ∉ unset),
    h.setInt _ (by decide : "top_message_from_peer_type" ∉ unset),
    h.setInt _ (by decide : "top_message_from_peer_id" ∉ unset)]

theorem Blind.takeMessage (h : Blind f) (d : Record) (message : Tl) :
    takeMessage T (f d) message = (takeMessage T d message).map f := by
  unfold FromTl.takeMessage
  rw [h.int _ (by decide)]
  split_ifs
  · cases Libtg.tgMessageFromTl message with
    | error fault => rfl
    | ok _ => exact congrArg Except.ok (h.takeTopMessage message d).symm
  · rfl

theorem Blind.foldlM (h : Blind f) (messages : List Tl) (d : Record) :
    messages.foldlM (FromTl.takeMessage T) (f d) =
      (messages.foldlM (FromTl.takeMessage T) d).map f := by
  induction messages generalizing d with
  | nil => rfl
  | cons message messages ih =>
    rw [List.foldlM_cons, List.foldlM_cons, h.takeMessage]
    cases FromTl.takeMessage T d message with
    | error fault => rfl
    | ok d' => exact ih d'

theorem Blind.completeDialog (h : Blind f) (peer : Tl) (d : Record) :
    completeDialog T onLog md peer (f d) =
      (completeDialog T onLog md peer d).map (Option.map f) := by
  unfold FromTl.completeDialog
  rw [h.int _ (by decide)]
  split_ifs
  · cases logName onLog peer <;> rfl
  · cases array md.messages with
    | error fault => rfl
    | ok messages =>
      show (messages.foldlM (FromTl.takeMessage T) (f d) >>= fun r => Except.ok (some r)) =
        Except.map _ (messages.foldlM (FromTl.takeMessage T) d >>= fun r => Except.ok (some r))
      rw [h.foldlM]
      cases messages.foldlM (FromTl.takeMessage T) d <;> rfl

theorem Blind.findDialog (h : Blind f) (peer : Tl) (d : Record) :
    findDialog T onLog md peer (f d) =
      (findDialog T onLog md peer d).map (Option.map f) := by
  unfold FromTl.findDialog
  cases array md.users with
  | error fault => rfl
  | ok users =>
    cases array md.chats with
    | error fault => rfl
    | ok chats =>
      show FromTl.completeDialog T onLog md peer _ =
        (FromTl.completeDialog T onLog md peer _).map _
      rw [foldl_takeUser, foldl_takeUser, foldl_takeChat, foldl_takeChat, ← h.foldl_visit,
        ← h.foldl_visit, h.completeDialog]

/-- The structure is filled in with what was there. -/
theorem ofTlDialog_folder (dialog : TlDialog) (df peer : Tl) :
    ofTlDialog (ofDialogFolder dialog df) peer .null =
      dialog.leftover (ofTlDialog (ofDialogFolder .zero df) peer .null) := by
  have hnull : Tl.isNull .null = true := rfl
  have hint : ∀ n, (ofTlDialog (ofDialogFolder dialog df) peer .null).int n =
      (dialog.leftover (ofTlDialog (ofDialogFolder .zero df) peer .null)).int n := by
    intro n
    by_cases hn : n ∈ unset
    · obtain rfl | rfl | rfl | rfl | rfl := mem_unset.mp hn
      all_goals
        unfold ofTlDialog ofDialogFolder TlDialog.leftover
        cases peer.isNull <;> simp [hnull]
    · obtain ⟨h₁, h₂, h₃, h₄, h₅⟩ := notMem_unset.mp hn
      rw [(blind_leftover dialog).int n hn]
      unfold ofTlDialog ofDialogFolder
      cases peer.isNull <;> simp [hnull, h₁, h₂, h₃, h₄, h₅]
  have hstr : (ofTlDialog (ofDialogFolder dialog df) peer .null).str =
      (dialog.leftover (ofTlDialog (ofDialogFolder .zero df) peer .null)).str := by
    unfold ofTlDialog
    cases peer.isNull <;> rfl
  exact congrArg₂ Record.mk (funext hint) hstr

theorem dialogOf_folder {entry : Tl} (h : entry.id = idDialogFolder) (dialog : TlDialog) :
    dialogOf T onLog md dialog entry =
      (dialogOf T onLog md .zero entry).map (Option.map dialog.leftover) := by
  have hnull := isNull_of_id h (by decide)
  unfold dialogOf
  rw [hnull, if_neg Bool.false_ne_true, if_neg Bool.false_ne_true, if_pos h, if_pos h,
    ofTlDialog_folder]
  cases deref (entry.field 2) with
  | error fault => rfl
  | ok _ => exact (blind_leftover dialog).findDialog _ _

/-- A round for an entry of another kind does not depend on it. -/
theorem dialogOf_of_ne {entry : Tl} (h : entry.id ≠ idDialogFolder) (dialog dialog' : TlDialog) :
    dialogOf T onLog md dialog entry = dialogOf T onLog md dialog' entry := by
  unfold dialogOf
  rw [if_neg h, if_neg h]

end

/-! ## The loop -/

section
variable {T : Texts} {onLog : Bool} {md : Dialogs} {callback : Option (List Record → Int)}
  {i n : Nat} {log : List Made} {entries : List Tl}

/-- What has been handed over stays so. -/
theorem prefix_dialogsLoop (stack : Nat → TlDialog) :
    log <+: (dialogsLoop T onLog md stack callback i n log entries).1 := by
  induction entries generalizing i n log with
  | nil => exact List.prefix_rfl
  | cons entry entries ih =>
    unfold dialogsLoop
    split
    · exact List.prefix_rfl
    · exact ih
    · split
      · exact ih
      · dsimp only
        split_ifs
        · exact List.prefix_append ..
        · exact (List.prefix_append ..).trans ih

theorem prefix_of_made (i n : Nat) (log : List Made) (entries : List Tl) (stack : Nat → TlDialog)
    (f : List Record → Int) {entry : Tl} {d : Record}
    (h : dialogOf T onLog md (stack i) entry = .ok (some d)) :
    log ++ [(entry, d)] <+:
      (dialogsLoop T onLog md stack (some f) i n log (entry :: entries)).1 := by
  rw [dialogsLoop, h]
  dsimp only
  split_ifs
  · exact List.prefix_rfl
  · exact prefix_dialogsLoop stack

/-- Without a `dialogFolder` among what is handed over the loop does not depend on the stack. -/
theorem dialogsLoop_eq (stack : Nat → TlDialog)
    (h : ∀ p ∈ (dialogsLoop T onLog md (fun _ => .zero) callback i n log entries).1,
      p.1.id ≠ idDialogFolder) :
    dialogsLoop T onLog md stack callback i n log entries =
      dialogsLoop T onLog md (fun _ => .zero) callback i n log entries := by
  induction entries generalizing i n log with
  | nil => rfl
  | cons entry entries ih =>
    rw [dialogsLoop] at h
    rw [dialogsLoop, dialogsLoop]
    by_cases hid : entry.id = idDialogFolder
    · rw [dialogOf_folder hid]
      cases hmade : dialogOf T onLog md .zero entry with
      | error fault => rfl
      | ok made =>
        rw [hmade] at h
        cases made with
        | none => exact ih h
        | some d =>
          cases callback with
          | none => exact ih h
          | some f =>
            have hprefix := prefix_of_made i n log entries (fun _ => .zero) f hmade
            rw [dialogsLoop, hmade] at hprefix
            have hmem := hprefix.subset (List.mem_append_right log List.mem_cons_self)
            exact absurd hid (h (entry, d) hmem)
    · rw [dialogOf_of_ne hid (stack i) .zero]
      cases hmade : dialogOf T onLog md .zero entry with
      | error fault => rfl
      | ok made =>
        rw [hmade] at h
        cases made with
        | none => exact ih h
        | some d =>
          cases callback with
          | none => exact ih h
          | some f =>
            dsimp only at h ⊢
            split_ifs at h ⊢
            · rfl
            · exact ih h

/-- What a `dialogFolder` does not set shows what was there. -/
theorem unread_mark_of_folder {entry : Tl} {dialog : TlDialog} {d : Record}
    (h : entry.id = idDialogFolder) (hd : dialogOf T onLog md dialog entry = .ok (some d)) :
    d.int "unread_mark" = dialog.unread_mark_ := by
  rw [dialogOf_folder h] at hd
  cases hmade : dialogOf T onLog md .zero entry with
  | error fault => rw [hmade] at hd; cases hd
  | ok made =>
    rw [hmade] at hd
    cases made with
    | none => cases hd
    | some d' =>
      cases hd
      simp [TlDialog.leftover]

theorem eq_of_append_prefix {α : Type} {log rest : List α} {x y : α} (hx : log ++ [x] <+: rest)
    (hy : log ++ [y] <+: rest) : x = y := by
  have h := List.prefix_of_prefix_length_le hx hy (by simp)
  have heq := List.append_cancel_left (h.eq_of_length (by simp))
  exact List.singleton_inj.mp heq

/-- The first `dialogFolder` that is handed over is seen to differ. -/
theorem ne_folder_of_dialogsLoop {stack : Nat → TlDialog} (hmark : ∀ i, (stack i).unread_mark_ = 1)
    (h : ((dialogsLoop T onLog md stack callback i n log entries).1).map Prod.snd =
      ((dialogsLoop T onLog md (fun _ => .zero) callback i n log entries).1).map Prod.snd)
    {p : Made} (hp : p ∈ (dialogsLoop T onLog md (fun _ => .zero) callback i n log entries).1) :
    p ∈ log ∨ p.1.id ≠ idDialogFolder := by
  induction entries generalizing i n log with
  | nil => exact .inl hp
  | cons entry entries ih =>
    by_cases hid : entry.id = idDialogFolder
    · have hstack : dialogOf T onLog md (stack i) entry =
          (dialogOf T onLog md .zero entry).map (Option.map (stack i).leftover) :=
        dialogOf_folder hid (stack i)
      cases hmade : dialogOf T onLog md .zero entry with
      | error fault =>
        rw [dialogsLoop, hmade] at hp
        exact .inl hp
      | ok made =>
        rw [hmade] at hstack
        cases made with
        | none =>
          rw [dialogsLoop, hmade] at hp
          rw [dialogsLoop, dialogsLoop, hstack, hmade] at h
          exact ih h hp
        | some d =>
          cases callback with
          | none =>
            rw [dialogsLoop, hmade] at hp
            rw [dialogsLoop, dialogsLoop, hstack, hmade] at h
            exact ih h hp
          | some f =>
            -- the two structures stand in the same place, and the mark tells them apart
            have hx := (prefix_of_made i n log entries stack f hstack).map Prod.snd
            have hy := (prefix_of_made i n log entries (fun _ => .zero) f hmade).map Prod.snd
            rw [h, List.map_append] at hx
            rw [List.map_append] at hy
            have hsame := unread_mark_of_folder hid hstack
            have hd : (stack i).leftover d = d := eq_of_append_prefix hx hy
            rw [hd, unread_mark_of_folder hid hmade, hmark] at hsame
            exact absurd hsame (by decide)
    · rw [dialogsLoop] at hp
      rw [dialogsLoop, dialogsLoop, dialogOf_of_ne hid (stack i) .zero] at h
      cases hmade : dialogOf T onLog md .zero entry with
      | error fault =>
        rw [hmade] at hp
        exact .inl hp
      | ok made =>
        rw [hmade] at h hp
        cases made with
        | none => exact ih h hp
        | some d =>
          cases callback with
          | none => exact ih h hp
          | some f =>
            dsimp only at h hp
            have hentry : ∀ {q : Made}, q ∈ log ++ [(entry, d)] →
                q ∈ log ∨ q.1.id ≠ idDialogFolder := by
              intro q hq
              obtain hq | hq := List.mem_append.mp hq
              · exact .inl hq
              · rw [List.mem_singleton.mp hq]
                exact .inr hid
            split_ifs at h hp
            · exact hentry hp
            · exact (ih h hp).elim hentry .inr

end

/-! ## Two runs -/

section
variable (T : Texts) (onLog : Bool) (callback : Option (List Record → Int)) (tl : Tl)

/-- The dialogs that the callback receives. -/
def received (stack : Nat → TlDialog) : List Record :=
  (tgDialogsFromTl T onLog stack callback tl).1.map Prod.snd

/-- What is on the stack makes no difference: the callback receives the same dialogs, and they are
those that it receives where every field that is not set is zero. -/
structure DependsOnReply : Prop where
  same : ∀ stack stack', received T onLog callback tl stack = received T onLog callback tl stack'
  zero : ∀ stack, received T onLog callback tl stack = received T onLog callback tl fun _ => .zero

end

def idFolder : UInt32 := 0xff544e65

/-- A folder with a user. -/
def folderReply : Tl :=
  .object idDialogs []
    [.vector 1 [.object idDialogFolder []
      [.zero, .zero, .object idFolder [] [], .object idPeerUser [] [.long 5]]],
      .vector 0 [], .vector 0 [],
      .vector 1 [.object idUser [] (List.replicate 27 .zero ++ [.long 5])]]

end Libtg.FromTl
