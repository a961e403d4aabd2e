import Libtg.Lib.Handed
import Libtg.Lib.SqlQuery
import Libtg.Tg.Rows

/-!
# The dialogs in the database (`tg/dialogs.c`, `tg/messages.c`)

What `tg_get_dialogs_from_database` calls back with after any run of saves, marks as read and new
top messages of an account. Both updates begin with `UPDATE TABLE`, which is no statement, and the
order is by a text. So the dialogs are those of the saves alone, in the order of their first save
(`Cached`).
-/

namespace Libtg.Database

open Sql Consumer LastOf

/-! ## The calls -/

/-- What both updates begin with. -/
def updateTable : Text := bytes "UPDATE TABLE 'dialogs' SET "

/-- The text of `tg_messages_set_read`. -/
def setReadText (id : Int32) (peerId : UInt64) : Text :=
  updateTable ++ (bytes "'unread_count' = 0 WHERE 'peer_id' = " ++ (intText (ld peerId) ++
    (bytes " AND id = " ++ (intText id.toInt ++ bytes ";"))))

/-- The text of `tg_dialog_set_top_message`. -/
def setTopMessageText (id : Int32) (peerId : UInt64) (msgId : UInt32) (msg : CString) : Text :=
  updateTable ++ (bytes "top_message_id = " ++ (intText (d msgId.toUInt64) ++
    (bytes ", 'top_message_text' = " ++ (msg.bytes ++ (bytes "WHERE 'peer_id' = " ++
      (intText (ld peerId) ++ (bytes " AND id = " ++ (intText id.toInt ++ bytes ";"))))))))

/-- A call of `tg_dialog_to_database`, `tg_messages_set_read` or `tg_dialog_set_top_message`. The
texts of a dialog that is saved have no quotes. -/
inductive CacheCall where
  | save (m : Record) (plain : dialogs.Plain m)
  | setRead (peerId : UInt64)
  | setTopMessage (peerId : UInt64) (msgId : UInt32) (msg : CString)

/-- The results are only reported, or returned to a caller that does not look at them. -/
def CacheCall.run (A : Affinity) (id : Int32) (db : Db) : CacheCall → Db
  | save m _ => Save.run A db ⟨id, .dialog, m⟩
  | setRead peerId => (exec A db (setReadText id peerId)).1
  | setTopMessage peerId msgId msg => (exec A db (setTopMessageText id peerId msgId msg)).1

def runCalls (A : Affinity) (id : Int32) (calls : List CacheCall) : Db :=
  calls.foldl (CacheCall.run A id) (databaseInit A)

/-- The query of `tg_get_dialogs_from_database`. -/
def dialogsQuery (id : Int32) : Text :=
  printQuery (tgDialogArgs.map fun a => bytes a.name) (bytes "id") (bytes "dialogs") (bytes "id")
    id.toInt (bytes "top_message_date")

/-- The dialogs of its rows. -/
def queriedDialogs (id : Int32) (db : Db) : List Record :=
  ((execQuery db (dialogsQuery id)).getD []).map dialogs.record

/-- `tg_get_dialogs_from_database`: what the callback receives. Its answer depends on what it has
received. -/
def calledBack (id : Int32) (db : Db) (callback : List Record → Int) : List Record :=
  handed (fun log => callback log ≠ 0) [] (queriedDialogs id db)

example : dialogsQuery 7 = bytes ("SELECT name, pinned, unread_mark, top_message_id, "
      ++ "top_message_from_peer_type, top_message_from_peer_id, top_message_date, "
      ++ "top_message_text, read_inbox_max_id, read_outbox_max_id, unread_count, "
      ++ "unread_mentions_count, unread_reactions_count, folder_id, silent, mute_until, peer_type, "
      ++ "peer_id, photo_id, thumb, access_hash, broadcat, id FROM dialogs WHERE id = 7 "
      ++ "ORDER BY 'top_message_date' DESC;") := by decide +kernel

/-! ## What is asked for -/

/-- The dialog that a call saves for this peer. -/
def CacheCall.savedFor (p : UInt64) : CacheCall → Option Record
  | save m _ => if m.int "peer_id" = p then some m else none
  | _ => none

section
variable (calls : List CacheCall) (p : UInt64)

def lastSave : Option Record := lastOf (CacheCall.savedFor p) calls

/-- The last text that is not `NULL`. -/
def lastText (n : String) : Option CString :=
  lastOf (fun c => (c.savedFor p).bind fun m => m.str n) calls

/-- The peer was marked as read after its last save. -/
def readSince : Bool :=
  (lastOf (fun
    | .save m _ => if m.int "peer_id" = p then some false else none
    | .setRead q => if q = p then some true else none
    | .setTopMessage _ _ _ => none) calls).getD false

/-- The last top message after the last save of the peer. -/
def topSince : Option (UInt32 × CString) :=
  (lastOf (fun
    | .save m _ => if m.int "peer_id" = p then some none else none
    | .setRead _ => none
    | .setTopMessage q msgId msg => if q = p then some (some (msgId, msg)) else none) calls).join

/-- The dialog as it was last saved. -/
def saved : Record := (lastSave calls p).getD zero

/-- A number as its field holds it. -/
def savedInt (a : Arg) : UInt64 := a.t.cast ((saved calls p).int a.n)

/-- A text as it was last saved; there may be none. -/
def savedText (n : String) : Text := ((lastText calls p n).map CString.bytes).getD []

/-- The number that the dialog is to have. -/
def expectedInt (a : Arg) : UInt64 :=
  if a.n = "unread_count" ∧ readSince calls p then 0
  else if a.n = "top_message_id" then
    ((topSince calls p).map fun top => top.1.toUInt64).getD (savedInt calls p a)
  else savedInt calls p a

/-- The text that the dialog is to have. -/
def expectedText (n : String) : Text :=
  if n = "top_message_text" then
    ((topSince calls p).map fun top => top.2.bytes).getD (savedText calls p n)
  else savedText calls p n

end

/-- These are all dialogs, each of them once and with what was stored, the newest first. -/
structure Answers (calls : List CacheCall) (ds : List Record) : Prop where
  once : (ds.map fun d => d.int "peer_id").Nodup
  stored : ∀ p, p ∈ ds.map (fun d => d.int "peer_id") ↔ (lastSave calls p).isSome
  int : ∀ d ∈ ds, ∀ a ∈ tgDialogArgs, a.isText = false →
    d.int a.n = expectedInt calls (d.int "peer_id") a
  str : ∀ d ∈ ds, ∀ a ∈ tgDialogArgs, a.isText →
    ((d.str a.n).map CString.bytes).getD [] = expectedText calls (d.int "peer_id") a.n
  newest : ds.Pairwise fun d d' => d'.int "top_message_date" ≤ d.int "top_message_date"

/-- The callback receives the dialogs until it asks to stop. -/
def CacheAnswers (A : Affinity) (id : Int32) (calls : List CacheCall) : Prop :=
  ∃ ds, Answers calls ds ∧ ∀ callback : List Record → Int,
    calledBack id (runCalls A id calls) callback = handed (fun log => callback log ≠ 0) [] ds

/-- The peers in the order of their first save. -/
def peers (calls : List CacheCall) : List UInt64 :=
  calls.foldl (fun
    | ps, .save m _ => if m.int "peer_id" ∈ ps then ps else ps ++ [m.int "peer_id"]
    | ps, _ => ps) []

/-- No update after the last save of a peer would change its dialog, and the peers were first saved
in the order of the dates that they have in the end. -/
structure Undisturbed (calls : List CacheCall) : Prop where
  read : ∀ p ∈ peers calls, readSince calls p → ((saved calls p).int "unread_count").toUInt32 = 0
  top : ∀ p ∈ peers calls, ∀ msgId msg, topSince calls p = some (msgId, msg) →
    ((saved calls p).int "top_message_id").toUInt32 = msgId ∧
      savedText calls p "top_message_text" = msg.bytes
  ordered : (peers calls).Pairwise fun p q => ((saved calls q).int "top_message_date").toUInt32 ≤
    ((saved calls p).int "top_message_date").toUInt32

/-! ## The texts -/

section
variable {A : Affinity} {id : Int32} {db : Db}

/-- Such an update is no statement. -/
theorem exec_updateTable (b : Text) : exec A db (updateTable ++ b) = (db, false) := by
  have hscan : scan .ready updateTable = ([.word (bytes "UPDATE"), .word (bytes "TABLE"),
      .quoted (bytes "dialogs"), .word (bytes "SET")], .ready) := by decide
  have hnone (ts : List Token) : stmt (.word (bytes "UPDATE") :: .word (bytes "TABLE") ::
      .quoted (bytes "dialogs") :: ts) = none := by
    rw [stmt_update]
    rfl
  rw [exec, lex, lexFrom_append hscan]
  simp only [List.cons_append, List.length_cons, execTokens, hnone]

theorem queriedDialogs_eq (id : Int32) (db : Db) :
    queriedDialogs id db = tgGetDialogsFromDatabase id db := by
  have hcols : ∀ c ∈ tgDialogArgs.map fun a => bytes a.name, IsName c := by
    intro c hc
    obtain ⟨a, ha, rfl⟩ := List.mem_map.mp hc
    exact dialogs.args_name a ha
  have hquery : query (lex (dialogsQuery id)) =
      some (⟨((tgDialogArgs.map fun a => bytes a.name) ++ [bytes "id"]).map .column,
        bytes "dialogs", ⟨bytes "id", id.toInt⟩, .text (bytes "top_message_date")⟩, []) :=
    query_printQuery hcols (by decide +kernel) (by decide +kernel) (by decide +kernel)
      (by decide +kernel) (int32_int64 id)
  rw [queriedDialogs, execQuery, hquery]
  dsimp only
  rw [runQuery_text]
  rfl

end

/-! ## The table -/

/-- What the row of a peer holds. -/
structure HoldsRow (id : Int32) (calls : List CacheCall) (p : UInt64) (r : Row) : Prop where
  id : r (bytes "id") = .int id.toInt
  int : ∀ a ∈ tgDialogArgs, a.isText = false →
    r (bytes a.name) = .int (ld ((saved calls p).int a.n))
  str : ∀ a ∈ tgDialogArgs, a.isText →
    r (bytes a.name) = (lastText calls p a.n).elim .null fun c => .text c.bytes

/-- The table has a row for each peer, in the order of their first save. -/
structure Cached (id : Int32) (calls : List CacheCall) (t : Table) : Prop where
  ready : dialogs.Ready t
  cols : t.cols = dialogs.created.cols
  keys : t.rows.map (fun r => r (bytes "peer_id")) = (peers calls).map fun p => .int (ld p)
  rows : ∀ r ∈ t.rows, ∀ p, r (bytes "peer_id") = .int (ld p) → HoldsRow id calls p r

theorem args_inj : ∀ a ∈ tgDialogArgs, ∀ b ∈ tgDialogArgs, a.name = b.name → a = b := by
  decide +kernel

/-- Every field is printed, a text as a text and a number as a number. -/
theorem args_printer : ∀ a ∈ tgDialogArgs, a.ifmin = 0 ∧
    (a.printer = .str ∧ a.type = "TEXT" ∨ a.printer = .arg ∧ a.type = "INT") := by
  decide +kernel

theorem created_type : ∀ a ∈ tgDialogArgs,
    (dialogs.created.column (bytes a.name)).map Column.type = some (bytes a.type) := by
  decide +kernel

section
variable {A : Affinity} {id : Int32} {calls calls' : List CacheCall} {c : CacheCall} {m : Record}
  {t : Table} {p : UInt64} {r : Row} {db : Db}

theorem HoldsRow.congr (h : HoldsRow id calls p r) (hsaved : saved calls' p = saved calls p)
    (htext : ∀ n, lastText calls' p n = lastText calls p n) : HoldsRow id calls' p r where
  id := h.id
  int a ha hint := by rw [hsaved, h.int a ha hint]
  str a ha hstr := by rw [htext, h.str a ha hstr]

/-- What is saved for other peers changes nothing. -/
theorem saved_append_of_none (h : c.savedFor p = none) :
    saved (calls ++ [c]) p = saved calls p := by
  rw [saved, lastSave, lastOf_append, h]
  rfl

theorem lastText_append_of_none (h : c.savedFor p = none) (n : String) :
    lastText (calls ++ [c]) p n = lastText calls p n := by
  rw [lastText, lastOf_append, h]
  rfl

theorem peers_append_save (plain : dialogs.Plain m) : peers (calls ++ [.save m plain]) =
    if m.int "peer_id" ∈ peers calls then peers calls else peers calls ++ [m.int "peer_id"] := by
  rw [peers, List.foldl_append]
  rfl

theorem peers_append_setRead (q : UInt64) : peers (calls ++ [.setRead q]) = peers calls := by
  rw [peers, List.foldl_append]
  rfl

theorem peers_append_setTopMessage (q : UInt64) (msgId : UInt32) (msg : CString) :
    peers (calls ++ [.setTopMessage q msgId msg]) = peers calls := by
  rw [peers, List.foldl_append]
  rfl

/-- The peers are those that have been saved. -/
theorem mem_peers : p ∈ peers calls ↔ (lastSave calls p).isSome := by
  induction calls using List.reverseRecOn with
  | nil => exact iff_of_false List.not_mem_nil Bool.false_ne_true
  | append_singleton calls c ih =>
    rw [lastSave, lastOf_append, Option.isSome_or, Bool.or_eq_true, ← lastSave, ← ih]
    cases c with
    | save m plain =>
      rw [peers_append_save, CacheCall.savedFor]
      split_ifs with hmem hp hp
      · exact iff_of_true (hp ▸ hmem) (.inl rfl)
      · exact (or_iff_right (Bool.false_ne_true)).symm
      · exact iff_of_true (hp ▸ List.mem_append_right _ List.mem_cons_self) (.inl rfl)
      · rw [List.mem_append, List.mem_singleton]
        exact or_comm.trans (or_congr_left (iff_of_false (Ne.symm hp) Bool.false_ne_true))
    | setRead q =>
      rw [peers_append_setRead]
      exact (or_iff_right Bool.false_ne_true).symm
    | setTopMessage q msgId msg =>
      rw [peers_append_setTopMessage]
      exact (or_iff_right Bool.false_ne_true).symm

theorem lastText_of_notMem (h : p ∉ peers calls) (n : String) : lastText calls p n = none := by
  rw [← Option.not_isSome_iff_eq_none, lastText, lastOf_isSome_iff]
  rintro ⟨c, hc, hsome⟩
  refine h (mem_peers.mpr (lastOf_isSome_iff.mpr ⟨c, hc, ?_⟩))
  cases hsaved : c.savedFor p with
  | none => rw [hsaved] at hsome; cases hsome
  | some m => rfl

/-! ## A save -/

/-- What a column of a field is set to is what is set for the field. -/
theorem assign_of_mem_sets {a : Arg} (ha : a ∈ tgDialogArgs) {x : Text × Value}
    (hx : x ∈ dialogs.sets id m) (hname : x.1 = bytes a.name) : a.assign true m = some x := by
  rcases List.mem_append.mp hx with hx | hx
  · obtain ⟨b, hb, hassign⟩ := mem_assigns.mp hx
    have hsame := bytes_inj ((assign_eq hassign).1.symm.trans hname)
    rwa [args_inj b hb a ha hsame] at hassign
  · rw [List.mem_singleton.mp hx] at hname
    exact absurd (bytes_inj hname).symm (dialogs.args_id a ha)

theorem set_of_assign {a : Arg} (ha : a ∈ tgDialogArgs) {v : Value}
    (hassign : a.assign true m = some (bytes a.name, v)) (r : Row) :
    t.set A (dialogs.sets id m) r (bytes a.name) = t.store A (bytes a.name) v := by
  refine Table.set_of_mem ?_ ?_ r
  · exact ⟨_, List.mem_append_left _ (mem_assigns.mpr ⟨a, ha, hassign⟩), rfl⟩
  · intro x hx hname
    cases (assign_of_mem_sets ha hx hname).symm.trans hassign
    rfl

theorem Cached.column (h : Cached id calls t) {a : Arg} (ha : a ∈ tgDialogArgs) :
    ∃ c, t.column (bytes a.name) = some c ∧ c.type = bytes a.type := by
  have hcreated := created_type a ha
  rw [Table.column, h.cols, ← Table.column]
  exact Option.map_eq_some_iff.mp hcreated

/-- A number that is set is in its column. -/
theorem Cached.set_int (h : Cached id calls t) {a : Arg} (ha : a ∈ tgDialogArgs)
    (hint : a.isText = false) (r : Row) :
    t.set A (dialogs.sets id m) r (bytes a.name) = .int (ld (m.int a.n)) := by
  obtain ⟨hifmin, ⟨hprinter, -⟩ | ⟨hprinter, htype⟩⟩ := args_printer a ha
  · simp [Arg.isText, hprinter] at hint
  · have hassign : a.assign true m = some (bytes a.name, .int (ld (m.int a.n))) := by
      simp [Arg.assign, hprinter, hifmin]
    obtain ⟨c, hc, hctype⟩ := h.column ha
    rw [set_of_assign ha hassign]
    exact Table.HasInt.store ⟨c, hc, by rw [hctype, htype]⟩ (ld_int64 _)

/-- So is a text. -/
theorem Cached.set_str (h : Cached id calls t) {a : Arg} (ha : a ∈ tgDialogArgs)
    (htext : a.isText) {u : CString} (hu : m.str a.n = some u) (r : Row) :
    t.set A (dialogs.sets id m) r (bytes a.name) = .text u.bytes := by
  obtain ⟨-, ⟨hprinter, htype⟩ | ⟨hprinter, -⟩⟩ := args_printer a ha
  · have hassign : a.assign true m = some (bytes a.name, .text u.bytes) := by
      simp [Arg.assign, hprinter, hu]
    obtain ⟨c, hc, hctype⟩ := h.column ha
    rw [set_of_assign ha hassign, Table.store, hc, Option.elim_some, hctype, htype, A.text]
  · simp [Arg.isText, hprinter] at htext

/-- A text that is not there leaves its column. -/
theorem set_of_no_text {a : Arg} (ha : a ∈ tgDialogArgs) (htext : a.isText)
    (hnone : m.str a.n = none) (r : Row) :
    t.set A (dialogs.sets id m) r (bytes a.name) = r (bytes a.name) := by
  refine Table.set_of_ne (fun x hx hname => ?_) r
  have hassign := assign_of_mem_sets ha hx hname
  obtain ⟨-, ⟨hint, -⟩ | ⟨-, c, hc, -⟩⟩ := assign_eq hassign
  · rw [htext] at hint
    cases hint
  · rw [hnone] at hc
    cases hc

theorem saved_append_save (plain : dialogs.Plain m) :
    saved (calls ++ [.save m plain]) (m.int "peer_id") = m := by
  rw [saved, lastSave, lastOf_append, CacheCall.savedFor, if_pos rfl]
  rfl

theorem lastText_append_save (plain : dialogs.Plain m) (n : String) :
    lastText (calls ++ [.save m plain]) (m.int "peer_id") n =
      (m.str n).or (lastText calls (m.int "peer_id") n) := by
  rw [lastText, lastOf_append, CacheCall.savedFor, if_pos rfl]
  rfl

/-- The peers that have been saved are those that have a row. -/
theorem Cached.any_iff (h : Cached id calls t) :
    t.rows.any (Cond.holds ⟨bytes "peer_id", ld p⟩) ↔ p ∈ peers calls := by
  have hinj : Function.Injective fun q : UInt64 => Value.int (ld q) := by
    intro q q' heq
    exact ld_inj.mp (Value.int.inj heq)
  calc t.rows.any (Cond.holds ⟨bytes "peer_id", ld p⟩) = true
    _ ↔ Value.int (ld p) ∈ t.rows.map fun r => r (bytes "peer_id") := by
        simp [Cond.holds, List.any_eq_true]
    _ ↔ Value.int (ld p) ∈ (peers calls).map fun q => Value.int (ld q) := by rw [h.keys]
    _ ↔ p ∈ peers calls := List.mem_map_of_injective hinj

/-- A row that is there is what the table holds of its peer, and a new one has no text. -/
theorem Cached.text_addRow (h : Cached id calls t)
    (hr : r ∈ addRow (bytes "peer_id") (ld p) t.rows) (hkey : r (bytes "peer_id") = .int (ld p))
    {a : Arg} (ha : a ∈ tgDialogArgs) (htext : a.isText) :
    r (bytes a.name) = (lastText calls p a.n).elim .null fun c => .text c.bytes := by
  rw [addRow] at hr
  split_ifs at hr with hany
  · exact (h.rows r hr p hkey).str a ha htext
  · rcases List.mem_append.mp hr with hr | hr
    · exact (h.rows r hr p hkey).str a ha htext
    · have hne : bytes a.name ≠ bytes "peer_id" := by
        intro hname
        have hfalse := (dialogs.args_key a ha (bytes_inj hname)).1
        rw [htext] at hfalse
        cases hfalse
      rw [List.mem_singleton.mp hr, newRow, Function.update_of_ne hne,
        lastText_of_notMem fun hmem => hany (h.any_iff.mpr hmem)]
      rfl

/-- The row of the peer that is saved. -/
theorem Cached.holds_set (h : Cached id calls t) (plain : dialogs.Plain m)
    (hr : r ∈ addRow (bytes "peer_id") (ld (m.int "peer_id")) t.rows)
    (hkey : r (bytes "peer_id") = .int (ld (m.int "peer_id"))) :
    HoldsRow id (calls ++ [.save m plain]) (m.int "peer_id") (t.set A (dialogs.sets id m) r) where
  id := h.ready.set_id r
  int a ha hint := by rw [h.set_int ha hint, saved_append_save]
  str a ha htext := by
    rw [lastText_append_save]
    cases hu : m.str a.n with
    | none => rw [set_of_no_text ha htext hu, h.text_addRow hr hkey ha htext, Option.none_or]
    | some u =>
      rw [h.set_str ha htext hu]
      rfl

theorem Cached.save (h : Cached id calls t) (plain : dialogs.Plain m) :
    Cached id (calls ++ [.save m plain]) (dialogs.put A id m t) where
  ready := h.ready.put
  cols := h.cols
  keys := by
    have hkeys : (dialogs.put A id m t).rows.map (fun r => r (bytes "peer_id")) =
        (addRow (bytes "peer_id") (ld (m.int "peer_id")) t.rows).map fun r => r (bytes "peer_id") :=
      putRow_keys fun r hr => h.ready.set_key hr
    rw [hkeys, addRow, peers_append_save]
    by_cases hmem : m.int "peer_id" ∈ peers calls
    · rw [if_pos hmem, if_pos (h.any_iff.mpr hmem), h.keys]
    · rw [if_neg hmem, if_neg fun hany => hmem (h.any_iff.mp hany), List.map_append, h.keys,
        List.map_append, List.map_singleton, List.map_singleton, newRow, Function.update_self]
  rows := by
    intro r hr p hkey
    obtain ⟨r, hadd, rfl⟩ := List.mem_map.mp hr
    have hset (r : Row) (hr : r (bytes "peer_id") = .int (ld (m.int "peer_id"))) :
        t.set A (dialogs.sets id m) r (bytes "peer_id") = .int (ld (m.int "peer_id")) :=
      h.ready.set_key hr
    by_cases hown : r (bytes "peer_id") = .int (ld (m.int "peer_id"))
    · have hholds : Cond.holds ⟨bytes dialogs.key, dialogs.keyOf m⟩ r := decide_eq_true hown
      rw [if_pos hholds, hset r hown] at hkey
      cases ld_inj.mp (Value.int.inj hkey)
      rw [if_pos hholds]
      exact h.holds_set plain hadd hown
    · have hholds : ¬ Cond.holds ⟨bytes dialogs.key, dialogs.keyOf m⟩ r :=
        fun hholds => hown (of_decide_eq_true hholds)
      rw [if_neg hholds] at hkey ⊢
      have hne : m.int "peer_id" ≠ p := fun heq => hown (heq ▸ hkey)
      have hother : (CacheCall.save m plain).savedFor p = none := if_neg hne
      have hmem := mem_of_addRow hadd hown
      exact (h.rows r hmem p hkey).congr (saved_append_of_none hother)
        (lastText_append_of_none hother)

/-! ## A run -/

theorem Cached.setRead (h : Cached id calls t) (q : UInt64) :
    Cached id (calls ++ [.setRead q]) t where
  ready := h.ready
  cols := h.cols
  keys := by rw [h.keys, peers_append_setRead]
  rows r hr p hkey :=
    (h.rows r hr p hkey).congr (saved_append_of_none rfl) (lastText_append_of_none rfl)

theorem Cached.setTopMessage (h : Cached id calls t) (q : UInt64) (msgId : UInt32) (msg : CString) :
    Cached id (calls ++ [.setTopMessage q msgId msg]) t where
  ready := h.ready
  cols := h.cols
  keys := by rw [h.keys, peers_append_setTopMessage]
  rows r hr p hkey :=
    (h.rows r hr p hkey).congr (saved_append_of_none rfl) (lastText_append_of_none rfl)

theorem runCalls_append (c : CacheCall) :
    runCalls A id (calls ++ [c]) = c.run A id (runCalls A id calls) := by
  rw [runCalls, List.foldl_append]
  rfl

/-- After any run the table is what the saves make of it. -/
theorem runCalls_cached (A : Affinity) (id : Int32) (calls : List CacheCall) :
    ∃ t, runCalls A id calls (bytes "dialogs") = some t ∧ Cached id calls t := by
  induction calls using List.reverseRecOn with
  | nil =>
    have htable : databaseInit A (bytes "dialogs") = some dialogs.created :=
      databaseInit_table A .dialog
    rw [runCalls, List.foldl_nil]
    exact ⟨dialogs.created, htable, created_ready dialogs, rfl, rfl,
      fun r hr => absurd hr List.not_mem_nil⟩
  | append_singleton calls c ih =>
    obtain ⟨t, htable, h⟩ := ih
    rw [runCalls_append]
    cases c with
    | save m plain =>
      have hrun : CacheCall.run A id (runCalls A id calls) (.save m plain) =
          Function.update (runCalls A id calls) (bytes "dialogs") (some (dialogs.put A id m t)) :=
        Save.run_eq (c := ⟨id, .dialog, m⟩) plain htable h.ready
      refine ⟨dialogs.put A id m t, ?_, h.save plain⟩
      rw [hrun, Function.update_self]
    | setRead q =>
      have hrun : CacheCall.run A id (runCalls A id calls) (.setRead q) = runCalls A id calls :=
        congrArg Prod.fst (exec_updateTable _)
      rw [hrun]
      exact ⟨t, htable, h.setRead q⟩
    | setTopMessage q msgId msg =>
      have hrun : CacheCall.run A id (runCalls A id calls) (.setTopMessage q msgId msg) =
          runCalls A id calls := congrArg Prod.fst (exec_updateTable _)
      rw [hrun]
      exact ⟨t, htable, h.setTopMessage q msgId msg⟩

/-! ## Reading back -/

/-- The row as it is selected. -/
def cells (r : Row) : List Value :=
  (tgDialogArgs.map (fun a => bytes a.name) ++ [bytes "id"]).map r

/-- The dialog of a row. -/
def shown (r : Row) : Record := dialogs.record (cells r)

theorem dialogs_nodup : (dialogs.args.map Arg.n).Nodup := by decide +kernel

theorem shown_int {a : Arg} (ha : a ∈ tgDialogArgs) (hint : a.isText = false) (r : Row) :
    (shown r).int a.n = a.t.cast (UInt64.ofInt (columnInt64 (r (bytes a.name)))) :=
  record_int dialogs_nodup ha hint r

theorem shown_str {a : Arg} (ha : a ∈ tgDialogArgs) (htext : a.isText) (r : Row) :
    (shown r).str a.n = some (.ofText ((columnText (r (bytes a.name))).getD [])) :=
  record_str dialogs_nodup ha htext r

/-- The dialogs are those of the saves, and no update is seen. -/
structure Shows (calls : List CacheCall) (ds : List Record) : Prop where
  order : ds.map (fun d => d.int "peer_id") = peers calls
  int : ∀ d ∈ ds, ∀ a ∈ tgDialogArgs, a.isText = false →
    d.int a.n = savedInt calls (d.int "peer_id") a
  str : ∀ d ∈ ds, ∀ a ∈ tgDialogArgs, a.isText →
    ((d.str a.n).map CString.bytes).getD [] = savedText calls (d.int "peer_id") a.n

theorem shown_peer (hkey : r (bytes "peer_id") = .int (ld p)) : (shown r).int "peer_id" = p := by
  obtain ⟨a, ha, hn, hname, hint, ht⟩ : ∃ a ∈ tgDialogArgs, a.n = "peer_id" ∧ a.name = "peer_id" ∧
    a.isText = false ∧ a.t = .uint64 := by decide +kernel
  rw [← hn, shown_int ha hint, hname, hkey, ht]
  exact ofInt_ld p

/-- The row of a peer shows what it holds. -/
theorem HoldsRow.int_shown (h : HoldsRow id calls p r) {a : Arg} (ha : a ∈ tgDialogArgs)
    (hint : a.isText = false) : (shown r).int a.n = savedInt calls p a := by
  rw [shown_int ha hint, h.int a ha hint, savedInt]
  exact congrArg a.t.cast (ofInt_ld _)

theorem HoldsRow.str_shown (h : HoldsRow id calls p r) {a : Arg} (ha : a ∈ tgDialogArgs)
    (htext : a.isText) :
    (((shown r).str a.n).map CString.bytes).getD [] = savedText calls p a.n := by
  rw [shown_str ha htext, h.str a ha htext, savedText]
  cases lastText calls p a.n with
  | none => rfl
  | some u => exact congrArg CString.bytes (ofText_bytes u)

/-- Each row is the one of a peer. -/
theorem Cached.peer_of_mem (h : Cached id calls t) (hr : r ∈ t.rows) :
    ∃ p, r (bytes "peer_id") = .int (ld p) ∧ HoldsRow id calls p r := by
  have hmem : r (bytes "peer_id") ∈ t.rows.map fun r => r (bytes "peer_id") :=
    List.mem_map_of_mem hr
  rw [h.keys] at hmem
  obtain ⟨p, -, hkey⟩ := List.mem_map.mp hmem
  exact ⟨p, hkey.symm, h.rows r hr p hkey.symm⟩

theorem Cached.shows (h : Cached id calls t) : Shows calls (t.rows.map shown) where
  order := by
    have hkeys := congrArg (List.map fun v => UInt64.ofInt (columnInt64 v)) h.keys
    have hpeers : (peers calls).map (fun p => UInt64.ofInt (ld p)) = peers calls := by
      simp only [ofInt_ld, List.map_id']
    rw [List.map_map, List.map_map] at hkeys
    rw [List.map_map, ← hpeers]
    refine Eq.trans (List.map_congr_left fun r hr => ?_) hkeys
    obtain ⟨p, hkey, -⟩ := h.peer_of_mem hr
    show (shown r).int "peer_id" = UInt64.ofInt (columnInt64 (r (bytes "peer_id")))
    rw [shown_peer hkey, hkey]
    exact (ofInt_ld p).symm
  int d hd a ha hint := by
    obtain ⟨r, hr, rfl⟩ := List.mem_map.mp hd
    obtain ⟨p, hkey, hholds⟩ := h.peer_of_mem hr
    rw [shown_peer hkey, hholds.int_shown ha hint]
  str d hd a ha htext := by
    obtain ⟨r, hr, rfl⟩ := List.mem_map.mp hd
    obtain ⟨p, hkey, hholds⟩ := h.peer_of_mem hr
    rw [shown_peer hkey, hholds.str_shown ha htext]

/-- All rows are the account's. -/
theorem Cached.queriedDialogs_eq (h : Cached id calls t) (htable : db (bytes "dialogs") = some t) :
    queriedDialogs id db = t.rows.map shown := by
  have hselect : dialogs.select id [] db = (t.rows.filter fun r =>
      Cond.holds ⟨bytes "id", id.toInt⟩ r && [].all fun c => Cond.holds c r).map cells :=
    h.ready.select_eq htable rfl
  have hall : (t.rows.filter fun r => Cond.holds ⟨bytes "id", id.toInt⟩ r &&
      [].all fun c => Cond.holds c r) = t.rows := by
    refine List.filter_eq_self.mpr fun r hr => ?_
    obtain ⟨p, -, hholds⟩ := h.peer_of_mem hr
    exact (Bool.and_true _).trans (decide_eq_true hholds.id)
  rw [Database.queriedDialogs_eq, tgGetDialogsFromDatabase, hselect, hall, List.map_map]
  rfl

/-- After any run the dialogs are those of the saves, in the order of their first save. -/
theorem shows_queriedDialogs (A : Affinity) (id : Int32) (calls : List CacheCall) :
    Shows calls (queriedDialogs id (runCalls A id calls)) := by
  obtain ⟨t, htable, h⟩ := runCalls_cached A id calls
  rw [h.queriedDialogs_eq htable]
  exact h.shows

/-! ## When the cache answers -/

variable {ds : List Record}

theorem nodup_peers (calls : List CacheCall) : (peers calls).Nodup := by
  induction calls using List.reverseRecOn with
  | nil => exact List.nodup_nil
  | append_singleton calls c ih =>
    cases c with
    | save m plain =>
      rw [peers_append_save]
      split_ifs with hmem
      · exact ih
      · exact List.nodup_append_comm.mp (List.nodup_cons.mpr ⟨hmem, ih⟩)
    | setRead q => rwa [peers_append_setRead]
    | setTopMessage q msgId msg => rwa [peers_append_setTopMessage]

/-- The numbers that the updates and the order are about. -/
theorem args_uint32 : ∀ n ∈ ["unread_count", "top_message_id", "top_message_date"],
    ∃ a ∈ tgDialogArgs, a.n = n ∧ a.isText = false ∧ a.t = .uint32 := by
  decide +kernel

/-- Such a number is the one that was saved. -/
theorem savedInt_uint32 {a : Arg} (ha : a ∈ tgDialogArgs)
    (hn : a.n ∈ ["unread_count", "top_message_id", "top_message_date"]) :
    savedInt calls p a = ((saved calls p).int a.n).toUInt32.toUInt64 := by
  obtain ⟨b, hb, hbn, -, ht⟩ := args_uint32 a.n hn
  rw [List.inj_on_of_nodup_map dialogs_nodup hb ha hbn] at ht
  rw [savedInt, ht]
  rfl

theorem Shows.uint32 (h : Shows calls ds) {d : Record} (hd : d ∈ ds) {n : String}
    (hn : n ∈ ["unread_count", "top_message_id", "top_message_date"]) :
    d.int n = ((saved calls (d.int "peer_id")).int n).toUInt32.toUInt64 := by
  obtain ⟨a, ha, rfl, hint, -⟩ := args_uint32 n hn
  rw [h.int d hd a ha hint, savedInt_uint32 ha hn]

/-- A peer that was saved has a dialog. -/
theorem Shows.exists_of_mem (h : Shows calls ds) (hp : p ∈ peers calls) :
    ∃ d ∈ ds, d.int "peer_id" = p := by
  rw [← h.order] at hp
  exact List.mem_map.mp hp

theorem Shows.peer_mem (h : Shows calls ds) {d : Record} (hd : d ∈ ds) :
    d.int "peer_id" ∈ peers calls := h.order ▸ List.mem_map_of_mem hd

/-- The order of the dialogs is that of their peers. -/
theorem Shows.newest_iff (h : Shows calls ds) :
    ds.Pairwise (fun d d' => d'.int "top_message_date" ≤ d.int "top_message_date") ↔
      (peers calls).Pairwise fun p q => ((saved calls q).int "top_message_date").toUInt32 ≤
        ((saved calls p).int "top_message_date").toUInt32 := by
  rw [← h.order, List.pairwise_map]
  refine List.Pairwise.iff_of_mem fun {d d'} hd hd' => ?_
  rw [h.uint32 hd (by decide), h.uint32 hd' (by decide)]
  exact UInt32.toUInt64_le

theorem Shows.undisturbed (h : Shows calls ds) (hanswers : Answers calls ds) :
    Undisturbed calls where
  read p hp hread := by
    obtain ⟨d, hd, rfl⟩ := h.exists_of_mem hp
    obtain ⟨a, ha, hn, hint, -⟩ := args_uint32 "unread_count" (by decide)
    have hzero := hanswers.int d hd a ha hint
    rw [expectedInt, if_pos ⟨hn, hread⟩, hn, h.uint32 hd (by decide)] at hzero
    exact UInt32.toUInt64_inj.mp hzero
  top p hp msgId msg htop := by
    obtain ⟨d, hd, rfl⟩ := h.exists_of_mem hp
    obtain ⟨a, ha, hn, hint, -⟩ := args_uint32 "top_message_id" (by decide)
    obtain ⟨b, hb, hbn, htext⟩ : ∃ b ∈ tgDialogArgs, b.n = "top_message_text" ∧ b.isText := by
      decide +kernel
    constructor
    · have hid := hanswers.int d hd a ha hint
      have hne : ¬ (a.n = "unread_count" ∧ readSince calls (d.int "peer_id") = true) := by
        rw [hn]
        exact fun hand => absurd hand.1 (by decide)
      rw [expectedInt, if_neg hne, if_pos hn, htop, hn, h.uint32 hd (by decide)] at hid
      exact UInt32.toUInt64_inj.mp hid
    · have hstr := hanswers.str d hd b hb htext
      rw [h.str d hd b hb htext, hbn, expectedText, if_pos rfl, htop] at hstr
      exact hstr
  ordered := h.newest_iff.mp hanswers.newest

theorem Shows.answers (h : Shows calls ds) (hund : Undisturbed calls) : Answers calls ds where
  once := by
    rw [h.order]
    exact nodup_peers calls
  stored p := by
    rw [h.order]
    exact mem_peers
  int d hd a ha hint := by
    rw [h.int d hd a ha hint, expectedInt]
    split_ifs with hread htop
    · rw [savedInt_uint32 ha (by rw [hread.1]; decide), hread.1,
        hund.read _ (h.peer_mem hd) hread.2]
      rfl
    · cases hlast : topSince calls (d.int "peer_id") with
      | none => rfl
      | some top =>
        obtain ⟨hid, -⟩ := hund.top _ (h.peer_mem hd) top.1 top.2 hlast
        rw [savedInt_uint32 ha (by rw [htop]; decide), htop, hid]
        rfl
    · rfl
  str d hd a ha htext := by
    rw [h.str d hd a ha htext, expectedText]
    split_ifs with htop
    · cases hlast : topSince calls (d.int "peer_id") with
      | none => rfl
      | some top =>
        rw [htop]
        exact (hund.top _ (h.peer_mem hd) top.1 top.2 hlast).2
    · rfl
  newest := h.newest_iff.mpr hund.ordered

/-- What a callback receives that never stops is all there is. -/
theorem cacheAnswers_iff_answers : CacheAnswers A id calls ↔
    Answers calls (queriedDialogs id (runCalls A id calls)) := by
  constructor
  · rintro ⟨ds, hanswers, hcalled⟩
    have hall (xs : List Record) :
        handed (fun log => (fun _ => 0 : List Record → Int) log ≠ 0) [] xs = xs :=
      handed_of_takesAll (takesAll_of_forall (fun _ => rfl) [] xs)
    have h := hcalled fun _ => 0
    rw [calledBack, hall, hall] at h
    rwa [h]
  · exact fun h => ⟨_, h, fun callback => rfl⟩

end

/-- The cache answers with what was last stored if and only if no update would change anything and
the dialogs were first saved in the order that they are to have. -/
theorem cacheAnswers_iff (A : Affinity) (id : Int32) (calls : List CacheCall) :
    CacheAnswers A id calls ↔ Undisturbed calls := by
  have h := shows_queriedDialogs A id calls
  rw [cacheAnswers_iff_answers]
  exact ⟨h.undisturbed, h.answers⟩

/-- Three unread messages. -/
def unreadDialog : Record where
  int n := if n = "peer_id" then 5 else if n = "unread_count" then 3 else 0
  str _ := none

theorem unreadDialog_plain : dialogs.Plain unreadDialog := by
  intro a ha htext u hu
  cases hu

/-- Marked as read it stays unread. -/
theorem not_cacheAnswers_read :
    ¬ CacheAnswers Affinity.none 7 [.save unreadDialog unreadDialog_plain, .setRead 5] := by
  rw [cacheAnswers_iff_answers]
  intro h
  have hread := ((shows_queriedDialogs _ _ _).undisturbed h).read 5 (by decide) (by decide)
  exact absurd hread (by decide)

end Libtg.Database
