import Libtg.Tg.Settings
import Libtg.Tg.Stored

/-!
# Accounts in a shared database

`tg_user_get` and its like ask for the rows of the session's account, while a save goes by the key
alone: it takes the row whoever has it. In a run in which no other account saves what this one
saves (`Apart`) the rows with its keys are those of the run of its saves alone, and no other row is
its own (`Follows`). So its getters return what depends on its own saves only (`sees_of_apart`).
-/

namespace Libtg.Database

open Sql

/-! ## The getters -/

def CString.ofText (u : Text) : CString where
  bytes := u.takeWhile fun c => c ≠ 0
  noNul h := by
    have hne := List.all_eq_true.mp List.all_takeWhile 0 h
    exact absurd hne (by decide)

/-- What a field of this type holds of a number. -/
def FieldType.cast : FieldType → UInt64 → UInt64
  | .bool, n => if n = 0 then 0 else 1
  | .uint32, n => n.toUInt32.toUInt64
  | .uint64, n => n
  | .chars, n => n

/-- What `NEW` or `memset` leave. -/
def zero : Record := ⟨fun _ => 0, fun _ => none⟩

/-- A field is read from its column. Where `empty` texts are saved, a missing one is read as
empty. -/
def Arg.read (empty : Bool) (m : Record) (a : Arg) (v : Value) : Record :=
  if a.isText then
    let u := (columnText v).getD []
    if empty ∨ u ≠ [] then { m with str := Function.update m.str a.n (some (.ofText u)) } else m
  else
    { m with int := Function.update m.int a.n (a.t.cast (UInt64.ofInt (columnInt64 v))) }

/-- A row of the columns in their order. -/
def Store.record (s : Store) (row : List Value) : Record :=
  (s.args.zip row).foldl (fun m av => av.1.read s.empty m av.2) zero

/-- `SELECT` of all columns and the account, from the rows of the account. -/
def Store.select (s : Store) (id : Int32) (conds : List Cond) (db : Db) : List (List Value) :=
  (Sql.select db (s.args.map (fun a => Sql.bytes a.name) ++ [Sql.bytes "id"]) (Sql.bytes s.table)
    (⟨Sql.bytes "id", id.toInt⟩ :: conds)).getD []

/-- The first row of a key, or an empty record. -/
def Store.get (s : Store) (id : Int32) (key : UInt64) (db : Db) : Record :=
  ((s.select id [⟨Sql.bytes s.key, ld key⟩] db).head?.map s.record).getD zero

/-- `tg_user_get`. -/
def tgUserGet (id : Int32) (userId : UInt64) (db : Db) : Record := users.get id userId db

/-- `tg_chat_get`. -/
def tgChatGet (id : Int32) (chatId : UInt64) (db : Db) : Record := chats.get id chatId db

/-- `tg_channel_get`. -/
def tgChannelGet (id : Int32) (channelId : UInt64) (db : Db) : Record :=
  channels.get id channelId db

/-- What `tg_get_dialogs_from_database` calls back with, until it is told to stop. -/
def tgGetDialogsFromDatabase (id : Int32) (db : Db) : List Record :=
  (dialogs.select id [] db).map dialogs.record

/-! ## Runs -/

inductive Kind where
  | user | chat | channel | dialog
  deriving DecidableEq

def Kind.store : Kind → Store
  | .user => users
  | .chat => chats
  | .channel => channels
  | .dialog => dialogs

/-- A call of `tg_user_save`, `tg_chat_save`, `tg_channel_save` or `tg_dialog_to_database`. -/
structure Save where
  account : Int32
  kind : Kind
  record : Record

def Save.key (c : Save) : Int := c.kind.store.keyOf c.record

/-- The result is only reported. -/
def Save.run (A : Affinity) (db : Db) (c : Save) : Db :=
  (exec A db (c.kind.store.text c.account c.record)).1

def saves (A : Affinity) (db : Db) (cs : List Save) : Db := cs.foldl (Save.run A) db

/-- `database_init`, but for the table of the messages. -/
def databaseInit (A : Affinity) : Db :=
  users.createTable A " " "" (channels.createTable A " " "" (chats.createTable A " " ""
    (dialogs.createTable A "" "\n" (initial A))))

/-- The account's getters return the same. -/
structure Sees (id : Int32) (db db' : Db) : Prop where
  user : ∀ userId, tgUserGet id userId db = tgUserGet id userId db'
  chat : ∀ chatId, tgChatGet id chatId db = tgChatGet id chatId db'
  channel : ∀ channelId, tgChannelGet id channelId db = tgChannelGet id channelId db'
  dialogs : tgGetDialogsFromDatabase id db = tgGetDialogsFromDatabase id db'

/-- The saves of one account. -/
def ownSaves (id : Int32) (cs : List Save) : List Save := cs.filter fun c => c.account = id

/-- No other account saves what this one saves. -/
def Apart (id : Int32) (cs : List Save) : Prop :=
  ∀ c ∈ cs, c.account = id → ∀ c' ∈ cs, c'.account ≠ id → c'.kind = c.kind → c'.key ≠ c.key

instance (id : Int32) (cs : List Save) : Decidable (Apart id cs) :=
  inferInstanceAs (Decidable (∀ c ∈ cs, _))

/-! ## The tables after `database_init` -/

variable {A : Affinity} {id : Int32} {db db' : Db} {s : Store} {c : Save} {cs : List Save}

theorem Kind.table_ne {k k' : Kind} (h : k ≠ k') :
    Sql.bytes k.store.table ≠ Sql.bytes k'.store.table := by
  intro heq
  have hname := bytes_inj heq
  cases k <;> cases k' <;> first | exact h rfl | exact absurd hname (by decide)

/-- A table is made as if it were the only one. -/
theorem databaseInit_table (A : Affinity) (k : Kind) :
    databaseInit A (Sql.bytes k.store.table) = some k.store.created := by
  have hnone (k : Kind) : initial A (Sql.bytes k.store.table) = none := by
    rw [initial, exec_of_parse parse_initSql]
    cases k <;> rfl
  have hdialogs : dialogs.createTable A "" "\n" (initial A) =
      Function.update (initial A) (Sql.bytes dialogs.table) (some dialogs.created) :=
    createTable_eq (by decide) (by decide) (hnone .dialog)
  have hmake (s : Store) (db : Db) (hdb : db (Sql.bytes s.table) = none) :
      s.createTable A " " "" db = Function.update db (Sql.bytes s.table) (some s.created) :=
    createTable_eq (by decide) (by decide) hdb
  have hne : ∀ k k' : Kind, k ≠ k' → Sql.bytes k.store.table ≠ Sql.bytes k'.store.table :=
    fun k k' => Kind.table_ne
  rw [databaseInit, hdialogs, hmake chats, hmake channels, hmake users]
  · cases k with
    | user => exact Function.update_self ..
    | channel =>
      exact (Function.update_of_ne (hne .channel .user (by decide)) ..).trans
        (Function.update_self ..)
    | chat =>
      exact (Function.update_of_ne (hne .chat .user (by decide)) ..).trans
        ((Function.update_of_ne (hne .chat .channel (by decide)) ..).trans
          (Function.update_self ..))
    | dialog =>
      exact (Function.update_of_ne (hne .dialog .user (by decide)) ..).trans
        ((Function.update_of_ne (hne .dialog .channel (by decide)) ..).trans
          ((Function.update_of_ne (hne .dialog .chat (by decide)) ..).trans
            (Function.update_self ..)))
  · exact (Function.update_of_ne (hne .user .channel (by decide)) ..).trans
      ((Function.update_of_ne (hne .user .chat (by decide)) ..).trans
        ((Function.update_of_ne (hne .user .dialog (by decide)) ..).trans (hnone .user)))
  · exact (Function.update_of_ne (hne .channel .chat (by decide)) ..).trans
      ((Function.update_of_ne (hne .channel .dialog (by decide)) ..).trans (hnone .channel))
  · exact (Function.update_of_ne (hne .chat .dialog (by decide)) ..).trans (hnone .chat)

/-! ## What follows the account's own saves -/

variable {m : Record} {full solo : Table} {own' : Value → Bool}

/-- `full` has the rows of `solo` for the keys that are the account's own, and none of the account's
for others. -/
structure Follows (own : Value → Bool) (id : Int32) (s : Store) (full solo : Table) : Prop where
  full_ready : s.Ready full
  solo_ready : s.Ready solo
  cols : full.cols = solo.cols
  rows : full.rows.filter (fun r => own (r (Sql.bytes s.key))) = solo.rows
  other : ∀ r ∈ full.rows, own (r (Sql.bytes s.key)) = false → r (Sql.bytes "id") ≠ .int id.toInt

theorem set_congr {t t' : Table} (h : t.cols = t'.cols) (as : List (Text × Value)) :
    t.set A as = t'.set A as := by
  obtain ⟨cols, rows⟩ := t
  obtain ⟨cols', rows'⟩ := t'
  cases h
  rfl

/-- A save leaves its account in the row. -/
theorem Store.Ready.set_id {t : Table} (h : s.Ready t) (r : Row) :
    t.set A (s.sets id m) r (Sql.bytes "id") = .int id.toInt := by
  have hmem : ∃ x ∈ s.sets id m, x.1 = Sql.bytes "id" :=
    ⟨(Sql.bytes "id", .int id.toInt), List.mem_append_right _ (List.mem_singleton.mpr rfl), rfl⟩
  rw [Table.set_of_mem hmem ?_ r, h.id.store (int32_int64 id)]
  intro x hx hcol
  rcases List.mem_append.mp hx with hx | hx
  · obtain ⟨a, ha, hassign⟩ := mem_assigns.mp hx
    exact absurd (bytes_inj ((assign_eq hassign).1.symm.trans hcol)) (s.args_id a ha)
  · rw [List.mem_singleton.mp hx]

/-- A save of the account itself. -/
theorem Follows.own (h : Follows own' id s full solo) (hkey : own' (.int (s.keyOf m))) :
    Follows own' id s (s.put A id m full) (s.put A id m solo) where
  full_ready := h.full_ready.put
  solo_ready := h.solo_ready.put
  cols := h.cols
  rows := by
    rw [Store.put, Store.put, ← set_congr h.cols, ← h.rows]
    exact filter_putRow_of_mem hkey fun r hr => h.full_ready.set_key hr
  other := by
    intro r hr hother
    rcases mem_putRow hr with ⟨r', hr', rfl⟩ | ⟨hmem, -⟩
    · rw [h.full_ready.set_key hr', hkey] at hother
      cases hother
    · exact h.other r hmem hother

/-- A save of another account. -/
theorem Follows.other_put {id' : Int32} (h : Follows own' id s full solo) (hid : id' ≠ id)
    (hkey : own' (.int (s.keyOf m)) = false) :
    Follows own' id s (s.put A id' m full) solo where
  full_ready := h.full_ready.put
  solo_ready := h.solo_ready
  cols := h.cols
  rows := by
    rw [Store.put, ← h.rows]
    exact filter_putRow_of_notMem hkey fun r hr => h.full_ready.set_key hr
  other := by
    intro r hr hother
    rcases mem_putRow hr with ⟨r', -, rfl⟩ | ⟨hmem, -⟩
    · rw [h.full_ready.set_id]
      intro heq
      exact hid (Int32.toInt_inj.mp (Value.int.inj heq))
    · exact h.other r hmem hother

/-- The account's rows are the same in both. -/
theorem Follows.select (h : Follows own' id s full solo)
    (hfull : db (Sql.bytes s.table) = some full) (hsolo : db' (Sql.bytes s.table) = some solo)
    (conds : List Cond) :
    s.select id conds db = s.select id conds db' := by
  have hrows : full.rows.filter
        (fun r => (⟨Sql.bytes "id", id.toInt⟩ :: conds).all fun c => c.holds r) =
      solo.rows.filter fun r => (⟨Sql.bytes "id", id.toInt⟩ :: conds).all fun c => c.holds r := by
    rw [← h.rows, List.filter_filter]
    refine List.filter_congr fun r hr => ?_
    cases hown : own' (r (Sql.bytes s.key)) with
    | true => simp
    | false =>
      have hid : Cond.holds ⟨Sql.bytes "id", id.toInt⟩ r = false :=
        decide_eq_false (h.other r hr hown)
      simp [hid]
  have hhas : full.has = solo.has := by
    funext col
    rw [Table.has, Table.has, Table.column, Table.column, h.cols]
  simp only [Store.select, Sql.select, hfull, hsolo, hhas, hrows]

/-! ## Runs of two sorts of saves -/

/-- The keys the account saves. -/
def ownKey (id : Int32) (cs : List Save) (k : Kind) (v : Value) : Bool :=
  cs.any fun c => c.account = id ∧ c.kind = k ∧ v = .int c.key

/-- In each table one run follows the other. -/
def AllFollow (own : Kind → Value → Bool) (id : Int32) (db db' : Db) : Prop :=
  ∀ k : Kind, ∃ full solo, db (Sql.bytes k.store.table) = some full ∧
    db' (Sql.bytes k.store.table) = some solo ∧ Follows (own k) id k.store full solo

/-- A save of a quote-free record puts the row of its key and leaves the other tables. -/
theorem Save.run_eq {t : Table} (hplain : c.kind.store.Plain c.record)
    (htable : db (Sql.bytes c.kind.store.table) = some t) (ht : c.kind.store.Ready t) :
    c.run A db = Function.update db (Sql.bytes c.kind.store.table)
      (some (c.kind.store.put A c.account c.record t)) := by
  rw [Save.run, exec_text hplain ht htable]

variable {own : Kind → Value → Bool}

theorem AllFollow.own_run (h : AllFollow own id db db') (hplain : c.kind.store.Plain c.record)
    (hid : c.account = id) (hkey : own c.kind (.int c.key)) :
    AllFollow own id (c.run A db) (c.run A db') := by
  obtain ⟨full, solo, hfull, hsolo, hfollows⟩ := h c.kind
  intro k
  rw [Save.run_eq hplain hfull hfollows.full_ready, Save.run_eq hplain hsolo hfollows.solo_ready]
  by_cases hk : k = c.kind
  · rw [hk]
    refine ⟨_, _, Function.update_self .., Function.update_self .., ?_⟩
    subst hid
    exact hfollows.own hkey
  · obtain ⟨full', solo', hfull', hsolo', hfollows'⟩ := h k
    exact ⟨full', solo', (Function.update_of_ne (Kind.table_ne hk) ..).trans hfull',
      (Function.update_of_ne (Kind.table_ne hk) ..).trans hsolo', hfollows'⟩

theorem AllFollow.other_run (h : AllFollow own id db db') (hplain : c.kind.store.Plain c.record)
    (hid : c.account ≠ id) (hkey : own c.kind (.int c.key) = false) :
    AllFollow own id (c.run A db) db' := by
  obtain ⟨full, solo, hfull, hsolo, hfollows⟩ := h c.kind
  intro k
  rw [Save.run_eq hplain hfull hfollows.full_ready]
  by_cases hk : k = c.kind
  · rw [hk]
    exact ⟨_, solo, Function.update_self .., hsolo, hfollows.other_put hid hkey⟩
  · obtain ⟨full', solo', hfull', hsolo', hfollows'⟩ := h k
    exact ⟨full', solo', (Function.update_of_ne (Kind.table_ne hk) ..).trans hfull', hsolo',
      hfollows'⟩

/-- A run follows the run of the account's own saves. -/
theorem AllFollow.saves (h : AllFollow own id db db')
    (hcs : ∀ c ∈ cs, c.kind.store.Plain c.record ∧
      (own c.kind (.int c.key) = decide (c.account = id))) :
    AllFollow own id (saves A db cs) (saves A db' (ownSaves id cs)) := by
  induction cs generalizing db db' with
  | nil => exact h
  | cons c cs ih =>
    obtain ⟨⟨hplain, hkey⟩, hcs⟩ := List.forall_mem_cons.mp hcs
    by_cases hid : c.account = id
    · have hown : ownSaves id (c :: cs) = c :: ownSaves id cs :=
        List.filter_cons_of_pos (decide_eq_true hid)
      rw [hown]
      exact ih (h.own_run hplain hid (by rw [hkey, decide_eq_true hid])) hcs
    · have hown : ownSaves id (c :: cs) = ownSaves id cs :=
        List.filter_cons_of_neg (by simpa using hid)
      rw [hown]
      exact ih (h.other_run hplain hid (by rw [hkey, decide_eq_false hid])) hcs

theorem Follows.get {key : UInt64} (h : Follows own' id s full solo)
    (hfull : db (Sql.bytes s.table) = some full) (hsolo : db' (Sql.bytes s.table) = some solo) :
    s.get id key db = s.get id key db' := by
  rw [Store.get, h.select hfull hsolo, Store.get]

theorem AllFollow.sees (h : AllFollow own id db db') : Sees id db db' where
  user userId := by
    obtain ⟨full, solo, hfull, hsolo, hfollows⟩ := h .user
    exact hfollows.get hfull hsolo
  chat chatId := by
    obtain ⟨full, solo, hfull, hsolo, hfollows⟩ := h .chat
    exact hfollows.get hfull hsolo
  channel channelId := by
    obtain ⟨full, solo, hfull, hsolo, hfollows⟩ := h .channel
    exact hfollows.get hfull hsolo
  dialogs := by
    obtain ⟨full, solo, hfull, hsolo, hfollows⟩ := h .dialog
    exact congrArg (List.map dialogs.record) (hfollows.select hfull hsolo [])

theorem databaseInit_follows (A : Affinity) (own : Kind → Value → Bool) (id : Int32) :
    AllFollow own id (databaseInit A) (databaseInit A) := by
  intro k
  refine ⟨_, _, databaseInit_table A k, databaseInit_table A k, ?_⟩
  exact ⟨created_ready _, created_ready _, rfl, rfl, fun r hr => absurd hr List.not_mem_nil⟩

/-- A run in which no other account saves what this one saves is seen as the run of its saves. -/
theorem sees_own (A : Affinity) (hplain : ∀ c ∈ cs, c.kind.store.Plain c.record)
    (hapart : Apart id cs) :
    Sees id (saves A (databaseInit A) cs) (saves A (databaseInit A) (ownSaves id cs)) := by
  have hinit := databaseInit_follows A (ownKey id cs) id
  refine (hinit.saves fun c hc => ⟨hplain c hc, ?_⟩).sees
  by_cases hid : c.account = id
  · rw [decide_eq_true hid]
    exact List.any_eq_true.mpr ⟨c, hc, by simp [hid]⟩
  · rw [decide_eq_false hid]
    refine List.any_eq_false.mpr fun c' hc' => ?_
    have hne := hapart c' hc'
    simp only [decide_eq_true_eq, not_and, Value.int.injEq]
    exact fun hid' hkind hkey => hne hid' c hc hid hkind.symm hkey

theorem saves_cons : saves A db (c :: cs) = saves A (c.run A db) cs := rfl

theorem saves_nil : saves A db [] = db := rfl

theorem Sees.symm (h : Sees id db db') : Sees id db' db :=
  ⟨fun n => (h.user n).symm, fun n => (h.chat n).symm, fun n => (h.channel n).symm, h.dialogs.symm⟩

theorem Sees.trans {db'' : Db} (h : Sees id db db') (h' : Sees id db' db'') : Sees id db db'' :=
  ⟨fun n => (h.user n).trans (h'.user n), fun n => (h.chat n).trans (h'.chat n),
    fun n => (h.channel n).trans (h'.channel n), h.dialogs.trans h'.dialogs⟩

/-- Two runs with the same saves of an account are the same to it, if no text has a quote in it and
no other account saves what this one saves. -/
theorem sees_of_apart (A : Affinity) (id : Int32) (cs cs' : List Save)
    (hplain : ∀ c ∈ cs ++ cs', c.kind.store.Plain c.record)
    (hsame : ownSaves id cs = ownSaves id cs') (hapart : Apart id cs) (hapart' : Apart id cs') :
    Sees id (saves A (databaseInit A) cs) (saves A (databaseInit A) cs') := by
  have h := sees_own A (fun c hc => hplain c (List.mem_append_left _ hc)) hapart
  have h' := sees_own A (fun c hc => hplain c (List.mem_append_right _ hc)) hapart'
  rw [← hsame] at h'
  exact h.trans h'.symm

/-- A dialog with a number only. -/
def dialogOf (n : UInt64) : Record := ⟨fun f => if f = "peer_id" then n else 0, fun _ => none⟩

theorem dialogOf_plain (n : UInt64) : dialogs.Plain (dialogOf n) := by
  intro a ha htext u hu
  cases hu

/-- The second account's save of another dialog does not matter to the first. -/
theorem sees_first : Sees 1
    (saves Affinity.none (databaseInit Affinity.none)
      [⟨1, .dialog, dialogOf 5⟩, ⟨2, .dialog, dialogOf 6⟩])
    (saves Affinity.none (databaseInit Affinity.none) [⟨1, .dialog, dialogOf 5⟩]) := by
  refine sees_of_apart Affinity.none 1 _ _ (fun c hc => ?_) rfl (by decide) (by decide)
  fin_cases hc <;> exact dialogOf_plain _

/-! ## A row is taken -/

/-- The rows that are found in a table that is ready. -/
theorem Store.Ready.select_eq {t : Table} {conds : List Cond} (h : s.Ready t)
    (htable : db (Sql.bytes s.table) = some t) (hconds : conds.all fun c => t.has c.col) :
    s.select id conds db = (t.rows.filter fun r => Cond.holds ⟨Sql.bytes "id", id.toInt⟩ r &&
      conds.all fun c => c.holds r).map fun r =>
        (s.args.map (fun a => Sql.bytes a.name) ++ [Sql.bytes "id"]).map r := by
  have hcols : (s.args.map (fun a => Sql.bytes a.name) ++ [Sql.bytes "id"]).all t.has := by
    refine List.all_eq_true.mpr fun col hcol => ?_
    rcases List.mem_append.mp hcol with hcol | hcol
    · obtain ⟨a, ha, rfl⟩ := List.mem_map.mp hcol
      exact h.has a ha
    · rw [List.mem_singleton.mp hcol]
      exact h.id.has
  simp only [Store.select, Sql.select, htable, hcols, List.all_cons, h.id.has, Bool.true_and,
    hconds, and_self, if_true, Option.getD_some]

/-- After the save of another account the row of its key is not found. -/
theorem select_taken {t : Table} (hplain : c.kind.store.Plain c.record)
    (htable : db (Sql.bytes c.kind.store.table) = some t) (ht : c.kind.store.Ready t)
    (hid : c.account ≠ id) (hkeys : ∀ r ∈ t.rows, r (Sql.bytes c.kind.store.key) = .int c.key) :
    c.kind.store.select id [] (c.run A db) = [] := by
  have hput : c.run A db (Sql.bytes c.kind.store.table) =
      some (c.kind.store.put A c.account c.record t) := by
    rw [Save.run_eq hplain htable ht, Function.update_self]
  rw [ht.put.select_eq hput rfl, List.map_eq_nil_iff, List.filter_eq_nil_iff]
  intro r hr hholds
  simp only [Cond.holds, List.all_nil, Bool.and_true, decide_eq_true_eq] at hholds
  rcases mem_putRow hr with ⟨r', -, rfl⟩ | ⟨hmem, hkey⟩
  · rw [ht.set_id] at hholds
    exact hid (Int32.toInt_inj.mp (Value.int.inj hholds))
  · exact hkey (hkeys r hmem)

/-- After a save of the account itself some row is found. -/
theorem select_saved {t : Table} (hplain : c.kind.store.Plain c.record)
    (htable : db (Sql.bytes c.kind.store.table) = some t) (ht : c.kind.store.Ready t) :
    c.kind.store.select c.account [] (c.run A db) ≠ [] := by
  have hput : c.run A db (Sql.bytes c.kind.store.table) =
      some (c.kind.store.put A c.account c.record t) := by
    rw [Save.run_eq hplain htable ht, Function.update_self]
  have hset (r : Row) (hr : r (Sql.bytes c.kind.store.key) = .int c.key) :
      t.set A (c.kind.store.sets c.account c.record) r (Sql.bytes c.kind.store.key) = .int c.key :=
    ht.set_key hr
  obtain ⟨r, hrow⟩ := filter_putRow ht.keyed.nodup hset
  have hmem := List.mem_singleton.mpr (Eq.refl (t.set A (c.kind.store.sets c.account c.record) r))
  rw [← hrow] at hmem
  rw [ht.put.select_eq hput rfl, Ne, List.map_eq_nil_iff, List.filter_eq_nil_iff]
  intro h
  refine h _ (List.mem_of_mem_filter hmem) ?_
  simp [Cond.holds, ht.set_id]

/-- Two runs with the same saves of the first account. The second run has no other. -/
theorem sees_counterexample :
    ownSaves 1 [⟨1, .dialog, dialogOf 5⟩, ⟨2, .dialog, dialogOf 5⟩] =
        ownSaves 1 [⟨1, .dialog, dialogOf 5⟩] ∧
      ¬ Sees 1
        (saves Affinity.none (databaseInit Affinity.none)
          [⟨1, .dialog, dialogOf 5⟩, ⟨2, .dialog, dialogOf 5⟩])
        (saves Affinity.none (databaseInit Affinity.none) [⟨1, .dialog, dialogOf 5⟩]) := by
  have hplain := dialogOf_plain 5
  refine ⟨rfl, fun h => ?_⟩
  rw [saves_cons, saves_cons, saves_nil, saves_cons, saves_nil] at h
  have hlist := h.dialogs
  have htable := databaseInit_table Affinity.none .dialog
  have hready := created_ready dialogs
  have hsaved := select_saved (A := Affinity.none) (c := ⟨1, .dialog, dialogOf 5⟩) hplain htable
    hready
  have hput := Save.run_eq (A := Affinity.none) (c := ⟨1, .dialog, dialogOf 5⟩) hplain htable hready
  generalize Save.run Affinity.none (databaseInit Affinity.none) ⟨1, .dialog, dialogOf 5⟩ = db at *
  have hput : db (Sql.bytes dialogs.table) =
      some (dialogs.put Affinity.none 1 (dialogOf 5) dialogs.created) := by
    rw [hput]
    exact Function.update_self ..
  have hkeys : ∀ r ∈ (dialogs.put Affinity.none 1 (dialogOf 5) dialogs.created).rows,
      r (Sql.bytes dialogs.key) = .int (Save.key ⟨2, .dialog, dialogOf 5⟩) := by
    intro r hr
    rcases mem_putRow hr with ⟨r', hr', rfl⟩ | ⟨hmem, -⟩
    · exact hready.set_key hr'
    · cases hmem
  have htaken : (Kind.store .dialog).select 1 []
      (Save.run Affinity.none db ⟨2, .dialog, dialogOf 5⟩) = [] :=
    select_taken (c := ⟨2, .dialog, dialogOf 5⟩) hplain hput hready.put (by decide) hkeys
  generalize Save.run Affinity.none db ⟨2, .dialog, dialogOf 5⟩ = db' at *
  rw [tgGetDialogsFromDatabase, tgGetDialogsFromDatabase,
    show dialogs = Kind.store .dialog from rfl, htaken] at hlist
  exact hsaved (List.map_eq_nil_iff.mp hlist.symm)

end Libtg.Database
