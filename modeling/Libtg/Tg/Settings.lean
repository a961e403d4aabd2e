import Libtg.Tg.Saves

/-!
# Settings in a shared database (`tg/database.c`)

Sessions that use one database file keep their phone numbers in one table and their addresses in
another. `database_init` makes the tables (`initial`), and `Setting.toDatabase` makes a row for the
account, if it has none, and sets the value and the account. The update has no condition: it takes
all rows, so that after a write the table is the writer's (`Holds.toDatabase`).

`keepsSettings_iff`: an account reads its last write exactly if it has written none or nobody has
written after it, as long as the statements fit their buffer and the value is not empty.
-/

namespace Libtg.Database

open Sql

/-- `BUFSIZ`. -/
def bufsiz : Nat := 8192

/-- The tables with one value for each account. -/
inductive Setting where
  | phoneNumber | ipAddress
  deriving DecidableEq

def Setting.table : Setting → String
  | .phoneNumber => "phone_numbers"
  | .ipAddress => "ips"

def Setting.col : Setting → String
  | .phoneNumber => "phone_number"
  | .ipAddress => "ip"

/-- The `sql` of `database_init`. -/
def initSql : Text :=
  ["ips", "phone_numbers", "auth_tokens", "auth_keys", "dialogs_hash", "messages_hash", "photos",
    "peer_photos"].flatMap fun table => printCreateTable (Sql.bytes table) none ++ Sql.bytes " "

/-- A database after `database_init`, as far as its own tables go. -/
def initial (A : Affinity) : Db := (exec A (fun _ => none) initSql).1

/-- The statements of `phone_number_to_database` and `ip_address_to_database`. -/
def Setting.sql (c : Setting) (id : Int32) (value : CString) : Text :=
  printInsert (Sql.bytes c.table) (Sql.bytes "id") " SELECT " id.toInt ++ (Sql.bytes " " ++
    printUpdate (Sql.bytes c.table) [(Sql.bytes c.col, .text value.bytes)] (Sql.bytes "id") id.toInt
      (Sql.bytes "; "))

example : Setting.phoneNumber.sql 5 ⟨Sql.bytes "+7", by decide⟩ =
    Sql.bytes ("INSERT INTO 'phone_numbers' ('id') SELECT 5 WHERE NOT EXISTS (SELECT 1 FROM "
      ++ "phone_numbers WHERE id = 5); UPDATE 'phone_numbers' SET 'phone_number' = '+7', id = 5; ")
    := by decide +kernel

/-- `phone_number_to_database` and `ip_address_to_database`. The first `tg_sqlite3_exec` may fail;
`sprintf` may not go beyond `sql[BUFSIZ]`. -/
def Setting.toDatabase (A : Affinity) (c : Setting) (id : Int32) (value : CString) (db : Db) :
    Option (Db × Bool) :=
  let db := (exec A db (printAddColumn (Sql.bytes c.table) (Sql.bytes c.col) (Sql.bytes "TEXT") ++
    Sql.bytes " ")).1
  if (c.sql id value).length < bufsiz then some (exec A db (c.sql id value)) else none

/-- `strcpy(buf, (char *)sqlite3_column_text(stmt, 0))`. -/
def strcpy (_ : Text) (row : List Value) : Option Text := do
  let v ← row.head?
  let t ← columnText v
  if t.length < bufsiz then some t else none

/-- `phone_number_from_database` and `ip_address_from_database`; `none` is undefined behaviour and
`some none` is `NULL`. -/
def Setting.fromDatabase (c : Setting) (id : Int32) (db : Db) : Option (Option Text) :=
  match select db [Sql.bytes c.col] (Sql.bytes c.table) [⟨Sql.bytes "id", id.toInt⟩] with
  | none => some none
  | some rows => (rows.foldlM strcpy []).map fun buf => if buf = [] then none else some buf

/-! ## Runs -/

/-- A call of one of the two by a session with this account. -/
structure Write where
  account : Int32
  setting : Setting
  value : CString

/-- The calls one after the other. -/
def writes (A : Affinity) (db : Db) (ws : List Write) : Option Db :=
  ws.foldlM (fun db w => (w.setting.toDatabase A w.account w.value db).map Prod.fst) db

/-- The last write of a setting. -/
def lastWrite (c : Setting) (ws : List Write) : Option Write :=
  (ws.filter fun w => w.setting = c).getLast?

/-- The last value an account has written itself. -/
def ownLast (c : Setting) (id : Int32) (ws : List Write) : Option Text :=
  ((ws.filter fun w => w.setting = c ∧ w.account = id).getLast?).map fun w => w.value.bytes

/-- The account reads its own last write. -/
def KeepsSetting (A : Affinity) (ws : List Write) (c : Setting) (id : Int32) : Prop :=
  ∃ db, writes A (initial A) ws = some db ∧ c.fromDatabase id db = some (ownLast c id ws)

/-! ## What a write does -/

variable {A : Affinity} {c : Setting} {id : Int32} {db : Db} {t : Table} {w : Write}

/-- The table of a setting whose last write this is. -/
def Setting.Holds (c : Setting) (last : Option Write) (t : Table) : Prop :=
  match last with
  | none => t = ⟨newColumns none, []⟩
  | some w => t.cols = newColumns none ++ [⟨Sql.bytes c.col, Sql.bytes "TEXT", false⟩] ∧
      t.rows ≠ [] ∧ ∀ r ∈ t.rows, r (Sql.bytes "id") = .int w.account.toInt ∧
        r (Sql.bytes c.col) = .text w.value.bytes

/-- Both tables hold what was written last. -/
def Held (last : Setting → Option Write) (db : Db) : Prop :=
  ∀ c : Setting, ∃ t, db (Sql.bytes c.table) = some t ∧ c.Holds (last c) t

theorem parse_initSql : parse initSql = some (["ips", "phone_numbers", "auth_tokens", "auth_keys",
    "dialogs_hash", "messages_hash", "photos", "peer_photos"].map fun table =>
      .createTable (Sql.bytes table) (newColumns none)) := by decide +kernel

theorem initial_held (A : Affinity) : Held (fun _ => none) (initial A) := by
  intro c
  rw [initial, exec_of_parse parse_initSql]
  cases c with
  | phoneNumber => exact ⟨_, rfl, rfl⟩
  | ipAddress => exact ⟨_, rfl, rfl⟩

/-- The name of a setting's table or column. -/
theorem Setting.names (c : Setting) :
    IsName (Sql.bytes c.table) ∧ IsName (Sql.bytes c.col) ∧ Sql.bytes c.col ≠ Sql.bytes "id" := by
  cases c <;> decide +kernel

theorem Setting.table_inj {c c' : Setting} (h : Sql.bytes c.table = Sql.bytes c'.table) :
    c = c' := by
  have hname := bytes_inj h
  cases c <;> cases c' <;> first | rfl | exact absurd hname (by decide)

/-- The columns once a value has been written. -/
def Setting.columns (c : Setting) : List Column :=
  newColumns none ++ [⟨Sql.bytes c.col, Sql.bytes "TEXT", false⟩]

theorem Setting.find_id (c : Setting) (rows : List Row) :
    Table.column ⟨c.columns, rows⟩ (Sql.bytes "id") =
      some ⟨Sql.bytes "id", Sql.bytes "INT", false⟩ := rfl

theorem Setting.find_col (c : Setting) (rows : List Row) :
    Table.column ⟨c.columns, rows⟩ (Sql.bytes c.col) =
      some ⟨Sql.bytes c.col, Sql.bytes "TEXT", false⟩ := by
  cases c <;> rfl

/-- The column is there after its addition, whether it was before or not. -/
theorem exec_addColumn {last : Option Write} (htable : db (Sql.bytes c.table) = some t)
    (ht : c.Holds last t) :
    (exec A db (printAddColumn (Sql.bytes c.table) (Sql.bytes c.col) (Sql.bytes "TEXT") ++
      Sql.bytes " ")).1 =
        Function.update db (Sql.bytes c.table) (some ⟨c.columns, t.rows⟩) := by
  have htext : IsName (Sql.bytes "TEXT") := by decide +kernel
  rw [exec_printAddColumn ⟨c.names.1, c.names.2.1, htext⟩ lex_blank htable]
  cases last with
  | none =>
    have hhas : Table.has ⟨newColumns none, []⟩ (Sql.bytes c.col) = false := by cases c <;> rfl
    rw [ht, hhas]
    rfl
  | some w =>
    have htcols : t = ⟨c.columns, t.rows⟩ := by
      obtain ⟨hcols, -⟩ := ht
      cases t
      exact congrArg (Table.mk · _) hcols
    have hhas : t.has (Sql.bytes c.col) := by
      rw [htcols, Table.has, c.find_col]
      rfl
    rw [if_pos hhas, ← htcols, ← htable, Function.update_eq_self]

theorem parse_sql (hvalue : quote ∉ w.value.bytes) :
    parse (w.setting.sql w.account w.value) =
      some [.insertUnless (Sql.bytes w.setting.table) (Sql.bytes "id") w.account.toInt
          (Sql.bytes w.setting.table) ⟨Sql.bytes "id", w.account.toInt⟩,
        .update (Sql.bytes w.setting.table) [(Sql.bytes w.setting.col, .text w.value.bytes),
          (Sql.bytes "id", .int w.account.toInt)] none] := by
  obtain ⟨htable, hcol, -⟩ := w.setting.names
  have hid : IsName (Sql.bytes "id") := by decide +kernel
  have hsel : scan .ready (Sql.bytes " SELECT ") = ([.word (Sql.bytes "SELECT")], .ready) := by
    decide
  have htwo : (lex (Sql.bytes "INSERT INTO")).length = 2 := by decide
  refine parse_pair ?_ (stmt_printInsert htable hid (int32_int64 _) hsel _) ?_
  · rw [Setting.sql, lex, lexFrom_printInsert htable hid hsel, List.length_append, htwo]
    exact Nat.le_add_right 2 _
  · have hsafe : (Value.text w.value.bytes).Safe := hvalue
    rw [lex, lexFrom_blank]
    exact stmt_printUpdate htable hid (int32_int64 _)
      (List.forall_mem_singleton.mpr hcol.quote_not_mem) (List.forall_mem_singleton.mpr hsafe) _

/-- What a write sets in every row. -/
theorem set_write (w : Write) (rows : List Row) (r : Row) :
    let t : Table := ⟨w.setting.columns, rows⟩
    let r' := t.set A [(Sql.bytes w.setting.col, .text w.value.bytes),
      (Sql.bytes "id", .int w.account.toInt)] r
    r' (Sql.bytes "id") = .int w.account.toInt ∧
      r' (Sql.bytes w.setting.col) = .text w.value.bytes := by
  intro t r'
  have hid : t.store A (Sql.bytes "id") (.int w.account.toInt) = .int w.account.toInt :=
    A.int _ (int32_int64 _)
  have hcol : t.store A (Sql.bytes w.setting.col) (.text w.value.bytes) = .text w.value.bytes := by
    rw [Table.store, w.setting.find_col, Option.elim_some, A.text]
  have hr' : r' = Function.update (Function.update r (Sql.bytes w.setting.col)
      (t.store A (Sql.bytes w.setting.col) (.text w.value.bytes))) (Sql.bytes "id")
      (t.store A (Sql.bytes "id") (.int w.account.toInt)) := rfl
  constructor
  · rw [hr', Function.update_self, hid]
  · rw [hr', Function.update_of_ne w.setting.names.2.2, Function.update_self, hcol]

/-- After a write the whole table is the writer's. -/
theorem Held.toDatabase {last : Setting → Option Write} (h : Held last db)
    (hvalue : quote ∉ w.value.bytes)
    (hfits : (w.setting.sql w.account w.value).length < bufsiz) :
    ∃ r, w.setting.toDatabase A w.account w.value db = some r ∧
      Held (Function.update last w.setting (some w)) r.1 := by
  obtain ⟨t, htable, ht⟩ := h w.setting
  have hunique : ∀ c ∈ w.setting.columns, c.unique = false := by
    cases w.setting <;> decide
  have hid : Table.HasInt ⟨w.setting.columns, t.rows⟩ (Sql.bytes "id") :=
    ⟨_, w.setting.find_id _, rfl⟩
  have hcol : Table.has ⟨w.setting.columns, t.rows⟩ (Sql.bytes w.setting.col) := by
    rw [Table.has, w.setting.find_col]
    rfl
  refine ⟨_, by rw [Setting.toDatabase, if_pos hfits], ?_⟩
  rw [exec_of_parse (parse_sql hvalue), exec_addColumn htable ht,
    runAll_putAll (Function.update_self ..) hunique hid (int32_int64 _)
      (List.forall_mem_cons.mpr ⟨hcol, List.forall_mem_singleton.mpr hid.has⟩),
    Function.update_idem]
  intro c
  by_cases hc : c = w.setting
  · subst hc
    rw [Function.update_self]
    refine ⟨_, Function.update_self .., rfl, fun hnil => ?_, ?_⟩
    · have hany : (addRow (Sql.bytes "id") w.account.toInt t.rows).any
          (Cond.holds ⟨Sql.bytes "id", w.account.toInt⟩) := addRow_any
      rw [List.map_eq_nil_iff.mp hnil] at hany
      cases hany
    · intro r hr
      obtain ⟨r', -, rfl⟩ := List.mem_map.mp hr
      exact set_write w t.rows r'
  · have hne : Sql.bytes c.table ≠ Sql.bytes w.setting.table :=
      fun heq => hc (Setting.table_inj heq)
    obtain ⟨t', htable', ht'⟩ := h c
    rw [Function.update_of_ne hc]
    exact ⟨t', (Function.update_of_ne hne ..).trans htable', ht'⟩

/-! ## What is read -/

/-- The last of equal rows is what the buffer holds. -/
theorem foldlM_strcpy {rows : List (List Value)} {v buf : Text} (hv : v.length < bufsiz)
    (hrows : ∀ row ∈ rows, row = [.text v]) (hne : rows ≠ []) :
    rows.foldlM strcpy buf = some v := by
  induction rows generalizing buf with
  | nil => exact absurd rfl hne
  | cons row rows ih =>
    obtain ⟨hrow, hrows⟩ := List.forall_mem_cons.mp hrows
    have hcopy : strcpy buf row = some v := by
      rw [hrow]
      exact if_pos hv
    rw [List.foldlM_cons, hcopy]
    by_cases hrest : rows = []
    · rw [hrest]
      rfl
    · exact ih hrows hrest

/-- The reader finds the value of the last write, if it is its own. -/
theorem Held.fromDatabase {last : Setting → Option Write} (h : Held last db) (c : Setting)
    (id : Int32) (hfits : ∀ w, last c = some w → w.value.bytes.length < bufsiz) :
    c.fromDatabase id db = some ((last c).bind fun w =>
      if w.account = id ∧ w.value.bytes ≠ [] then some w.value.bytes else none) := by
  obtain ⟨t, htable, ht⟩ := h c
  cases hlast : last c with
  | none =>
    rw [hlast] at ht
    have hhas : Table.has ⟨newColumns none, []⟩ (Sql.bytes c.col) = false := by cases c <;> rfl
    rw [ht] at htable
    simp [Setting.fromDatabase, select, htable, hhas]
  | some w =>
    rw [hlast] at ht
    obtain ⟨hcols, hne, hrows⟩ := ht
    have htcols : t = ⟨c.columns, t.rows⟩ := by
      cases t
      exact congrArg (Table.mk · _) hcols
    have hhas : t.has (Sql.bytes c.col) ∧ t.has (Sql.bytes "id") := by
      rw [htcols, Table.has, c.find_col]
      exact ⟨rfl, rfl⟩
    have hselect : select db [Sql.bytes c.col] (Sql.bytes c.table) [⟨Sql.bytes "id", id.toInt⟩] =
        some (if w.account = id then t.rows.map fun _ => [.text w.value.bytes] else []) := by
      simp only [select, htable, List.all_cons, List.all_nil, Bool.and_true, hhas, and_self,
        if_true]
      refine congrArg some ?_
      split_ifs with hid
      · rw [List.filter_eq_self.mpr fun r hr => by simp [Cond.holds, (hrows r hr).1, hid]]
        exact List.map_congr_left fun r hr => by simp [(hrows r hr).2]
      · rw [List.filter_eq_nil_iff.mpr fun r hr => by
          simp [Cond.holds, (hrows r hr).1, Int32.toInt_inj, hid]]
        rfl
    rw [Setting.fromDatabase, hselect]
    by_cases hid : w.account = id
    · have hcopy : (t.rows.map fun _ => [Value.text w.value.bytes]).foldlM strcpy [] =
          some w.value.bytes :=
        foldlM_strcpy (hfits w hlast) (fun row hrow => by
          obtain ⟨r, -, rfl⟩ := List.mem_map.mp hrow
          rfl) (by simpa using hne)
      rw [if_pos hid]
      dsimp only
      rw [hcopy]
      by_cases hv : w.value.bytes = []
      · simp [hid, hv]
      · simp [hid, hv]
    · simp [hid]

/-- All calls come back if their statements fit. -/
theorem writes_held (A : Affinity) (ws : List Write) (hquote : ∀ w ∈ ws, quote ∉ w.value.bytes)
    (hfits : ∀ w ∈ ws, (w.setting.sql w.account w.value).length < bufsiz) :
    ∃ db, writes A (initial A) ws = some db ∧ Held (fun c => lastWrite c ws) db := by
  induction ws using List.reverseRecOn with
  | nil => exact ⟨_, rfl, initial_held A⟩
  | append_singleton ws w ih =>
    rw [List.forall_mem_append, List.forall_mem_singleton] at hquote hfits
    obtain ⟨db, hdb, hheld⟩ := ih hquote.1 hfits.1
    obtain ⟨r, hr, hheld'⟩ := hheld.toDatabase (A := A) hquote.2 hfits.2
    refine ⟨r.1, ?_, ?_⟩
    · rw [writes, List.foldlM_append, ← writes, hdb]
      simp [hr]
    · have hlast : (fun c => lastWrite c (ws ++ [w])) =
          Function.update (fun c => lastWrite c ws) w.setting (some w) := by
        funext c
        by_cases hc : c = w.setting
        · simp [hc, lastWrite]
        · simp [lastWrite, Function.update_of_ne hc, List.filter_append, Ne.symm hc]
      rw [hlast]
      exact hheld'

theorem fits_of_writes {ws : List Write} {db' : Db} (h : writes A db ws = some db') :
    ∀ w ∈ ws, (w.setting.sql w.account w.value).length < bufsiz := by
  induction ws generalizing db with
  | nil => exact fun w hw => absurd hw List.not_mem_nil
  | cons w ws ih =>
    rw [writes, List.foldlM_cons] at h
    obtain ⟨db₁, hw, hrest⟩ := Option.bind_eq_some_iff.mp h
    refine List.forall_mem_cons.mpr ⟨?_, ih hrest⟩
    by_contra hfits
    rw [Setting.toDatabase, if_neg hfits] at hw
    cases hw

theorem ownLast_eq_none_iff {ws : List Write} :
    ownLast c id ws = none ↔ ∀ w ∈ ws, w.setting = c → w.account ≠ id := by
  simp [ownLast]

theorem ownLast_of_last {ws : List Write} (h : lastWrite c ws = some w) (hid : w.account = id) :
    ownLast c id ws = some w.value.bytes := by
  have hfilter : ws.filter (fun w => w.setting = c ∧ w.account = id) =
      (ws.filter fun w => w.setting = c).filter fun w => w.account = id := by
    rw [List.filter_filter]
    exact List.filter_congr fun w _ => by simp [and_comm]
  obtain ⟨ws', hws⟩ := List.getLast?_eq_some_iff.mp h
  rw [ownLast, hfilter, hws, List.filter_append]
  simp [hid]

/-- The script of a write is longer than its value. -/
theorem value_length (c : Setting) (id : Int32) (value : CString) :
    value.bytes.length ≤ (c.sql id value).length := by
  simp only [Setting.sql, printUpdate, List.flatMap_cons, printAssign, List.length_append,
    List.length_cons]
  omega

/-- In a run whose values have no quotes an account reads its last write exactly if every statement
fits its buffer, and either it has written nothing or the last write is its own and not empty. -/
theorem keepsSettings_iff (A : Affinity) (ws : List Write) (c : Setting) (id : Int32)
    (hquote : ∀ w ∈ ws, quote ∉ w.value.bytes) :
    KeepsSetting A ws c id ↔
      (∀ w ∈ ws, (w.setting.sql w.account w.value).length < bufsiz) ∧
        ((∀ w ∈ ws, w.setting = c → w.account ≠ id) ∨
          ∃ w, lastWrite c ws = some w ∧ w.account = id ∧ w.value.bytes ≠ []) := by
  by_cases hfits : ∀ w ∈ ws, (w.setting.sql w.account w.value).length < bufsiz
  · obtain ⟨db, hdb, hheld⟩ := writes_held A ws hquote hfits
    have hlast (w : Write) (hw : lastWrite c ws = some w) : w ∈ ws ∧ w.setting = c := by
      simpa using List.mem_filter.mp (List.mem_of_getLast? hw)
    have hread := hheld.fromDatabase c id fun w hw =>
      (value_length _ _ _).trans_lt (hfits w (hlast w hw).1)
    have hkeeps : KeepsSetting A ws c id ↔ ((lastWrite c ws).bind fun w =>
        if w.account = id ∧ w.value.bytes ≠ [] then some w.value.bytes else none) =
          ownLast c id ws := by
      constructor
      · rintro ⟨db', hdb', hown⟩
        cases hdb.symm.trans hdb'
        exact Option.some.inj (hread.symm.trans hown)
      · intro h
        exact ⟨db, hdb, hread.trans (congrArg some h)⟩
    rw [hkeeps]
    constructor
    · intro h
      refine ⟨hfits, ?_⟩
      cases hown : ownLast c id ws with
      | none => exact .inl (ownLast_eq_none_iff.mp hown)
      | some v =>
        rw [hown] at h
        obtain ⟨w, hw, hv⟩ := Option.bind_eq_some_iff.mp h
        split_ifs at hv with hcond
        exact .inr ⟨w, hw, hcond⟩
    · rintro ⟨-, hnone | ⟨w, hw, hid, hv⟩⟩
      · rw [ownLast_eq_none_iff.mpr hnone, Option.bind_eq_none_iff]
        intro w hw
        exact if_neg fun hcond => hnone w (hlast w hw).1 (hlast w hw).2 hcond.1
      · rw [hw, ownLast_of_last hw hid, Option.bind_some, if_pos ⟨hid, hv⟩]
  · refine iff_of_false ?_ fun h => hfits h.1
    rintro ⟨db, hdb, -⟩
    exact hfits (fits_of_writes hdb)

/-- Two accounts that each write a number. -/
def twoNumbers : List Write :=
  [⟨1, .phoneNumber, ⟨Sql.bytes "+71", by decide⟩⟩, ⟨2, .phoneNumber, ⟨Sql.bytes "+72", by decide⟩⟩]

/-- The second account reads its number. -/
theorem keepsSettings_second : KeepsSetting Affinity.none twoNumbers .phoneNumber 2 :=
  (keepsSettings_iff Affinity.none twoNumbers .phoneNumber 2 (by decide)).mpr
    ⟨by decide +kernel, .inr ⟨_, rfl, rfl, by decide⟩⟩

/-- The first account reads nothing. -/
theorem keepsSettings_counterexample : (∀ w ∈ twoNumbers, quote ∉ w.value.bytes) ∧
    ¬ KeepsSetting Affinity.none twoNumbers .phoneNumber 1 := by
  refine ⟨by decide, ?_⟩
  obtain ⟨db, hdb, hheld⟩ := writes_held Affinity.none twoNumbers (by decide) (by decide +kernel)
  have hread := hheld.fromDatabase .phoneNumber 1 (by decide)
  rintro ⟨db', hdb', hown⟩
  cases hdb.symm.trans hdb'
  cases hread.symm.trans hown

end Libtg.Database
