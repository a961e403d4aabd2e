import Libtg.Lib.LastOf
import Libtg.Lib.SqlBind
import Libtg.Tg.Settings

/-!
# The keys in the database (`tg/database.c`)

`auth_key_to_database` adds its column by a script of its own, which may fail, makes a row for the
account if there is none, and sets the key in this row by a statement with a parameter. So there is
one row for each account that has stored a key, and it has the key that was stored last
(`KeyTable`).
-/

namespace Libtg.Database

open Sql LastOf

/-- A key that is not empty. -/
structure AuthKey where
  bytes : Text
  nonempty : bytes ≠ []

def insertKeySql (id : Int32) : Text :=
  printInsertBare (Sql.bytes "auth_keys") (Sql.bytes "id") id.toInt ++ Sql.bytes " "

def updateKeySql (id : Int32) : Text :=
  printBoundUpdate (Sql.bytes "auth_keys") (Sql.bytes "auth_key") (Sql.bytes "id") id.toInt
    (Sql.bytes " ")

example : insertKeySql 7 = Sql.bytes ("INSERT INTO 'auth_keys' (id) SELECT 7 WHERE NOT EXISTS "
    ++ "(SELECT 1 FROM auth_keys WHERE id = 7); ") := by decide +kernel

example : updateKeySql 7 = Sql.bytes "UPDATE 'auth_keys' SET 'auth_key' = (?) WHERE id = 7; " := by
  decide +kernel

/-- `auth_key_to_database`. What the scripts answer is not looked at. -/
def authKeyToDatabase (A : Affinity) (id : Int32) (key : AuthKey) (db : Db) : Db :=
  let db := (exec A db (printAddColumn (Sql.bytes "auth_keys") (Sql.bytes "auth_key")
    (Sql.bytes "BLOB") ++ Sql.bytes " ")).1
  let db := (exec A db (insertKeySql id)).1
  execBound A (.blob key.bytes) db (updateKeySql id)

/-- `sqlite3_column_blob`, as many bytes as `sqlite3_column_bytes` says. -/
def columnBlob (v : Value) : Text := (columnText v).getD []

/-- `auth_key_from_database`. -/
def authKeyFromDatabase (id : Int32) (db : Db) : Text :=
  ((select db [Sql.bytes "auth_key"] (Sql.bytes "auth_keys")
    [⟨Sql.bytes "id", id.toInt⟩]).getD []).foldl (fun _ row => columnBlob (row.head?.getD .null)) []

/-- A call of `auth_key_to_database` by a session with this account. -/
structure KeyWrite where
  account : Int32
  key : AuthKey

def KeyWrite.run (A : Affinity) (db : Db) (w : KeyWrite) : Db :=
  authKeyToDatabase A w.account w.key db

def keyWrites (A : Affinity) (ws : List KeyWrite) : Db := ws.foldl (KeyWrite.run A) (initial A)

/-- The key that is stored for this account. -/
def KeyWrite.of (id : Int32) (w : KeyWrite) : Option Text :=
  if w.account = id then some w.key.bytes else none

/-- The key that the account has stored last. -/
def lastKey (id : Int32) (ws : List KeyWrite) : Option Text := lastOf (KeyWrite.of id) ws

/-! ## The table -/

def keyColumns : List Column :=
  newColumns none ++ [⟨Sql.bytes "auth_key", Sql.bytes "BLOB", false⟩]

/-- The table has the column once a key has been stored, and for each account a row with the key it
has stored last. -/
structure KeyTable (ws : List KeyWrite) (t : Table) : Prop where
  cols : t.cols = newColumns none ∧ t.rows = [] ∨ t.cols = keyColumns
  keyed : t.Keyed (Sql.bytes "id")
  rows : ∀ id : Int32, (t.rows.filter fun r => Cond.holds ⟨Sql.bytes "id", id.toInt⟩ r).map
    (fun r => r (Sql.bytes "auth_key")) = (lastKey id ws).toList.map .blob

section
variable {A : SqliteAffinity} {ws : List KeyWrite} {w : KeyWrite} {t : Table} {db : Db} {id : Int32}

theorem names_key : IsName (Sql.bytes "auth_keys") ∧ IsName (Sql.bytes "auth_key") ∧
    IsName (Sql.bytes "id") ∧ IsName (Sql.bytes "BLOB") := by decide +kernel

theorem keyColumns_unique : ∀ c ∈ keyColumns, c.unique → c.name = Sql.bytes "id" := by decide

theorem set_authKey (t : Table) (v : Value) (r : Row) :
    t.set A.toAffinity [(Sql.bytes "auth_key", v)] r (Sql.bytes "id") = r (Sql.bytes "id") := by
  have hne : Sql.bytes "auth_key" ≠ Sql.bytes "id" := by decide
  exact Table.set_of_ne (List.forall_mem_singleton.mpr hne) r

theorem initial_keyTable (A : SqliteAffinity) :
    ∃ t, initial A.toAffinity (Sql.bytes "auth_keys") = some t ∧ KeyTable [] t := by
  rw [initial, exec_of_parse parse_initSql]
  exact ⟨⟨newColumns none, []⟩, rfl, .inl ⟨rfl, rfl⟩, ⟨by decide, List.nodup_nil⟩, fun _ => rfl⟩

/-- The column is there after its addition, whether it was before or not. -/
theorem KeyTable.addColumn (h : KeyTable ws t) (htable : db (Sql.bytes "auth_keys") = some t) :
    (exec A.toAffinity db (printAddColumn (Sql.bytes "auth_keys") (Sql.bytes "auth_key")
      (Sql.bytes "BLOB") ++ Sql.bytes " ")).1 (Sql.bytes "auth_keys") =
        some ⟨keyColumns, t.rows⟩ := by
  obtain ⟨htab, hcol, -, hblob⟩ := names_key
  rw [exec_printAddColumn ⟨htab, hcol, hblob⟩ lex_blank htable]
  obtain ⟨cols, rows⟩ := t
  obtain ⟨hcols, -⟩ | hcols := h.cols
  · cases hcols
    exact Function.update_self (Sql.bytes "auth_keys") _ db
  · cases hcols
    exact htable

/-- A write puts the row of its account. -/
theorem KeyTable.run_eq (h : KeyTable ws t) (htable : db (Sql.bytes "auth_keys") = some t) :
    (w.run A.toAffinity db) (Sql.bytes "auth_keys") = some ⟨keyColumns,
      putRow (Sql.bytes "id") w.account.toInt (Table.set A.toAffinity ⟨keyColumns, t.rows⟩
        [(Sql.bytes "auth_key", .blob w.key.bytes)]) t.rows⟩ := by
  obtain ⟨htab, hcol, hid, -⟩ := names_key
  have hkey : Table.HasInt ⟨keyColumns, t.rows⟩ (Sql.bytes "id") :=
    ⟨⟨Sql.bytes "id", Sql.bytes "INT", false⟩, rfl, rfl⟩
  have hkeyed : Table.Keyed (Sql.bytes "id") ⟨keyColumns, t.rows⟩ :=
    ⟨keyColumns_unique, h.keyed.nodup⟩
  have hinsert := stmt_printInsertBare htab hid (int32_int64 w.account) (Sql.bytes " ")
  rw [show lexFrom .ready (Sql.bytes " ") = [] from lex_blank] at hinsert
  have hadd := h.addColumn (A := A) htable
  rw [KeyWrite.run, authKeyToDatabase, insertKeySql, exec_of_parse (parse_single hinsert),
    runAll_cons (run_insertKey hadd hkeyed hkey (int32_int64 _)), runAll, updateKeySql]
  rw [execBound_eq (boundUpdate_print htab hcol hid (int32_int64 _) _)
    (run_updateKey (Function.update_self ..) hkeyed.addRow hkey.has
      (List.forall_mem_singleton.mpr rfl) fun r hr => (set_authKey _ _ r).trans hr),
    Function.update_self]
  rfl

theorem lastKey_append (id : Int32) (ws : List KeyWrite) (w : KeyWrite) :
    lastKey id (ws ++ [w]) = if w.account = id then some w.key.bytes else lastKey id ws := by
  rw [lastKey, lastOf_append, KeyWrite.of]
  split_ifs <;> rfl

theorem KeyTable.put (h : KeyTable ws t) (w : KeyWrite) : KeyTable (ws ++ [w]) ⟨keyColumns,
    putRow (Sql.bytes "id") w.account.toInt (Table.set A.toAffinity ⟨keyColumns, t.rows⟩
      [(Sql.bytes "auth_key", .blob w.key.bytes)]) t.rows⟩ := by
  have hset (r : Row) (hr : r (Sql.bytes "id") = .int w.account.toInt) :
      Table.set A.toAffinity ⟨keyColumns, t.rows⟩ [(Sql.bytes "auth_key", .blob w.key.bytes)] r
        (Sql.bytes "id") = .int w.account.toInt :=
    (set_authKey _ _ r).trans hr
  refine ⟨.inr rfl, ⟨keyColumns_unique, ?_⟩, fun id => ?_⟩
  · rw [putRow_keys hset]
    exact addRow_nodup h.keyed.nodup
  · rw [lastKey_append]
    split_ifs with hid
    · subst hid
      obtain ⟨r, hr⟩ := filter_putRow h.keyed.nodup hset
      rw [hr]
      exact congrArg (fun v => [v]) (A.blob _)
    · have hother : decide (Value.int w.account.toInt = .int id.toInt) = false := by
        simpa [Int32.toInt_inj] using hid
      have hfilter : (putRow (Sql.bytes "id") w.account.toInt (Table.set A.toAffinity
          ⟨keyColumns, t.rows⟩ [(Sql.bytes "auth_key", .blob w.key.bytes)]) t.rows).filter
            (fun r => Cond.holds ⟨Sql.bytes "id", id.toInt⟩ r) =
              t.rows.filter fun r => Cond.holds ⟨Sql.bytes "id", id.toInt⟩ r :=
        filter_putRow_of_notMem (p := fun v => decide (v = .int id.toInt)) hother hset
      rw [← h.rows id, hfilter]

/-- After any run each account has its last key. -/
theorem keyWrites_table (A : SqliteAffinity) (ws : List KeyWrite) :
    ∃ t, keyWrites A.toAffinity ws (Sql.bytes "auth_keys") = some t ∧ KeyTable ws t := by
  induction ws using List.reverseRecOn with
  | nil => exact initial_keyTable A
  | append_singleton ws w ih =>
    obtain ⟨t, htable, h⟩ := ih
    rw [keyWrites, List.foldl_append, ← keyWrites]
    exact ⟨_, h.run_eq htable, h.put w⟩

theorem KeyTable.authKey (h : KeyTable ws t) (htable : db (Sql.bytes "auth_keys") = some t)
    (id : Int32) : authKeyFromDatabase id db = (lastKey id ws).getD [] := by
  have hrows := h.rows id
  have hfilter : t.rows.filter (fun r => [⟨Sql.bytes "id", id.toInt⟩].all fun c => Cond.holds c r) =
      t.rows.filter fun r => Cond.holds ⟨Sql.bytes "id", id.toInt⟩ r :=
    List.filter_congr fun r _ => Bool.and_true _
  obtain ⟨hcols, hnil⟩ | hcols := h.cols
  · rw [hnil] at hrows
    have hnone : lastKey id ws = none := by
      simpa using hrows.symm
    have hhas : t.has (Sql.bytes "auth_key") = false := by
      rw [Table.has, Table.column, hcols]
      rfl
    simp [authKeyFromDatabase, select, htable, hhas, hnone]
  · have hhas : t.has (Sql.bytes "auth_key") ∧ t.has (Sql.bytes "id") := by
      rw [Table.has, Table.has, Table.column, Table.column, hcols]
      exact ⟨rfl, rfl⟩
    have hselect : select db [Sql.bytes "auth_key"] (Sql.bytes "auth_keys")
        [⟨Sql.bytes "id", id.toInt⟩] =
          some (((lastKey id ws).toList.map Value.blob).map fun v => [v]) := by
      rw [← hrows, List.map_map]
      simp only [select, htable, List.all_cons, List.all_nil, Bool.and_true, hhas, and_self,
        if_true]
      rfl
    rw [authKeyFromDatabase, hselect]
    cases lastKey id ws <;> rfl

end

/-- The key of an account survives: it is the one the account has stored last, whatever the others
have stored in between, and there is none if it has stored none. -/
theorem authKey_survives (A : SqliteAffinity) (ws : List KeyWrite) (id : Int32) :
    authKeyFromDatabase id (keyWrites A.toAffinity ws) = (lastKey id ws).getD [] := by
  obtain ⟨t, htable, h⟩ := keyWrites_table A ws
  exact h.authKey htable id

end Libtg.Database
