import Libtg.Lib.LastOf
import Libtg.Tg.Settings

/-!
# The hashes in the database (`tg/database.c`)

The scripts of `dialogs_hash_to_database` and `messages_hash_to_database` begin with the addition of
their columns, and `sqlite3_exec` stops where that fails: from the second write on nothing is
written. The update of `messages_hash_to_database` compares the text `'peer_id'` with a number and
takes no row. Where no row is found, both readers return a variable that was never set.
-/

namespace Libtg.Database

open Sql LastOf

/-! ## The scripts -/

def dialogsHashSql (id : Int32) (hash : UInt64) : Text :=
  printAddColumn (bytes "dialogs_hash") (bytes "hash") (bytes "INT") ++ (bytes " " ++
    (printInsert (bytes "dialogs_hash") (bytes "id") " SELECT " id.toInt ++ (bytes " " ++
      printUpdate (bytes "dialogs_hash") [(bytes "hash", .text (intText (ld hash)))] (bytes "id")
        id.toInt (bytes "; "))))

def messagesHashSql (id : Int32) (peerId hash : UInt64) : Text :=
  printAddColumn (bytes "messages_hash") (bytes "hash") (bytes "INT") ++ (bytes " " ++
    (printAddColumn (bytes "messages_hash") (bytes "peer_id") (bytes "INT") ++ (bytes " " ++
      (printInsert (bytes "messages_hash") (bytes "peer_id") " SELECT " (ld peerId) ++ (bytes " " ++
        printUpdate (bytes "messages_hash") [(bytes "hash", .int (ld hash))] (bytes "id") id.toInt
          (printWhereText (bytes "peer_id") (ld peerId) (bytes ";")))))))

example : dialogsHashSql 7 5 = bytes ("ALTER TABLE 'dialogs_hash' ADD COLUMN 'hash' INT; "
      ++ "INSERT INTO 'dialogs_hash' ('id') SELECT 7 WHERE NOT EXISTS (SELECT 1 FROM dialogs_hash "
      ++ "WHERE id = 7); UPDATE 'dialogs_hash' SET 'hash' = '5', id = 7; ") := by decide +kernel

example : messagesHashSql 7 3 5 = bytes ("ALTER TABLE 'messages_hash' ADD COLUMN 'hash' INT; "
      ++ "ALTER TABLE 'messages_hash' ADD COLUMN 'peer_id' INT; "
      ++ "INSERT INTO 'messages_hash' ('peer_id') SELECT 3 WHERE NOT EXISTS (SELECT 1 FROM "
      ++ "messages_hash WHERE peer_id = 3); UPDATE 'messages_hash' SET 'hash' = 5, id = 7 "
      ++ "WHERE 'peer_id' = 3;") := by decide +kernel

/-- A call of `dialogs_hash_to_database` or `messages_hash_to_database`. -/
inductive HashWrite where
  | dialogs (hash : UInt64)
  | messages (peerId hash : UInt64)

/-- The results are only returned. -/
def HashWrite.run (A : Affinity) (id : Int32) (db : Db) : HashWrite → Db
  | dialogs hash => (exec A db (dialogsHashSql id hash)).1
  | messages peerId hash => (exec A db (messagesHashSql id peerId hash)).1

def hashWrites (A : Affinity) (id : Int32) (ws : List HashWrite) : Db :=
  ws.foldl (HashWrite.run A id) (initial A)

/-! ## The readers -/

/-- The last row of a query, or what is in the variable if there is none. -/
def hashOf (stack : UInt64) (rows : Option (List (List Value))) : UInt64 :=
  (rows.getD []).foldl
    (fun _ row => UInt64.ofInt (columnInt64 ((row.head?).getD .null))) stack

/-- `dialogs_hash_from_database`; `stack` is what its variable `hash` finds on the stack. -/
def dialogsHashFromDatabase (stack : UInt64) (id : Int32) (db : Db) : UInt64 :=
  hashOf stack (select db [bytes "hash"] (bytes "dialogs_hash") [⟨bytes "id", id.toInt⟩])

/-- `messages_hash_from_database`. -/
def messagesHashFromDatabase (stack : UInt64) (id : Int32) (peerId : UInt64) (db : Db) : UInt64 :=
  hashOf stack (select db [bytes "hash"] (bytes "messages_hash")
    [⟨bytes "id", id.toInt⟩, ⟨bytes "peer_id", ld peerId⟩])

/-! ## What is asked for -/

def HashWrite.dialogs? : HashWrite → Option UInt64
  | dialogs hash => some hash
  | messages _ _ => none

/-- The hash that is written for this peer. -/
def HashWrite.messages? (peerId : UInt64) : HashWrite → Option UInt64
  | dialogs _ => none
  | messages q hash => if q = peerId then some hash else none

/-- The last hash that was written, or 0. -/
def lastDialogsHash (ws : List HashWrite) : UInt64 := (lastOf HashWrite.dialogs? ws).getD 0

def lastMessagesHash (peerId : UInt64) (ws : List HashWrite) : UInt64 :=
  (lastOf (HashWrite.messages? peerId) ws).getD 0

/-- The hashes that were written are read back, where the readers find these values on the stack. -/
structure KeepsHashes (A : Affinity) (id : Int32) (ws : List HashWrite) (stack : UInt64)
    (peerStack : UInt64 → UInt64) : Prop where
  dialogs : dialogsHashFromDatabase stack id (hashWrites A id ws) = lastDialogsHash ws
  messages : ∀ peerId, messagesHashFromDatabase (peerStack peerId) id peerId (hashWrites A id ws) =
    lastMessagesHash peerId ws

/-- The first hash that was written for the dialogs. -/
def firstDialogsHash (ws : List HashWrite) : Option UInt64 :=
  (ws.filterMap HashWrite.dialogs?).head?

/-! ## What a write does -/

section
variable {A : SqliteAffinity} {id : Int32} {hash peerId : UInt64} {db : Db} {t : Table}
  {ws : List HashWrite}

def hashColumn : Column := ⟨bytes "hash", bytes "INT", false⟩
def peerColumn : Column := ⟨bytes "peer_id", bytes "INT", false⟩

theorem names_hash : (IsName (bytes "dialogs_hash") ∧ IsName (bytes "messages_hash")) ∧
    IsName (bytes "hash") ∧ IsName (bytes "peer_id") ∧ IsName (bytes "id") ∧
      IsName (bytes "INT") := by decide +kernel

theorem select_blanks : scan .ready (bytes " SELECT ") = ([.word (bytes "SELECT")], .ready) := by
  decide

theorem parse_dialogsHashSql (id : Int32) (hash : UInt64) : parse (dialogsHashSql id hash) =
    some [.addColumn (bytes "dialogs_hash") hashColumn,
      .insertUnless (bytes "dialogs_hash") (bytes "id") id.toInt (bytes "dialogs_hash")
        ⟨bytes "id", id.toInt⟩,
      .update (bytes "dialogs_hash") [(bytes "hash", .text (intText (ld hash))),
        (bytes "id", .int id.toInt)] none] := by
  obtain ⟨⟨htable, -⟩, hhash, -, hid, hint⟩ := names_hash
  have hsafe : (Value.text (intText (ld hash))).Safe := quote_notMem_intText _
  refine parse_of_script (.cons (stmt_printAddColumn htable hhash hint _) ?_) ?_
  · rw [lexFrom_blank]
    refine .cons (stmt_printInsert htable hid (int32_int64 id) select_blanks _) ?_
    rw [lexFrom_blank]
    exact .cons (stmt_printUpdate htable hid (int32_int64 id)
      (List.forall_mem_singleton.mpr hhash.quote_not_mem)
      (List.forall_mem_singleton.mpr hsafe) (bytes " ")) .nil
  · exact (by decide : 3 ≤ 4).trans (length_printAddColumn htable hhash hint _)

theorem parse_messagesHashSql (id : Int32) (peerId hash : UInt64) :
    parse (messagesHashSql id peerId hash) =
      some [.addColumn (bytes "messages_hash") hashColumn,
        .addColumn (bytes "messages_hash") peerColumn,
        .insertUnless (bytes "messages_hash") (bytes "peer_id") (ld peerId) (bytes "messages_hash")
          ⟨bytes "peer_id", ld peerId⟩,
        .updateNone (bytes "messages_hash") [(bytes "hash", .int (ld hash)),
          (bytes "id", .int id.toInt)] (bytes "peer_id") (ld peerId)] := by
  obtain ⟨⟨-, htable⟩, hhash, hpeer, hid, hint⟩ := names_hash
  have hsafe : (Value.int (ld hash)).Safe := ld_int64 _
  refine parse_of_script (.cons (stmt_printAddColumn htable hhash hint _) ?_) ?_
  · rw [lexFrom_blank]
    refine .cons (stmt_printAddColumn htable hpeer hint _) ?_
    rw [lexFrom_blank]
    refine .cons (stmt_printInsert htable hpeer (ld_int64 peerId) select_blanks _) ?_
    rw [lexFrom_blank]
    exact .cons (stmt_printUpdate_whereText htable hid hpeer (int32_int64 id) (ld_int64 _)
      (List.forall_mem_singleton.mpr hhash.quote_not_mem)
      (List.forall_mem_singleton.mpr hsafe) []) .nil
  · exact length_printAddColumn htable hhash hint _

/-- The table of the dialogs: once a hash has been written, it has one row with the first. -/
def DialogsTable (id : Int32) (first : Option UInt64) (t : Table) : Prop :=
  match first with
  | none => t = ⟨newColumns none, []⟩
  | some hash => t.cols = newColumns none ++ [hashColumn] ∧ ∃ r, t.rows = [r] ∧
      r (bytes "id") = .int id.toInt ∧ r (bytes "hash") = .int (ld hash)

/-- The table of the messages: no row has an account. -/
def MessagesTable (t : Table) : Prop :=
  t = ⟨newColumns none, []⟩ ∨ t.cols = newColumns none ++ [hashColumn, peerColumn] ∧
    ∀ r ∈ t.rows, r (bytes "id") = .null

/-- Both tables. -/
structure HashTables (id : Int32) (first : Option UInt64) (db : Db) : Prop where
  dialogs : ∃ t, db (bytes "dialogs_hash") = some t ∧ DialogsTable id first t
  messages : ∃ t, db (bytes "messages_hash") = some t ∧ MessagesTable t

theorem initial_hashTables (A : SqliteAffinity) (id : Int32) :
    HashTables id none (initial A.toAffinity) := by
  rw [initial, exec_of_parse parse_initSql]
  exact ⟨⟨_, rfl, rfl⟩, ⟨_, rfl, .inl rfl⟩⟩

/-- A script that adds a column again is not run. -/
theorem exec_again {b table : Text} {col : Column} {ss : List Stmt}
    (h : parse b = some (.addColumn table col :: ss)) (htable : db table = some t)
    (hcol : t.has col.name) : (exec A.toAffinity db b).1 = db := by
  rw [exec_of_parse h, runAll_stop (run_addColumn_again htable hcol)]

theorem HashTables.dialogs_first (h : HashTables id none db) (hash : UInt64) :
    HashTables id (some hash) (exec A.toAffinity db (dialogsHashSql id hash)).1 := by
  obtain ⟨t, htable, rfl⟩ := h.dialogs
  let t : Table := ⟨newColumns none ++ [hashColumn], []⟩
  let as : List (Text × Value) :=
    [(bytes "hash", .text (intText (ld hash))), (bytes "id", .int id.toInt)]
  have hadd : run A.toAffinity db (.addColumn (bytes "dialogs_hash") hashColumn) =
      some (Function.update db (bytes "dialogs_hash") (some t)) := run_addColumn htable rfl
  have hhas : ∀ a ∈ as, t.has a.1 :=
    List.forall_mem_cons.mpr ⟨rfl, List.forall_mem_singleton.mpr rfl⟩
  have hput := runAll_putAll (A := A.toAffinity) (Function.update_self (bytes "dialogs_hash") _ db)
    (by decide : ∀ c ∈ t.cols, c.unique = false)
    (⟨⟨bytes "id", bytes "INT", false⟩, rfl, rfl⟩ : t.HasInt (bytes "id")) (int32_int64 id) hhas
  let r := t.set A.toAffinity as (newRow (bytes "id") id.toInt)
  have hexec : (exec A.toAffinity db (dialogsHashSql id hash)).1 =
      Function.update db (bytes "dialogs_hash") (some { t with rows := [r] }) := by
    rw [exec_of_parse (parse_dialogsHashSql id hash), runAll_cons hadd, hput, Function.update_idem]
    rfl
  rw [hexec]
  constructor
  · refine ⟨{ t with rows := [r] }, Function.update_self .., rfl, r, rfl, ?_, ?_⟩
    · exact A.int _ (int32_int64 id)
    · exact A.numeral _ (ld_int64 hash)
  · obtain ⟨t', htable', ht'⟩ := h.messages
    have hne : bytes "messages_hash" ≠ bytes "dialogs_hash" := by decide
    exact ⟨t', (Function.update_of_ne hne ..).trans htable', ht'⟩

theorem HashTables.dialogs_again {first : UInt64} (h : HashTables id (some first) db)
    (hash : UInt64) : (exec A.toAffinity db (dialogsHashSql id hash)).1 = db := by
  obtain ⟨t, htable, hcols, -⟩ := h.dialogs
  refine exec_again (parse_dialogsHashSql id hash) htable ?_
  rw [Table.has, Table.column, hcols]
  rfl

/-- The row that is made is left without an account. -/
theorem HashTables.messages_run {first : Option UInt64} (h : HashTables id first db)
    (peerId hash : UInt64) :
    HashTables id first (exec A.toAffinity db (messagesHashSql id peerId hash)).1 := by
  obtain ⟨t, htable, rfl | ⟨hcols, hrows⟩⟩ := h.messages
  · let t₁ : Table := ⟨newColumns none ++ [hashColumn], []⟩
    let t₂ : Table := ⟨newColumns none ++ [hashColumn, peerColumn], []⟩
    let t₃ : Table := { t₂ with rows := addRow (bytes "peer_id") (ld peerId) [] }
    let as : List (Text × Value) := [(bytes "hash", .int (ld hash)), (bytes "id", .int id.toInt)]
    have hhash : run A.toAffinity db (.addColumn (bytes "messages_hash") hashColumn) =
        some (Function.update db (bytes "messages_hash") (some t₁)) := run_addColumn htable rfl
    have hpeer : run A.toAffinity (Function.update db (bytes "messages_hash") (some t₁))
        (.addColumn (bytes "messages_hash") peerColumn) =
          some (Function.update _ (bytes "messages_hash") (some t₂)) :=
      run_addColumn (Function.update_self ..) rfl
    have hinsert := run_insertUnless (A := A.toAffinity) (k := ld peerId)
      (Function.update_self (bytes "messages_hash") (some t₂)
        (Function.update db (bytes "messages_hash") (some t₁)))
      (⟨peerColumn, rfl, rfl⟩ : t₂.HasInt (bytes "peer_id")) (ld_int64 peerId)
      fun _ => conflict_of_noUnique (by decide : ∀ c ∈ t₂.cols, c.unique = false)
    let db₂ := Function.update (Function.update db (bytes "messages_hash") (some t₁))
      (bytes "messages_hash") (some t₂)
    have hupdate : run A.toAffinity (Function.update db₂ (bytes "messages_hash") (some t₃))
        (.updateNone (bytes "messages_hash") as (bytes "peer_id") (ld peerId)) = some _ :=
      run_updateNone (Function.update_self ..)
        (List.forall_mem_cons.mpr ⟨rfl, List.forall_mem_singleton.mpr rfl⟩)
    have hexec : (exec A.toAffinity db (messagesHashSql id peerId hash)).1 =
        Function.update db (bytes "messages_hash") (some t₃) := by
      rw [exec_of_parse (parse_messagesHashSql id peerId hash), runAll_cons hhash,
        runAll_cons hpeer, runAll_cons hinsert, runAll_cons hupdate, runAll, Function.update_idem,
        Function.update_idem]
    rw [hexec]
    constructor
    · obtain ⟨t, htable, ht⟩ := h.dialogs
      have hne : bytes "dialogs_hash" ≠ bytes "messages_hash" := by decide
      exact ⟨t, (Function.update_of_ne hne ..).trans htable, ht⟩
    · refine ⟨t₃, Function.update_self .., .inr ⟨rfl, fun r hr => ?_⟩⟩
      rw [List.mem_singleton.mp (show r ∈ [newRow (bytes "peer_id") (ld peerId)] from hr)]
      rfl
  · have hsame : (exec A.toAffinity db (messagesHashSql id peerId hash)).1 = db := by
      refine exec_again (parse_messagesHashSql id peerId hash) htable ?_
      rw [Table.has, Table.column, hcols]
      rfl
    rw [hsame]
    exact h

theorem firstDialogsHash_append (ws : List HashWrite) (w : HashWrite) :
    firstDialogsHash (ws ++ [w]) = (firstDialogsHash ws).or w.dialogs? := by
  rw [firstDialogsHash, List.filterMap_append, List.head?_append]
  cases w <;> rfl

/-- After any run the table has the first hash. -/
theorem hashWrites_tables (A : SqliteAffinity) (id : Int32) (ws : List HashWrite) :
    HashTables id (firstDialogsHash ws) (hashWrites A.toAffinity id ws) := by
  induction ws using List.reverseRecOn with
  | nil => exact initial_hashTables A id
  | append_singleton ws w ih =>
    rw [hashWrites, List.foldl_append, ← hashWrites, firstDialogsHash_append]
    cases w with
    | dialogs hash =>
      generalize firstDialogsHash ws = first at *
      cases first with
      | none => exact ih.dialogs_first hash
      | some first =>
        rw [List.foldl_cons, List.foldl_nil, HashWrite.run, ih.dialogs_again hash]
        exact ih
    | messages peerId hash =>
      rw [HashWrite.dialogs?, Option.or_none]
      exact ih.messages_run peerId hash

/-! ## What is read -/

theorem HashTables.dialogsHash {first : Option UInt64} (h : HashTables id first db)
    (stack : UInt64) : dialogsHashFromDatabase stack id db = first.getD stack := by
  obtain ⟨t, htable, ht⟩ := h.dialogs
  cases first with
  | none =>
    cases ht
    simp [dialogsHashFromDatabase, select, htable, hashOf, show
      Table.has ⟨newColumns none, []⟩ (bytes "hash") = false from rfl]
  | some hash =>
    obtain ⟨hcols, r, hrows, hid, hhash⟩ := ht
    have hhas : t.has (bytes "hash") ∧ t.has (bytes "id") := by
      rw [Table.has, Table.has, Table.column, Table.column, hcols]
      exact ⟨rfl, rfl⟩
    have hselect : select db [bytes "hash"] (bytes "dialogs_hash") [⟨bytes "id", id.toInt⟩] =
        some [[.int (ld hash)]] := by
      simp [select, htable, hhas, hrows, Cond.holds, hid, hhash]
    rw [dialogsHashFromDatabase, hselect]
    exact ofInt_ld hash

theorem HashTables.messagesHash {first : Option UInt64} (h : HashTables id first db)
    (stack peerId : UInt64) : messagesHashFromDatabase stack id peerId db = stack := by
  obtain ⟨t, htable, ht⟩ := h.messages
  have hselect : (select db [bytes "hash"] (bytes "messages_hash")
      [⟨bytes "id", id.toInt⟩, ⟨bytes "peer_id", ld peerId⟩]).getD [] = [] := by
    rcases ht with rfl | ⟨hcols, hrows⟩
    · simp only [select, htable, List.filter_nil, List.map_nil]
      split_ifs <;> rfl
    · have hnone : t.rows.filter (fun r => [⟨bytes "id", id.toInt⟩,
          ⟨bytes "peer_id", ld peerId⟩].all fun c => Cond.holds c r) = [] := by
        refine List.filter_eq_nil_iff.mpr fun r hr => ?_
        simp [Cond.holds, hrows r hr]
      simp only [select, htable, hnone]
      split_ifs <;> rfl
  rw [messagesHashFromDatabase, hashOf, hselect]
  rfl

end

/-- The hashes are read back if and only if the first hash of the dialogs is also the last one (or 0
is found on the stack where there is none), and what is found on the stack for a peer is the hash
that was written for it. -/
theorem keepsHashes_iff (A : SqliteAffinity) (id : Int32) (ws : List HashWrite) (stack : UInt64)
    (peerStack : UInt64 → UInt64) : KeepsHashes A.toAffinity id ws stack peerStack ↔
      (firstDialogsHash ws).getD stack = lastDialogsHash ws ∧
        ∀ peerId, peerStack peerId = lastMessagesHash peerId ws := by
  have h := hashWrites_tables A id ws
  constructor
  · rintro ⟨hdialogs, hmessages⟩
    rw [h.dialogsHash] at hdialogs
    exact ⟨hdialogs, fun peerId => (h.messagesHash _ _).symm.trans (hmessages peerId)⟩
  · rintro ⟨hdialogs, hmessages⟩
    exact ⟨(h.dialogsHash stack).trans hdialogs,
      fun peerId => (h.messagesHash _ _).trans (hmessages peerId)⟩

/-- The second hash is not written. -/
theorem not_keepsHashes_second : ¬ KeepsHashes SqliteAffinity.plain.toAffinity 7
    [.dialogs 1, .dialogs 2] 0 (fun _ => 0) := by
  intro h
  have hfirst := (hashWrites_tables SqliteAffinity.plain 7 [.dialogs 1, .dialogs 2]).dialogsHash 0
  exact absurd (hfirst.symm.trans h.dialogs) (by decide)

end Libtg.Database
