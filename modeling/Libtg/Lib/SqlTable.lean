import Libtg.Lib.SqlStmt

/-!
# Tables

What the statements do. A database is a partial function from names to tables, a row one from
columns to values. `exec` runs a text as `sqlite3_exec` does, statement by statement up to the first
that cannot be read or run; what ran before stays (`exec_of_parse`).

`Keyed`: no two rows have the same key, and nothing else has to be unique. On such a table the
insertion of a key that is not there and the update of its row are one step, `putRow`
(`runAll_put`).
-/

namespace Sql

/-- What a column of a declared type makes of a value that is put in it, a real being the text it is
shown as. An `INT` column leaves an integer as it is and a `TEXT` column a text. -/
structure Affinity where
  store : Text → Value → Value
  int : ∀ n, IsInt64 n → store (bytes "INT") (.int n) = .int n
  text : ∀ t, store (bytes "TEXT") (.text t) = .text t

/-- Every value is kept as it is. -/
def Affinity.none : Affinity where
  store _ := id
  int _ _ := id_eq _
  text _ := id_eq _

/-- A numeral is a number in an `INT` column, and a `BLOB` column takes everything as it is. -/
structure SqliteAffinity extends Affinity where
  numeral : ∀ n, IsInt64 n → store (bytes "INT") (.text (intText n)) = .int n
  blob : ∀ v, store (bytes "BLOB") v = v

/-- The number that a text is. -/
def ofNumeral (t : Text) : Value :=
  match int (lex t) with
  | some (n, []) => .int n
  | _ => .text t

theorem ofNumeral_intText {n : Int} (hn : IsInt64 n) : ofNumeral (intText n) = .int n := by
  have hint := int_intTokens hn []
  rw [List.append_nil] at hint
  rw [ofNumeral, lex_intText, hint]

/-- Only the numerals are made something else. -/
def SqliteAffinity.plain : SqliteAffinity where
  store type v :=
    match v with
    | .text t => if type = bytes "INT" then ofNumeral t else .text t
    | v => v
  int _ _ := rfl
  text _ := if_neg (by decide)
  numeral _ hn := (if_pos rfl).trans (ofNumeral_intText hn)
  blob v := by
    cases v with
    | text t => exact if_neg (by decide)
    | _ => rfl

abbrev Row := Text → Value

structure Table where
  cols : List Column
  rows : List Row

abbrev Db := Text → Option Table

/-! ## Statements -/

def Table.column (t : Table) (col : Text) : Option Column := t.cols.find? fun c => c.name = col

def Table.has (t : Table) (col : Text) : Bool := (t.column col).isSome

/-- The value as this column keeps it. -/
def Table.store (A : Affinity) (t : Table) (col : Text) (v : Value) : Value :=
  (t.column col).elim v fun c => A.store c.type v

def Cond.holds (c : Cond) (r : Row) : Bool := r c.col = .int c.key

/-- The row has a value that must be unique and that one of the others has. -/
def conflict (cols : List Column) (r : Row) (rows : List Row) : Bool :=
  cols.any fun c => c.unique && r c.name != .null && rows.any fun r' => r' c.name = r c.name

/-- Where a column is set twice, the last time counts. -/
def Table.set (A : Affinity) (t : Table) (as : List (Text × Value)) (r : Row) : Row :=
  as.foldl (fun r a => Function.update r a.1 (t.store A a.1 a.2)) r

/-- Each row that is chosen is set and must agree with the rows as they are then. -/
def updateRows (cols : List Column) (choose : Row → Bool) (set : Row → Row) :
    List Row → List Row → Option (List Row)
  | done, [] => some done
  | done, r :: rows =>
    if choose r then
      if conflict cols (set r) (done ++ rows) then none
      else updateRows cols choose set (done ++ [set r]) rows
    else updateRows cols choose set (done ++ [r]) rows

def Table.insert (A : Affinity) (t : Table) (col : Text) (v : Value) : Option Table :=
  let r := Function.update (fun _ => .null) col (t.store A col v)
  if t.has col ∧ ¬ conflict t.cols r t.rows then some { t with rows := t.rows ++ [r] } else none

/-- A row of these values. -/
def Table.insertRow (A : Affinity) (t : Table) (cols : List Text) (vals : List Value) :
    Option Table :=
  let r := t.set A (cols.zip vals) fun _ => .null
  if cols.length = vals.length ∧ cols.all t.has ∧ ¬ conflict t.cols r t.rows then
    some { t with rows := t.rows ++ [r] }
  else none

def Table.update (A : Affinity) (t : Table) (as : List (Text × Value)) (c : Option Cond) :
    Option Table :=
  if as.all (fun a => t.has a.1) ∧ c.all (fun c => t.has c.col) then
    (updateRows t.cols (fun r => c.all fun c => c.holds r) (t.set A as) [] t.rows).map fun rows =>
      { t with rows := rows }
  else none

/-- One statement, or `none` where it fails. -/
def run (A : Affinity) (db : Db) : Stmt → Option Db
  | .createTable table cols =>
    if (db table).isSome then some db else some (Function.update db table (some ⟨cols, []⟩))
  | .addColumn table col =>
    match db table with
    | some t =>
      if t.has col.name then none
      else some (Function.update db table (some { t with cols := t.cols ++ [col] }))
    | none => none
  | .insertUnless table col n other c =>
    match db table, db other with
    | some t, some o =>
      if ¬ o.has c.col then none
      else if o.rows.any c.holds then some db
      else (t.insert A col (.int n)).map fun t => Function.update db table (some t)
    | _, _ => none
  | .insertValues table cols vals =>
    match db table with
    | some t => (t.insertRow A cols vals).map fun t => Function.update db table (some t)
    | none => none
  | .update table as c =>
    match db table with
    | some t => (t.update A as c).map fun t => Function.update db table (some t)
    | none => none
  | .updateNone table as _ _ =>
    match db table with
    | some t => if as.all fun a => t.has a.1 then some db else none
    | none => none

/-- The statements one after the other up to the first that fails, and if all of them ran. -/
def runAll (A : Affinity) (db : Db) : List Stmt → Db × Bool
  | [] => (db, true)
  | s :: ss =>
    match run A db s with
    | some db => runAll A db ss
    | none => (db, false)

/-- At most `n` statements, each read after those before it have run. -/
def execTokens (A : Affinity) : Nat → Db → List Token → Db × Bool
  | _, db, [] => (db, true)
  | 0, db, _ => (db, false)
  | n + 1, db, ts =>
    match stmt ts with
    | none => (db, false)
    | some (s, ts) =>
      match run A db s with
      | some db => execTokens A n db ts
      | none => (db, false)

def exec (A : Affinity) (db : Db) (b : Text) : Db × Bool :=
  execTokens A (lex b).length db (lex b)

/-- `SELECT cols FROM table WHERE conds`, in the order of the rows. It fails without the table or
one of the columns. -/
def select (db : Db) (cols : List Text) (table : Text) (conds : List Cond) :
    Option (List (List Value)) :=
  match db table with
  | some t =>
    if cols.all t.has ∧ conds.all fun c => t.has c.col then
      some ((t.rows.filter fun r => conds.all fun c => c.holds r).map fun r => cols.map r)
    else none
  | none => none

/-- `sqlite3_column_text`. -/
def columnText : Value → Option Text
  | .null => none
  | .int n => some (intText n)
  | .text t => some t
  | .blob b => some b

/-- `sqlite3_column_int64`: of a text, the number it starts with. -/
def columnInt64 : Value → Int
  | .null => 0
  | .int n => n
  | .text t | .blob t =>
    let t := t.dropWhile isSpace
    let digits := if t.head? = some 45 ∨ t.head? = some 43 then t.tail else t
    let n : Nat := (digits.takeWhile isDigit).foldl (fun n c => 10 * n + (c.toNat - 48)) 0
    if t.head? = some 45 then max (-2 ^ 63) (-n) else min (2 ^ 63 - 1) n

/-! ## Texts and statements -/

section
variable {A : Affinity} {db : Db} {ss : List Stmt} {b : Text}

theorem execTokens_of_stmts {n : Nat} {ts : List Token} (h : stmts n ts = some ss) (db : Db) :
    execTokens A n db ts = runAll A db ss := by
  induction n generalizing ts ss db with
  | zero =>
    cases ts with
    | nil =>
      cases h
      rfl
    | cons t ts => cases h
  | succ n ih =>
    cases ts with
    | nil =>
      cases h
      rfl
    | cons t ts =>
      obtain ⟨⟨s, us⟩, hstmt, hrest⟩ := Option.bind_eq_some_iff.mp h
      obtain ⟨ss, hss, heq⟩ := Option.bind_eq_some_iff.mp hrest
      cases heq
      simp only [execTokens, hstmt, runAll]
      cases run A db s with
      | none => rfl
      | some db => exact ih hss db

/-- A text that can be read as a whole is run as its statements. -/
theorem exec_of_parse (h : parse b = some ss) (db : Db) : exec A db b = runAll A db ss :=
  execTokens_of_stmts h db

theorem runAll_cons {s : Stmt} {db' : Db} (h : run A db s = some db') :
    runAll A db (s :: ss) = runAll A db' ss := by
  rw [runAll, h]

theorem runAll_stop {s : Stmt} (h : run A db s = none) : runAll A db (s :: ss) = (db, false) := by
  rw [runAll, h]

end

/-! ## Updates -/

section
variable {A : Affinity} {cols : List Column} {choose : Row → Bool} {set : Row → Row}
  {done rows : List Row} {r : Row} {key : Text} {k : Int}

/-- Where no chosen row gets into a conflict, each of them is set. -/
theorem updateRows_eq {I : List Row → Prop}
    (hstep : ∀ done r rest, I (done ++ r :: rest) → choose r →
      conflict cols (set r) (done ++ rest) = false ∧ I (done ++ set r :: rest))
    (h : I (done ++ rows)) :
    updateRows cols choose set done rows =
      some (done ++ rows.map fun r => if choose r then set r else r) := by
  induction rows generalizing done with
  | nil => simp [updateRows]
  | cons r rows ih =>
    by_cases hr : choose r
    · obtain ⟨hconflict, hI⟩ := hstep done r rows h hr
      rw [updateRows, if_pos hr, hconflict, if_neg Bool.false_ne_true, ih (by simpa using hI)]
      simp [hr]
    · rw [updateRows, if_neg hr, ih (by simpa using h)]
      simp [hr]

theorem conflict_of_notMem (hunique : ∀ c ∈ cols, c.unique → c.name = key)
    (h : r key ∉ rows.map fun r => r key) : conflict cols r rows = false := by
  rw [conflict, List.any_eq_false]
  intro c hc hand
  simp only [Bool.and_eq_true, List.any_eq_true, decide_eq_true_eq] at hand
  obtain ⟨⟨hu, -⟩, r', hr', heq⟩ := hand
  rw [hunique c hc hu] at heq
  exact h (heq ▸ List.mem_map_of_mem hr')

theorem conflict_of_noUnique (hunique : ∀ c ∈ cols, c.unique = false) :
    conflict cols r rows = false := by
  rw [conflict, List.any_eq_false]
  intro c hc hand
  simp [hunique c hc] at hand

/-- The rows with `key = k` are set. -/
theorem updateRows_key (hunique : ∀ c ∈ cols, c.unique → c.name = key)
    (hnodup : (rows.map fun r => r key).Nodup) (hset : ∀ r, r key = .int k → set r key = .int k) :
    updateRows cols (fun r => Cond.holds ⟨key, k⟩ r) set [] rows =
      some (rows.map fun r => if Cond.holds ⟨key, k⟩ r then set r else r) := by
  refine updateRows_eq (I := fun rows => (rows.map fun r => r key).Nodup) ?_ hnodup
  intro done r rest hnodup hr
  have hkey : r key = .int k := by simpa [Cond.holds] using hr
  have hsame : set r key = r key := (hset r hkey).trans hkey.symm
  have hmap : (done ++ set r :: rest).map (fun r => r key) =
      (done ++ r :: rest).map fun r => r key := by
    simp [hsame]
  refine ⟨conflict_of_notMem hunique ?_, hmap ▸ hnodup⟩
  rw [hsame, List.map_append]
  rw [List.map_append, List.map_cons, List.nodup_middle, List.nodup_cons] at hnodup
  exact hnodup.1

/-- Where nothing has to be unique, every row is set. -/
theorem updateRows_all (hunique : ∀ c ∈ cols, c.unique = false) :
    updateRows cols (fun _ => true) set [] rows = some (rows.map set) := by
  have h : updateRows cols (fun _ => true) set [] rows =
      some ([] ++ rows.map fun r => if true then set r else r) :=
    updateRows_eq (I := fun _ => True)
      (fun _ _ _ _ _ => ⟨conflict_of_noUnique hunique, trivial⟩) trivial
  exact h

/-! ## A row for each key -/

def newRow (key : Text) (k : Int) : Row := Function.update (fun _ => .null) key (.int k)

/-- A row for the key, if there is none. -/
def addRow (key : Text) (k : Int) (rows : List Row) : List Row :=
  if rows.any (Cond.holds ⟨key, k⟩) then rows else rows ++ [newRow key k]

/-- The row of a key is set, and made before if there is none. -/
def putRow (key : Text) (k : Int) (set : Row → Row) (rows : List Row) : List Row :=
  (addRow key k rows).map fun r => if Cond.holds ⟨key, k⟩ r then set r else r

variable {db : Db} {table : Text} {t : Table} {as : List (Text × Value)}

theorem Table.set_append (x : Text × Value) (r : Row) :
    t.set A (as ++ [x]) r = Function.update (t.set A as r) x.1 (t.store A x.1 x.2) := by
  rw [Table.set, List.foldl_append]
  rfl

theorem Table.set_of_ne {col : Text} (h : ∀ x ∈ as, x.1 ≠ col) (r : Row) :
    t.set A as r col = r col := by
  induction as using List.reverseRecOn with
  | nil => rfl
  | append_singleton as x ih =>
    rw [List.forall_mem_append, List.forall_mem_singleton] at h
    rw [Table.set_append, Function.update_of_ne h.2.symm, ih h.1]

/-- What a column is set to, if it is the same each time. -/
theorem Table.set_of_mem {col : Text} {v : Value} (hmem : ∃ x ∈ as, x.1 = col)
    (h : ∀ x ∈ as, x.1 = col → x.2 = v) (r : Row) : t.set A as r col = t.store A col v := by
  induction as using List.reverseRecOn with
  | nil =>
    obtain ⟨x, hx, -⟩ := hmem
    cases hx
  | append_singleton as x ih =>
    rw [List.forall_mem_append, List.forall_mem_singleton] at h
    rw [Table.set_append]
    by_cases hx : x.1 = col
    · rw [h.2 hx, hx, Function.update_self]
    · obtain ⟨y, hy, hcol⟩ := hmem
      rcases List.mem_append.mp hy with hy | hy
      · rw [Function.update_of_ne (Ne.symm hx), ih ⟨y, hy, hcol⟩ h.1]
      · exact absurd (List.mem_singleton.mp hy ▸ hcol) hx

/-- The table has this column of the type `INT`. -/
def Table.HasInt (t : Table) (col : Text) : Prop :=
  ∃ c, t.column col = some c ∧ c.type = bytes "INT"

theorem Table.HasInt.has {col : Text} (h : t.HasInt col) : t.has col := by
  obtain ⟨c, hc, -⟩ := h
  rw [Table.has, hc]
  rfl

theorem Table.HasInt.store {col : Text} (h : t.HasInt col) (hk : IsInt64 k) :
    t.store A col (.int k) = .int k := by
  obtain ⟨c, hc, htype⟩ := h
  rw [Table.store, hc, Option.elim_some, htype, A.int k hk]

theorem run_insertUnless (htable : db table = some t) (hkey : t.HasInt key) (hk : IsInt64 k)
    (hconflict : t.rows.any (Cond.holds ⟨key, k⟩) = false →
      conflict t.cols (newRow key k) t.rows = false) :
    run A db (.insertUnless table key k table ⟨key, k⟩) =
      some (Function.update db table (some { t with rows := addRow key k t.rows })) := by
  simp only [run, htable, hkey.has, not_true_eq_false, if_false]
  by_cases hany : t.rows.any (Cond.holds ⟨key, k⟩)
  · rw [if_pos hany, addRow, if_pos hany, ← htable, Function.update_eq_self]
  · have hinsert : t.insert A key (.int k) = some { t with rows := t.rows ++ [newRow key k] } := by
      rw [Table.insert, hkey.store hk]
      exact if_pos ⟨hkey.has, by simp [← hconflict (by simpa using hany), newRow]⟩
    rw [if_neg hany, hinsert, addRow, if_neg hany]
    rfl

theorem run_addColumn {col : Column} (htable : db table = some t) (hcol : t.has col.name = false) :
    run A db (.addColumn table col) =
      some (Function.update db table (some { t with cols := t.cols ++ [col] })) := by
  simp only [run, htable, hcol, Bool.false_eq_true, if_false]

theorem run_addColumn_again {col : Column} (htable : db table = some t) (hcol : t.has col.name) :
    run A db (.addColumn table col) = none := by
  simp only [run, htable, hcol, if_true]

/-- The script that adds a column adds it, or it fails and the column is there. -/
theorem exec_printAddColumn {col type stop : Text}
    (hnames : IsName table ∧ IsName col ∧ IsName type) (hstop : lex stop = [])
    (htable : db table = some t) :
    (exec A db (printAddColumn table col type ++ stop)).1 =
      if t.has col then db
      else Function.update db table (some { t with cols := t.cols ++ [⟨col, type, false⟩] }) := by
  have hstmt := stmt_printAddColumn hnames.1 hnames.2.1 hnames.2.2 stop
  rw [show lexFrom .ready stop = [] from hstop] at hstmt
  rw [exec_of_parse (parse_single hstmt)]
  by_cases hhas : t.has col
  · rw [runAll_stop (run_addColumn_again htable hhas), if_pos hhas]
  · have hadd : run A db (.addColumn table ⟨col, type, false⟩) =
        some (Function.update db table (some { t with cols := t.cols ++ [⟨col, type, false⟩] })) :=
      run_addColumn htable (Bool.eq_false_iff.mpr hhas)
    rw [runAll_cons hadd, if_neg hhas]
    rfl

theorem run_updateNone {x : Text} {n : Int} (htable : db table = some t)
    (has : ∀ a ∈ as, t.has a.1) : run A db (.updateNone table as x n) = some db := by
  simp only [run, htable]
  exact if_pos (List.all_eq_true.mpr has)

theorem run_update {c : Option Cond} (htable : db table = some t) (has : ∀ a ∈ as, t.has a.1)
    (hc : c.all fun c => t.has c.col)
    (hrows : updateRows t.cols (fun r => c.all fun c => c.holds r) (t.set A as) [] t.rows =
      some rows) :
    run A db (.update table as c) =
      some (Function.update db table (some { t with rows := rows })) := by
  simp only [run, htable, Table.update]
  rw [if_pos ⟨List.all_eq_true.mpr has, hc⟩, hrows]
  rfl

/-- The key of a new row is in none of the others. -/
theorem newRow_notMem (h : rows.any (Cond.holds ⟨key, k⟩) = false) :
    newRow key k key ∉ rows.map fun r => r key := by
  intro hmem
  obtain ⟨r, hr, hkey⟩ := List.mem_map.mp hmem
  rw [newRow, Function.update_self] at hkey
  exact absurd (List.any_eq_false.mp h r hr) (by simp [Cond.holds, hkey])

theorem addRow_nodup (h : (rows.map fun r => r key).Nodup) :
    ((addRow key k rows).map fun r => r key).Nodup := by
  rw [addRow]
  split_ifs with hany
  · exact h
  · rw [List.map_append, List.nodup_append]
    refine ⟨h, List.nodup_singleton _, ?_⟩
    intro v hv w hw heq
    rw [List.map_singleton, List.mem_singleton] at hw
    exact newRow_notMem (by simpa using hany) (hw ▸ heq ▸ hv)

theorem putRow_keys {set : Row → Row} (hset : ∀ r, r key = .int k → set r key = .int k) :
    (putRow key k set rows).map (fun r => r key) = (addRow key k rows).map fun r => r key := by
  rw [putRow, List.map_map]
  refine List.map_congr_left fun r _ => ?_
  by_cases hr : Cond.holds ⟨key, k⟩ r
  · have hkey : r key = .int k := by simpa [Cond.holds] using hr
    simp [hr, hkey, hset r hkey]
  · simp [hr]

/-- A key that is there is in one row. -/
theorem filter_key (hnodup : (rows.map fun r => r key).Nodup)
    (hany : rows.any (Cond.holds ⟨key, k⟩)) :
    ∃ r, r key = .int k ∧ rows.filter (Cond.holds ⟨key, k⟩) = [r] := by
  induction rows with
  | nil => cases hany
  | cons r rows ih =>
    rw [List.map_cons, List.nodup_cons] at hnodup
    by_cases hr : Cond.holds ⟨key, k⟩ r
    · have hkey : r key = .int k := by simpa [Cond.holds] using hr
      have hnone : rows.filter (Cond.holds ⟨key, k⟩) = [] := by
        rw [List.filter_eq_nil_iff]
        intro r' hr' hholds
        have hkey' : r' key = .int k := by simpa [Cond.holds] using hholds
        exact hnodup.1 (hkey.trans hkey'.symm ▸ List.mem_map_of_mem hr')
      exact ⟨r, hkey, by rw [List.filter_cons_of_pos hr, hnone]⟩
    · have hrest : rows.any (Cond.holds ⟨key, k⟩) := by simpa [hr] using hany
      obtain ⟨r', hkey, hfilter⟩ := ih hnodup.2 hrest
      exact ⟨r', hkey, by rw [List.filter_cons_of_neg hr, hfilter]⟩

theorem addRow_any : (addRow key k rows).any (Cond.holds ⟨key, k⟩) := by
  rw [addRow]
  split_ifs with hany
  · exact hany
  · simp [Cond.holds, newRow]

theorem putRow_key {set : Row → Row} (hset : ∀ r, r key = .int k → set r key = .int k) (r : Row) :
    (if Cond.holds ⟨key, k⟩ r then set r else r) key = r key := by
  by_cases hr : r key = .int k
  · simp [Cond.holds, hr, hset r hr]
  · simp [Cond.holds, hr]

theorem filter_addRow (hnodup : (rows.map fun r => r key).Nodup) :
    (addRow key k rows).filter (Cond.holds ⟨key, k⟩) =
      [(rows.filter (Cond.holds ⟨key, k⟩)).headD (newRow key k)] := by
  rw [addRow]
  split_ifs with hany
  · obtain ⟨r, -, hfilter⟩ := filter_key hnodup hany
    rw [hfilter]
    rfl
  · have hnil : rows.filter (Cond.holds ⟨key, k⟩) = [] := by simpa using hany
    have hnew : Cond.holds ⟨key, k⟩ (newRow key k) := by simp [Cond.holds, newRow]
    rw [List.filter_append, hnil, List.filter_cons_of_pos hnew]
    rfl

/-- What is put is the only row of its key. -/
theorem filter_putRow_eq {set : Row → Row} (hnodup : (rows.map fun r => r key).Nodup)
    (hset : ∀ r, r key = .int k → set r key = .int k) :
    (putRow key k set rows).filter (Cond.holds ⟨key, k⟩) =
      [set ((rows.filter (Cond.holds ⟨key, k⟩)).headD (newRow key k))] := by
  have hsame : (Cond.holds ⟨key, k⟩ ∘ fun r => if Cond.holds ⟨key, k⟩ r then set r else r) =
      Cond.holds ⟨key, k⟩ := by
    funext r
    exact congrArg (fun v => decide (v = .int k)) (putRow_key hset r)
  have hfilter := filter_addRow (k := k) hnodup
  have hholds := List.mem_filter.mp (hfilter ▸ List.mem_singleton_self _)
  rw [putRow, List.filter_map, hsame, hfilter, List.map_singleton, if_pos hholds.2]

theorem filter_putRow {set : Row → Row} (hnodup : (rows.map fun r => r key).Nodup)
    (hset : ∀ r, r key = .int k → set r key = .int k) :
    ∃ r, (putRow key k set rows).filter (Cond.holds ⟨key, k⟩) = [set r] :=
  ⟨_, filter_putRow_eq hnodup hset⟩

theorem filter_putRow_of_mem {set : Row → Row} {p : Value → Bool} (hp : p (.int k))
    (hset : ∀ r, r key = .int k → set r key = .int k) :
    (putRow key k set rows).filter (fun r => p (r key)) =
      putRow key k set (rows.filter fun r => p (r key)) := by
  have hany : rows.any (Cond.holds ⟨key, k⟩) =
      (rows.filter fun r => p (r key)).any (Cond.holds ⟨key, k⟩) := by
    rw [List.any_filter]
    congr 1
    funext r
    by_cases hr : r key = .int k
    · simp [Cond.holds, hr, hp]
    · simp [Cond.holds, hr]
  have hadd : (addRow key k rows).filter (fun r => p (r key)) =
      addRow key k (rows.filter fun r => p (r key)) := by
    rw [addRow, addRow, ← hany]
    split_ifs
    · rfl
    · rw [List.filter_append]
      simp [newRow, hp]
  have hsame : ((fun r => p (r key)) ∘ fun r => if Cond.holds ⟨key, k⟩ r then set r else r) =
      fun r => p (r key) := by
    funext r
    exact congrArg p (putRow_key hset r)
  rw [putRow, List.filter_map, hsame, hadd, putRow]

/-- The rows whose keys are chosen are left alone by the put of another one. -/
theorem filter_putRow_of_notMem {set : Row → Row} {p : Value → Bool} (hp : p (.int k) = false)
    (hset : ∀ r, r key = .int k → set r key = .int k) :
    (putRow key k set rows).filter (fun r => p (r key)) = rows.filter fun r => p (r key) := by
  have hadd : (addRow key k rows).filter (fun r => p (r key)) = rows.filter fun r => p (r key) := by
    rw [addRow]
    split_ifs
    · rfl
    · rw [List.filter_append]
      simp [newRow, hp]
  have hsame : ((fun r => p (r key)) ∘ fun r => if Cond.holds ⟨key, k⟩ r then set r else r) =
      fun r => p (r key) := by
    funext r
    exact congrArg p (putRow_key hset r)
  rw [putRow, List.filter_map, hsame, hadd]
  refine (List.map_congr_left fun r hr => ?_).trans (List.map_id _)
  have hne : Cond.holds ⟨key, k⟩ r = false := by
    by_contra hholds
    have hkey : r key = .int k := by simpa [Cond.holds] using hholds
    have hpr := (List.mem_filter.mp hr).2
    rw [hkey, hp] at hpr
    cases hpr
  rw [hne]
  rfl

/-- A row with another key was there before. -/
theorem mem_of_addRow (hr : r ∈ addRow key k rows) (hkey : r key ≠ .int k) : r ∈ rows := by
  rw [addRow] at hr
  split_ifs at hr
  · exact hr
  · refine (List.mem_append.mp hr).resolve_right fun hr => hkey ?_
    rw [List.mem_singleton.mp hr, newRow, Function.update_self]

/-- A row after a put is the put one or was there before. -/
theorem mem_putRow {set : Row → Row} (h : r ∈ putRow key k set rows) :
    (∃ r', r' key = .int k ∧ r = set r') ∨ r ∈ rows ∧ r key ≠ .int k := by
  obtain ⟨r', hr', rfl⟩ := List.mem_map.mp h
  by_cases hkey : r' key = .int k
  · exact .inl ⟨r', hkey, by simp [Cond.holds, hkey]⟩
  · have hholds : Cond.holds ⟨key, k⟩ r' = false := by simp [Cond.holds, hkey]
    rw [hholds]
    exact .inr ⟨mem_of_addRow hr' hkey, hkey⟩

/-- No two rows have the same key, and nothing else has to be unique. -/
structure Table.Keyed (key : Text) (t : Table) : Prop where
  unique : ∀ c ∈ t.cols, c.unique → c.name = key
  nodup : (t.rows.map fun r => r key).Nodup

/-- The insertion of a key. -/
theorem run_insertKey (htable : db table = some t) (ht : t.Keyed key) (hkey : t.HasInt key)
    (hk : IsInt64 k) :
    run A db (.insertUnless table key k table ⟨key, k⟩) =
      some (Function.update db table (some { t with rows := addRow key k t.rows })) :=
  run_insertUnless htable hkey hk fun hany => conflict_of_notMem ht.unique (newRow_notMem hany)

/-- The update of the row of a key. -/
theorem run_updateKey (htable : db table = some t) (ht : t.Keyed key) (hkey : t.has key)
    (has : ∀ a ∈ as, t.has a.1) (hset : ∀ r, r key = .int k → t.set A as r key = .int k) :
    run A db (.update table as (some ⟨key, k⟩)) =
      some (Function.update db table (some { t with
        rows := t.rows.map fun r => if Cond.holds ⟨key, k⟩ r then t.set A as r else r })) :=
  run_update htable has hkey (updateRows_key ht.unique ht.nodup hset)

theorem Table.Keyed.addRow (ht : t.Keyed key) :
    Table.Keyed key { t with rows := addRow key k t.rows } :=
  ⟨ht.unique, addRow_nodup ht.nodup⟩

/-- The insertion of a key and the update of its row. -/
theorem runAll_put (htable : db table = some t) (ht : t.Keyed key) (hkey : t.HasInt key)
    (hk : IsInt64 k) (has : ∀ a ∈ as, t.has a.1)
    (hset : ∀ r, r key = .int k → t.set A as r key = .int k) :
    runAll A db [.insertUnless table key k table ⟨key, k⟩, .update table as (some ⟨key, k⟩)] =
      (Function.update db table (some { t with rows := putRow key k (t.set A as) t.rows }),
        true) := by
  have hinsert := run_insertKey (A := A) htable ht hkey hk
  have hupdate := run_updateKey (A := A) (t := { t with rows := addRow key k t.rows })
    (Function.update_self table _ db) ht.addRow hkey.has has hset
  rw [runAll_cons hinsert, runAll_cons hupdate, Function.update_idem]
  rfl

/-- The insertion of a key and an update of all rows. -/
theorem runAll_putAll (htable : db table = some t) (ht : ∀ c ∈ t.cols, c.unique = false)
    (hkey : t.HasInt key) (hk : IsInt64 k) (has : ∀ a ∈ as, t.has a.1) :
    runAll A db [.insertUnless table key k table ⟨key, k⟩, .update table as none] =
      (Function.update db table
        (some { t with rows := (addRow key k t.rows).map (t.set A as) }), true) := by
  have hinsert := run_insertUnless (A := A) htable hkey hk fun _ => conflict_of_noUnique ht
  have hupdate := run_update (A := A) (t := { t with rows := addRow key k t.rows }) (c := none)
    (Function.update_self table _ db) has rfl (updateRows_all ht)
  rw [runAll_cons hinsert, runAll_cons hupdate, Function.update_idem]
  rfl

end

end Sql
