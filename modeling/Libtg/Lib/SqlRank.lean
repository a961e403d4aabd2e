import Libtg.Lib.SqlQuery

/-!
# Rows that are numbered

Rows are appended to a table (`run_insertValues`) and read back by a query of a query: the inner one
numbers the rows of the table in an order, and the outer one takes the rows that meet a condition,
the last ones first, up to a limit. Names that differ in the case of their letters only are the same
name. The condition and the order of the outer query can name what the inner one has in its result,
the number and one column, and no other column of the table (`runRank_unknown`).
-/

namespace Sql

/-- `SELECT ROW_NUMBER() OVER (ORDER BY rank) AS number, col FROM table`. -/
structure Ranking where
  rank : Text
  number : Text
  col : Text
  table : Text
  deriving DecidableEq

/-- `SELECT * FROM ((inner)) WHERE cond ORDER BY order DESC LIMIT limit`. -/
structure RankQuery where
  inner : Ranking
  cond : Cond
  order : Text
  limit : Int
  deriving DecidableEq

def word : Parser Text
  | .word w :: ts => some (w, ts)
  | _ => none

def ranking : Parser Ranking := fun ts => do
  let ts ← skip "SELECT ROW_NUMBER() OVER (ORDER BY" ts
  let (rank, ts) ← word ts
  let ts ← skip ") AS" ts
  let (number, ts) ← name ts
  let ts ← skip "," ts
  let (col, ts) ← word ts
  let ts ← skip "FROM" ts
  let (table, ts) ← name ts
  some (⟨rank, number, col, table⟩, ts)

def rankQuery : Parser RankQuery := fun ts => do
  let ts ← skip "SELECT * FROM ((" ts
  let (inner, ts) ← ranking ts
  let ts ← skip ")) WHERE" ts
  let (c, ts) ← cond ts
  let ts ← skip "ORDER BY" ts
  let (order, ts) ← word ts
  let ts ← skip "DESC LIMIT" ts
  let (limit, ts) ← int ts
  let ts ← skip ";" ts
  some (⟨inner, c, order, limit⟩, ts)

def lower (c : UInt8) : UInt8 := if 65 ≤ c ∧ c ≤ 90 then c + 32 else c

/-- The same name. -/
def same (m n : Text) : Bool := m.map lower = n.map lower

/-- The column that a name stands for. -/
def resolve (cols : List Text) (n : Text) : Option Text := cols.find? fun col => same col n

/-- The rows in the order of `rank`, with their number and the column `col`. -/
def numbered (number rank col : Text) (rows : List Row) : List Row :=
  (rows.mergeSort fun r r' => (r rank).le (r' rank)).mapIdx fun i r =>
    Function.update (Function.update (fun _ => .null) col (r col)) number (.int (i + 1))

/-- The two columns and the rows of the inner query. -/
def runRanking (db : Db) (q : Ranking) : Option ((Text × Text) × List Row) := do
  let t ← db q.table
  let rank ← resolve (t.cols.map Column.name) q.rank
  let col ← resolve (t.cols.map Column.name) q.col
  some ((q.number, col), numbered q.number rank col t.rows)

/-- A negative limit is none. -/
def limited {α : Type} (n : Int) (xs : List α) : List α := if n < 0 then xs else xs.take n.toNat

def runRank (db : Db) (q : RankQuery) : Option (List (List Value)) := do
  let ((number, col), rows) ← runRanking db q.inner
  let key ← resolve [number, col] q.cond.col
  let order ← resolve [number, col] q.order
  let rows := rows.filter (Cond.holds ⟨key, q.cond.key⟩)
  some ((limited q.limit (orderDesc (.column order) rows)).map fun r => [r number, r col])

/-- The rows of a text that is such a query. -/
def execRank (db : Db) (b : Text) : Option (List (List Value)) :=
  match rankQuery (lex b) with
  | some (q, []) => runRank db q
  | _ => none

theorem runRanking_names {db : Db} {q : Ranking} {number col : Text} {rows : List Row}
    (h : runRanking db q = some ((number, col), rows)) : number = q.number ∧ same col q.col := by
  obtain ⟨t, -, h⟩ := Option.bind_eq_some_iff.mp h
  obtain ⟨rank, -, h⟩ := Option.bind_eq_some_iff.mp h
  obtain ⟨col, hcol, h⟩ := Option.bind_eq_some_iff.mp h
  cases h
  exact ⟨rfl, List.find?_some (p := fun col => same col q.col) hcol⟩

/-- The condition must be about a column of the inner query. -/
theorem runRank_unknown {db : Db} {q : RankQuery}
    (h : ∀ col, same col q.inner.col → resolve [q.inner.number, col] q.cond.col = none) :
    runRank db q = none := by
  unfold runRank
  cases hinner : runRanking db q.inner with
  | none => rfl
  | some r =>
    obtain ⟨⟨number, col⟩, rows⟩ := r
    obtain ⟨rfl, hcol⟩ := runRanking_names hinner
    simp [h col hcol]

/-- Where nothing has to be unique, a row is appended. -/
theorem run_insertValues {A : Affinity} {db : Db} {table : Text} {t : Table} {cols : List Text}
    {vals : List Value} (htable : db table = some t) (hlen : cols.length = vals.length)
    (hcols : cols.all t.has) (hunique : ∀ c ∈ t.cols, c.unique = false) :
    run A db (.insertValues table cols vals) = some (Function.update db table
      (some { t with rows := t.rows ++ [t.set A (cols.zip vals) fun _ => .null] })) := by
  have hinsert : t.insertRow A cols vals =
      some { t with rows := t.rows ++ [t.set A (cols.zip vals) fun _ => .null] } :=
    if_pos ⟨hlen, hcols, by rw [conflict_of_noUnique hunique]; exact Bool.false_ne_true⟩
  simp only [run, htable, hinsert, Option.map_some]

/-! ## Printing -/

/-- `INSERT INTO 'table' (key, 'col') VALUES (n, 't');`. -/
def printInsertPair (table key col : Text) (n : Int) (t : Text) : Text :=
  bytes "INSERT INTO '" ++ (table ++ (bytes "' (" ++ (key ++ (bytes ", '" ++ (col ++
    (bytes "') VALUES (" ++ (intText n ++ (bytes ", '" ++ (t ++ bytes "');")))))))))

/-- `SELECT ROW_NUMBER() OVER (ORDER BY rank) AS number, col FROM table` and what comes next. -/
def Ranking.print (q : Ranking) (b : Text) : Text :=
  bytes "SELECT ROW_NUMBER() OVER (ORDER BY " ++ (q.rank ++ (bytes ") AS " ++ (q.number ++
    (bytes ", " ++ (q.col ++ (bytes " FROM " ++ (q.table ++ b)))))))

/-- `SELECT * FROM ((inner)) WHERE cond ORDER BY order DESC LIMIT limit;`. -/
def RankQuery.print (q : RankQuery) : Text :=
  bytes "SELECT * FROM ((" ++ q.inner.print (bytes ")) WHERE " ++ printLast q.cond.col q.cond.key
    (bytes " ORDER BY " ++ (q.order ++ (bytes " DESC LIMIT " ++ (intText q.limit ++ bytes ";")))))

section
variable {table key col t : Text} {n : Int}

theorem stmt_printInsertPair (htable : IsName table) (hkey : IsName key) (hcol : IsName col)
    (hn : IsInt64 n) (ht : quote ∉ t) (b : Text) :
    stmt (lexFrom .ready (printInsertPair table key col n t ++ b)) =
      some (.insertValues table [key, col] [.int n, .text t], lexFrom .ready b) := by
  have hinsert : scan .ready (bytes "INSERT INTO '") = (lex (bytes "INSERT INTO"), .inside []) := by
    decide
  have hparen (t : Text) :
      scan (.inside t) (bytes "' (") = ([.quoted t.reverse, .sym 40], .ready) :=
    rfl
  have hcomma : scan .ready (bytes ", '") = ([.sym 44], .inside []) := by decide
  have hvalues (t : Text) : scan (.inside t) (bytes "') VALUES (") =
      (.quoted t.reverse :: lex (bytes ") VALUES ("), .ready) := rfl
  have hend (t : Text) : scan (.inside t) (bytes "');") =
      ([.quoted t.reverse, .sym 41, .sym 59], .ready) := rfl
  have htext : lexFrom (.inside []) (t ++ (bytes "');" ++ b)) =
      .quoted t :: .sym 41 :: .sym 59 :: lexFrom .ready b := by
    have hscan := scan_inside ht []
    rw [List.append_nil] at hscan
    rw [lexFrom_append hscan, lexFrom_append (hend _), List.reverse_reverse]
    rfl
  have htokens : lexFrom .ready (printInsertPair table key col n t ++ b) =
      lex (bytes "INSERT INTO") ++ .quoted table :: .sym 40 :: .word key :: .sym 44 ::
        .quoted col :: (lex (bytes ") VALUES (") ++ (intTokens n ++ .sym 44 :: .quoted t ::
          .sym 41 :: .sym 59 :: lexFrom .ready b)) := by
    simp only [printInsertPair, List.append_assoc]
    rw [lexFrom_append hinsert, lexFrom_inside htable, lexFrom_append (hparen _),
      lexFrom_name hkey (by decide), lexFrom_append hcomma, lexFrom_inside hcol,
      lexFrom_append (hvalues _), lexFrom_int _ (by decide), lexFrom_append hcomma, htext,
      List.reverse_reverse, List.reverse_reverse]
    rfl
  have hcreate (ts : List Token) : createTable (lex (bytes "INSERT INTO") ++ ts) = none := rfl
  have hadd (ts : List Token) : addColumn (lex (bytes "INSERT INTO") ++ ts) = none := rfl
  have hunless (ts : List Token) : insertUnless (lex (bytes "INSERT INTO") ++ .quoted table ::
      .sym 40 :: .word key :: .sym 44 :: ts) = none := by
    rw [insertUnless, skip_append]
    rfl
  have hcols (ts : List Token) : ∀ k, 2 ≤ k → sepBy name k (.word key :: .sym 44 :: .quoted col ::
      (lex (bytes ") VALUES (") ++ ts)) = some ([key, col], lex (bytes ") VALUES (") ++ ts) := by
    intro k hk
    obtain ⟨k, rfl⟩ := Nat.exists_eq_add_of_le' hk
    rfl
  have hvals (ts : List Token) : ∀ k, 2 ≤ k → sepBy value k (intTokens n ++ .sym 44 :: .quoted t ::
      .sym 41 :: ts) = some ([.int n, .text t], .sym 41 :: ts) := by
    intro k hk
    obtain ⟨k, rfl⟩ := Nat.exists_eq_add_of_le' hk
    rw [sepBy_succ _ (value_int hn _)]
    rfl
  rw [htokens, stmt, hcreate, hadd, hunless, insertValues, skip_append]
  simp only [name, Option.bind_eq_bind, Option.bind_some, skip_paren]
  rw [hcols _ _ (by simp), Option.bind_some, skip_append, Option.bind_some,
    hvals _ _ (by simp; omega), Option.bind_some]
  rfl

structure Ranking.Named (q : Ranking) : Prop where
  rank : IsName q.rank
  number : IsName q.number
  col : IsName q.col
  table : IsName q.table

theorem ranking_print {q : Ranking} (h : q.Named) {p : Text} (hp : ends p) (b : Text) :
    ranking (lexFrom .ready (q.print (p ++ b))) = some (q, lexFrom .ready (p ++ b)) := by
  have hselect : scan .ready (bytes "SELECT ROW_NUMBER() OVER (ORDER BY ") =
      (lex (bytes "SELECT ROW_NUMBER() OVER (ORDER BY"), .ready) := rfl
  have has : scan .ready (bytes ") AS ") = (lex (bytes ") AS"), .ready) := by decide
  have hcomma : scan .ready (bytes ", ") = ([.sym 44], .ready) := by decide
  have hfrom : scan .ready (bytes " FROM ") = (lex (bytes "FROM"), .ready) := by decide
  have hword (w : Text) (ts : List Token) : word (.word w :: ts) = some (w, ts) := rfl
  have hname (w : Text) (ts : List Token) : name (.word w :: ts) = some (w, ts) := rfl
  rw [Ranking.print, lexFrom_append hselect, lexFrom_name h.rank (by decide), lexFrom_append has,
    lexFrom_name h.number (by decide), lexFrom_append hcomma, lexFrom_name h.col (by decide),
    lexFrom_append hfrom, lexFrom_name h.table hp, ranking, skip_append]
  simp only [hword, Option.bind_eq_bind, Option.bind_some]
  rw [skip_append]
  simp only [hname, hword, Option.bind_some, List.singleton_append, skip_comma]
  rw [skip_append]
  simp only [hname, Option.bind_some]

theorem rankQuery_print {q : RankQuery} (h : q.inner.Named) (hkey : IsName q.cond.col)
    (horder : IsName q.order) (hn : IsInt64 q.cond.key) (hlimit : IsInt64 q.limit) :
    rankQuery (lex q.print) = some (q, []) := by
  have hselect :
      scan .ready (bytes "SELECT * FROM ((") = (lex (bytes "SELECT * FROM (("), .ready) :=
    rfl
  have hwhere : scan .ready (bytes ")) WHERE ") = (lex (bytes ")) WHERE"), .ready) := by decide
  have hby : scan .ready (bytes " ORDER BY ") = (lex (bytes "ORDER BY"), .ready) := by decide
  have hdesc : scan .ready (bytes " DESC LIMIT ") = (lex (bytes "DESC LIMIT"), .ready) := by decide
  have hend : lexFrom .ready (bytes ";") = [.sym 59] := by decide
  have hint : lexFrom .ready (intText q.limit ++ bytes ";") = intTokens q.limit ++ [.sym 59] := by
    have hlex := lexFrom_int (b := []) q.limit (by decide : ends (bytes ";"))
    rwa [List.append_nil, hend] at hlex
  have hword (w : Text) (ts : List Token) : word (.word w :: ts) = some (w, ts) := rfl
  rw [RankQuery.print, lex, lexFrom_append hselect, rankQuery, skip_append]
  simp only [ranking_print h (by decide : ends (bytes ")) WHERE ")), Option.bind_eq_bind,
    Option.bind_some]
  rw [lexFrom_append hwhere, lexFrom_printLast hkey (by decide), lexFrom_append hby,
    lexFrom_name horder (by decide), lexFrom_append hdesc, hint, skip_append]
  simp only [cond_tokens hn, Option.bind_some]
  rw [skip_append]
  simp only [hword, Option.bind_some]
  rw [skip_append]
  simp only [int_intTokens hlimit, Option.bind_some, skip_semicolon]

end

end Sql
