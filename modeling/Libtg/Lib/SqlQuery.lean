import Libtg.Lib.SqlTable

/-!
# Queries with an order

`SELECT … ORDER BY … DESC` as a text. A name in quotes is a column where a name has to stand, but in
an expression it is a text. A query that is ordered by such a text is not ordered at all
(`runQuery_text`): its rows are all equal, and stay as they are.
-/

namespace Sql

inductive Expr where
  | column (n : Text)
  | text (t : Text)
  deriving DecidableEq

/-- `SELECT cols FROM table WHERE cond ORDER BY order DESC`. -/
structure Query where
  cols : List Expr
  table : Text
  cond : Cond
  order : Expr
  deriving DecidableEq

def expr : Parser Expr
  | .word w :: ts => some (.column w, ts)
  | .quoted t :: ts => some (.text t, ts)
  | _ => none

def query : Parser Query := fun ts => do
  let ts ← skip "SELECT" ts
  let (cols, ts) ← sepBy expr ts.length ts
  let ts ← skip "FROM" ts
  let (table, ts) ← name ts
  let ts ← skip "WHERE" ts
  let (c, ts) ← cond ts
  let ts ← skip "ORDER BY" ts
  let (order, ts) ← expr ts
  let ts ← skip "DESC;" ts
  some (⟨cols, table, c, order⟩, ts)

def Expr.eval (r : Row) : Expr → Value
  | .column n => r n
  | .text t => .text t

/-- The columns in it are there. -/
def Expr.known (t : Table) : Expr → Bool
  | .column n => t.has n
  | .text _ => true

/-- The order of values: `NULL`, then the numbers, then the texts byte by byte, then the blobs. -/
def Value.le : Value → Value → Bool
  | .null, _ => true
  | .int m, .int n => m ≤ n
  | .int _, .text _ => true
  | .int _, .blob _ => true
  | .text t, .text u => t ≤ u
  | .text _, .blob _ => true
  | .blob b, .blob c => b ≤ c
  | _, _ => false

/-- The rows from the greatest on; those that are equal stay in their order. -/
def orderDesc (e : Expr) (rows : List Row) : List Row :=
  rows.mergeSort fun r r' => (e.eval r').le (e.eval r)

def runQuery (db : Db) (q : Query) : Option (List (List Value)) :=
  match db q.table with
  | some t =>
    if q.cols.all (Expr.known t) ∧ t.has q.cond.col ∧ q.order.known t then
      some ((orderDesc q.order (t.rows.filter fun r => q.cond.holds r)).map fun r =>
        q.cols.map (Expr.eval r))
    else none
  | none => none

/-- The rows of a text that is a query. -/
def execQuery (db : Db) (b : Text) : Option (List (List Value)) :=
  match query (lex b) with
  | some (q, []) => runQuery db q
  | _ => none

/-! ## Ordered by a text -/

theorem Value.le_refl (v : Value) : v.le v := by
  cases v with
  | null => rfl
  | int n => exact decide_eq_true (Int.le_refl n)
  | text t => exact decide_eq_true (List.le_refl t)
  | blob b => exact decide_eq_true (List.le_refl b)

theorem orderDesc_text (t : Text) (rows : List Row) : orderDesc (.text t) rows = rows :=
  List.mergeSort_of_pairwise (List.pairwise_iff_forall_sublist.mpr fun _ => Value.le_refl (.text t))

/-- It is a query without an order. -/
theorem runQuery_text {db : Db} {cols : List Text} {table t : Text} {c : Cond} :
    runQuery db ⟨cols.map .column, table, c, .text t⟩ = select db cols table [c] := by
  have hknown : ∀ tbl : Table, (cols.map Expr.column).all (Expr.known tbl) = cols.all tbl.has := by
    intro tbl
    rw [List.all_map]
    rfl
  have heval : ∀ r : Row, (cols.map Expr.column).map (Expr.eval r) = cols.map r := by
    intro r
    rw [List.map_map]
    rfl
  unfold runQuery select
  cases db table with
  | none => rfl
  | some tbl =>
    simp only [hknown, heval, orderDesc_text, Expr.known, List.all_cons, List.all_nil,
      Bool.and_true, and_true]

/-! ## Printing a query -/

/-- `SELECT c, …, last FROM table WHERE key = n ORDER BY 'order' DESC;`. -/
def printQuery (cols : List Text) (last table key : Text) (n : Int) (order : Text) : Text :=
  bytes "SELECT " ++ (cols.flatMap (· ++ bytes ", ") ++ (last ++ (bytes " FROM " ++ (table ++
    (bytes " WHERE " ++ printLast key n (bytes " ORDER BY '" ++ (order ++ bytes "' DESC;")))))))

/-- The names and the commas. -/
def nameTokens (cols : List Text) (ts : List Token) : List Token :=
  cols.foldr (fun c ts => .word c :: .sym 44 :: ts) ts

section
variable {cols : List Text} {b last table key order w : Text} {n : Int} {ts : List Token}

theorem lexFrom_names (hcols : ∀ c ∈ cols, IsName c) (b : Text) :
    lexFrom .ready (cols.flatMap (· ++ bytes ", ") ++ b) = nameTokens cols (lexFrom .ready b) := by
  induction cols with
  | nil => rfl
  | cons c cols ih =>
    obtain ⟨hc, hcols⟩ := List.forall_mem_cons.mp hcols
    rw [List.flatMap_cons, List.append_assoc, List.append_assoc,
      lexFrom_name hc (by decide : ends (bytes ", "))]
    exact congrArg (Token.word c :: ·) ((lexFrom_comma _).trans (congrArg _ (ih hcols)))

theorem length_nameTokens (cols : List Text) (ts : List Token) :
    (nameTokens cols ts).length = 2 * cols.length + ts.length := by
  induction cols with
  | nil => exact (Nat.zero_add _).symm
  | cons c cols ih =>
    show (nameTokens cols ts).length + 1 + 1 = 2 * (cols.length + 1) + ts.length
    omega

/-- The names are read up to a word. -/
theorem sepBy_nameTokens (cols : List Text) (k : Nat) :
    sepBy expr (cols.length + (k + 1)) (nameTokens cols (.word last :: .word w :: ts)) =
      some (cols.map .column ++ [.column last], .word w :: ts) := by
  induction cols with
  | nil =>
    rw [List.length_nil, Nat.zero_add]
    rfl
  | cons c cols ih =>
    have hlength : (c :: cols).length + (k + 1) = cols.length + (k + 1) + 1 := by
      rw [List.length_cons]
      omega
    rw [hlength, sepBy_succ (x := .column c) _ rfl]
    exact congrArg (Option.map _) ih

theorem lex_printQuery (hcols : ∀ c ∈ cols, IsName c) (hlast : IsName last) (htable : IsName table)
    (hkey : IsName key) (horder : IsName order) :
    lex (printQuery cols last table key n order) =
      .word (bytes "SELECT") :: nameTokens cols (.word last :: .word (bytes "FROM") ::
        .word table :: .word (bytes "WHERE") :: .word key :: .sym 61 :: (intTokens n ++
          (lex (bytes "ORDER BY") ++ .quoted order :: lex (bytes "DESC;")))) := by
  have hselect : scan .ready (bytes "SELECT ") = ([.word (bytes "SELECT")], .ready) := by decide
  have hfrom : scan .ready (bytes " FROM ") = ([.word (bytes "FROM")], .ready) := by decide
  have hwhere : scan .ready (bytes " WHERE ") = ([.word (bytes "WHERE")], .ready) := by decide
  have hby : scan .ready (bytes " ORDER BY '") = (lex (bytes "ORDER BY"), .inside []) := by decide
  have hdesc (t : Text) :
      lexFrom (.inside t) (bytes "' DESC;") = .quoted t.reverse :: lex (bytes "DESC;") := rfl
  rw [lex, printQuery, lexFrom_append hselect, lexFrom_names hcols, lexFrom_name hlast (by decide),
    lexFrom_append hfrom, lexFrom_name htable (by decide), lexFrom_append hwhere,
    lexFrom_printLast hkey (by decide), lexFrom_append hby, lexFrom_inside horder, hdesc,
    List.reverse_reverse]
  rfl

/-- A query that is printed is read as one ordered by a text. -/
theorem query_printQuery (hcols : ∀ c ∈ cols, IsName c) (hlast : IsName last)
    (htable : IsName table) (hkey : IsName key) (horder : IsName order) (hn : IsInt64 n) :
    query (lex (printQuery cols last table key n order)) =
      some (⟨(cols ++ [last]).map .column, table, ⟨key, n⟩, .text order⟩, []) := by
  rw [lex_printQuery hcols hlast htable hkey horder]
  have hselect (ts : List Token) : skip "SELECT" (.word (bytes "SELECT") :: ts) = some ts := rfl
  have hfrom (ts : List Token) : skip "FROM" (.word (bytes "FROM") :: ts) = some ts := rfl
  generalize hts : (.word table :: .word (bytes "WHERE") :: .word key :: .sym 61 :: (intTokens n ++
    (lex (bytes "ORDER BY") ++ .quoted order :: lex (bytes "DESC;"))) : List Token) = ts
  have hlength := length_nameTokens cols (.word last :: .word (bytes "FROM") :: ts)
  obtain ⟨k, hk⟩ : ∃ k, (nameTokens cols (.word last :: .word (bytes "FROM") :: ts)).length =
      cols.length + (k + 1) := ⟨cols.length + ts.length + 1, by
    rw [hlength, List.length_cons, List.length_cons]
    omega⟩
  simp only [query, hselect, Option.bind_eq_bind, Option.bind_some, hk, sepBy_nameTokens, hfrom]
  rw [← hts]
  simp only [name, Option.bind_some, skip_where, cond_tokens hn, skip_append]
  rw [List.map_append]
  rfl

end

end Sql
