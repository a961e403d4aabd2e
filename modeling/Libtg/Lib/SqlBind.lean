import Libtg.Lib.SqlTable

/-!
# Statements with a parameter

`sqlite3_prepare_v2` takes the first statement of a text, `sqlite3_bind_blob` gives its `?` a value,
and `sqlite3_step` runs it. Of such statements the updates of one column are here.
-/

namespace Sql

/-- `UPDATE table SET col = (?) WHERE cond;` with the value that is bound. -/
def boundUpdate (v : Value) : Parser Stmt := fun ts => do
  let ts ← skip "UPDATE" ts
  let (table, ts) ← name ts
  let ts ← skip "SET" ts
  let (col, ts) ← name ts
  let ts ← skip "= (?) WHERE" ts
  let (c, ts) ← cond ts
  let ts ← skip ";" ts
  some (.update table [(col, v)] (some c), ts)

/-- What is behind the first statement is not looked at. -/
def execBound (A : Affinity) (v : Value) (db : Db) (b : Text) : Db :=
  match boundUpdate v (lex b) with
  | some (s, _) => (run A db s).getD db
  | none => db

/-- `UPDATE 'table' SET 'col' = (?) WHERE key = n;` and what comes next. -/
def printBoundUpdate (table col key : Text) (n : Int) (b : Text) : Text :=
  bytes "UPDATE '" ++ (table ++ (bytes "' SET '" ++ (col ++ (bytes "' = (?) WHERE " ++
    printLast key n (bytes ";" ++ b)))))

/-- `INSERT INTO 'table' (col) SELECT n WHERE NOT EXISTS (SELECT 1 FROM table WHERE col = n);`. -/
def printInsertBare (table col : Text) (n : Int) : Text :=
  bytes "INSERT INTO '" ++ (table ++ (bytes "' (" ++ (col ++ (bytes ") SELECT " ++
    (intText n ++ (bytes " WHERE NOT EXISTS (SELECT 1 FROM " ++ (table ++ (bytes " WHERE " ++
      printLast col n (bytes ");")))))))))

section
variable {A : Affinity} {v : Value} {table col key : Text} {n : Int} {db : Db}

theorem boundUpdate_print (htable : IsName table) (hcol : IsName col) (hkey : IsName key)
    (hn : IsInt64 n) (b : Text) :
    boundUpdate v (lex (printBoundUpdate table col key n b)) =
      some (.update table [(col, v)] (some ⟨key, n⟩), lexFrom .ready b) := by
  have hupdate : scan .ready (bytes "UPDATE '") = ([.word (bytes "UPDATE")], .inside []) := by
    decide
  have hset (t : Text) : scan (.inside t) (bytes "' SET '") =
      ([.quoted t.reverse, .word (bytes "SET")], .inside []) := rfl
  have hparam (t : Text) : scan (.inside t) (bytes "' = (?) WHERE ") =
      (.quoted t.reverse :: lex (bytes "= (?) WHERE"), .ready) := rfl
  have hend : scan .ready (bytes ";") = ([.sym 59], .ready) := by decide
  have htokens : lex (printBoundUpdate table col key n b) =
      .word (bytes "UPDATE") :: .quoted table :: .word (bytes "SET") :: .quoted col ::
        (lex (bytes "= (?) WHERE") ++ .word key :: .sym 61 :: (intTokens n ++
          .sym 59 :: lexFrom .ready b)) := by
    rw [printBoundUpdate, lex, lexFrom_append hupdate, lexFrom_inside htable,
      lexFrom_append (hset _), lexFrom_inside hcol, lexFrom_append (hparam _),
      lexFrom_printLast hkey (by decide), lexFrom_append hend, List.reverse_reverse,
      List.reverse_reverse]
    rfl
  have hskip (us : List Token) : skip "UPDATE" (.word (bytes "UPDATE") :: us) = some us := rfl
  have hskip' (us : List Token) : skip "SET" (.word (bytes "SET") :: us) = some us := rfl
  rw [htokens, boundUpdate]
  simp only [hskip, hskip', name, Option.bind_eq_bind, Option.bind_some]
  rw [skip_append]
  simp [cond_tokens hn]

theorem execBound_eq {b : Text} {s : Stmt} {us : List Token} {db' : Db}
    (h : boundUpdate v (lex b) = some (s, us)) (hrun : run A db s = some db') :
    execBound A v db b = db' := by
  rw [execBound, h]
  simp only [hrun, Option.getD_some]

theorem stmt_printInsertBare (htable : IsName table) (hcol : IsName col) (hn : IsInt64 n)
    (b : Text) :
    stmt (lexFrom .ready (printInsertBare table col n ++ b)) =
      some (.insertUnless table col n table ⟨col, n⟩, lexFrom .ready b) := by
  have hinsert : scan .ready (bytes "INSERT INTO '") = (lex (bytes "INSERT INTO"), .inside []) := by
    decide
  have hparen (t : Text) :
      scan (.inside t) (bytes "' (") = ([.quoted t.reverse, .sym 40], .ready) :=
    rfl
  have hselect : scan .ready (bytes ") SELECT ") = (lex (bytes ") SELECT"), .ready) := by decide
  have hexists : scan .ready (bytes " WHERE NOT EXISTS (SELECT 1 FROM ") =
      (lex (bytes "WHERE NOT EXISTS (SELECT 1 FROM"), .ready) := rfl
  have hwhere : scan .ready (bytes " WHERE ") = ([.word (bytes "WHERE")], .ready) := by decide
  have hend : scan .ready (bytes ");") = ([.sym 41, .sym 59], .ready) := by decide
  have htokens : lexFrom .ready (printInsertBare table col n ++ b) =
      lex (bytes "INSERT INTO") ++ .quoted table :: .sym 40 :: .word col ::
        (lex (bytes ") SELECT") ++ (intTokens n ++ (lex (bytes "WHERE NOT EXISTS (SELECT 1 FROM") ++
          .word table :: .word (bytes "WHERE") :: .word col :: .sym 61 :: (intTokens n ++ .sym 41 ::
            .sym 59 :: lexFrom .ready b)))) := by
    simp only [printInsertBare, printLast, List.append_assoc]
    rw [lexFrom_append hinsert, lexFrom_inside htable, lexFrom_append (hparen _),
      lexFrom_name hcol (by decide), lexFrom_append hselect, lexFrom_int _ (by decide),
      lexFrom_append hexists, lexFrom_name htable (by decide), lexFrom_append hwhere, ← printLast,
      lexFrom_printLast hcol (by decide), lexFrom_append hend, List.reverse_reverse]
    rfl
  rw [htokens]
  exact stmt_insertUnless (fun _ => rfl) hn

end

end Sql
