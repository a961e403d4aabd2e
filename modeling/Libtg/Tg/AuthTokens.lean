import Libtg.Lib.SqlRank
import Libtg.Lib.Strtok
import Libtg.Tg.Settings

/-!
# Tokens for the next login (`tg/database.c`, `tg/auth.c`)

`auth_token_to_database` appends a row for each token, so that the table has all of them
(`tokenWrites_stored`). `tg_auth_sendCode` takes apart at the semicolons what
`auth_tokens_from_database` has put together, and would find the tokens of any rows again
(`tokens_joined`). But the query has no rows: its condition is about `id`, and the query inside it
has only the number and the token (`tokensSql_fails`).
-/

namespace Libtg.Database

open Sql

/-- A token that is not empty and in which neither a semicolon nor a quote stands. -/
structure AuthToken where
  bytes : Text
  nonempty : bytes ≠ []
  semicolon : ∀ c ∈ bytes, c ≠ 59
  quote : ∀ c ∈ bytes, c ≠ Sql.quote

def insertTokenSql (id : Int32) (token : Text) : Text :=
  printInsertPair (Sql.bytes "auth_tokens") (Sql.bytes "id") (Sql.bytes "auth_token") id.toInt token
    ++ Sql.bytes " "

/-- `auth_token_to_database`. The first `tg_sqlite3_exec` may fail; `sprintf` may not go beyond
`sql[BUFSIZ]`. -/
def authTokenToDatabase (A : Affinity) (id : Int32) (token : Text) (db : Db) : Option Db :=
  let db := (exec A db (printAddColumn (Sql.bytes "auth_tokens") (Sql.bytes "auth_token")
    (Sql.bytes "TEXT") ++ Sql.bytes " ")).1
  if (insertTokenSql id token).length < bufsiz then some (exec A db (insertTokenSql id token)).1
  else none

def tokensRanking : Ranking where
  rank := Sql.bytes "ID"
  number := Sql.bytes "Number"
  col := Sql.bytes "auth_token"
  table := Sql.bytes "auth_tokens"

def tokensQuery (id : Int32) : RankQuery where
  inner := tokensRanking
  cond := ⟨Sql.bytes "id", id.toInt⟩
  order := Sql.bytes "Number"
  limit := 20

def tokensSql (id : Int32) : Text := (tokensQuery id).print

example : insertTokenSql 7 (Sql.bytes "ab") =
    Sql.bytes "INSERT INTO 'auth_tokens' (id, 'auth_token') VALUES (7, 'ab'); " := by decide +kernel

example : tokensSql 7 = Sql.bytes ("SELECT * FROM ((SELECT ROW_NUMBER() OVER (ORDER BY ID) "
    ++ "AS Number, auth_token FROM auth_tokens)) WHERE id = 7 ORDER BY Number DESC LIMIT 20;") := by
  decide +kernel

/-- A round of `tg_sqlite3_for_each` in `auth_tokens_from_database`: `s` and `i`. -/
def joinToken (s : Text × Nat) (row : List Value) : Text × Nat :=
  let str := if 0 < s.2 then s.1 ++ [59] else s.1
  let token := (columnText (row[1]?.getD .null)).getD []
  if 0 < token.length then (str ++ token, s.2 + 1) else (str, s.2)

/-- `auth_tokens_from_database`, or `NULL`. -/
def authTokensFromDatabase (id : Int32) (db : Db) : Option Text :=
  let s := (((execRank db (tokensSql id)).getD []).foldl joinToken ([], 0)).1
  if s.length ≠ 0 then some s else none

/-- What `tg_auth_sendCode` finds in `auth_tokens`. -/
def splitTokens (s : Text) : List Text := Strtok.tokens (fun c => c = 59) s

/-- The `t` of `tg_auth_sendCode`, which has room for 20. -/
def sendCodeTokens (id : Int32) (db : Db) : Option (List Text) :=
  let t := (authTokensFromDatabase id db).elim [] splitTokens
  if t.length ≤ 20 then some t else none

/-! ## Runs -/

/-- A call of `auth_token_to_database` by a session with this account. -/
structure TokenWrite where
  account : Int32
  token : AuthToken

def TokenWrite.Fits (w : TokenWrite) : Prop :=
  (insertTokenSql w.account w.token.bytes).length < bufsiz

def tokenWrites (A : Affinity) (ws : List TokenWrite) : Option Db :=
  ws.foldlM (fun db w => authTokenToDatabase A w.account w.token.bytes db) (initial A)

/-- The tokens an account has stored, in order. -/
def ownTokens (id : Int32) (ws : List TokenWrite) : List Text :=
  (ws.filter fun w => w.account = id).map fun w => w.token.bytes

/-- The account's next login has its newest tokens, from the last on and not more than 20. -/
def ReachesLogin (A : Affinity) (ws : List TokenWrite) (id : Int32) : Prop :=
  ∃ db, tokenWrites A ws = some db ∧
    sendCodeTokens id db = some ((ownTokens id ws).reverse.take 20)

/-! ## What is stored -/

def tokenColumns : List Column :=
  newColumns none ++ [⟨Sql.bytes "auth_token", Sql.bytes "TEXT", false⟩]

/-- The table has the column once a token has been stored, and a row for each token. -/
structure TokenTable (ws : List TokenWrite) (t : Table) : Prop where
  cols : t.cols = newColumns none ∧ ws = [] ∨ t.cols = tokenColumns
  rows : t.rows.map (fun r => (r (Sql.bytes "id"), r (Sql.bytes "auth_token"))) =
    ws.map fun w => (.int w.account.toInt, .text w.token.bytes)

section
variable {A : Affinity} {ws : List TokenWrite} {w : TokenWrite} {t : Table} {db db' : Db}
  {id : Int32}

theorem names_token : IsName (Sql.bytes "auth_tokens") ∧ IsName (Sql.bytes "auth_token") ∧
    IsName (Sql.bytes "id") ∧ IsName (Sql.bytes "TEXT") := by decide +kernel

theorem initial_tokenTable (A : Affinity) :
    ∃ t, initial A (Sql.bytes "auth_tokens") = some t ∧ TokenTable [] t := by
  rw [initial, exec_of_parse parse_initSql]
  exact ⟨⟨newColumns none, []⟩, rfl, .inl ⟨rfl, rfl⟩, rfl⟩

/-- The column is there after its addition, whether it was before or not. -/
theorem TokenTable.addColumn (h : TokenTable ws t)
    (htable : db (Sql.bytes "auth_tokens") = some t) :
    (exec A db (printAddColumn (Sql.bytes "auth_tokens") (Sql.bytes "auth_token")
      (Sql.bytes "TEXT") ++ Sql.bytes " ")).1 (Sql.bytes "auth_tokens") =
        some ⟨tokenColumns, t.rows⟩ := by
  obtain ⟨htab, hcol, -, htext⟩ := names_token
  rw [exec_printAddColumn ⟨htab, hcol, htext⟩ lex_blank htable]
  obtain ⟨cols, rows⟩ := t
  obtain ⟨hcols, -⟩ | hcols := h.cols
  · cases hcols
    exact Function.update_self (Sql.bytes "auth_tokens") _ db
  · cases hcols
    exact htable

/-- The row of a token. -/
def tokenRow (A : Affinity) (w : TokenWrite) (rows : List Row) : Row :=
  Table.set A ⟨tokenColumns, rows⟩ [(Sql.bytes "id", .int w.account.toInt),
    (Sql.bytes "auth_token", .text w.token.bytes)] fun _ => .null

theorem tokenRow_eq (A : Affinity) (w : TokenWrite) (rows : List Row) :
    (tokenRow A w rows (Sql.bytes "id"), tokenRow A w rows (Sql.bytes "auth_token")) =
      (.int w.account.toInt, .text w.token.bytes) :=
  Prod.ext (A.int _ (int32_int64 _)) (A.text _)

/-- A write that fits its buffer appends a row. -/
theorem TokenTable.write (h : TokenTable ws t) (htable : db (Sql.bytes "auth_tokens") = some t)
    (hw : authTokenToDatabase A w.account w.token.bytes db = some db') :
    ∃ t, db' (Sql.bytes "auth_tokens") = some t ∧ TokenTable (ws ++ [w]) t := by
  obtain ⟨htab, hcol, hid, -⟩ := names_token
  have hquote : Sql.quote ∉ w.token.bytes := fun hmem => w.token.quote _ hmem rfl
  have hstmt := stmt_printInsertPair htab hid hcol (int32_int64 w.account) hquote (Sql.bytes " ")
  rw [show lexFrom .ready (Sql.bytes " ") = [] from lex_blank] at hstmt
  have hadd := h.addColumn (A := A) htable
  have hrun : run A _ (.insertValues (Sql.bytes "auth_tokens") [Sql.bytes "id",
      Sql.bytes "auth_token"] [.int w.account.toInt, .text w.token.bytes]) =
        some (Function.update _ (Sql.bytes "auth_tokens")
          (some ⟨tokenColumns, t.rows ++ [tokenRow A w t.rows]⟩)) :=
    run_insertValues hadd rfl rfl (by decide : ∀ c ∈ tokenColumns, c.unique = false)
  rw [authTokenToDatabase] at hw
  split_ifs at hw
  cases hw
  rw [insertTokenSql, exec_of_parse (parse_single hstmt), runAll_cons hrun, runAll]
  refine ⟨⟨tokenColumns, t.rows ++ [tokenRow A w t.rows]⟩, ?_, .inr rfl, ?_⟩
  · simp only [Function.update_self]
  rw [List.map_append, List.map_append, h.rows, List.map_singleton, tokenRow_eq, List.map_singleton]

/-- After any run the table has all tokens, in order. -/
theorem tokenWrites_table (hrun : tokenWrites A ws = some db) :
    ∃ t, db (Sql.bytes "auth_tokens") = some t ∧ TokenTable ws t := by
  induction ws using List.reverseRecOn generalizing db with
  | nil =>
    obtain rfl : initial A = db := Option.some.inj hrun
    exact initial_tokenTable A
  | append_singleton ws w ih =>
    rw [tokenWrites, List.foldlM_append] at hrun
    obtain ⟨db₁, hrun, hlast⟩ := Option.bind_eq_some_iff.mp hrun
    obtain ⟨db₂, hw, hdb⟩ := Option.bind_eq_some_iff.mp hlast
    cases hdb
    obtain ⟨t, htable, h⟩ := ih hrun
    exact h.write htable hw

/-- No token is lost: a plain query for the account has all of them. -/
theorem tokenWrites_stored (hrun : tokenWrites A ws = some db) (hne : ws ≠ []) (id : Int32) :
    select db [Sql.bytes "auth_token"] (Sql.bytes "auth_tokens") [⟨Sql.bytes "id", id.toInt⟩] =
      some ((ownTokens id ws).map fun token => [.text token]) := by
  obtain ⟨t, htable, h⟩ := tokenWrites_table hrun
  obtain ⟨-, hnil⟩ | hcols := h.cols
  · exact absurd hnil hne
  · have hhas : t.has (Sql.bytes "auth_token") ∧ t.has (Sql.bytes "id") := by
      rw [Table.has, Table.has, Table.column, Table.column, hcols]
      exact ⟨rfl, rfl⟩
    let pair (r : Row) := (r (Sql.bytes "id"), r (Sql.bytes "auth_token"))
    let own (p : Value × Value) : Bool := p.1 = .int id.toInt
    have hrows : (t.rows.filter fun r => own (pair r)).map (fun r => [(pair r).2]) =
        ((ws.map fun w => (Value.int w.account.toInt, Value.text w.token.bytes)).filter own).map
          fun p => [p.2] := by
      rw [← h.rows, List.filter_map, List.map_map]
      rfl
    have hown : (fun w : TokenWrite => own (.int w.account.toInt, .text w.token.bytes)) =
        fun w => decide (w.account = id) := by
      funext w
      simp [own, Int32.toInt_inj]
    have hselect : select db [Sql.bytes "auth_token"] (Sql.bytes "auth_tokens")
        [⟨Sql.bytes "id", id.toInt⟩] =
          some ((t.rows.filter fun r => own (pair r)).map fun r => [(pair r).2]) := by
      simp only [select, htable, List.all_cons, List.all_nil, Bool.and_true, hhas, and_self,
        if_true]
      rfl
    rw [hselect, hrows, List.filter_map, List.map_map, ownTokens, List.map_map]
    exact congrArg (fun p => some ((ws.filter p).map fun w => [Value.text w.token.bytes])) hown

/-! ## What is read -/

theorem joinToken_text (s : Text) (n : Nat) (number : Value) (token : AuthToken) :
    joinToken (s, n) [number, .text token.bytes] =
      ((if 0 < n then s ++ [59] else s) ++ token.bytes, n + 1) :=
  if_pos (List.length_pos_of_ne_nil token.nonempty)

theorem foldl_joinToken (number : AuthToken → Value) (tokens : List AuthToken) (s : Text)
    (n : Nat) :
    ((tokens.map fun token => [number token, .text token.bytes]).foldl joinToken (s, n + 1)).1 =
      s ++ (tokens.map AuthToken.bytes).flatMap (59 :: ·) := by
  induction tokens generalizing s n with
  | nil => exact (List.append_nil s).symm
  | cons token tokens ih =>
    rw [List.map_cons, List.foldl_cons, joinToken_text, if_pos n.succ_pos, ih]
    simp

/-- The tokens of rows that are put together are found again. -/
theorem tokens_joined (number : AuthToken → Value) (tokens : List AuthToken) :
    splitTokens ((tokens.map fun token => [number token, .text token.bytes]).foldl joinToken
      ([], 0)).1 = tokens.map AuthToken.bytes := by
  cases tokens with
  | nil => rfl
  | cons token tokens =>
    have hplain (token : AuthToken) : ∀ c ∈ token.bytes, decide (c = 59) = false := fun c hc =>
      decide_eq_false (token.semicolon c hc)
    rw [List.map_cons, List.foldl_cons, joinToken_text, if_neg (Nat.lt_irrefl 0), foldl_joinToken,
      List.nil_append]
    refine Strtok.tokens_flatMap token.nonempty (hplain token) ?_ ?_ rfl
    · exact List.forall_mem_map.mpr fun token _ => token.nonempty
    · exact List.forall_mem_map.mpr fun token _ => hplain token

theorem tokensRanking_named : tokensRanking.Named := by constructor <;> decide +kernel

/-- Whatever the inner query calls its column, none of its names is `id`. -/
theorem resolve_id {col : Text} (h : same col (Sql.bytes "auth_token")) :
    resolve [Sql.bytes "Number", col] (Sql.bytes "id") = none := by
  have hcol : same col (Sql.bytes "id") = false := by
    rw [same, decide_eq_false_iff_not, of_decide_eq_true h]
    decide
  have hnumber : same (Sql.bytes "Number") (Sql.bytes "id") = false := by decide
  rw [resolve, List.find?_cons_of_neg (by simp [hnumber]), List.find?_cons_of_neg (by simp [hcol]),
    List.find?_nil]

/-- The query has no rows, whatever is in the database. -/
theorem tokensSql_fails (id : Int32) (db : Db) : execRank db (tokensSql id) = none := by
  have hnames : IsName (Sql.bytes "id") ∧ IsName (Sql.bytes "Number") := by decide +kernel
  have hlimit : IsInt64 20 := by decide
  have hquery : rankQuery (lex (tokensSql id)) = some (tokensQuery id, []) :=
    rankQuery_print tokensRanking_named hnames.1 hnames.2 (int32_int64 id) hlimit
  rw [execRank, hquery]
  exact runRank_unknown fun col => resolve_id

theorem sendCodeTokens_eq (id : Int32) (db : Db) : sendCodeTokens id db = some [] := by
  rw [sendCodeTokens, authTokensFromDatabase, tokensSql_fails]
  rfl

/-- All calls come back exactly if their statements fit. -/
theorem tokenWrites_isSome_iff : (∃ db, tokenWrites A ws = some db) ↔ ∀ w ∈ ws, w.Fits := by
  induction ws using List.reverseRecOn with
  | nil => exact ⟨fun _ w hw => absurd hw List.not_mem_nil, fun _ => ⟨_, rfl⟩⟩
  | append_singleton ws w ih =>
    have hlast (db : Db) : [w].foldlM (fun db w => authTokenToDatabase A w.account w.token.bytes db)
        db = authTokenToDatabase A w.account w.token.bytes db := bind_pure _
    rw [tokenWrites, List.foldlM_append, List.forall_mem_append, List.forall_mem_singleton, ← ih]
    simp only [hlast]
    constructor
    · rintro ⟨db', h⟩
      obtain ⟨db, hdb, hw⟩ := Option.bind_eq_some_iff.mp h
      rw [authTokenToDatabase] at hw
      split_ifs at hw with hfits
      exact ⟨⟨db, hdb⟩, hfits⟩
    · rintro ⟨⟨db, hdb⟩, hfits⟩
      exact ⟨_, Option.bind_eq_some_iff.mpr ⟨db, hdb, if_pos hfits⟩⟩

end

/-- A login has the tokens of its account exactly if the account has stored none, as long as every
statement fits its buffer. -/
theorem reachesLogin_iff (A : Affinity) (ws : List TokenWrite) (id : Int32) :
    ReachesLogin A ws id ↔ (∀ w ∈ ws, w.Fits) ∧ ∀ w ∈ ws, w.account ≠ id := by
  have hnone : (ownTokens id ws).reverse.take 20 = [] ↔ ∀ w ∈ ws, w.account ≠ id := by
    simp [ownTokens]
  rw [← hnone, ← tokenWrites_isSome_iff (A := A)]
  constructor
  · rintro ⟨db, hdb, htokens⟩
    rw [sendCodeTokens_eq] at htokens
    exact ⟨⟨db, hdb⟩, (Option.some.inj htokens).symm⟩
  · rintro ⟨⟨db, hdb⟩, hnone⟩
    exact ⟨db, hdb, (sendCodeTokens_eq id db).trans (congrArg some hnone.symm)⟩

/-- A token that has been stored does not reach the login. -/
theorem not_reachesLogin_stored : ¬ ReachesLogin .none
    [⟨7, [97], List.cons_ne_nil _ _, List.forall_mem_singleton.mpr (by decide),
      List.forall_mem_singleton.mpr (by decide)⟩] 7 := by
  rintro ⟨db, -, htokens⟩
  rw [sendCodeTokens_eq] at htokens
  exact absurd htokens (by decide)

end Libtg.Database
