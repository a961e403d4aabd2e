import Libtg.Lib.SqlText

/-!
# Statements

A part of SQLite's grammar, by recursive descent over the tokens. Names may stand in quotes or not.
`parse` reads a whole text; a text with anything else in it is no sequence of these statements.

A list of assignments that is printed one by one is read back one by one (`sepBy_print`), and only
if no text in it has a quote (`safe_of_sepBy`).
-/

namespace Sql

inductive Value where
  | null
  | int (n : Int)
  | text (t : Text)
  | blob (b : Text)
  deriving DecidableEq

/-- `col = key`. -/
structure Cond where
  col : Text
  key : Int
  deriving DecidableEq

structure Column where
  name : Text
  type : Text
  unique : Bool
  deriving DecidableEq

inductive Stmt where
  /-- `CREATE TABLE IF NOT EXISTS table (cols)`. -/
  | createTable (table : Text) (cols : List Column)
  /-- `ALTER TABLE table ADD COLUMN col`. -/
  | addColumn (table : Text) (col : Column)
  /-- `INSERT INTO table (col) SELECT n WHERE NOT EXISTS (SELECT 1 FROM other WHERE cond)`. -/
  | insertUnless (table col : Text) (n : Int) (other : Text) (cond : Cond)
  /-- `INSERT INTO table (cols) VALUES (vals)`. -/
  | insertValues (table : Text) (cols : List Text) (vals : List Value)
  /-- `UPDATE table SET set WHERE cond`. -/
  | update (table : Text) (set : List (Text × Value)) (cond : Option Cond)
  /-- `UPDATE table SET set WHERE 'text' = n`, which no row meets. -/
  | updateNone (table : Text) (set : List (Text × Value)) (text : Text) (n : Int)
  deriving DecidableEq

/-! ## The grammar -/

abbrev Parser (α : Type) := List Token → Option (α × List Token)

/-- These words and symbols come next. -/
def skip (s : String) (ts : List Token) : Option (List Token) :=
  let us := lex (bytes s)
  if us.isPrefixOf ts then some (ts.drop us.length) else none

def name : Parser Text
  | .word w :: ts => some (w, ts)
  | .quoted t :: ts => some (t, ts)
  | _ => none

/-- What SQLite has as an integer; a longer number would be a real. -/
def IsInt64 (n : Int) : Prop := -2 ^ 63 ≤ n ∧ n < 2 ^ 63

instance (n : Int) : Decidable (IsInt64 n) := inferInstanceAs (Decidable (_ ∧ _))

def int : Parser Int
  | .sym 45 :: .word w :: ts => do
    let n ← natOfText w
    if IsInt64 (-n) then some (-n, ts) else none
  | .word w :: ts => do
    let n ← natOfText w
    if IsInt64 n then some (n, ts) else none
  | _ => none

def value : Parser Value
  | .quoted t :: ts => some (.text t, ts)
  | ts => do
    let (n, ts) ← int ts
    some (.int n, ts)

/-- Here a name in quotes would be a text. -/
def cond : Parser Cond
  | .word col :: ts => do
    let ts ← skip "=" ts
    let (key, ts) ← int ts
    some (⟨col, key⟩, ts)
  | _ => none

def assign : Parser (Text × Value) := fun ts => do
  let (col, ts) ← name ts
  let ts ← skip "=" ts
  let (v, ts) ← value ts
  some ((col, v), ts)

def column : Parser Column := fun ts => do
  let (col, ts) ← name ts
  let (type, ts) ← name ts
  match skip "UNIQUE" ts with
  | some ts => some (⟨col, type, true⟩, ts)
  | none => some (⟨col, type, false⟩, ts)

/-- At least one and at most `n` of them, with commas between them. -/
def sepBy {α : Type} (p : Parser α) : Nat → Parser (List α)
  | 0, _ => none
  | n + 1, ts => do
    let (x, ts) ← p ts
    match skip "," ts with
    | none => some ([x], ts)
    | some ts =>
      let (xs, ts) ← sepBy p n ts
      some (x :: xs, ts)

def createTable : Parser Stmt := fun ts => do
  let ts ← skip "CREATE TABLE IF NOT EXISTS" ts
  let (table, ts) ← name ts
  let ts ← skip "(" ts
  let (cols, ts) ← sepBy column ts.length ts
  let ts ← skip ")" ts
  some (.createTable table cols, ts)

def addColumn : Parser Stmt := fun ts => do
  let ts ← skip "ALTER TABLE" ts
  let (table, ts) ← name ts
  let ts ← skip "ADD COLUMN" ts
  let (col, ts) ← column ts
  some (.addColumn table col, ts)

def insertUnless : Parser Stmt := fun ts => do
  let ts ← skip "INSERT INTO" ts
  let (table, ts) ← name ts
  let ts ← skip "(" ts
  let (col, ts) ← name ts
  let ts ← skip ") SELECT" ts
  let (n, ts) ← int ts
  let ts ← skip "WHERE NOT EXISTS (SELECT 1 FROM" ts
  let (other, ts) ← name ts
  let ts ← skip "WHERE" ts
  let (c, ts) ← cond ts
  let ts ← skip ")" ts
  some (.insertUnless table col n other c, ts)

def insertValues : Parser Stmt := fun ts => do
  let ts ← skip "INSERT INTO" ts
  let (table, ts) ← name ts
  let ts ← skip "(" ts
  let (cols, ts) ← sepBy name ts.length ts
  let ts ← skip ") VALUES (" ts
  let (vals, ts) ← sepBy value ts.length ts
  let ts ← skip ")" ts
  some (.insertValues table cols vals, ts)

/-- What comes behind `UPDATE table SET set WHERE`. -/
def updateWhere (table : Text) (set : List (Text × Value)) : Parser Stmt
  | .quoted t :: ts => do
    let ts ← skip "=" ts
    let (n, ts) ← int ts
    some (.updateNone table set t n, ts)
  | ts => do
    let (c, ts) ← cond ts
    some (.update table set (some c), ts)

def update : Parser Stmt := fun ts => do
  let ts ← skip "UPDATE" ts
  let (table, ts) ← name ts
  let ts ← skip "SET" ts
  let (set, ts) ← sepBy assign ts.length ts
  match skip "WHERE" ts with
  | none => some (.update table set none, ts)
  | some ts => updateWhere table set ts

/-- A statement and the semicolon behind it. -/
def stmt : Parser Stmt := fun ts => do
  let (s, ts) ← createTable ts <|> addColumn ts <|> insertUnless ts <|> insertValues ts <|>
    update ts
  let ts ← skip ";" ts
  some (s, ts)

/-- At most `n` statements up to the end. -/
def stmts : Nat → List Token → Option (List Stmt)
  | _, [] => some []
  | 0, _ => none
  | n + 1, ts => do
    let (s, ts) ← stmt ts
    let ss ← stmts n ts
    some (s :: ss)

/-- The statements of a text. -/
def parse (b : Text) : Option (List Stmt) := stmts (lex b).length (lex b)

/-! ## What is printed is what is read -/

def hexDigit (n : UInt8) : UInt8 := if n < 10 then 48 + n else 55 + n

/-- Two digits for each byte. -/
def hexText (b : Text) : Text := b.flatMap fun c => [hexDigit (c / 16), hexDigit (c % 16)]

/-- `'col' = n, ` or `'col' = 'text', `, as it stands in front of a further assignment. -/
def printAssign : Text × Value → Text
  | (col, .int n) => quote :: (col ++ quote :: (bytes " = " ++ (intText n ++ bytes ", ")))
  | (col, .text t) =>
    quote :: (col ++ quote :: (bytes " = " ++ quote :: (t ++ quote :: bytes ", ")))
  | (col, .blob b) =>
    quote :: (col ++ quote :: (bytes " = X" ++ quote :: (hexText b ++ quote :: bytes ", ")))
  | (col, .null) => quote :: (col ++ quote :: bytes " = NULL, ")

/-- A value that can stand in a statement as it is. -/
def Value.Safe : Value → Prop
  | .null => False
  | .int n => IsInt64 n
  | .text t => quote ∉ t
  | .blob _ => False

section
variable {b col t : Text} {v : Value} {ts : List Token} {n : Int}

theorem skip_append (s : String) (ts : List Token) : skip s (lex (bytes s) ++ ts) = some ts := by
  rw [skip, if_pos (List.isPrefixOf_iff_prefix.mpr (List.prefix_append _ _)), List.drop_left]

@[simp] theorem skip_paren : skip "(" (.sym 40 :: ts) = some ts := rfl

@[simp] theorem skip_close : skip ")" (.sym 41 :: ts) = some ts := rfl

@[simp] theorem skip_eq : skip "=" (.sym 61 :: ts) = some ts := rfl

@[simp] theorem skip_semicolon : skip ";" (.sym 59 :: ts) = some ts := rfl

@[simp] theorem skip_where : skip "WHERE" (.word (bytes "WHERE") :: ts) = some ts := rfl

@[simp] theorem skip_comma : skip "," (.sym 44 :: ts) = some ts := rfl

theorem int_intTokens (hn : IsInt64 n) (ts : List Token) :
    int (intTokens n ++ ts) = some (n, ts) := by
  have hnat := natOfText_natText n.natAbs
  rw [intTokens]
  split_ifs with hneg
  · have habs : -(n.natAbs : Int) = n := by omega
    rw [List.cons_append, List.singleton_append, int, hnat, Option.bind_eq_bind, Option.bind_some,
      habs, if_pos hn]
  · have habs : (n.natAbs : Int) = n := by omega
    rw [List.singleton_append, int, hnat, Option.bind_eq_bind, Option.bind_some, habs, if_pos hn]

theorem value_int (hn : IsInt64 n) (ts : List Token) :
    value (intTokens n ++ ts) = some (.int n, ts) := by
  have hint := int_intTokens hn ts
  rw [intTokens] at hint ⊢
  split_ifs at hint ⊢
  · simp only [List.cons_append, value] at hint ⊢
    rw [hint]
    rfl
  · simp only [List.cons_append, value] at hint ⊢
    rw [hint]
    rfl

/-- Only a literal is read as a text. -/
theorem eq_quoted_of_value {ts us : List Token} (h : value ts = some (.text t, us)) :
    ts = .quoted t :: us := by
  rw [value.eq_def] at h
  split at h
  · cases h
    rfl
  · cases hint : int ts with
    | none => simp [hint] at h
    | some r => simp [hint] at h

theorem bytes_eq : bytes " = " = [32, 61, 32] := rfl

theorem bytes_comma : bytes ", " = [44, 32] := rfl

theorem lexFrom_comma (b : Text) : lexFrom .ready (44 :: 32 :: b) = .sym 44 :: lexFrom .ready b :=
  lexFrom_append (a := [44, 32]) rfl

theorem lexFrom_printAssign_int (hcol : quote ∉ col) :
    lexFrom .ready (printAssign (col, .int n) ++ b) =
      .quoted col :: .sym 61 :: (intTokens n ++ .sym 44 :: lexFrom .ready b) := by
  have htext : printAssign (col, .int n) ++ b =
      quote :: (col ++ quote :: 32 :: ([61, 32] ++ (intText n ++ 44 :: 32 :: b))) := by
    simp [printAssign, bytes_eq, bytes_comma]
  rw [htext, lexFrom_quoted hcol (by decide), lexFrom_next (n := .ready) rfl,
    lexFrom_append (a := [61, 32]) (n := .ready) rfl, lexFrom_intText n (by decide), lexFrom_comma]
  rfl

theorem lexFrom_printAssign_text (hcol : quote ∉ col) :
    lexFrom .ready (printAssign (col, .text t) ++ b) =
      .quoted col :: .sym 61 :: lexFrom .ready (quote :: (t ++ quote :: 44 :: 32 :: b)) := by
  have htext : printAssign (col, .text t) ++ b =
      quote :: (col ++ quote :: 32 :: ([61, 32] ++ quote :: (t ++ quote :: 44 :: 32 :: b))) := by
    simp [printAssign, bytes_eq, bytes_comma]
  rw [htext, lexFrom_quoted hcol (by decide), lexFrom_next (n := .ready) rfl,
    lexFrom_append (a := [61, 32]) (n := .ready) rfl]
  rfl

theorem assign_quoted : assign (.quoted col :: .sym 61 :: ts) =
    (value ts).map fun r => ((col, r.1), r.2) := by
  cases hvalue : value ts <;> simp [assign, name, hvalue]

/-- A safe assignment is read back. -/
theorem assign_print (hcol : quote ∉ col) (hv : v.Safe) :
    assign (lexFrom .ready (printAssign (col, v) ++ b)) =
      some ((col, v), .sym 44 :: lexFrom .ready b) := by
  cases v with
  | null => exact hv.elim
  | blob b => exact hv.elim
  | int n => rw [lexFrom_printAssign_int hcol, assign_quoted, value_int hv, Option.map_some]
  | text t =>
    rw [lexFrom_printAssign_text hcol, lexFrom_quoted hv (by decide), lexFrom_comma, assign_quoted]
    rfl

/-- A text with a quote in it is not read back. -/
theorem safe_of_assign (hcol : quote ∉ col)
    (h : assign (lexFrom .ready (printAssign (col, .text t) ++ b)) = some ((col, .text t), ts)) :
    quote ∉ t := by
  intro hquote
  rw [lexFrom_printAssign_text hcol, assign_quoted, Option.map_eq_some_iff] at h
  obtain ⟨⟨v, us⟩, hvalue, heq⟩ := h
  cases heq
  exact lexFrom_quoted_ne hquote (by decide) (eq_quoted_of_value hvalue)

/-! ## Lists of assignments -/

variable {as : List (Text × Value)}

theorem sepBy_succ {α : Type} {p : Parser α} {x : α} {us : List Token} (n : Nat)
    (h : p ts = some (x, .sym 44 :: us)) :
    sepBy p (n + 1) ts = (sepBy p n us).map fun r => (x :: r.1, r.2) := by
  cases hrest : sepBy p n us <;> simp [sepBy, h, hrest]

theorem sepBy_head {α : Type} {p : Parser α} {x : α} {xs : List α} {us : List Token} {n : Nat}
    (h : sepBy p n ts = some (x :: xs, us)) : ∃ vs, p ts = some (x, vs) := by
  cases n with
  | zero => cases h
  | succ n =>
    cases hp : p ts with
    | none => simp [sepBy, hp] at h
    | some r =>
      refine ⟨r.2, ?_⟩
      simp only [sepBy, hp, Option.bind_eq_bind, Option.bind_some] at h
      split at h
      · cases h
        rfl
      · obtain ⟨⟨ys, vs⟩, -, heq⟩ := Option.bind_eq_some_iff.mp h
        cases heq
        rfl

/-- Safe assignments in front of others are read with them. -/
theorem sepBy_print (hcol : ∀ a ∈ as, quote ∉ a.1) (hsafe : ∀ a ∈ as, a.2.Safe) (n : Nat) :
    sepBy assign (as.length + n) (lexFrom .ready (as.flatMap printAssign ++ b)) =
      (sepBy assign n (lexFrom .ready b)).map fun r => (as ++ r.1, r.2) := by
  induction as with
  | nil => simp
  | cons a as ih =>
    obtain ⟨ha, hcol⟩ := List.forall_mem_cons.mp hcol
    obtain ⟨hv, hsafe⟩ := List.forall_mem_cons.mp hsafe
    have hlen : (a :: as).length + n = as.length + n + 1 := by
      rw [List.length_cons]
      omega
    rw [List.flatMap_cons, List.append_assoc, hlen, sepBy_succ _ (assign_print ha hv),
      ih hcol hsafe, Option.map_map]
    rfl

/-- Assignments that are read back are safe. -/
theorem safe_of_sepBy {as' : List (Text × Value)} {n : Nat} (hcol : ∀ a ∈ as, quote ∉ a.1)
    (hint : ∀ a ∈ as, a.2.Safe ∨ ∃ t, a.2 = .text t)
    (h : sepBy assign n (lexFrom .ready (as.flatMap printAssign ++ b)) = some (as ++ as', ts)) :
    ∀ a ∈ as, a.2.Safe := by
  induction as generalizing n ts with
  | nil => exact fun a ha => absurd ha List.not_mem_nil
  | cons a as ih =>
    obtain ⟨ha, hcol⟩ := List.forall_mem_cons.mp hcol
    obtain ⟨hv, hint⟩ := List.forall_mem_cons.mp hint
    rw [List.flatMap_cons, List.append_assoc] at h
    cases n with
    | zero => simp [sepBy] at h
    | succ n =>
      have hsafe : a.2.Safe := by
        rcases hv with hv | ⟨t, ht⟩
        · exact hv
        · obtain ⟨vs, hassign⟩ := sepBy_head h
          obtain ⟨col, v⟩ := a
          cases ht
          exact safe_of_assign ha hassign
      rw [sepBy_succ _ (assign_print ha hsafe), Option.map_eq_some_iff] at h
      obtain ⟨⟨bs, us⟩, hrest, heq⟩ := h
      cases heq
      exact List.forall_mem_cons.mpr ⟨hsafe, ih hcol hint hrest⟩

/-- Each assignment has a token. -/
theorem length_print (hcol : ∀ a ∈ as, quote ∉ a.1) (hsafe : ∀ a ∈ as, a.2.Safe) :
    as.length + (lexFrom .ready b).length ≤
      (lexFrom .ready (as.flatMap printAssign ++ b)).length := by
  induction as with
  | nil => simp
  | cons a as ih =>
    obtain ⟨ha, hcol⟩ := List.forall_mem_cons.mp hcol
    obtain ⟨hv, hsafe⟩ := List.forall_mem_cons.mp hsafe
    have hrest := ih hcol hsafe
    obtain ⟨col, v⟩ := a
    rw [List.flatMap_cons, List.append_assoc]
    cases v with
    | null => exact hv.elim
    | blob b => exact hv.elim
    | int n =>
      rw [lexFrom_printAssign_int ha]
      simp only [List.length_cons, List.length_append]
      omega
    | text t =>
      rw [lexFrom_printAssign_text ha, lexFrom_quoted hv (by decide), lexFrom_comma]
      simp only [List.length_cons]
      omega

/-! ## Whole statements -/

/-- `INSERT INTO 'table' ('col') SELECT n WHERE NOT EXISTS (SELECT 1 FROM table WHERE col = n);`,
with the blanks of `sel`. -/
def printInsert (table col : Text) (sel : String) (n : Int) : Text :=
  bytes "INSERT INTO '" ++ (table ++ (bytes "' ('" ++ (col ++ (bytes "')" ++ (bytes sel ++
    (intText n ++ (bytes " WHERE NOT EXISTS (SELECT 1 FROM " ++ (table ++ (bytes " WHERE " ++
      (col ++ (bytes " = " ++ (intText n ++ bytes ");"))))))))))))

/-- `col = n` and what comes next. -/
def printLast (col : Text) (n : Int) (b : Text) : Text :=
  col ++ (bytes " = " ++ (intText n ++ b))

/-- `UPDATE 'table' SET `, the assignments, `col = n` and what comes next. -/
def printUpdate (table : Text) (as : List (Text × Value)) (col : Text) (n : Int) (b : Text) :
    Text :=
  bytes "UPDATE '" ++ (table ++ (bytes "' SET " ++ (as.flatMap printAssign ++ printLast col n b)))

/-- ` WHERE col = n` and what comes next. -/
def printWhere (col : Text) (n : Int) (b : Text) : Text := bytes " WHERE " ++ printLast col n b

/-- ` WHERE 'text' = n` and what comes next. -/
def printWhereText (t : Text) (n : Int) (b : Text) : Text :=
  bytes " WHERE '" ++ (t ++ (bytes "' = " ++ (intText n ++ b)))

/-- A text that can stand as a name, in quotes or not. -/
def IsName (w : Text) : Prop := (∀ c ∈ w, isWord c) ∧ w ≠ []

instance (w : Text) : Decidable (IsName w) :=
  @instDecidableAnd _ _ (List.decidableBAll (isWord · = true) w) inferInstance

theorem IsName.quote_not_mem {w : Text} (h : IsName w) : quote ∉ w := by
  intro hmem
  exact absurd (h.1 _ hmem) (by decide)

/-- A word or a number cannot go on with this text. -/
def ends (p : Text) : Bool := p.head?.any fun c => !isWord c

theorem lexFrom_name {w p : Text} (h : IsName w) (hp : ends p) :
    lexFrom .ready (w ++ (p ++ b)) = .word w :: lexFrom .ready (p ++ b) := by
  cases p with
  | nil => cases hp
  | cons c p => exact lexFrom_word h.1 h.2 (by simpa [ends] using hp)

theorem lexFrom_int {p : Text} (n : Int) (hp : ends p) :
    lexFrom .ready (intText n ++ (p ++ b)) = intTokens n ++ lexFrom .ready (p ++ b) := by
  cases p with
  | nil => cases hp
  | cons c p => exact lexFrom_intText n (by simpa [ends] using hp)

theorem lexFrom_inside {w : Text} (h : IsName w) :
    lexFrom (.inside []) (w ++ b) = lexFrom (.inside w.reverse) b := by
  have hscan := scan_inside h.quote_not_mem []
  rw [List.append_nil] at hscan
  rw [lexFrom_append hscan, List.nil_append]

variable {table : Text} {sel : String} {s : Stmt} {us : List Token}

theorem lexFrom_printInsert (htable : IsName table) (hcol : IsName col)
    (hsel : scan .ready (bytes sel) = ([.word (bytes "SELECT")], .ready)) (b : Text) :
    lexFrom .ready (printInsert table col sel n ++ b) =
      lex (bytes "INSERT INTO") ++ .quoted table :: .sym 40 :: .quoted col ::
        (lex (bytes ") SELECT") ++ (intTokens n ++ (lex (bytes "WHERE NOT EXISTS (SELECT 1 FROM") ++
          .word table :: .word (bytes "WHERE") :: .word col :: .sym 61 :: (intTokens n ++ .sym 41 ::
            .sym 59 :: lexFrom .ready b)))) := by
  have hinsert : scan .ready (bytes "INSERT INTO '") = (lex (bytes "INSERT INTO"), .inside []) := by
    decide
  have hparen (t : Text) :
      scan (.inside t) (bytes "' ('") = ([.quoted t.reverse, .sym 40], .inside []) := rfl
  have hclose (t : Text) :
      scan (.inside t) (bytes "')") = ([.quoted t.reverse, .sym 41], .ready) := rfl
  have hexists : scan .ready (bytes " WHERE NOT EXISTS (SELECT 1 FROM ") =
      (lex (bytes "WHERE NOT EXISTS (SELECT 1 FROM"), .ready) := rfl
  have hwhere : scan .ready (bytes " WHERE ") = ([.word (bytes "WHERE")], .ready) := by decide
  have heq : scan .ready (bytes " = ") = ([.sym 61], .ready) := by decide
  have hend : scan .ready (bytes ");") = ([.sym 41, .sym 59], .ready) := by decide
  have hends : ends (bytes " WHERE NOT EXISTS (SELECT 1 FROM ") ∧ ends (bytes " WHERE ") ∧
      ends (bytes " = ") ∧ ends (bytes ");") := by decide
  simp only [printInsert, List.append_assoc]
  rw [lexFrom_append hinsert, lexFrom_inside htable, lexFrom_append (hparen _), lexFrom_inside hcol,
    lexFrom_append (hclose _), lexFrom_append hsel, lexFrom_int _ hends.1, lexFrom_append hexists,
    lexFrom_name htable hends.2.1, lexFrom_append hwhere, lexFrom_name hcol hends.2.2.1,
    lexFrom_append heq, lexFrom_int _ hends.2.2.2, lexFrom_append hend, List.reverse_reverse,
    List.reverse_reverse]
  simp [show lex (bytes ") SELECT") = [.sym 41, .word (bytes "SELECT")] by decide]

theorem cond_tokens (hn : IsInt64 n) :
    cond (.word col :: .sym 61 :: (intTokens n ++ ts)) = some (⟨col, n⟩, ts) := by
  simp [cond, int_intTokens hn]

/-- The column may stand in quotes or not. -/
theorem stmt_insertUnless {x : Token} (hx : ∀ ts, name (x :: ts) = some (col, ts))
    (hn : IsInt64 n) :
    stmt (lex (bytes "INSERT INTO") ++ .quoted table :: .sym 40 :: x ::
        (lex (bytes ") SELECT") ++ (intTokens n ++ (lex (bytes "WHERE NOT EXISTS (SELECT 1 FROM") ++
          .word table :: .word (bytes "WHERE") :: .word col :: .sym 61 :: (intTokens n ++ .sym 41 ::
            .sym 59 :: us))))) =
      some (.insertUnless table col n table ⟨col, n⟩, us) := by
  have hcreate (ts : List Token) : createTable (lex (bytes "INSERT INTO") ++ ts) = none := rfl
  have hadd (ts : List Token) : addColumn (lex (bytes "INSERT INTO") ++ ts) = none := rfl
  have hquoted (ts : List Token) : name (.quoted table :: ts) = some (table, ts) := rfl
  have hword (ts : List Token) : name (.word table :: ts) = some (table, ts) := rfl
  rw [stmt, hcreate, hadd, insertUnless, skip_append]
  simp only [hquoted, hx, Option.bind_eq_bind, Option.bind_some, skip_paren]
  rw [skip_append, Option.bind_some, int_intTokens hn, Option.bind_some, skip_append]
  simp only [hword, Option.bind_some, skip_where, cond_tokens hn, skip_close]
  rfl

theorem stmt_printInsert (htable : IsName table) (hcol : IsName col) (hn : IsInt64 n)
    (hsel : scan .ready (bytes sel) = ([.word (bytes "SELECT")], .ready)) (b : Text) :
    stmt (lexFrom .ready (printInsert table col sel n ++ b)) =
      some (.insertUnless table col n table ⟨col, n⟩, lexFrom .ready b) := by
  rw [lexFrom_printInsert htable hcol hsel]
  exact stmt_insertUnless (fun _ => rfl) hn

theorem lexFrom_printLast (hcol : IsName col) {p : Text} (hp : ends p) :
    lexFrom .ready (printLast col n (p ++ b)) =
      .word col :: .sym 61 :: (intTokens n ++ lexFrom .ready (p ++ b)) := by
  have heq : scan .ready (bytes " = ") = ([.sym 61], .ready) := by decide
  rw [printLast, lexFrom_name hcol (by decide : ends (bytes " = ")), lexFrom_append heq,
    lexFrom_int _ hp]
  rfl

theorem lexFrom_printUpdate (htable : IsName table) (b : Text) :
    lexFrom .ready (printUpdate table as col n b) =
      .word (bytes "UPDATE") :: .quoted table :: .word (bytes "SET") ::
        lexFrom .ready (as.flatMap printAssign ++ printLast col n b) := by
  have hupdate : scan .ready (bytes "UPDATE '") = ([.word (bytes "UPDATE")], .inside []) := by
    decide
  have hset (t : Text) : scan (.inside t) (bytes "' SET ") =
      ([.quoted t.reverse, .word (bytes "SET")], .ready) := rfl
  rw [printUpdate, lexFrom_append hupdate, lexFrom_inside htable, lexFrom_append (hset _),
    List.reverse_reverse]
  rfl

theorem update_tokens :
    update (.word (bytes "UPDATE") :: .quoted table :: .word (bytes "SET") :: ts) =
    (sepBy assign ts.length ts).bind fun r =>
      match skip "WHERE" r.2 with
      | none => some (.update table r.1 none, r.2)
      | some us => updateWhere table r.1 us := by
  have hupdate (us : List Token) : skip "UPDATE" (.word (bytes "UPDATE") :: us) = some us := rfl
  have hset (us : List Token) : skip "SET" (.word (bytes "SET") :: us) = some us := rfl
  simp only [update, hupdate, hset, name, Option.bind_eq_bind, Option.bind_some]

theorem updateWhere_tokens (hn : IsInt64 n) :
    updateWhere table as (.word col :: .sym 61 :: (intTokens n ++ ts)) =
      some (.update table as (some ⟨col, n⟩), ts) := by
  rw [updateWhere, cond_tokens hn]
  · rfl
  · intro t us h
    cases h

/-- An update behind `WHERE` is the update of these assignments. -/
theorem update_of_updateWhere {set : List (Text × Value)} {c : Option Cond}
    (h : updateWhere table set ts = some (.update table as c, us)) : set = as := by
  unfold updateWhere at h
  split at h
  · obtain ⟨vs, -, h⟩ := Option.bind_eq_some_iff.mp h
    obtain ⟨n, -, h⟩ := Option.bind_eq_some_iff.mp h
    cases h
  · obtain ⟨d, -, h⟩ := Option.bind_eq_some_iff.mp h
    cases h
    rfl

theorem stmt_update : stmt (.word (bytes "UPDATE") :: ts) =
    (update (.word (bytes "UPDATE") :: ts)).bind fun r =>
      (skip ";" r.2).map fun us => (r.1, us) := by
  have hcreate : createTable (.word (bytes "UPDATE") :: ts) = none := rfl
  have hadd : addColumn (.word (bytes "UPDATE") :: ts) = none := rfl
  have hinsert : insertUnless (.word (bytes "UPDATE") :: ts) = none := rfl
  have hvalues : insertValues (.word (bytes "UPDATE") :: ts) = none := rfl
  rw [stmt, hcreate, hadd, hinsert, hvalues]
  simp only [Option.orElse_eq_orElse, Option.orElse_none, Option.bind_eq_bind]
  congr 1
  funext r
  cases skip ";" r.2 <;> rfl

/-- All assignments are read, and what is behind them is left. -/
theorem sepBy_printLast (hcol : IsName col) (hn : IsInt64 n) (has : ∀ a ∈ as, quote ∉ a.1)
    (hsafe : ∀ a ∈ as, a.2.Safe) {p : Text} (hp : ends p)
    (hnext : skip "," (lexFrom .ready (p ++ b)) = none) :
    let ts := lexFrom .ready (as.flatMap printAssign ++ printLast col n (p ++ b))
    sepBy assign ts.length ts = some (as ++ [(col, .int n)], lexFrom .ready (p ++ b)) := by
  intro ts
  have hlen := length_print (b := printLast col n (p ++ b)) has hsafe
  have hlast := lexFrom_printLast (b := b) (n := n) hcol hp
  have hpos : 0 < (lexFrom .ready (printLast col n (p ++ b))).length := by
    rw [hlast]
    exact Nat.succ_pos _
  obtain ⟨k, hk⟩ := Nat.exists_eq_add_of_lt ((Nat.lt_add_of_pos_right hpos).trans_le hlen)
  rw [show ts.length = as.length + (k + 1) from hk, sepBy_print has hsafe, hlast]
  simp [sepBy, assign, name, value_int hn, hnext]

/-- An update of the rows with a key. -/
theorem stmt_printUpdate_where {key : Text} {k : Int} (htable : IsName table) (hcol : IsName col)
    (hkey : IsName key) (hn : IsInt64 n) (hk : IsInt64 k) (has : ∀ a ∈ as, quote ∉ a.1)
    (hsafe : ∀ a ∈ as, a.2.Safe) (b : Text) :
    stmt (lexFrom .ready (printUpdate table as col n (printWhere key k (bytes ";" ++ b)))) =
      some (.update table (as ++ [(col, .int n)]) (some ⟨key, k⟩), lexFrom .ready b) := by
  have hwhere : scan .ready (bytes " WHERE ") = ([.word (bytes "WHERE")], .ready) := by decide
  have hend : scan .ready (bytes ";") = ([.sym 59], .ready) := by decide
  have htokens : lexFrom .ready (bytes " WHERE " ++ printLast key k (bytes ";" ++ b)) =
      .word (bytes "WHERE") :: .word key :: .sym 61 :: (intTokens k ++
        .sym 59 :: lexFrom .ready b) := by
    rw [lexFrom_append hwhere, lexFrom_printLast hkey (by decide), lexFrom_append hend]
    rfl
  rw [lexFrom_printUpdate htable, stmt_update, update_tokens, printWhere,
    sepBy_printLast hcol hn has hsafe (by decide) (by rw [htokens]; rfl), Option.bind_some, htokens]
  simp [updateWhere_tokens hk]

/-- An update behind whose `WHERE` a text stands. -/
theorem stmt_printUpdate_whereText {t : Text} {k : Int} (htable : IsName table) (hcol : IsName col)
    (ht : IsName t) (hn : IsInt64 n) (hk : IsInt64 k) (has : ∀ a ∈ as, quote ∉ a.1)
    (hsafe : ∀ a ∈ as, a.2.Safe) (b : Text) :
    stmt (lexFrom .ready (printUpdate table as col n (printWhereText t k (bytes ";" ++ b)))) =
      some (.updateNone table (as ++ [(col, .int n)]) t k, lexFrom .ready b) := by
  have hwhere : scan .ready (bytes " WHERE '") = ([.word (bytes "WHERE")], .inside []) := by decide
  have heq (w : Text) : scan (.inside w) (bytes "' = ") = ([.quoted w.reverse, .sym 61], .ready) :=
    rfl
  have hend : scan .ready (bytes ";") = ([.sym 59], .ready) := by decide
  have htokens : lexFrom .ready (bytes " WHERE '" ++ (t ++ (bytes "' = " ++ (intText k ++
      (bytes ";" ++ b))))) = .word (bytes "WHERE") :: .quoted t :: .sym 61 :: (intTokens k ++
        .sym 59 :: lexFrom .ready b) := by
    rw [lexFrom_append hwhere, lexFrom_inside ht, lexFrom_append (heq _), List.reverse_reverse,
      lexFrom_int _ (by decide), lexFrom_append hend]
    rfl
  rw [lexFrom_printUpdate htable, stmt_update, update_tokens, printWhereText,
    sepBy_printLast hcol hn has hsafe (by decide) (by rw [htokens]; rfl), Option.bind_some, htokens]
  simp [updateWhere, int_intTokens hk]

/-- An update of all rows. -/
theorem stmt_printUpdate (htable : IsName table) (hcol : IsName col) (hn : IsInt64 n)
    (has : ∀ a ∈ as, quote ∉ a.1) (hsafe : ∀ a ∈ as, a.2.Safe) (b : Text) :
    stmt (lexFrom .ready (printUpdate table as col n (bytes ";" ++ b))) =
      some (.update table (as ++ [(col, .int n)]) none, lexFrom .ready b) := by
  have hend : scan .ready (bytes ";") = ([.sym 59], .ready) := by decide
  have htokens : lexFrom .ready (bytes ";" ++ b) = .sym 59 :: lexFrom .ready b :=
    lexFrom_append hend
  rw [lexFrom_printUpdate htable, stmt_update, update_tokens,
    sepBy_printLast hcol hn has hsafe (by decide) (by rw [htokens]; rfl), Option.bind_some, htokens]
  rfl

/-- An update that is read as it was meant has no quote in its texts. -/
theorem safe_of_stmt {c : Option Cond} {bs : List (Text × Value)} {r : Text} (htable : IsName table)
    (has : ∀ a ∈ as, quote ∉ a.1) (hint : ∀ a ∈ as, a.2.Safe ∨ ∃ t, a.2 = .text t)
    (h : stmt (lexFrom .ready (printUpdate table as col n r)) =
      some (.update table (as ++ bs) c, ts)) : ∀ a ∈ as, a.2.Safe := by
  rw [lexFrom_printUpdate htable, stmt_update, update_tokens] at h
  obtain ⟨⟨s, vs⟩, hupdate, hskip⟩ := Option.bind_eq_some_iff.mp h
  obtain ⟨⟨cs, ws⟩, hsep, hwhere⟩ := Option.bind_eq_some_iff.mp hupdate
  obtain ⟨xs, -, heq⟩ := Option.map_eq_some_iff.mp hskip
  cases heq
  have hcs : cs = as ++ bs := by
    split at hwhere
    · cases hwhere
      rfl
    · exact update_of_updateWhere hwhere
  exact safe_of_sepBy has hint (hcs ▸ hsep)

/-! ## Texts of several statements -/

theorem stmts_succ {k : Nat} (h : stmt ts = some (s, us)) :
    stmts (k + 1) ts = (stmts k us).map (s :: ·) := by
  cases ts with
  | nil =>
    have hnil : stmt [] = none := rfl
    rw [hnil] at h
    cases h
  | cons t ts => simp [stmts, h, Option.map_eq_bind]

theorem stmts_cons {k : Nat} {ss : List Stmt} (h : stmts k ts = some (s :: ss)) :
    ∃ j us, stmt ts = some (s, us) ∧ stmts j us = some ss := by
  cases k with
  | zero => cases ts <;> cases h
  | succ k =>
    cases ts with
    | nil => cases h
    | cons t ts =>
      obtain ⟨⟨s', us⟩, hstmt, hrest⟩ := Option.bind_eq_some_iff.mp h
      obtain ⟨ss', hss, heq⟩ := Option.bind_eq_some_iff.mp hrest
      cases heq
      exact ⟨k, us, hstmt, hss⟩

/-- The tokens are those of these statements. -/
inductive Script : List Token → List Stmt → Prop
  | nil : Script [] []
  | cons {ts us : List Token} {s : Stmt} {ss : List Stmt} (h : stmt ts = some (s, us))
    (hrest : Script us ss) : Script ts (s :: ss)

theorem stmts_of_script {ss : List Stmt} (h : Script ts ss) {k : Nat} (hk : ss.length ≤ k) :
    stmts k ts = some ss := by
  induction h generalizing k with
  | nil => cases k <;> rfl
  | cons h hrest ih =>
    obtain ⟨j, rfl⟩ := Nat.exists_eq_add_of_le' (Nat.one_le_of_lt hk)
    rw [stmts_succ h, ih (Nat.le_of_succ_le_succ hk)]
    rfl

theorem parse_of_script {ss : List Stmt} (h : Script (lex b) ss)
    (hlen : ss.length ≤ (lex b).length) : parse b = some ss := stmts_of_script h hlen

theorem parse_single (h : stmt (lex b) = some (s, [])) : parse b = some [s] := by
  have hlen : 1 ≤ (lex b).length := by
    refine List.length_pos_of_ne_nil fun hnil => ?_
    rw [hnil, show stmt [] = none from rfl] at h
    cases h
  obtain ⟨k, hk⟩ := Nat.exists_eq_add_of_le' hlen
  rw [parse, hk, stmts_succ h]
  cases k <;> rfl

theorem parse_pair {r : Text} {s' : Stmt} (hlen : 2 ≤ (lex b).length)
    (h : stmt (lex b) = some (s, lex r)) (h' : stmt (lex r) = some (s', [])) :
    parse b = some [s, s'] := by
  obtain ⟨k, hk⟩ := Nat.exists_eq_add_of_le hlen
  rw [parse, hk, show 2 + k = k + 1 + 1 by omega, stmts_succ h, stmts_succ h']
  cases k <;> rfl

/-! ## Making tables -/

/-- `CREATE TABLE IF NOT EXISTS table (id INT);`, or with a further column `key INT UNIQUE`. -/
def printCreateTable (table : Text) (key : Option Text) : Text :=
  bytes "CREATE TABLE IF NOT EXISTS " ++ (table ++ (bytes " (id INT" ++
    ((key.elim [] fun key => bytes ", " ++ (key ++ bytes " INT UNIQUE")) ++ bytes ");")))

/-- `ALTER TABLE 'table' ADD COLUMN 'col' type;`. -/
def printAddColumn (table col type : Text) : Text :=
  bytes "ALTER TABLE '" ++ (table ++ (bytes "' ADD COLUMN '" ++ (col ++ (bytes "' " ++
    (type ++ bytes ";")))))

theorem lexFrom_printAddColumn {type : Text} (htable : IsName table) (hcol : IsName col)
    (htype : IsName type) (b : Text) :
    lexFrom .ready (printAddColumn table col type ++ b) =
      lex (bytes "ALTER TABLE") ++ .quoted table :: (lex (bytes "ADD COLUMN") ++
        .quoted col :: .word type :: .sym 59 :: lexFrom .ready b) := by
  have halter : scan .ready (bytes "ALTER TABLE '") = (lex (bytes "ALTER TABLE"), .inside []) := by
    decide
  have hadd (t : Text) : scan (.inside t) (bytes "' ADD COLUMN '") =
      (.quoted t.reverse :: lex (bytes "ADD COLUMN"), .inside []) := rfl
  have hclose (t : Text) : scan (.inside t) (bytes "' ") = ([.quoted t.reverse], .ready) := rfl
  have hend : scan .ready (bytes ";") = ([.sym 59], .ready) := by decide
  simp only [printAddColumn, List.append_assoc]
  rw [lexFrom_append halter, lexFrom_inside htable, lexFrom_append (hadd _), lexFrom_inside hcol,
    lexFrom_append (hclose _), lexFrom_name htype (by decide : ends (bytes ";")),
    lexFrom_append hend, List.reverse_reverse, List.reverse_reverse]
  rfl

theorem length_printAddColumn {type : Text} (htable : IsName table) (hcol : IsName col)
    (htype : IsName type) (b : Text) :
    4 ≤ (lexFrom .ready (printAddColumn table col type ++ b)).length := by
  rw [lexFrom_printAddColumn htable hcol htype, List.length_append, List.length_cons,
    List.length_append, List.length_cons, List.length_cons, List.length_cons]
  omega

theorem stmt_printAddColumn {type : Text} (htable : IsName table) (hcol : IsName col)
    (htype : IsName type) (b : Text) :
    stmt (lexFrom .ready (printAddColumn table col type ++ b)) =
      some (.addColumn table ⟨col, type, false⟩, lexFrom .ready b) := by
  have hcreate (ts : List Token) : createTable (lex (bytes "ALTER TABLE") ++ ts) = none := rfl
  rw [lexFrom_printAddColumn htable hcol htype, stmt, hcreate, addColumn, skip_append]
  simp only [name, Option.bind_eq_bind, Option.bind_some]
  rw [skip_append]
  rfl

/-- The columns of a new table. -/
def newColumns (key : Option Text) : List Column :=
  ⟨bytes "id", bytes "INT", false⟩ :: key.toList.map fun key => ⟨key, bytes "INT", true⟩

theorem stmt_printCreateTable {key : Option Text} (htable : IsName table)
    (hkey : ∀ k ∈ key, IsName k) (b : Text) :
    stmt (lexFrom .ready (printCreateTable table key ++ b)) =
      some (.createTable table (newColumns key), lexFrom .ready b) := by
  have hcreate : scan .ready (bytes "CREATE TABLE IF NOT EXISTS ") =
      (lex (bytes "CREATE TABLE IF NOT EXISTS"), .ready) := rfl
  cases key with
  | none =>
    have hid : scan .ready (bytes " (id INT);") =
        ([.sym 40, .word (bytes "id"), .word (bytes "INT"), .sym 41, .sym 59], .ready) := by decide
    have htext : printCreateTable table none ++ b =
        bytes "CREATE TABLE IF NOT EXISTS " ++ (table ++ (bytes " (id INT);" ++ b)) := by
      simp only [printCreateTable, List.append_assoc]
      rfl
    rw [htext, lexFrom_append hcreate, lexFrom_name htable (by decide : ends (bytes " (id INT);")),
      lexFrom_append hid, stmt, createTable, skip_append]
    rfl
  | some key =>
    have hkey := hkey key rfl
    have hid : scan .ready (bytes " (id INT, ") =
        ([.sym 40, .word (bytes "id"), .word (bytes "INT"), .sym 44], .ready) := by decide
    have hunique : scan .ready (bytes " INT UNIQUE);") =
        ([.word (bytes "INT"), .word (bytes "UNIQUE"), .sym 41, .sym 59], .ready) := by decide
    have htext : printCreateTable table (some key) ++ b =
        bytes "CREATE TABLE IF NOT EXISTS " ++ (table ++ (bytes " (id INT, " ++ (key ++
          (bytes " INT UNIQUE);" ++ b)))) := by
      simp only [printCreateTable, Option.elim_some, List.append_assoc]
      rfl
    rw [htext, lexFrom_append hcreate, lexFrom_name htable (by decide : ends (bytes " (id INT, ")),
      lexFrom_append hid, lexFrom_name hkey (by decide : ends (bytes " INT UNIQUE);")),
      lexFrom_append hunique, stmt, createTable, skip_append]
    rfl

end

example : parse (bytes "UPDATE 't' SET a = 'it''s';") =
    some [.update (bytes "t") [(bytes "a", .text (bytes "it's"))] none] := by decide

end Sql
