import Libtg.Tg.Saves

/-!
# What is stored

The tables are made with the columns of the header files (`create_eq`), and `Ready` says what a save
relies on: the columns are there and no two rows have the same key. A save whose texts have no
quotes puts the row of its key (`exec_text`) and leaves the table ready.

`storesTexts_iff`: the text of a save is read as the statements it is meant to be, and each text is
read back from the row, exactly if the texts have no quotes and no column makes something else of
them.
-/

namespace Libtg.Database

open Sql

variable {A : Affinity} {s : Store} {id : Int32} {m : Record} {db : Db} {t : Table}

/-! ## The tables -/

def Arg.column (a : Arg) : Column := ⟨Sql.bytes a.name, Sql.bytes a.type, false⟩

/-- `tg_user_create_table` and its like: the table, and then the columns one by one. The results are
not looked at: a column that is there already is an error of SQLite's. -/
def Store.createTable (A : Affinity) (s : Store) (stop stop' : String) (db : Db) : Db :=
  s.args.foldl (fun db a => (exec A db (printAddColumn (Sql.bytes s.table) (Sql.bytes a.name)
      (Sql.bytes a.type) ++ Sql.bytes stop')).1)
    (exec A db (printCreateTable (Sql.bytes s.table) (some (Sql.bytes s.key)) ++
      Sql.bytes stop)).1

/-- The columns after those of these fields have been added. -/
def addColumns (cols : List Column) (args : List Arg) : List Column :=
  args.foldl (fun cols a =>
    if cols.any fun c => c.name = Sql.bytes a.name then cols else cols ++ [a.column]) cols

/-- The table as it is made. -/
def Store.created (s : Store) : Table :=
  ⟨addColumns (newColumns (some (Sql.bytes s.key))) s.args, []⟩

/-- What a save relies on. -/
structure Store.Ready (s : Store) (t : Table) : Prop where
  keyed : t.Keyed (Sql.bytes s.key)
  key : t.HasInt (Sql.bytes s.key)
  id : t.HasInt (Sql.bytes "id")
  has : ∀ a ∈ s.args, t.has (Sql.bytes a.name)
  type : ∀ a ∈ s.args, a.isText → ∃ c, t.column (Sql.bytes a.name) = some c ∧
    c.type = Sql.bytes a.type

/-- The first column of a name is the one that is kept. -/
theorem find_addColumns (n : Text) (cols : List Column) (args : List Arg) :
    (addColumns cols args).find? (fun c => c.name = n) =
      (cols.find? fun c => c.name = n).or
        ((args.find? fun a => Sql.bytes a.name = n).map Arg.column) := by
  induction args generalizing cols with
  | nil => simp [addColumns]
  | cons a args ih =>
    rw [addColumns, List.foldl_cons, ← addColumns, ih]
    by_cases hn : Sql.bytes a.name = n
    · subst hn
      split_ifs with hany
      · have hsome := List.find?_isSome.mpr (List.any_eq_true.mp hany)
        obtain ⟨c, hc⟩ := Option.isSome_iff_exists.mp hsome
        rw [hc, Option.some_or, Option.some_or]
      · have hnone : cols.find? (fun c => c.name = Sql.bytes a.name) = none := by
          simpa using hany
        simp [hnone, Arg.column]
    · have hcol : ([a.column].find? fun c => c.name = n) = none := by simp [Arg.column, hn]
      split_ifs
      · simp [hn]
      · simp [List.find?_append, hcol, hn]

theorem unique_addColumns {cols : List Column} {args : List Arg} {c : Column}
    (hc : c ∈ addColumns cols args) : c ∈ cols ∨ c.unique = false := by
  induction args generalizing cols with
  | nil => exact .inl hc
  | cons a args ih =>
    rw [addColumns, List.foldl_cons, ← addColumns] at hc
    rcases ih hc with hc | hc
    · split_ifs at hc
      · exact .inl hc
      · rcases List.mem_append.mp hc with hc | hc
        · exact .inl hc
        · rw [List.mem_singleton.mp hc]
          exact .inr rfl
    · exact .inr hc

theorem created_ready (s : Store) : s.Ready s.created where
  keyed := by
    refine ⟨fun c hc hu => ?_, List.nodup_nil⟩
    rcases unique_addColumns hc with hc | hc
    · simp only [newColumns, Option.toList_some, List.map_cons, List.map_nil, List.mem_cons,
        List.not_mem_nil, or_false] at hc
      rcases hc with rfl | rfl
      · cases hu
      · rfl
    · rw [hc] at hu
      cases hu
  key := by
    rw [Table.HasInt, Table.column, Store.created, find_addColumns]
    by_cases hid : Sql.bytes "id" = Sql.bytes s.key
    · exact ⟨⟨Sql.bytes "id", Sql.bytes "INT", false⟩, by simp [newColumns, hid], rfl⟩
    · exact ⟨⟨Sql.bytes s.key, Sql.bytes "INT", true⟩, by simp [newColumns, hid], rfl⟩
  id := ⟨_, by rw [Table.column, Store.created, find_addColumns]; rfl, rfl⟩
  has := by
    intro a ha
    have hfind : (s.args.find? fun b => Sql.bytes b.name = Sql.bytes a.name).isSome :=
      List.find?_isSome.mpr ⟨a, ha, decide_eq_true rfl⟩
    rw [Table.has, Table.column, Store.created, find_addColumns, Option.isSome_or,
      Option.isSome_map, hfind, Bool.or_true]
  type := by
    intro a ha htext
    have hkey : Sql.bytes s.key ≠ Sql.bytes a.name := by
      intro hkey
      have hfalse := (s.args_key a ha (bytes_inj hkey.symm)).1
      rw [htext] at hfalse
      cases hfalse
    have hid : Sql.bytes "id" ≠ Sql.bytes a.name := fun hid => s.args_id a ha (bytes_inj hid.symm)
    have hfind : s.args.find? (fun b => Sql.bytes b.name = Sql.bytes a.name) = some a := by
      cases hb : s.args.find? (fun b => Sql.bytes b.name = Sql.bytes a.name) with
      | none => exact absurd (decide_eq_true rfl) (List.find?_eq_none.mp hb a ha)
      | some b =>
        have hname : Sql.bytes b.name = Sql.bytes a.name := by simpa using List.find?_some hb
        rw [s.args_text a ha htext b (List.mem_of_find?_eq_some hb) (bytes_inj hname)]
    refine ⟨a.column, ?_, rfl⟩
    rw [Table.column, Store.created, find_addColumns, hfind]
    simp [newColumns, hkey, hid]

/-- The addition of columns one by one, whether they are there or not. -/
theorem foldl_addColumn {stop : String} (hstop : lex (Sql.bytes stop) = []) {table : Text}
    (hs : IsName table) (args : List Arg)
    (hargs : ∀ a ∈ args, IsName (Sql.bytes a.name) ∧ IsName (Sql.bytes a.type))
    (cols : List Column) :
    args.foldl (fun db a => (exec A db (printAddColumn table (Sql.bytes a.name)
        (Sql.bytes a.type) ++ Sql.bytes stop)).1) (Function.update db table (some ⟨cols, []⟩)) =
      Function.update db table (some ⟨addColumns cols args, []⟩) := by
  induction args generalizing cols with
  | nil => rfl
  | cons a args ih =>
    obtain ⟨⟨hname, htype⟩, hargs⟩ := List.forall_mem_cons.mp hargs
    have hstep : (exec A (Function.update db table (some ⟨cols, []⟩)) (printAddColumn table
        (Sql.bytes a.name) (Sql.bytes a.type) ++ Sql.bytes stop)).1 =
          Function.update db table (some ⟨addColumns cols [a], []⟩) := by
      rw [exec_printAddColumn ⟨hs, hname, htype⟩ hstop (Function.update_self ..)]
      by_cases hany : cols.any fun c => c.name = Sql.bytes a.name
      · have hhas : Table.has ⟨cols, []⟩ (Sql.bytes a.name) := by
          simpa [Table.has, Table.column] using hany
        have hadd : addColumns cols [a] = cols := if_pos hany
        rw [if_pos hhas, hadd]
      · have hhas : ¬ Table.has ⟨cols, []⟩ (Sql.bytes a.name) := by
          simpa [Table.has, Table.column] using hany
        have hadd : addColumns cols [a] = cols ++ [a.column] := if_neg hany
        rw [if_neg hhas, hadd, Function.update_idem]
        rfl
    rw [List.foldl_cons, hstep, ih hargs]
    rfl

/-- Making a table where there is none. -/
theorem createTable_eq {stop stop' : String} (hstop : lex (Sql.bytes stop) = [])
    (hstop' : lex (Sql.bytes stop') = []) (hnone : db (Sql.bytes s.table) = none) :
    s.createTable A stop stop' db =
      Function.update db (Sql.bytes s.table) (some s.created) := by
  have hstmt := stmt_printCreateTable s.table_name
    (fun k hk => (Option.mem_some_iff.mp hk) ▸ s.key_name) (Sql.bytes stop)
  rw [show lexFrom .ready (Sql.bytes stop) = [] from hstop] at hstmt
  have hcreate : (exec A db (printCreateTable (Sql.bytes s.table) (some (Sql.bytes s.key)) ++
      Sql.bytes stop)).1 = Function.update db (Sql.bytes s.table)
        (some ⟨newColumns (some (Sql.bytes s.key)), []⟩) := by
    rw [exec_of_parse (parse_single hstmt)]
    simp [runAll, run, hnone]
  have hargs : ∀ a ∈ s.args, IsName (Sql.bytes a.name) ∧ IsName (Sql.bytes a.type) := by
    intro a ha
    refine ⟨s.args_name a ha, ?_⟩
    rcases s.args_type a ha with htype | htype <;> rw [htype] <;> decide +kernel
  rw [Store.createTable, hcreate, foldl_addColumn hstop' s.table_name s.args hargs]
  rfl

/-! ## The statements -/

/-- Every column that is set is there. -/
theorem Store.Ready.has_sets (h : s.Ready t) : ∀ x ∈ s.sets id m, t.has x.1 := by
  intro x hx
  rcases List.mem_append.mp hx with hx | hx
  · obtain ⟨a, ha, hassign⟩ := mem_assigns.mp hx
    rw [(assign_eq hassign).1]
    exact h.has a ha
  · rw [List.mem_singleton.mp hx]
    exact h.id.has

/-- The key stays. -/
theorem Store.Ready.set_key (h : s.Ready t) {r : Row}
    (hr : r (Sql.bytes s.key) = .int (s.keyOf m)) :
    t.set A (s.sets id m) r (Sql.bytes s.key) = .int (s.keyOf m) := by
  by_cases hmem : ∃ x ∈ s.sets id m, x.1 = Sql.bytes s.key
  · rw [Table.set_of_mem hmem ?_ r, h.key.store (s.keyOf_int64 m)]
    intro x hx hcol
    rcases List.mem_append.mp hx with hx | hx
    · obtain ⟨a, ha, hassign⟩ := mem_assigns.mp hx
      obtain ⟨hname, hvalue⟩ := assign_eq hassign
      obtain ⟨htext, hkey⟩ := s.args_key a ha (bytes_inj (hname.symm.trans hcol))
      rcases hvalue with ⟨-, hx⟩ | ⟨htrue, -⟩
      · rw [hx, hkey]
      · rw [htext] at htrue
        cases htrue
    · rw [List.mem_singleton.mp hx] at hcol
      exact absurd (bytes_inj hcol).symm s.key_ne
  · push Not at hmem
    rw [Table.set_of_ne hmem, hr]

/-- The rows after a save. -/
def Store.put (A : Affinity) (s : Store) (id : Int32) (m : Record) (t : Table) : Table :=
  { t with
    rows := putRow (Sql.bytes s.key) (s.keyOf m) (t.set A (s.sets id m)) t.rows }

theorem exec_text (hm : s.Plain m) (h : s.Ready t) (htable : db (Sql.bytes s.table) = some t) :
    exec A db (s.text id m) =
      (Function.update db (Sql.bytes s.table) (some (s.put A id m t)), true) := by
  rw [exec_of_parse (parse_text_iff.mpr hm)]
  exact runAll_put htable h.keyed h.key (s.keyOf_int64 m) h.has_sets fun r hr => h.set_key hr

theorem Store.Ready.put (h : s.Ready t) : s.Ready (s.put A id m t) where
  keyed := by
    refine ⟨h.keyed.unique, ?_⟩
    rw [Store.put, putRow_keys fun r hr => h.set_key hr]
    exact addRow_nodup h.keyed.nodup
  key := h.key
  id := h.id
  has := h.has
  type := h.type

/-! ## Reading back -/

/-- What is saved as a text is the text that is read in its column. -/
def Store.ReadsBack (A : Affinity) (s : Store) (id : Int32) (m : Record) : Prop :=
  ∀ (db : Db) (t : Table), db (Sql.bytes s.table) = some t → s.Ready t →
    ∀ a ∈ s.args, ∀ u, a.assign s.empty m = some (Sql.bytes a.name, .text u) →
      (select (exec A db (s.text id m)).1 [Sql.bytes a.name] (Sql.bytes s.table)
        [⟨Sql.bytes s.key, s.keyOf m⟩]).map (List.map (List.map columnText)) = some [[some u]]

/-- No column of a text makes something else of it. -/
def Store.Kept (A : Affinity) (s : Store) (m : Record) : Prop :=
  ∀ a ∈ s.args, ∀ u, a.assign s.empty m = some (Sql.bytes a.name, .text u) →
    columnText (A.store (Sql.bytes a.type) (.text u)) = some u

/-- A text that is set is what its column makes of it. -/
theorem Store.Ready.set_text (h : s.Ready t) {a : Arg} (ha : a ∈ s.args) {u : Text}
    (hassign : a.assign s.empty m = some (Sql.bytes a.name, .text u)) (r : Row) :
    t.set A (s.sets id m) r (Sql.bytes a.name) = A.store (Sql.bytes a.type) (.text u) := by
  have htext : a.isText := by
    obtain ⟨-, ⟨-, hint⟩ | ⟨htext, -⟩⟩ := assign_eq hassign
    · cases hint
    · exact htext
  obtain ⟨c, hc, htype⟩ := h.type a ha htext
  have hmem : ∃ x ∈ s.sets id m, x.1 = Sql.bytes a.name :=
    ⟨_, List.mem_append_left _ (mem_assigns.mpr ⟨a, ha, hassign⟩), rfl⟩
  rw [Table.set_of_mem hmem ?_ r, Table.store, hc, Option.elim_some, htype]
  intro x hx hcol
  rcases List.mem_append.mp hx with hx | hx
  · obtain ⟨b, hb, hassign'⟩ := mem_assigns.mp hx
    have hname := bytes_inj ((assign_eq hassign').1.symm.trans hcol)
    rw [s.args_text a ha htext b hb hname] at hassign'
    cases hassign.symm.trans hassign'
    rfl
  · rw [List.mem_singleton.mp hx] at hcol
    exact absurd (bytes_inj hcol).symm (s.args_id a ha)

theorem select_text (hm : s.Plain m) (htable : db (Sql.bytes s.table) = some t) (h : s.Ready t)
    {a : Arg} (ha : a ∈ s.args) {u : Text}
    (hassign : a.assign s.empty m = some (Sql.bytes a.name, .text u)) :
    select (exec A db (s.text id m)).1 [Sql.bytes a.name] (Sql.bytes s.table)
      [⟨Sql.bytes s.key, s.keyOf m⟩] = some [[A.store (Sql.bytes a.type) (.text u)]] := by
  have hset (r : Row) (hr : r (Sql.bytes s.key) = .int (s.keyOf m)) :
      t.set A (s.sets id m) r (Sql.bytes s.key) = .int (s.keyOf m) := h.set_key hr
  obtain ⟨r, hrow⟩ := filter_putRow h.keyed.nodup hset
  have hput : Function.update db (Sql.bytes s.table) (some (s.put A id m t)) (Sql.bytes s.table) =
      some (s.put A id m t) := Function.update_self ..
  have hcols : (s.put A id m t).has (Sql.bytes a.name) ∧ (s.put A id m t).has (Sql.bytes s.key) :=
    ⟨h.put.has a ha, h.put.key.has⟩
  simp only [exec_text hm h htable, select, hput, List.all_cons, List.all_nil, Bool.and_true, hcols,
    and_self, if_true]
  rw [Store.put, hrow, List.map_singleton, List.map_singleton, h.set_text ha hassign]

theorem readsBack_iff (hm : s.Plain m) : s.ReadsBack A id m ↔ s.Kept A m := by
  constructor
  · intro h a ha u hassign
    have hread := h (fun _ => some s.created) s.created rfl (created_ready s) a ha u hassign
    rw [select_text hm rfl (created_ready s) ha hassign] at hread
    simpa using hread
  · intro h db t htable ht a ha u hassign
    rw [select_text hm htable ht ha hassign]
    simp [h a ha u hassign]

/-- The text of a save is the statements it is meant to be, and its texts are read back. -/
def StoresTexts (A : Affinity) (s : Store) (id : Int32) (m : Record) : Prop :=
  parse (s.text id m) = some (s.stmts id m) ∧ s.ReadsBack A id m

theorem storesTexts_iff (A : Affinity) (s : Store) (id : Int32) (m : Record) :
    StoresTexts A s id m ↔ s.Plain m ∧ s.Kept A m := by
  rw [StoresTexts, parse_text_iff]
  exact and_congr_right readsBack_iff

/-- A first name with a quote in it. -/
def obrien : Record where
  int _ := 0
  str n := if n = "first_name_" then some ⟨Sql.bytes "O'Brien", by decide⟩ else none

theorem storesTexts_counterexample : ¬ StoresTexts Affinity.none users 1 obrien := by
  intro h
  have hmem : (⟨.str, .chars, "first_name_", "TEXT", "first_name", 2⟩ : Arg) ∈ tgUserArgs := by
    decide
  exact absurd (parse_text_iff.mp h.1 _ hmem rfl _ rfl) (by decide)

end Libtg.Database
