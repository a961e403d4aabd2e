import Libtg.Lib.LastOf
import Libtg.Tg.Accounts
import Mathlib.Data.List.TakeWhile

/-!
# The rows after a run of saves

Users, chats, channels and dialogs are saved in any order and by any accounts. The row of a key has
in each column what the last save of this key that sets the column has set it to (`laidRow`,
`saves_laid`). The getters read each field from its own column (`record_int`, `record_str`), so that
what they return is known from the saves alone (`Laid.get_saved`).
-/

namespace Libtg.Database

open Sql LastOf

/-- A save whose texts have no quotes. -/
structure PlainSave extends Save where
  plain : kind.store.Plain record

/-- What assignments set a column to. -/
def assigned (col : Text) (as : List (Text × Value)) : Option Value :=
  lastOf (fun x => if x.1 = col then some x.2 else none) as

/-- It is a save of this key. -/
def Save.Of (k : Kind) (p : Int) (c : Save) : Prop := c.kind = k ∧ c.key = p

instance (k : Kind) (p : Int) (c : Save) : Decidable (c.Of k p) :=
  inferInstanceAs (Decidable (_ ∧ _))

/-- What a save sets in the row of a key. -/
def Save.setsAt (k : Kind) (p : Int) (col : Text) (c : Save) : Option Value :=
  if c.Of k p then assigned col (k.store.sets c.account c.record) else none

/-- What was last set there. -/
def lastSet (cs : List Save) (k : Kind) (p : Int) (col : Text) : Option Value :=
  lastOf (Save.setsAt k p col) cs

/-- The row of a key after these saves. -/
def laidRow (A : Affinity) (cs : List Save) (k : Kind) (p : Int) : Row := fun col =>
  ((lastSet cs k p col).map (k.store.created.store A col)).getD (newRow (bytes k.store.key) p col)

/-- The table has this row for each key that was saved, and no other. -/
structure Laid (A : Affinity) (cs : List Save) (k : Kind) (t : Table) : Prop where
  ready : k.store.Ready t
  cols : t.cols = k.store.created.cols
  rows : ∀ p, t.rows.filter (Cond.holds ⟨bytes k.store.key, p⟩) =
    if ∃ c ∈ cs, c.Of k p then [laidRow A cs k p] else []

section
variable {A : Affinity} {cs : List Save} {k : Kind} {p : Int} {t : Table} {c : Save} {db : Db}
  {id : Int32}

/-- What assignments do to a row. -/
theorem Table.set_eq_assigned (t : Table) (as : List (Text × Value)) (r : Row) (col : Text) :
    t.set A as r col = ((assigned col as).map (t.store A col)).getD (r col) := by
  induction as using List.reverseRecOn with
  | nil => rfl
  | append_singleton as x ih =>
    rw [Table.set_append, assigned, lastOf_append]
    by_cases hx : x.1 = col
    · rw [if_pos hx, ← hx, Function.update_self]
      rfl
    · rw [if_neg hx, Function.update_of_ne (Ne.symm hx), ih]
      rfl

theorem store_congr {t t' : Table} (h : t.cols = t'.cols) (col : Text) :
    t.store A col = t'.store A col := by
  funext v
  rw [Table.store, Table.store, Table.column, Table.column, h]

/-- A key that was not saved. -/
theorem laidRow_unsaved (h : ¬ ∃ c ∈ cs, c.Of k p) :
    laidRow A cs k p = newRow (bytes k.store.key) p := by
  funext col
  have hnone : lastSet cs k p col = none := by
    rw [← Option.not_isSome_iff_eq_none, lastSet, lastOf_isSome_iff]
    rintro ⟨c, hc, hsome⟩
    rw [Save.setsAt, if_neg fun hof => h ⟨c, hc, hof⟩] at hsome
    cases hsome
  rw [laidRow, hnone]
  rfl

theorem lastSet_append (col : Text) : lastSet (cs ++ [c]) k p col =
    (c.setsAt k p col).or (lastSet cs k p col) := lastOf_append _ _ _

/-- Other saves change nothing. -/
theorem laidRow_other (h : ¬ c.Of k p) : laidRow A (cs ++ [c]) k p = laidRow A cs k p := by
  funext col
  rw [laidRow, laidRow, lastSet_append, Save.setsAt, if_neg h, Option.none_or]

/-- A save sets the row of its key. -/
theorem laidRow_own (h : c.Of k p) (ht : t.cols = k.store.created.cols) :
    laidRow A (cs ++ [c]) k p =
      t.set A (k.store.sets c.account c.record) (laidRow A cs k p) := by
  funext col
  rw [Table.set_eq_assigned, laidRow, lastSet_append, Save.setsAt, if_pos h, store_congr ht,
    laidRow]
  cases assigned col (k.store.sets c.account c.record) <;> rfl

theorem exists_of_append : (∃ d ∈ cs ++ [c], d.Of k p) ↔ (∃ d ∈ cs, d.Of k p) ∨ c.Of k p := by
  simp [or_and_right, exists_or]

theorem Laid.other (h : Laid A cs k t) (hk : c.kind ≠ k) : Laid A (cs ++ [c]) k t where
  ready := h.ready
  cols := h.cols
  rows p := by
    have hof : ¬ c.Of k p := fun hof => hk hof.1
    rw [h.rows, laidRow_other hof]
    exact if_congr (exists_of_append.trans (or_iff_left hof)).symm rfl rfl

theorem Laid.own (h : Laid A cs c.kind t) :
    Laid A (cs ++ [c]) c.kind (c.kind.store.put A c.account c.record t) where
  ready := h.ready.put
  cols := h.cols
  rows p := by
    have hset (r : Row) (hr : r (bytes c.kind.store.key) = .int c.key) :
        t.set A (c.kind.store.sets c.account c.record) r (bytes c.kind.store.key) = .int c.key :=
      h.ready.set_key hr
    by_cases hp : c.key = p
    · have hof : c.Of c.kind p := ⟨rfl, hp⟩
      have hhead : (t.rows.filter (Cond.holds ⟨bytes c.kind.store.key, p⟩)).headD
          (newRow (bytes c.kind.store.key) p) = laidRow A cs c.kind p := by
        rw [h.rows]
        split_ifs with hsaved
        · rfl
        · exact (laidRow_unsaved hsaved).symm
      subst hp
      rw [if_pos (exists_of_append.mpr (.inr hof)), laidRow_own hof h.cols, ← hhead]
      exact filter_putRow_eq h.ready.keyed.nodup hset
    · have hof : ¬ c.Of c.kind p := fun hof => hp hof.2
      have hother : decide (Value.int c.key = .int p) = false := by simpa using hp
      have hfilter : (c.kind.store.put A c.account c.record t).rows.filter
          (fun r => Cond.holds ⟨bytes c.kind.store.key, p⟩ r) =
            t.rows.filter fun r => Cond.holds ⟨bytes c.kind.store.key, p⟩ r :=
        filter_putRow_of_notMem (p := fun v => decide (v = .int p)) hother hset
      rw [hfilter, h.rows, laidRow_other hof]
      exact if_congr (exists_of_append.trans (or_iff_left hof)).symm rfl rfl

/-- After any run of saves the tables have the rows they are to have. -/
theorem saves_laid (A : Affinity) (cs : List PlainSave) (k : Kind) :
    ∃ t, saves A (databaseInit A) (cs.map PlainSave.toSave) (bytes k.store.table) = some t ∧
      Laid A (cs.map PlainSave.toSave) k t := by
  induction cs using List.reverseRecOn generalizing k with
  | nil =>
    rw [List.map_nil, saves_nil]
    exact ⟨k.store.created, databaseInit_table A k, created_ready _, rfl,
      fun p => (if_neg (by simp)).symm⟩
  | append_singleton cs c ih =>
    have hsaves : saves A (databaseInit A) ((cs ++ [c]).map PlainSave.toSave) =
        c.run A (saves A (databaseInit A) (cs.map PlainSave.toSave)) := by
      rw [List.map_append, saves, List.foldl_append]
      rfl
    obtain ⟨t, htable, h⟩ := ih c.kind
    rw [hsaves, Save.run_eq c.plain htable h.ready, List.map_append]
    by_cases hk : k = c.kind
    · rw [hk]
      exact ⟨_, Function.update_self .., h.own⟩
    · obtain ⟨t', htable', h'⟩ := ih k
      exact ⟨t', (Function.update_of_ne (Kind.table_ne hk) ..).trans htable', h'.other (Ne.symm hk)⟩

/-! ## Reading a row -/

/-- A name as a number, by which names are compared faster. -/
def code (n : String) : Nat := (bytes n).foldl (fun n c => 256 * n + c.toNat) 0

theorem nodup_of_code {args : List Arg} (f : Arg → String)
    (h : (args.map fun a => code (f a)).Nodup) : (args.map f).Nodup := by
  refine List.Nodup.of_map code ?_
  rwa [List.map_map]

/-- The row as it is selected. -/
def Store.cells (s : Store) (r : Row) : List Value :=
  (s.args.map (fun a => bytes a.name) ++ [bytes "id"]).map r

theorem zip_map_append {α β : Type} (f : α → β) (xs : List α) (ys : List β) :
    xs.zip (xs.map f ++ ys) = xs.map fun x => (x, f x) := by
  induction xs with
  | nil => rfl
  | cons x xs ih => exact congrArg ((x, f x) :: ·) ih

/-- Each field is read from its own column. -/
theorem record_cells (s : Store) (r : Row) :
    s.record (s.cells r) = s.args.foldl (fun m a => a.read s.empty m (r (bytes a.name))) zero := by
  have hzip : s.args.zip (s.cells r) = s.args.map fun a => (a, r (bytes a.name)) := by
    rw [Store.cells, List.map_append, List.map_map]
    exact zip_map_append (fun a => r (bytes a.name)) s.args [r (bytes "id")]
  rw [Store.record, hzip, List.foldl_map]

theorem read_int (a : Arg) (empty : Bool) (m : Record) (v : Value) (n : String) :
    (a.read empty m v).int n =
      (if a.isText = false ∧ a.n = n then some (a.t.cast (UInt64.ofInt (columnInt64 v)))
        else none).getD (m.int n) := by
  cases htext : a.isText with
  | true =>
    have hne : ¬ (true = false ∧ a.n = n) := fun h => Bool.noConfusion h.1
    rw [if_neg hne, Option.getD_none, Arg.read, if_pos htext]
    dsimp only
    split_ifs <;> rfl
  | false =>
    by_cases hn : a.n = n
    · subst hn
      simp [Arg.read, htext]
    · simp [Arg.read, htext, hn, Function.update_of_ne (Ne.symm hn)]

/-- The text that a field is set to, if it is set. -/
def readText (empty : Bool) (v : Value) : Option CString :=
  let u := (columnText v).getD []
  if empty ∨ u ≠ [] then some (.ofText u) else none

theorem read_str (a : Arg) (empty : Bool) (m : Record) (v : Value) (n : String) :
    (a.read empty m v).str n =
      (if a.isText ∧ a.n = n then (readText empty v).map some else none).getD (m.str n) := by
  cases htext : a.isText with
  | false => simp [Arg.read, htext]
  | true =>
    by_cases hn : a.n = n
    · subst hn
      simp only [Arg.read, htext, readText, if_true, and_self]
      split_ifs <;> simp
    · have hne : ¬ (True ∧ a.n = n) := fun h => hn h.2
      simp only [Arg.read, htext, if_true, if_neg hne, Option.getD_none]
      split_ifs
      · exact Function.update_of_ne (Ne.symm hn) ..
      · rfl

variable {s : Store} {a : Arg}

theorem record_int (hn : (s.args.map Arg.n).Nodup) (ha : a ∈ s.args) (hint : a.isText = false)
    (r : Row) :
    (s.record (s.cells r)).int a.n = a.t.cast (UInt64.ofInt (columnInt64 (r (bytes a.name)))) := by
  have hfold := foldl_eq_lastOf (fun m : Record => m.int a.n)
    (fun m b => read_int b s.empty m (r (bytes b.name)) a.n) s.args zero
  have hlast := lastOf_of_unique (f := fun b : Arg => if b.isText = false ∧ b.n = a.n then
    some (b.t.cast (UInt64.ofInt (columnInt64 (r (bytes b.name))))) else none) ha
    fun b hb hne => if_neg fun h => hne (List.inj_on_of_nodup_map hn hb ha h.2)
  rw [if_pos ⟨hint, rfl⟩] at hlast
  rw [record_cells]
  exact hfold.trans (by rw [hlast]; rfl)

theorem record_str (hn : (s.args.map Arg.n).Nodup) (ha : a ∈ s.args) (htext : a.isText) (r : Row) :
    (s.record (s.cells r)).str a.n = readText s.empty (r (bytes a.name)) := by
  have hfold := foldl_eq_lastOf (fun m : Record => m.str a.n)
    (fun m b => read_str b s.empty m (r (bytes b.name)) a.n) s.args zero
  have hlast := lastOf_of_unique (f := fun b : Arg => if b.isText ∧ b.n = a.n then
    (readText s.empty (r (bytes b.name))).map some else none) ha
    fun b hb hne => if_neg fun h => hne (List.inj_on_of_nodup_map hn hb ha h.2)
  rw [if_pos ⟨htext, rfl⟩] at hlast
  rw [record_cells]
  refine hfold.trans ?_
  rw [hlast]
  cases readText s.empty (r (bytes a.name)) <;> rfl

/-! ## What the columns are set to -/

/-- What a save sets a column to. -/
def Store.fieldSet (s : Store) (m : Record) (n : String) : Option Value :=
  lastOf (fun b : Arg => if b.name = n then (b.assign s.empty m).map Prod.snd else none) s.args

theorem assigned_sets {n : String} (hn : n ≠ "id") (m : Record) :
    assigned (bytes n) (s.sets id m) = s.fieldSet m n := by
  have hid : ¬ bytes "id" = bytes n := fun h => hn (bytes_inj h).symm
  rw [assigned, Store.sets, lastOf_append, if_neg hid, Option.none_or, Store.assigns,
    lastOf_filterMap]
  refine congrArg (fun f => lastOf f s.args) (funext fun b => ?_)
  cases hassign : b.assign s.empty m with
  | none => exact (ite_self none).symm
  | some x =>
    rw [Option.bind_some, (assign_eq hassign).1, Option.map_some]
    exact if_congr ⟨bytes_inj, congrArg bytes⟩ rfl rfl

theorem assigned_id (s : Store) (m : Record) :
    assigned (bytes "id") (s.sets id m) = some (.int id.toInt) := by
  rw [assigned, Store.sets, lastOf_append, if_pos rfl]
  rfl

/-- A column with one field only. -/
theorem fieldSet_of_unique (ha : a ∈ s.args) (h : ∀ b ∈ s.args, b.name = a.name → b = a)
    (m : Record) : s.fieldSet m a.name = (a.assign s.empty m).map Prod.snd := by
  rw [Store.fieldSet, lastOf_of_unique ha fun b hb hne => if_neg fun hname => hne (h b hb hname)]
  exact if_pos rfl

/-! ## The getters -/

theorem Laid.get_unsaved {key : UInt64} (h : Laid A cs k t)
    (htable : db (bytes k.store.table) = some t) (hnone : ¬ ∃ c ∈ cs, c.Of k (ld key)) :
    k.store.get id key db = zero := by
  have hrows := h.rows (ld key)
  rw [if_neg hnone] at hrows
  have hnil : (t.rows.filter fun r => Cond.holds ⟨bytes "id", id.toInt⟩ r &&
      [⟨bytes k.store.key, ld key⟩].all fun c => Cond.holds c r) = [] := by
    simp only [List.all_cons, List.all_nil, Bool.and_true]
    rw [← List.filter_filter, hrows, List.filter_nil]
  have hkey : t.has (bytes k.store.key) := h.ready.key.has
  rw [Store.get, h.ready.select_eq htable (by simp [hkey]), hnil]
  rfl

/-- The account that has saved the key last finds its row. -/
theorem Laid.get_saved {key : UInt64} (h : Laid A cs k t)
    (htable : db (bytes k.store.table) = some t) (hsaved : ∃ c ∈ cs, c.Of k (ld key))
    (hid : lastSet cs k (ld key) (bytes "id") = some (.int id.toInt)) :
    k.store.get id key db = k.store.record (k.store.cells (laidRow A cs k (ld key))) := by
  have hrows := h.rows (ld key)
  rw [if_pos hsaved] at hrows
  have hown : Cond.holds ⟨bytes "id", id.toInt⟩ (laidRow A cs k (ld key)) := by
    have hint := (created_ready k.store).id.store (A := A) (int32_int64 id)
    rw [Cond.holds, laidRow, hid]
    exact decide_eq_true hint
  have hrow : (t.rows.filter fun r => Cond.holds ⟨bytes "id", id.toInt⟩ r &&
      [⟨bytes k.store.key, ld key⟩].all fun c => Cond.holds c r) = [laidRow A cs k (ld key)] := by
    simp only [List.all_cons, List.all_nil, Bool.and_true]
    rw [← List.filter_filter, hrows, List.filter_cons_of_pos hown, List.filter_nil]
  have hkey : t.has (bytes k.store.key) := h.ready.key.has
  rw [Store.get, h.ready.select_eq htable (by simp [hkey]), hrow]
  rfl

/-- A number has a column of its own type, or the key's or the account's. -/
theorem Store.created_int (hint : ∀ a ∈ s.args, a.isText = false → a.type = "INT") (ha : a ∈ s.args)
    (hnum : a.isText = false) : s.created.HasInt (bytes a.name) := by
  have hnew : ∀ c ∈ newColumns (some (bytes s.key)), c.type = bytes "INT" := by
    simp [newColumns]
  have hargs : ∀ b, s.args.find? (fun b => bytes b.name = bytes a.name) = some b →
      b.type = "INT" := by
    intro b hb
    have hmem := List.mem_of_find?_eq_some hb
    have hname : b.name = a.name := bytes_inj (by simpa using List.find?_some hb)
    refine hint b hmem ?_
    cases htext : b.isText with
    | false => rfl
    | true =>
      rw [s.args_text b hmem htext a ha hname.symm, htext] at hnum
      exact hnum
  have hhas := (created_ready s).has a ha
  obtain ⟨c, hc⟩ := Option.isSome_iff_exists.mp hhas
  refine ⟨c, hc, ?_⟩
  rw [Table.column, Store.created, find_addColumns, Option.or_eq_some_iff] at hc
  obtain hc | ⟨-, hc⟩ := hc
  · exact hnew c (List.mem_of_find?_eq_some hc)
  · obtain ⟨b, hb, rfl⟩ := Option.map_eq_some_iff.mp hc
    exact congrArg bytes (hargs b hb)

/-- A number that was set. -/
theorem laidRow_int (hint : ∀ a ∈ k.store.args, a.isText = false → a.type = "INT")
    (ha : a ∈ k.store.args) (hnum : a.isText = false) {x : UInt64}
    (hset : lastSet cs k p (bytes a.name) = some (.int (ld x))) :
    laidRow A cs k p (bytes a.name) = .int (ld x) := by
  rw [laidRow, hset]
  exact (Store.created_int hint ha hnum).store (ld_int64 x)

/-- A text that was set. -/
theorem laidRow_text (ha : a ∈ k.store.args) (htext : a.isText) (htype : a.type = "TEXT") {u : Text}
    (hset : lastSet cs k p (bytes a.name) = some (.text u)) :
    laidRow A cs k p (bytes a.name) = .text u := by
  obtain ⟨c, hc, hctype⟩ := (created_ready k.store).type a ha htext
  have hstore : k.store.created.store A (bytes a.name) (.text u) = .text u := by
    rw [Table.store, hc, Option.elim_some, hctype, htype, A.text]
  rw [laidRow, hset]
  exact hstore

/-- A column that was never set. -/
theorem laidRow_null {n : String} (hn : n ≠ k.store.key)
    (hset : lastSet cs k p (bytes n) = none) : laidRow A cs k p (bytes n) = .null := by
  have hnull : newRow (bytes k.store.key) p (bytes n) = .null :=
    Function.update_of_ne (fun h => hn (bytes_inj h)) ..
  rw [laidRow, hset, ← hnull]
  rfl

/-- A text is read up to its end. -/
theorem ofText_bytes (u : CString) : CString.ofText u.bytes = u := by
  obtain ⟨b, hb⟩ := u
  have htake : b.takeWhile (fun c => c ≠ 0) = b :=
    List.takeWhile_eq_self_iff.mpr fun c hc => decide_eq_true fun hzero => hb (hzero ▸ hc)
  simp only [CString.ofText, htake]

theorem readText_text {empty : Bool} {u : CString} (h : u.bytes ≠ []) :
    readText empty (.text u.bytes) = some u := by
  have hcol : (columnText (.text u.bytes)).getD [] = u.bytes := rfl
  simp only [readText, hcol, if_pos (Or.inr h), ofText_bytes]

end

end Libtg.Database
