import Libtg.Lib.Loop

/-!
# Iterating a database result (`tg/database.h`)

The loop of `tg_sqlite3_for_each`, for any results of `sqlite3_step`, and the bodies the getters
give it. The database is open and the statement prepared when the loop is entered.
-/

namespace Libtg

open Loop

/-! ## The macro -/

/-- `SQLITE_ROW` and `SQLITE_DONE`; every other result of a step is an error. -/
def sqliteRow : Int := 100
def sqliteDone : Int := 101

/-- How a run of the body ends: it comes to its end, or leaves the loop by `break` or `return`,
possibly with a `sqlite3_close` of its own. -/
inductive BodyEnd where
  | goesOn
  | leaves (closes : Bool)
  deriving DecidableEq

/-- The calls so far: the steps, the steps the body ran after, the latest first, and how often the
statement was finalized and the database closed. -/
structure Iteration where
  steps : Nat
  runs : List Nat
  finalized : Nat
  closed : Nat
  deriving DecidableEq

section
variable (results : Nat → Int) (body : Nat → BodyEnd)

/-- A round of the `for` loop: the step, the condition and the body, which may do after every step
something else. -/
def forEachStep (s : Iteration) : Iteration ⊕ Iteration :=
  let i := s.steps
  let s := { s with steps := i + 1 }
  if results i = sqliteDone then
    .inl { s with finalized := s.finalized + 1, closed := s.closed + 1 }
  else
    let s := { s with runs := i :: s.runs }
    match body i with
    | .goesOn => .inr s
    | .leaves closes => .inl { s with closed := s.closed + closes.toNat }

/-- The loop ends with these calls. -/
def ForEach (s : Iteration) : Prop := Yields (forEachStep results body) ⟨0, [], 0, 0⟩ s

/-- The loop ends, the body ran once for each row and not otherwise, and the statement was finalized
and the database closed once. -/
structure IteratesRows : Prop where
  ends : ∃ s, ForEach results body s
  once : ∀ s, ForEach results body s →
    s.runs.reverse = (List.range s.steps).filter (results · = sqliteRow)
  finalized : ∀ s, ForEach results body s → s.finalized = 1
  closed : ∀ s, ForEach results body s → s.closed = 1

end

/-! ## The bodies of the getters -/

/-- `auth_key_from_database`, `phone_number_from_database`, `auth_tokens_from_database`,
`dialogs_hash_from_database`, `messages_hash_from_database` and `ip_address_from_database`. -/
def columnBody (_ : Nat) : BodyEnd := .goesOn

/-- `tg_user_get`, `tg_user_get_by_phone`, `tg_chat_get` and `tg_channel_get`. -/
def firstRowBody (_ : Nat) : BodyEnd := .leaves false

/-- A body that closes the database where it leaves the loop. -/
def stopBody (stops : Nat → Bool) (i : Nat) : BodyEnd := if stops i then .leaves true else .goesOn

/-- `photo_file_from_database` and `peer_photo_file_from_database`, by `sqlite3_column_bytes` of
the column after each step. -/
def photoBody (columnBytes : Nat → Int) : Nat → BodyEnd := stopBody fun i => columnBytes i > 0

/-- `tg_get_dialogs_from_database` and `tg_get_messages_from_database`, by what the callback answers
after each step. -/
def callbackBody (callback : Option (Nat → Int)) : Nat → BodyEnd :=
  stopBody fun i => callback.any fun f => f i ≠ 0

/-! ## Round after round -/

section
variable {results : Nat → Int} {body : Nat → BodyEnd} {s : Iteration} {i n : Nat}

/-- After so many rounds, none of which was the last. -/
def Iteration.after (i : Nat) : Iteration := ⟨i, (List.range i).reverse, 0, 0⟩

theorem forEachStep_done (h : results i = sqliteDone) :
    forEachStep results body (.after i) = .inl ⟨i + 1, (List.range i).reverse, 1, 1⟩ := by
  rw [forEachStep]
  exact if_pos h

theorem forEachStep_goesOn (h : results i ≠ sqliteDone) (hbody : body i = .goesOn) :
    forEachStep results body (.after i) = .inr (.after (i + 1)) := by
  have hruns : i :: (List.range i).reverse = (List.range (i + 1)).reverse := by
    rw [List.range_succ, List.reverse_append]
    rfl
  have hresult : results (Iteration.after i).steps ≠ sqliteDone := h
  have hend : body (Iteration.after i).steps = .goesOn := hbody
  rw [forEachStep, if_neg hresult, hend, Iteration.after, Iteration.after, ← hruns]

theorem forEachStep_leaves {closes : Bool} (h : results i ≠ sqliteDone)
    (hbody : body i = .leaves closes) :
    ∃ s, forEachStep results body (.after i) = .inl s ∧ s.finalized = 0 := by
  have hresult : results (Iteration.after i).steps ≠ sqliteDone := h
  have hend : body (Iteration.after i).steps = .leaves closes := hbody
  rw [forEachStep, if_neg hresult, hend]
  exact ⟨_, rfl, rfl⟩

theorem visits_after
    (h : ∀ i < n, results i ≠ sqliteDone ∧ body i = .goesOn) :
    Visits (forEachStep results body) (.after 0) (.after n) := by
  induction n with
  | zero => exact .enter
  | succ n ih =>
    have hn := h n n.lt_succ_self
    exact .next (ih fun i hi => h i (Nat.lt_succ_of_lt hi)) (forEachStep_goesOn hn.1 hn.2)

/-- Where the results say so, the loop ends with the first `SQLITE_DONE`. -/
theorem forEach_done_iff (h : ∀ i < n, results i ≠ sqliteDone ∧ body i = .goesOn)
    (hdone : results n = sqliteDone) :
    ForEach results body s ↔ s = ⟨n + 1, (List.range n).reverse, 1, 1⟩ :=
  (visits_after h).yields.trans (yields_leave (forEachStep_done hdone))

/-- If the loop finalizes the statement, then because it came to the first `SQLITE_DONE`. -/
theorem ForEach.exists_done (h : ForEach results body s) (hfinalized : s.finalized = 1) :
    ∃ n, (∀ i < n, results i ≠ sqliteDone ∧ body i = .goesOn) ∧ results n = sqliteDone := by
  have hround := h.post
    (I := fun s => ∃ n, s = .after n ∧ ∀ i < n, results i ≠ sqliteDone ∧ body i = .goesOn)
    (Q := fun s => s.finalized = 1 →
      ∃ n, (∀ i < n, results i ≠ sqliteDone ∧ body i = .goesOn) ∧ results n = sqliteDone)
    ⟨0, rfl, fun i hi => absurd hi (Nat.not_lt_zero i)⟩ ?_ ?_
  · exact hround hfinalized
  · rintro _ r ⟨n, rfl, hn⟩ hstep hone
    by_contra hnone
    have hdone : results n ≠ sqliteDone := fun hdone => hnone ⟨n, hn, hdone⟩
    cases hbody : body n with
    | goesOn =>
      rw [forEachStep_goesOn hdone hbody] at hstep
      cases hstep
    | leaves closes =>
      obtain ⟨s, hleaves, hzero⟩ := forEachStep_leaves hdone hbody
      rw [hleaves] at hstep
      cases hstep
      omega
  · rintro _ t ⟨n, rfl, hn⟩ hstep
    by_cases hdone : results n = sqliteDone
    · rw [forEachStep_done hdone] at hstep
      cases hstep
    · cases hbody : body n with
      | goesOn =>
        rw [forEachStep_goesOn hdone hbody] at hstep
        cases hstep
        refine ⟨n + 1, rfl, fun i hi => ?_⟩
        obtain hlt | rfl := Nat.lt_succ_iff_lt_or_eq.mp hi
        · exact hn i hlt
        · exact ⟨hdone, hbody⟩
      | leaves closes =>
        obtain ⟨s, hleaves, -⟩ := forEachStep_leaves hdone hbody
        rw [hleaves] at hstep
        cases hstep

/-- The loop iterates the rows if the first result that is none is `SQLITE_DONE` and the body goes
on after each of them. -/
theorem iteratesRows_of_rows (h : ∀ i < n, results i = sqliteRow ∧ body i = .goesOn)
    (hdone : results n = sqliteDone) : IteratesRows results body := by
  have hrounds : ∀ i < n, results i ≠ sqliteDone ∧ body i = .goesOn := by
    intro i hi
    rw [(h i hi).1]
    exact ⟨by decide, (h i hi).2⟩
  have hrows : (List.range (n + 1)).filter (results · = sqliteRow) = List.range n := by
    have hlast : decide (results n = sqliteRow) = false := by
      rw [hdone]
      decide
    rw [List.range_succ, List.filter_append, List.filter_singleton, hlast,
      List.filter_eq_self.mpr fun i hi => decide_eq_true (h i (List.mem_range.mp hi)).1]
    exact List.append_nil _
  refine ⟨⟨_, (forEach_done_iff hrounds hdone).mpr rfl⟩,
    fun s hs => ?_, fun s hs => ?_, fun s hs => ?_⟩
  all_goals rw [(forEach_done_iff hrounds hdone).mp hs]
  rw [List.reverse_reverse, hrows]

theorem IteratesRows.exists_rows (h : IteratesRows results body) :
    ∃ n, (∀ i < n, results i = sqliteRow ∧ body i = .goesOn) ∧ results n = sqliteDone := by
  obtain ⟨s, hs⟩ := h.ends
  obtain ⟨n, hrounds, hdone⟩ := hs.exists_done (h.finalized s hs)
  have honce := h.once s hs
  rw [(forEach_done_iff hrounds hdone).mp hs, List.reverse_reverse] at honce
  refine ⟨n, fun i hi => ⟨?_, (hrounds i hi).2⟩, hdone⟩
  have hmem := List.mem_range.mpr hi
  rw [honce] at hmem
  exact of_decide_eq_true (List.mem_filter.mp hmem).2

/-- The loop iterates the rows exactly if the result after the rows is `SQLITE_DONE` and the body
goes on after each of them. -/
theorem iteratesRows_iff (results : Nat → Int) (body : Nat → BodyEnd) :
    IteratesRows results body ↔
      ∃ n, (∀ i < n, results i = sqliteRow ∧ body i = .goesOn) ∧ results n = sqliteDone :=
  ⟨IteratesRows.exists_rows, fun ⟨_, hrows, hdone⟩ => iteratesRows_of_rows hrows hdone⟩

/-! ## The getters -/

theorem iteratesRows_columnBody :
    IteratesRows results columnBody ↔
      ∃ n, (∀ i < n, results i = sqliteRow) ∧ results n = sqliteDone := by
  constructor
  · intro h
    obtain ⟨n, hrows, hdone⟩ := h.exists_rows
    exact ⟨n, fun i hi => (hrows i hi).1, hdone⟩
  · rintro ⟨n, hrows, hdone⟩
    exact iteratesRows_of_rows (fun i hi => ⟨hrows i hi, rfl⟩) hdone

/-- Whoever takes the first row and leaves keeps the statement and the database. -/
theorem iteratesRows_firstRowBody :
    IteratesRows results firstRowBody ↔ results 0 = sqliteDone := by
  constructor
  · intro h
    obtain ⟨n, hrows, hdone⟩ := h.exists_rows
    cases n with
    | zero => exact hdone
    | succ n =>
      have hleaves := (hrows 0 n.succ_pos).2
      cases hleaves
  · intro hdone
    exact iteratesRows_of_rows (fun i hi => absurd hi (Nat.not_lt_zero i)) hdone

/-- A getter that is asked to stop leaves with the statement not finalized. -/
theorem iteratesRows_stopBody {stops : Nat → Bool} :
    IteratesRows results (stopBody stops) ↔
      ∃ n, (∀ i < n, results i = sqliteRow ∧ stops i = false) ∧ results n = sqliteDone := by
  have hgoes : ∀ i, stopBody stops i = .goesOn ↔ stops i = false := by
    intro i
    rw [stopBody]
    cases stops i <;> simp
  constructor
  · intro h
    obtain ⟨n, hrows, hdone⟩ := h.exists_rows
    exact ⟨n, fun i hi => ⟨(hrows i hi).1, (hgoes i).mp (hrows i hi).2⟩, hdone⟩
  · rintro ⟨n, hrows, hdone⟩
    exact iteratesRows_of_rows (fun i hi => ⟨(hrows i hi).1, (hgoes i).mpr (hrows i hi).2⟩) hdone

end

/-- One row, then `SQLITE_BUSY` for ever: the loop of `ip_address_from_database` does not end. -/
theorem not_iteratesRows_busy :
    ¬ IteratesRows (fun i => if i = 0 then sqliteRow else 5) columnBody := by
  intro h
  obtain ⟨n, -, hdone⟩ := h.exists_rows
  split_ifs at hdone
  · exact absurd hdone (by decide)
  · exact absurd hdone (by decide)

end Libtg
