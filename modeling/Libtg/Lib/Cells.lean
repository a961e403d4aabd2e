import Libtg.Lib.Blocks

/-!
# Cells of memory

Blocks of cells, as `malloc` and `realloc` give them out. A cell is `none` until it is stored to; to
load such a cell, or to use one that is not in its block, is a fault. `Has s q j x`: the values `x`
stand in the block `q` from `j` on. A copy from one place to another is right if they lie in
different blocks or the values end where the copy begins (`runs_copy`).
-/

/-- Programs over blocks of cells and a further state. -/
abbrev CellsM (α σ β : Type) := BlocksM (List (Option α)) σ β

namespace Cells

open Blocks BlocksM

variable {α σ β : Type}

/-! ## Lists of cells -/

/-- The list with these values from `i` on. -/
def overwrite (l : List β) (i : Nat) (xs : List β) : List β :=
  l.take i ++ xs ++ l.drop (i + xs.length)

/-- The first `n` cells, and new ones if there are fewer. -/
def resize (l : List (Option α)) (n : Nat) : List (Option α) :=
  l.take n ++ List.replicate (n - l.length) none

section
variable {l : List β} {i : Nat} {x : β} {xs : List β}

@[simp] theorem length_overwrite (h : i + xs.length ≤ l.length) :
    (overwrite l i xs).length = l.length := by
  simp only [overwrite, List.length_append, List.length_take, List.length_drop]
  omega

@[simp] theorem overwrite_nil (l : List β) (i : Nat) : overwrite l i [] = l := by
  rw [overwrite, List.append_nil, List.length_nil, Nat.add_zero, List.take_append_drop]

theorem overwrite_set (h : i < l.length) (x : β) (xs : List β) :
    overwrite (l.set i x) (i + 1) xs = overwrite l i (x :: xs) := by
  have htake : (l.set i x).take (i + 1) = l.take i ++ [x] := by
    rw [List.take_succ_eq_append_getElem (by rwa [List.length_set]), List.take_set_of_le le_rfl,
      List.getElem_set_self]
  have hdrop : (l.set i x).drop (i + 1 + xs.length) = l.drop (i + (x :: xs).length) := by
    rw [List.drop_set_of_lt (by omega), List.length_cons, Nat.add_assoc, Nat.add_comm 1]
  rw [overwrite, overwrite, htake, hdrop, List.append_assoc (l.take i), List.singleton_append]

theorem overwrite_append {a b : List β} (h : a.length = i) :
    overwrite (a ++ b) i xs = a ++ xs ++ b.drop xs.length := by
  subst h
  rw [overwrite, List.take_left', List.drop_append, List.drop_eq_nil_of_le (by omega)]
  · simp
  · rfl

end

theorem resize_of_le {l : List (Option α)} {n : Nat} (h : l.length ≤ n) :
    resize l n = l ++ List.replicate (n - l.length) none := by
  rw [resize, List.take_of_length_le h]

/-- The values `x` stand in the block `q` from `j` on. -/
def Has (s : Blocks (List (Option α))) (q j : Nat) (x : List α) : Prop :=
  ∃ l, s.read q = some l ∧ ∀ i < x.length, l[j + i]? = some x[i]?

section
variable {s t : Blocks (List (Option α))} {D : Nat → Prop} {q j i : Nat} {c : α} {x y : List α}
  {l : List (Option α)}

theorem Has.kept (h : Has s q j x) (hk : Kept D s t) (hD : ¬ D q) : Has t q j x := by
  obtain ⟨l, hl, hx⟩ := h
  exact ⟨l, hk.read hl hD, hx⟩

theorem has_of_read (hl : s.read q = some l) (h : ∀ i < x.length, l[j + i]? = some x[i]?) :
    Has s q j x := ⟨l, hl, h⟩

theorem has_of_read_append (hl : s.read q = some (x.map some ++ l)) : Has s q 0 x := by
  refine ⟨_, hl, fun i hi => ?_⟩
  rw [Nat.zero_add, List.getElem?_append_left (by rwa [List.length_map]), List.getElem?_map,
    List.getElem?_eq_getElem hi]
  rfl

theorem has_of_read_map (hl : s.read q = some (x.map some)) : Has s q 0 x :=
  has_of_read_append (hl.trans (congrArg some (List.append_nil _).symm))

theorem Has.head (h : Has s q j (c :: x)) : ∃ l, s.read q = some l ∧ l[j]? = some (some c) := by
  obtain ⟨l, hl, hx⟩ := h
  exact ⟨l, hl, hx 0 (Nat.zero_lt_succ _)⟩

theorem Has.drop (h : Has s q j (x ++ y)) : Has s q (j + x.length) y := by
  obtain ⟨l, hl, hx⟩ := h
  refine ⟨l, hl, fun i hi => ?_⟩
  rw [Nat.add_assoc, hx _ (by rw [List.length_append]; omega),
    List.getElem?_append_right (Nat.le_add_right ..), Nat.add_sub_cancel_left]

theorem Has.take (h : Has s q j (x ++ y)) : Has s q j x := by
  obtain ⟨l, hl, hx⟩ := h
  refine ⟨l, hl, fun i hi => ?_⟩
  rw [hx i (by rw [List.length_append]; omega), List.getElem?_append_left hi]

/-- What is stored further on does not matter. -/
theorem Has.set (h : Has s q j x) (hl : s.read q = some l)
    (hl' : t.read q = some (l.set i (some c))) (hi : j + x.length ≤ i) : Has t q j x := by
  obtain ⟨l₀, hl₀, hx⟩ := h
  cases hl.symm.trans hl₀
  refine ⟨_, hl', fun k hk => ?_⟩
  rw [List.getElem?_set_ne (by omega), hx k hk]

end

/-- The block is the old one, or one that there was not in `s`. -/
def Fresh (s : Blocks β) (old new : Nat) : Prop := new = old ∨ s.size ≤ new

/-! ## Programs -/

/-- A fault. -/
def fault : CellsM α σ β := fun _ => none

/-- `malloc`. -/
def malloc (n : Nat) : CellsM α σ Nat := alloc (List.replicate n none)

/-- `realloc`: `moves` says where it gives out another block. -/
def realloc (moves : Blocks (List (Option α)) → Nat → Nat → Bool) (p n : Nat) : CellsM α σ Nat :=
  fun w =>
    if moves w.1 p n then
      (do
        let l ← read p
        let q ← alloc (resize l n)
        free p
        return q) w
    else
      (do
        let l ← read p
        write p (resize l n)
        return p) w

def load (p i : Nat) : CellsM α σ α := do
  let l ← read p
  match l[i]? with
  | some (some c) => return c
  | _ => fault

/-- `n` cells are loaded one after the other. -/
def loads (p i : Nat) : Nat → CellsM α σ (List α)
  | 0 => return []
  | n + 1 => do
    let c ← load p i
    let cs ← loads p (i + 1) n
    return c :: cs

def store (p i : Nat) (c : α) : CellsM α σ Unit := do
  let l ← read p
  if i < l.length then write p (l.set i (some c)) else fault

/-- The values are stored one after the other, from `i` on. -/
def stores (p i : Nat) : List α → CellsM α σ Unit
  | [] => return ()
  | c :: cs => do
    store p i c
    stores p (i + 1) cs

/-- `memset`. -/
def fill (p i : Nat) (c : α) (n : Nat) : CellsM α σ Unit := stores p i (List.replicate n c)

/-- A loop that copies `n` cells, one after the other. -/
def copy (p i q j : Nat) : Nat → CellsM α σ Unit
  | 0 => return ()
  | n + 1 => do
    let c ← load q j
    store p i c
    copy p (i + 1) q (j + 1) n

/-- A local variable that holds these values. -/
def withLocal (x : List α) (c : Nat → CellsM α σ β) : CellsM α σ β := do
  let p ← alloc (x.map some)
  let b ← c p
  free p
  return b

section
variable {w : Blocks (List (Option α)) × σ} {l : List (Option α)} {p q i j n : Nat} {c : α}
  {x : List α} {moves : Blocks (List (Option α)) → Nat → Nat → Bool}

theorem runs_malloc (n : Nat) (w : Blocks (List (Option α)) × σ) :
    Runs Nothing (malloc n) w fun p w' =>
      p = w.1.size ∧ w'.1.read p = some (List.replicate n none) ∧ w'.2 = w.2 := by
  refine (runs_alloc _ w).mono (fun _ _ => id) ?_
  rintro p w' ⟨rfl, hread, hstate⟩
  exact ⟨rfl, hread, hstate⟩

theorem runs_load (hl : w.1.read p = some l) (hc : l[i]? = some (some c)) :
    Runs Nothing (load p i) w fun c' w' => c' = c ∧ w' = w := by
  refine (runs_read hl).bind (fun _ _ => id) ?_
  rintro _ _ - ⟨rfl, rfl⟩
  rw [hc]
  exact runs_pure ⟨rfl, rfl⟩

theorem Has.runs_load (h : Has w.1 p i (c :: x)) :
    Runs Nothing (load p i) w fun c' w' => c' = c ∧ w' = w := by
  obtain ⟨l, hl, hc⟩ := h.head
  exact Cells.runs_load hl hc

theorem runs_loads (h : Has w.1 p i x) :
    Runs Nothing (loads p i x.length) w fun x' w' => x' = x ∧ w' = w := by
  induction x generalizing i with
  | nil => exact runs_pure ⟨rfl, rfl⟩
  | cons c x ih =>
    refine h.runs_load.bind (fun _ _ => id) ?_
    rintro c w - ⟨rfl, rfl⟩
    refine (ih (Has.drop (x := [c]) h)).bind (fun _ _ => id) ?_
    rintro x w - ⟨rfl, rfl⟩
    exact runs_pure ⟨rfl, rfl⟩

theorem runs_store (hl : w.1.read p = some l) (hi : i < l.length) (c : α) :
    Runs (· = p) (store p i c) w fun _ w' =>
      w'.1.read p = some (l.set i (some c)) ∧ w'.2 = w.2 := by
  refine (runs_read hl).bind (fun _ _ => False.elim) ?_
  rintro _ _ - ⟨rfl, rfl⟩
  rw [if_pos hi]
  exact runs_write hl _

theorem runs_stores (hl : w.1.read p = some l) (hi : i + x.length ≤ l.length) :
    Runs (· = p) (stores p i x) w fun _ w' =>
      w'.1.read p = some (overwrite l i (x.map some)) ∧ w'.2 = w.2 := by
  induction x generalizing w l i with
  | nil => exact runs_pure ⟨by rwa [List.map_nil, overwrite_nil], rfl⟩
  | cons c x ih =>
    rw [List.length_cons] at hi
    refine (runs_store hl (by omega) c).bind (fun _ _ => id) fun _ w₁ _ ⟨hl₁, hstate⟩ => ?_
    refine (ih hl₁ (by rw [List.length_set]; omega)).mono (fun _ _ => id) ?_
    rintro _ w' ⟨hl', hstate'⟩
    rw [overwrite_set (by omega)] at hl'
    exact ⟨hl', hstate'.trans hstate⟩

theorem runs_fill (hl : w.1.read p = some l) (hi : i + n ≤ l.length) (c : α) :
    Runs (· = p) (fill p i c n) w fun _ w' =>
      w'.1.read p = some (overwrite l i (List.replicate n (some c))) ∧ w'.2 = w.2 := by
  have := runs_stores (σ := σ) (x := List.replicate n c) hl (by rwa [List.length_replicate])
  rwa [List.map_replicate] at this

/-- The values are loaded from another block, or from before the place they are stored to. -/
theorem runs_copy (hl : w.1.read p = some l) (hi : i + x.length ≤ l.length) (hx : Has w.1 q j x)
    (hapart : q = p → j + x.length ≤ i) :
    Runs (· = p) (copy p i q j x.length) w fun _ w' =>
      w'.1.read p = some (overwrite l i (x.map some)) ∧ w'.2 = w.2 := by
  induction x generalizing w l i j with
  | nil => exact runs_pure ⟨by rwa [List.map_nil, overwrite_nil], rfl⟩
  | cons c x ih =>
    rw [List.length_cons] at hi hapart
    refine hx.runs_load.bind (fun _ _ => False.elim) ?_
    rintro c w - ⟨rfl, rfl⟩
    refine (runs_store hl (by omega) _).bind (fun _ _ => id) fun _ w₁ hk ⟨hl₁, hstate⟩ => ?_
    have htail : Has w.1 q (j + 1) x := Has.drop (x := [c]) hx
    have hx₁ : Has w₁.1 q (j + 1) x := by
      by_cases hqp : q = p
      · subst hqp
        exact htail.set hl hl₁ (by have := hapart rfl; omega)
      · exact htail.kept hk hqp
    refine (ih hl₁ (by rw [List.length_set]; omega) hx₁ fun h => by have := hapart h; omega).mono
      (fun _ _ => id) fun _ w' ⟨hl', hstate'⟩ => ?_
    rw [overwrite_set (by omega)] at hl'
    exact ⟨hl', hstate'.trans hstate⟩

/-- The block is the old one or a new one. Where it is moved the old one is gone. -/
theorem runs_realloc (hl : w.1.read p = some l) (n : Nat) :
    Runs (· = p) (realloc moves p n) w fun q w' =>
      w'.1.read q = some (resize l n) ∧ w'.2 = w.2 ∧ Fresh w.1 p q ∧
        (moves w.1 p n = true → w'.1.read p = none) := by
  cases hm : moves w.1 p n with
  | true =>
    have hmoved : Runs (· = p) (do
        let l ← read p
        let q ← alloc (resize l n)
        free p
        return q : CellsM α σ Nat) w fun q w' =>
          w'.1.read q = some (resize l n) ∧ w'.2 = w.2 ∧ w.1.size ≤ q ∧ w'.1.read p = none := by
      refine (runs_read hl).bind (fun _ _ => False.elim) ?_
      rintro l w - ⟨rfl, rfl⟩
      refine (runs_alloc _ w).bind (fun _ _ => False.elim) ?_
      rintro q w₁ hk₁ ⟨rfl, hq, hstate₁⟩
      have hp₁ := hk₁.read hl id
      refine (runs_free hp₁).bind (fun _ _ => id) fun _ w₂ hk₂ ⟨hp₂, hstate₂⟩ => runs_pure ?_
      have hne : ¬ w.1.size = p := (lt_size_of_read hl).ne'
      exact ⟨hk₂.read hq hne, hstate₂.trans hstate₁, le_rfl, hp₂⟩
    obtain ⟨q, w', hrun, hkept, hq, hstate, hnew, hp⟩ := hmoved
    exact ⟨q, w', by rw [realloc, if_pos hm]; exact hrun, hkept, hq, hstate, .inr hnew, fun _ => hp⟩
  | false =>
    have hstays : Runs (· = p) (do
        let l ← read p
        write p (resize l n)
        return p : CellsM α σ Nat) w fun q w' =>
          w'.1.read q = some (resize l n) ∧ w'.2 = w.2 ∧ q = p := by
      refine (runs_read hl).bind (fun _ _ => False.elim) ?_
      rintro l w - ⟨rfl, rfl⟩
      refine (runs_write hl _).bind (fun _ _ => id) fun _ w₁ _ ⟨hp, hstate⟩ => runs_pure ?_
      exact ⟨hp, hstate, rfl⟩
    obtain ⟨q, w', hrun, hkept, hq, hstate, hqp⟩ := hstays
    exact ⟨q, w', by rw [realloc, if_neg (by rw [hm]; decide)]; exact hrun, hkept, hq, hstate,
      .inl hqp, fun h => by cases h⟩

/-- At the end of its block the variable is gone. -/
theorem runs_withLocal {D : Nat → Prop} {f : Nat → CellsM α σ β}
    {Q : β → Blocks (List (Option α)) × σ → Prop} (x : List α) (hD : ¬ D w.1.size)
    (hf : ∀ w₁, Kept Nothing w.1 w₁.1 → w₁.1.read w.1.size = some (x.map some) → w₁.2 = w.2 →
      Runs D (f w.1.size) w₁ Q) :
    Runs D (withLocal x f) w fun b w' =>
      ∃ w₂, Q b w₂ ∧ Kept (· = w.1.size) w₂.1 w'.1 ∧ w'.2 = w₂.2 := by
  refine Runs.narrow ?_
  refine (runs_alloc _ w).bind (fun _ _ => False.elim) ?_
  rintro p w₁ hk₁ ⟨rfl, hp, hstate⟩
  refine (hf w₁ hk₁ hp hstate).bind (fun _ _ => .inl) fun b w₂ hk₂ hb => ?_
  refine ((runs_free (hk₂.read hp hD)).kept).bind (fun _ _ h => .inr h.ge) ?_
  rintro _ w' - ⟨hk', -, hstate'⟩
  exact runs_pure ⟨w₂, hb, hk', hstate'⟩

/-! ## Faults -/

theorem load_dead (h : w.1.read q = none) (j : Nat) : load (σ := σ) q j w = none := by
  unfold load BlocksM.read
  simp [bind, StateT.bind, h]

theorem copy_dead (h : w.1.read q = none) (p i j n : Nat) :
    copy (σ := σ) p i q j (n + 1) w = none := by
  exact bind_of_eq_none (load_dead h j) _

end

end Cells
