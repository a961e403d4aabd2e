import Mathlib.Data.List.Infix

/-!
# Handing over until told to stop

A producer hands over its values in order, and a consumer says after each of them whether it asks to
stop: `stops log` is its answer after having been handed `log`. `handed` is what it has been handed
in the end, `TakesAll` says that it takes all of a list.
-/

namespace Consumer

universe u

variable {α : Type u} (stops : List α → Bool)

/-- What the consumer has been handed, up to and including the first value it stops at. -/
def handed (log : List α) : List α → List α
  | [] => log
  | x :: xs => if stops (log ++ [x]) then log ++ [x] else handed (log ++ [x]) xs

/-- The consumer does not stop at any of the values. -/
def TakesAll (log : List α) : List α → Prop
  | [] => True
  | x :: xs => stops (log ++ [x]) = false ∧ TakesAll (log ++ [x]) xs

variable {stops} {log xs ys : List α} {x : α}

instance TakesAll.decidable : (log xs : List α) → Decidable (TakesAll stops log xs)
  | _, [] => .isTrue trivial
  | log, x :: xs =>
    have := TakesAll.decidable (log ++ [x]) xs
    inferInstanceAs (Decidable (_ ∧ _))

theorem takesAll_of_forall (h : ∀ log, stops log = false) (log xs : List α) :
    TakesAll stops log xs := by
  induction xs generalizing log with
  | nil => trivial
  | cons x xs ih => exact ⟨h _, ih _⟩

theorem handed_append (h : TakesAll stops log xs) (ys : List α) :
    handed stops log (xs ++ ys) = handed stops (log ++ xs) ys := by
  induction xs generalizing log with
  | nil => rw [List.nil_append, List.append_nil]
  | cons x xs ih =>
    rw [List.cons_append, handed, h.1, if_neg Bool.false_ne_true, ih h.2, List.append_assoc]
    rfl

theorem handed_of_takesAll (h : TakesAll stops log xs) : handed stops log xs = log ++ xs := by
  have := handed_append h []
  rwa [List.append_nil] at this

theorem handed_of_stops (h : TakesAll stops log xs) (hx : stops (log ++ xs ++ [x]) = true) :
    handed stops log (xs ++ x :: ys) = log ++ xs ++ [x] := by
  rw [handed_append h, handed, if_pos hx]

/-- Either it takes everything, or there is a first value it stops at. -/
theorem takesAll_or_stops (stops : List α → Bool) (log xs : List α) :
    TakesAll stops log xs ∨ ∃ ys x zs, xs = ys ++ x :: zs ∧ TakesAll stops log ys ∧
      stops (log ++ ys ++ [x]) = true := by
  induction xs generalizing log with
  | nil => exact .inl trivial
  | cons x xs ih =>
    cases hx : stops (log ++ [x]) with
    | true => exact .inr ⟨[], x, xs, rfl, trivial, by rwa [List.append_nil]⟩
    | false =>
      obtain h | ⟨ys, y, zs, rfl, hys, hy⟩ := ih (log ++ [x])
      · exact .inl ⟨hx, h⟩
      · exact .inr ⟨x :: ys, y, zs, rfl, ⟨hx, hys⟩, by rwa [List.append_assoc log] at hy⟩

theorem handed_prefix_append (stops : List α → Bool) (log xs : List α) :
    handed stops log xs <+: log ++ xs := by
  obtain h | ⟨ys, x, zs, rfl, hys, hx⟩ := takesAll_or_stops stops log xs
  · rw [handed_of_takesAll h]
  · rw [handed_of_stops hys hx]
    exact ⟨zs, by simp⟩

theorem prefix_handed (stops : List α → Bool) (log xs : List α) : log <+: handed stops log xs := by
  induction xs generalizing log with
  | nil => exact List.prefix_rfl
  | cons x xs ih =>
    rw [handed]
    split_ifs
    · exact List.prefix_append ..
    · exact (List.prefix_append ..).trans (ih _)

/-- The consumer receives the first value in any case. -/
theorem prefix_handed_cons (stops : List α → Bool) (log : List α) (x : α) (xs : List α) :
    log ++ [x] <+: handed stops log (x :: xs) := by
  rw [handed]
  split_ifs
  · exact List.prefix_rfl
  · exact prefix_handed ..

end Consumer
