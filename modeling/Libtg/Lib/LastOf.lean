import Mathlib.Data.List.Induction

/-!
# The last value wins

A fold whose rounds set a part of the state or leave it as it is: in the end the part is what the
last round that set it has set.
-/

namespace LastOf

universe u v w

variable {σ : Type u} {α : Type v} {β : Type w}

/-- What the last value has that has any. -/
def lastOf (f : α → Option β) (xs : List α) : Option β := (xs.filterMap f).getLast?

theorem lastOf_append (f : α → Option β) (xs : List α) (x : α) :
    lastOf f (xs ++ [x]) = (f x).or (lastOf f xs) := by
  unfold lastOf
  rw [List.filterMap_append, List.getLast?_append]
  cases hx : f x with
  | none => rw [List.filterMap_cons_none hx]; rfl
  | some v => rw [List.filterMap_cons_some hx]; rfl

theorem lastOf_append_of_none {f : α → Option β} {ys : List α} (h : ∀ y ∈ ys, f y = none)
    (xs : List α) : lastOf f (xs ++ ys) = lastOf f xs := by
  rw [lastOf, List.filterMap_append, List.filterMap_eq_nil_iff.mpr h, List.append_nil, lastOf]

theorem lastOf_isSome_iff {f : α → Option β} {xs : List α} :
    (lastOf f xs).isSome ↔ ∃ x ∈ xs, (f x).isSome := by
  unfold lastOf
  rw [List.getLast?_isSome, ne_eq, List.filterMap_eq_nil_iff]
  simp [Option.isSome_iff_ne_none]

/-- Where all that have any have the same. -/
theorem lastOf_eq_some {f : α → Option β} {xs : List α} {x : α} {v : β} (hx : x ∈ xs)
    (hv : f x = some v) (h : ∀ y ∈ xs, ∀ w, f y = some w → w = v) : lastOf f xs = some v := by
  have hsome : (lastOf f xs).isSome := lastOf_isSome_iff.mpr ⟨x, hx, by rw [hv]; rfl⟩
  obtain ⟨w, hw⟩ := Option.isSome_iff_exists.mp hsome
  obtain ⟨y, hy, hfy⟩ := List.mem_filterMap.mp (List.mem_of_getLast? hw)
  rw [hw, h y hy w hfy]

/-- Where only one has any. -/
theorem lastOf_of_unique {f : α → Option β} {xs : List α} {x : α} (hx : x ∈ xs)
    (h : ∀ y ∈ xs, y ≠ x → f y = none) : lastOf f xs = f x := by
  cases hf : f x with
  | some v =>
    refine lastOf_eq_some hx hf fun y hy w hw => ?_
    by_cases hyx : y = x
    · rw [hyx, hf] at hw
      exact (Option.some.inj hw).symm
    · rw [h y hy hyx] at hw
      cases hw
  | none =>
    rw [← Option.not_isSome_iff_eq_none, lastOf_isSome_iff]
    rintro ⟨y, hy, hsome⟩
    by_cases hyx : y = x
    · rw [hyx, hf] at hsome
      cases hsome
    · rw [h y hy hyx] at hsome
      cases hsome

theorem lastOf_filterMap {γ : Type*} (f : β → Option γ) (g : α → Option β) (xs : List α) :
    lastOf f (xs.filterMap g) = lastOf (fun x => (g x).bind f) xs :=
  congrArg List.getLast? List.filterMap_filterMap

theorem lastOf_map {γ : Type*} (f : β → Option γ) (g : α → β) (xs : List α) :
    lastOf f (xs.map g) = lastOf (fun x => f (g x)) xs :=
  congrArg List.getLast? List.filterMap_map

/-- Where those of a kind have any. -/
theorem lastOf_ite (p : α → Bool) (g : α → β) (xs : List α) :
    lastOf (fun x => if p x then some (g x) else none) xs = ((xs.filter p).getLast?).map g := by
  have hfilter :
      xs.filterMap (fun x => if p x then some (g x) else none) = (xs.filter p).map g := by
    induction xs with
    | nil => rfl
    | cons x xs ih =>
      cases hp : p x <;> simp [hp, ih]
  rw [lastOf, hfilter, List.getLast?_map]

theorem foldl_eq_lastOf {step : σ → α → σ} {sets : α → Option β} (get : σ → β)
    (h : ∀ s a, get (step s a) = (sets a).getD (get s)) (xs : List α) (s : σ) :
    get (xs.foldl step s) = (lastOf sets xs).getD (get s) := by
  induction xs using List.reverseRecOn with
  | nil => rfl
  | append_singleton xs x ih =>
    rw [List.foldl_append, lastOf_append]
    refine (h _ x).trans ?_
    rw [ih]
    cases sets x <;> rfl

end LastOf
