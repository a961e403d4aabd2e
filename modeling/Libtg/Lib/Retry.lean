import Libtg.Lib.Loop
import Mathlib.Data.Nat.Count

/-!
# Retrying

Attempts are made one after the other until so many of them are accepted; `ok j` says whether the
attempt `j` is. `Ends ok n m`: it takes `m` attempts to have `n` accepted. With a budget of `b`
refusals the attempts end in time exactly if `n` of the first `n + b` attempts are accepted
(`ends_within_iff`).
-/

namespace Retry

open Loop

section
variable (ok : Nat → Prop) [DecidablePred ok] (n : Nat)

/-- The attempts end after these: as many are accepted as were wanted, and not before. -/
def Ends (m : Nat) : Prop := Nat.count ok m = n ∧ ∀ j < m, Nat.count ok j < n

/-- The attempt `j`, as a loop that is left after the last one. -/
def attempt (j : Nat) : Nat ⊕ Nat :=
  if Nat.count ok (j + 1) = n then .inl (j + 1) else .inr (j + 1)

end

section
variable {ok : Nat → Prop} [DecidablePred ok] {n m j b : Nat}

theorem Ends.unique (h : Ends ok n m) {m' : Nat} (h' : Ends ok n m') : m = m' := by
  obtain hlt | rfl | hgt := lt_trichotomy m m'
  · have hless := h'.2 m hlt
    have hcount := h.1
    omega
  · rfl
  · have hless := h.2 m' hgt
    have hcount := h'.1
    omega

theorem exists_ends (h : n ≤ Nat.count ok m) : ∃ k ≤ m, Ends ok n k := by
  induction m with
  | zero => exact ⟨0, Nat.le_refl 0, by rw [Nat.count_zero] at *; omega, by simp⟩
  | succ m ih =>
    by_cases hm : n ≤ Nat.count ok m
    · obtain ⟨k, hk, hends⟩ := ih hm
      exact ⟨k, Nat.le_succ_of_le hk, hends⟩
    · have hsucc := Nat.count_succ ok m
      refine ⟨m + 1, Nat.le_refl _, ?_, fun j hj => ?_⟩
      · split_ifs at hsucc <;> omega
      · have hmono := Nat.count_monotone ok (Nat.le_of_lt_succ hj)
        omega

theorem count_add_count_not (ok : Nat → Prop) [DecidablePred ok] (j : Nat) :
    Nat.count ok j + Nat.count (¬ ok ·) j = j := by
  induction j with
  | zero => rfl
  | succ j ih =>
    rw [Nat.count_succ, Nat.count_succ]
    split_ifs <;> omega

/-- The attempts end, none of them after the budget is used up, exactly if enough are accepted among
as many as fit in it. -/
theorem ends_within_iff :
    (∃ m, Ends ok n m ∧ ∀ j < m, Nat.count (¬ ok ·) j < b + 1) ↔ n ≤ Nat.count ok (n + b) := by
  constructor
  · rintro ⟨m, hends, hbudget⟩
    cases m with
    | zero =>
      have hzero := hends.1
      rw [Nat.count_zero] at hzero
      omega
    | succ m =>
      have hless := hends.2 m (Nat.lt_succ_self m)
      have hspent := hbudget m (Nat.lt_succ_self m)
      have hsplit := count_add_count_not ok m
      have hmono := Nat.count_monotone ok (show m + 1 ≤ n + b by omega)
      have hcount := hends.1
      omega
  · intro h
    obtain ⟨m, hle, hends⟩ := exists_ends h
    refine ⟨m, hends, fun j hj => ?_⟩
    cases m with
    | zero => exact absurd hj (Nat.not_lt_zero j)
    | succ m =>
      have hless := hends.2 m (Nat.lt_succ_self m)
      have hsucc := Nat.count_succ ok m
      have hsplit := count_add_count_not ok m
      have hmono := Nat.count_monotone (¬ ok ·) (Nat.le_of_lt_succ hj)
      have hcount := hends.1
      split_ifs at hsucc <;> omega

/-- The last attempt is accepted. -/
theorem ok_of_count (hlt : Nat.count ok j < n) (h : Nat.count ok (j + 1) = n) :
    ok j ∧ Nat.count ok j + 1 = n := by
  have hsucc := Nat.count_succ ok j
  split_ifs at hsucc with hok
  · exact ⟨hok, by omega⟩
  · omega

/-- The last attempt is no refusal. -/
theorem Ends.count_not_lt (h : Ends ok n m) (hbudget : ∀ j < m, Nat.count (¬ ok ·) j < b + 1) :
    Nat.count (¬ ok ·) m < b + 1 := by
  cases m with
  | zero => exact Nat.succ_pos b
  | succ m =>
    have hlast := (ok_of_count (h.2 m (Nat.lt_succ_self m)) h.1).1
    rw [Nat.count_succ, if_neg (not_not_intro hlast)]
    exact hbudget m (Nat.lt_succ_self m)

theorem attempt_eq_inl_iff : attempt ok n j = .inl m ↔ Nat.count ok (j + 1) = n ∧ j + 1 = m := by
  rw [attempt]
  split_ifs with h
  · simp [h]
  · simp [h]

theorem attempt_eq_inr_iff : attempt ok n j = .inr m ↔ Nat.count ok (j + 1) ≠ n ∧ j + 1 = m := by
  rw [attempt]
  split_ifs with h
  · simp [h]
  · simp [h]

theorem count_lt_succ (h : ∀ i ≤ j, Nat.count ok i < n) (hne : Nat.count ok (j + 1) ≠ n) :
    ∀ i ≤ j + 1, Nat.count ok i < n := by
  intro i hi
  obtain hlt | rfl := Nat.lt_or_eq_of_le hi
  · exact h i (Nat.le_of_lt_succ hlt)
  · have hless := h j (Nat.le_refl j)
    have hsucc := Nat.count_succ ok j
    split_ifs at hsucc <;> omega

/-- The loop of the attempts. -/
theorem yields_attempt_iff (h : ∀ i ≤ j, Nat.count ok i < n) :
    Yields (attempt ok n) j m ↔ Ends ok n m := by
  constructor
  · intro hyields
    refine hyields.post (I := fun j => ∀ i ≤ j, Nat.count ok i < n) h ?_ ?_
    · intro j m hj hstep
      obtain ⟨hlast, rfl⟩ := attempt_eq_inl_iff.mp hstep
      exact ⟨hlast, fun i hi => hj i (Nat.le_of_lt_succ hi)⟩
    · intro j k hj hstep
      obtain ⟨hne, rfl⟩ := attempt_eq_inr_iff.mp hstep
      exact count_lt_succ hj hne
  · intro hends
    induction hm : m - j generalizing j with
    | zero =>
      have hless := h m (by omega)
      have hcount := hends.1
      omega
    | succ d ih =>
      by_cases hlast : Nat.count ok (j + 1) = n
      · have hleave : attempt ok n j = .inl (j + 1) := if_pos hlast
        have heq := hends.unique ⟨hlast, fun i hi => h i (Nat.le_of_lt_succ hi)⟩
        exact (yields_leave hleave).mpr heq
      · have hnext : attempt ok n j = .inr (j + 1) := if_neg hlast
        have hlt : j + 1 < m := by
          refine lt_of_le_of_ne (by omega) fun heq => hlast ?_
          rw [heq]
          exact hends.1
        exact (yields_next hnext).mpr (ih (fun i hi => hends.2 i (by omega)) (by omega))

end

end Retry
