import Mathlib.Tactic

/-!
# Handles

A program takes handles and has to give each of them back, once. The ledger numbers the handles in
the order they were taken, so that one that was given back and taken again has a new number, and it
lists the numbers that were given back. `Owns l own`: the only handle that is out is `own`.
-/

namespace Handles

structure Ledger where
  taken : Nat
  released : List Nat

namespace Ledger

/-- Before anything happened. -/
def empty : Ledger := ⟨0, []⟩

/-- The handle that is taken has the number `l.taken`. -/
def take (l : Ledger) : Ledger := { l with taken := l.taken + 1 }

/-- Giving back nothing does nothing. -/
def release (l : Ledger) (h : Option Nat) : Ledger :=
  { l with released := h.toList ++ l.released }

/-- Every handle was given back exactly once. -/
def Settled (l : Ledger) : Prop := ∀ h < l.taken, l.released.count h = 1

end Ledger

/-- Every handle but this one was given back, once, and this one was not. -/
structure Owns (l : Ledger) (own : Option Nat) : Prop where
  released_lt : ∀ h ∈ l.released, h < l.taken
  own_lt : ∀ h ∈ own, h < l.taken
  count : ∀ h < l.taken, l.released.count h = if h ∈ own then 0 else 1

variable {l : Ledger} {own : Option Nat} {h : Nat}

theorem owns_empty : Owns .empty none :=
  ⟨fun _ h => absurd h List.not_mem_nil, fun _ h => absurd h (by simp),
    fun _ h => absurd h (Nat.not_lt_zero _)⟩

theorem Owns.take (ho : Owns l none) : Owns l.take (some l.taken) where
  released_lt h hh := Nat.lt_succ_of_lt (ho.released_lt h hh)
  own_lt h hh := by
    cases hh
    exact Nat.lt_succ_self _
  count h hh := by
    show l.released.count h = _
    by_cases heq : h = l.taken
    · have hnot : h ∉ l.released := fun hmem => absurd (ho.released_lt h hmem) (by omega)
      rw [List.count_eq_zero_of_not_mem hnot, if_pos (by rw [heq]; rfl)]
    · have hlt : h < l.taken := lt_of_le_of_ne (Nat.le_of_lt_succ hh) heq
      rw [ho.count h hlt, if_neg (by simp), if_neg (by simpa using Ne.symm heq)]

theorem Owns.release (ho : Owns l own) : Owns (l.release own) none where
  released_lt h hh := by
    rcases List.mem_append.mp hh with hown | hmem
    · exact ho.own_lt h (by simpa using hown)
    · exact ho.released_lt h hmem
  own_lt h hh := by cases hh
  count h hh := by
    have hcount := ho.count h hh
    show (own.toList ++ l.released).count h = _
    rw [List.count_append, hcount]
    cases own with
    | none => simp
    | some o =>
      by_cases heq : o = h
      · simp [heq]
      · simp [heq]

/-- All is settled where no handle is out. -/
theorem Owns.settled_iff (ho : Owns l own) : l.Settled ↔ own = none := by
  constructor
  · intro hs
    cases own with
    | none => rfl
    | some o =>
      have hlt := ho.own_lt o rfl
      have hone := hs o hlt
      rw [ho.count o hlt, if_pos (Option.mem_some_self o)] at hone
      cases hone
  · rintro rfl h hh
    rw [ho.count h hh, if_neg (by simp)]

/-- Giving back a handle that is not out unsettles the ledger. -/
theorem Owns.not_settled_release (ho : Owns l none) (hh : h < l.taken) :
    ¬ (l.release (some h)).Settled := by
  intro hs
  have htwice := hs h hh
  change (h :: l.released).count h = 1 at htwice
  rw [List.count_cons_self, ho.count h hh, if_neg (by simp)] at htwice
  cases htwice

end Handles
