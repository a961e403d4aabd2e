import Mathlib.Tactic

/-!
# Loops

The body of a loop is a function `step : σ → ρ ⊕ σ`: it leaves the loop with a result or goes on
with the next state. `run` gives it fuel, and `Yields step s r` says that the loop entered in `s`
ends with `r`. `Yields.post` is the rule for partial correctness, `yields_of_measure` the one for
total correctness. `Visits step s t`: the loop entered in `s` comes to the state `t`. A loop that
makes one or more rounds for each round of another ends exactly if the other does
(`Simulates.yields`, `Simulates.yields_of`).
-/

namespace Loop

universe u v

variable {σ : Type u} {ρ : Type v} {step : σ → ρ ⊕ σ} {s t : σ} {r r' : ρ}

/-- The loop, for at most `fuel` rounds. -/
def run (step : σ → ρ ⊕ σ) : Nat → σ → Option ρ
  | 0, _ => none
  | fuel + 1, s =>
    match step s with
    | .inl r => some r
    | .inr t => run step fuel t

def Yields (step : σ → ρ ⊕ σ) (s : σ) (r : ρ) : Prop := ∃ fuel, run step fuel s = some r

theorem yields_leave (h : step s = .inl r) : Yields step s r' ↔ r' = r := by
  constructor
  · rintro ⟨fuel, hrun⟩
    cases fuel with
    | zero => cases hrun
    | succ fuel =>
      rw [run, h] at hrun
      exact (Option.some.inj hrun).symm
  · rintro rfl
    exact ⟨1, by rw [run, h]⟩

theorem yields_next (h : step s = .inr t) : Yields step s r ↔ Yields step t r := by
  constructor
  · rintro ⟨fuel, hrun⟩
    cases fuel with
    | zero => cases hrun
    | succ fuel =>
      rw [run, h] at hrun
      exact ⟨fuel, hrun⟩
  · rintro ⟨fuel, hrun⟩
    exact ⟨fuel + 1, by rw [run, h]; exact hrun⟩

theorem Yields.unique (h : Yields step s r) (h' : Yields step s r') : r = r' := by
  obtain ⟨fuel, hrun⟩ := h
  induction fuel generalizing s with
  | zero => cases hrun
  | succ fuel ih =>
    rw [run] at hrun
    split at hrun
    · rename_i hstep
      cases hrun
      exact ((yields_leave hstep).mp h').symm
    · rename_i hstep
      exact ih ((yields_next hstep).mp h') hrun

/-- Partial correctness: what the invariant says where the loop is left. -/
theorem Yields.post {I : σ → Prop} {Q : ρ → Prop} (h : Yields step s r) (hI : I s)
    (hleave : ∀ s r, I s → step s = .inl r → Q r)
    (hnext : ∀ s t, I s → step s = .inr t → I t) : Q r := by
  obtain ⟨fuel, hrun⟩ := h
  induction fuel generalizing s with
  | zero => cases hrun
  | succ fuel ih =>
    rw [run] at hrun
    split at hrun
    · rename_i hstep
      cases hrun
      exact hleave _ _ hI hstep
    · rename_i hstep
      exact ih (hnext _ _ hI hstep) hrun

/-- Total correctness: a measure that falls in every round. -/
theorem yields_of_measure {I : σ → Prop} {Q : ρ → Prop} (μ : σ → Nat)
    (hstep : ∀ s, I s → (∃ r, step s = .inl r ∧ Q r) ∨ ∃ t, step s = .inr t ∧ I t ∧ μ t < μ s)
    (hI : I s) : ∃ r, Yields step s r ∧ Q r := by
  induction hn : μ s using Nat.strong_induction_on generalizing s with
  | _ n ih =>
    obtain ⟨r, hleave, hQ⟩ | ⟨t, hnext, hIt, hlt⟩ := hstep s hI
    · exact ⟨r, (yields_leave hleave).mpr rfl, hQ⟩
    · obtain ⟨r, hr, hQ⟩ := ih (μ t) (hn ▸ hlt) hIt rfl
      exact ⟨r, (yields_next hnext).mpr hr, hQ⟩

/-- The states the loop comes to. -/
inductive Visits (step : σ → ρ ⊕ σ) (s : σ) : σ → Prop
  | enter : Visits step s s
  | next {t u : σ} : Visits step s t → step t = .inr u → Visits step s u

theorem Visits.invariant {I : σ → Prop} (h : Visits step s t) (hI : I s)
    (hnext : ∀ s t, I s → step s = .inr t → I t) : I t := by
  induction h with
  | enter => exact hI
  | next _ hstep ih => exact hnext _ _ ih hstep

theorem Visits.yields (h : Visits step s t) : Yields step s r ↔ Yields step t r := by
  induction h with
  | enter => exact Iff.rfl
  | next _ hstep ih => exact ih.trans (yields_next hstep)

/-- Rounds in the middle of the loop use up fuel. -/
theorem run_of_transGen {fuel : Nat} (h : Relation.TransGen (fun s t => step s = .inr t) s t)
    (hrun : run step fuel s = some r) : ∃ less < fuel, run step less t = some r := by
  induction h with
  | single hstep =>
    cases fuel with
    | zero => cases hrun
    | succ fuel =>
      rw [run, hstep] at hrun
      exact ⟨fuel, Nat.lt_succ_self fuel, hrun⟩
  | tail _ hstep ih =>
    obtain ⟨less, hless, hrun⟩ := ih
    cases less with
    | zero => cases hrun
    | succ less =>
      rw [run, hstep] at hrun
      exact ⟨less, by omega, hrun⟩

theorem yields_of_transGen (h : Relation.TransGen (fun s t => step s = .inr t) s t) :
    Yields step s r ↔ Yields step t r := by
  induction h with
  | single hstep => exact yields_next hstep
  | tail _ hstep ih => exact ih.trans (yields_next hstep)

section
variable {τ : Type*} {ρ' : Type*} {step' : τ → ρ' ⊕ τ} {R : σ → τ → Prop} {Q : ρ → ρ' → Prop}
  {a : τ}

/-- Where the abstract loop is left the concrete one ends, and for every other round it makes one
or more. -/
structure Simulates (step : σ → ρ ⊕ σ) (step' : τ → ρ' ⊕ τ) (R : σ → τ → Prop)
    (Q : ρ → ρ' → Prop) : Prop where
  leave : ∀ s a r', R s a → step' a = .inl r' → ∃ r, Yields step s r ∧ Q r r'
  next : ∀ s a b, R s a → step' a = .inr b →
    ∃ t, Relation.TransGen (fun s t => step s = .inr t) s t ∧ R t b

theorem Simulates.yields_of (h : Simulates step step' R Q) (hR : R s a) {r' : ρ'}
    (hyields : Yields step' a r') : ∃ r, Yields step s r ∧ Q r r' := by
  obtain ⟨fuel, hrun⟩ := hyields
  induction fuel generalizing s a with
  | zero => cases hrun
  | succ fuel ih =>
    rw [run] at hrun
    split at hrun
    · rename_i hstep
      cases hrun
      exact h.leave s a _ hR hstep
    · rename_i hstep
      obtain ⟨t, hgoes, ht⟩ := h.next s a _ hR hstep
      obtain ⟨r, hr, hQ⟩ := ih ht hrun
      exact ⟨r, (yields_of_transGen hgoes).mpr hr, hQ⟩

theorem Simulates.yields (h : Simulates step step' R Q) (hR : R s a) (hyields : Yields step s r) :
    ∃ r', Yields step' a r' ∧ Q r r' := by
  obtain ⟨fuel, hrun⟩ := hyields
  induction fuel using Nat.strong_induction_on generalizing s a with
  | _ fuel ih =>
    cases hstep : step' a with
    | inl r' =>
      obtain ⟨r₀, hr₀, hQ⟩ := h.leave s a r' hR hstep
      obtain rfl := hr₀.unique ⟨fuel, hrun⟩
      exact ⟨r', (yields_leave hstep).mpr rfl, hQ⟩
    | inr b =>
      obtain ⟨t, hgoes, ht⟩ := h.next s a b hR hstep
      obtain ⟨less, hless, hrun⟩ := run_of_transGen hgoes hrun
      obtain ⟨r', hr', hQ⟩ := ih less hless ht hrun
      exact ⟨r', (yields_next hstep).mpr hr', hQ⟩

end

end Loop
