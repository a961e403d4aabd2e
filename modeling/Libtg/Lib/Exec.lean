import Mathlib.Tactic

/-!
# Programs over a state that may fault

A program takes a state to a value and the next state, or faults. `Runs c s Q`: from `s` it ends
without a fault and with what `Q` says. A program is gone through one step at a time (`Runs.bind`).
-/

/-- Programs over the state `σ`; `none` is a fault. -/
abbrev Exec (σ α : Type) := StateT σ Option α

namespace Exec

variable {σ α β : Type} {c : Exec σ α} {f : α → Exec σ β} {s t : σ} {a : α}
  {P P' : α → σ → Prop} {Q : β → σ → Prop}

/-- The program changes the state by `f`. -/
def step (f : σ → σ) : Exec σ Unit := fun s => some ((), f s)

/-- A computation that does not look at the state comes to a value, or faults. -/
theorem liftM_apply (o : Option α) (s : σ) : (liftM o : Exec σ α) s = o.map fun a => (a, s) := by
  cases o <;> rfl

def Runs (c : Exec σ α) (s : σ) (Q : α → σ → Prop) : Prop := ∃ a t, c s = some (a, t) ∧ Q a t

theorem bind_of_eq_some (hc : c s = some (a, t)) (f : α → Exec σ β) : (c >>= f) s = f a t := by
  show (c s).bind _ = _
  rw [hc]
  rfl

theorem Runs.bind (hc : Runs c s P) (hf : ∀ a t, P a t → Runs (f a) t Q) : Runs (c >>= f) s Q := by
  obtain ⟨a, t, hrun, ha⟩ := hc
  obtain ⟨b, u, hrun', hb⟩ := hf a t ha
  exact ⟨b, u, (bind_of_eq_some hrun f).trans hrun', hb⟩

theorem Runs.mono (hc : Runs c s P) (hP : ∀ a t, P a t → P' a t) : Runs c s P' := by
  obtain ⟨a, t, hrun, ha⟩ := hc
  exact ⟨a, t, hrun, hP a t ha⟩

theorem runs_pure (ha : P a s) : Runs (pure a) s P := ⟨a, s, rfl, ha⟩

theorem runs_step (g : σ → σ) (s : σ) : Runs (step g) s fun _ t => t = g s := ⟨(), g s, rfl, rfl⟩

theorem runs_get (s : σ) : Runs (get : Exec σ σ) s fun a t => a = s ∧ t = s := ⟨s, s, rfl, rfl, rfl⟩

theorem runs_lift {o : Option α} (ho : o = some a) (ha : P a s) :
    Runs (liftM o : Exec σ α) s P := by
  refine ⟨a, s, ?_, ha⟩
  rw [liftM_apply, ho, Option.map_some]

/-- The first of two steps is told by what it comes to. -/
theorem runs_bind_of_eq_some (hc : c s = some (a, t)) (hf : Runs (f a) t Q) :
    Runs (c >>= f) s Q := by
  obtain ⟨b, u, hrun, hb⟩ := hf
  exact ⟨b, u, (bind_of_eq_some hc f).trans hrun, hb⟩

theorem runs_bind_lift {o : Option α} (ho : o = some a) (hf : Runs (f a) s Q) :
    Runs ((liftM o : Exec σ α) >>= f) s Q := by
  refine (runs_lift (P := fun b t => b = a ∧ t = s) ho ⟨rfl, rfl⟩).bind fun b t h => ?_
  rw [h.1, h.2]
  exact hf

end Exec
