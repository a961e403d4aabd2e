import Mathlib.Tactic

/-!
# Labelled transition systems

A system is a partial function from a state and a label to the next state. `Reach step ok s₀` are
the states of its runs from `s₀` whose every step meets the side condition `ok`; the invariant rule
is `Reach.invariant`, and `Reach.refine` replaces each step by a run of a finer system.

A log is a list of events, newest first. `Chronicle P` says of each event that `P` holds of it and
of what happened before it.
-/

namespace Transition

universe u v

variable {σ σ' : Type u} {ℓ ℓ' : Type v} {step : σ → ℓ → Option σ} {ok : σ → ℓ → Prop}
  {s₀ s t : σ}

/-- The states of the runs from `s₀` with steps that meet `ok`. -/
inductive Reach (step : σ → ℓ → Option σ) (ok : σ → ℓ → Prop) (s₀ : σ) : σ → Prop
  | init : Reach step ok s₀ s₀
  | step {s t : σ} {l : ℓ} :
      Reach step ok s₀ s → ok s l → step s l = some t → Reach step ok s₀ t

/-- No side condition. -/
def Any : σ → ℓ → Prop := fun _ _ => True

namespace Reach

/-- The invariant rule for an invariant whose step may use that the state is reached. -/
theorem invariant_of_reach {I : σ → Prop} (h : Reach step ok s₀ s) (hinit : I s₀)
    (hstep : ∀ s l t, Reach step ok s₀ s → I s → ok s l → step s l = some t → I t) : I s := by
  induction h with
  | init => exact hinit
  | step hreach hok hs ih => exact hstep _ _ _ hreach ih hok hs

/-- The invariant rule. -/
theorem invariant {I : σ → Prop} (h : Reach step ok s₀ s) (hinit : I s₀)
    (hstep : ∀ s l t, I s → ok s l → step s l = some t → I t) : I s :=
  h.invariant_of_reach hinit fun s l t _ => hstep s l t

theorem trans (h : Reach step ok s₀ s) (h' : Reach step ok s t) : Reach step ok s₀ t := by
  induction h' with
  | init => exact h
  | step _ hok hs ih => exact .step ih hok hs

theorem single {l : ℓ} (hok : ok s l) (hs : step s l = some t) : Reach step ok s t :=
  .step .init hok hs

/-- Each step of a coarser system is a run of the finer one. -/
theorem refine {coarse : σ → ℓ' → Option σ} (h : Reach coarse Any s₀ s)
    (hstep : ∀ s l t, coarse s l = some t → Reach step ok s t) : Reach step ok s₀ s := by
  induction h with
  | init => exact .init
  | step _ _ hs ih => exact ih.trans (hstep _ _ _ hs)

/-- A list of labels that can be taken one after the other. -/
theorem of_foldlM {ls : List ℓ} (hok : ∀ l ∈ ls, ∀ s, ok s l) (h : ls.foldlM step s = some t) :
    Reach step ok s t := by
  induction ls generalizing s with
  | nil =>
    cases h
    exact .init
  | cons l ls ih =>
    rw [List.foldlM_cons, Option.bind_eq_bind, Option.bind_eq_some_iff] at h
    obtain ⟨u, hu, hrest⟩ := h
    have hfirst : Reach step ok s u := single (hok l List.mem_cons_self s) hu
    exact hfirst.trans (ih (fun l hl => hok l (List.mem_cons_of_mem _ hl)) hrest)

/-- A run, of whose last state we want to know something only. -/
theorem of_run {β : Type*} {x : β} (f : σ → β) (ls : List ℓ) (hok : ∀ l ∈ ls, ∀ s, ok s l)
    (h : (ls.foldlM step s).map f = some x) : ∃ t, Reach step ok s t ∧ f t = x := by
  obtain ⟨t, ht, hx⟩ := Option.map_eq_some_iff.mp h
  exact ⟨t, of_foldlM hok ht, hx⟩

end Reach

/-! ## Logs -/

variable {ε : Type u} {P : List ε → ε → Prop} {log : List ε}

/-- Every event is as `P` asks of it and of the events before it. -/
def Chronicle (P : List ε → ε → Prop) : List ε → Prop
  | [] => True
  | e :: past => P past e ∧ Chronicle P past

theorem Chronicle.append {new : List ε} (h : Chronicle P log)
    (hnew : ∀ post past e, new = post ++ e :: past → P (past ++ log) e) :
    Chronicle P (new ++ log) := by
  induction new with
  | nil => exact h
  | cons e new ih =>
    refine ⟨hnew [] new e rfl, ih fun post past e' he' => hnew (e :: post) past e' ?_⟩
    rw [he', List.cons_append]

theorem Chronicle.mono {Q : List ε → ε → Prop} (h : Chronicle P log)
    (hPQ : ∀ past e, P past e → Q past e) : Chronicle Q log := by
  induction log with
  | nil => trivial
  | cons e past ih => exact ⟨hPQ past e h.1, ih h.2⟩

theorem Chronicle.at {post past : List ε} {e : ε} (h : Chronicle P (post ++ e :: past)) :
    P past e ∧ Chronicle P past := by
  induction post with
  | nil => exact h
  | cons e' post ih => exact ih h.2

/-- The event that is in the log stands somewhere in it, with a past of its own. -/
theorem Chronicle.of_mem {e : ε} (h : Chronicle P log) (he : e ∈ log) :
    ∃ post past, log = post ++ e :: past ∧ P past e := by
  obtain ⟨post, past, rfl⟩ := List.append_of_mem he
  exact ⟨post, past, rfl, h.at.1⟩

end Transition
