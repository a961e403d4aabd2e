import Mathlib.Tactic

/-!
# Blocks of memory

A block is given out by `alloc` and released by `free`; its number is not given out again. Reading,
writing and releasing what is not alive is `none`. `Kept D s t`: from `s` to `t` nothing but the
blocks in `D` and new ones has changed. `Runs` is the rule for programs over blocks and a further
state: such a program ends without a fault, keeps what it keeps and answers as it should.
-/

/-- What is in the blocks, and whether they are alive. -/
structure Blocks (α : Type) where
  cells : List (α × Bool)

namespace Blocks

variable {α : Type} {s t r : Blocks α} {D D' : Nat → Prop} {h k : Nat} {a b : α}

/-- The number of the next block. -/
def size (s : Blocks α) : Nat := s.cells.length

def read (s : Blocks α) (h : Nat) : Option α :=
  match s.cells[h]? with
  | some (a, true) => some a
  | _ => none

def alloc (s : Blocks α) (a : α) : Blocks α := ⟨s.cells ++ [(a, true)]⟩

def write (s : Blocks α) (h : Nat) (a : α) : Option (Blocks α) :=
  (s.read h).map fun _ => ⟨s.cells.set h (a, true)⟩

def free (s : Blocks α) (h : Nat) : Option (Blocks α) :=
  (s.read h).map fun a => ⟨s.cells.set h (a, false)⟩

/-- Nothing but the blocks in `D` has changed. -/
structure Kept (D : Nat → Prop) (s t : Blocks α) : Prop where
  size_le : s.size ≤ t.size
  cells_eq : ∀ h < s.size, ¬ D h → t.cells[h]? = s.cells[h]?

theorem lt_size_of_read (hr : s.read h = some a) : h < s.size := by
  rw [read] at hr
  cases hc : s.cells[h]? with
  | none =>
    rw [hc] at hr
    cases hr
  | some c => exact (List.getElem?_eq_some_iff.mp hc).1

theorem Kept.refl (D : Nat → Prop) (s : Blocks α) : Kept D s s := ⟨le_rfl, fun _ _ _ => rfl⟩

theorem Kept.trans (h₁ : Kept D s t) (h₂ : Kept D t r) : Kept D s r :=
  ⟨h₁.size_le.trans h₂.size_le, fun h hlt hD =>
    (h₂.cells_eq h (hlt.trans_le h₁.size_le) hD).trans (h₁.cells_eq h hlt hD)⟩

/-- Blocks that are newer than `s` count for nothing. -/
theorem Kept.mono (hk : Kept D s t) (hD : ∀ h < s.size, D h → D' h) : Kept D' s t :=
  ⟨hk.size_le, fun h hlt hn => hk.cells_eq h hlt fun hd => hn (hD h hlt hd)⟩

theorem Kept.read_eq (hk : Kept D s t) (hlt : h < s.size) (hD : ¬ D h) : t.read h = s.read h := by
  rw [Blocks.read, Blocks.read, hk.cells_eq h hlt hD]

theorem Kept.read (hk : Kept D s t) (hr : s.read h = some a) (hD : ¬ D h) :
    t.read h = some a :=
  (hk.read_eq (lt_size_of_read hr) hD).trans hr

theorem kept_alloc (D : Nat → Prop) (s : Blocks α) (a : α) : Kept D s (s.alloc a) :=
  ⟨by simp [size, alloc], fun h hlt _ => List.getElem?_append_left hlt⟩

theorem read_alloc (s : Blocks α) (a : α) : (s.alloc a).read s.size = some a := by
  simp [read, alloc, size]

theorem write_of_read (hr : s.read h = some a) (b : α) :
    s.write h b = some ⟨s.cells.set h (b, true)⟩ := by
  rw [write, hr]
  rfl

theorem free_of_read (hr : s.read h = some a) : s.free h = some ⟨s.cells.set h (a, false)⟩ := by
  rw [free, hr]
  rfl

theorem kept_set {c : α × Bool} : Kept (· = h) s ⟨s.cells.set h c⟩ :=
  ⟨by simp [size], fun _ _ hne => List.getElem?_set_ne fun heq => hne heq.symm⟩

theorem read_set_alive (hr : s.read h = some a) :
    Blocks.read ⟨s.cells.set h (b, true)⟩ h = some b := by
  rw [read, List.getElem?_set_self (lt_size_of_read hr)]

theorem read_set_dead (hr : s.read h = some a) :
    Blocks.read ⟨s.cells.set h (b, false)⟩ h = none := by
  rw [read, List.getElem?_set_self (lt_size_of_read hr)]

end Blocks

/-- Programs over blocks and a further state; `none` is a use of a block that is not alive. -/
abbrev BlocksM (α σ β : Type) := StateT (Blocks α × σ) Option β

namespace BlocksM

open Blocks

variable {α σ β γ : Type}

def alloc (a : α) : BlocksM α σ Nat := fun w => some (w.1.size, (w.1.alloc a, w.2))

def read (h : Nat) : BlocksM α σ α := fun w => (w.1.read h).map fun a => (a, w)

def write (h : Nat) (a : α) : BlocksM α σ Unit := fun w =>
  (w.1.write h a).map fun s => ((), (s, w.2))

def free (h : Nat) : BlocksM α σ Unit := fun w => (w.1.free h).map fun s => ((), (s, w.2))

/-- A program over the further state only. -/
def lift (c : StateM σ β) : BlocksM α σ β := fun w => some ((c w.2).1, (w.1, (c w.2).2))

/-- From `w` the program ends without a fault and with what `Q` says, and of the blocks there were
it changes those in `D` only. -/
def Runs (D : Nat → Prop) (c : BlocksM α σ β) (w : Blocks α × σ) (Q : β → Blocks α × σ → Prop) :
    Prop :=
  ∃ b w', c w = some (b, w') ∧ Kept D w.1 w'.1 ∧ Q b w'

/-- No block. -/
abbrev Nothing : Nat → Prop := fun _ => False

section
variable {D D₁ : Nat → Prop} {c : BlocksM α σ β} {f : β → BlocksM α σ γ} {w : Blocks α × σ}
  {P : β → Blocks α × σ → Prop} {Q : γ → Blocks α × σ → Prop} {a : α} {b : β} {h : Nat}

theorem bind_of_eq_some {w' : Blocks α × σ} (hc : c w = some (b, w')) (f : β → BlocksM α σ γ) :
    (c >>= f) w = f b w' := by
  show (c w).bind _ = _
  rw [hc]
  rfl

theorem bind_of_eq_none (hc : c w = none) (f : β → BlocksM α σ γ) : (c >>= f) w = none := by
  show (c w).bind _ = _
  rw [hc]
  rfl

theorem Runs.mono {P' : β → Blocks α × σ → Prop} (hc : Runs D₁ c w P)
    (hD : ∀ h < w.1.size, D₁ h → D h) (hP : ∀ b w', P b w' → P' b w') : Runs D c w P' := by
  obtain ⟨b, w', hrun, hkept, hb⟩ := hc
  exact ⟨b, w', hrun, hkept.mono hD, hP b w' hb⟩

theorem Runs.kept (hc : Runs D c w P) :
    Runs D c w fun b w' => Kept D w.1 w'.1 ∧ P b w' := by
  obtain ⟨b, w', hrun, hkept, hb⟩ := hc
  exact ⟨b, w', hrun, hkept, hkept, hb⟩

/-- The blocks the program gets itself need not be told. -/
theorem Runs.narrow (hc : Runs (fun h => D h ∨ w.1.size ≤ h) c w P) : Runs D c w P :=
  hc.mono (fun _ hlt hD => hD.resolve_right (Nat.not_le.mpr hlt)) fun _ _ => id

/-- A program that changes new blocks only changes none that there were. -/
theorem Runs.ofNew (hc : Runs (w.1.size ≤ ·) c w P) : Runs Nothing c w P :=
  hc.mono (fun _ hlt hle => absurd hlt (Nat.not_lt.mpr hle)) fun _ _ => id

theorem Runs.bind (hc : Runs D₁ c w P) (hD : ∀ h < w.1.size, D₁ h → D h)
    (hf : ∀ b w', Kept D₁ w.1 w'.1 → P b w' → Runs D (f b) w' Q) : Runs D (c >>= f) w Q := by
  obtain ⟨b, w', hrun, hkept, hb⟩ := hc
  obtain ⟨x, w'', hrun', hkept', hx⟩ := hf b w' hkept hb
  refine ⟨x, w'', ?_, (hkept.mono hD).trans hkept', hx⟩
  show (c w).bind _ = _
  rw [hrun]
  exact hrun'

theorem runs_pure (hb : P b w) : Runs D (pure b) w P := ⟨b, w, rfl, .refl D w.1, hb⟩

theorem runs_alloc (a : α) (w : Blocks α × σ) :
    Runs Nothing (alloc a) w fun h w' => h = w.1.size ∧ w'.1.read h = some a ∧ w'.2 = w.2 :=
  ⟨_, _, rfl, kept_alloc _ _ _, rfl, read_alloc _ _, rfl⟩

theorem runs_read (hr : w.1.read h = some a) :
    Runs Nothing (read h) w fun a' w' => a' = a ∧ w' = w := by
  refine ⟨a, w, ?_, .refl _ _, rfl, rfl⟩
  rw [read, hr]
  rfl

theorem runs_write (hr : w.1.read h = some a) (a' : α) :
    Runs (· = h) (write h a') w fun _ w' => w'.1.read h = some a' ∧ w'.2 = w.2 := by
  refine ⟨(), (⟨w.1.cells.set h (a', true)⟩, w.2), ?_, kept_set, read_set_alive hr, rfl⟩
  rw [write, write_of_read hr]
  rfl

theorem runs_free (hr : w.1.read h = some a) :
    Runs (· = h) (free h) w fun _ w' => w'.1.read h = none ∧ w'.2 = w.2 := by
  refine ⟨(), (⟨w.1.cells.set h (a, false)⟩, w.2), ?_, kept_set, read_set_dead hr, rfl⟩
  rw [free, free_of_read hr]
  rfl

theorem runs_lift (c : StateM σ β) (w : Blocks α × σ) :
    Runs Nothing (lift c) w fun b w' => b = (c w.2).1 ∧ w'.2 = (c w.2).2 :=
  ⟨_, _, rfl, .refl _ _, rfl, rfl⟩

end

end BlocksM
