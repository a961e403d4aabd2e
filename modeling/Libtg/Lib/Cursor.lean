import Mathlib.Tactic

/-!
# A cursor over a byte string

`Cursor α` reads an `α` from the front of a byte string and leaves the rest. Reading past the end
is the error value `none`, so a program written over `Cursor` that never answers `none` stays inside
its buffer.

`Consumes c p P` is the partial-correctness triple of the setting: on every buffer that starts with
`p`, `c` reads exactly `p` and its answer satisfies `P`, whatever follows. `Shortens c` says that
`c` never moves the cursor back, and `AgreeTo k c c'` that two cursors cannot be told apart on
buffers of at most `k` bytes; the two together justify a recursion bounded by the length of the
buffer.
-/

abbrev Cursor (α : Type) := StateT (List UInt8) Option α

namespace Cursor

variable {α β : Type}

/-- The next `n` bytes, without moving. -/
def peek (n : Nat) : Cursor (List UInt8) := fun b =>
  if n ≤ b.length then some (b.take n, b) else none

/-- The next `n` bytes. -/
def takeBytes (n : Nat) : Cursor (List UInt8) := fun b =>
  if n ≤ b.length then some (b.take n, b.drop n) else none

/-- Move over `n` bytes. -/
def skip (n : Nat) : Cursor Unit := fun b =>
  if n ≤ b.length then some ((), b.drop n) else none

/-- What is left of the buffer, without moving. -/
def remaining : Cursor (List UInt8) := fun b => some (b, b)

/-- Read past the end. -/
def overrun : Cursor α := fun _ => none

/-- `n` reads in a row. -/
def times (c : Cursor α) : Nat → Cursor (List α)
  | 0 => pure []
  | n + 1 => do
    let x ← c
    let xs ← times c n
    return x :: xs

theorem bind_apply (c : Cursor α) (f : α → Cursor β) (b : List UInt8) :
    (c >>= f) b = (c b).bind fun z => f z.1 z.2 := rfl

theorem pure_apply (a : α) (b : List UInt8) : (pure a : Cursor α) b = some (a, b) := rfl

/-! ## One run -/

section
variable {n : Nat} {c : Cursor α} {x : α} {b t u : List UInt8}

theorem takeBytes_eq_some {y : List UInt8} :
    takeBytes n b = some (y, t) ↔ y.length = n ∧ b = y ++ t := by
  rw [takeBytes]
  constructor
  · intro h
    split_ifs at h with hn
    cases h
    exact ⟨List.length_take_of_le hn, (List.take_append_drop n b).symm⟩
  · rintro ⟨rfl, rfl⟩
    rw [if_pos (by simp), List.take_left, List.drop_left]

theorem skip_eq_some {v : Unit} :
    skip n b = some (v, t) ↔ ∃ p, p.length = n ∧ b = p ++ t := by
  rw [skip]
  constructor
  · intro h
    split_ifs at h with hn
    cases h
    exact ⟨b.take n, List.length_take_of_le hn, (List.take_append_drop n b).symm⟩
  · rintro ⟨p, rfl, rfl⟩
    rw [if_pos (by simp), List.drop_left]

theorem bind_of_some {f : α → Cursor β} (h : c b = some (x, u)) : (c >>= f) b = f x u := by
  rw [bind_apply, h]
  rfl

theorem map_of_some (f : α → β) (h : c b = some (x, t)) :
    (f <$> c) b = some (f x, t) := by
  rw [map_eq_pure_bind, bind_of_some h]
  rfl

theorem map_eq_some {f : α → β} {y : β}
    (h : (f <$> c) b = some (y, t)) : ∃ a, c b = some (a, t) ∧ f a = y := by
  rw [map_eq_pure_bind, bind_apply, Option.bind_eq_some_iff] at h
  obtain ⟨⟨a, u⟩, hc, h⟩ := h
  cases h
  exact ⟨a, hc, rfl⟩

theorem times_map_of_some {xs : List α} (f : α → β)
    (h : c.times n b = some (xs, t)) : (f <$> c).times n b = some (xs.map f, t) := by
  induction n generalizing b xs with
  | zero =>
    cases h
    rfl
  | succ n ih =>
    rw [times, bind_apply, Option.bind_eq_some_iff] at h
    obtain ⟨⟨x, u⟩, hx, h⟩ := h
    obtain ⟨ys, hys, rfl⟩ := map_eq_some h
    rw [times, bind_of_some (map_of_some f hx), bind_of_some (ih hys)]
    rfl

end

/-! ## What a cursor consumes -/

/-- On every buffer that starts with `p`, `c` reads exactly `p` and answers some `a` with `P a`. -/
def Consumes (c : Cursor α) (p : List UInt8) (P : α → Prop) : Prop :=
  ∀ t, ∃ a, c (p ++ t) = some (a, t) ∧ P a

namespace Consumes

variable {c : Cursor α} {f : α → Cursor β} {p q : List UInt8} {P P' : α → Prop} {Q : β → Prop}

theorem pure {a : α} (h : P a) : Consumes (pure a) [] P :=
  fun _ => ⟨a, rfl, h⟩

theorem mono (h : Consumes c p P) (himp : ∀ a, P a → P' a) : Consumes c p P' := by
  intro t
  obtain ⟨a, hc, ha⟩ := h t
  exact ⟨a, hc, himp a ha⟩

theorem eq {x : α} (h : Consumes c p (· = x)) (t : List UInt8) : c (p ++ t) = some (x, t) := by
  obtain ⟨a, hc, rfl⟩ := h t
  exact hc

theorem bind (h : Consumes c p P) (hf : ∀ a, P a → Consumes (f a) q Q) :
    Consumes (c >>= f) (p ++ q) Q := by
  intro t
  obtain ⟨a, hc, ha⟩ := h (q ++ t)
  obtain ⟨b, hb, hQ⟩ := hf a ha t
  refine ⟨b, ?_, hQ⟩
  rw [bind_apply, List.append_assoc, hc]
  exact hb

theorem bind_eq {x : α} (h : Consumes c p (· = x)) (hf : Consumes (f x) q Q) :
    Consumes (c >>= f) (p ++ q) Q :=
  h.bind fun a ha => by rw [ha]; exact hf

/-- A read after which only a pure answer follows. -/
theorem map {g : α → β} (h : Consumes c p P) (hg : ∀ a, P a → Q (g a)) :
    Consumes (c >>= fun a => Pure.pure (g a)) p Q := by
  have := h.bind (f := fun a => Pure.pure (g a)) (q := []) fun a ha => Consumes.pure (hg a ha)
  rwa [List.append_nil] at this

theorem takeBytes (p : List UInt8) : Consumes (takeBytes p.length) p (· = p) := by
  intro t
  refine ⟨p, ?_, rfl⟩
  simp [Cursor.takeBytes]

theorem takeBytes_of_length {n : Nat} (h : p.length = n) :
    Consumes (Cursor.takeBytes n) p (· = p) :=
  h ▸ takeBytes p

theorem skip_of_length {n : Nat} (h : p.length = n) : Consumes (skip n) p fun _ => True := by
  intro t
  exact ⟨(), by simp [skip, ← h], trivial⟩

/-- Looking ahead inside what is consumed afterwards. -/
theorem peek_bind {n : Nat} {f : List UInt8 → Cursor β} (hn : n ≤ p.length)
    (hf : Consumes (f (p.take n)) p Q) : Consumes (peek n >>= f) p Q := by
  intro t
  have hlen : n ≤ (p ++ t).length := by
    rw [List.length_append]
    omega
  have hpeek : peek n (p ++ t) = some (p.take n, p ++ t) := by
    rw [peek, if_pos hlen, List.take_append_of_le_length hn]
  obtain ⟨b, hb, hQ⟩ := hf t
  exact ⟨b, by rw [bind_apply, hpeek]; exact hb, hQ⟩

theorem fmap_iff {g : α → β} : Consumes (g <$> c) p Q ↔ Consumes c p fun a => Q (g a) := by
  constructor
  · intro h t
    obtain ⟨b, hb, hQ⟩ := h t
    change (c (p ++ t)).bind (fun z => some (g z.1, z.2)) = some (b, t) at hb
    simp only [Option.bind_eq_some_iff, Option.some.injEq, Prod.mk.injEq] at hb
    obtain ⟨⟨a, u⟩, hc, rfl, rfl⟩ := hb
    exact ⟨a, hc, hQ⟩
  · intro h
    rw [map_eq_pure_bind]
    exact h.map fun _ ha => ha

/-- A copy of what is left, where the answer does not depend on it. -/
theorem remaining_bind {f : List UInt8 → Cursor β} (hf : ∀ b, Consumes (f b) p Q) :
    Consumes (remaining >>= f) p Q := fun t => hf (p ++ t) t

end Consumes

/-! ## Recursion bounded by the buffer -/

/-- Where `c` answers it has moved the cursor over at least `n` bytes. -/
def Shortens (n : Nat) (c : Cursor α) : Prop :=
  ∀ b a t, c b = some (a, t) → t.length + n ≤ b.length

/-- `c` and `c'` do the same on every buffer of at most `k` bytes. -/
def AgreeTo (k : Nat) (c c' : Cursor α) : Prop :=
  ∀ b, b.length ≤ k → c b = c' b

theorem Shortens.pure (a : α) : Shortens 0 (pure a) := by
  intro b a' t h
  rw [pure_apply, Option.some.injEq, Prod.mk.injEq] at h
  rw [h.2, Nat.add_zero]

theorem Shortens.overrun : Shortens 0 (overrun : Cursor α) := by
  intro b a t h
  cases h

theorem Shortens.weaken {n : Nat} {c : Cursor α} (h : Shortens n c) : Shortens 0 c :=
  fun b a t hc => (Nat.le_add_right _ n).trans (h b a t hc)

theorem Shortens.bind {n : Nat} {c : Cursor α} {f : α → Cursor β} (hc : Shortens n c)
    (hf : ∀ a, Shortens 0 (f a)) : Shortens n (c >>= f) := by
  intro b y t h
  rw [bind_apply, Option.bind_eq_some_iff] at h
  obtain ⟨⟨a, u⟩, hcb, hfa⟩ := h
  have := hf a u y t hfa
  have := hc b a u hcb
  omega

theorem Shortens.map {n : Nat} {c : Cursor α} (hc : Shortens n c) (g : α → β) :
    Shortens n (g <$> c) := by
  rw [map_eq_pure_bind]
  exact hc.bind fun a => Shortens.pure (g a)

theorem shortens_takeBytes (n : Nat) : Shortens n (takeBytes n) := by
  intro b a t h
  simp only [takeBytes] at h
  split at h
  · cases h
    rw [List.length_drop]
    omega
  · cases h

theorem shortens_skip (n : Nat) : Shortens n (skip n) := by
  intro b a t h
  simp only [skip] at h
  split at h
  · cases h
    rw [List.length_drop]
    omega
  · cases h

theorem shortens_peek (n : Nat) : Shortens 0 (peek n) := by
  intro b a t h
  simp only [peek] at h
  split at h
  · cases h
    exact le_refl _
  · cases h

theorem shortens_remaining : Shortens 0 remaining := by
  intro b a t h
  cases h
  exact le_refl _

theorem Shortens.times {c : Cursor α} (hc : Shortens 0 c) (n : Nat) : Shortens 0 (c.times n) := by
  induction n with
  | zero => exact Shortens.pure _
  | succ n ih => exact hc.bind fun x => ih.bind fun xs => Shortens.pure _

theorem AgreeTo.refl (k : Nat) (c : Cursor α) : AgreeTo k c c := fun _ _ => rfl

theorem AgreeTo.mono {k k' : Nat} {c c' : Cursor α} (h : AgreeTo k c c') (hk : k' ≤ k) :
    AgreeTo k' c c' := fun b hb => h b (hb.trans hk)

theorem AgreeTo.bind {k : Nat} {c c' : Cursor α} {f f' : α → Cursor β} (hc : AgreeTo k c c')
    (hs : Shortens 0 c) (hf : ∀ a, AgreeTo k (f a) (f' a)) : AgreeTo k (c >>= f) (c' >>= f') := by
  intro b hb
  rw [bind_apply, bind_apply, ← hc b hb]
  cases h : c b with
  | none => rfl
  | some z => exact hf z.1 z.2 (le_trans (hs b z.1 z.2 h) hb)

/-- After `n` bytes were read only buffers of `k` bytes are left to agree on. -/
theorem AgreeTo.bind_right {k n : Nat} {c : Cursor α} {f f' : α → Cursor β} (hs : Shortens n c)
    (hf : ∀ a, AgreeTo k (f a) (f' a)) : AgreeTo (k + n) (c >>= f) (c >>= f') := by
  intro b hb
  rw [bind_apply, bind_apply]
  cases h : c b with
  | none => rfl
  | some z =>
    have := hs b z.1 z.2 h
    exact hf z.1 z.2 (by omega)

theorem AgreeTo.map {k : Nat} {c c' : Cursor α} (hc : AgreeTo k c c') (g : α → β) :
    AgreeTo k (g <$> c) (g <$> c') := by
  intro b hb
  change (c b).bind _ = (c' b).bind _
  rw [hc b hb]

theorem AgreeTo.times {k : Nat} {c c' : Cursor α} (hc : AgreeTo k c c') (hs : Shortens 0 c)
    (n : Nat) : AgreeTo k (c.times n) (c'.times n) := by
  induction n with
  | zero => exact AgreeTo.refl k _
  | succ n ih =>
    exact hc.bind hs fun x => ih.bind (hs.times n) fun xs => AgreeTo.refl k _

/-! ## What the answers satisfy -/

/-- On buffers of at most `n` bytes every answer of `c` satisfies `P`. -/
def Gives (n : Nat) (c : Cursor α) (P : α → Prop) : Prop :=
  ∀ b a t, b.length ≤ n → c b = some (a, t) → P a

variable {n k : Nat} {c : Cursor α} {f : α → Cursor β} {P : α → Prop} {Q : β → Prop}

theorem Gives.of_all (h : ∀ a, P a) : Gives n c P := fun _ a _ _ _ => h a

theorem Gives.pure {a : α} (h : P a) : Gives n (pure a : Cursor α) P := by
  intro b a' t _ h'
  rw [pure_apply, Option.some.injEq, Prod.mk.injEq] at h'
  exact h'.1 ▸ h

theorem Gives.overrun : Gives n (overrun : Cursor α) P := nofun

theorem Gives.bind (hs : Shortens k c) (hc : Gives n c P)
    (hf : ∀ a, P a → Gives (n - k) (f a) Q) : Gives n (c >>= f) Q := by
  intro b y t hb h
  rw [bind_apply, Option.bind_eq_some_iff] at h
  obtain ⟨⟨a, u⟩, hcb, hfa⟩ := h
  have hu := hs b a u hcb
  exact hf a (hc b a u hb hcb) u y t (by omega) hfa

theorem Gives.map {g : α → β} (hc : Gives n c fun a => Q (g a)) : Gives n (g <$> c) Q := by
  intro b y t hb h
  change (c b).bind (fun z => some (g z.1, z.2)) = some (y, t) at h
  simp only [Option.bind_eq_some_iff, Option.some.injEq, Prod.mk.injEq] at h
  obtain ⟨⟨a, u⟩, hcb, rfl, -⟩ := h
  exact hc b a u hb hcb

theorem Gives.times (hs : Shortens 0 c) (hc : Gives n c P) (k : Nat) :
    Gives n (c.times k) fun xs => ∀ x ∈ xs, P x := by
  induction k with
  | zero => exact Gives.pure (by simp)
  | succ k ih =>
    refine Gives.bind hs hc fun x hx => Gives.bind (hs.times k) ih fun xs hxs => ?_
    exact Gives.pure (List.forall_mem_cons.mpr ⟨hx, hxs⟩)

theorem gives_takeBytes (k : Nat) : Gives n (takeBytes k) fun bytes => bytes.length ≤ n := by
  intro b a t hb h
  simp only [takeBytes] at h
  split at h
  · cases h
    rw [List.length_take]
    omega
  · cases h

end Cursor
