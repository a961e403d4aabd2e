import Libtg.Lib.Cursor

/-!
# Reading through a window

A `Cursor` refuses to read past the end of its buffer. A program that does not compare sizes reads
on: it knows an address and a count of the bytes it takes to be left, which may wrap around, and
the memory answers. `Windowed` runs such a program and keeps the first address behind all it has
read. `Follows c f` says that `f` is `c` without the refusals: where `c` answers, `f` answers the
same and has stayed inside of the buffer, and where `c` refuses, `f` has read past its end.
-/

/-- An address, how many bytes are taken to be left there, and the end of what was read. -/
structure Window where
  pos : Nat
  left : UInt32
  top : Nat

abbrev Windowed (α : Type) := StateM Window α

namespace Windowed

variable {α β : Type}

/-- The next `n` bytes of the memory. -/
def fetch (mem : Nat → UInt8) (n : Nat) : Windowed (List UInt8) := fun w =>
  ((List.range n).map fun k => mem (w.pos + k),
    ⟨w.pos + n, w.left - UInt32.ofNat n, max w.top (w.pos + n)⟩)

/-- Set the count of what is left. -/
def setLeft (n : UInt32) : Windowed Unit := modify fun w => { w with left := n }

/-- All that is taken to be left. -/
def fetchLeft (mem : Nat → UInt8) : Windowed (List UInt8) := do
  let w ← get
  fetch mem w.left.toNat

theorem bind_apply (f : Windowed α) (g : α → Windowed β) (w : Window) :
    (f >>= g) w = g (f w).1 (f w).2 := rfl

/-- The bytes `b` stand at the address of the window, and nothing behind them was read. -/
structure At (mem : Nat → UInt8) (b : List UInt8) (w : Window) : Prop where
  bytes : (List.range b.length).map (fun k => mem (w.pos + k)) = b
  top_le : w.top ≤ w.pos + b.length

/-- `f` is `c` without the refusals. -/
structure Follows (mem : Nat → UInt8) (c : Cursor α) (f : Windowed α) : Prop where
  top_le : ∀ w, w.top ≤ (f w).2.top
  answers : ∀ b w a t, At mem b w → c b = some (a, t) →
    (f w).1 = a ∧ At mem t (f w).2 ∧ (f w).2.pos + t.length = w.pos + b.length
  refuses : ∀ b w, At mem b w → c b = none → w.pos + b.length < (f w).2.top

section
variable {mem : Nat → UInt8} {c : Cursor α} {f : Windowed α} {n : Nat}

theorem Follows.pure (a : α) : Follows mem (pure a) (pure a) where
  top_le _ := le_rfl
  answers b w a' t hat h := by
    cases h
    exact ⟨rfl, hat, rfl⟩
  refuses b w _ h := by cases h

theorem Follows.bind {d : α → Cursor β} {g : α → Windowed β} (hf : Follows mem c f)
    (hg : ∀ a, Follows mem (d a) (g a)) : Follows mem (c >>= d) (f >>= g) where
  top_le w := (hf.top_le w).trans ((hg _).top_le _)
  answers b w a t hat h := by
    rw [Cursor.bind_apply, Option.bind_eq_some_iff] at h
    obtain ⟨⟨x, u⟩, hx, hrest⟩ := h
    obtain ⟨hval, hat', hpos⟩ := hf.answers b w x u hat hx
    obtain ⟨hval', hat'', hpos'⟩ := (hg x).answers u (f w).2 a t hat' hrest
    rw [bind_apply, hval]
    exact ⟨hval', hat'', hpos'.trans hpos⟩
  refuses b w hat h := by
    rw [Cursor.bind_apply, Option.bind_eq_none_iff] at h
    rw [bind_apply]
    cases hx : c b with
    | none => exact (hf.refuses b w hat hx).trans_le ((hg _).top_le _)
    | some xu =>
      obtain ⟨x, u⟩ := xu
      obtain ⟨hval, hat', hpos⟩ := hf.answers b w x u hat hx
      rw [hval, ← hpos]
      exact (hg x).refuses u (f w).2 hat' (h (x, u) hx)

/-- A change of the count alone is not seen by the cursor. -/
theorem Follows.setLeft_bind (k : UInt32) (hf : Follows mem c f) :
    Follows mem c (setLeft k >>= fun _ => f) where
  top_le w := hf.top_le { w with left := k }
  answers b w a t hat h := hf.answers b { w with left := k } a t ⟨hat.bytes, hat.top_le⟩ h
  refuses b w hat h := hf.refuses b { w with left := k } ⟨hat.bytes, hat.top_le⟩ h

theorem follows_fetch (n : Nat) : Follows mem (Cursor.takeBytes n) (fetch mem n) where
  top_le w := le_max_left _ _
  answers b w a t hat h := by
    obtain ⟨hlen, rfl⟩ := Cursor.takeBytes_eq_some.mp h
    have hbytes := hat.bytes
    rw [List.length_append, hlen, List.range_add, List.map_append, List.map_map] at hbytes
    obtain ⟨hfront, hback⟩ := List.append_inj hbytes (by simp [hlen])
    have htop := hat.top_le
    rw [List.length_append, hlen] at htop
    refine ⟨hfront, ⟨?_, ?_⟩, ?_⟩
    · refine (List.map_congr_left fun k _ => ?_).trans hback
      show mem (w.pos + n + k) = mem (w.pos + (n + k))
      rw [Nat.add_assoc]
    · exact max_le (by show w.top ≤ w.pos + n + t.length; omega) (Nat.le_add_right _ _)
    · show w.pos + n + t.length = w.pos + (a ++ t).length
      rw [List.length_append, hlen, Nat.add_assoc]
  refuses b w hat h := by
    rw [Cursor.takeBytes] at h
    split_ifs at h with hn
    exact lt_of_lt_of_le (show w.pos + b.length < w.pos + n by omega) (le_max_right _ _)

/-- The count that was set is what is fetched. -/
theorem follows_fetchLeft (k : UInt32) :
    Follows mem (Cursor.takeBytes k.toNat) (setLeft k >>= fun _ => fetchLeft mem) :=
  .setLeft_bind k (f := fetch mem k.toNat) (follows_fetch k.toNat)

end

end Windowed
