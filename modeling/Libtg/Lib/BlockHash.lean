import Libtg.Lib.Loop

/-!
# Hashing block by block

A hash of the Merkle–Damgård kind: a message is padded to whole blocks of `n` items, and a state is
compressed with each of them. `digest` is the state after the whole blocks of a message. `Stream` is
the same one item at a time: a state and the items of a block that is not full yet. However the
message is cut up, feeding it is digesting it (`Feeds.foldl`), and the padding that ends a block is
found by feeding zeros until the block is full up to the length field (`Feeds.run_untilRoom`).
-/

namespace BlockHash

universe u v

variable {σ : Type u} {β : Type v} (compress : σ → List β → σ) (n : Nat)

/-- The state after the first `k` blocks of `l`. -/
def absorb : Nat → σ → List β → σ
  | 0, s, _ => s
  | k + 1, s, l => absorb k (compress s (l.take n)) (l.drop n)

/-- The state after the whole blocks of `l`. -/
def digest (s : σ) (l : List β) : σ := absorb compress n (l.length / n) s l

variable {compress n} {s : σ} {l m : List β}

theorem digest_of_lt (h : l.length < n) : digest compress n s l = s := by
  rw [digest, Nat.div_eq_of_lt h, absorb]

theorem digest_block (hn : 0 < n) (hl : l.length = n) :
    digest compress n s (l ++ m) = digest compress n (compress s l) m := by
  have hblocks : (l ++ m).length / n = m.length / n + 1 := by
    rw [List.length_append, hl, Nat.add_comm, Nat.add_div_right _ hn]
  rw [digest, hblocks, absorb, List.take_left' hl, List.drop_left' hl, digest]

/-- Whole blocks first, and then the rest. -/
theorem digest_append {k : Nat} (hn : 0 < n) (hl : l.length = n * k) :
    digest compress n s (l ++ m) = digest compress n (digest compress n s l) m := by
  induction k generalizing s l with
  | zero =>
    rw [List.length_eq_zero_iff.mp (hl.trans (Nat.mul_zero n)), List.nil_append,
      digest_of_lt (l := []) hn]
  | succ k ih =>
    have hn' : n ≤ l.length := by
      rw [hl, Nat.mul_succ]
      exact Nat.le_add_left _ _
    have hfirst : (l.take n).length = n := List.length_take_of_le hn'
    have hrest : (l.drop n).length = n * k := by
      rw [List.length_drop, hl, Nat.mul_succ, Nat.add_sub_cancel]
    rw [← List.take_append_drop n l, List.append_assoc, digest_block hn hfirst, ih hrest,
      digest_block hn hfirst]

/-- What every compression keeps, the digest keeps. -/
theorem digest_invariant {P : σ → Prop} (hs : P s) (hcompress : ∀ s l, P s → P (compress s l)) :
    P (digest compress n s l) := by
  rw [digest]
  induction l.length / n generalizing s l with
  | zero => exact hs
  | succ k ih => exact ih (hcompress s _ hs)

/-! ### One item at a time -/

/-- A state, and the items of the block that is being filled. -/
@[ext] structure Stream (σ : Type u) (β : Type v) where
  state : σ
  pending : List β

/-- One more item, and the compression of the block it makes full. -/
def Stream.feed (compress : σ → List β → σ) (n : Nat) (x : Stream σ β) (b : β) : Stream σ β :=
  if (x.pending ++ [b]).length = n then ⟨compress x.state (x.pending ++ [b]), []⟩
  else ⟨x.state, x.pending ++ [b]⟩

/-- The message `l` has been fed from the state `s` on. -/
def Fed (compress : σ → List β → σ) (n : Nat) (s : σ) (l : List β) (x : Stream σ β) : Prop :=
  ∃ k blocks, l = blocks ++ x.pending ∧ blocks.length = n * k ∧ x.pending.length < n ∧
    x.state = digest compress n s blocks

theorem Fed.start (hn : 0 < n) : Fed compress n s [] ⟨s, []⟩ :=
  ⟨0, [], rfl, rfl, hn, (digest_of_lt hn).symm⟩

variable {x : Stream σ β} {b : β}

theorem Fed.feed (hn : 0 < n) (h : Fed compress n s l x) :
    Fed compress n s (l ++ [b]) (x.feed compress n b) := by
  obtain ⟨k, blocks, rfl, hblocks, hlt, hstate⟩ := h
  rw [Stream.feed, List.append_assoc]
  split_ifs with hfull
  · refine ⟨k + 1, blocks ++ (x.pending ++ [b]), (List.append_nil _).symm, ?_, hn, ?_⟩
    · rw [List.length_append, hblocks, hfull, Nat.mul_succ]
    · have hone : digest compress n x.state (x.pending ++ [b]) =
          compress x.state (x.pending ++ [b]) := by
        rw [← List.append_nil (x.pending ++ [b]), digest_block hn hfull, digest_of_lt (l := []) hn,
          List.append_nil]
      rw [digest_append hn hblocks, ← hstate, hone]
  · refine ⟨k, blocks, rfl, hblocks, ?_, hstate⟩
    rw [List.length_append, List.length_singleton] at hfull
    rw [List.length_append, List.length_singleton]
    omega

theorem Fed.length_pending (h : Fed compress n s l x) : x.pending.length = l.length % n := by
  obtain ⟨k, blocks, rfl, hblocks, hlt, -⟩ := h
  rw [List.length_append, hblocks, Nat.mul_add_mod, Nat.mod_eq_of_lt hlt]

/-- Where the last block is full, the state is the digest of the message. -/
theorem Fed.state_eq (h : Fed compress n s l x) (hl : l.length % n = 0) :
    x.state = digest compress n s l := by
  have hpending := List.length_eq_zero_iff.mp (h.length_pending.trans hl)
  obtain ⟨k, blocks, rfl, hblocks, hlt, hstate⟩ := h
  rw [hstate, hpending, List.append_nil]

/-! ### Padding -/

/-- How many items fill a block of `n` up to its last `n - room` ones, after `len` items. -/
def zeros (n room len : Nat) : Nat := (n + room - len % n) % n

theorem zeros_lt {room len : Nat} (hn : 0 < n) : zeros n room len < n := Nat.mod_lt _ hn

theorem add_zeros_mod {room : Nat} (len : Nat) (hroom : room < n) :
    (len + zeros n room len) % n = room := by
  have hlt := Nat.mod_lt len (Nat.zero_lt_of_lt hroom)
  rw [zeros, Nat.add_mod_mod, ← Nat.mod_add_mod, ← Nat.add_sub_assoc (by omega),
    Nat.add_sub_cancel_left, Nat.add_mod_left, Nat.mod_eq_of_lt hroom]

theorem zeros_eq_zero {room len : Nat} (h : len % n = room) : zeros n room len = 0 := by
  rw [zeros, h, Nat.add_sub_cancel, Nat.mod_self]

theorem zeros_succ {room len : Nat} (hroom : room < n) (h : len % n ≠ room) :
    zeros n room len = zeros n room (len + 1) + 1 := by
  have hsmall {a : Nat} (ha : a < n) : (a + n) % n = a := by
    rw [Nat.add_mod_right, Nat.mod_eq_of_lt ha]
  have hnext : (len + 1) % n = (len % n + 1) % n := (Nat.mod_add_mod len n 1).symm
  rw [zeros, zeros, hnext]
  have hlt := Nat.mod_lt len (Nat.zero_lt_of_lt hroom)
  generalize len % n = r at h hlt ⊢
  rcases Nat.lt_or_ge (r + 1) n with hin | hout
  · rw [Nat.mod_eq_of_lt hin]
    rcases Nat.lt_or_ge r room with hlow | hhigh
    · rw [show n + room - r = room - r + n by omega, hsmall (by omega),
        show n + room - (r + 1) = room - (r + 1) + n by omega, hsmall (by omega)]
      omega
    · have hr : n + room - r < n := by omega
      have hr' : n + room - (r + 1) < n := by omega
      rw [Nat.mod_eq_of_lt hr, Nat.mod_eq_of_lt hr']
      omega
  · have hr : n + room - r < n := by omega
    rw [show r + 1 = n by omega, Nat.mod_self, Nat.sub_zero, Nat.add_comm n room, hsmall hroom,
      Nat.add_comm room n, Nat.mod_eq_of_lt hr]
    omega

/-- A machine whose good states are read as streams, and that takes one item at a time. -/
def Feeds {τ : Type*} (compress : σ → List β → σ) (n : Nat) (put : τ → β → τ)
    (read : τ → Stream σ β) (good : τ → Prop) : Prop :=
  ∀ t b, good t → good (put t b) ∧ read (put t b) = (read t).feed compress n b

section
variable {τ : Type*} {put : τ → β → τ} {read : τ → Stream σ β} {good : τ → Prop} {t : τ}

theorem Feeds.fed (hput : Feeds compress n put read good) (hn : 0 < n) (hgood : good t)
    (h : Fed compress n s l (read t)) (b : β) :
    good (put t b) ∧ Fed compress n s (l ++ [b]) (read (put t b)) := by
  obtain ⟨hgood', hread⟩ := hput t b hgood
  exact ⟨hgood', hread ▸ h.feed hn⟩

theorem Feeds.foldl (hput : Feeds compress n put read good) (hn : 0 < n) (hgood : good t)
    (h : Fed compress n s l (read t)) (m : List β) :
    good (m.foldl put t) ∧ Fed compress n s (l ++ m) (read (m.foldl put t)) := by
  induction m generalizing l t with
  | nil =>
    rw [List.append_nil]
    exact ⟨hgood, h⟩
  | cons b m ih =>
    obtain ⟨hgood', h'⟩ := hput.fed hn hgood h b
    rw [List.append_cons]
    exact ih hgood' h'

/-- The loop that feeds `z` until the block is full up to `room`. -/
theorem Feeds.run_untilRoom (hput : Feeds compress n put read good) {step : τ → τ ⊕ τ}
    (room : Nat) {fuel : Nat} {z : β} (hroom : room < n) (hfuel : n ≤ fuel)
    (hstep : ∀ t, good t →
      step t = if (read t).pending.length = room then .inl t else .inr (put t z))
    (hgood : good t) (h : Fed compress n s l (read t)) :
    ∃ t', Loop.run step fuel t = some t' ∧ good t' ∧
      Fed compress n s (l ++ List.replicate (zeros n room l.length) z) (read t') := by
  have hn : 0 < n := Nat.zero_lt_of_lt hroom
  have hlt : zeros n room l.length < fuel := Nat.lt_of_lt_of_le (zeros_lt hn) hfuel
  clear hfuel
  induction hk : zeros n room l.length generalizing fuel t l with
  | zero =>
    obtain ⟨fuel, rfl⟩ := Nat.exists_eq_succ_of_ne_zero (Nat.pos_iff_ne_zero.mp (hk ▸ hlt))
    have hfull : l.length % n = room := by
      have hmod : (l.length + zeros n room l.length) % n = room :=
        add_zeros_mod l.length hroom
      rwa [hk] at hmod
    refine ⟨t, ?_, hgood, ?_⟩
    · rw [Loop.run, hstep t hgood, if_pos (h.length_pending.trans hfull)]
    · rw [List.replicate_zero, List.append_nil]
      exact h
  | succ k ih =>
    obtain ⟨fuel, rfl⟩ := Nat.exists_eq_succ_of_ne_zero (by omega : fuel ≠ 0)
    have hopen : l.length % n ≠ room := fun hfull => by
      rw [zeros_eq_zero hfull] at hk
      cases hk
    have hless : zeros n room (l ++ [z]).length = k := by
      rw [List.length_append, List.length_singleton]
      have hsucc := zeros_succ hroom hopen
      omega
    obtain ⟨hgood', hfed⟩ := hput.fed hn hgood h z
    have hfuel : zeros n room (l ++ [z]).length < fuel := by omega
    obtain ⟨t', hrun, hgood'', hfed'⟩ := ih hgood' hfed hfuel hless
    refine ⟨t', ?_, hgood'', ?_⟩
    · rw [Loop.run, hstep t hgood,
        if_neg fun hfull => hopen (h.length_pending.symm.trans hfull)]
      exact hrun
    · rw [List.append_assoc] at hfed'
      exact hfed'

end

end BlockHash
