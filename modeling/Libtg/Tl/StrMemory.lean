import Mathlib.Data.List.TakeWhile
import Libtg.Tl.BufMemory

/-!
# Strings that grow (`tl/str.h`)

A `struct str` is a block of `size` bytes with a text of `len` bytes and its NUL. The block is never
written to behind its end, which would be a fault, and neither is the end of an `int` passed: that
is what `strLimit` is for.
-/

namespace Libtg.Memory

open Cells Blocks BlocksM

/-- `struct str`. -/
structure Str where
  str : Nat
  len : Nat
  size : Nat

section
variable {σ : Type} (mv : Moves)

/-- `str_init`. -/
def strInit : MemM σ Str := do
  let str ← malloc BUFSIZ
  store str 0 0
  return ⟨str, 0, BUFSIZ⟩

/-- `_str_realloc`. The sum of two `int`s that is not one is a fault. -/
def strRealloc (s : Str) (newSize : Nat) : MemM σ Str :=
  if s.size < newSize then
    if s.size + BUFSIZ < 2 ^ 31 then do
      let p ← realloc mv s.str (s.size + BUFSIZ)
      strRealloc { s with str := p, size := s.size + BUFSIZ } newSize
    else fault
  else return s
termination_by newSize - s.size
decreasing_by
  unfold BUFSIZ
  omega

/-- `str_append`, where `str` is `NULL` or a place in a block. -/
def strAppend (s : Str) (str : Option (Nat × Nat)) (len : Int) : MemM σ Str :=
  match str with
  | none => return s
  | some (q, j) =>
    if len < 1 then return s
    else
      let newSize := s.len + len.toNat + 1
      if newSize < 2 ^ 31 then do
        let s ← strRealloc mv s newSize
        copy s.str s.len q j len.toNat
        let s := { s with len := s.len + len.toNat }
        store s.str s.len 0
        return s
      else fault

/-- The length of the text before the first NUL. -/
def lengthToNul : List (Option UInt8) → Option Nat
  | some c :: l => if c = 0 then some 0 else (lengthToNul l).map (· + 1)
  | _ => none

/-- `strlen`. -/
def strlen (p : Nat) : MemM σ Nat := do
  let l ← read p
  match lengthToNul l with
  | some n => return n
  | none => fault

/-- `snprintf`, where `out` is all that the format makes. -/
def snprintf (p n : Nat) (out : Bytes) : MemM σ Unit := stores p 0 (out.take (n - 1) ++ [0])

/-- `str_appendf`. -/
def strAppendf (s : Str) (out : Bytes) : MemM σ Str := do
  let str ← malloc BUFSIZ
  snprintf str (BUFSIZ - 1) out
  store str (BUFSIZ - 1) 0
  let len ← strlen str
  let s ← strAppend mv s (some (str, 0)) len
  free str
  return s

end

/-- The text that `str_appendf` appends. -/
def piece (out : Bytes) : Bytes := (out.take (BUFSIZ - 2)).takeWhile (· ≠ 0)

/-- The size of the block of a text of this length: full steps of `BUFSIZ`. -/
def strSize (len : Nat) : Nat := (len / BUFSIZ + 1) * BUFSIZ

/-- A text has to be shorter for the size of its block to be an `int`. -/
def strLimit : Nat := 2 ^ 31 - BUFSIZ

theorem strSize_lt_iff (n : Nat) : strSize n < 2 ^ 31 ↔ n < strLimit := by
  unfold strSize strLimit BUFSIZ
  omega

theorem lt_strSize (n : Nat) : n < strSize n := by
  unfold strSize BUFSIZ
  omega

theorem strSize_mono {m n : Nat} (h : m ≤ n) : strSize m ≤ strSize n :=
  Nat.mul_le_mul_right _ (Nat.succ_le_succ (Nat.div_le_div_right h))

theorem strSize_step {k n : Nat} (h : k * BUFSIZ ≤ n) : (k + 1) * BUFSIZ ≤ strSize n :=
  Nat.mul_le_mul_right _ (Nat.succ_le_succ ((Nat.le_div_iff_mul_le (by decide)).mpr h))

/-! ## What a string holds -/

/-- The block of `m` bytes holds `x`, a NUL and anything else. -/
structure Builds (s : Mem) (b : Str) (x : Bytes) (m : Nat) : Prop where
  len : b.len = x.length
  size : b.size = m
  cells : ∃ rest, s.read b.str = some (x.map some ++ some 0 :: rest) ∧
    m = x.length + (rest.length + 1)

section
variable {s t : Mem} {D : Nat → Prop} {b : Str} {x y : Bytes} {n m k q j : Nat} {σ : Type}
  {mv : Moves} {w : Mem × σ}

theorem Builds.kept (h : Builds s b x m) (hk : Kept D s t) (hD : ¬ D b.str) : Builds t b x m := by
  obtain ⟨rest, hread, hsize⟩ := h.cells
  exact ⟨h.len, h.size, rest, hk.read hread hD, hsize⟩

theorem Builds.lt_size (h : Builds s b x m) : b.str < s.size := by
  obtain ⟨rest, hread, -⟩ := h.cells
  exact lt_size_of_read hread

theorem Builds.length_lt (h : Builds s b x m) : x.length < m := by
  obtain ⟨rest, -, hsize⟩ := h.cells
  omega

theorem Builds.has (h : Builds s b x m) : Has s b.str 0 x := by
  obtain ⟨rest, hread, -⟩ := h.cells
  exact has_of_read_append hread

theorem runs_strInit (w : Mem × σ) : Runs Nothing strInit w fun b w' =>
    Builds w'.1 b [] BUFSIZ ∧ w.1.size ≤ b.str ∧ w'.2 = w.2 := by
  obtain ⟨n, hn⟩ : ∃ n, BUFSIZ = n + 1 := ⟨8191, rfl⟩
  unfold strInit
  rw [hn]
  refine Runs.narrow ?_
  refine (runs_malloc _ w).bind (fun _ _ => False.elim) ?_
  rintro p w₁ - ⟨rfl, hp, hstate⟩
  have hlt : 0 < (List.replicate (n + 1) (none : Option UInt8)).length := by
    rw [List.length_replicate]
    exact Nat.zero_lt_succ n
  refine (runs_store hp hlt 0).bind (fun _ _ hk => .inr hk.ge) ?_
  rintro _ w₂ - ⟨hp₂, hstate₂⟩
  refine runs_pure ⟨⟨rfl, rfl, List.replicate n none, hp₂, ?_⟩, le_rfl, hstate₂.trans hstate⟩
  rw [List.length_replicate, List.length_nil, Nat.zero_add]

/-- The block grows step by step until the text fits. -/
theorem runs_strRealloc (h : Builds w.1 b x (k * BUFSIZ)) (hle : k * BUFSIZ ≤ strSize n)
    (hn : n < strLimit) :
    Runs (· = b.str) (strRealloc mv b (n + 1)) w fun b' w' =>
      Builds w'.1 b' x (strSize n) ∧ Fresh w.1 b.str b'.str ∧ w'.2 = w.2 ∧
        (n < k * BUFSIZ → b' = b ∧ w' = w) ∧
        (k * BUFSIZ ≤ n → (∀ s p m, mv s p m = true) → w'.1.read b.str = none) := by
  have hpos : 0 < BUFSIZ := by decide
  induction hd : strSize n - k * BUFSIZ using Nat.strong_induction_on generalizing b w k with
  | h d ih =>
    rw [strRealloc, h.size]
    by_cases hlt : k * BUFSIZ < n + 1
    · have hkn : k * BUFSIZ ≤ n := Nat.le_of_lt_succ hlt
      have hstep : (k + 1) * BUFSIZ ≤ strSize n := strSize_step hkn
      have hint := (strSize_lt_iff n).mpr hn
      have hsucc : k * BUFSIZ + BUFSIZ = (k + 1) * BUFSIZ := (Nat.succ_mul k BUFSIZ).symm
      rw [if_pos hlt, hsucc, if_pos (by omega)]
      obtain ⟨rest, hread, hsize⟩ := h.cells
      refine Runs.narrow ?_
      refine (runs_realloc hread ((k + 1) * BUFSIZ)).bind (fun _ _ => .inl) ?_
      rintro p w₁ hk₁ ⟨hp, hstate, hfresh, hmoved⟩
      have hlen : (x.map some ++ some 0 :: rest).length = k * BUFSIZ := by
        rw [List.length_append, List.length_map, List.length_cons, hsize]
      have hb₁ : Builds w₁.1 ⟨p, b.len, (k + 1) * BUFSIZ⟩ x ((k + 1) * BUFSIZ) := by
        refine ⟨h.len, rfl, rest ++ List.replicate BUFSIZ none, ?_, ?_⟩
        · rw [resize_of_le (by omega), hlen, ← hsucc, Nat.add_sub_cancel_left, List.append_assoc,
            List.cons_append] at hp
          exact hp
        · rw [List.length_append, List.length_replicate]
          omega
      refine (ih _ (by omega) hb₁ hstep rfl).kept.mono (fun i _ hi => ?_) ?_
      · rcases hfresh with heq | hnew
        · exact .inl (hi.trans heq)
        · exact .inr (hi ▸ hnew)
      · rintro b' w' ⟨hk', hb', hfresh', hstate', -, -⟩
        refine ⟨hb', ?_, hstate'.trans hstate, fun hgt => absurd hgt (Nat.not_lt.mpr hkn),
          fun _ hall => ?_⟩
        · rcases hfresh' with heq | hnew
          · exact heq ▸ hfresh
          · exact .inr (hk₁.size_le.trans hnew)
        · have hdead := hmoved (hall _ _ _)
          have hne : b.str ≠ p := by
            rintro heq
            rw [heq, hp] at hdead
            cases hdead
          rw [hk'.read_eq (h.lt_size.trans_le hk₁.size_le) hne]
          exact hdead
    · rw [if_neg hlt]
      have hgt : n < k * BUFSIZ := Nat.not_le.mp fun hkn => hlt (Nat.lt_succ_of_le hkn)
      have hsize : k * BUFSIZ = strSize n := by
        refine le_antisymm hle (Nat.mul_le_mul_right _ ?_)
        exact (Nat.div_lt_iff_lt_mul hpos).mpr hgt
      exact runs_pure ⟨hsize ▸ h, .inl rfl, rfl, fun _ => ⟨rfl, rfl⟩,
        fun hkn => absurd hgt (Nat.not_lt.mpr hkn)⟩

/-- The text is elsewhere, or it is a part of the string and the block need not grow. -/
theorem runs_strAppend {len : Int} (h : Builds w.1 b x (strSize x.length)) (hy : Has w.1 q j y)
    (hlen : y.length = len.toNat) (hn : x.length + y.length < strLimit)
    (hapart : q = b.str → j + y.length ≤ x.length ∧ x.length + y.length < strSize x.length) :
    Runs (· = b.str) (strAppend mv b (some (q, j)) len) w fun b' w' =>
      Builds w'.1 b' (x ++ y) (strSize (x ++ y).length) ∧ Fresh w.1 b.str b'.str ∧
        w'.2 = w.2 := by
  unfold strAppend
  dsimp only
  by_cases hempty : len < 1
  · have hnil : y = [] := List.length_eq_zero_iff.mp (by omega)
    rw [if_pos hempty, hnil, List.append_nil]
    exact runs_pure ⟨h, .inl rfl, rfl⟩
  have hint : x.length + y.length + 1 < 2 ^ 31 :=
    (Nat.succ_le_of_lt (lt_strSize _)).trans_lt ((strSize_lt_iff _).mpr hn)
  rw [if_neg hempty, ← hlen, h.len, if_pos hint]
  refine Runs.narrow ?_
  refine (runs_strRealloc h (strSize_mono (Nat.le_add_right ..)) hn).bind (fun _ _ => .inl) ?_
  rintro b₁ w₁ hk₁ ⟨hb₁, hfresh, hstate₁, hsame, -⟩
  have hown : ∀ k, k = b₁.str → k = b.str ∨ w.1.size ≤ k := fun k hk =>
    hfresh.imp hk.trans hk.ge.trans'
  have hy₁ : Has w₁.1 q j y := by
    by_cases hq : q = b.str
    · rw [(hsame (hapart hq).2).2]
      exact hy
    · exact hy.kept hk₁ hq
  have hapart₁ : q = b₁.str → j + y.length ≤ x.length := by
    intro hq
    rcases hfresh with heq | hnew
    · exact (hapart (hq.trans heq)).1
    · obtain ⟨l, hl, -⟩ := hy
      have := lt_size_of_read hl
      omega
  obtain ⟨rest, hread, hsize⟩ := hb₁.cells
  have hlt := lt_strSize (x.length + y.length)
  have hfits : x.length + y.length ≤ (x.map some ++ some (0 : UInt8) :: rest).length := by
    rw [List.length_append, List.length_map, List.length_cons]
    omega
  rw [hb₁.len]
  refine (runs_copy hread hfits hy₁ hapart₁).bind (fun k _ => hown k) ?_
  rintro _ w₂ hk₂ ⟨hread₂, hstate₂⟩
  obtain ⟨c, rest', hrest⟩ : ∃ c rest', (some (0 : UInt8) :: rest).drop y.length = c :: rest' := by
    refine List.exists_cons_of_length_pos ?_
    rw [List.length_drop, List.length_cons]
    omega
  rw [overwrite_append (List.length_map ..), List.length_map, hrest, ← List.map_append] at hread₂
  have hfits₂ : x.length + y.length < ((x ++ y).map some ++ c :: rest').length := by
    rw [List.length_append, List.length_map, List.length_append, List.length_cons]
    omega
  refine (runs_store hread₂ hfits₂ 0).bind (fun k _ => hown k) ?_
  rintro _ w₃ - ⟨hread₃, hstate₃⟩
  have hlast : ((x ++ y).map some ++ c :: rest').set (x.length + y.length) (some 0) =
      (x ++ y).map some ++ some 0 :: rest' := by
    rw [List.set_append_right _ _ (by simp)]
    simp
  rw [hlast] at hread₃
  refine runs_pure ⟨⟨?_, ?_, rest', hread₃, ?_⟩, hfresh, hstate₃.trans (hstate₂.trans hstate₁)⟩
  · rw [List.length_append]
  · rw [List.length_append, hb₁.size]
  · have := congrArg List.length hrest
    rw [List.length_drop, List.length_cons, List.length_cons] at this
    rw [List.length_append]
    omega

/-- Where the block is moved, a part of the string is read after its release. -/
theorem strAppend_own {i : Nat} {len : Int} (h : Builds w.1 b x (strSize x.length))
    (hgrow : strSize x.length ≤ x.length + len.toNat) (hn : x.length + len.toNat < strLimit)
    (hall : ∀ s p m, mv s p m = true) : strAppend mv b (some (b.str, i)) len w = none := by
  have hlt := lt_strSize x.length
  have hint : x.length + len.toNat + 1 < 2 ^ 31 :=
    (Nat.succ_le_of_lt (lt_strSize _)).trans_lt ((strSize_lt_iff _).mpr hn)
  have hruns : Runs _ (strRealloc mv b (x.length + len.toNat + 1)) w _ :=
    runs_strRealloc h (strSize_mono (Nat.le_add_right ..)) hn
  obtain ⟨b₁, w₁, hrun, -, -, -, -, -, hdead⟩ := hruns
  obtain ⟨n, hlen⟩ : ∃ n, len.toNat = n + 1 := Nat.exists_eq_succ_of_ne_zero (by omega)
  unfold strAppend
  dsimp only
  rw [if_neg (by omega), h.len, if_pos hint]
  rw [bind_of_eq_some hrun]
  refine bind_of_eq_none ?_ _
  rw [hlen, copy_dead (hdead hgrow hall)]

/-! ## Formatted texts -/

theorem lengthToNul_append (hy : (0 : UInt8) ∉ y) (l : List (Option UInt8)) :
    lengthToNul (y.map some ++ some 0 :: l) = some y.length := by
  induction y with
  | nil => rfl
  | cons c y ih =>
    have hc : c ≠ 0 := fun hc => hy (hc ▸ List.mem_cons_self)
    rw [List.map_cons, List.cons_append, lengthToNul, if_neg hc,
      ih fun hmem => hy (List.mem_cons_of_mem _ hmem)]
    rfl

/-- A text with its NUL begins with what is before its first NUL. -/
theorem exists_takeWhile (z : Bytes) : ∃ z', z ++ [0] = z.takeWhile (· ≠ 0) ++ 0 :: z' := by
  induction z with
  | nil => exact ⟨[], rfl⟩
  | cons c z ih =>
    obtain ⟨z', hz'⟩ := ih
    by_cases hc : c = 0
    · exact ⟨z ++ [0], by simp [hc]⟩
    · exact ⟨z', by rw [List.takeWhile_cons_of_pos (by simpa using hc), List.cons_append, hz',
        List.cons_append]⟩

theorem zero_notMem_piece (out : Bytes) : (0 : UInt8) ∉ piece out := fun hmem => by
  simpa using List.mem_takeWhile_imp hmem

theorem runs_strlen {p : Nat} {l : List (Option UInt8)}
    (hl : w.1.read p = some (y.map some ++ some 0 :: l)) (hy : (0 : UInt8) ∉ y) :
    Runs Nothing (strlen p) w fun n w' => n = y.length ∧ w' = w := by
  refine (runs_read hl).bind (fun _ _ => id) ?_
  rintro _ _ - ⟨rfl, rfl⟩
  rw [lengthToNul_append hy]
  exact runs_pure ⟨rfl, rfl⟩

/-- The array holds the piece, a NUL and anything else. -/
theorem runs_snprintf {p : Nat} (hp : w.1.read p = some (List.replicate BUFSIZ none))
    (out : Bytes) :
    Runs (· = p) (do snprintf p (BUFSIZ - 1) out; store p (BUFSIZ - 1) 0 : MemM σ Unit) w
      fun _ w' => (∃ l, w'.1.read p = some ((piece out).map some ++ some 0 :: l)) ∧
        w'.2 = w.2 := by
  have hlen : (out.take (BUFSIZ - 1 - 1) ++ [(0 : UInt8)]).length ≤ BUFSIZ - 1 := by
    rw [List.length_append, List.length_take, List.length_singleton]
    have : 1 < BUFSIZ := by decide
    omega
  have hpos : 0 < BUFSIZ := by decide
  obtain ⟨z, hz⟩ := exists_takeWhile (out.take (BUFSIZ - 1 - 1))
  have hfits : 0 + (out.take (BUFSIZ - 1 - 1) ++ [(0 : UInt8)]).length ≤
      (List.replicate BUFSIZ (none : Option UInt8)).length := by
    rw [List.length_replicate]
    omega
  refine (runs_stores hp hfits).bind (fun _ _ => id) ?_
  rintro _ w₁ - ⟨hp₁, hstate₁⟩
  refine (runs_store hp₁ ?_ 0).mono (fun _ _ => id) ?_
  · rw [length_overwrite (by rwa [List.length_map]), List.length_replicate]
    omega
  rintro _ w₂ ⟨hp₂, hstate₂⟩
  rw [overwrite, List.take_zero, List.nil_append,
    List.set_append_right _ _ (by rwa [List.length_map]), hz, List.map_append, List.map_cons,
    List.append_assoc, List.cons_append] at hp₂
  exact ⟨⟨_, hp₂⟩, hstate₂.trans hstate₁⟩

theorem runs_strAppendf (h : Builds w.1 b x (strSize x.length))
    {out : Bytes} (hn : x.length + (piece out).length < strLimit) :
    Runs (· = b.str) (strAppendf mv b out) w fun b' w' =>
      Builds w'.1 b' (x ++ piece out) (strSize (x ++ piece out).length) ∧
        Fresh w.1 b.str b'.str ∧ w'.2 = w.2 := by
  have hlt := h.lt_size
  refine Runs.narrow ?_
  refine (runs_malloc _ w).bind (fun _ _ => False.elim) ?_
  rintro p w₁ hk₁ ⟨rfl, hp, hstate₁⟩
  rw [← bind_assoc]
  refine (runs_snprintf hp out).bind (fun _ _ hk => .inr hk.ge) ?_
  rintro _ w₂ hk₂ ⟨⟨l, hp₂⟩, hstate₂⟩
  refine (runs_strlen hp₂ (zero_notMem_piece out)).bind (fun _ _ => False.elim) ?_
  rintro len w₃ - ⟨rfl, rfl⟩
  have hb₂ := (h.kept hk₁ id).kept hk₂ hlt.ne
  refine (runs_strAppend hb₂ (has_of_read_append hp₂) (Int.toNat_natCast _).symm hn
    fun heq => absurd heq hlt.ne').bind (fun _ _ => .inl) ?_
  rintro b' w₄ hk₄ ⟨hb', hfresh, hstate₄⟩
  have hsize₃ : w.1.size < w₃.1.size := lt_size_of_read hp₂
  have hp₄ := hk₄.read hp₂ hlt.ne'
  have hne : b'.str ≠ w.1.size := by
    rcases hfresh with heq | hnew
    · exact heq ▸ hlt.ne
    · exact (hsize₃.trans_le hnew).ne'
  refine (runs_free hp₄).kept.bind (fun _ _ hk => .inr hk.ge) ?_
  rintro _ w₅ - ⟨hk₅, -, hstate₅⟩
  exact runs_pure ⟨hb'.kept hk₅ hne, hfresh.imp id hsize₃.le.trans,
    hstate₅.trans (hstate₄.trans (hstate₂.trans hstate₁))⟩

end

end Libtg.Memory
