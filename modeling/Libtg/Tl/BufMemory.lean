import Libtg.Lib.Cells
import Libtg.Tl.Buf

/-!
# Buffers in memory (`tl/buf.c`)

The functions of `tl/buf.c` as they use memory: what `malloc` gives out is not set, `realloc` may
move a block, and a read from a block that was given back is a fault. `Represents s buf x a`: the
block of `buf` has `a + 1` bytes, which are `x` and zeros. That is all that the sizes and the bytes
of `Libtg.Buf` tell, and no function leaves it.
-/

namespace Libtg.Memory

open Cells Blocks BlocksM LittleEndian

/-- Bytes in memory. -/
abbrev Mem := Blocks (List (Option UInt8))

abbrev MemM (σ β : Type) := CellsM UInt8 σ β

/-- Where `realloc` moves a block. -/
abbrev Moves := Mem → Nat → Nat → Bool

/-- A `buf_t`. `aptr` is its block, `off` where `data` points into it. -/
structure BufT where
  aptr : Nat
  off : Nat
  size : Nat
  asize : Nat

section
variable {σ : Type} (mv : Moves)

/-- `buf_init`. -/
def bufInit : MemM σ BufT := do
  let aptr ← malloc (BUFSIZ + 1)
  fill aptr 0 0 (BUFSIZ + 1)
  return ⟨aptr, 0, 0, BUFSIZ⟩

/-- `buf_new`. -/
def bufNew : MemM σ BufT := bufInit

/-- `buf_realloc`. -/
def bufRealloc (buf : BufT) (size : Nat) : MemM σ BufT :=
  if size > buf.asize then do
    let ptr ← realloc mv buf.aptr ((size + 1) % 2 ^ 32)
    fill ptr buf.asize 0 ((size - buf.asize + 1) % 2 ^ 32)
    return { buf with aptr := ptr, asize := size }
  else return buf

/-- `buf_add` and `buf_cat` look at the size, too, before they call `buf_realloc`. -/
def bufGrow (buf : BufT) (size : Nat) : MemM σ BufT :=
  if size > buf.asize then bufRealloc mv buf size else return buf

/-- `buf_add` of what is in the block `q` from `j` on. -/
def bufAdd (q j size : Nat) : MemM σ BufT := do
  let b ← bufInit
  let b ← bufGrow mv b size
  copy b.aptr b.off q j size
  return { b with size := size }

/-- The loop of `buf_cat` from `i` on. -/
def catBytes (dest src : BufT) (offset i : Nat) : Nat → MemM σ Unit
  | 0 => return ()
  | n + 1 => do
    let c ← load src.aptr (src.off + i)
    store dest.aptr (dest.off + (i + offset) % 2 ^ 32) c
    catBytes dest src offset (i + 1) n

/-- `buf_cat`. -/
def bufCat (dest src : BufT) : MemM σ BufT := do
  let s := (dest.size + src.size) % 2 ^ 32
  let dest ← bufGrow mv dest s
  let offset := dest.size
  catBytes dest src offset 0 src.size
  return { dest with size := s }

/-- `buf_add_ui32`. -/
def bufAddUi32 (v : UInt32) : MemM σ BufT := withLocal (le32 v) fun p => bufAdd mv p 0 4

/-- `buf_add_ui64`. -/
def bufAddUi64 (v : UInt64) : MemM σ BufT := withLocal (le64 v) fun p => bufAdd mv p 0 8

/-- `buf_add_double`: the 64 bits of the `double`. -/
def bufAddDouble (v : UInt64) : MemM σ BufT := withLocal (le64 v) fun p => bufAdd mv p 0 8

/-- What the functions `buf_cat_…` do with the buffer they make. -/
def catAndFree (dest : BufT) (add : MemM σ BufT) : MemM σ BufT := do
  let src ← add
  let buf ← bufCat mv dest src
  free src.aptr
  return buf

/-- `buf_cat_ui32`. -/
def bufCatUi32 (dest : BufT) (i : UInt32) : MemM σ BufT := catAndFree mv dest (bufAddUi32 mv i)

/-- `buf_cat_ui64`. -/
def bufCatUi64 (dest : BufT) (i : UInt64) : MemM σ BufT := catAndFree mv dest (bufAddUi64 mv i)

/-- `buf_cat_double`. -/
def bufCatDouble (dest : BufT) (i : UInt64) : MemM σ BufT :=
  catAndFree mv dest (bufAddDouble mv i)

/-- `buf_cat_data`. -/
def bufCatData (dest : BufT) (q j len : Nat) : MemM σ BufT :=
  catAndFree mv dest (bufAdd mv q j len)

end

/-! ## A block that ends in zeros -/

/-- The bytes and zeros up to a length. -/
def padded (x : Bytes) (n : Nat) : List (Option UInt8) :=
  x.map some ++ List.replicate (n - x.length) (some 0)

section
variable {x y : Bytes} {a n m : Nat}

theorem length_padded (h : x.length ≤ n) : (padded x n).length = n := by
  rw [padded, List.length_append, List.length_map, List.length_replicate, Nat.add_sub_cancel' h]

theorem getElem?_padded_of_lt (h : n < x.length) (m : Nat) : (padded x m)[n]? = some x[n]? := by
  rw [padded, List.getElem?_append_left (by rwa [List.length_map]), List.getElem?_map,
    List.getElem?_eq_getElem h]
  rfl

theorem getElem?_padded_of_le (h : x.length ≤ n) (hn : n < m) :
    (padded x m)[n]? = some (some 0) := by
  rw [padded, List.getElem?_append_right (by rwa [List.length_map]), List.length_map,
    List.getElem?_replicate, if_pos (by omega)]

theorem padded_append_zeros (h : x.length ≤ n) (m : Nat) :
    padded x n ++ List.replicate m (some 0) = padded x (n + m) := by
  rw [padded, padded, List.append_assoc, List.replicate_append_replicate, Nat.sub_add_comm h]

theorem take_padded (h : x.length ≤ n) (hn : n ≤ m) : (padded x m).take n = padded x n := by
  have hsplit : padded x n ++ List.replicate (m - n) (some 0) = padded x m := by
    rw [padded_append_zeros h, Nat.add_sub_cancel' hn]
  rw [← hsplit, List.take_left' (length_padded h)]

/-- Where the block grows, the new bytes are cleared and the last of the old ones is, too. -/
theorem overwrite_resize (h : x.length ≤ a) (hn : a ≤ n) :
    overwrite (resize (padded x (a + 1)) (n + 1)) a (List.replicate (n - a + 1) (some 0)) =
      padded x (n + 1) := by
  have hlen : (resize (padded x (a + 1)) (n + 1)).length = n + 1 := by
    rw [resize, List.length_append, List.length_take, List.length_replicate,
      length_padded (by omega)]
    omega
  have htake : (resize (padded x (a + 1)) (n + 1)).take a = padded x a := by
    rw [resize, List.take_append_of_le_length, List.take_take, Nat.min_eq_left (by omega),
      take_padded h (by omega)]
    rw [List.length_take, length_padded (by omega)]
    omega
  have hdrop : (resize (padded x (a + 1)) (n + 1)).drop (a + (n - a + 1)) = [] :=
    List.drop_eq_nil_of_le (by omega)
  rw [overwrite, htake, List.length_replicate, hdrop, List.append_nil, padded_append_zeros h]
  congr 1
  omega

theorem overwrite_replicate (n : Nat) :
    overwrite (List.replicate n (none : Option UInt8)) 0 (List.replicate n (some 0)) =
      padded [] n := by
  rw [overwrite, List.take_zero, List.nil_append, List.length_replicate, Nat.zero_add,
    List.drop_replicate, Nat.sub_self, List.replicate_zero, List.append_nil]
  rfl

theorem overwrite_padded (h : x.length + y.length ≤ n) :
    overwrite (padded x n) x.length (y.map some) = padded (x ++ y) n := by
  rw [padded, overwrite_append (by rw [List.length_map]), List.length_map, List.drop_replicate,
    padded, List.map_append, List.length_append, Nat.sub_sub]

end

/-! ## What a buffer holds -/

/-- The buffer holds `x`, and its block has `a` bytes and one more. -/
structure Represents (s : Mem) (buf : BufT) (x : Bytes) (a : Nat) : Prop where
  off : buf.off = 0
  size : buf.size = x.length
  asize : buf.asize = a
  le : x.length ≤ a
  cells : s.read buf.aptr = some (padded x (a + 1))

/-- The buffer has been made since `w₀`, and it holds `x`. -/
structure New {σ : Type} (w₀ w : Mem × σ) (x : Bytes) (buf : BufT) : Prop where
  represents : Represents w.1 buf x (max BUFSIZ x.length)
  fresh : w₀.1.size ≤ buf.aptr
  state : w.2 = w₀.2

section
variable {s t : Mem} {D : Nat → Prop} {buf dest src : BufT} {x y : Bytes} {a n j q : Nat}

theorem Represents.kept (h : Represents s buf x a) (hk : Kept D s t) (hD : ¬ D buf.aptr) :
    Represents t buf x a :=
  { h with cells := hk.read h.cells hD }

theorem Represents.has (h : Represents s buf x a) : Has s buf.aptr buf.off x := by
  refine has_of_read h.cells fun i hi => ?_
  rw [h.off, Nat.zero_add, getElem?_padded_of_lt hi]

variable {σ : Type} {mv : Moves} {w₀ w w' : Mem × σ}

theorem New.lt_size (h : New w₀ w x buf) : buf.aptr < w.1.size :=
  lt_size_of_read h.represents.cells

theorem New.kept (h : New w₀ w x buf) (hk : Kept D w.1 w'.1) (hD : ¬ D buf.aptr)
    (hstate : w'.2 = w.2) : New w₀ w' x buf :=
  ⟨h.represents.kept hk hD, h.fresh, hstate.trans h.state⟩

theorem runs_bufInit (w : Mem × σ) : Runs Nothing bufInit w fun buf w' => New w w' [] buf := by
  refine Runs.ofNew ?_
  refine (runs_malloc _ w).bind (fun _ _ => False.elim) ?_
  rintro p w₁ - ⟨rfl, hp, hstate⟩
  have hlen : 0 + (BUFSIZ + 1) ≤ (List.replicate (BUFSIZ + 1) (none : Option UInt8)).length :=
    (List.length_replicate.trans (Nat.zero_add _).symm).ge
  refine (runs_fill hp hlen 0).bind (fun _ _ h => h.ge) ?_
  rintro _ w₂ - ⟨hp₂, hstate₂⟩
  rw [overwrite_replicate] at hp₂
  exact runs_pure ⟨⟨rfl, rfl, rfl, Nat.zero_le _, hp₂⟩, le_rfl, hstate₂.trans hstate⟩

/-- The block is as large as it has to be. -/
theorem runs_bufRealloc (h : Represents w.1 buf x a) (hn : n < bufLimit) :
    Runs (· = buf.aptr) (bufRealloc mv buf n) w fun buf' w' =>
      Represents w'.1 buf' x (max a n) ∧ Fresh w.1 buf.aptr buf'.aptr ∧ w'.2 = w.2 ∧
        (n ≤ a → buf' = buf ∧ w' = w) ∧
        (a < n → (∀ s p m, mv s p m = true) → w'.1.read buf.aptr = none) := by
  unfold bufLimit at hn
  unfold bufRealloc
  by_cases hgt : n > buf.asize
  · have han : a < n := h.asize ▸ hgt
    rw [if_pos hgt, Nat.mod_eq_of_lt (by omega), h.asize, Nat.mod_eq_of_lt (by omega)]
    refine Runs.narrow ?_
    refine (runs_realloc h.cells (n + 1)).bind (fun _ _ => .inl) ?_
    rintro p w₁ hk₁ ⟨hp, hstate, hfresh, hmoved⟩
    have hlen : a + (n - a + 1) ≤ (resize (padded x (a + 1)) (n + 1)).length := by
      rw [resize, List.length_append, List.length_take, List.length_replicate,
        length_padded (by have := h.le; omega)]
      omega
    refine (runs_fill hp hlen 0).bind (fun k hk hkp => ?_) ?_
    · rcases hfresh with rfl | hnew
      · exact .inl hkp
      · exact .inr (hkp ▸ hnew)
    rintro _ w₂ hk₂ ⟨hp₂, hstate₂⟩
    rw [overwrite_resize h.le han.le] at hp₂
    refine runs_pure ⟨⟨h.off, h.size, (max_eq_right han.le).symm, ?_, ?_⟩, hfresh,
      hstate₂.trans hstate, fun hle => absurd hle (Nat.not_le.mpr han), fun _ hall => ?_⟩
    · exact h.le.trans (le_max_left ..)
    · rwa [max_eq_right han.le]
    · have hdead := hmoved (hall _ _ _)
      have hne : buf.aptr ≠ p := by
        rintro rfl
        rw [hp] at hdead
        cases hdead
      rw [hk₂.read_eq (by have := lt_size_of_read h.cells; exact this.trans_le hk₁.size_le) hne]
      exact hdead
  · have hle : n ≤ a := h.asize ▸ Nat.not_lt.mp hgt
    rw [if_neg hgt]
    exact runs_pure ⟨(max_eq_left hle).symm ▸ h, .inl rfl, rfl, fun _ => ⟨rfl, rfl⟩,
      fun hlt => absurd hlt (Nat.not_lt.mpr hle)⟩

theorem runs_bufGrow (h : Represents w.1 buf x a) (hn : n < bufLimit) :
    Runs (· = buf.aptr) (bufGrow mv buf n) w fun buf' w' =>
      Represents w'.1 buf' x (max a n) ∧ Fresh w.1 buf.aptr buf'.aptr ∧ w'.2 = w.2 ∧
        (n ≤ a → buf' = buf ∧ w' = w) ∧
        (a < n → (∀ s p m, mv s p m = true) → w'.1.read buf.aptr = none) := by
  have hrun : Runs _ (bufRealloc mv buf n) w _ := runs_bufRealloc h hn
  unfold bufGrow
  unfold bufRealloc at hrun ⊢
  split_ifs with hgt
  · rwa [if_pos hgt] at hrun
  · rwa [if_neg hgt] at hrun

theorem runs_bufAdd (hx : Has w.1 q j x) (hn : x.length < bufLimit) :
    Runs Nothing (bufAdd mv q j x.length) w fun buf w' => New w w' x buf := by
  have hq : q < w.1.size := by
    obtain ⟨l, hl, -⟩ := hx
    exact lt_size_of_read hl
  refine Runs.ofNew ?_
  refine (runs_bufInit w).bind (fun _ _ => False.elim) ?_
  rintro b w₁ hk₁ ⟨hb, hnew, hstate₁⟩
  rw [List.length_nil, Nat.max_zero] at hb
  refine (runs_bufGrow hb hn).bind (fun k _ hk => hk ▸ hnew) ?_
  rintro b₂ w₂ hk₂ ⟨hb₂, hfresh, hstate₂, -⟩
  have hnew₂ : w.1.size ≤ b₂.aptr := hfresh.elim (fun h => h ▸ hnew) hk₁.size_le.trans
  have hx₂ : Has w₂.1 q j x := (hx.kept hk₁ id).kept hk₂ (by omega)
  have hlen : 0 + x.length ≤ (padded [] (max BUFSIZ x.length + 1)).length := by
    rw [length_padded (Nat.zero_le _), Nat.zero_add]
    omega
  rw [hb₂.off]
  refine (runs_copy hb₂.cells hlen hx₂ fun h => by omega).bind (fun k _ hk => hk ▸ hnew₂) ?_
  rintro _ w₃ - ⟨hcells, hstate₃⟩
  have hover := overwrite_padded (x := []) (y := x) (n := max BUFSIZ x.length + 1)
    (by rw [List.length_nil, Nat.zero_add]; omega)
  rw [List.length_nil, List.nil_append] at hover
  rw [hover] at hcells
  exact runs_pure ⟨⟨rfl, rfl, hb₂.asize, le_max_right .., hcells⟩, hnew₂,
    hstate₃.trans (hstate₂.trans hstate₁)⟩

/-- Below the limit the index does not wrap around. -/
theorem catBytes_eq_copy {offset i : Nat} (n : Nat) (h : i + offset + n ≤ 2 ^ 32) :
    (catBytes dest src offset i n : MemM σ Unit) =
      copy dest.aptr (dest.off + (i + offset)) src.aptr (src.off + i) n := by
  induction n generalizing i with
  | zero => rfl
  | succ n ih =>
    rw [catBytes, copy, Nat.mod_eq_of_lt (by omega), ih (by omega), Nat.add_assoc src.off,
      Nat.add_assoc dest.off, Nat.add_right_comm i 1]

/-- The source is another buffer, or the block need not grow. -/
theorem runs_bufCat (h : Represents w.1 dest x a) (hy : Has w.1 src.aptr src.off y)
    (hsize : src.size = y.length) (hn : x.length + y.length < bufLimit)
    (hapart : src.aptr = dest.aptr →
      src.off + y.length ≤ x.length ∧ x.length + y.length ≤ a) :
    Runs (· = dest.aptr) (bufCat mv dest src) w fun buf w' =>
      Represents w'.1 buf (x ++ y) (max a (x.length + y.length)) ∧
        Fresh w.1 dest.aptr buf.aptr ∧ w'.2 = w.2 := by
  unfold bufLimit at hn
  unfold bufCat
  rw [h.size, hsize, Nat.mod_eq_of_lt (by omega)]
  refine Runs.narrow ?_
  refine (runs_bufGrow h (by unfold bufLimit; omega)).bind (fun _ _ => .inl) ?_
  rintro d w₁ hk₁ ⟨hd, hfresh, hstate₁, hsame, -⟩
  have hy₁ : Has w₁.1 src.aptr src.off y := by
    by_cases hsrc : src.aptr = dest.aptr
    · rw [(hsame (hapart hsrc).2).2]
      exact hy
    · exact hy.kept hk₁ hsrc
  have hapart₁ : src.aptr = d.aptr → src.off + 0 + y.length ≤ 0 + (0 + x.length) := by
    intro hsrc
    rcases hfresh with hd' | hnew
    · have := (hapart (hsrc.trans hd')).1
      omega
    · obtain ⟨l, hl, -⟩ := hy
      have := lt_size_of_read hl
      omega
  have hlen : 0 + (0 + x.length) + y.length ≤
      (padded x (max a (x.length + y.length) + 1)).length := by
    rw [length_padded (by omega)]
    omega
  dsimp only
  rw [hd.size, catBytes_eq_copy _ (by omega), hd.off]
  refine (runs_copy hd.cells hlen hy₁ hapart₁).bind (fun k _ hk => ?_) ?_
  · exact hfresh.imp hk.trans hk.ge.trans'
  rintro _ w₂ - ⟨hcells, hstate₂⟩
  rw [Nat.zero_add, Nat.zero_add, overwrite_padded (by omega)] at hcells
  refine runs_pure ⟨⟨rfl, ?_, hd.asize, ?_, hcells⟩, hfresh, hstate₂.trans hstate₁⟩
  · rw [List.length_append]
  · rw [List.length_append]
    exact le_max_right ..

/-- Where the block is moved, a buffer that is appended to itself is read after its release. -/
theorem bufCat_self (h : Represents w.1 buf x a) (hn : x.length + x.length < bufLimit)
    (hgrow : a < x.length + x.length) (hall : ∀ s p m, mv s p m = true) :
    bufCat mv buf buf w = none := by
  have hruns : Runs _ (bufGrow mv buf (x.length + x.length)) w _ := runs_bufGrow h hn
  obtain ⟨b, w₁, hrun, -, -, -, -, -, hdead⟩ := hruns
  obtain ⟨n, hlen⟩ : ∃ n, x.length = n + 1 := Nat.exists_eq_succ_of_ne_zero fun hzero => by
    rw [hzero] at hgrow
    exact absurd hgrow (Nat.not_lt_zero a)
  unfold bufCat
  rw [h.size, Nat.mod_eq_of_lt (by unfold bufLimit at hn; omega)]
  rw [bind_of_eq_some hrun, hlen]
  exact bind_of_eq_none (bind_of_eq_none (load_dead (hdead hgrow hall) _) _) _

/-- The first bytes of a local variable. -/
theorem runs_addPrefix (hxy : x <+: y) (hx : x.length = n) (hn : n < bufLimit) (w : Mem × σ) :
    Runs Nothing (withLocal y fun p => bufAdd mv p 0 n) w fun buf w' => New w w' x buf := by
  subst hx
  obtain ⟨z, rfl⟩ := hxy
  refine (runs_withLocal (Q := fun buf w' => Represents w'.1 buf x (max BUFSIZ x.length) ∧
    w.1.size < buf.aptr ∧ w'.2 = w.2) (x ++ z) id fun w₁ hk₁ hp hstate => ?_).mono
    (fun _ _ => id) ?_
  · refine (runs_bufAdd (has_of_read_map hp).take hn).mono (fun _ _ => id) ?_
    rintro buf w' ⟨hbuf, hnew, hstate'⟩
    exact ⟨hbuf, (lt_size_of_read hp).trans_le hnew, hstate'.trans hstate⟩
  · rintro buf w' ⟨w₂, ⟨hbuf, hnew, hstate⟩, hk, hstate'⟩
    exact ⟨hbuf.kept hk hnew.ne', hnew.le, hstate'.trans hstate⟩

theorem runs_addLocal (x : Bytes) (hn : x.length < bufLimit) (w : Mem × σ) :
    Runs Nothing (withLocal x fun p => bufAdd mv p 0 x.length) w fun buf w' => New w w' x buf :=
  runs_addPrefix List.prefix_rfl rfl hn w

theorem runs_catAndFree {add : MemM σ BufT} (h : Represents w.1 dest x a)
    (hadd : Runs Nothing add w fun src w' => New w w' y src)
    (hn : x.length + y.length < bufLimit) :
    Runs (· = dest.aptr) (catAndFree mv dest add) w fun buf w' =>
      Represents w'.1 buf (x ++ y) (max a (x.length + y.length)) ∧
        Fresh w.1 dest.aptr buf.aptr ∧ w'.2 = w.2 := by
  have hlt := lt_size_of_read h.cells
  refine Runs.narrow ?_
  refine hadd.bind (fun _ _ => False.elim) ?_
  rintro src w₁ hk₁ ⟨hsrc, hnew, hstate₁⟩
  have hne : src.aptr ≠ dest.aptr := by omega
  refine (runs_bufCat (h.kept hk₁ id) hsrc.has hsrc.size hn fun heq => absurd heq hne).bind
    (fun _ _ => .inl) ?_
  rintro buf w₂ hk₂ ⟨hbuf, hfresh, hstate₂⟩
  have hsrc₂ := hsrc.kept hk₂ hne
  have hne₂ : buf.aptr ≠ src.aptr := by
    rcases hfresh with heq | hnew₂
    · exact heq ▸ hne.symm
    · exact ((lt_size_of_read hsrc.cells).trans_le hnew₂).ne'
  refine (runs_free hsrc₂.cells).kept.bind (fun _ _ hk => .inr (hk ▸ hnew)) ?_
  rintro _ w₃ - ⟨hk₃, -, hstate₃⟩
  exact runs_pure ⟨hbuf.kept hk₃ hne₂, hfresh.imp id hk₁.size_le.trans,
    hstate₃.trans (hstate₂.trans hstate₁)⟩

theorem runs_bufCatData (h : Represents w.1 dest x a) (hy : Has w.1 q j y)
    (hn : x.length + y.length < bufLimit) :
    Runs (· = dest.aptr) (bufCatData mv dest q j y.length) w fun buf w' =>
      Represents w'.1 buf (x ++ y) (max a (x.length + y.length)) ∧
        Fresh w.1 dest.aptr buf.aptr ∧ w'.2 = w.2 :=
  runs_catAndFree h (runs_bufAdd hy (by omega)) hn

theorem runs_catLocal (h : Represents w.1 dest x a) (hn : x.length + y.length < bufLimit) :
    Runs (· = dest.aptr) (withLocal y fun p => bufCatData mv dest p 0 y.length) w fun buf w' =>
      Represents w'.1 buf (x ++ y) (max a (x.length + y.length)) ∧
        Fresh w.1 dest.aptr buf.aptr ∧ w'.2 = w.2 := by
  have hlt := lt_size_of_read h.cells
  refine (runs_withLocal (Q := fun buf w' =>
    Represents w'.1 buf (x ++ y) (max a (x.length + y.length)) ∧
      (buf.aptr = dest.aptr ∨ w.1.size < buf.aptr) ∧ w'.2 = w.2) y hlt.ne' ?_).mono
    (fun _ _ => id) ?_
  · intro w₁ hk₁ hp hstate
    refine (runs_bufCatData (h.kept hk₁ id) (has_of_read_map hp) hn).mono (fun _ _ => id) ?_
    rintro buf w' ⟨hbuf, hfresh, hstate'⟩
    exact ⟨hbuf, hfresh.imp id (lt_size_of_read hp).trans_le, hstate'.trans hstate⟩
  · rintro buf w' ⟨w₂, ⟨hbuf, hfresh, hstate⟩, hk, hstate'⟩
    have hne : buf.aptr ≠ w.1.size := by omega
    exact ⟨hbuf.kept hk hne, hfresh.imp id le_of_lt, hstate'.trans hstate⟩

end

end Libtg.Memory
