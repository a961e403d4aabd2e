import Libtg.Lib.LittleEndian

/-!
# Buffers (`tl/buf.c`)

A `buf_t` is a block of `asize` bytes of which the first `size` are in use. Where only the bytes
matter a buffer is the list of its bytes. `Buf` keeps what the encoders also depend on: how large
the block is, and which block it is, since `realloc` may move it.
-/

namespace Libtg

abbrev Bytes := List UInt8

/-- The bytes of a text of the source. -/
def ascii (s : String) : Bytes := s.toList.map fun c => UInt8.ofNat c.toNat

/-- `BUFSIZ`, the size of the block `buf_init` allocates. -/
def BUFSIZ : Nat := 8192

/-- The sizes are `uint32_t`: from this one on, the sum in `buf_cat` or the `size + 1` handed to
`realloc` wraps around. -/
def bufLimit : Nat := 2 ^ 32 - 1

/-- A `buf_t`: `block` tells the blocks `aptr` has pointed to apart, `data` is the bytes up to
`size`. -/
structure Buf where
  block : Nat
  data : Bytes
  asize : Nat

def Buf.size (b : Buf) : Nat := b.data.length

/-- `buf_realloc`. `mv n` says whether the `realloc` to `n` bytes moves the block. -/
def bufRealloc (mv : Nat → Bool) (b : Buf) (size : Nat) : Buf :=
  if size > b.asize then
    { b with block := if mv size then b.block + 1 else b.block, asize := size }
  else b

/-- `buf_add`. -/
def bufAdd (data : Bytes) : Buf := ⟨0, data, max BUFSIZ data.length⟩

/-- `buf_cat`. Past `bufLimit` the copying loop leaves the block, which is `none` here. -/
def bufCat (mv : Nat → Bool) (dest : Buf) (src : Bytes) : Option Buf :=
  let s := dest.size + src.length
  if s < bufLimit then
    let dest := if s > dest.asize then bufRealloc mv dest s else dest
    some { dest with data := dest.data ++ src }
  else none

/-- Appending several buffers in turn. -/
def bufCats (mv : Nat → Bool) (dest : Buf) (srcs : List Bytes) : Option Buf :=
  srcs.foldlM (bufCat mv) dest

variable {mv : Nat → Bool} {b b' : Buf} {src : Bytes} {srcs : List Bytes}

theorem bufCat_eq_some (h : bufCat mv b src = some b') :
    b.size + src.length < bufLimit ∧ b'.data = b.data ++ src := by
  simp only [bufCat] at h
  split at h
  · rename_i hlt
    cases h
    refine ⟨hlt, ?_⟩
    simp only [bufRealloc]
    split_ifs <;> rfl
  · cases h

theorem bufCat_isSome (h : b.size + src.length < bufLimit) : ∃ b', bufCat mv b src = some b' := by
  simp [bufCat, h]

theorem bufCats_eq_some (h : bufCats mv b srcs = some b') : b'.data = b.data ++ srcs.flatten := by
  induction srcs generalizing b with
  | nil =>
    cases h
    simp
  | cons src srcs ih =>
    simp only [bufCats, List.foldlM_cons, Option.bind_eq_bind, Option.bind_eq_some_iff] at h
    obtain ⟨b₁, hcat, hrest⟩ := h
    rw [ih hrest, (bufCat_eq_some hcat).2, List.flatten_cons, List.append_assoc]

theorem bufCats_size (h : bufCats mv b srcs = some b') :
    b'.size = b.size + srcs.flatten.length := by
  rw [Buf.size, bufCats_eq_some h, List.length_append, Buf.size]

theorem bufCats_isSome (h : b.size + srcs.flatten.length < bufLimit) :
    ∃ b', bufCats mv b srcs = some b' := by
  induction srcs generalizing b with
  | nil => exact ⟨b, rfl⟩
  | cons src srcs ih =>
    rw [List.flatten_cons, List.length_append] at h
    obtain ⟨b₁, hcat⟩ : ∃ b₁, bufCat mv b src = some b₁ := bufCat_isSome (by omega)
    have hsize : b₁.size = b.size + src.length := by
      rw [Buf.size, (bufCat_eq_some hcat).2, List.length_append, Buf.size]
    obtain ⟨b', hrest⟩ := ih (b := b₁) (by omega)
    refine ⟨b', ?_⟩
    simp only [bufCats, List.foldlM_cons, hcat, Option.bind_eq_bind, Option.bind_some]
    exact hrest

theorem bufCats_lt (h : bufCats mv b srcs = some b') (hb : b.size < bufLimit) :
    b'.size < bufLimit := by
  induction srcs generalizing b with
  | nil =>
    cases h
    exact hb
  | cons src srcs ih =>
    simp only [bufCats, List.foldlM_cons, Option.bind_eq_bind, Option.bind_eq_some_iff] at h
    obtain ⟨b₁, hcat, hrest⟩ := h
    obtain ⟨hlt, hdata⟩ := bufCat_eq_some hcat
    exact ih hrest (by rw [Buf.size, hdata, List.length_append]; exact hlt)

end Libtg
