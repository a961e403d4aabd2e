import Libtg.TlGenerator.Methods

/-!
# What an emitted encoder writes

The output of `tlMethod` is the id and then one piece for each argument: a word for a flags word,
the argument's bytes otherwise (`segs`). Which bits end up in the words depends on `realloc`.
`appendArgs_spec` follows the flag pointers through the run: the bits that land are bits of supplied
arguments, every guard whose argument ends within the first `BUFSIZ` bytes lands, and if `realloc`
always moves the block no other does.
-/

namespace Libtg

open LittleEndian Backpatch

variable {S : Schema} {isMtproto : Bool} {mv : Nat → Bool}

/-- What the statements for an argument append in turn. -/
def argPieces (S : Schema) (isMtproto : Bool) (a : Arg) (v : Value) : List Bytes :=
  match a.type.map tyOf with
  | none | some .true => []
  | some ty => if a.flagn ≠ 0 ∧ v.isAbsent then [] else pieces S isMtproto ty v

/-- The piece of output of one argument, after `k` flags words. -/
def seg (S : Schema) (isMtproto : Bool) (k : Nat) (a : Arg) (v : Value) : Seg :=
  if a.isFlags then .word (k + 1) else .raw (argPieces S isMtproto a v).flatten

def segs (S : Schema) (isMtproto : Bool) : Nat → List Arg → List Value → List Seg
  | k, a :: as, v :: vs => seg S isMtproto k a v :: segs S isMtproto (flagsAfter k a) as vs
  | _, _, _ => []

/-- The bytes of a whole encoding under the flags words `ws`. -/
def layout (S : Schema) (e : Entry) (args : List Value) (ws : Nat → UInt32) : Bytes :=
  le32 e.method.id ++ render ws (segs S e.isMtproto 0 e.method.args args)

/-- The flags word and the bit of a supplied guarded argument. -/
def guardOf (a : Arg) (v : Value) : List (Nat × Nat) :=
  if a.type.isSome ∧ a.flagn ≠ 0 ∧ ¬ v.isAbsent then [(a.flagn, a.flagb)] else []

def suppliedGuards : List Arg → List Value → List (Nat × Nat)
  | a :: as, v :: vs => guardOf a v ++ suppliedGuards as vs
  | _, _ => []

/-- The guards of the supplied arguments that end within the first `limit` bytes of the output, the
first argument starting at `pos`. -/
def guardsWithin (S : Schema) (isMtproto : Bool) (limit : Nat) :
    Nat → List Arg → List Value → List (Nat × Nat)
  | pos, a :: as, v :: vs =>
    let pos := pos + (seg S isMtproto 0 a v).size
    (if pos ≤ limit then guardOf a v else []) ++ guardsWithin S isMtproto limit pos as vs
  | _, _, _ => []

/-- The flags words once the guards in `L` were written. -/
def wordsOf (L : List (Nat × Nat)) (n : Nat) : UInt32 :=
  orBits ((L.filter (·.1 = n)).map (·.2))

theorem wordsOf_cons (g : Nat × Nat) (L : List (Nat × Nat)) :
    wordsOf (g :: L) = orWord (wordsOf L) g.1 (1 <<< UInt32.ofNat g.2) := by
  funext n
  by_cases hn : n = g.1
  · subst hn
    simp [wordsOf, orWord, orBits]
  · rw [orWord, Function.update_of_ne hn]
    simp [wordsOf, Ne.symm hn]

theorem hasBit_wordsOf {L : List (Nat × Nat)} (hL : ∀ g ∈ L, g.2 < 32) {n b : Nat} (hb : b < 32) :
    hasBit (wordsOf L n) b = true ↔ (n, b) ∈ L := by
  rw [wordsOf, hasBit_orBits _ hb]
  · simp
  · intro c hc
    simp only [List.mem_map, List.mem_filter] at hc
    obtain ⟨g, ⟨hg, _⟩, rfl⟩ := hc
    exact hL g hg

theorem wordsOf_eq_zero {L : List (Nat × Nat)} {n : Nat} (h : ∀ g ∈ L, g.1 ≠ n) :
    wordsOf L n = 0 := by
  have : L.filter (·.1 = n) = [] := by simpa using h
  simp [wordsOf, this, orBits]

theorem seg_size_eq (k k' : Nat) (a : Arg) (v : Value) :
    (seg S isMtproto k a v).size = (seg S isMtproto k' a v).size := by
  simp only [seg]
  split_ifs <;> rfl

theorem wordNumbers_seg (k : Nat) (a : Arg) (v : Value) :
    wordNumbers [seg S isMtproto k a v] = List.range' (k + 1) (flagsAfter k a - k) := by
  simp only [seg, flagsAfter]
  split_ifs <;> simp [wordNumbers]

/-! ## The invariant of a run -/

/-- After `k` flags words, with the pieces `pre` written and the guards `L` landed. -/
structure EncInv (e : Enc) (k : Nat) (pre : List Seg) (L : List (Nat × Nat)) : Prop where
  data : e.buf.data = render (wordsOf L) pre
  count : e.flagp.length = k
  numbers : wordNumbers pre = List.range' 1 k
  offset : ∀ n block off, e.flagp[n]? = some (block, off) →
    ∃ p q, pre = p ++ .word (n + 1) :: q ∧ off = size p
  landed : ∀ g ∈ L, 1 ≤ g.1 ∧ g.1 ≤ k

/-- Where a buffer and the blocks of the flag pointers stand. -/
structure Placed (mv : Nat → Bool) (buf : Buf) (flagp : List (Nat × Nat)) : Prop where
  asize : buf.asize = max BUFSIZ buf.size
  home : buf.size ≤ BUFSIZ → buf.block = 0 ∧ ∀ f ∈ flagp, f.1 = 0
  below : (∀ n, mv n = true) → ∀ f ∈ flagp, f.1 ≤ buf.block
  moved : (∀ n, mv n = true) → BUFSIZ < buf.size → ∀ f ∈ flagp, f.1 < buf.block

theorem EncInv.size_eq {e : Enc} {k : Nat} {pre : List Seg} {L : List (Nat × Nat)}
    (h : EncInv e k pre L) : e.buf.size = size pre := by
  rw [Buf.size, h.data, render_length]

theorem EncInv.append_raw {e : Enc} {k : Nat} {pre : List Seg} {L : List (Nat × Nat)}
    (h : EncInv e k pre L) {buf : Buf} {bytes : Bytes} (hbuf : buf.data = e.buf.data ++ bytes) :
    EncInv { e with buf } k (pre ++ [.raw bytes]) L where
  data := by simp [hbuf, h.data, Seg.render]
  count := h.count
  numbers := by simp [h.numbers, wordNumbers]
  offset n block off hf := by
    obtain ⟨p, q, hpre, hoff⟩ := h.offset n block off hf
    exact ⟨p, q ++ [.raw bytes], by simp [hpre], hoff⟩
  landed := h.landed

theorem EncInv.reserve {e e' : Enc} {k : Nat} {pre : List Seg} {L : List (Nat × Nat)}
    (h : EncInv e k pre L) (hr : e.reserve mv = some e') :
    EncInv e' (k + 1) (pre ++ [.word (k + 1)]) L := by
  simp only [Enc.reserve, Option.pure_def, Option.bind_eq_bind, Option.bind_eq_some_iff,
    Option.some.injEq] at hr
  obtain ⟨buf, hcat, rfl⟩ := hr
  have hzero : wordsOf L (k + 1) = 0 := wordsOf_eq_zero fun g hg he => by
    have := (h.landed g hg).2
    omega
  refine ⟨?_, by simp [h.count], ?_, ?_, fun g hg => ?_⟩
  · simp [(bufCat_eq_some hcat).2, h.data, Seg.render, hzero]
  · simp [h.numbers, wordNumbers, List.range'_concat, Nat.add_comm]
  · intro n block off hf
    rcases lt_or_ge n e.flagp.length with hn | hn
    · rw [List.getElem?_append_left hn] at hf
      obtain ⟨p, q, hpre, hoff⟩ := h.offset n block off hf
      exact ⟨p, q ++ [.word (k + 1)], by simp [hpre], hoff⟩
    · rw [List.getElem?_append_right hn, List.getElem?_singleton] at hf
      split_ifs at hf with hnk
      cases hf
      refine ⟨pre, [], ?_, h.size_eq⟩
      rw [show n = k by rw [h.count] at hn hnk; omega]
  · have := h.landed g hg
    omega

/-- A write through the pointer of flags word `n`: it lands if the pointer still points into the
block of `buf`, and is lost otherwise. -/
theorem EncInv.setFlag {e : Enc} {k : Nat} {pre : List Seg} {L : List (Nat × Nat)}
    (h : EncInv e k pre L) {n b : Nat} (hn : 1 ≤ n) (hk : n ≤ k) :
    ∃ f ∈ e.flagp,
      (f.1 = e.buf.block → EncInv (e.setFlag n b) k pre ((n, b) :: L)) ∧
      (f.1 ≠ e.buf.block → e.setFlag n b = e) := by
  have hlt : n - 1 < e.flagp.length := by
    rw [h.count]
    omega
  obtain ⟨⟨block, off⟩, hf⟩ : ∃ f, e.flagp[n - 1] = f := ⟨_, rfl⟩
  have hget : e.flagp[n - 1]? = some (block, off) := by rw [List.getElem?_eq_getElem hlt, hf]
  refine ⟨(block, off), hf ▸ List.getElem_mem hlt, fun hb => ?_, fun hb => ?_⟩
  · obtain ⟨p, q, hpre, rfl⟩ := h.offset _ _ _ hget
    rw [Nat.sub_add_cancel hn] at hpre
    have hnodup : (wordNumbers (p ++ .word n :: q)).Nodup := by
      rw [← hpre, h.numbers]
      exact List.nodup_range'
    simp only [wordNumbers_append, wordNumbers] at hnodup
    have hp : n ∉ wordNumbers p := fun hm =>
      (List.nodup_append.mp hnodup).2.2 n hm n (by simp) rfl
    have hq : n ∉ wordNumbers q := (List.nodup_cons.mp (List.nodup_append.mp hnodup).2.1).1
    have hset : e.setFlag n b = { e with buf := { e.buf with
        data := orAt (size p) (1 <<< UInt32.ofNat b) e.buf.data } } := by
      simp only [Enc.setFlag, hget]
      rw [if_pos hb]
    rw [hset]
    refine ⟨?_, h.count, h.numbers, h.offset, ?_⟩
    · simp only [h.data, hpre, wordsOf_cons]
      exact orAt_render _ hp hq
    · intro g hg
      rcases List.mem_cons.mp hg with rfl | hg
      · exact ⟨hn, hk⟩
      · exact h.landed g hg
  · simp only [Enc.setFlag, hget]
    rw [if_neg hb]

theorem bufCat_size {b b' : Buf} {src : Bytes} (h : bufCat mv b src = some b') :
    b'.size = b.size + src.length := by
  rw [Buf.size, (bufCat_eq_some h).2, List.length_append, Buf.size]

/-- The block grows exactly when the contents outgrow it, and then exactly to their size. -/
theorem bufCat_block {b b' : Buf} {src : Bytes} (h : bufCat mv b src = some b')
    (hsize : b.asize = max BUFSIZ b.size) :
    b'.asize = max BUFSIZ b'.size ∧
      ((b'.size ≤ BUFSIZ ∨ b'.size = b.size) ∧ b'.block = b.block ∨
        BUFSIZ < b'.size ∧ b.size < b'.size ∧
          b'.block = if mv b'.size then b.block + 1 else b.block) := by
  have hs := bufCat_size h
  simp only [bufCat, bufRealloc] at h
  split at h
  · by_cases hgrow : b.size + src.length > b.asize
    · rw [if_pos hgrow, if_pos hgrow, Option.some.injEq] at h
      have hasize : b'.asize = b'.size := by rw [hs, ← h]
      have hblock : b'.block = if mv b'.size then b.block + 1 else b.block := by rw [hs, ← h]
      exact ⟨by omega, .inr ⟨by omega, by omega, hblock⟩⟩
    · rw [if_neg hgrow, Option.some.injEq] at h
      have hasize : b'.asize = b.asize := by rw [← h]
      have hblock : b'.block = b.block := by rw [← h]
      exact ⟨by omega, .inl ⟨by omega, hblock⟩⟩
  · cases h

theorem Placed.bufCat {b b' : Buf} {flagp : List (Nat × Nat)} {src : Bytes}
    (h : Placed mv b flagp) (hcat : bufCat mv b src = some b') : Placed mv b' flagp := by
  have hsize := bufCat_size hcat
  obtain ⟨hasize, hblock⟩ := bufCat_block hcat h.asize
  refine ⟨hasize, fun hle => ?_, fun hmv f hf => ?_, fun hmv hlt f hf => ?_⟩
  · obtain ⟨hzero, hflags⟩ := h.home (by omega)
    exact ⟨by omega, hflags⟩
  · have := h.below hmv f hf
    rw [hmv, if_pos rfl] at hblock
    omega
  · have hbelow := h.below hmv f hf
    rw [hmv, if_pos rfl] at hblock
    rcases hblock with ⟨hle | heq, hb⟩ | ⟨_, _, hb⟩
    · omega
    · have := h.moved hmv (by omega) f hf
      omega
    · omega

theorem Placed.bufCats {b b' : Buf} {flagp : List (Nat × Nat)} {srcs : List Bytes}
    (h : Placed mv b flagp) (hcat : bufCats mv b srcs = some b') : Placed mv b' flagp := by
  induction srcs generalizing b with
  | nil =>
    cases hcat
    exact h
  | cons src srcs ih =>
    simp only [Libtg.bufCats, List.foldlM_cons, Option.bind_eq_bind, Option.bind_eq_some_iff]
      at hcat
    obtain ⟨b₁, hcat, hrest⟩ := hcat
    exact ih (h.bufCat hcat) hrest

/-- The pointer a flags word keeps is taken before the word itself is appended. -/
theorem Placed.reserve {e e' : Enc} (h : Placed mv e.buf e.flagp)
    (hr : e.reserve mv = some e') : Placed mv e'.buf e'.flagp := by
  simp only [Enc.reserve, Option.pure_def, Option.bind_eq_bind, Option.bind_eq_some_iff,
    Option.some.injEq] at hr
  obtain ⟨buf, hcat, rfl⟩ := hr
  have hsize := bufCat_size hcat
  have hblock := (bufCat_block hcat h.asize).2
  have h' := h.bufCat hcat
  rw [le32_length] at hsize
  change Placed mv buf (e.flagp ++ [(e.buf.block, e.buf.size)])
  refine ⟨h'.asize, fun hle => ?_, fun hmv f hf => ?_, fun hmv hlt f hf => ?_⟩
  · obtain ⟨hzero, hflags⟩ := h'.home hle
    refine ⟨hzero, fun f hf => ?_⟩
    rcases List.mem_append.mp hf with hf | hf
    · exact hflags f hf
    · rw [List.mem_singleton.mp hf]
      exact (h.home (by omega)).1
  · rcases List.mem_append.mp hf with hf | hf
    · exact h'.below hmv f hf
    · rw [List.mem_singleton.mp hf]
      rw [hmv, if_pos rfl] at hblock
      omega
  · rcases List.mem_append.mp hf with hf | hf
    · exact h'.moved hmv hlt f hf
    · rw [List.mem_singleton.mp hf]
      rw [hmv, if_pos rfl] at hblock
      omega

theorem Placed.setFlag {e : Enc} (h : Placed mv e.buf e.flagp) (n b : Nat)
    (hoff : ∀ f, e.flagp[n - 1]? = some f → f.2 + 4 ≤ e.buf.size) :
    Placed mv (e.setFlag n b).buf (e.setFlag n b).flagp := by
  simp only [Enc.setFlag]
  split
  · rename_i block off hf
    split_ifs
    · have hlen := hoff _ hf
      have hsame : (orAt off (1 <<< UInt32.ofNat b) e.buf.data).length = e.buf.size := by
        simp only [Buf.size] at hlen
        simp only [orAt, List.length_append, List.length_take, le32_length, List.length_drop,
          Buf.size]
        omega
      exact ⟨by simpa [Buf.size, hsame] using h.asize, by simpa [Buf.size, hsame] using h.home,
        h.below, by simpa [Buf.size, hsame] using h.moved⟩
    · exact h
  · exact h

/-! ## One argument, and the run -/

/-- What holds after a piece was written: which guards may have landed, and which have. -/
structure Landed (mv : Nat → Bool) (e' : Enc) (gs : List (Nat × Nat)) (L L' : List (Nat × Nat)) :
    Prop where
  keeps : ∀ g ∈ L, g ∈ L'
  only : ∀ g ∈ L', g ∈ L ∨ g ∈ gs
  home : e'.buf.size ≤ BUFSIZ → ∀ g ∈ gs, g ∈ L'
  lost : (∀ n, mv n = true) → BUFSIZ < e'.buf.size → L' = L

theorem Landed.none {e' : Enc} {L : List (Nat × Nat)} : Landed mv e' [] L L :=
  ⟨fun _ h => h, fun _ h => .inl h, by simp, fun _ _ => rfl⟩

/-- Setting the bit of a supplied argument, once its bytes were appended. -/
theorem setFlag_spec {e : Enc} {k : Nat} {pre : List Seg} {L : List (Nat × Nat)} {n b : Nat}
    (h : EncInv e k pre L) (hp : Placed mv e.buf e.flagp) (hn : 1 ≤ n) (hk : n ≤ k) :
    ∃ L', EncInv (e.setFlag n b) k pre L' ∧ Placed mv (e.setFlag n b).buf (e.setFlag n b).flagp ∧
      Landed mv (e.setFlag n b) [(n, b)] L L' := by
  obtain ⟨f, hf, hhit, hmiss⟩ := h.setFlag (b := b) hn hk
  have hp' : Placed mv (e.setFlag n b).buf (e.setFlag n b).flagp := by
    refine hp.setFlag n b fun f hget => ?_
    obtain ⟨p, q, hpre, hoff⟩ := h.offset _ _ _ hget
    rw [h.size_eq, hpre, hoff]
    simp only [size_append, size_cons, Seg.size]
    omega
  by_cases hblock : f.1 = e.buf.block
  · have hinv := hhit hblock
    refine ⟨_, hinv, hp', fun g hg => List.mem_cons_of_mem _ hg, fun g hg => ?_,
      fun _ g hg => ?_, fun hmv hlt => ?_⟩
    · rcases List.mem_cons.mp hg with rfl | hg
      · exact .inr (by simp)
      · exact .inl hg
    · rw [List.mem_singleton.mp hg]
      exact List.mem_cons_self
    · rw [hinv.size_eq, ← h.size_eq] at hlt
      have := hp.moved hmv hlt f hf
      omega
  · have hsame := hmiss hblock
    rw [hsame]
    refine ⟨L, h, hp, fun g hg => hg, fun g hg => .inl hg, fun hle => ?_, fun _ _ => rfl⟩
    obtain ⟨hzero, hflags⟩ := hp.home hle
    exact absurd ((hflags f hf).trans hzero.symm) hblock

/-- The guard around a case, and the bit set at its end. -/
theorem guarded_eq (a : Arg) (v : Value) (e : Enc) (srcs : List Bytes) :
    (if a.flagn ≠ 0 ∧ v.isAbsent then some e
      else do
        let buf ← bufCats mv e.buf srcs
        return if a.flagn ≠ 0 then ({ e with buf } : Enc).setFlag a.flagn a.flagb
          else { e with buf }) =
      (bufCats mv e.buf (if a.flagn ≠ 0 ∧ v.isAbsent then [] else srcs)).map fun buf =>
        if a.flagn ≠ 0 ∧ ¬ v.isAbsent then ({ e with buf } : Enc).setFlag a.flagn a.flagb
        else { e with buf } := by
  by_cases habsent : a.flagn ≠ 0 ∧ v.isAbsent = true
  · rw [if_pos habsent, if_pos habsent]
    simp only [habsent.2, not_true_eq_false, and_false, if_false]
    rfl
  · rw [if_neg habsent, if_neg habsent, Option.map_eq_bind]
    by_cases hflagn : a.flagn ≠ 0
    · have hset : a.flagn ≠ 0 ∧ ¬ v.isAbsent = true := ⟨hflagn, fun h => habsent ⟨hflagn, h⟩⟩
      simp only [if_pos hset, if_pos hflagn]
      rfl
    · simp only [if_neg hflagn, if_neg fun h : a.flagn ≠ 0 ∧ ¬ v.isAbsent = true => hflagn h.1]
      rfl

theorem appendArg_eq (a : Arg) (v : Value) (e : Enc) :
    appendArg S isMtproto mv a v e =
      if a.isFlags then e.reserve mv
      else (bufCats mv e.buf (argPieces S isMtproto a v)).map fun buf =>
        if a.type.isSome ∧ a.flagn ≠ 0 ∧ ¬ v.isAbsent then
          ({ e with buf } : Enc).setFlag a.flagn a.flagb
        else { e with buf } := by
  cases ht : a.type with
  | none =>
    simp only [appendArg, argPieces, ht, Option.map_none]
    rfl
  | some t =>
    have hflags : a.isFlags = false := by simp [Arg.isFlags, ht]
    rw [hflags, if_neg Bool.false_ne_true]
    simp only [appendArg, argPieces, ht, Option.map_some, Option.isSome_some, true_and]
    cases tyOf t with
    | true =>
      dsimp only
      split_ifs <;> rfl
    | _ => exact guarded_eq a v e _

theorem appendArg_spec {a : Arg} {v : Value} {e e' : Enc} {k : Nat} {pre : List Seg}
    {L : List (Nat × Nat)} (h : EncInv e k pre L) (hp : Placed mv e.buf e.flagp)
    (hg : a.type.isSome → a.flagn ≤ k ∧ a.flagb < 32)
    (hrun : appendArg S isMtproto mv a v e = some e') :
    ∃ L', EncInv e' (flagsAfter k a) (pre ++ [seg S isMtproto k a v]) L' ∧
      Placed mv e'.buf e'.flagp ∧ Landed mv e' (guardOf a v) L L' := by
  rw [appendArg_eq] at hrun
  by_cases hflags : a.isFlags = true
  · have hguard : guardOf a v = [] := by
      simp only [Arg.isFlags, Bool.and_eq_true, Option.isNone_iff_eq_none] at hflags
      simp [guardOf, hflags.1]
    rw [if_pos hflags] at hrun
    rw [flagsAfter, seg, if_pos hflags, if_pos hflags, hguard]
    exact ⟨L, h.reserve hrun, hp.reserve hrun, Landed.none⟩
  · rw [if_neg hflags, Option.map_eq_some_iff] at hrun
    obtain ⟨buf, hcat, rfl⟩ := hrun
    have hinv := h.append_raw (bufCats_eq_some hcat)
    have hp' := hp.bufCats hcat
    rw [flagsAfter, seg, if_neg hflags, if_neg hflags]
    rw [guardOf]
    split_ifs with hset
    · exact setFlag_spec hinv hp' (Nat.one_le_iff_ne_zero.mpr hset.2.1) (hg hset.1).1
    · exact ⟨L, hinv, hp', Landed.none⟩

/-- An argument is appended exactly as long as the sum of the sizes does not wrap around. -/
theorem appendArg_isSome {a : Arg} {v : Value} {e : Enc} {k : Nat} {pre : List Seg}
    {L : List (Nat × Nat)} (h : EncInv e k pre L)
    (hlt : size pre + (seg S isMtproto k a v).size < bufLimit) :
    ∃ e', appendArg S isMtproto mv a v e = some e' := by
  rw [appendArg_eq]
  rw [← h.size_eq] at hlt
  by_cases hflags : a.isFlags = true
  · rw [seg, if_pos hflags] at hlt
    obtain ⟨buf, hbuf⟩ : ∃ buf, bufCat mv e.buf (le32 0) = some buf :=
      bufCat_isSome (by rwa [le32_length])
    exact ⟨_, by rw [if_pos hflags, Enc.reserve, hbuf]; rfl⟩
  · rw [seg, if_neg hflags] at hlt
    obtain ⟨buf, hbuf⟩ : ∃ buf, bufCats mv e.buf _ = some buf := bufCats_isSome hlt
    exact ⟨_, by rw [if_neg hflags, hbuf]; rfl⟩

theorem appendArg_lt {a : Arg} {v : Value} {e e' : Enc} {k : Nat} {pre : List Seg}
    {L : List (Nat × Nat)} (h : EncInv e k pre L) (hlt : size pre < bufLimit)
    (hrun : appendArg S isMtproto mv a v e = some e') :
    size pre + (seg S isMtproto k a v).size < bufLimit := by
  rw [appendArg_eq] at hrun
  rw [← h.size_eq] at hlt ⊢
  by_cases hflags : a.isFlags = true
  · rw [if_pos hflags, Enc.reserve] at hrun
    simp only [Option.pure_def, Option.bind_eq_bind, Option.bind_eq_some_iff] at hrun
    obtain ⟨buf, hcat, _⟩ := hrun
    have := (bufCat_eq_some hcat).1
    rw [seg, if_pos hflags]
    rwa [le32_length] at this
  · rw [if_neg hflags, Option.map_eq_some_iff] at hrun
    obtain ⟨buf, hcat, _⟩ := hrun
    have := bufCats_lt hcat hlt
    rw [seg, if_neg hflags]
    rwa [bufCats_size hcat] at this

theorem appendArgs_spec {as : List Arg} {vs : List Value} {e e' : Enc} {k : Nat} {pre : List Seg}
    {L : List (Nat × Nat)} (h : EncInv e k pre L) (hp : Placed mv e.buf e.flagp)
    (hg : GuardsOk k as) (hrun : appendArgs S isMtproto mv as vs e = some e') :
    ∃ L', e'.buf.data = render (wordsOf L') (pre ++ segs S isMtproto k as vs) ∧
      (∀ g ∈ L, g ∈ L') ∧
      (∀ g ∈ L', g ∈ L ∨ g ∈ suppliedGuards as vs) ∧
      (∀ g ∈ guardsWithin S isMtproto BUFSIZ (size pre) as vs, g ∈ L') ∧
      ((∀ n, mv n = true) →
        ∀ g ∈ L', g ∈ L ∨ g ∈ guardsWithin S isMtproto BUFSIZ (size pre) as vs) := by
  induction as generalizing vs e k pre L with
  | nil =>
    cases hrun
    refine ⟨L, ?_, fun g hg => hg, fun g hg => .inl hg, by simp [guardsWithin],
      fun _ g hg => .inl hg⟩
    simp [segs, h.data]
  | cons a as ih =>
    cases vs with
    | nil =>
      cases hrun
      refine ⟨L, ?_, fun g hg => hg, fun g hg => .inl hg, by simp [guardsWithin],
        fun _ g hg => .inl hg⟩
      simp [segs, h.data]
    | cons v vs =>
      simp only [appendArgs, Option.bind_eq_bind, Option.bind_eq_some_iff] at hrun
      obtain ⟨e₁, harg, hrest⟩ := hrun
      obtain ⟨L₁, hinv, hp₁, hland⟩ := appendArg_spec h hp hg.1 harg
      obtain ⟨L', hdata, hkeep, honly, hwithin, hlost⟩ := ih hinv hp₁ hg.2 hrest
      have hpos : size (pre ++ [seg S isMtproto k a v]) =
          size pre + (seg S isMtproto 0 a v).size := by
        rw [size_append, size_cons, size_nil, seg_size_eq k 0, Nat.add_zero]
      have hsize : e₁.buf.size = size pre + (seg S isMtproto 0 a v).size := by
        rw [hinv.size_eq, hpos]
      rw [hpos] at hwithin hlost
      refine ⟨L', ?_, fun g hg => hkeep g (hland.keeps g hg), fun g hg => ?_, fun g hg => ?_,
        fun hmv g hg => ?_⟩
      · simpa [segs] using hdata
      · simp only [suppliedGuards, List.mem_append]
        rcases honly g hg with hg | hg
        · rcases hland.only g hg with hg | hg
          · exact .inl hg
          · exact .inr (.inl hg)
        · exact .inr (.inr hg)
      · simp only [guardsWithin, List.mem_append] at hg
        rcases hg with hg | hg
        · split_ifs at hg with hle
          · exact hkeep g (hland.home (by omega) g hg)
          · simp at hg
        · exact hwithin g hg
      · simp only [guardsWithin, List.mem_append]
        rcases hlost hmv g hg with hg | hg
        · by_cases hle : e₁.buf.size ≤ BUFSIZ
          · rcases hland.only g hg with hg | hg
            · exact .inl hg
            · exact .inr (.inl (by rw [if_pos (by omega)]; exact hg))
          · rw [hland.lost hmv (by omega)] at hg
            exact .inl hg
        · exact .inr (.inr hg)

theorem appendArgs_isSome {as : List Arg} {vs : List Value} {e : Enc} {k : Nat} {pre : List Seg}
    {L : List (Nat × Nat)} (h : EncInv e k pre L) (hp : Placed mv e.buf e.flagp)
    (hg : GuardsOk k as) (hlt : size pre < bufLimit) :
    (∃ e', appendArgs S isMtproto mv as vs e = some e') ↔
      size pre + size (segs S isMtproto k as vs) < bufLimit := by
  induction as generalizing vs e k pre L with
  | nil => simpa [appendArgs, segs] using hlt
  | cons a as ih =>
    cases vs with
    | nil => simpa [appendArgs, segs] using hlt
    | cons v vs =>
      simp only [appendArgs, Option.bind_eq_bind, Option.bind_eq_some_iff, segs, size_cons]
      have hnext : ∀ e₁, appendArg S isMtproto mv a v e = some e₁ →
          ((∃ e', appendArgs S isMtproto mv as vs e₁ = some e') ↔
            size pre + (seg S isMtproto k a v).size +
              size (segs S isMtproto (flagsAfter k a) as vs) < bufLimit) := fun e₁ harg => by
        obtain ⟨L₁, hinv, hp₁, _⟩ := appendArg_spec h hp hg.1 harg
        have hpos : size (pre ++ [seg S isMtproto k a v]) =
            size pre + (seg S isMtproto k a v).size := by simp
        rw [← hpos]
        exact ih hinv hp₁ hg.2 (by rw [hpos]; exact appendArg_lt h hlt harg)
      constructor
      · rintro ⟨e', e₁, harg, hrest⟩
        have := (hnext e₁ harg).mp ⟨e', hrest⟩
        omega
      · intro hsize
        have hfirst : size pre + (seg S isMtproto k a v).size < bufLimit := by omega
        obtain ⟨e₁, harg⟩ : ∃ e₁, appendArg S isMtproto mv a v e = some e₁ :=
          appendArg_isSome h hfirst
        obtain ⟨e', hrest⟩ := (hnext e₁ harg).mpr (by omega)
        exact ⟨e', e₁, harg, hrest⟩

end Libtg
