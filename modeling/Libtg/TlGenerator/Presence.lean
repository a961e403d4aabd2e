import Libtg.TlGenerator.Layout

/-!
# Presence bits in the final bytes

`tlMethod_spec` is the run of a whole encoder: the output is the layout of the arguments, and its
flags words hold the bits of supplied arguments, all of those whose argument ends within the first
`BUFSIZ` bytes, and no other where `realloc` always moves the block. From it follows exactly for
which arguments every presence bit survives the growth of the buffer.
-/

namespace Libtg

open LittleEndian Backpatch

variable {S : Schema} {isMtproto : Bool} {mv : Nat → Bool} {e : Entry}

/-- The number of flags words of a descriptor. -/
def flagsCount (as : List Arg) : Nat := as.foldl flagsAfter 0

theorem le_flagsAfter (k : Nat) (a : Arg) : k ≤ flagsAfter k a := by
  rw [flagsAfter]
  split_ifs <;> omega

theorem le_foldl_flagsAfter (k : Nat) (as : List Arg) : k ≤ as.foldl flagsAfter k := by
  induction as generalizing k with
  | nil => exact le_refl _
  | cons a as ih => exact (le_flagsAfter k a).trans (ih _)

theorem wordNumbers_cons (s : Seg) (ss : List Seg) :
    wordNumbers (s :: ss) = wordNumbers [s] ++ wordNumbers ss := by
  rw [← wordNumbers_append, List.singleton_append]

theorem wordNumbers_segs {as : List Arg} {vs : List Value} (k : Nat)
    (h : as.length = vs.length) :
    wordNumbers (segs S isMtproto k as vs) =
      List.range' (k + 1) (as.foldl flagsAfter k - k) := by
  induction as generalizing k vs with
  | nil => simp [segs, wordNumbers]
  | cons a as ih =>
    cases vs with
    | nil => cases h
    | cons v vs =>
      have hfirst := le_flagsAfter k a
      have hrest := le_foldl_flagsAfter (flagsAfter k a) as
      rw [segs, wordNumbers_cons, wordNumbers_seg, ih (flagsAfter k a) (Nat.succ_inj.mp h),
        List.foldl_cons, show flagsAfter k a + 1 = k + 1 + (flagsAfter k a - k) by omega,
        List.range'_append_1, show flagsAfter k a - k + (as.foldl flagsAfter (flagsAfter k a) -
          flagsAfter k a) = as.foldl flagsAfter (flagsAfter k a) - k by omega]

theorem guardsOk_flagb {as : List Arg} {k : Nat} (h : GuardsOk k as) :
    ∀ a ∈ as, a.type.isSome → a.flagb < 32 := by
  induction as generalizing k with
  | nil => simp
  | cons a as ih =>
    intro b hb
    rcases List.mem_cons.mp hb with rfl | hb
    · exact fun ht => (h.1 ht).2
    · exact ih h.2 b hb

/-- A supplied guard names a flags word of the descriptor and one of its 32 bits. -/
theorem suppliedGuards_bounds {as : List Arg} {vs : List Value} {k : Nat} (h : GuardsOk k as) :
    ∀ g ∈ suppliedGuards as vs, 1 ≤ g.1 ∧ g.1 ≤ as.foldl flagsAfter k ∧ g.2 < 32 := by
  induction as generalizing k vs with
  | nil => simp [suppliedGuards]
  | cons a as ih =>
    cases vs with
    | nil => simp [suppliedGuards]
    | cons v vs =>
      intro g hg
      rw [suppliedGuards, List.mem_append] at hg
      rcases hg with hg | hg
      · rw [guardOf] at hg
        split_ifs at hg with hset
        · rw [List.mem_singleton] at hg
          subst hg
          obtain ⟨hk, hb⟩ := h.1 hset.1
          have := (le_flagsAfter k a).trans (le_foldl_flagsAfter _ as)
          exact ⟨Nat.one_le_iff_ne_zero.mpr hset.2.1, hk.trans this, hb⟩
        · cases hg
      · exact ih h.2 g hg

theorem compiles_guardsOk (h : e.compiles S = true) : GuardsOk 0 e.method.args := by
  simp only [Entry.compiles, Bool.and_eq_true, decide_eq_true_eq] at h
  exact h.1.2

/-! ## A whole run -/

theorem encInv_init (id : UInt32) :
    EncInv ⟨bufAdd (le32 id), []⟩ 0 [.raw (le32 id)] [] where
  data := by simp [bufAdd, Seg.render]
  count := rfl
  numbers := rfl
  offset n block off hf := by simp at hf
  landed := by simp

theorem placed_init (id : UInt32) : Placed mv (bufAdd (le32 id)) [] where
  asize := rfl
  home _ := ⟨rfl, by simp⟩
  below _ := by simp
  moved _ _ := by simp

theorem layout_length (args : List Value) (ws : Nat → UInt32) :
    (layout S e args ws).length = 4 + size (segs S e.isMtproto 0 e.method.args args) := by
  simp [layout]

/-- An encoder returns as long as its output is shorter than `bufLimit`. -/
theorem tlMethod_isSome {f : (Nat → Bool) → e.Args → Option Buf} (hf : tlMethod S e = some f)
    (args : e.Args) :
    (∃ buf, f mv args = some buf) ↔ (layout S e args.1 fun _ => 0).length < bufLimit := by
  simp only [tlMethod, Option.ite_none_right_eq_some, Option.some.injEq] at hf
  obtain ⟨hc, rfl⟩ := hf
  have hrun : (∃ e', appendArgs S e.isMtproto mv e.method.args args.1
      ⟨bufAdd (le32 e.method.id), []⟩ = some e') ↔
        size [.raw (le32 e.method.id)] + size (segs S e.isMtproto 0 e.method.args args.1) <
          bufLimit :=
    appendArgs_isSome (encInv_init e.method.id) (placed_init e.method.id)
      (compiles_guardsOk hc) (by simp [Seg.size, bufLimit])
  rw [layout_length]
  simp only [Option.map_eq_some_iff, size_cons, size_nil, Seg.size, le32_length] at hrun ⊢
  rw [← hrun]
  constructor
  · rintro ⟨buf, e', he', rfl⟩
    exact ⟨e', he'⟩
  · rintro ⟨e', he'⟩
    exact ⟨_, e', he', rfl⟩

theorem tlMethod_spec {f : (Nat → Bool) → e.Args → Option Buf} (hf : tlMethod S e = some f)
    {args : e.Args} {buf : Buf} (hrun : f mv args = some buf) :
    ∃ L, buf.data = layout S e args.1 (wordsOf L) ∧
      (∀ g ∈ L, g ∈ suppliedGuards e.method.args args.1) ∧
      (∀ g ∈ guardsWithin S e.isMtproto BUFSIZ 4 e.method.args args.1, g ∈ L) ∧
      ((∀ n, mv n = true) →
        ∀ g ∈ L, g ∈ guardsWithin S e.isMtproto BUFSIZ 4 e.method.args args.1) := by
  simp only [tlMethod, Option.ite_none_right_eq_some, Option.some.injEq] at hf
  obtain ⟨hc, rfl⟩ := hf
  rw [Option.map_eq_some_iff] at hrun
  obtain ⟨e', hrun, rfl⟩ := hrun
  obtain ⟨L, hdata, _, honly, hwithin, hlost⟩ := appendArgs_spec (encInv_init e.method.id)
    (placed_init e.method.id) (compiles_guardsOk hc) hrun
  have hsize : size [.raw (le32 e.method.id)] = 4 := by simp [Seg.size]
  rw [hsize] at hwithin hlost
  refine ⟨L, ?_, fun g hg => ?_, hwithin, fun hmv g hg => ?_⟩
  · simpa [layout, Seg.render] using hdata
  · simpa using honly g hg
  · simpa using hlost hmv g hg

/-! ## When every bit survives -/

/-- Every bit of every flags word of the output says whether an argument it guards was supplied. -/
def PresenceKept (S : Schema) (e : Entry) (args : List Value) (data : Bytes) : Prop :=
  ∃ ws, data = layout S e args ws ∧
    ∀ n, 1 ≤ n → n ≤ flagsCount e.method.args → ∀ b < 32,
      (hasBit (ws n) b = true ↔ (n, b) ∈ suppliedGuards e.method.args args)

/-- However `realloc` moves the block, the encoder returns with its presence bits in place. -/
def PresenceSurvives (S : Schema) (e : Entry) (args : e.Args) : Prop :=
  ∃ f, tlMethod S e = some f ∧
    ∀ mv, ∃ buf, f mv args = some buf ∧ PresenceKept S e args.1 buf.data

/-- Two readings of one output have the same flags words. -/
theorem layout_inj {args : e.Args} {ws ws' : Nat → UInt32}
    (h : layout S e args.1 ws = layout S e args.1 ws') {n : Nat} (hn : 1 ≤ n)
    (hle : n ≤ flagsCount e.method.args) : ws n = ws' n := by
  refine render_inj (List.append_cancel_left h) n ?_
  rw [wordNumbers_segs 0 args.2.length_eq, List.mem_range'_1]
  rw [flagsCount] at hle
  omega

theorem presenceKept_wordsOf {args : e.Args} (hg : GuardsOk 0 e.method.args)
    {L : List (Nat × Nat)} (hL : ∀ g ∈ L, g ∈ suppliedGuards e.method.args args.1) :
    PresenceKept S e args.1 (layout S e args.1 (wordsOf L)) ↔
      ∀ g ∈ suppliedGuards e.method.args args.1, g ∈ L := by
  have hlt : ∀ g ∈ L, g.2 < 32 := fun g hgL => (suppliedGuards_bounds hg g (hL g hgL)).2.2
  constructor
  · rintro ⟨ws, hdata, hbits⟩ ⟨n, b⟩ hgs
    obtain ⟨hn, hle, hb⟩ := suppliedGuards_bounds hg _ hgs
    have hset := (hbits n hn hle b hb).mpr hgs
    rwa [← layout_inj hdata hn hle, hasBit_wordsOf hlt hb] at hset
  · intro hall
    refine ⟨wordsOf L, rfl, fun n _ _ b hb => ?_⟩
    rw [hasBit_wordsOf hlt hb]
    exact ⟨hL _, hall _⟩

theorem PresenceSurvives.within {args : e.Args} (h : PresenceSurvives S e args) :
    e.compiles S = true ∧ (layout S e args.1 fun _ => 0).length < bufLimit ∧
      ∀ g ∈ suppliedGuards e.method.args args.1,
        g ∈ guardsWithin S e.isMtproto BUFSIZ 4 e.method.args args.1 := by
  obtain ⟨f, hf, hall⟩ := h
  have hc : e.compiles S = true := by
    simp only [tlMethod, Option.ite_none_right_eq_some] at hf
    exact hf.1
  -- the realloc that always moves loses every bit it can
  obtain ⟨buf, hrun, hkept⟩ := hall fun _ => true
  obtain ⟨L, hdata, honly, _, hlost⟩ := tlMethod_spec hf hrun
  refine ⟨hc, (tlMethod_isSome hf args).mp ⟨buf, hrun⟩, fun g hg => ?_⟩
  rw [hdata, presenceKept_wordsOf (compiles_guardsOk hc) honly] at hkept
  exact hlost (fun _ => rfl) g (hkept g hg)

/-- Every presence bit survives exactly if the emitted text compiles, the sizes do not wrap around,
and each bit is set by an argument that ends within the block `buf` starts with. -/
theorem presenceSurvives_iff (S : Schema) (e : Entry) (args : e.Args) :
    PresenceSurvives S e args ↔
      e.compiles S = true ∧ (layout S e args.1 fun _ => 0).length < bufLimit ∧
        ∀ g ∈ suppliedGuards e.method.args args.1,
          g ∈ guardsWithin S e.isMtproto BUFSIZ 4 e.method.args args.1 := by
  refine ⟨PresenceSurvives.within, fun ⟨hc, hlt, hwithin⟩ => ?_⟩
  obtain ⟨f, hf⟩ : ∃ f, tlMethod S e = some f := ⟨_, if_pos hc⟩
  refine ⟨f, hf, fun mv => ?_⟩
  obtain ⟨buf, hrun⟩ : ∃ buf, f mv args = some buf := (tlMethod_isSome hf args).mpr hlt
  obtain ⟨L, hdata, honly, hkeep, _⟩ := tlMethod_spec hf hrun
  refine ⟨buf, hrun, ?_⟩
  rw [hdata, presenceKept_wordsOf (compiles_guardsOk hc) honly]
  exact fun g hg => hkeep g (hwithin g hg)

/-- `webPageEmpty`, whose optional `url` is the argument that outgrows the block. -/
def webPageEmpty : Entry :=
  ⟨false, "webPageEmpty", 0x211a1788,
    [⟨"flags", none, 0, 0⟩, ⟨"id", some "long", 0, 0⟩, ⟨"url", some "string", 1, 0⟩]⟩

def urlArgs (url : Bytes) : webPageEmpty.Args :=
  ⟨[.absent, .long 1, .bytes url], .cons rfl (.cons rfl (.cons rfl .nil))⟩

theorem urlArgs_within {url : Bytes} (h : BUFSIZ ≤ url.length) (hnul : 0 ∉ url) :
    (1, 0) ∉ guardsWithin S false BUFSIZ 4 webPageEmpty.method.args (urlArgs url).1 := by
  have hpieces : argPieces S false ⟨"url", some "string", 1, 0⟩ (.bytes url) =
      [serializeBytes url] := by
    rw [← serializeString_eq hnul]
    rfl
  have hsize := le_length_serializeBytes url
  have hurl : (seg S false 0 ⟨"url", some "string", 1, 0⟩ (.bytes url)).size =
      (serializeBytes url).length := by
    simp [seg, Arg.isFlags, Seg.size, hpieces]
  have hflags : guardOf ⟨"flags", none, 0, 0⟩ .absent = [] := rfl
  have hid : guardOf ⟨"id", some "long", 0, 0⟩ (.long 1) = [] := rfl
  simp only [urlArgs, webPageEmpty, guardsWithin, hflags, hid, hurl, ite_self, List.nil_append,
    List.append_nil]
  rw [if_neg (by omega)]
  exact List.not_mem_nil

theorem presenceSurvives_counterexample :
    ¬ PresenceSurvives [webPageEmpty] webPageEmpty (urlArgs (List.replicate BUFSIZ 0x61)) :=
  fun h => urlArgs_within (by rw [List.length_replicate]) (by simp [List.mem_replicate])
    (h.within.2.2 (1, 0) (List.mem_cons_self ..))

end Libtg
