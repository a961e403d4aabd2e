import Libtg.TlGenerator.Plain
import Libtg.TlGenerator.Presence
import Libtg.TlGenerator.Wire

/-!
# The decoders invert the encoders

`Fits` is the values a caller can ask for: each argument of its type, arguments guarded by the same
bit all supplied or none. `assemble` calls the encoders from the inside out, as a caller does who
passes finished buffers for nested objects. `wire_assemble` is the heart: on at most `BUFSIZ` bytes,
where every presence bit lands, the output of an encoder is an encoding of the value in the sense of
`WireField`. That the decoders read encodings back was shown without looking at any encoder.
-/

namespace Libtg

open LittleEndian Backpatch Cursor

/-! ## What a caller can ask for -/

/-- Arguments guarded by the same bit are all supplied or all left out. -/
def AllOrNone (as : List Arg) (vs : List Value) : Prop :=
  ∀ p ∈ as.zip vs, ∀ q ∈ as.zip vs, p.1.type.isSome → q.1.type.isSome → p.1.flagn ≠ 0 →
    p.1.flagn = q.1.flagn → p.1.flagb = q.1.flagb → p.2.isAbsent = q.2.isAbsent

mutual
/-- A value of the type: a C string has no NUL in it, and an object is of a listed constructor. -/
def FitsField (S : Schema) : Bool → Value → Ty → Prop
  | _, .int _, .int => True
  | _, .long _, .long => True
  | _, .double _, .double => True
  | _, .true, .true => True
  | isMtproto, .bytes b, .string => b.length < 2 ^ 24 ∧ (isMtproto = false → 0 ∉ b)
  | _, .bytes b, .bytes => b.length < 2 ^ 24
  | _, .bytes b, .int128 => b.length = 16
  | _, .bytes b, .int256 => b.length = 32
  | _, .vector xs, .vector e => xs.length ≤ 100 ∧ FitsElems S xs e
  | _, .object id fields, .object =>
    ∃ e, S.getFun id = some e ∧ e.Listed ∧ AllOrNone e.method.args fields ∧
      FitsArgs S e.isMtproto fields e.method.args
  | _, _, _ => False

/-- The elements of a vector; its strings are C strings in both schemas. -/
def FitsElems (S : Schema) : List Value → Elem → Prop
  | [], _ => True
  | x :: xs, e => (∃ ty, e.ty = some ty ∧ FitsField S false x ty) ∧ FitsElems S xs e

def FitsArgs (S : Schema) : Bool → List Value → List Arg → Prop
  | _, [], [] => True
  | isMtproto, v :: vs, a :: as =>
    (match a.type.map tyOf with
      | none => v = .absent
      | some ty => (a.flagn ≠ 0 ∧ v = .absent) ∨ FitsField S isMtproto v ty) ∧
    FitsArgs S isMtproto vs as
  | _, _, _ => False
end

mutual
/-- What the caller passes for a value: the buffer an encoder returned for an object. -/
def assemble (S : Schema) (mv : Nat → Bool) : Value → Option Value
  | .object id fields => do
    let e ← S.getFun id
    let f ← tlMethod S e
    let args ← assembleList S mv fields
    if h : List.Forall₂ (fun a v => a.admits v) e.method.args args then
      (f mv ⟨args, h⟩).map fun buf => .bytes buf.data
    else none
  | .vector xs => (assembleList S mv xs).map .vector
  | v => some v

def assembleList (S : Schema) (mv : Nat → Bool) : List Value → Option (List Value)
  | [] => some []
  | x :: xs => do
    let y ← assemble S mv x
    let ys ← assembleList S mv xs
    return y :: ys
end

variable {S : Schema} {mv : Nat → Bool}

theorem assemble_object {id : UInt32} {fields : List Value} {v : Value}
    (h : assemble S mv (.object id fields) = some v) :
    ∃ e f, ∃ args : e.Args, ∃ buf, S.getFun id = some e ∧ tlMethod S e = some f ∧
      assembleList S mv fields = some args.1 ∧ f mv args = some buf ∧ v = .bytes buf.data := by
  simp only [assemble, Option.bind_eq_bind, Option.bind_eq_some_iff] at h
  obtain ⟨e, hfun, f, hf, args, hargs, hrun⟩ := h
  split_ifs at hrun with hadmits
  rw [Option.map_eq_some_iff] at hrun
  obtain ⟨buf, hbuf, rfl⟩ := hrun
  exact ⟨e, f, ⟨args, hadmits⟩, buf, hfun, hf, hargs, hbuf, rfl⟩

theorem assembleList_cons {x : Value} {xs ys : List Value}
    (h : assembleList S mv (x :: xs) = some ys) :
    ∃ y ys', assemble S mv x = some y ∧ assembleList S mv xs = some ys' ∧ ys = y :: ys' := by
  simp only [assembleList, Option.pure_def, Option.bind_eq_bind, Option.bind_eq_some_iff,
    Option.some.injEq] at h
  obtain ⟨y, hy, ys', hys, rfl⟩ := h
  exact ⟨y, ys', hy, hys, rfl⟩

theorem assembleList_length {xs ys : List Value} (h : assembleList S mv xs = some ys) :
    ys.length = xs.length := by
  induction xs generalizing ys with
  | nil =>
    cases h
    rfl
  | cons x xs ih =>
    obtain ⟨y, ys', _, hys, rfl⟩ := assembleList_cons h
    rw [List.length_cons, List.length_cons, ih hys]

theorem assemble_isAbsent {v w : Value} (h : assemble S mv v = some w) :
    w.isAbsent = v.isAbsent := by
  cases v with
  | object id fields =>
    obtain ⟨e, f, args, buf, _, _, _, _, rfl⟩ := assemble_object h
    rfl
  | vector xs =>
    simp only [assemble, Option.map_eq_some_iff] at h
    obtain ⟨ys, _, rfl⟩ := h
    rfl
  | _ =>
    cases h
    rfl

/-! ## The presence bits of a small output -/

theorem suppliedGuards_assemble {as : List Arg} {vs ws : List Value}
    (h : assembleList S mv vs = some ws) : suppliedGuards as ws = suppliedGuards as vs := by
  induction as generalizing vs ws with
  | nil => cases vs <;> cases ws <;> rfl
  | cons a as ih =>
    cases vs with
    | nil =>
      cases h
      rfl
    | cons v vs =>
      obtain ⟨w, ws, hw, hws, rfl⟩ := assembleList_cons h
      rw [suppliedGuards, suppliedGuards, ih hws, guardOf, guardOf, assemble_isAbsent hw]

theorem mem_suppliedGuards {as : List Arg} {vs : List Value} {g : Nat × Nat} :
    g ∈ suppliedGuards as vs ↔ ∃ p ∈ as.zip vs, p.1.type.isSome ∧ p.1.flagn ≠ 0 ∧
      ¬ p.2.isAbsent ∧ g = (p.1.flagn, p.1.flagb) := by
  induction as generalizing vs with
  | nil => simp [suppliedGuards]
  | cons a as ih =>
    cases vs with
    | nil => simp [suppliedGuards]
    | cons v vs =>
      rw [suppliedGuards, List.mem_append, ih, List.zip_cons_cons, List.exists_mem_cons_iff,
        guardOf]
      refine or_congr ?_ Iff.rfl
      split_ifs with h
      · simp [h]
      · simp only [List.not_mem_nil, false_iff]
        tauto

theorem mem_guardsWithin {limit pos k : Nat} {as : List Arg} {vs : List Value} {m : Bool}
    (h : pos + size (segs S m k as vs) ≤ limit) :
    ∀ g ∈ suppliedGuards as vs, g ∈ guardsWithin S m limit pos as vs := by
  induction as generalizing vs pos k with
  | nil => simp [suppliedGuards]
  | cons a as ih =>
    cases vs with
    | nil => simp [suppliedGuards]
    | cons v vs =>
      rw [segs, size_cons, seg_size_eq k 0] at h
      intro g hg
      rw [suppliedGuards, List.mem_append] at hg
      simp only [guardsWithin, List.mem_append]
      rcases hg with hg | hg
      · rw [if_pos (by omega)]
        exact .inl hg
      · exact .inr (ih (k := flagsAfter k a) (by omega) g hg)

/-- On at most `BUFSIZ` bytes the flags words say of every guarded argument whether it is there. -/
theorem tlMethod_small {e : Entry} {f : (Nat → Bool) → e.Args → Option Buf}
    (hf : tlMethod S e = some f) {args : e.Args} {buf : Buf} (hrun : f mv args = some buf)
    (hsize : buf.data.length ≤ BUFSIZ) {fields : List Value}
    (hargs : assembleList S mv fields = some args.1) (hall : AllOrNone e.method.args fields) :
    ∃ ws, buf.data = layout S e args.1 ws ∧
      ∀ p ∈ e.method.args.zip fields, p.1.type.isSome → p.1.flagn ≠ 0 →
        hasBit (ws p.1.flagn) p.1.flagb = !p.2.isAbsent := by
  have hg : GuardsOk 0 e.method.args := by
    simp only [tlMethod, Option.ite_none_right_eq_some] at hf
    exact compiles_guardsOk hf.1
  obtain ⟨L, hdata, honly, hwithin, _⟩ := tlMethod_spec hf hrun
  rw [hdata, layout_length] at hsize
  have hL : ∀ g, g ∈ L ↔ g ∈ suppliedGuards e.method.args fields := fun g => by
    rw [← suppliedGuards_assemble hargs]
    exact ⟨honly g, fun h => hwithin g (mem_guardsWithin hsize g h)⟩
  have hbounds : ∀ g ∈ suppliedGuards e.method.args fields, _ := suppliedGuards_bounds hg
  refine ⟨wordsOf L, hdata, fun p hp htype hflagn => ?_⟩
  have hbit : p.1.flagb < 32 := guardsOk_flagb hg p.1 (List.of_mem_zip hp).1 htype
  rw [Bool.eq_iff_iff, hasBit_wordsOf (fun g hgL => (hbounds g ((hL g).mp hgL)).2.2) hbit, hL,
    mem_suppliedGuards, Bool.not_eq_true', ← Bool.not_eq_true]
  constructor
  · rintro ⟨q, hq, hqtype, hqflagn, hqv, heq⟩
    rw [Prod.mk.injEq] at heq
    rwa [hall p hp q hq htype hqtype hflagn heq.1 heq.2]
  · exact fun hv => ⟨p, hp, htype, hflagn, hv, rfl⟩

/-! ## The output of an encoder is an encoding -/

/-- A schema file without two descriptors of one id; `tl_parse` drops those of id 0. -/
structure Schema.Parsed (S : Schema) : Prop where
  nodup : (S.map (·.method.id)).Nodup
  ids : ∀ e ∈ S, e.method.id ≠ 0

theorem getFun_eq_some {id : UInt32} {e : Entry} (h : S.getFun id = some e) :
    e ∈ S ∧ e.method.id = id :=
  ⟨List.mem_of_find?_eq_some h, by simpa using List.find?_some h⟩

theorem Schema.Parsed.getFun (hS : S.Parsed) {e : Entry} (he : e ∈ S) :
    S.getFun e.method.id = some e := by
  have hfind : (S.getFun e.method.id).isSome = true := by
    rw [Schema.getFun, List.find?_isSome]
    exact ⟨e, he, by simp⟩
  obtain ⟨e', he'⟩ := Option.isSome_iff_exists.mp hfind
  obtain ⟨hmem, hid⟩ := getFun_eq_some he'
  rw [he', List.inj_on_of_nodup_map hS.nodup hmem he hid]

/-- The values of the types without parts. -/
theorem wire_leaf {isMtproto : Bool} {v w : Value} {ty : Ty} (h : FitsField S isMtproto v ty)
    (ha : assemble S mv v = some w) (hobj : ∀ id fields, v ≠ .object id fields)
    (hvec : ∀ xs, v ≠ .vector xs) : WireField S v ty (pieces S isMtproto ty w).flatten := by
  cases v <;> cases ty <;> first | exact h.elim | skip
  case int.int | long.long | double.double =>
    cases ha
    simp [WireField, pieces]
  case true.true =>
    cases ha
    rfl
  case bytes.string b =>
    cases ha
    rw [WireField]
    cases isMtproto with
    | true => simpa [pieces, serializeStr_eq] using wireString_serializeBytes h.1
    | false =>
      simpa [pieces, serializeString_eq (h.2 rfl)] using wireString_serializeBytes h.1
  case bytes.bytes b =>
    cases ha
    simpa [WireField, pieces] using wireString_serializeBytes h
  case bytes.int128 b | bytes.int256 b =>
    cases ha
    have hlen : b.length = _ := h
    simp [WireField, pieces, ← hlen]
  case vector.vector xs _ => exact absurd rfl (hvec xs)
  all_goals exact absurd rfl (hobj _ _)

/-- In a vector a value is written as it is in a field of its own. -/
theorem elemPiece_eq {x y : Value} {e : Elem} {ty : Ty} (hl : e.Listed) (hty : e.ty = some ty)
    (h : FitsField S false x ty) (ha : assemble S mv x = some y) :
    elemPiece e y = (pieces S false ty y).flatten := by
  cases e <;> first | exact hl.elim | skip
  case object =>
    cases hty
    cases x <;> first | exact h.elim | skip
    obtain ⟨_, _, _, buf, _, _, _, _, rfl⟩ := assemble_object ha
    simp [elemPiece, pieces]
  all_goals
    cases hty
    cases x <;> first | exact h.elim | skip
    cases ha
    simp [elemPiece, pieces]

theorem FitsField.isAbsent {isMtproto : Bool} {v : Value} {ty : Ty}
    (h : FitsField S isMtproto v ty) : v.isAbsent = false := by
  cases v <;> first | rfl | exact h.elim

theorem argPieces_supplied {isMtproto : Bool} {a : Arg} {v : Value} {ty : Ty}
    (hty : a.type.map tyOf = some ty) (hv : v.isAbsent = false) :
    argPieces S isMtproto a v = pieces S isMtproto ty v := by
  rw [argPieces, hty]
  cases ty <;> simp [hv, pieces]

theorem argPieces_absent {isMtproto : Bool} {a : Arg} {v : Value}
    (hflagn : a.flagn ≠ 0) (hv : v.isAbsent = true) : argPieces S isMtproto a v = [] := by
  rw [argPieces]
  split <;> simp [hflagn, hv]

/-- The flags words a decoder has read after `k` of them. -/
def flagsOf (ws : Nat → UInt32) (k : Nat) : List UInt32 := (List.range k).map fun n => ws (n + 1)

theorem flagsOf_succ (ws : Nat → UInt32) (k : Nat) :
    flagsOf ws (k + 1) = flagsOf ws k ++ [ws (k + 1)] := by
  simp [flagsOf, List.range_succ]

theorem isPresent_flagsOf {ws : Nat → UInt32} {k : Nat} {a : Arg} (h : a.flagn ≤ k) :
    isPresent (flagsOf ws k) a =
      some (a.flagn = 0 || hasBit (ws a.flagn) a.flagb) := by
  rw [isPresent]
  by_cases hflagn : a.flagn = 0
  · simp [hflagn]
  · have hlt : a.flagn - 1 < k := by omega
    simp [hflagn, flagsOf, List.getElem?_range hlt, Nat.sub_add_cancel (Nat.pos_of_ne_zero hflagn)]

mutual
theorem wire_assemble (hS : S.Parsed) {isMtproto : Bool} {v w : Value} {ty : Ty}
    (h : FitsField S isMtproto v ty) (hl : ∀ e, ty = .vector e → e.Listed ∧ S.idVector?.isSome)
    (ha : assemble S mv v = some w)
    (hsize : (pieces S isMtproto ty w).flatten.length ≤ BUFSIZ) :
    WireField S v ty (pieces S isMtproto ty w).flatten := by
  match v with
  | .vector xs =>
    cases ty <;> first | exact h.elim | skip
    case vector e =>
      obtain ⟨hel, hid⟩ := hl e rfl
      obtain ⟨id, hid⟩ := Option.isSome_iff_exists.mp hid
      obtain ⟨hlen, hfit⟩ := h
      simp only [assemble, Option.map_eq_some_iff] at ha
      obtain ⟨ys, hys, rfl⟩ := ha
      have hcount := assembleList_length hys
      simp only [pieces, List.cons_append, List.nil_append, List.flatten_cons,
        List.length_append] at hsize ⊢
      refine ⟨hlen, _, _, (List.append_assoc _ _ _).symm, .inr ⟨id, hid, ?_⟩,
        wire_assembleElems hS hfit hel hys (by omega)⟩
      rw [Schema.idVector, hid, hcount, Option.getD_some]
  | .object id fields =>
    cases ty <;> first | exact h.elim | skip
    obtain ⟨e, hfun, hel, hall, hfit⟩ := h
    obtain ⟨e', f, args, buf, hfun', hf, hargs, hrun, rfl⟩ := assemble_object ha
    obtain rfl := Option.some.inj (hfun.symm.trans hfun')
    have hout : (pieces S isMtproto .object (.bytes buf.data)).flatten = buf.data := by
      simp [pieces]
    rw [hout] at hsize ⊢
    obtain ⟨ws, hdata, hbits⟩ := tlMethod_small hf hrun hsize hargs hall
    obtain ⟨hmem, hid⟩ := getFun_eq_some hfun
    have hplain := (compiles_iff hel).mp (by
      simp only [tlMethod, Option.ite_none_right_eq_some] at hf
      exact hf.1)
    rw [hdata, layout_length] at hsize
    rw [WireField]
    refine ⟨.inl rfl, hid ▸ hS.ids e hmem, e, hfun, _, hdata.trans (by rw [layout, hid]), ?_⟩
    rw [decide_eq_false hel.name]
    exact wire_assembleArgs hS (k := 0) hfit hel.types hplain.vector hargs hel.guards hbits
      (by omega)
  | .absent | .int _ | .long _ | .double _ | .true | .bytes _ | .message _ _ _ =>
    exact wire_leaf h ha (by simp) (by simp)

theorem wire_assembleElems (hS : S.Parsed) {xs ys : List Value} {e : Elem}
    (h : FitsElems S xs e) (hl : e.Listed) (ha : assembleList S mv xs = some ys)
    (hsize : (ys.map (elemPiece e)).flatten.length ≤ BUFSIZ) :
    WireElems S xs e (ys.map (elemPiece e)).flatten := by
  match xs with
  | [] =>
    cases ha
    rfl
  | x :: xs =>
    obtain ⟨y, ys, hy, hys, rfl⟩ := assembleList_cons ha
    obtain ⟨⟨ty, hty, hx⟩, hxs⟩ := h
    have hpiece := elemPiece_eq hl hty hx hy
    rw [List.map_cons, List.flatten_cons, List.length_append] at hsize
    refine ⟨elemPiece e y, (ys.map (elemPiece e)).flatten, rfl,
      wire_assembleElems hS hxs hl hys (by omega), ?_⟩
    rw [hty]
    rw [hpiece] at hsize ⊢
    exact wire_assemble hS hx (fun e' he' => by cases e <;> cases hty <;> cases he') hy (by omega)

theorem wire_assembleArgs (hS : S.Parsed) {isMtproto : Bool} {vs ws : List Value} {as : List Arg}
    {k : Nat} {words : Nat → UInt32} (h : FitsArgs S isMtproto vs as)
    (hl : ∀ a ∈ as, a.Listed) (hvec : ∀ a ∈ as, a.isVector = true → S.idVector?.isSome = true)
    (ha : assembleList S mv vs = some ws) (hg : GuardsOk k as)
    (hbits : ∀ p ∈ as.zip vs, p.1.type.isSome → p.1.flagn ≠ 0 →
      hasBit (words p.1.flagn) p.1.flagb = !p.2.isAbsent)
    (hsize : size (segs S isMtproto k as ws) ≤ BUFSIZ) :
    WireArgs S vs false as (flagsOf words k) (render words (segs S isMtproto k as ws)) := by
  match vs, as with
  | [], [] => rfl
  | [], _ :: _ => exact h.elim
  | _ :: _, [] => exact h.elim
  | v :: vs, a :: as =>
    obtain ⟨w, ws, hw, hws, rfl⟩ := assembleList_cons ha
    rw [FitsArgs] at h
    obtain ⟨hv, hvs⟩ := h
    rw [segs, size_cons] at hsize
    have hla := hl a List.mem_cons_self
    have hrest := wire_assembleArgs hS hvs (fun b hb => hl b (List.mem_cons_of_mem _ hb))
      (fun b hb => hvec b (List.mem_cons_of_mem _ hb)) hws hg.2
      (fun p hp => hbits p (List.mem_cons_of_mem _ hp)) (by omega)
    rw [WireArgs, segs, render_cons]
    cases hty : a.type.map tyOf with
    | none =>
      rw [hty] at hv
      have hflags : a.isFlags = true := by simpa [Arg.Listed, hty] using hla
      rw [flagsAfter, if_pos hflags] at hrest ⊢
      rw [if_pos hflags]
      refine ⟨hv, words (k + 1), _, by rw [seg, if_pos hflags]; rfl, ?_⟩
      rw [← flagsOf_succ]
      exact hrest
    | some ty =>
      rw [hty] at hv
      have htype : a.type.isSome = true := by
        cases ht : a.type with
        | none => simp [ht] at hty
        | some t => rfl
      have hflags : a.isFlags = false := by
        simp [Arg.isFlags, Option.isNone_iff_eq_none, Option.isSome_iff_ne_none.mp htype]
      rw [flagsAfter, hflags, if_neg Bool.false_ne_true] at hrest ⊢
      have hbit := hbits (a, v) List.mem_cons_self htype
      have hseg : seg S isMtproto k a w = .raw (argPieces S isMtproto a w).flatten := by
        rw [seg, hflags, if_neg Bool.false_ne_true]
      rw [isPresent_flagsOf (hg.1 htype).1, hseg, Seg.render]
      rw [hseg, Seg.size] at hsize
      have habsent := assemble_isAbsent hw
      rcases hv with ⟨hflagn, rfl⟩ | hfit
      · rw [hbit hflagn, argPieces_absent hflagn habsent]
        simp only [hflagn, decide_false, Bool.false_or, Value.isAbsent]
        exact ⟨trivial, hrest⟩
      · rw [hfit.isAbsent] at habsent hbit
        have hpresent : (decide (a.flagn = 0) || hasBit (words a.flagn) a.flagb) = true := by
          by_cases hflagn : a.flagn = 0
          · simp [hflagn]
          · simp [hbit hflagn]
        rw [hpresent]
        rw [argPieces_supplied hty habsent] at hsize ⊢
        refine ⟨_, _, rfl, wire_assemble hS hfit (fun e he => ?_) hw (by omega), hrest⟩
        subst he
        have hvector : a.isVector = true := by simp [Arg.isVector, hty]
        exact ⟨by simpa [Arg.Listed, hty] using hla, hvec a List.mem_cons_self hvector⟩
end

/-! ## The round trip -/

theorem elem_admits {x y : Value} {e : Elem} {ty : Ty} (hl : e.Listed) (hty : e.ty = some ty)
    (h : FitsField S false x ty) (ha : assemble S mv x = some y) : e.admits y = true := by
  cases e <;> first | exact hl.elim | skip
  case object =>
    cases hty
    cases x <;> first | exact h.elim | skip
    obtain ⟨_, _, _, buf, _, _, _, _, rfl⟩ := assemble_object ha
    rfl
  all_goals
    cases hty
    cases x <;> first | exact h.elim | skip
    cases ha
    rfl

theorem elems_admit {xs ys : List Value} {e : Elem} (hl : e.Listed) (h : FitsElems S xs e)
    (ha : assembleList S mv xs = some ys) : ys.all e.admits = true := by
  induction xs generalizing ys with
  | nil =>
    cases ha
    rfl
  | cons x xs ih =>
    obtain ⟨y, ys, hy, hys, rfl⟩ := assembleList_cons ha
    obtain ⟨⟨ty, hty, hx⟩, hxs⟩ := h
    rw [List.all_cons, elem_admits hl hty hx hy, ih hxs hys, Bool.and_self]

theorem ty_admits {isMtproto : Bool} {v w : Value} {ty : Ty} (h : FitsField S isMtproto v ty)
    (hl : ∀ e, ty = .vector e → e.Listed) (ha : assemble S mv v = some w) :
    ty.admits w = true := by
  cases v <;> cases ty <;> first | exact h.elim | skip
  case vector.vector xs e =>
    simp only [assemble, Option.map_eq_some_iff] at ha
    obtain ⟨ys, hys, rfl⟩ := ha
    have hlen : ys.length ≤ 100 := assembleList_length hys ▸ h.1
    rw [Ty.admits, elems_admit (hl e rfl) h.2 hys, Bool.and_true, decide_eq_true_eq]
    omega
  case object.object id fields =>
    obtain ⟨_, _, _, buf, _, _, _, _, rfl⟩ := assemble_object ha
    rfl
  case bytes.int128 b | bytes.int256 b =>
    cases ha
    have hlen : b.length = _ := h
    simp [Ty.admits, hlen]
  all_goals
    cases ha
    rfl

/-- What a caller assembles for values that fit is a well-typed call. -/
theorem args_admit {isMtproto : Bool} {vs ws : List Value} {as : List Arg}
    (h : FitsArgs S isMtproto vs as) (hl : ∀ a ∈ as, a.Listed)
    (ha : assembleList S mv vs = some ws) : List.Forall₂ (fun a v => a.admits v) as ws := by
  induction as generalizing vs ws with
  | nil =>
    cases vs with
    | nil =>
      cases ha
      exact .nil
    | cons v vs => exact h.elim
  | cons a as ih =>
    cases vs with
    | nil => exact h.elim
    | cons v vs =>
      obtain ⟨w, ws, hw, hws, rfl⟩ := assembleList_cons ha
      rw [FitsArgs] at h
      obtain ⟨hv, hvs⟩ := h
      refine .cons ?_ (ih hvs (fun b hb => hl b (List.mem_cons_of_mem _ hb)) hws)
      have hla := hl a List.mem_cons_self
      have habsent := assemble_isAbsent hw
      rw [Arg.admits]
      rw [Arg.Listed] at hla
      cases hty : a.type.map tyOf with
      | none =>
        rw [hty] at hv
        rw [habsent, hv]
        rfl
      | some ty =>
        rw [hty] at hv hla
        rcases hv with ⟨hflagn, rfl⟩ | hfit
        · dsimp only
          rw [habsent]
          simp [Value.isAbsent, hflagn]
        · dsimp only
          rw [ty_admits hfit (fun e he => by subst he; exact hla) hw, Bool.or_true]

/-- A structure in memory that stands for an object is one, with the object's fields. -/
theorem object_of_value? {x : Tl} {b : Bytes} {id : UInt32} {fields : List Value}
    (h : x = .null ∨ ∃ id' xs, x = .object id' b xs) (hx : x.value? = some (.object id fields)) :
    ∃ xs, x = .object id b xs ∧ Tl.values? xs = some fields := by
  obtain rfl | ⟨id', xs, rfl⟩ := h
  · simp [Tl.value?] at hx
  · simp only [Tl.value?, Option.map_eq_some_iff, Value.object.injEq] at hx
    obtain ⟨vs, hvs, rfl, rfl⟩ := hx
    exact ⟨xs, rfl, hvs⟩

/-- `tl_<name>` exists, and for all values a caller can ask for and an output that stays within the
first block, it returns, and whatever follows its output, `tl_deserialize` reads exactly the output
and returns an object of the same id with the same values. -/
def RoundTrips (S : Schema) (e : Entry) : Prop :=
  ∃ f, tlMethod S e = some f ∧
    ∀ mv fields args, AllOrNone e.method.args fields → FitsArgs S e.isMtproto fields e.method.args →
      assembleList S mv fields = some args → (layout S e args fun _ => 0).length ≤ BUFSIZ →
      ∃ h buf, f mv ⟨args, h⟩ = some buf ∧
        ∀ t, ∃ xs, tlDeserialize S (buf.data ++ t) =
            some (.object e.method.id (buf.data ++ t) xs, t) ∧ Tl.values? xs = some fields

/-- A guarded `int128`: `tl_guardedNonce` takes a pointer and reads `nonce_.data`. -/
def guardedNonce : Entry :=
  ⟨true, "guardedNonce", 1, [⟨"flags", none, 0, 0⟩, ⟨"nonce", some "int128", 1, 0⟩]⟩

end Libtg
