import Libtg.TlGenerator.Methods

/-!
# Descriptors whose encoder is accepted by the C compiler

`Entry.Listed` is the descriptors a schema file declares with the types the generator has cases for.
Not every one of them gets an encoder: a guard turns an `int128` into a pointer the body still reads
as a structure, a `string` of `mtproto_api.tl` is a structure the guard tests and the vector case
passes for a C string, and a flags word in the last place leaves a comma behind. `compiles_iff` says
that these are all.
-/

namespace Libtg

variable {S : Schema} {e : Entry}

def Elem.Listed : Elem → Prop
  | .int | .long | .double | .string | .bytes | .object => True
  | .bool | .message | .int128 | .int256 | .true => False

instance : DecidablePred Elem.Listed
  | .int | .long | .double | .string | .bytes | .object => isTrue trivial
  | .bool | .message | .int128 | .int256 | .true => isFalse id

/-- A `#` is a flags word, a `true` is guarded, and the other types are the ones with a case in the
tables of both the encoder and the decoder. -/
def Arg.Listed (a : Arg) : Prop :=
  match a.type.map tyOf with
  | none => a.isFlags = true
  | some .true => a.flagn ≠ 0
  | some (.vector e) => e.Listed
  | some .bool | some .message => False
  | some _ => True

instance : DecidablePred Arg.Listed := fun a => by
  unfold Arg.Listed
  split <;> infer_instance

/-- A descriptor as `tl_parse` yields it: at most 64 arguments, each guard a bit of a flags word
before it. The bare `vector` is left out. -/
structure Entry.Listed (e : Entry) : Prop where
  name : e.method.name ≠ "vector"
  argc : e.method.args.length ≤ 64
  guards : GuardsOk 0 e.method.args
  types : ∀ a ∈ e.method.args, a.Listed

/-- Nothing in the descriptor trips one of the cases of the encoder's table. -/
structure Entry.Plain (S : Schema) (e : Entry) : Prop where
  ints : ∀ a ∈ e.method.args, a.flagn ≠ 0 →
    a.type.map tyOf ≠ some .int128 ∧ a.type.map tyOf ≠ some .int256
  strings : e.isMtproto = true → ∀ a ∈ e.method.args,
    (a.type.map tyOf = some .string → a.flagn = 0) ∧ a.type.map tyOf ≠ some (.vector .string)
  last : ∀ a, e.method.args.getLast? = some a → a.isFlags = true →
    ∀ a' ∈ e.method.args, a'.isFlags = true
  vector : ∀ a ∈ e.method.args, a.isVector = true → S.idVector?.isSome = true

/-- The type check of one argument's case. -/
theorem compiles_arg_iff {isMtproto : Bool} {a : Arg} (h : a.Listed) :
    a.compiles isMtproto = true ↔
      (a.flagn ≠ 0 → a.type.map tyOf ≠ some .int128 ∧ a.type.map tyOf ≠ some .int256) ∧
      (isMtproto = true → (a.type.map tyOf = some .string → a.flagn = 0) ∧
        a.type.map tyOf ≠ some (.vector .string)) := by
  rw [Arg.Listed] at h
  rw [Arg.compiles, bodyUses, paramType]
  generalize a.type.map tyOf = oty at h ⊢
  -- of the guard only its being there counts; the rest is a comparison of the tables of the
  -- parameter's type and of its uses, case by case
  by_cases hflagn : a.flagn = 0 <;> simp only [hflagn, ne_eq] at h ⊢ <;> cases isMtproto <;>
    rcases oty with _ | (_ | _ | _ | _ | _ | _ | _ | _ | _ |
      (_ | _ | _ | _ | _ | _ | _ | _ | _ | _) | _ | _) <;>
    first | exact h.elim | decide

theorem paramTokens_eq_nil (as : List Arg) :
    paramTokens as = [] ↔ ∀ a ∈ as, a.isFlags = true := by
  induction as with
  | nil => simp [paramTokens]
  | cons a as ih =>
    rw [paramTokens]
    cases hflags : a.isFlags <;> simp [hflags, ih]

/-- The parameter list ends in a comma exactly if a flags word comes last after a parameter. -/
theorem paramTokens_getLast (as : List Arg) :
    (paramTokens as).getLast? = some false ↔
      (∃ a, as.getLast? = some a ∧ a.isFlags = true) ∧ ∃ a ∈ as, a.isFlags = false := by
  induction as with
  | nil => simp [paramTokens]
  | cons a as ih =>
    rw [paramTokens]
    cases hflags : a.isFlags with
    | true =>
      rw [if_pos rfl, ih]
      cases as with
      | nil => simp [hflags]
      | cons a' as => simp [hflags]
    | false =>
      cases as with
      | nil => simp [paramTokens, hflags]
      | cons a' as =>
        have hexists : ∃ b ∈ a :: a' :: as, b.isFlags = false := ⟨a, List.mem_cons_self, hflags⟩
        rw [and_iff_left hexists, List.getLast?_cons_cons, if_neg Bool.false_ne_true,
          if_pos (List.cons_ne_nil _ _)]
        by_cases hnil : paramTokens (a' :: as) = []
        · rw [hnil]
          have hlast := (paramTokens_eq_nil _).mp hnil _
            (List.getLast_mem (List.cons_ne_nil a' as))
          exact ⟨fun _ => ⟨_, List.getLast?_eq_some_getLast (List.cons_ne_nil a' as), hlast⟩,
            fun _ => rfl⟩
        · have hother : ∃ b ∈ a' :: as, b.isFlags = false := by
            rw [paramTokens_eq_nil] at hnil
            simpa only [not_forall, Bool.not_eq_true, exists_prop] using hnil
          rw [and_iff_left hother] at ih
          rw [← ih, List.cons_append, List.singleton_append, List.getLast?_cons_of_ne_nil
            (List.cons_ne_nil _ _), List.getLast?_cons_of_ne_nil hnil]

/-- A listed descriptor has an encoder exactly if it is plain. -/
theorem compiles_iff (h : e.Listed) : e.compiles S = true ↔ e.Plain S := by
  have hargs : e.method.args.all (Arg.compiles e.isMtproto) = true ↔
      (∀ a ∈ e.method.args, a.flagn ≠ 0 →
        a.type.map tyOf ≠ some .int128 ∧ a.type.map tyOf ≠ some .int256) ∧
      (e.isMtproto = true → ∀ a ∈ e.method.args,
        (a.type.map tyOf = some .string → a.flagn = 0) ∧
          a.type.map tyOf ≠ some (.vector .string)) := by
    rw [List.all_eq_true]
    constructor
    · intro hall
      exact ⟨fun a ha => ((compiles_arg_iff (h.types a ha)).mp (hall a ha)).1,
        fun hm a ha => ((compiles_arg_iff (h.types a ha)).mp (hall a ha)).2 hm⟩
    · rintro ⟨hints, hstrings⟩ a ha
      exact (compiles_arg_iff (h.types a ha)).mpr ⟨hints a ha, fun hm => hstrings hm a ha⟩
  have hlast : ((paramTokens e.method.args).getLast? != some false) = true ↔
      ∀ a, e.method.args.getLast? = some a → a.isFlags = true →
        ∀ a' ∈ e.method.args, a'.isFlags = true := by
    rw [bne_iff_ne, ne_eq, paramTokens_getLast]
    constructor
    · intro hnot a ha hflags a' ha'
      by_contra hother
      exact hnot ⟨⟨a, ha, hflags⟩, a', ha', Bool.not_eq_true _ ▸ hother⟩
    · rintro hall ⟨⟨a, ha, hflags⟩, a', ha', hother⟩
      exact absurd (hall a ha hflags a' ha') (by simp [hother])
  have hvector : (!e.method.args.any Arg.isVector || S.idVector?.isSome) = true ↔
      ∀ a ∈ e.method.args, a.isVector = true → S.idVector?.isSome = true := by
    simp only [Bool.or_eq_true, Bool.not_eq_true', List.any_eq_false, Bool.not_eq_true]
    constructor
    · rintro (hnone | hsome) a ha hv
      · exact absurd hv (by simp [hnone a ha])
      · exact hsome
    · intro hall
      by_cases hany : ∃ a ∈ e.method.args, a.isVector = true
      · obtain ⟨a, ha, hv⟩ := hany
        exact .inr (hall a ha hv)
      · exact .inl fun a ha => Bool.eq_false_iff.mpr fun hv => hany ⟨a, ha, hv⟩
  rw [Entry.compiles, Bool.and_eq_true, Bool.and_eq_true, Bool.and_eq_true, hargs, hlast, hvector,
    decide_eq_true_eq]
  exact ⟨fun ⟨⟨⟨⟨hi, hs⟩, hl⟩, _⟩, hv⟩ => ⟨hi, hs, hl, hv⟩,
    fun ⟨hi, hs, hl, hv⟩ => ⟨⟨⟨⟨hi, hs⟩, hl⟩, h.guards⟩, hv⟩⟩

end Libtg
