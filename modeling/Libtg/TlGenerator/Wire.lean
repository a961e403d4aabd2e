import Libtg.TlGenerator.DeserializeTable

/-!
# Encodings of a schema

`WireField` says which byte strings are encodings of a value, by the schema alone: nothing here
follows the steps of a decoder. An encoding may pad its strings with any bytes and may leave out the
id of `vector` in front of a length, as both occur on the wire; a vector has at most 100 elements.
The bare `vector` is a sentence only when it is empty.

`consumes_tlDeserializeN` is the completeness of the decoders: on every buffer that starts with an
encoding of an object they read exactly that encoding and return exactly that object.
-/

namespace Libtg

open LittleEndian Backpatch Cursor

/-- The type whose encoding the elements of a vector have; `%Message` has its own. -/
def Elem.ty : Elem → Option Ty
  | .int => some .int
  | .bool => some .bool
  | .long => some .long
  | .double => some .double
  | .string => some .string
  | .bytes => some .bytes
  | .message => none
  | .int128 | .int256 | .true | .object => some .object

/-- A message of a container. -/
def WireMessage : Value → Bytes → Prop
  | .message msgId seqno body, p => body.length < 2 ^ 31 ∧
    p = le64 msgId ++ le32 seqno ++ le32 (UInt32.ofNat body.length) ++ body
  | _, _ => False

/-- The length `n` of a vector, with or without the id of `vector`. -/
def WireLen (S : Schema) (n : Nat) (p : Bytes) : Prop :=
  (p = le32 (UInt32.ofNat n) ∧ S.idVector? ≠ some (UInt32.ofNat n)) ∨
  ∃ id, S.idVector? = some id ∧ p = le32 id ++ le32 (UInt32.ofNat n)

mutual
/-- `p` is an encoding of the value as a field of the type. -/
def WireField (S : Schema) : Value → Ty → Bytes → Prop
  | .int x, .int, p => p = le32 x
  | .int x, .bool, p => ∃ w, p = le32 w ∧ x = if w = 0 then 0 else 1
  | .long x, .long, p => p = le64 x
  | .double x, .double, p => p = le64 x
  | .true, .true, p => p = []
  | .bytes b, .string, p => WireString b p
  | .bytes b, .bytes, p => WireString b p
  | .bytes b, .int128, p => b.length = 16 ∧ p = b
  | .bytes b, .int256, p => b.length = 32 ∧ p = b
  | .vector xs, .vector e, p =>
    xs.length ≤ 100 ∧ ∃ len q, p = len ++ q ∧ WireLen S xs.length len ∧ WireElems S xs e q
  | .object id fields, ty, p =>
    (ty = .object ∨ ty = .message) ∧ id ≠ 0 ∧ ∃ e, S.getFun id = some e ∧
      ∃ q, p = le32 id ++ q ∧
        WireArgs S fields (decide (e.method.name = "vector")) e.method.args [] q
  | _, _, _ => False

/-- `p` is the encodings of the elements of a vector one after the other. -/
def WireElems (S : Schema) : List Value → Elem → Bytes → Prop
  | [], _, p => p = []
  | x :: xs, e, p => ∃ q r, p = q ++ r ∧ WireElems S xs e r ∧
    match e.ty with
    | some ty => WireField S x ty q
    | none => WireMessage x q

/-- `p` is the encodings of the fields one after the other, after the flags words `flags`: what the
flags words say is there, and nothing else is. The bare `vector` has its elements in front. -/
def WireArgs (S : Schema) : List Value → Bool → List Arg → List UInt32 → Bytes → Prop
  | v :: vs, true, as, flags, p =>
    v = .vector [] ∧ ∃ q, p = le32 0 ++ q ∧ WireArgs S vs false as flags q
  | [], false, [], _, p => p = []
  | v :: vs, false, a :: as, flags, p =>
    match a.type.map tyOf with
    | none =>
      v = .absent ∧
        if a.isFlags then ∃ w q, p = le32 w ++ q ∧ WireArgs S vs false as (flags ++ [w]) q
        else WireArgs S vs false as flags p
    | some ty =>
      match isPresent flags a with
      | none => False
      | some false => v = .absent ∧ WireArgs S vs false as flags p
      | some true =>
        ∃ q r, p = q ++ r ∧ WireField S v ty q ∧ WireArgs S vs false as flags r
  | _, _, _, _, _ => False
end

/-- `p` is an encoding of the object. -/
def Wire (S : Schema) (v : Value) (p : Bytes) : Prop := WireField S v .object p

/-! ## Completeness of the decoders -/

variable {S : Schema}

theorem consumes_deserializeBody {b : Bytes} (h : b.length < 2 ^ 31) :
    Consumes (deserializeBody (UInt32.ofNat b.length)) b (· = b) := by
  have hlen : (UInt32.ofNat b.length).toNat = b.length := by
    rw [UInt32.toNat_ofNat']
    omega
  rw [deserializeBody, hlen, if_pos h]
  exact consumes_deserializeBuf rfl

theorem consumes_deserializeMtpMessage {v : Value} {p : Bytes} (h : WireMessage v p) :
    Consumes deserializeMtpMessage p fun x => x.value? = some v := by
  cases v with
  | message msgId seqno body =>
    obtain ⟨hlen, rfl⟩ := h
    rw [List.append_assoc, List.append_assoc]
    refine (consumes_deserializeUi64 _).bind_eq ((consumes_deserializeUi32 _).bind_eq
      ((consumes_deserializeUi32 _).bind_eq ((consumes_deserializeBody hlen).map ?_)))
    rintro _ rfl
    rfl
  | _ => exact h.elim

theorem consumes_deserializeVectorLen {n : Nat} {p : Bytes} (h : WireLen S n p) :
    Consumes (deserializeVectorLen S) p (· = UInt32.ofNat n) := by
  rcases h with ⟨rfl, hid⟩ | ⟨id, hid, rfl⟩
  · rw [← List.append_nil (le32 _)]
    refine (consumes_deserializeUi32 _).bind_eq ?_
    rw [if_neg hid]
    exact Consumes.pure rfl
  · refine (consumes_deserializeUi32 _).bind_eq ?_
    rw [if_pos hid]
    exact consumes_deserializeUi32 _

/-- An element is read as a field of its type is. -/
theorem deserializeField_elem {rec : Cursor Tl} {e : Elem} {ty : Ty} (h : e.ty = some ty) :
    deserializeField S rec ty = (·, true) <$> deserializeElem rec e := by
  cases e <;> cases h <;> simp [deserializeField, deserializeElem]

theorem consumes_deserializeElem {rec : Cursor Tl} {e : Elem} {v : Value} {p : Bytes}
    (hfield : ∀ ty, e.ty = some ty → Consumes (deserializeField S rec ty) p
      fun z => z.1.value? = some v ∧ z.2 = true)
    (hmsg : e.ty = none → WireMessage v p) :
    Consumes (deserializeElem rec e) p fun x => x.value? = some v := by
  cases hty : e.ty with
  | none =>
    cases e <;> cases hty
    exact consumes_deserializeMtpMessage (hmsg rfl)
  | some ty =>
    have := hfield ty hty
    rw [deserializeField_elem hty, Consumes.fmap_iff] at this
    exact this.mono fun _ hx => hx.1

theorem consumes_read {α : Type} {c : Cursor α} {a : α} {g : α → Tl × Bool} {v : Value}
    {p : Bytes} (hc : Consumes c p (· = a)) (hg : (g a).1.value? = some v ∧ (g a).2 = true) :
    Consumes (g <$> c) p fun z => z.1.value? = some v ∧ z.2 = true := by
  refine Consumes.fmap_iff.mpr (hc.mono ?_)
  rintro _ rfl
  exact hg

/-- The fields of a type without parts. -/
theorem consumes_leaf {rec : Cursor Tl} {v : Value} {ty : Ty} {p : Bytes} (h : WireField S v ty p)
    (hobj : ∀ id fields, v ≠ .object id fields) (hvec : ∀ xs, v ≠ .vector xs) :
    Consumes (deserializeField S rec ty) p fun z => z.1.value? = some v ∧ z.2 = true := by
  cases v <;> cases ty <;> first | exact h.elim | skip
  case int.int x =>
    cases h
    exact consumes_read (consumes_deserializeUi32 x) (by simp [Tl.value?])
  case int.bool x =>
    obtain ⟨w, rfl, rfl⟩ := h
    refine Consumes.fmap_iff.mpr ((consumes_deserializeUi32 w).map ?_)
    rintro _ rfl
    simp [Tl.value?]
  case long.long x =>
    cases h
    exact consumes_read (consumes_deserializeUi64 x) (by simp [Tl.value?])
  case double.double x =>
    cases h
    exact consumes_read (consumes_deserializeDouble x) (by simp [Tl.value?])
  case true.true =>
    cases h
    exact Consumes.pure ⟨rfl, rfl⟩
  case bytes.string | bytes.bytes =>
    exact consumes_read (consumes_deserializeBytes h) (by simp [Tl.value?])
  case bytes.int128 | bytes.int256 =>
    obtain ⟨hlen, rfl⟩ := h
    exact consumes_read (consumes_deserializeBuf hlen) (by simp [Tl.value?])
  case vector.vector xs _ => exact absurd rfl (hvec xs)
  all_goals exact absurd rfl (hobj _ _)

theorem consumes_tlDeserializeMethod {rec : Cursor Tl} {m : Method} {id : UInt32} {p q : Bytes}
    {head fields : List Value}
    (hhead : Consumes (deserializeVectorHead m) p fun xs => Tl.values? xs = some head)
    (hfields : Consumes (deserializeArgs S rec m.args []) q fun xs => Tl.values? xs = some fields) :
    Consumes (tlDeserializeMethod S rec m) (le32 id ++ (p ++ q))
      fun x => x.value? = some (.object id (head ++ fields)) := by
  refine Consumes.remaining_bind fun b => (consumes_deserializeUi32 id).bind_eq ?_
  refine hhead.bind fun xs hxs => hfields.map fun ys hys => ?_
  rw [Tl.value?, Tl.values?_append hxs hys]
  rfl

theorem consumes_deserializeVectorHead {m : Method} (h : m.name = "vector") :
    Consumes (deserializeVectorHead m) (le32 0) fun xs => Tl.values? xs = some [.vector []] := by
  rw [deserializeVectorHead, if_pos h, ← List.append_nil (le32 0)]
  exact (consumes_deserializeUi32 0).bind_eq
    (Consumes.remaining_bind fun data => Consumes.pure (by simp [Tl.values?, Tl.value?]))

theorem consumes_deserializeVectorHead_nil {m : Method} (h : m.name ≠ "vector") :
    Consumes (deserializeVectorHead m) [] fun xs => Tl.values? xs = some [] := by
  rw [deserializeVectorHead, if_neg h]
  exact Consumes.pure rfl

theorem consumes_tlDeserializeMethod_fields {rec : Cursor Tl} {m : Method} {id : UInt32}
    {q : Bytes} {fields : List Value} (h : m.name ≠ "vector")
    (hfields : Consumes (deserializeArgs S rec m.args []) q fun xs => Tl.values? xs = some fields) :
    Consumes (tlDeserializeMethod S rec m) (le32 id ++ q)
      fun x => x.value? = some (.object id fields) :=
  @consumes_tlDeserializeMethod S rec m id [] q [] fields (consumes_deserializeVectorHead_nil h)
    hfields

theorem consumes_tlDeserializeMethod_vector {rec : Cursor Tl} {m : Method} {id : UInt32}
    {q : Bytes} {fields : List Value} (h : m.name = "vector")
    (hfields : Consumes (deserializeArgs S rec m.args []) q fun xs => Tl.values? xs = some fields) :
    Consumes (tlDeserializeMethod S rec m) (le32 id ++ (le32 0 ++ q))
      fun x => x.value? = some (.object id (.vector [] :: fields)) :=
  consumes_tlDeserializeMethod (consumes_deserializeVectorHead h) hfields

mutual
theorem consumes_deserializeField {v : Value} {ty : Ty} {p : Bytes} {n : Nat}
    (h : WireField S v ty p) (hn : p.length ≤ n) :
    Consumes (deserializeField S (tlDeserializeN S n) ty) p
      fun z => z.1.value? = some v ∧ z.2 = true := by
  match v with
  | .vector xs =>
    cases ty <;> first | exact h.elim | skip
    case vector e =>
      obtain ⟨hlen, len, q, rfl, hl, hq⟩ := h
      rw [List.length_append] at hn
      have hval : (UInt32.ofNat xs.length).toNat = xs.length := by
        rw [UInt32.toNat_ofNat']
        omega
      have hle : ¬ UInt32.ofNat xs.length > 100 := by
        rw [gt_iff_lt, UInt32.lt_iff_toNat_lt, hval]
        exact Nat.not_lt.mpr hlen
      refine (consumes_deserializeVectorLen hl).bind_eq ?_
      rw [if_neg hle, hval]
      refine (consumes_deserializeElems hq (by omega)).map fun ys hys => ⟨?_, rfl⟩
      rw [Tl.value?, if_pos (by rw [hval, Tl.values?_length hys]), hys]
      rfl
  | .object id fields =>
    rw [WireField] at h
    obtain ⟨hty, hid, e, hfun, q, rfl, hq⟩ := h
    have hobj : Consumes (tlDeserializeN S n) (le32 id ++ q)
        fun x => x.value? = some (.object id fields) := by
      rw [List.length_append, le32_length] at hn
      obtain ⟨n, rfl⟩ : ∃ n', n = n' + 1 := ⟨n - 1, by omega⟩
      refine Consumes.peek_bind (by simp) ?_
      rw [List.take_left' (le32_length id), get32_le32, if_neg hid, hfun]
      cases hname : decide (e.method.name = "vector") with
      | false =>
        rw [hname] at hq
        exact consumes_tlDeserializeMethod_fields (of_decide_eq_false hname)
          (consumes_deserializeArgs hq (by omega))
      | true =>
        rw [hname] at hq
        match fields, hq with
        | _ :: fields, hq =>
          rw [WireArgs] at hq
          obtain ⟨rfl, r, rfl, hr⟩ := hq
          rw [List.length_append] at hn
          exact consumes_tlDeserializeMethod_vector (of_decide_eq_true hname)
            (consumes_deserializeArgs hr (by omega))
    rcases hty with rfl | rfl <;>
      exact Consumes.fmap_iff.mpr (hobj.mono fun x hx => ⟨hx, rfl⟩)
  | .absent | .int _ | .long _ | .double _ | .true | .bytes _ | .message _ _ _ =>
    exact consumes_leaf h (by simp) (by simp)

theorem consumes_deserializeElems {xs : List Value} {e : Elem} {p : Bytes} {n : Nat}
    (h : WireElems S xs e p) (hn : p.length ≤ n) :
    Consumes ((deserializeElem (tlDeserializeN S n) e).times xs.length) p
      fun ys => Tl.values? ys = some xs := by
  match xs with
  | [] =>
    cases h
    exact Consumes.pure rfl
  | x :: xs =>
    obtain ⟨q, r, rfl, hr, hq⟩ := h
    rw [List.length_append] at hn
    have hx : Consumes (deserializeElem (tlDeserializeN S n) e) q fun y => y.value? = some x := by
      refine consumes_deserializeElem (S := S) (fun ty hty => ?_) fun hty => ?_
      · rw [hty] at hq
        exact consumes_deserializeField hq (by omega)
      · rw [hty] at hq
        exact hq
    exact hx.bind fun y hy => (consumes_deserializeElems hr (by omega)).map fun ys hys =>
      Tl.values?_cons hy hys

theorem consumes_deserializeArgs {vs : List Value} {as : List Arg} {flags : List UInt32}
    {p : Bytes} {n : Nat} (h : WireArgs S vs false as flags p) (hn : p.length ≤ n) :
    Consumes (deserializeArgs S (tlDeserializeN S n) as flags) p
      fun xs => Tl.values? xs = some vs := by
  match vs, as with
  | [], [] =>
    rw [WireArgs] at h
    cases h
    exact Consumes.pure rfl
  | [], _ :: _ => exact h.elim
  | _ :: _, [] => exact h.elim
  | v :: vs, a :: as =>
    rw [deserializeArgs]
    rw [WireArgs] at h
    cases hty : a.type.map tyOf with
    | none =>
      rw [hty] at h
      obtain ⟨rfl, h⟩ := h
      by_cases hflags : a.isFlags = true
      · rw [if_pos hflags] at h ⊢
        obtain ⟨w, q, rfl, h⟩ := h
        rw [List.length_append] at hn
        exact (consumes_deserializeUi32 w).bind_eq (Consumes.fmap_iff.mpr
          ((consumes_deserializeArgs h (by omega)).mono fun xs hxs => Tl.values?_cons rfl hxs))
      · rw [if_neg hflags] at h ⊢
        exact Consumes.fmap_iff.mpr
          ((consumes_deserializeArgs h hn).mono fun xs hxs => Tl.values?_cons rfl hxs)
    | some ty =>
      rw [hty] at h
      cases hpresent : isPresent flags a with
      | none =>
        rw [hpresent] at h
        exact h.elim
      | some present =>
        rw [hpresent] at h
        cases present with
        | false =>
          obtain ⟨rfl, h⟩ := h
          exact Consumes.fmap_iff.mpr
            ((consumes_deserializeArgs h hn).mono fun xs hxs => Tl.values?_cons rfl hxs)
        | true =>
          obtain ⟨q, r, rfl, hq, hr⟩ := h
          rw [List.length_append] at hn
          refine (consumes_deserializeField hq (by omega)).bind ?_
          rintro ⟨x, _⟩ ⟨hx, rfl⟩
          exact Consumes.fmap_iff.mpr
            ((consumes_deserializeArgs hr (by omega)).mono fun xs hxs => Tl.values?_cons hx hxs)
end

theorem consumes_tlDeserialize {v : Value} {p : Bytes} (h : Wire S v p) :
    Consumes (tlDeserialize S) p fun x => x.value? = some v := by
  intro t
  have hfield := consumes_deserializeField h (n := (p ++ t).length) (by simp)
  exact (Consumes.fmap_iff.mp hfield).mono (fun x hx => hx.1) t

/-! ## Which buffers are decoded in full -/

/-- `tl_deserialize` returns `NULL`, or an object of which the bytes it consumed are an encoding,
and reads nothing past the end of the buffer. -/
def DecodesInFull (S : Schema) (b : Bytes) : Prop :=
  ∃ x t, tlDeserialize S b = some (x, t) ∧
    (x = .null ∨ ∃ v p, x.value? = some v ∧ Wire S v p ∧ b = p ++ t)

theorem tlDeserializeMethod_ne_null {rec : Cursor Tl} {m : Method} {b t : Bytes} :
    tlDeserializeMethod S rec m b ≠ some (.null, t) := by
  intro h
  obtain ⟨id, u, v, head, fields, -, -, -, hx⟩ := tlDeserializeMethod_eq_some h
  cases hx

theorem tlDeserialize_buf {b t : Bytes} {x : Tl} (h : tlDeserialize S b = some (x, t)) :
    x = .null ∨ ∃ id fields, x = .object id b fields := by
  obtain ⟨id, u, -, ⟨-, hnull, -⟩ | ⟨-, e, -, hm⟩⟩ := tlDeserialize_eq_some h
  · exact .inl hnull
  · obtain ⟨id', u', v, head, fields, -, -, -, rfl⟩ := tlDeserializeMethod_eq_some hm
    exact .inr ⟨id', head ++ fields, rfl⟩

/-- `NULL` is the answer exactly to an id that is zero or in no descriptor. -/
theorem tlDeserialize_null {b t : Bytes} :
    tlDeserialize S b = some (.null, t) ↔
      4 ≤ b.length ∧ (get32 (b.take 4) = 0 ∨ S.getFun (get32 (b.take 4)) = none) ∧ t = b := by
  rw [tlDeserialize_eq, bind_apply, peek]
  by_cases hlen : 4 ≤ b.length
  · rw [if_pos hlen, Option.bind_some]
    dsimp only
    by_cases hzero : get32 (b.take 4) = 0
    · rw [if_pos hzero]
      simp [pure_apply, hlen, hzero, eq_comm]
    · rw [if_neg hzero]
      cases hfun : S.getFun (get32 (b.take 4)) with
      | none => simp [pure_apply, hlen, eq_comm]
      | some e => simp [hzero, tlDeserializeMethod_ne_null]
  · simp [hlen]

/-- The object is in full exactly if the buffer starts with an encoding. -/
theorem decodesInFull_iff (S : Schema) (b : Bytes) :
    DecodesInFull S b ↔
      (4 ≤ b.length ∧ (get32 (b.take 4) = 0 ∨ S.getFun (get32 (b.take 4)) = none)) ∨
      ∃ v p t, b = p ++ t ∧ Wire S v p := by
  constructor
  · rintro ⟨x, t, hrun, rfl | ⟨v, p, _, hwire, rfl⟩⟩
    · obtain ⟨hlen, hid, _⟩ := tlDeserialize_null.mp hrun
      exact .inl ⟨hlen, hid⟩
    · exact .inr ⟨v, p, t, rfl, hwire⟩
  · rintro (⟨hlen, hid⟩ | ⟨v, p, t, rfl, hwire⟩)
    · exact ⟨.null, b, tlDeserialize_null.mpr ⟨hlen, hid, rfl⟩, .inl rfl⟩
    · obtain ⟨x, hrun, hx⟩ := consumes_tlDeserialize hwire t
      exact ⟨x, t, hrun, .inr ⟨v, p, hx, hwire, rfl⟩⟩

/-- `vector`, `msgs_ack` and `updateShort`. -/
def partialSchema : Schema :=
  [⟨true, ⟨"vector", 0x1cb5c415, []⟩⟩,
   ⟨true, ⟨"msgs_ack", 0x62d6b459, [⟨"msg_ids", some "Vector<long>", 0, 0⟩]⟩⟩,
   ⟨false, ⟨"updateShort", 0x78d4dec1,
     [⟨"update", some "Update", 0, 0⟩, ⟨"date", some "int", 0, 0⟩]⟩⟩]

/-- 101 acknowledgements, of which none is read. -/
def longAck : Bytes :=
  le32 0x62d6b459 ++ le32 0x1cb5c415 ++ le32 101 ++ List.replicate 808 1

/-- An update of a constructor the schema does not have, whose id ends up in `date`. -/
def unknownUpdate : Bytes := le32 0x78d4dec1 ++ le32 0xdeadbeef ++ le32 7 ++ le32 1700000000

set_option maxRecDepth 4000 in
theorem decodesInFull_counterexample :
    ¬ DecodesInFull partialSchema longAck ∧ ¬ DecodesInFull partialSchema unknownUpdate := by
  have hlong : ∃ t, tlDeserialize partialSchema longAck =
      some (.object 0x62d6b459 longAck [.vector 101 []], t) := ⟨_, rfl⟩
  have hunknown : ∃ t, tlDeserialize partialSchema unknownUpdate =
      some (.object 0x78d4dec1 unknownUpdate [.null, .int 0xdeadbeef], t) := ⟨_, rfl⟩
  constructor
  · rintro ⟨x, t, hrun, hx⟩
    obtain ⟨t', hlong⟩ := hlong
    cases hlong.symm.trans hrun
    obtain h | ⟨v, p, hv, _⟩ := hx
    · cases h
    · simp [Tl.value?, Tl.values?] at hv
  · rintro ⟨x, t, hrun, hx⟩
    obtain ⟨t', hunknown⟩ := hunknown
    cases hunknown.symm.trans hrun
    obtain h | ⟨v, p, hv, _⟩ := hx
    · cases h
    · simp [Tl.value?, Tl.values?] at hv

end Libtg
