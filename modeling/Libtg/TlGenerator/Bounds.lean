import Libtg.Tl.Mtproto
import Libtg.TlGenerator.Wire

/-!
# Reading inside the buffer

The decoders compare no size before they read. `read_ne_none_iff` says which buffers they stay
inside of: those in which everything is there that the buffer itself announces by its ids, flags
words, counts and lengths. `Whole` is what that means, for each primitive and each decoder.
-/

namespace Libtg

open LittleEndian Cursor

/-! ## What a buffer announces -/

/-- What the decoders read: the primitives (`buf` with the bits of the `int` it is given),
`tl_deserialize`, the function emitted for a descriptor, and the parts of such a function. -/
inductive Part where
  | nothing | ui32 | ui64 | double | bytes
  | buf (size : UInt32)
  | message | object
  | method (m : Method)
  | times (P : Part) (n : Nat)
  | args (as : List Arg) (flags : List UInt32)

def Part.Answer : Part → Type
  | .nothing => Unit
  | .ui32 => UInt32
  | .ui64 | .double => UInt64
  | .bytes | .buf _ => Bytes
  | .message | .object | .method _ => Tl
  | .times P _ => List P.Answer
  | .args _ _ => List Tl

/-- The function that reads it, where `rec` is `tl_deserialize`. -/
def Part.readWith (S : Schema) (rec : Cursor Tl) : (P : Part) → Cursor P.Answer
  | .nothing => pure ()
  | .ui32 => deserializeUi32
  | .ui64 => deserializeUi64
  | .double => deserializeDouble
  | .bytes => deserializeBytes
  | .buf size => deserializeBody size
  | .message => deserializeMtpMessage
  | .object => rec
  | .method m => tlDeserializeMethod S rec m
  | .times P n => (P.readWith S rec).times n
  | .args as flags => deserializeArgs S rec as flags

def Part.read (S : Schema) (P : Part) : Cursor P.Answer := P.readWith S (tlDeserialize S)

/-- What a field is read by; for a vector that depends on its length. -/
def Ty.part : Ty → Option Part
  | .int | .bool => some .ui32
  | .true => some .nothing
  | .long => some .ui64
  | .double => some .double
  | .string | .bytes => some .bytes
  | .int128 => some (.buf 16)
  | .int256 => some (.buf 32)
  | .message | .object => some .object
  | .vector _ => none

def Elem.part : Elem → Part
  | .int | .bool => .ui32
  | .long => .ui64
  | .double => .double
  | .string | .bytes => .bytes
  | .message => .message
  | .int128 | .int256 | .true | .object => .object

/-- `Whole S P b t`: what the buffer `b` announces as its part `P` is all there, and `t` is left.
An object of an unknown id is its id only, which stays in front of the next part; a vector of more
than 100 elements is its length only, and the last part of its object. -/
inductive Whole (S : Schema) : Part → Bytes → Bytes → Prop
  | nothing {t : Bytes} : Whole S .nothing t t
  | ui32 {w : UInt32} {t : Bytes} : Whole S .ui32 (le32 w ++ t) t
  | ui64 {w : UInt64} {t : Bytes} : Whole S .ui64 (le64 w ++ t) t
  | double {w : UInt64} {t : Bytes} : Whole S .double (le64 w ++ t) t
  | bytes {x p t : Bytes} : WireString x p ∨ LongString x p → Whole S .bytes (p ++ t) t
  | buf {size : UInt32} {x t : Bytes} :
      size.toNat < 2 ^ 31 → x.length = size.toNat → Whole S (.buf size) (x ++ t) t
  | message {msgId : UInt64} {seqno bytes : UInt32} {b t : Bytes} : Whole S (.buf bytes) b t →
      Whole S .message (le64 msgId ++ (le32 seqno ++ (le32 bytes ++ b))) t
  | unknown {id : UInt32} {t : Bytes} :
      id = 0 ∨ S.getFun id = none → Whole S .object (le32 id ++ t) (le32 id ++ t)
  | object {id : UInt32} {e : Entry} {b t : Bytes} :
      id ≠ 0 → S.getFun id = some e → Whole S (.method e.method) (le32 id ++ b) t →
      Whole S .object (le32 id ++ b) t
  | method {m : Method} {id : UInt32} {b t : Bytes} : m.name ≠ "vector" →
      Whole S (.args m.args []) b t → Whole S (.method m) (le32 id ++ b) t
  | bareVector {m : Method} {id len : UInt32} {b t : Bytes} : m.name = "vector" →
      Whole S (.args m.args []) b t → Whole S (.method m) (le32 id ++ (le32 len ++ b)) t
  | timesZero {P : Part} {t : Bytes} : Whole S (.times P 0) t t
  | timesSucc {P : Part} {n : Nat} {b t u : Bytes} :
      Whole S P b u → Whole S (.times P n) u t → Whole S (.times P (n + 1)) b t
  | argsNil {flags : List UInt32} {t : Bytes} : Whole S (.args [] flags) t t
  | flags {a : Arg} {as : List Arg} {flags : List UInt32} {w : UInt32} {b t : Bytes} :
      a.type = none → a.isFlags = true → Whole S (.args as (flags ++ [w])) b t →
      Whole S (.args (a :: as) flags) (le32 w ++ b) t
  | untyped {a : Arg} {as : List Arg} {flags : List UInt32} {b t : Bytes} :
      a.type = none → a.isFlags = false → Whole S (.args as flags) b t →
      Whole S (.args (a :: as) flags) b t
  | absent {a : Arg} {as : List Arg} {flags : List UInt32} {ty : Ty} {b t : Bytes} :
      a.type.map tyOf = some ty → isPresent flags a = some false → Whole S (.args as flags) b t →
      Whole S (.args (a :: as) flags) b t
  | field {a : Arg} {as : List Arg} {flags : List UInt32} {ty : Ty} {P : Part} {b t u : Bytes} :
      a.type.map tyOf = some ty → isPresent flags a = some true → ty.part = some P →
      Whole S P b u → Whole S (.args as flags) u t → Whole S (.args (a :: as) flags) b t
  | vector {a : Arg} {as : List Arg} {flags : List UInt32} {e : Elem} {len : UInt32}
      {p b t u : Bytes} :
      a.type.map tyOf = some (.vector e) → isPresent flags a = some true →
      WireLen S len.toNat p → len ≤ 100 → Whole S (.times e.part len.toNat) b u →
      Whole S (.args as flags) u t → Whole S (.args (a :: as) flags) (p ++ b) t
  | tooLong {a : Arg} {as : List Arg} {flags : List UInt32} {e : Elem} {len : UInt32}
      {p t : Bytes} :
      a.type.map tyOf = some (.vector e) → isPresent flags a = some true →
      WireLen S len.toNat p → 100 < len → Whole S (.args (a :: as) flags) (p ++ t) t

section
variable {S : Schema} {rec : Cursor Tl} {b t u : Bytes}

theorem deserializeBody_eq_some {size : UInt32} {x : Bytes} :
    deserializeBody size b = some (x, t) ↔
      size.toNat < 2 ^ 31 ∧ x.length = size.toNat ∧ b = x ++ t := by
  rw [deserializeBody]
  split_ifs with hsize
  · rw [and_iff_right hsize]
    exact takeBytes_eq_some
  · exact iff_of_false (fun h => by cases h) fun h => hsize h.1

theorem deserializeVectorLen_eq_some {len : UInt32} :
    deserializeVectorLen S b = some (len, t) ↔ ∃ p, WireLen S len.toNat p ∧ b = p ++ t := by
  constructor
  · intro h
    rw [deserializeVectorLen, bind_apply, Option.bind_eq_some_iff] at h
    obtain ⟨⟨w, u⟩, hw, h⟩ := h
    obtain rfl := deserializeUi32_eq_some.mp hw
    dsimp only at h
    split_ifs at h with hid
    · obtain rfl := deserializeUi32_eq_some.mp h
      refine ⟨le32 w ++ le32 len, .inr ⟨w, hid, ?_⟩, (List.append_assoc _ _ _).symm⟩
      rw [UInt32.ofNat_toNat]
    · cases h
      exact ⟨_, .inl ⟨rfl, by rwa [UInt32.ofNat_toNat]⟩, by rw [UInt32.ofNat_toNat]⟩
  · rintro ⟨p, hp, rfl⟩
    have h := (consumes_deserializeVectorLen hp).eq t
    rwa [UInt32.ofNat_toNat] at h

theorem deserializeBool_eq :
    deserializeBool = (fun w => Tl.int (if w = 0 then 0 else 1)) <$> deserializeUi32 := rfl

variable (S rec) in
/-- A field that is no vector is what its part answers. -/
theorem deserializeField_eq {ty : Ty} {P : Part} (h : ty.part = some P) :
    ∃ f : P.Answer → Tl, deserializeField S rec ty = (f ·, true) <$> P.readWith S rec := by
  cases ty <;> cases h
  case int => exact ⟨Tl.int, rfl⟩
  case bool =>
    refine ⟨fun w : UInt32 => .int (if w = 0 then 0 else 1), ?_⟩
    rw [deserializeField, deserializeBool_eq, Functor.map_map]
    rfl
  case true => exact ⟨fun _ => .true, rfl⟩
  case long => exact ⟨Tl.long, rfl⟩
  case int128 | int256 => exact ⟨Tl.buf, rfl⟩
  case double => exact ⟨Tl.double, rfl⟩
  case string | bytes => exact ⟨Tl.buf, rfl⟩
  case message | object => exact ⟨id, rfl⟩

variable (S rec) in
theorem deserializeElem_eq (e : Elem) :
    ∃ f : e.part.Answer → Tl, deserializeElem rec e = f <$> e.part.readWith S rec := by
  cases e
  case int => exact ⟨Tl.int, rfl⟩
  case bool => exact ⟨fun w : UInt32 => .int (if w = 0 then 0 else 1), rfl⟩
  case long => exact ⟨Tl.long, rfl⟩
  case double => exact ⟨Tl.double, rfl⟩
  case string | bytes => exact ⟨Tl.buf, rfl⟩
  case message => exact ⟨id, (id_map _).symm⟩
  case int128 | int256 | true | object => exact ⟨id, (id_map _).symm⟩

/-- Every answer of `c` read a whole `P`. -/
def Finds {α : Type} (S : Schema) (c : Cursor α) (P : Part) : Prop :=
  ∀ b a t, c b = some (a, t) → Whole S P b t

theorem finds_times {α : Type} {c : Cursor α} {P : Part} (h : Finds S c P) (n : Nat) :
    Finds S (c.times n) (.times P n) := by
  induction n with
  | zero =>
    intro b a t hc
    cases hc
    exact .timesZero
  | succ n ih =>
    intro b a t hc
    rw [times, bind_apply, Option.bind_eq_some_iff] at hc
    obtain ⟨⟨x, u⟩, hx, hc⟩ := hc
    obtain ⟨xs, hxs, -⟩ := map_eq_some hc
    exact .timesSucc (h _ _ _ hx) (ih _ _ _ hxs)

theorem finds_message : Finds S deserializeMtpMessage .message := by
  intro b x t h
  simp only [deserializeMtpMessage, bind_apply, Option.bind_eq_some_iff] at h
  obtain ⟨⟨msgId, b₁⟩, hid, ⟨seqno, b₂⟩, hseq, ⟨bytes, b₃⟩, hlen, ⟨body, b₄⟩, hbody, hret⟩ := h
  obtain rfl := deserializeUi64_eq_some.mp hid
  obtain rfl := deserializeUi32_eq_some.mp hseq
  obtain rfl := deserializeUi32_eq_some.mp hlen
  obtain ⟨hsize, hx, rfl⟩ := deserializeBody_eq_some.mp hbody
  cases hret
  exact .message (.buf hsize hx)

theorem finds_ui64 : Finds S deserializeUi64 .ui64 := by
  intro b w t h
  obtain rfl := deserializeUi64_eq_some.mp h
  exact .ui64

theorem finds_ui32 : Finds S deserializeUi32 .ui32 := by
  intro b w t h
  obtain rfl := deserializeUi32_eq_some.mp h
  exact .ui32

theorem finds_double : Finds S deserializeDouble .double := by
  intro b w t h
  obtain rfl := deserializeUi64_eq_some.mp h
  exact .double

theorem finds_bytes : Finds S deserializeBytes .bytes := by
  intro b x t h
  obtain ⟨p, hp, rfl⟩ := deserializeBytes_eq_some h
  exact .bytes hp

theorem finds_buf (size : UInt32) : Finds S (deserializeBody size) (.buf size) := by
  intro b x t h
  obtain ⟨hsize, hx, rfl⟩ := deserializeBody_eq_some.mp h
  exact .buf hsize hx

theorem finds_part (h : Finds S rec .object) {ty : Ty} {P : Part} (hty : ty.part = some P) :
    Finds S (P.readWith S rec) P := by
  cases ty <;> cases hty
  case int | bool => exact finds_ui32
  case true =>
    intro b a t ha
    cases ha
    exact .nothing
  case long => exact finds_ui64
  case int128 => exact finds_buf 16
  case int256 => exact finds_buf 32
  case double => exact finds_double
  case string | bytes => exact finds_bytes
  case message | object => exact h

theorem finds_elem (h : Finds S rec .object) (e : Elem) :
    Finds S (deserializeElem rec e) e.part := by
  intro b x t hc
  obtain ⟨f, hf⟩ := deserializeElem_eq S rec e
  rw [hf] at hc
  obtain ⟨y, hy, -⟩ := map_eq_some hc
  revert y
  cases e with
  | int | bool => exact fun y => finds_ui32 b y t
  | long => exact fun y => finds_ui64 b y t
  | double => exact fun y => finds_double b y t
  | string | bytes => exact fun y => finds_bytes b y t
  | message => exact fun y => finds_message b y t
  | int128 | int256 | true | object => exact fun y => h b y t

/-- The block of a vector: its length, and its elements where there are not too many. -/
theorem deserializeField_vector_eq_some {e : Elem} {x : Tl} {more : Bool}
    (h : deserializeField S rec (.vector e) b = some ((x, more), t)) :
    ∃ (len : UInt32) (p u : Bytes) (xs : List Tl), WireLen S len.toNat p ∧ b = p ++ u ∧
      x = .vector len xs ∧ (100 < len ∧ more = false ∧ xs = [] ∧ u = t ∨
        len ≤ 100 ∧ more = true ∧ (deserializeElem rec e).times len.toNat u = some (xs, t)) := by
  rw [deserializeField, bind_apply, Option.bind_eq_some_iff] at h
  obtain ⟨⟨len, u⟩, hlen, h⟩ := h
  obtain ⟨p, hp, rfl⟩ := deserializeVectorLen_eq_some.mp hlen
  dsimp only at h
  split_ifs at h with hlong
  · cases h
    exact ⟨len, p, _, [], hp, rfl, rfl, .inl ⟨hlong, rfl, rfl, rfl⟩⟩
  · rw [bind_apply, Option.bind_eq_some_iff] at h
    obtain ⟨⟨xs, v⟩, hxs, h⟩ := h
    cases h
    exact ⟨len, p, u, xs, hp, rfl, rfl, .inr ⟨UInt32.not_lt.mp hlong, rfl, hxs⟩⟩

/-- The block of an argument that is present, and what follows it. -/
theorem whole_of_field (h : Finds S rec .object) {a : Arg} {as : List Arg} {flags : List UInt32}
    {ty : Ty} (hty : a.type.map tyOf = some ty) (hpresent : isPresent flags a = some true)
    (hrest : Finds S (deserializeArgs S rec as flags) (.args as flags)) {x : Tl} {more : Bool}
    {xs : List Tl} (hfield : deserializeField S rec ty b = some ((x, more), u))
    (hc : (if more then (x :: ·) <$> deserializeArgs S rec as flags
      else return x :: as.map fun _ => .zero : Cursor (List Tl)) u = some (xs, t)) :
    Whole S (.args (a :: as) flags) b t := by
  cases hpart : ty.part with
  | some P =>
    obtain ⟨f, hf⟩ := deserializeField_eq S rec hpart
    rw [hf] at hfield
    obtain ⟨y, hy, heq⟩ := map_eq_some hfield
    cases heq
    rw [if_pos rfl] at hc
    obtain ⟨ys, hys, -⟩ := map_eq_some hc
    exact .field hty hpresent hpart (finds_part h hpart _ _ _ hy) (hrest _ _ _ hys)
  | none =>
    obtain ⟨e, rfl⟩ : ∃ e, ty = .vector e := by
      cases ty <;> cases hpart
      exact ⟨_, rfl⟩
    obtain ⟨len, p, v, ys, hp, rfl, -, ⟨hlong, rfl, -, rfl⟩ | ⟨hle, rfl, hys⟩⟩ :=
      deserializeField_vector_eq_some hfield
    · rw [if_neg Bool.false_ne_true] at hc
      cases hc
      exact .tooLong hty hpresent hp hlong
    · rw [if_pos rfl] at hc
      obtain ⟨zs, hzs, -⟩ := map_eq_some hc
      exact .vector hty hpresent hp hle (finds_times (finds_elem h e) _ _ _ _ hys)
        (hrest _ _ _ hzs)

/-- The statements for the arguments, one case for each kind of block. -/
theorem finds_args (h : Finds S rec .object) (as : List Arg) (flags : List UInt32) :
    Finds S (deserializeArgs S rec as flags) (.args as flags) := by
  induction as generalizing flags with
  | nil =>
    intro b x t hc
    cases hc
    exact .argsNil
  | cons a as ih =>
    intro b x t hc
    rw [deserializeArgs] at hc
    cases hty : a.type.map tyOf with
    | none =>
      have hnone : a.type = none := Option.map_eq_none_iff.mp hty
      rw [hty] at hc
      dsimp only at hc
      split_ifs at hc with hflags
      · rw [bind_apply, Option.bind_eq_some_iff] at hc
        obtain ⟨⟨w, u⟩, hw, hc⟩ := hc
        obtain rfl := deserializeUi32_eq_some.mp hw
        obtain ⟨xs, hxs, -⟩ := map_eq_some hc
        exact .flags hnone hflags (ih _ _ _ _ hxs)
      · obtain ⟨xs, hxs, -⟩ := map_eq_some hc
        exact .untyped hnone (by simpa using hflags) (ih _ _ _ _ hxs)
    | some ty =>
      rw [hty] at hc
      dsimp only at hc
      cases hpresent : isPresent flags a with
      | none =>
        rw [hpresent] at hc
        cases hc
      | some present =>
        rw [hpresent] at hc
        cases present with
        | false =>
          obtain ⟨xs, hxs, -⟩ := map_eq_some hc
          exact .absent hty hpresent (ih _ _ _ _ hxs)
        | true =>
          dsimp only at hc
          rw [bind_apply, Option.bind_eq_some_iff] at hc
          obtain ⟨⟨⟨y, more⟩, u⟩, hfield, hc⟩ := hc
          exact whole_of_field h hty hpresent (ih flags) hfield hc

theorem finds_method (h : Finds S rec .object) (m : Method) :
    Finds S (tlDeserializeMethod S rec m) (.method m) := by
  intro b x t hc
  obtain ⟨id, u, v, head, fields, rfl, hhead, hfields, -⟩ := tlDeserializeMethod_eq_some hc
  obtain ⟨hname, len, rfl, -⟩ | ⟨hname, -, rfl⟩ := deserializeVectorHead_eq_some hhead
  · exact .bareVector hname (finds_args h _ _ _ _ _ hfields)
  · exact .method hname (finds_args h _ _ _ _ _ hfields)

theorem finds_tlDeserializeN (S : Schema) (n : Nat) : Finds S (tlDeserializeN S n) .object := by
  induction n with
  | zero =>
    intro b x t h
    cases h
  | succ n ih =>
    intro b x t h
    obtain ⟨id, u, rfl, ⟨hid, -, rfl⟩ | ⟨hid, e, hfun, hm⟩⟩ := dispatch_eq_some h
    · exact .unknown hid
    · exact .object hid hfun (finds_method ih e.method _ _ _ hm)

/-- Soundness: what any of the functions read was all there. -/
theorem finds_readWith (h : Finds S rec .object) (P : Part) : Finds S (P.readWith S rec) P := by
  induction P with
  | nothing =>
    intro b a t ha
    cases ha
    exact .nothing
  | ui32 => exact finds_ui32
  | ui64 => exact finds_ui64
  | double => exact finds_double
  | bytes => exact finds_bytes
  | buf size => exact finds_buf size
  | message => exact finds_message
  | object => exact h
  | method m => exact finds_method h m
  | times P n ih => exact finds_times ih n
  | args as flags => exact finds_args h as flags

theorem finds_read (S : Schema) (P : Part) : Finds S (P.read S) P :=
  finds_readWith (fun b => finds_tlDeserializeN S b.length b) P

/-! ### What is there is read -/

theorem peek_le32 (id : UInt32) : peek 4 (le32 id ++ b) = some (le32 id, le32 id ++ b) := by
  rw [peek, if_pos (by simp), List.take_left' (le32_length id)]

theorem tlDeserialize_unknown {id : UInt32} (h : id = 0 ∨ S.getFun id = none) :
    tlDeserialize S (le32 id ++ b) = some (.null, le32 id ++ b) := by
  refine (congrFun (tlDeserialize_eq S) _).trans ?_
  rw [bind_of_some (peek_le32 id), get32_le32]
  obtain hzero | hfun := h
  · exact congrFun (if_pos hzero) _
  · split_ifs
    · exact pure_apply _ _
    · simp only [hfun, pure_apply]

theorem tlDeserialize_known {id : UInt32} {e : Entry} (hid : id ≠ 0)
    (hfun : S.getFun id = some e) :
    tlDeserialize S (le32 id ++ b) =
      tlDeserializeMethod S (tlDeserialize S) e.method (le32 id ++ b) := by
  refine (congrFun (tlDeserialize_eq S) _).trans ?_
  rw [bind_of_some (peek_le32 id), get32_le32]
  simp only [if_neg hid, hfun]

theorem deserializeArgs_flags {a : Arg} {as : List Arg} {flags : List UInt32} {w : UInt32}
    (hty : a.type = none) (hflags : a.isFlags = true) :
    deserializeArgs S rec (a :: as) flags (le32 w ++ b) =
      ((Tl.zero :: ·) <$> deserializeArgs S rec as (flags ++ [w])) b := by
  rw [deserializeArgs, hty]
  dsimp only [Option.map_none]
  rw [if_pos hflags, bind_of_some (deserializeUi32_eq_some.mpr rfl)]

theorem deserializeArgs_absent {a : Arg} {as : List Arg} {flags : List UInt32}
    (h : (a.type = none ∧ a.isFlags = false) ∨
      ∃ ty, a.type.map tyOf = some ty ∧ isPresent flags a = some false) :
    deserializeArgs S rec (a :: as) flags = (Tl.zero :: ·) <$> deserializeArgs S rec as flags := by
  rw [deserializeArgs]
  obtain ⟨hty, hflags⟩ | ⟨ty, hty, hpresent⟩ := h
  · rw [hty]
    dsimp only [Option.map_none]
    rw [hflags, if_neg Bool.false_ne_true]
  · rw [hty, hpresent]

theorem deserializeArgs_present {a : Arg} {as : List Arg} {flags : List UInt32} {ty : Ty} {x : Tl}
    (hty : a.type.map tyOf = some ty) (hpresent : isPresent flags a = some true)
    (hfield : deserializeField S rec ty b = some ((x, true), u)) :
    deserializeArgs S rec (a :: as) flags b =
      ((x :: ·) <$> deserializeArgs S rec as flags) u := by
  rw [deserializeArgs, hty, hpresent]
  dsimp only
  rw [bind_of_some hfield, if_pos rfl]

theorem deserializeArgs_last {a : Arg} {as : List Arg} {flags : List UInt32} {ty : Ty} {x : Tl}
    (hty : a.type.map tyOf = some ty) (hpresent : isPresent flags a = some true)
    (hfield : deserializeField S rec ty b = some ((x, false), t)) :
    deserializeArgs S rec (a :: as) flags b = some (x :: as.map fun _ => .zero, t) := by
  rw [deserializeArgs, hty, hpresent]
  dsimp only
  rw [bind_of_some hfield, if_neg Bool.false_ne_true]
  rfl

theorem deserializeField_vector {e : Elem} {len : UInt32} {xs : List Tl}
    (hlen : deserializeVectorLen S b = some (len, u)) (hle : len ≤ 100)
    (hxs : (deserializeElem rec e).times len.toNat u = some (xs, t)) :
    deserializeField S rec (.vector e) b = some ((.vector len xs, true), t) := by
  rw [deserializeField, bind_of_some hlen, if_neg (UInt32.not_lt.mpr hle), bind_of_some hxs]
  rfl

theorem deserializeField_tooLong {e : Elem} {len : UInt32}
    (hlen : deserializeVectorLen S b = some (len, t)) (hlong : 100 < len) :
    deserializeField S rec (.vector e) b = some ((.vector len [], false), t) := by
  rw [deserializeField, bind_of_some hlen, if_pos hlong]
  rfl

/-- Completeness, by the rules of `Whole`. -/
theorem Whole.read {P : Part} (h : Whole S P b t) : ∃ a, P.read S b = some (a, t) := by
  induction h with
  | nothing => exact ⟨(), rfl⟩
  | @ui32 w t => exact ⟨w, deserializeUi32_eq_some.mpr rfl⟩
  | @ui64 w t => exact ⟨w, deserializeUi64_eq_some.mpr rfl⟩
  | @double w t => exact ⟨w, deserializeUi64_eq_some.mpr rfl⟩
  | @bytes x p t hp =>
    obtain hp | hp := hp
    · exact ⟨x, (consumes_deserializeBytes hp).eq t⟩
    · exact ⟨x, (consumes_longString hp).eq t⟩
  | @buf size x t hsize hx => exact ⟨x, deserializeBody_eq_some.mpr ⟨hsize, hx, rfl⟩⟩
  | @message msgId seqno bytes b t hbody ih =>
    obtain ⟨x, hx⟩ : ∃ x : Bytes, deserializeBody bytes b = some (x, t) := ih
    refine ⟨Tl.message msgId seqno bytes x, ?_⟩
    show deserializeMtpMessage _ = _
    rw [deserializeMtpMessage, bind_of_some (deserializeUi64_eq_some.mpr rfl),
      bind_of_some (deserializeUi32_eq_some.mpr rfl),
      bind_of_some (deserializeUi32_eq_some.mpr rfl), bind_of_some hx]
    rfl
  | @unknown id t h =>
    exact ⟨.null, tlDeserialize_unknown h⟩
  | @object id e b t hid hfun _ ih =>
    obtain ⟨x, hx⟩ := ih
    exact ⟨x, (tlDeserialize_known hid hfun).trans hx⟩
  | @method m id b t hname _ ih =>
    obtain ⟨fields, hfields⟩ :
        ∃ xs, deserializeArgs S (tlDeserialize S) m.args [] b = some (xs, t) := ih
    refine ⟨Tl.object id (le32 id ++ b) ([] ++ fields), ?_⟩
    show tlDeserializeMethod _ _ _ _ = _
    rw [tlDeserializeMethod, bind_of_some rfl, bind_of_some (deserializeUi32_eq_some.mpr rfl),
      deserializeVectorHead, if_neg hname, bind_of_some rfl, bind_of_some hfields]
    rfl
  | @bareVector m id len b t hname _ ih =>
    obtain ⟨fields, hfields⟩ :
        ∃ xs, deserializeArgs S (tlDeserialize S) m.args [] b = some (xs, t) := ih
    refine ⟨Tl.object id (le32 id ++ (le32 len ++ b)) ([.pending len b] ++ fields), ?_⟩
    have hhead : deserializeVectorHead m (le32 len ++ b) = some ([.pending len b], b) := by
      rw [deserializeVectorHead, if_pos hname, bind_of_some (deserializeUi32_eq_some.mpr rfl)]
      rfl
    show tlDeserializeMethod _ _ _ _ = _
    rw [tlDeserializeMethod, bind_of_some rfl, bind_of_some (deserializeUi32_eq_some.mpr rfl),
      bind_of_some hhead, bind_of_some hfields]
    rfl
  | @timesZero P t => exact ⟨[], rfl⟩
  | @timesSucc P n b t u _ _ ihP ihn =>
    obtain ⟨x, hx⟩ := ihP
    obtain ⟨xs, hxs⟩ : ∃ xs : List P.Answer, (P.read S).times n u = some (xs, t) := ihn
    refine ⟨(x :: xs : List P.Answer), ?_⟩
    show (P.read S).times (n + 1) b = _
    rw [times, bind_of_some hx, bind_of_some hxs]
    rfl
  | @argsNil flags t => exact ⟨[], rfl⟩
  | @flags a as flags w b t hty hflags _ ih =>
    obtain ⟨xs, hxs⟩ := ih
    exact ⟨.zero :: xs, (deserializeArgs_flags hty hflags).trans (map_of_some _ hxs)⟩
  | @untyped a as flags b t hty hflags _ ih =>
    obtain ⟨xs, hxs⟩ := ih
    refine ⟨.zero :: xs, ?_⟩
    show deserializeArgs _ _ _ _ _ = _
    rw [deserializeArgs_absent (.inl ⟨hty, hflags⟩)]
    exact map_of_some _ hxs
  | @absent a as flags ty b t hty hpresent _ ih =>
    obtain ⟨xs, hxs⟩ := ih
    refine ⟨.zero :: xs, ?_⟩
    show deserializeArgs _ _ _ _ _ = _
    rw [deserializeArgs_absent (.inr ⟨ty, hty, hpresent⟩)]
    exact map_of_some _ hxs
  | @field a as flags ty P b t u hty hpresent hpart _ _ ihP ih =>
    obtain ⟨x, hx⟩ := ihP
    obtain ⟨xs, hxs⟩ := ih
    obtain ⟨f, hf⟩ := deserializeField_eq S (tlDeserialize S) hpart
    have hfield : deserializeField S (tlDeserialize S) ty b = some ((f x, true), u) := by
      rw [hf]
      exact map_of_some _ hx
    exact ⟨f x :: xs, (deserializeArgs_present hty hpresent hfield).trans (map_of_some _ hxs)⟩
  | @vector a as flags e len p b t u hty hpresent hlen hle _ _ ihx ih =>
    obtain ⟨ys, hys⟩ : ∃ ys, (e.part.readWith S (tlDeserialize S)).times len.toNat b =
      some (ys, u) := ihx
    obtain ⟨xs, hxs⟩ : ∃ xs, deserializeArgs S (tlDeserialize S) as flags u = some (xs, t) := ih
    obtain ⟨f, hf⟩ := deserializeElem_eq S (tlDeserialize S) e
    have hmap := times_map_of_some f hys
    rw [← hf] at hmap
    have hfield :=
      deserializeField_vector (deserializeVectorLen_eq_some.mpr ⟨p, hlen, rfl⟩) hle hmap
    refine ⟨.vector len (ys.map f) :: xs, ?_⟩
    exact (deserializeArgs_present hty hpresent hfield).trans (map_of_some _ hxs)
  | @tooLong a as flags e len p t hty hpresent hlen hlong =>
    refine ⟨Tl.vector len [] :: as.map fun _ => .zero, ?_⟩
    exact deserializeArgs_last hty hpresent
      (deserializeField_tooLong (deserializeVectorLen_eq_some.mpr ⟨p, hlen, rfl⟩) hlong)

end

/-- A decoder stays inside its buffer exactly when everything the buffer announces is there. -/
theorem read_ne_none_iff (S : Schema) (P : Part) (b : Bytes) :
    P.read S b ≠ none ↔ ∃ t, Whole S P b t := by
  constructor
  · intro h
    obtain ⟨⟨a, t⟩, hread⟩ := Option.ne_none_iff_exists'.mp h
    exact ⟨t, finds_read S P b a t hread⟩
  · rintro ⟨t, h⟩
    obtain ⟨a, hread⟩ := h.read
    rw [hread]
    exact Option.some_ne_none _

/-- The decoders stay inside every buffer. -/
def DecodersStayInside : Prop := ∀ (S : Schema) (P : Part) (b : Bytes), P.read S b ≠ none

/-- A packet that ends after the id of `msgs_ack`: the length of the vector is read behind it. -/
theorem decodersStayInside_counterexample : ¬ DecodersStayInside := by
  intro h
  exact h [vector, msgsAck] .object (le32 idMsgsAck) (by decide)

end Libtg
