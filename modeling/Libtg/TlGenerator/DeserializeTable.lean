import Libtg.Lib.Backpatch
import Libtg.Tl.Deserialize
import Libtg.TlGenerator.Method

/-!
# The emitted decoders (`append_deserialize_table`) and `tl_deserialize`

For each descriptor the generator emits a function that allocates a zeroed structure and fills its
fields in order. A vector that announces more than 100 elements ends the function at once with the
structure as it stands, and a nested object of an unknown id is a `NULL` field after which reading
goes on at the same place.

`tl_deserialize` and the emitted functions call each other. Each round reads an id, so a recursion
as deep as the buffer is long is enough (`tlDeserialize_eq`).
-/

namespace Libtg

open LittleEndian Backpatch Cursor

/-- The body of a message: `deserialize_buf` takes an `int`, and a negative one moves the cursor in
front of the buffer. -/
def deserializeBody (bytes : UInt32) : Cursor Bytes :=
  if bytes.toNat < 2 ^ 31 then deserializeBuf bytes.toNat else overrun

/-- `deserialize_mtp_message`. -/
def deserializeMtpMessage : Cursor Tl := do
  let msgId ← deserializeUi64
  let seqno ← deserializeUi32
  let bytes ← deserializeUi32
  let body ← deserializeBody bytes
  return .message msgId seqno bytes body

/-- A `bool` keeps 0 or 1 of the number read. -/
def deserializeBool : Cursor Tl := do
  let w ← deserializeUi32
  return .int (if w = 0 then 0 else 1)

/-- One element of a vector, where `rec` is `tl_deserialize`. -/
def deserializeElem (rec : Cursor Tl) : Elem → Cursor Tl
  | .int => Tl.int <$> deserializeUi32
  | .bool => deserializeBool
  | .long => Tl.long <$> deserializeUi64
  | .double => Tl.double <$> deserializeDouble
  | .string | .bytes => Tl.buf <$> deserializeBytes
  | .message => deserializeMtpMessage
  | .int128 | .int256 | .true | .object => rec

/-- The length of a vector, after the id of `vector` if it is there. -/
def deserializeVectorLen (S : Schema) : Cursor UInt32 := do
  let len ← deserializeUi32
  if S.idVector? = some len then deserializeUi32 else return len

/-- The block of an argument that is present: its field, and whether the function goes on. -/
def deserializeField (S : Schema) (rec : Cursor Tl) : Ty → Cursor (Tl × Bool)
  | .int => (Tl.int ·, true) <$> deserializeUi32
  | .true => return (.true, true)
  | .bool => (·, true) <$> deserializeBool
  | .long => (Tl.long ·, true) <$> deserializeUi64
  | .double => (Tl.double ·, true) <$> deserializeDouble
  | .string | .bytes => (Tl.buf ·, true) <$> deserializeBytes
  | .int128 => (Tl.buf ·, true) <$> deserializeBuf 16
  | .int256 => (Tl.buf ·, true) <$> deserializeBuf 32
  | .vector e => do
    let len ← deserializeVectorLen S
    if len > 100 then return (.vector len [], false)
    else
      let xs ← (deserializeElem rec e).times len.toNat
      return (.vector len xs, true)
  | .message | .object => (·, true) <$> rec

/-- `(flagN & (1 << b)) == (1 << b)` for the flags words read so far, if there is a `flagN`. -/
def isPresent (flags : List UInt32) (a : Arg) : Option Bool :=
  if a.flagn = 0 then some true else flags[a.flagn - 1]?.map (hasBit · a.flagb)

/-- The statements for the arguments, after the flags words `flags`. A guard without its flags word
is a text that does not compile. -/
def deserializeArgs (S : Schema) (rec : Cursor Tl) : List Arg → List UInt32 → Cursor (List Tl)
  | [], _ => return []
  | a :: as, flags =>
    match a.type.map tyOf with
    | none =>
      if a.isFlags then do
        let flag ← deserializeUi32
        (Tl.zero :: ·) <$> deserializeArgs S rec as (flags ++ [flag])
      else (Tl.zero :: ·) <$> deserializeArgs S rec as flags
    | some ty =>
      match isPresent flags a with
      | none => overrun
      | some false => (Tl.zero :: ·) <$> deserializeArgs S rec as flags
      | some true => do
        let (x, more) ← deserializeField S rec ty
        if more then (x :: ·) <$> deserializeArgs S rec as flags
        else return x :: as.map fun _ => .zero

/-- The fields only the bare `vector` has. -/
def deserializeVectorHead (m : Method) : Cursor (List Tl) :=
  if m.name = "vector" then do
    let len ← deserializeUi32
    let data ← remaining
    return [.pending len data]
  else return []

/-- `tl_deserialize_<name>`. -/
def tlDeserializeMethod (S : Schema) (rec : Cursor Tl) (m : Method) : Cursor Tl := do
  let buf ← remaining
  let id ← deserializeUi32
  let head ← deserializeVectorHead m
  let fields ← deserializeArgs S rec m.args []
  return .object id buf (head ++ fields)

/-- `tl_deserialize` with nested calls up to a depth. -/
def tlDeserializeN (S : Schema) : Nat → Cursor Tl
  | 0 => overrun
  | n + 1 => do
    let b ← peek 4
    if get32 b = 0 then return .null
    else
      match S.getFun (get32 b) with
      | none => return .null
      | some e => tlDeserializeMethod S (tlDeserializeN S n) e.method

/-- `tl_deserialize`. -/
def tlDeserialize (S : Schema) : Cursor Tl := fun b => tlDeserializeN S b.length b

/-! ## The depth does not matter -/

variable {S : Schema} {rec rec' : Cursor Tl}

theorem shortens_deserializeUi32 : Shortens 4 deserializeUi32 :=
  (shortens_takeBytes 4).bind fun _ => Shortens.pure _

theorem shortens_deserializeUi64 : Shortens 0 deserializeUi64 :=
  (shortens_takeBytes 8).weaken.bind fun _ => Shortens.pure _

theorem shortens_deserializeBytes : Shortens 0 deserializeBytes := by
  refine (shortens_peek 4).bind fun byte => ?_
  split_ifs <;>
    exact (shortens_skip _).weaken.bind fun _ => (shortens_takeBytes _).weaken.bind fun _ =>
      (shortens_skip _).weaken.bind fun _ => Shortens.pure _

theorem shortens_deserializeMtpMessage : Shortens 0 deserializeMtpMessage := by
  refine shortens_deserializeUi64.bind fun _ => shortens_deserializeUi32.weaken.bind fun _ =>
    shortens_deserializeUi32.weaken.bind fun n => Shortens.bind ?_ fun _ => Shortens.pure _
  rw [deserializeBody]
  split_ifs
  · exact (shortens_takeBytes _).weaken
  · exact Shortens.overrun

theorem shortens_deserializeBool : Shortens 0 deserializeBool :=
  shortens_deserializeUi32.weaken.bind fun _ => Shortens.pure _

theorem shortens_deserializeElem (h : Shortens 0 rec) (e : Elem) :
    Shortens 0 (deserializeElem rec e) := by
  cases e with
  | int => exact shortens_deserializeUi32.weaken.map _
  | bool => exact shortens_deserializeBool
  | long | double => exact shortens_deserializeUi64.map _
  | string | bytes => exact shortens_deserializeBytes.map _
  | message => exact shortens_deserializeMtpMessage
  | int128 | int256 | true | object => exact h

theorem shortens_deserializeVectorLen : Shortens 0 (deserializeVectorLen S) := by
  refine shortens_deserializeUi32.weaken.bind fun len => ?_
  split_ifs
  · exact shortens_deserializeUi32.weaken
  · exact Shortens.pure _

theorem shortens_deserializeField (h : Shortens 0 rec) (ty : Ty) :
    Shortens 0 (deserializeField S rec ty) := by
  cases ty with
  | int => exact shortens_deserializeUi32.weaken.map _
  | true => exact Shortens.pure _
  | bool => exact shortens_deserializeBool.map _
  | long | double => exact shortens_deserializeUi64.map _
  | string | bytes => exact shortens_deserializeBytes.map _
  | int128 | int256 => exact (shortens_takeBytes _).weaken.map _
  | vector e =>
    refine shortens_deserializeVectorLen.bind fun len => ?_
    split_ifs
    · exact Shortens.pure _
    · exact ((shortens_deserializeElem h e).times _).bind fun _ => Shortens.pure _
  | message | object => exact h.map _

theorem shortens_deserializeArgs (h : Shortens 0 rec) (as : List Arg) (flags : List UInt32) :
    Shortens 0 (deserializeArgs S rec as flags) := by
  induction as generalizing flags with
  | nil => exact Shortens.pure _
  | cons a as ih =>
    rw [deserializeArgs]
    split
    · split_ifs
      · exact shortens_deserializeUi32.weaken.bind fun _ => (ih _).map _
      · exact (ih _).map _
    · split
      · exact Shortens.overrun
      · exact (ih _).map _
      · refine (shortens_deserializeField h _).bind fun ⟨x, more⟩ => ?_
        dsimp only
        split_ifs
        · exact (ih _).map _
        · exact Shortens.pure _

theorem shortens_deserializeVectorHead (m : Method) : Shortens 0 (deserializeVectorHead m) := by
  rw [deserializeVectorHead]
  split_ifs
  · exact shortens_deserializeUi32.weaken.bind fun _ => shortens_remaining.bind fun _ =>
      Shortens.pure _
  · exact Shortens.pure _

theorem shortens_tlDeserializeN (S : Schema) (n : Nat) : Shortens 0 (tlDeserializeN S n) := by
  induction n with
  | zero => exact Shortens.overrun
  | succ n ih =>
    refine (shortens_peek 4).bind fun b => ?_
    split_ifs
    · exact Shortens.pure _
    · split
      · exact Shortens.pure _
      · exact shortens_remaining.bind fun _ => shortens_deserializeUi32.weaken.bind fun _ =>
          (shortens_deserializeVectorHead _).bind fun _ =>
            (shortens_deserializeArgs ih _ _).bind fun _ => Shortens.pure _

theorem agreeTo_deserializeElem {k : Nat} (h : AgreeTo k rec rec') (e : Elem) :
    AgreeTo k (deserializeElem rec e) (deserializeElem rec' e) := by
  cases e with
  | int128 | int256 | true | object => exact h
  | _ => exact AgreeTo.refl _ _

theorem agreeTo_deserializeField {k : Nat} (h : AgreeTo k rec rec') (hs : Shortens 0 rec)
    (ty : Ty) : AgreeTo k (deserializeField S rec ty) (deserializeField S rec' ty) := by
  cases ty with
  | vector e =>
    refine (AgreeTo.refl k _).bind shortens_deserializeVectorLen fun len => ?_
    split_ifs
    · exact AgreeTo.refl _ _
    · exact ((agreeTo_deserializeElem h e).times (shortens_deserializeElem hs e) _).bind
        ((shortens_deserializeElem hs e).times _) fun _ => AgreeTo.refl _ _
  | message | object => exact h.map _
  | _ => exact AgreeTo.refl _ _

theorem agreeTo_deserializeArgs {k : Nat} (h : AgreeTo k rec rec') (hs : Shortens 0 rec)
    (as : List Arg) (flags : List UInt32) :
    AgreeTo k (deserializeArgs S rec as flags) (deserializeArgs S rec' as flags) := by
  induction as generalizing flags with
  | nil => exact AgreeTo.refl _ _
  | cons a as ih =>
    rw [deserializeArgs, deserializeArgs]
    split
    · split_ifs
      · exact (AgreeTo.refl k _).bind shortens_deserializeUi32.weaken fun _ => (ih _).map _
      · exact (ih _).map _
    · split
      · exact AgreeTo.refl _ _
      · exact (ih _).map _
      · refine (agreeTo_deserializeField h hs _).bind (shortens_deserializeField hs _)
          fun ⟨x, more⟩ => ?_
        dsimp only
        split_ifs
        · exact (ih _).map _
        · exact AgreeTo.refl _ _

theorem agreeTo_tlDeserializeMethod {k : Nat} (h : AgreeTo k rec rec') (hs : Shortens 0 rec)
    (m : Method) :
    AgreeTo (k + 4) (tlDeserializeMethod S rec m) (tlDeserializeMethod S rec' m) := by
  refine (AgreeTo.refl (k + 4) _).bind shortens_remaining fun _ =>
    AgreeTo.bind_right shortens_deserializeUi32 fun _ => ?_
  exact (AgreeTo.refl k _).bind (shortens_deserializeVectorHead m) fun _ =>
    (agreeTo_deserializeArgs h hs _ _).bind (shortens_deserializeArgs hs _ _) fun _ =>
      AgreeTo.refl _ _

/-- A depth of the length of the buffer is enough. -/
theorem agreeTo_tlDeserializeN {n m : Nat} (h : n ≤ m) :
    AgreeTo n (tlDeserializeN S n) (tlDeserializeN S m) := by
  induction n generalizing m with
  | zero =>
    intro b hb
    rw [List.length_eq_zero_iff.mp (Nat.le_zero.mp hb)]
    cases m with
    | zero => rfl
    | succ m => simp [tlDeserializeN, bind_apply, peek, overrun]
  | succ n ih =>
    obtain ⟨m, rfl⟩ : ∃ m', m = m' + 1 := ⟨m - 1, by omega⟩
    refine (AgreeTo.refl _ _).bind (shortens_peek 4) fun b => ?_
    split_ifs
    · exact AgreeTo.refl _ _
    · split
      · exact AgreeTo.refl _ _
      · exact (agreeTo_tlDeserializeMethod (ih (by omega)) (shortens_tlDeserializeN S n) _).mono
          (by omega)

/-- `tl_deserialize` as the source has it, calling itself without a depth. -/
theorem tlDeserialize_eq (S : Schema) :
    tlDeserialize S = (do
      let b ← peek 4
      if get32 b = 0 then return .null
      else
        match S.getFun (get32 b) with
        | none => return .null
        | some e => tlDeserializeMethod S (tlDeserialize S) e.method) := by
  funext b
  have hrec : AgreeTo b.length (tlDeserializeN S b.length) (tlDeserialize S) := fun b' hb' =>
    ((agreeTo_tlDeserializeN hb') b' (le_refl _)).symm
  have hdepth := agreeTo_tlDeserializeN (S := S) (Nat.le_succ b.length) b (le_refl _)
  rw [tlDeserialize, hdepth]
  refine AgreeTo.bind (AgreeTo.refl b.length _) (shortens_peek 4) (fun w => ?_) b (le_refl _)
  split_ifs
  · exact AgreeTo.refl _ _
  · split
    · exact AgreeTo.refl _ _
    · exact (agreeTo_tlDeserializeMethod hrec (shortens_tlDeserializeN S _) _).mono (by omega)

/-! ## What was read -/

section
variable {m : Method} {b t : Bytes} {x : Tl}

theorem deserializeVectorHead_eq_some {head : List Tl}
    (h : deserializeVectorHead m b = some (head, t)) :
    (m.name = "vector" ∧ ∃ len, b = le32 len ++ t ∧ head = [.pending len t]) ∨
    (m.name ≠ "vector" ∧ head = [] ∧ t = b) := by
  rw [deserializeVectorHead] at h
  split_ifs at h with hname
  · simp only [bind_apply, Option.bind_eq_some_iff] at h
    obtain ⟨⟨len, u⟩, hlen, ⟨data, v⟩, hdata, hret⟩ := h
    cases hdata
    cases hret
    exact .inl ⟨hname, len, deserializeUi32_eq_some.mp hlen, rfl⟩
  · cases h
    exact .inr ⟨hname, rfl, rfl⟩

/-- An object keeps a copy of the whole buffer it was read from. -/
theorem tlDeserializeMethod_eq_some (h : tlDeserializeMethod S rec m b = some (x, t)) :
    ∃ id u v head fields, b = le32 id ++ u ∧ deserializeVectorHead m u = some (head, v) ∧
      deserializeArgs S rec m.args [] v = some (fields, t) ∧ x = .object id b (head ++ fields) := by
  simp only [tlDeserializeMethod, bind_apply, Option.bind_eq_some_iff] at h
  obtain ⟨⟨buf, b'⟩, hbuf, ⟨id, u⟩, hid, ⟨head, v⟩, hhead, ⟨fields, w⟩, hfields, hret⟩ := h
  cases hbuf
  cases hret
  exact ⟨id, u, v, head, fields, deserializeUi32_eq_some.mp hid, hhead, hfields, rfl⟩

/-- The id is looked at first, and decides. -/
theorem dispatch_eq_some (h : (do
      let b ← peek 4
      if get32 b = 0 then return .null
      else
        match S.getFun (get32 b) with
        | none => return .null
        | some e => tlDeserializeMethod S rec e.method : Cursor Tl) b = some (x, t)) :
    ∃ id u, b = le32 id ++ u ∧
      ((id = 0 ∨ S.getFun id = none) ∧ x = .null ∧ t = b ∨
        id ≠ 0 ∧ ∃ e, S.getFun id = some e ∧
          tlDeserializeMethod S rec e.method b = some (x, t)) := by
  rw [bind_apply, Option.bind_eq_some_iff] at h
  obtain ⟨⟨w, u⟩, hpeek, h⟩ := h
  rw [peek] at hpeek
  split_ifs at hpeek with hfour
  cases hpeek
  refine ⟨get32 (b.take 4), b.drop 4, ?_, ?_⟩
  · rw [le32_get32 (List.length_take_of_le hfour), List.take_append_drop]
  dsimp only at h
  generalize get32 (b.take 4) = id at h ⊢
  split_ifs at h with hzero
  · cases h
    exact .inl ⟨.inl hzero, rfl, rfl⟩
  · cases hfun : S.getFun id with
    | none =>
      rw [hfun] at h
      cases h
      exact .inl ⟨.inr rfl, rfl, rfl⟩
    | some e =>
      rw [hfun] at h
      exact .inr ⟨hzero, e, rfl, h⟩

theorem tlDeserialize_eq_some (h : tlDeserialize S b = some (x, t)) :
    ∃ id u, b = le32 id ++ u ∧
      ((id = 0 ∨ S.getFun id = none) ∧ x = .null ∧ t = b ∨
        id ≠ 0 ∧ ∃ e, S.getFun id = some e ∧
          tlDeserializeMethod S (tlDeserialize S) e.method b = some (x, t)) := by
  rw [tlDeserialize_eq] at h
  exact dispatch_eq_some h

end

end Libtg
