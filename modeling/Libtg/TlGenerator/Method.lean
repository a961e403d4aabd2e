import Libtg.Tl.Buf

/-!
# Descriptors, schemas and values

`Method` is the part of `struct method_t` (`tl_parser.h`) the emitted encoders and decoders depend
on. The generator reads a type name by a chain of `strcmp` and one `strstr` for `ector<`; `tyOf` is
what those comparisons find out, for the encoder's table of cases and for the decoder's.

`Value` is a TL value as a caller assembles it and as a reader of the schema understands it. `Tl` is
what a decoder leaves in memory: a field nothing was written to, a `NULL` pointer or an announced
vector without its array have no `Value`.
-/

namespace Libtg

/-- C's `strstr`: the rest of the string from the first place where `pat` occurs. -/
def strstr (pat : List Char) : List Char → Option (List Char)
  | [] => if pat = [] then some [] else none
  | c :: cs => if pat.isPrefixOf (c :: cs) then some (c :: cs) else strstr pat cs

/-- One entry of `args` in `struct method_t`. `type` is `NULL` for `name:#`, and `flagn` is 0 for an
argument without a guard. -/
structure Arg where
  name : String
  type : Option String
  flagn : Nat
  flagb : Nat
  deriving DecidableEq

structure Method where
  name : String
  id : UInt32
  args : List Arg
  deriving DecidableEq

/-- A descriptor and the schema file it comes from: `isMtproto` is `g->isMtproto` when
`mtproto_api.tl` is read. -/
structure Entry where
  isMtproto : Bool
  method : Method
  deriving DecidableEq

/-- All descriptors, in the order of the generated tables. -/
abbrev Schema := List Entry

/-- `get_fun`: the first entry of the table with this id. -/
def Schema.getFun (S : Schema) (id : UInt32) : Option Entry :=
  S.find? fun e => e.method.id == id

/-- `id_vector` of the generated `id.h`, which `tl_vector()` writes. -/
def Schema.idVector? (S : Schema) : Option UInt32 :=
  (S.find? fun e => e.method.name == "vector").map (·.method.id)

def Schema.idVector (S : Schema) : UInt32 := S.idVector?.getD 0

/-- The generator's test for a flags word. -/
def Arg.isFlags (a : Arg) : Bool :=
  a.type.isNone && (strstr "flags".toList a.name.toList).isSome

/-- The number of flags words up to and including an argument that follows `k` of them. -/
def flagsAfter (k : Nat) (a : Arg) : Nat := if a.isFlags then k + 1 else k

/-- Every guard names a flags word before it and a bit of a 32-bit word. -/
def GuardsOk : Nat → List Arg → Prop
  | _, [] => True
  | k, a :: as =>
    (a.type.isSome → a.flagn ≤ k ∧ a.flagb < 32) ∧ GuardsOk (flagsAfter k a) as

instance : (k : Nat) → (as : List Arg) → Decidable (GuardsOk k as)
  | _, [] => inferInstanceAs (Decidable True)
  | k, a :: as =>
    have := instDecidableGuardsOk (flagsAfter k a) as
    inferInstanceAs (Decidable (_ ∧ _))

/-! ## Type names -/

inductive Elem where
  | int | bool | long | double | string | bytes | message | int128 | int256 | true | object
  deriving DecidableEq

inductive Ty where
  | int | bool | true | long | double | int128 | int256 | string | bytes
  | vector (elem : Elem)
  | message | object
  deriving DecidableEq

def elemOf (type : String) : Elem :=
  if type = "int" then .int
  else if type = "bool" then .bool
  else if type = "long" then .long
  else if type = "double" then .double
  else if type = "string" then .string
  else if type = "bytes" then .bytes
  else if type = "%Message" then .message
  else if type = "int128" then .int128
  else if type = "int256" then .int256
  else if type = "true" then .true
  else .object

/-- `p = strstr(type, "ector<")` and then `strndup(p + 6, strstr(p, ">") - p)`. -/
def vectorElem (type : String) : Option String :=
  (strstr "ector<".toList type.toList).map fun p =>
    String.ofList ((p.drop 6).takeWhile (· ≠ '>'))

def tyOf (type : String) : Ty :=
  if type = "int" then .int
  else if type = "true" then .true
  else if type = "bool" then .bool
  else if type = "long" then .long
  else if type = "double" then .double
  else if type = "string" then .string
  else if type = "bytes" then .bytes
  else if type = "int128" then .int128
  else if type = "int256" then .int256
  else if type = "%Message" then .message
  else match vectorElem type with
    | some t => .vector (elemOf t)
    | none => .object

example : tyOf "Vector<MessageEntity>" = .vector .object := by decide

/-! ## Values -/

/-- A TL value. An argument that is not supplied, a flags word (its value follows from the other
arguments) and a `true` that is not set are all `absent`. `bytes` also stands for a finished buffer
where an encoder takes an object. -/
inductive Value where
  | absent
  | int (v : UInt32)
  | long (v : UInt64)
  | double (bits : UInt64)
  | true
  | bytes (b : Bytes)
  | message (msgId : UInt64) (seqno : UInt32) (body : Bytes)
  | vector (xs : List Value)
  | object (id : UInt32) (fields : List Value)

def Value.isAbsent : Value → Bool
  | .absent => Bool.true
  | _ => false

/-- What a decoder leaves in memory. `zero` is a field still as `memset` left it, and `vector` a
length with the elements its array holds; `pending` is `len_` and `data_` of the bare `vector`,
whose elements no decoder reads. An object carries the copy `_buf` of the buffer it was read from;
the fields stand at the places of the descriptor's arguments. -/
inductive Tl where
  | zero
  | int (v : UInt32)
  | long (v : UInt64)
  | double (bits : UInt64)
  | true
  | buf (b : Bytes)
  | message (msgId : UInt64) (seqno : UInt32) (bytes : UInt32) (body : Bytes)
  | null
  | vector (len : UInt32) (xs : List Tl)
  | pending (len : UInt32) (data : Bytes)
  | object (id : UInt32) (buf : Bytes) (fields : List Tl)

mutual
/-- The value a structure in memory stands for, if no part of it is missing. -/
def Tl.value? : Tl → Option Value
  | .zero => some .absent
  | .int v => some (.int v)
  | .long v => some (.long v)
  | .double v => some (.double v)
  | .true => some .true
  | .buf b => some (.bytes b)
  | .message i s _ b => some (.message i s b)
  | .null => none
  | .vector len xs => if len.toNat = xs.length then (Tl.values? xs).map .vector else none
  | .pending len _ => if len = 0 then some (.vector []) else none
  | .object id _ fields => (Tl.values? fields).map (.object id)

def Tl.values? : List Tl → Option (List Value)
  | [] => some []
  | x :: xs => (Tl.value? x).bind fun v => (Tl.values? xs).map (v :: ·)
end

theorem Tl.values?_cons {x : Tl} {xs : List Tl} {v : Value} {vs : List Value}
    (hx : x.value? = some v) (hxs : Tl.values? xs = some vs) :
    Tl.values? (x :: xs) = some (v :: vs) := by
  simp [Tl.values?, hx, hxs]

theorem Tl.values?_append {xs ys : List Tl} {vs ws : List Value} (hxs : Tl.values? xs = some vs)
    (hys : Tl.values? ys = some ws) : Tl.values? (xs ++ ys) = some (vs ++ ws) := by
  induction xs generalizing vs with
  | nil =>
    cases hxs
    exact hys
  | cons x xs ih =>
    simp only [values?, Option.bind_eq_some_iff, Option.map_eq_some_iff] at hxs
    obtain ⟨v, hv, vs, hvs, rfl⟩ := hxs
    exact values?_cons hv (ih hvs)

theorem Tl.values?_length {xs : List Tl} {vs : List Value} (h : Tl.values? xs = some vs) :
    xs.length = vs.length := by
  induction xs generalizing vs with
  | nil =>
    cases h
    rfl
  | cons x xs ih =>
    simp only [values?, Option.bind_eq_some_iff, Option.map_eq_some_iff] at h
    obtain ⟨v, _, vs, hvs, rfl⟩ := h
    rw [List.length_cons, List.length_cons, ih hvs]

end Libtg
