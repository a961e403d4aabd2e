import Libtg.Lib.Backpatch
import Libtg.Tl.Serialize
import Libtg.TlGenerator.Method

/-!
# The emitted encoders (`append_methods`)

For a descriptor `append_methods` emits a C function `tl_<name>` from the arguments to a buffer.
`tlMethod` is that function. Each case of the generator's table appends to `buf`; a flags word
appends zero and keeps a pointer to it, through which the cases of guarded arguments set their bits
afterwards. The pointer is a block and an offset: once `buf` has moved to another block a write
through it is lost.

The text of some cases is not valid C for some arguments: the parameter list and the body read the
same descriptor through different chains of comparisons. `Entry.compiles` is the type check of the
emitted text, and `tlMethod` exists only where it passes.
-/

namespace Libtg

open LittleEndian Backpatch

/-! ## The type check of the emitted text -/

/-- The C types of the parameters. `int128`, `int256` and every object type are `typedef`s of
`buf_t`. -/
inductive CType where
  | uchar | uint32 | uint64 | double | bool | cstr | buf
  | ptr (t : CType)
  deriving DecidableEq

/-- The ways the body mentions a parameter `x_`. -/
inductive CExpr where
  | param | deref | data | arrowData | index | indexData
  deriving DecidableEq

/-- What the place of an expression asks for: a condition, a number, a C string, a `buf_t`, or the
address of bytes. -/
inductive CUse where
  | cond | number | string | buf | address
  deriving DecidableEq

/-- The type of `x_`, `*x_`, `x_.data`, `x_->data`, `x_[i]` and `x_[i].data`. -/
def CExpr.type (t : CType) : CExpr → Option CType
  | .param => some t
  | .deref | .index => match t with | .ptr s => some s | _ => none
  | .data => if t = .buf then some (.ptr .uchar) else none
  | .arrowData | .indexData => if t = .ptr .buf then some (.ptr .uchar) else none

def CUse.accepts : CUse → CType → Bool
  | .cond, t => t != .buf
  | .number, t => t == .uint32 || t == .uint64 || t == .double || t == .bool
  | .string, t => t == .cstr
  | .buf, t => t == .buf
  | .address, t => match t with | .ptr _ => Bool.true | _ => false

def elemCType (isMtproto : Bool) : Elem → CType
  | .int => .uint32
  | .bool | .true => .bool
  | .long => .uint64
  | .double => .double
  | .string => if isMtproto then .buf else .cstr
  | .bytes | .message | .int128 | .int256 | .object => .buf

def baseCType (isMtproto : Bool) : Ty → CType
  | .int => .uint32
  | .bool | .true => .bool
  | .long => .uint64
  | .double => .double
  | .string => if isMtproto then .buf else .cstr
  | .bytes | .message | .int128 | .int256 | .object => .buf
  | .vector e => elemCType isMtproto e

/-- The declared type of an argument's parameter. -/
def paramType (isMtproto : Bool) (a : Arg) : CType :=
  match a.type.map tyOf with
  | none => .uint32
  | some ty =>
    let guarded := a.flagn ≠ 0 ∧ ty ≠ .string ∧ ty ≠ .true
    let plain := ty = .string ∨ ty = .true ∨ ty = .bool ∨ ty = .int ∨ ty = .long ∨
      ty = .int128 ∨ ty = .int256 ∨ ty = .double
    if guarded ∨ ¬ plain then .ptr (baseCType isMtproto ty) else baseCType isMtproto ty

/-- What the body of an argument's case uses its parameter for. -/
def bodyUses (isMtproto : Bool) (a : Arg) : List (CExpr × CUse) :=
  match a.type.map tyOf with
  | none => []
  | some .true => if a.flagn ≠ 0 then [(.param, .cond)] else []
  | some ty =>
    (if a.flagn ≠ 0 then [(.param, .cond)] else []) ++
    match ty with
    | .int | .bool | .long | .double =>
      if a.flagn ≠ 0 then [(.deref, .number)] else [(.param, .number)]
    | .int128 | .int256 => [(.data, .address)]
    | .string => if isMtproto then [(.param, .buf)] else [(.param, .string)]
    | .bytes => [(.arrowData, .address)]
    | .vector .bytes => [(.indexData, .address)]
    | .vector .string => [(.index, .string)]
    | .vector .int | .vector .bool | .vector .long | .vector .double => [(.index, .number)]
    | .vector _ => [(.index, .buf)]
    | _ => [(.deref, .buf)]

def Arg.compiles (isMtproto : Bool) (a : Arg) : Bool :=
  (bodyUses isMtproto a).all fun u =>
    match u.1.type (paramType isMtproto a) with
    | some t => u.2.accepts t
    | none => false

/-- The parameter list: `true` for a parameter, `false` for a comma. A flags word is skipped, its
comma with it; the comma after the parameter before it stays. -/
def paramTokens : List Arg → List Bool
  | [] => []
  | a :: as =>
    if a.isFlags then paramTokens as
    else Bool.true :: (if as ≠ [] then [false] else []) ++ paramTokens as

def Arg.isVector (a : Arg) : Bool :=
  match a.type.map tyOf with
  | some (.vector _) => Bool.true
  | _ => false

/-- The C compiler accepts the emitted function: every mention of a parameter has a type its place
asks for, the parameter list does not end in a comma, every `flagN` is declared above its use, and
`tl_vector()` is there if it is called, which it is only if the schema declares `vector`. -/
def Entry.compiles (S : Schema) (e : Entry) : Bool :=
  e.method.args.all (Arg.compiles e.isMtproto) &&
  (paramTokens e.method.args).getLast? != some false &&
  decide (GuardsOk 0 e.method.args) &&
  (!e.method.args.any Arg.isVector || S.idVector?.isSome)

/-! ## The arguments of a call -/

/-- What the caller may put into an array of the element type. -/
def Elem.admits : Elem → Value → Bool
  | .int, .int _ | .long, .long _ | .double, .double _ => Bool.true
  | .bool, .int x => x ≤ 1
  | .string, .bytes _ | .bytes, .bytes _ | .message, .bytes _ | .int128, .bytes _
  | .int256, .bytes _ | .object, .bytes _ => Bool.true
  | _, _ => false

/-- What the caller may pass for an argument of the type: an `int128` holds 16 bytes, an `int256`
32, and the count of a vector is a `uint32_t`. -/
def Ty.admits : Ty → Value → Bool
  | .int, .int _ | .long, .long _ | .double, .double _ | .true, .true => Bool.true
  | .bool, .int x => x ≤ 1
  | .int128, .bytes b => 16 ≤ b.length
  | .int256, .bytes b => 32 ≤ b.length
  | .string, .bytes _ | .bytes, .bytes _ | .message, .bytes _ | .object, .bytes _ => Bool.true
  | .vector e, .vector xs => xs.length < 2 ^ 32 && xs.all e.admits
  | _, _ => false

/-- A guarded argument may be `NULL`, a `true` may be `false`, and a flags word is no parameter. -/
def Arg.admits (a : Arg) (v : Value) : Bool :=
  match a.type.map tyOf with
  | none => v.isAbsent
  | some ty => v.isAbsent && (a.flagn != 0 || ty == .true) || ty.admits v

/-- The arguments of a call of `tl_<name>`, one for each entry of `args`. -/
def Entry.Args (e : Entry) : Type :=
  {args : List Value // List.Forall₂ (fun a v => a.admits v) e.method.args args}

/-! ## The emitted function -/

/-- What the case of an element appends. -/
def elemPiece (e : Elem) (v : Value) : Bytes :=
  match e, v with
  | .bytes, .bytes b => serializeBytes b
  | .string, .bytes b => serializeString b
  | .int, .int x | .bool, .int x => le32 x
  | .long, .long x => le64 x
  | .double, .double x => le64 x
  | _, .bytes b => b
  | _, _ => []

/-- The buffers the case of an argument appends in turn. -/
def pieces (S : Schema) (isMtproto : Bool) (ty : Ty) (v : Value) : List Bytes :=
  match ty, v with
  | .int, .int x | .bool, .int x => [le32 x]
  | .int128, .bytes b => [b.take 16]
  | .int256, .bytes b => [b.take 32]
  | .long, .long x => [le64 x]
  | .double, .double x => [le64 x]
  | .string, .bytes b => if isMtproto then [serializeStr b] else [serializeString b]
  | .bytes, .bytes b => [serializeBytes b]
  | .vector e, .vector xs =>
    [le32 S.idVector, le32 (UInt32.ofNat xs.length)] ++ xs.map (elemPiece e)
  | .object, .bytes b | .message, .bytes b => [b]
  | _, _ => []

/-- `buf` and the pointers `flag1`, `flag2`, …, each the block it points into and the offset. -/
structure Enc where
  buf : Buf
  flagp : List (Nat × Nat)

/-- `uint32_t *flagN = (uint32_t *)(&buf.data[buf.size]); buf = buf_cat_ui32(buf, 0);`. -/
def Enc.reserve (mv : Nat → Bool) (e : Enc) : Option Enc := do
  let flag := (e.buf.block, e.buf.size)
  let buf ← bufCat mv e.buf (le32 0)
  return ⟨buf, e.flagp ++ [flag]⟩

/-- `*flagN |= (1 << b);`. -/
def Enc.setFlag (e : Enc) (flagn flagb : Nat) : Enc :=
  match e.flagp[flagn - 1]? with
  | some (block, off) =>
    if block = e.buf.block then
      { e with buf := { e.buf with data := orAt off (1 <<< UInt32.ofNat flagb) e.buf.data } }
    else e
  | none => e

/-- The statements emitted for one argument. -/
def appendArg (S : Schema) (isMtproto : Bool) (mv : Nat → Bool) (a : Arg) (v : Value) (e : Enc) :
    Option Enc :=
  match a.type.map tyOf with
  | none => if a.isFlags then e.reserve mv else some e
  | some .true =>
    some (if a.flagn ≠ 0 ∧ ¬ v.isAbsent then e.setFlag a.flagn a.flagb else e)
  | some ty =>
    if a.flagn ≠ 0 ∧ v.isAbsent then some e
    else do
      let buf ← bufCats mv e.buf (pieces S isMtproto ty v)
      let e := { e with buf }
      return if a.flagn ≠ 0 then e.setFlag a.flagn a.flagb else e

def appendArgs (S : Schema) (isMtproto : Bool) (mv : Nat → Bool) :
    List Arg → List Value → Enc → Option Enc
  | a :: as, v :: vs, e => do
    let e ← appendArg S isMtproto mv a v e
    appendArgs S isMtproto mv as vs e
  | _, _, e => some e

/-- `tl_<name>`, if the emitted text compiles. -/
def tlMethod (S : Schema) (e : Entry) : Option ((Nat → Bool) → e.Args → Option Buf) :=
  if e.compiles S then
    some fun mv args =>
      (appendArgs S e.isMtproto mv e.method.args args.1 ⟨bufAdd (le32 e.method.id), []⟩).map (·.buf)
  else none

end Libtg
