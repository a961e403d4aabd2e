import Libtg.Lib.Fgets
import Libtg.Lib.Handed
import Libtg.Lib.Scanf
import Libtg.Lib.Strtok
import Libtg.Tl.Buf

/-!
# The schema parser (`tl_generator/tl_parser.c`)

`tl_parse` reads a schema line by line into a buffer of `BUFSIZ*2` bytes and takes each line apart
with `strtok`: at `=`, then at `#`, then at blanks, then at `:` and at `?`. `none` stands for what C
leaves undefined: a null pointer given to `strstr` or `strrchr`, an argument beyond `args[64]`, a
name that the removal of `//` leaves behind its end. `strdup` is taken to succeed.
-/

namespace Libtg.TlParser

open Scanf

/-- `struct arg_t`. -/
structure ArgT where
  name : Bytes
  type : Option Bytes
  flagn : UInt32
  flagb : UInt32
  deriving DecidableEq

/-- `struct method_t`; `argc` is the number of `args`. -/
structure MethodT where
  name : Option Bytes
  id : UInt32
  ret : Option Bytes
  args : List ArgT
  nflags : Nat
  deriving DecidableEq

/-- After `memset`. -/
def MethodT.zero : MethodT := ⟨none, 0, none, [], 0⟩

/-- The length of `args`. -/
def argsMax : Nat := 64

/-- `strstr(s, pat)` is not null. -/
def contains (pat s : Bytes) : Prop := pat <:+: s

instance (pat s : Bytes) : Decidable (contains pat s) := inferInstanceAs (Decidable (_ <:+: _))

/-- `strchr(delims, c)` for a set of delimiters. -/
def among (delims : String) (c : UInt8) : Bool := c ∈ ascii delims

/-- The format `flags.%d`. -/
def flagsFormat : List Directive := chars (ascii "flags.") ++ [.number .d]

/-- The format `flags%d.%d`. -/
def flagsNFormat : List Directive :=
  chars (ascii "flags") ++ .number .d :: (chars (ascii ".") ++ [.number .d])

/-- `flagn` and `flagb` of an argument with a guard. -/
def parseFlag (flag : Bytes) : UInt32 × UInt32 :=
  match sscanf flagsFormat flag with
  | b :: _ => (1, b)
  | [] =>
    match sscanf flagsNFormat flag with
    | [] => (1, 0)
    | [n] => (n, 0)
    | n :: b :: _ => (n, b)

/-- A name that counts as one of a flags word. -/
def isFlagsName (name : Bytes) : Prop := contains (ascii "flags") name ∧ name.length < 7

instance (name : Bytes) : Decidable (isFlagsName name) := inferInstanceAs (Decidable (_ ∧ _))

/-- `parse_method_args`. Without a type `strtok` goes on where it has stopped. With one but without
a guard, `type` is `ftype` up to where `strtok` has ended it. -/
def parseMethodArgs (m : MethodT) (buf : Bytes) : Option MethodT :=
  match Strtok.next (among ":") buf with
  | (none, _) => none
  | (some name, s) =>
    let (ftype, s) := Strtok.next (among ":") s
    let (flag, s) := Strtok.next (among "?") (ftype.getD s)
    let (type, _) := Strtok.next (among "?") s
    let arg : ArgT :=
      match type with
      | some type =>
        let (flagn, flagb) := parseFlag (flag.getD [])
        ⟨name, some type, flagn, flagb⟩
      | none => ⟨name, ftype.map fun t => t.takeWhile (among "?") ++ flag.getD [], 0, 0⟩
    if m.args.length < argsMax then
      some { m with
        args := m.args ++ [arg]
        nflags := if isFlagsName name then m.nflags + 1 else m.nflags }
    else none

/-- `sscanf(arg, "%x", &m->id)`. -/
def scanId (m : MethodT) (arg : Bytes) : MethodT :=
  { m with id := (sscanf [.number .x] arg).headD m.id }

def parseArg (m : MethodT) (arg : Bytes) : Option MethodT :=
  if arg = ascii "{X:Type}" then some m else parseMethodArgs m arg

/-- A round of the loop in `parse_method_id_and_args`, with `m` and `idx`. -/
def parseIdOrArg (s : MethodT × Nat) (arg : Bytes) : Option (MethodT × Nat) :=
  if s.2 = 1 then some (scanId s.1 arg, s.2 + 1) else (parseArg s.1 arg).map (·, s.2)

/-- `parse_method_id_and_args`. -/
def parseMethodIdAndArgs (m : MethodT) (buf : Bytes) (idx : Nat) : Option MethodT :=
  ((Strtok.tokens (among " ") buf).foldlM parseIdOrArg (m, idx)).map (·.1)

/-- `m->name`, from which `//` is removed. -/
def methodName : Bytes → Option Bytes
  | 47 :: _ :: name => some name
  | [47] => none
  | name => some name

/-- A line that declares a vector. -/
def parseVector (m : MethodT) (str : Bytes) : Option MethodT :=
  match Strtok.next (among " ") str with
  | (none, _) => none
  | (some arg, s) => some { scanId m arg with ret := (Strtok.next (among "{t:}") s).1 }

/-- The loop of `parse_method`. -/
def parsePieces (m : MethodT) : Nat → List Bytes → Option MethodT
  | _, [] => some m
  | 0, str :: strs =>
    match methodName str with
    | none => none
    | some name => parsePieces { m with name := some name } 1 strs
  | idx + 1, str :: strs =>
    if contains (ascii "{t:Type}") str then parseVector m str
    else
      match parseMethodIdAndArgs m str (idx + 1) with
      | none => none
      | some m => parsePieces m (idx + 2) strs

/-- `parse_method`. It always returns 0. -/
def parseMethod (m : MethodT) (buf : Bytes) : Option MethodT :=
  parsePieces m 0 (Strtok.tokens (among "#") buf)

/-- `parse_method_return`. What it returns is overwritten. -/
def parseMethodReturn (m : MethodT) (buf : Bytes) : MethodT :=
  match (Strtok.next (among " ;") buf).1 with
  | none => m
  | some ret => { m with ret := some ret }

/-- What comes of a line: nothing, `return i`, or a call of the callback. -/
inductive Line where
  | skip
  | bad
  | method (m : MethodT)
  deriving DecidableEq

/-- The lines of the loop in `parse_schema` before the callback. -/
def parseLine (line : Bytes) : Option Line :=
  let buf := line.takeWhile (· ≠ 0)
  if buf.head? ∈ [none, some 32, some 10] then some .skip
  else
    match Strtok.next (among "=") buf with
    | (none, _) => some .bad
    | (some method, s) =>
      match Strtok.next (among "=") s with
      | (none, _) => some .skip
      | (some ret, _) =>
        match parseMethod (parseMethodReturn .zero ret) method with
        | none => none
        | some m =>
          match m.name with
          | none => none
          | some name => if 63 ∈ name ∨ m.id = 0 then some .skip else some (.method m)

/-- A call of the callback. -/
inductive Call where
  | method (m : MethodT)
  | error (text : Bytes)
  deriving DecidableEq

/-- Whether the callback returns something else than 0, after these calls. -/
abbrev Callback := List Call → Bool

/-- The loop of `parse_schema` from line `i` on: what it returns, and the calls. -/
def parseSchema (callback : Option Callback) (i : Nat) (log : List Call) :
    List Bytes → Option (Nat × List Call)
  | [] => some (0, log)
  | buf :: bufs =>
    match parseLine buf with
    | none => none
    | some .skip => parseSchema callback (i + 1) log bufs
    | some .bad => some (i, log)
    | some (.method m) =>
      match callback with
      | none => parseSchema callback (i + 1) log bufs
      | some stops =>
        if stops (log ++ [.method m]) then some (0, log ++ [.method m])
        else parseSchema callback (i + 1) (log ++ [.method m]) bufs

/-- `tl_parse`; `none` is a file that cannot be opened. -/
def tlParse (schemaFile : Option Bytes) (callback : Option Callback) : Option (Nat × List Call) :=
  match schemaFile with
  | none => some (1, if callback.isSome then [.error (ascii "can't open file")] else [])
  | some fp => parseSchema callback 1 [] (Fgets.lines (BUFSIZ * 2) fp)

end Libtg.TlParser
