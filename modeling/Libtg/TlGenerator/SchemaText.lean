import Libtg.TlGenerator.Parser
import Mathlib.Data.Bool.AllAny

/-!
# Declarations as text

Declarations, how they are printed as the lines of a schema, and what the parser reads from such a
line. The `#` behind the name and those of the flags words split a line into pieces, which
`parse_method_id_and_args` splits at blanks: together these are the words between any of the two
(`words_body`). A word is one argument (`parseMethodArgs_token`), so that a line is read back as its
descriptor (`parseLine_text`).
-/

namespace Libtg.TlParser

open Scanf

/-! ## Declarations -/

/-- What `tl_parser.c` looks for in a line. -/
def special (c : UInt8) : Bool := c = 0 ∨ c = 10 ∨ c ∈ ascii " #/:;=?\x7b"

/-- A name, or the name of a type. -/
structure Ident where
  text : Bytes
  nonempty : text ≠ []
  plain : ∀ c ∈ text, special c = false

/-- `flags.b` and `flagsN.b`. -/
def flagText (n : Option (Numeral 10 (2 ^ 31))) (bit : Numeral 10 (2 ^ 31)) : Bytes :=
  ascii "flags" ++ n.elim [] (·.text) ++ ascii "." ++ bit.text

inductive ArgDecl where
  | plain (name type : Ident)
  | word (name : Ident)
  | guarded (name : Ident) (n : Option (Numeral 10 (2 ^ 31))) (bit : Numeral 10 (2 ^ 31))
      (type : Ident)

def ArgDecl.name : ArgDecl → Ident
  | .plain name _ | .word name | .guarded name _ _ _ => name

def ArgDecl.text : ArgDecl → Bytes
  | .plain name type => name.text ++ ascii ":" ++ type.text
  | .word name => name.text ++ ascii ":#"
  | .guarded name n bit type =>
    name.text ++ ascii ":" ++ flagText n bit ++ ascii "?" ++ type.text

/-- The argument as the generator is told of it. -/
def ArgDecl.arg : ArgDecl → ArgT
  | .plain name type => ⟨name.text, some type.text, 0, 0⟩
  | .word name => ⟨name.text, none, 0, 0⟩
  | .guarded name n bit type =>
    ⟨name.text, some type.text, n.elim 1 (·.toUInt32), bit.toUInt32⟩

structure Signature where
  name : Ident
  hex : Numeral 16 (2 ^ 32)
  generic : Bool
  args : List ArgDecl
  ret : Ident

def argsText (args : List ArgDecl) : Bytes := args.flatMap fun a => a.text ++ ascii " "

/-- `name#hex {X:Type} a1:T1 ... an:Tn = Ret;` -/
def Signature.text (d : Signature) : Bytes :=
  d.name.text ++ ascii "#" ++ d.hex.text ++ ascii " " ++
    (if d.generic then ascii "{X:Type} " else []) ++ argsText d.args ++ ascii "= " ++ d.ret.text ++
    ascii ";"

def Signature.method (d : Signature) : MethodT where
  name := some d.name.text
  id := d.hex.toUInt32
  ret := some d.ret.text
  args := d.args.map ArgDecl.arg
  nflags := d.args.countP fun a => isFlagsName a.name.text

/-- A declaration that `method_t` and the buffer of a line have room for. -/
structure Decl extends Signature where
  nonzero : hex.toUInt32 ≠ 0
  few : args.length ≤ argsMax
  fits : toSignature.text.length < BUFSIZ * 2

/-! ## One argument -/

/-- The word that `parse_method_args` gets: a `#` ends it. -/
def ArgDecl.token : ArgDecl → Bytes
  | .plain name type => name.text ++ ascii ":" ++ type.text
  | .word name => name.text ++ ascii ":"
  | .guarded name n bit type => name.text ++ ascii ":" ++ flagText n bit ++ ascii "?" ++ type.text

def addArg (m : MethodT) (a : ArgDecl) : MethodT :=
  { m with
    args := m.args ++ [a.arg]
    nflags := if isFlagsName a.name.text then m.nflags + 1 else m.nflags }

theorem not_among {t : Bytes} {delims : String} (hd : (ascii delims).all special = true)
    (ht : ∀ c ∈ t, special c = false) : ∀ c ∈ t, among delims c = false := by
  intro c hc
  refine decide_eq_false fun hmem => ?_
  have hspecial := List.all_eq_true.mp hd c hmem
  rw [ht c hc] at hspecial
  exact Bool.false_ne_true hspecial

theorem special_of_isDigit {c : UInt8} (h : isDigit 16 c) : special c = false := by
  have hlt : digitVal c < 16 := of_decide_eq_true h
  have key : ∀ d : BitVec 8, digitVal (UInt8.ofBitVec d) < 16 →
      special (UInt8.ofBitVec d) = false := by decide +kernel
  exact key c.toBitVec hlt

theorem plain_numeral {base bound : Nat} (hbase : base ≤ 16) (n : Numeral base bound) :
    ∀ c ∈ n.text, special c = false :=
  fun c hc => special_of_isDigit (isDigit_of_le hbase (n.digits c hc))

theorem flagText_ne_nil (n : Option (Numeral 10 (2 ^ 31))) (bit : Numeral 10 (2 ^ 31)) :
    flagText n bit ≠ [] := by
  rw [flagText, List.append_assoc, List.append_assoc]
  exact List.append_ne_nil_of_left_ne_nil (by decide) _

theorem plain_flagText (n : Option (Numeral 10 (2 ^ 31))) (bit : Numeral 10 (2 ^ 31)) :
    ∀ c ∈ flagText n bit, special c = false := by
  have hn : ∀ c ∈ n.elim [] (·.text), special c = false := by
    cases n with
    | none => exact List.forall_mem_nil _
    | some n => exact plain_numeral (by decide) n
  have hbit := plain_numeral (by decide) bit
  simp only [flagText, List.forall_mem_append]
  exact ⟨⟨⟨List.all_iff_forall_prop.mp (by decide), hn⟩, List.all_iff_forall_prop.mp (by decide)⟩,
    hbit⟩

theorem parseFlag_flagText (n : Option (Numeral 10 (2 ^ 31))) (bit : Numeral 10 (2 ^ 31)) :
    parseFlag (flagText n bit) = (n.elim 1 (·.toUInt32), bit.toUInt32) := by
  have hbit : sscanf [.number .d] bit.text = [bit.toUInt32] := by
    have := sscanf_d bit [] (s := []) fun c hc => nomatch hc
    rwa [List.append_nil] at this
  cases n with
  | none =>
    have htext : flagText none bit = ascii "flags." ++ bit.text := rfl
    rw [htext, parseFlag, flagsFormat, sscanf_chars, hbit]
    rfl
  | some n =>
    have htext : flagText (some n) bit = ascii "flags" ++ (n.text ++ ascii "." ++ bit.text) := by
      simp only [flagText, Option.elim_some, List.append_assoc]
    have hflags : sscanf flagsFormat (flagText (some n) bit) = [] := by
      have hformat : flagsFormat = chars (ascii "flags") ++ [.char 46, .number .d] := rfl
      obtain ⟨c, text, hc⟩ := List.exists_cons_of_ne_nil n.nonempty
      have hne : c ≠ 46 := by
        have hdigit := n.digits c (by rw [hc]; exact List.mem_cons_self)
        rintro rfl
        exact absurd hdigit (by decide)
      rw [htext, hformat, sscanf_chars, hc]
      exact if_neg hne
    have hn : sscanf flagsNFormat (flagText (some n) bit) = [n.toUInt32, bit.toUInt32] := by
      rw [htext, flagsNFormat, sscanf_chars, List.append_assoc, sscanf_d n, sscanf_chars, hbit]
      rintro c ⟨⟩
      decide
    rw [parseFlag, hflags, hn]
    rfl

theorem next_name (name : Ident) (s : Bytes) :
    Strtok.next (among ":") (name.text ++ ascii ":" ++ s) = (some name.text, s) := by
  rw [List.append_assoc]
  exact Strtok.next_word name.nonempty (not_among (by decide) name.plain) (by decide) s

theorem next_type (type : Ident) (delims : String) (hd : (ascii delims).all special = true) :
    Strtok.next (among delims) type.text = (some type.text, []) :=
  Strtok.next_last type.nonempty (not_among hd type.plain)

theorem parseMethodArgs_token {m : MethodT} (hm : m.args.length < argsMax) (a : ArgDecl) :
    parseMethodArgs m a.token = some (addArg m a) := by
  cases a with
  | plain name type =>
    have htype := next_type type ":" (by decide)
    have hflag := next_type type "?" (by decide)
    have htake : type.text.takeWhile (among "?") = [] := by
      obtain ⟨c, text, hc⟩ := List.exists_cons_of_ne_nil type.nonempty
      have hquestion : ∀ c ∈ type.text, among "?" c = false := not_among (by decide) type.plain
      rw [hc] at hquestion ⊢
      refine List.takeWhile_cons_of_neg ?_
      rw [hquestion c List.mem_cons_self]
      exact Bool.false_ne_true
    simp only [parseMethodArgs, ArgDecl.token, next_name, htype, Option.getD_some, hflag,
      Strtok.next_nil, Option.map_some, htake, List.nil_append, if_pos hm]
    rfl
  | word name =>
    have hname := next_name name []
    rw [List.append_nil] at hname
    simp only [parseMethodArgs, ArgDecl.token, hname, Strtok.next_nil, Option.getD_none,
      Option.map_none, if_pos hm]
    rfl
  | guarded name n bit type =>
    have hflag : Strtok.next (among "?") (flagText n bit ++ ascii "?" ++ type.text)
        = (some (flagText n bit), type.text) := by
      rw [List.append_assoc]
      exact Strtok.next_word (flagText_ne_nil n bit) (not_among (by decide) (plain_flagText n bit))
        (by decide) type.text
    have htype := next_type type "?" (by decide)
    have hftype : Strtok.next (among ":") (flagText n bit ++ ascii "?" ++ type.text)
        = (some (flagText n bit ++ ascii "?" ++ type.text), []) := by
      refine Strtok.next_last (List.append_ne_nil_of_right_ne_nil _ type.nonempty) ?_
      simp only [List.forall_mem_append]
      exact ⟨⟨not_among (by decide) (plain_flagText n bit),
          List.all_iff_forall_prop.mp (by decide)⟩,
        not_among (by decide) type.plain⟩
    have htoken : name.text ++ ascii ":" ++ flagText n bit ++ ascii "?" ++ type.text
        = name.text ++ ascii ":" ++ (flagText n bit ++ ascii "?" ++ type.text) := by
      simp only [List.append_assoc]
    simp only [parseMethodArgs, ArgDecl.token, htoken, next_name, hftype, Option.getD_some, hflag,
      htype, parseFlag_flagText, if_pos hm]
    rfl

/-! ## The words of a line -/

/-- `name#` is followed by the number, the arguments and a blank. -/
def Signature.body (d : Signature) : Bytes :=
  d.hex.text ++ ascii " " ++ ((if d.generic then ascii "{X:Type} " else []) ++ argsText d.args)

theorem Signature.text_eq (d : Signature) :
    d.text = d.name.text ++ ascii "#" ++ d.body ++ ascii "=" ++
      (ascii " " ++ d.ret.text ++ ascii ";") := by
  have hsplit : ascii "= " = ascii "=" ++ ascii " " := rfl
  simp only [Signature.text, Signature.body, hsplit, List.append_assoc]

/-- The delimiters of `parse_method` and of `parse_method_id_and_args`. -/
def splits (c : UInt8) : Bool := among "#" c || among " " c

/-- What the arguments of a line consist of. -/
def inArgs (c : UInt8) : Prop := special c = false ∨ c ∈ ascii "#:? "

instance : DecidablePred inArgs := fun _ => inferInstanceAs (Decidable (_ ∨ _))

theorem inArgs_token (a : ArgDecl) : ∀ c ∈ a.token, inArgs c ∧ splits c = false := by
  have hplain {t : Bytes} (ht : ∀ c ∈ t, special c = false) :
      ∀ c ∈ t, inArgs c ∧ splits c = false := by
    intro c hc
    refine ⟨.inl (ht c hc), ?_⟩
    rw [splits, not_among (by decide) ht c hc, not_among (by decide) ht c hc]
    rfl
  have hmark : (∀ c ∈ ascii ":", inArgs c ∧ splits c = false) ∧
      ∀ c ∈ ascii "?", inArgs c ∧ splits c = false :=
    ⟨List.all_iff_forall_prop.mp (by decide), List.all_iff_forall_prop.mp (by decide)⟩
  cases a with
  | plain name type =>
    simp only [ArgDecl.token, List.forall_mem_append]
    exact ⟨⟨hplain name.plain, hmark.1⟩, hplain type.plain⟩
  | word name =>
    simp only [ArgDecl.token, List.forall_mem_append]
    exact ⟨hplain name.plain, hmark.1⟩
  | guarded name n bit type =>
    simp only [ArgDecl.token, List.forall_mem_append]
    exact ⟨⟨⟨⟨hplain name.plain, hmark.1⟩, hplain (plain_flagText n bit)⟩, hmark.2⟩,
      hplain type.plain⟩

theorem token_ne_nil (a : ArgDecl) : a.token ≠ [] := by
  cases a <;> simp only [ArgDecl.token, List.append_assoc] <;>
    exact List.append_ne_nil_of_left_ne_nil (Ident.nonempty _) _

/-- An argument, and the blank behind it. -/
theorem words_arg (a : ArgDecl) (s : Bytes) :
    Strtok.tokens splits (a.text ++ ascii " " ++ s) = a.token :: Strtok.tokens splits s := by
  have hsplits : ∀ c ∈ a.token, splits c = false := fun c hc => (inArgs_token a c hc).2
  have hblank : splits 32 = true := by decide
  have hhash : splits 35 = true := by decide
  cases a with
  | plain name type =>
    rw [List.append_assoc]
    exact Strtok.tokens_word (token_ne_nil _) hsplits hblank s
  | guarded name n bit type =>
    rw [List.append_assoc]
    exact Strtok.tokens_word (token_ne_nil _) hsplits hblank s
  | word name =>
    have htext : (ArgDecl.word name).text ++ ascii " " ++ s
        = (ArgDecl.word name).token ++ 35 :: 32 :: s := by
      simp only [ArgDecl.text, ArgDecl.token, List.append_assoc]
      rfl
    rw [htext, Strtok.tokens_word (token_ne_nil _) hsplits hhash, Strtok.tokens_delim hblank]

theorem words_argsText (args : List ArgDecl) :
    Strtok.tokens splits (argsText args) = args.map ArgDecl.token := by
  induction args with
  | nil => rfl
  | cons a args ih => rw [argsText, List.flatMap_cons, words_arg, List.map_cons, ← ih]; rfl

/-- The words of a line behind its name. -/
theorem words_body (d : Signature) :
    Strtok.tokens splits d.body = d.hex.text ::
      ((if d.generic then [ascii "{X:Type}"] else []) ++ d.args.map ArgDecl.token) := by
  have hhex : ∀ c ∈ d.hex.text, splits c = false := by
    intro c hc
    have hplain := plain_numeral le_rfl d.hex
    rw [splits, not_among (by decide) hplain c hc, not_among (by decide) hplain c hc]
    rfl
  have hblank : splits 32 = true := by decide
  rw [Signature.body, List.append_assoc]
  refine (Strtok.tokens_word d.hex.nonempty hhex hblank _).trans (congrArg _ ?_)
  cases d.generic with
  | false => exact words_argsText d.args
  | true =>
    have hbraces : ∀ c ∈ ascii "{X:Type}", splits c = false :=
      List.all_iff_forall_prop.mp (by decide)
    have hword := Strtok.tokens_word (by decide) hbraces hblank (argsText d.args)
    rw [if_pos rfl, if_pos rfl, ← words_argsText]
    exact hword

/-! ## The pieces of a line -/

theorem foldlM_parseIdOrArg {idx : Nat} (hidx : idx ≠ 1) (ws : List Bytes) (m : MethodT) :
    ws.foldlM parseIdOrArg (m, idx) = (ws.foldlM parseArg m).map (·, idx) := by
  induction ws generalizing m with
  | nil => rfl
  | cons w ws ih =>
    rw [List.foldlM_cons, List.foldlM_cons, parseIdOrArg, if_neg hidx]
    cases parseArg m w with
    | none => rfl
    | some m => exact ih m

/-- Behind the first piece every word is an argument. -/
theorem parsePieces_args {strs : List Bytes} (h : ∀ s ∈ strs, ¬ contains (ascii "{t:Type}") s)
    (idx : Nat) (m : MethodT) : parsePieces m (idx + 2) strs
      = (strs.flatMap (Strtok.tokens (among " "))).foldlM parseArg m := by
  induction strs generalizing idx m with
  | nil => rfl
  | cons s strs ih =>
    obtain ⟨hs, h⟩ := List.forall_mem_cons.mp h
    rw [parsePieces, if_neg hs, parseMethodIdAndArgs,
      foldlM_parseIdOrArg (by omega : idx + 1 + 1 ≠ 1), List.flatMap_cons, List.foldlM_append]
    cases (Strtok.tokens (among " ") s).foldlM parseArg m with
    | none => rfl
    | some m => exact ih h (idx + 1) m

/-- In the first piece the first word is the number. -/
theorem parsePieces_first {s w : Bytes} {ws : List Bytes} {strs : List Bytes}
    (h : ∀ t ∈ s :: strs, ¬ contains (ascii "{t:Type}") t)
    (hs : Strtok.tokens (among " ") s = w :: ws) (m : MethodT) : parsePieces m 1 (s :: strs)
      = (ws ++ strs.flatMap (Strtok.tokens (among " "))).foldlM parseArg (scanId m w) := by
  obtain ⟨hs', h⟩ := List.forall_mem_cons.mp h
  have hfirst : (Strtok.tokens (among " ") s).foldlM parseIdOrArg (m, 1)
      = (ws.foldlM parseArg (scanId m w)).map (·, 2) := by
    rw [hs]
    exact foldlM_parseIdOrArg (by decide : 2 ≠ 1) ws (scanId m w)
  rw [parsePieces, if_neg hs', parseMethodIdAndArgs, hfirst, List.foldlM_append]
  cases ws.foldlM parseArg (scanId m w) with
  | none => rfl
  | some m => exact parsePieces_args h 0 m

theorem foldlM_parseArg {args : List ArgDecl} {m : MethodT}
    (h : m.args.length + args.length ≤ argsMax) :
    (args.map ArgDecl.token).foldlM parseArg m = some (args.foldl addArg m) := by
  induction args generalizing m with
  | nil => rfl
  | cons a args ih =>
    rw [List.length_cons] at h
    have hbrace : a.token ≠ ascii "{X:Type}" := by
      intro ha
      have hmem : (123 : UInt8) ∈ a.token := by
        rw [ha]
        decide
      exact absurd (inArgs_token a 123 hmem).1 (by decide)
    have harg : parseArg m a.token = some (addArg m a) := by
      rw [parseArg, if_neg hbrace, parseMethodArgs_token (by omega)]
    have hlength : (addArg m a).args.length = m.args.length + 1 := by
      rw [addArg, List.length_append, List.length_singleton]
    rw [List.map_cons, List.foldlM_cons, harg]
    exact ih (by omega)

theorem foldl_addArg (args : List ArgDecl) (m : MethodT) :
    args.foldl addArg m =
      { m with
        args := m.args ++ args.map ArgDecl.arg
        nflags := m.nflags + args.countP fun a => isFlagsName a.name.text } := by
  induction args generalizing m with
  | nil => simp
  | cons a args ih =>
    rw [List.foldl_cons, ih, addArg, List.countP_cons]
    by_cases ha : isFlagsName a.name.text
    · simp [ha]; omega
    · simp [ha]

theorem inArgs_argsText (args : List ArgDecl) : ∀ c ∈ argsText args, inArgs c := by
  have hmark : (∀ c ∈ ascii "#", inArgs c) ∧ ∀ c ∈ ascii " ", inArgs c :=
    ⟨List.all_iff_forall_prop.mp (by decide), List.all_iff_forall_prop.mp (by decide)⟩
  have harg (a : ArgDecl) : ∀ c ∈ a.text, inArgs c := by
    have htoken : ∀ c ∈ a.token, inArgs c := fun c hc => (inArgs_token a c hc).1
    cases a with
    | plain name type => exact htoken
    | guarded name n bit type => exact htoken
    | word name =>
      have htext : (ArgDecl.word name).text = (ArgDecl.word name).token ++ ascii "#" := by
        rw [ArgDecl.text, ArgDecl.token, List.append_assoc]
        rfl
      rw [htext, List.forall_mem_append]
      exact ⟨htoken, hmark.1⟩
  induction args with
  | nil => exact List.forall_mem_nil _
  | cons a args ih =>
    rw [argsText, List.flatMap_cons, List.forall_mem_append, List.forall_mem_append]
    exact ⟨⟨harg a, hmark.2⟩, ih⟩

theorem inArgs_number (d : Signature) : ∀ c ∈ d.hex.text ++ ascii " ", inArgs c := by
  rw [List.forall_mem_append]
  exact ⟨fun c hc => .inl (plain_numeral le_rfl d.hex c hc),
    List.all_iff_forall_prop.mp (by decide)⟩

/-- The only brace of a line is that of `{X:Type}`. -/
theorem not_contains_body (d : Signature) : ¬ contains (ascii "{t:Type}") d.body := by
  have hbrace : ¬ inArgs 123 := by decide
  rintro ⟨u, v, h⟩
  have hnumber : 123 ∉ d.hex.text ++ ascii " " := fun hmem => hbrace (inArgs_number d _ hmem)
  have hargs : 123 ∉ argsText d.args := fun hmem => hbrace (inArgs_argsText d.args _ hmem)
  cases hg : d.generic with
  | false =>
    have hmem : 123 ∈ d.body := by
      rw [← h, List.mem_append, List.mem_append]
      exact .inl (.inr (by decide))
    rw [Signature.body, hg, List.mem_append] at hmem
    exact hmem.elim hnumber hargs
  | true =>
    have htext : d.hex.text ++ ascii " " ++ 123 :: (ascii "X:Type\x7d " ++ argsText d.args)
        = u ++ 123 :: (ascii "t:Type\x7d" ++ v) := by
      have hbody : d.body = d.hex.text ++ ascii " " ++ (ascii "{X:Type} " ++ argsText d.args) := by
        rw [Signature.body, hg, if_pos rfl]
      rw [hbody, List.append_assoc u] at h
      exact h.symm
    have htail : 123 ∉ ascii "X:Type\x7d " ++ argsText d.args := by
      rw [List.mem_append]
      exact fun hmem => hmem.elim (by decide) hargs
    obtain ⟨-, -, hrest⟩ := (List.append_cons_inj_of_notMem hnumber htail).mp htext
    exact absurd (List.cons.inj hrest).1 (by decide)

theorem methodName_ident (name : Ident) : methodName name.text = some name.text := by
  obtain ⟨c, text, htext⟩ := List.exists_cons_of_ne_nil name.nonempty
  have hc : c ≠ 47 := by
    rintro rfl
    have hslash := name.plain 47 (by rw [htext]; exact List.mem_cons_self)
    exact absurd hslash (by decide)
  rw [htext]
  unfold methodName
  split
  · next h => exact absurd (List.cons.inj h).1 hc
  · next h => exact absurd (List.cons.inj h).1 hc
  · rfl

/-- The number, and then the words of all pieces. -/
theorem parsePieces_body (d : Decl) {m : MethodT} (hm : m.args = []) :
    parsePieces m 1 (Strtok.tokens (among "#") d.body)
      = some (d.args.foldl addArg { m with id := d.hex.toUInt32 }) := by
  have hhex {delims : String} (hd : (ascii delims).all special = true) :
      ∀ c ∈ d.hex.text, among delims c = false := not_among hd (plain_numeral le_rfl d.hex)
  have hfirst : ∀ c ∈ d.hex.text ++ ascii " ", among "#" c = false := by
    rw [List.forall_mem_append]
    exact ⟨hhex (by decide), List.all_iff_forall_prop.mp (by decide)⟩
  obtain ⟨u, strs, hstrs⟩ := Strtok.tokens_eq_cons
    (List.append_ne_nil_of_left_ne_nil d.hex.nonempty (ascii " ")) hfirst
    ((if d.generic then ascii "{X:Type} " else []) ++ argsText d.args)
  have hword : Strtok.tokens (among " ") (d.hex.text ++ ascii " " ++ u)
      = d.hex.text :: Strtok.tokens (among " ") u := by
    rw [List.append_assoc]
    exact Strtok.tokens_word d.hex.nonempty (hhex (by decide)) (by decide) u
  have hwords : Strtok.tokens (among " ") u ++ strs.flatMap (Strtok.tokens (among " "))
      = (if d.generic then [ascii "{X:Type}"] else []) ++ d.args.map ArgDecl.token := by
    have hall := Strtok.flatMap_tokens (among "#") (among " ") d.body
    rw [Signature.body, hstrs, List.flatMap_cons, hword] at hall
    exact (List.cons.inj (hall.trans (words_body d.toSignature))).2
  have hpieces : ∀ t ∈ Strtok.tokens (among "#") d.body, ¬ contains (ascii "{t:Type}") t :=
    fun t ht hcontains =>
      not_contains_body d.toSignature (hcontains.trans (Strtok.infix_of_mem_tokens ht))
  have hid : scanId m d.hex.text = { m with id := d.hex.toUInt32 } := by
    rw [scanId, sscanf_x]
    rfl
  have hgeneric (m : MethodT) :
      (if d.generic then [ascii "{X:Type}"] else []).foldlM parseArg m = some m := by
    cases d.generic with
    | false => rfl
    | true => rfl
  rw [Signature.body, hstrs] at hpieces ⊢
  rw [parsePieces_first hpieces hword, hwords, List.foldlM_append, hgeneric, hid]
  refine foldlM_parseArg ?_
  rw [hm, List.length_nil, Nat.zero_add]
  exact d.few

theorem parseMethod_text (d : Decl) (ret : Bytes) :
    parseMethod { MethodT.zero with ret := some ret } (d.name.text ++ ascii "#" ++ d.body)
      = some { d.method with ret := some ret } := by
  have hname : Strtok.tokens (among "#") (d.name.text ++ ascii "#" ++ d.body)
      = d.name.text :: Strtok.tokens (among "#") d.body := by
    rw [List.append_assoc]
    exact Strtok.tokens_word d.name.nonempty (not_among (by decide) d.name.plain) (by decide) d.body
  rw [parseMethod, hname, parsePieces, methodName_ident]
  refine (parsePieces_body d rfl).trans ?_
  rw [foldl_addArg]
  simp only [MethodT.zero, List.nil_append, Nat.zero_add]
  rfl

/-! ## Lines -/

/-- No byte ends a line, a string or a part of the line. -/
theorem clean_body (d : Signature) : ∀ c ∈ d.body, c ≠ 0 ∧ c ≠ 10 ∧ c ≠ 61 := by
  have hclean {t : Bytes} (ht : ∀ c ∈ t, inArgs c) : ∀ c ∈ t, c ≠ 0 ∧ c ≠ 10 ∧ c ≠ 61 := by
    intro c hc
    have hends : ¬ inArgs 0 ∧ ¬ inArgs 10 ∧ ¬ inArgs 61 := by decide
    refine ⟨?_, ?_, ?_⟩ <;> rintro rfl
    · exact hends.1 (ht 0 hc)
    · exact hends.2.1 (ht 10 hc)
    · exact hends.2.2 (ht 61 hc)
  rw [Signature.body]
  refine List.forall_mem_append.mpr
    ⟨hclean (inArgs_number d), List.forall_mem_append.mpr ⟨?_, hclean (inArgs_argsText d.args)⟩⟩
  cases d.generic with
  | false => exact List.forall_mem_nil _
  | true => exact List.all_iff_forall_prop.mp (by decide)

theorem clean_ident (i : Ident) : ∀ c ∈ i.text, c ≠ 0 ∧ c ≠ 10 ∧ c ≠ 61 := by
  intro c hc
  have hc := i.plain c hc
  refine ⟨?_, ?_, ?_⟩ <;> rintro rfl <;> exact absurd hc (by decide)

theorem clean_head (d : Signature) :
    ∀ c ∈ d.name.text ++ ascii "#" ++ d.body, c ≠ 0 ∧ c ≠ 10 ∧ c ≠ 61 := by
  rw [List.forall_mem_append, List.forall_mem_append]
  exact ⟨⟨clean_ident d.name, List.all_iff_forall_prop.mp (by decide)⟩, clean_body d⟩

theorem clean_text (d : Signature) : ∀ c ∈ d.text, c ≠ 0 ∧ c ≠ 10 := by
  have hhead : ∀ c ∈ d.name.text ++ ascii "#" ++ d.body, c ≠ 0 ∧ c ≠ 10 :=
    fun c hc => ⟨(clean_head d c hc).1, (clean_head d c hc).2.1⟩
  have hret : ∀ c ∈ d.ret.text, c ≠ 0 ∧ c ≠ 10 :=
    fun c hc => ⟨(clean_ident d.ret c hc).1, (clean_ident d.ret c hc).2.1⟩
  rw [Signature.text_eq]
  refine List.forall_mem_append.mpr
    ⟨List.forall_mem_append.mpr ⟨hhead, List.all_iff_forall_prop.mp (by decide)⟩, ?_⟩
  rw [List.forall_mem_append, List.forall_mem_append]
  exact ⟨⟨List.all_iff_forall_prop.mp (by decide), hret⟩, List.all_iff_forall_prop.mp (by decide)⟩

theorem parseMethodReturn_text (ret : Ident) (nl : Bytes) :
    parseMethodReturn .zero (ascii " " ++ ret.text ++ ascii ";" ++ nl)
      = { MethodT.zero with ret := some ret.text } := by
  have hnext : Strtok.next (among " ;") (ascii " " ++ ret.text ++ ascii ";" ++ nl)
      = (some ret.text, nl) := by
    rw [List.append_assoc, List.append_assoc]
    refine (Strtok.next_delim (by decide) _).trans ?_
    exact Strtok.next_word ret.nonempty (not_among (by decide) ret.plain) (by decide) nl
  rw [parseMethodReturn, hnext]

theorem parseLine_text (d : Decl) {nl : Bytes} (hnl : nl = [] ∨ nl = ascii "\n") :
    parseLine (d.text ++ nl) = some (.method d.method) := by
  have hnl' : ∀ c ∈ nl, c ≠ 0 ∧ among "=" c = false := by
    obtain rfl | rfl := hnl
    · exact List.forall_mem_nil _
    · exact List.all_iff_forall_prop.mp (by decide)
  have hbuf : (d.text ++ nl).takeWhile (· ≠ 0) = d.text ++ nl := by
    refine List.takeWhile_eq_self_iff.mpr fun c hc => decide_eq_true ?_
    exact (List.mem_append.mp hc).elim (fun hc => (clean_text d.toSignature c hc).1)
      fun hc => (hnl' c hc).1
  have hhead : (d.text ++ nl).head? ∉ [none, some 32, some 10] := by
    obtain ⟨c, text, hc⟩ := List.exists_cons_of_ne_nil d.name.nonempty
    have hplain := d.name.plain c (by rw [hc]; exact List.mem_cons_self)
    have htext : (d.text ++ nl).head? = some c := by
      simp only [Signature.text, hc, List.cons_append, List.head?_cons]
    rw [htext]
    simp only [List.mem_cons, List.not_mem_nil, or_false, reduceCtorEq, false_or, Option.some.injEq]
    rintro (rfl | rfl) <;> exact absurd hplain (by decide)
  have hne : d.name.text ++ ascii "#" ++ d.body ≠ [] := by
    rw [List.append_assoc]
    exact List.append_ne_nil_of_left_ne_nil d.name.nonempty _
  have hmethod : Strtok.next (among "=") (d.text ++ nl) =
      (some (d.name.text ++ ascii "#" ++ d.body), ascii " " ++ d.ret.text ++ ascii ";" ++ nl) := by
    rw [Signature.text_eq, List.append_assoc (_ ++ ascii "="), List.append_assoc _ (ascii "=")]
    refine Strtok.next_word hne (fun c hc => ?_) (by decide) _
    refine decide_eq_false fun hmem => (clean_head d.toSignature c hc).2.2 ?_
    exact List.mem_singleton.mp hmem
  have hret : Strtok.next (among "=") (ascii " " ++ d.ret.text ++ ascii ";" ++ nl)
      = (some (ascii " " ++ d.ret.text ++ ascii ";" ++ nl), []) := by
    refine Strtok.next_last (by simp [ascii]) ?_
    simp only [List.forall_mem_append]
    exact ⟨⟨⟨List.all_iff_forall_prop.mp (by decide), not_among (by decide) d.ret.plain⟩,
      List.all_iff_forall_prop.mp (by decide)⟩, fun c hc => (hnl' c hc).2⟩
  have hquestion : 63 ∉ d.name.text := fun hmem => absurd (d.name.plain 63 hmem) (by decide)
  have hkeep : ¬ (63 ∈ d.name.text ∨ d.hex.toUInt32 = 0) := fun h => h.elim hquestion d.nonzero
  simp only [parseLine, hbuf, if_neg hhead, hmethod, hret, parseMethodReturn_text, parseMethod_text,
    Signature.method, if_neg hkeep]

example : parseLine (ascii "user#83314fca flags:# self:flags.10?true id:long = User;\n")
    = some (.method ⟨some (ascii "user"), 0x83314fca, some (ascii "User"),
        [⟨ascii "flags", none, 0, 0⟩, ⟨ascii "self", some (ascii "true"), 1, 10⟩,
          ⟨ascii "id", some (ascii "long"), 0, 0⟩], 1⟩) := by decide +kernel

/-- A line without `=` declares nothing. -/
theorem parseLine_marker {line : Bytes} (h : ∀ c ∈ line, c ≠ 61) : parseLine line = some .skip := by
  have hbuf : ∀ c ∈ line.takeWhile (· ≠ 0), among "=" c = false := by
    intro c hc
    refine decide_eq_false fun hmem => h c (List.takeWhile_subset _ hc) ?_
    exact List.mem_singleton.mp hmem
  rw [parseLine]
  split
  · rfl
  · next hhead =>
    have hne : line.takeWhile (· ≠ 0) ≠ [] := by
      intro hnil
      rw [hnil] at hhead
      exact hhead (by decide)
    rw [Strtok.next_last hne hbuf]
    rfl

end Libtg.TlParser
