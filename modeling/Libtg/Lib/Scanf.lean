import Mathlib.Data.List.TakeWhile
import Mathlib.Tactic

/-!
# Numbers read by `sscanf`

What `sscanf` assigns under a format of single bytes, `%d` and `%x`, as far as the low 32 bits go. A
`Numeral` is the text of a number without a sign; where nothing follows that could belong to it, it
is read back (`scanNumber_numeral`).
-/

namespace Scanf

def isSpace (c : UInt8) : Bool := c = 32 ∨ (9 ≤ c ∧ c ≤ 13)

/-- What a character stands for as a digit, 16 if it is none. -/
def digitVal (c : UInt8) : Nat :=
  if 48 ≤ c ∧ c ≤ 57 then c.toNat - 48
  else if 97 ≤ c ∧ c ≤ 102 then c.toNat - 87
  else if 65 ≤ c ∧ c ≤ 70 then c.toNat - 55
  else 16

def isDigit (base : Nat) (c : UInt8) : Bool := digitVal c < base

def value (base : Nat) (text : List UInt8) : Nat :=
  text.foldl (fun n c => n * base + digitVal c) 0

/-- The text of a number below `bound`. -/
structure Numeral (base bound : Nat) where
  text : List UInt8
  nonempty : text ≠ []
  digits : ∀ c ∈ text, isDigit base c
  lt : value base text < bound

def Numeral.toUInt32 {base bound : Nat} (n : Numeral base bound) : UInt32 :=
  UInt32.ofNat (value base n.text)

/-! ## Reading -/

def sign : List UInt8 → Bool × List UInt8
  | 45 :: s => (true, s)
  | 43 :: s => (false, s)
  | s => (false, s)

/-- `0x` counts as one digit. -/
def dropHexPrefix : List UInt8 → List UInt8
  | 48 :: 120 :: s => 48 :: s
  | 48 :: 88 :: s => 48 :: s
  | s => s

/-- `strtol` stays within 64 bits. -/
def toSigned (neg : Bool) (n : Nat) : UInt32 :=
  if neg then - UInt32.ofNat (min n (2 ^ 63)) else UInt32.ofNat (min n (2 ^ 63 - 1))

/-- `strtoul` changes the sign of what is in range. -/
def toUnsigned (neg : Bool) (n : Nat) : UInt32 :=
  if 2 ^ 64 ≤ n then UInt32.ofNat (2 ^ 64 - 1)
  else if neg then - UInt32.ofNat n
  else UInt32.ofNat n

inductive Conversion where
  /-- `%d` -/
  | d
  /-- `%x` -/
  | x

inductive Directive where
  | char (c : UInt8)
  | number (conv : Conversion)

/-- The bytes of a text that holds neither a blank nor a `%`. -/
def chars (s : List UInt8) : List Directive := s.map .char

def scanDigits (base : Nat) (s : List UInt8) : Option (Nat × List UInt8) :=
  match s.takeWhile (isDigit base) with
  | [] => none
  | c :: text => some (value base (c :: text), s.dropWhile (isDigit base))

def scanNumber (conv : Conversion) (s : List UInt8) : Option (UInt32 × List UInt8) :=
  let (neg, s) := sign (s.dropWhile isSpace)
  match conv with
  | .d => (scanDigits 10 s).map fun (n, s) => (toSigned neg n, s)
  | .x => (scanDigits 16 (dropHexPrefix s)).map fun (n, s) => (toUnsigned neg n, s)

/-- The numbers that are assigned in turn. -/
def sscanf : List Directive → List UInt8 → List UInt32
  | [], _ => []
  | .char c :: ds, s =>
    match s with
    | [] => []
    | b :: s => if b = c then sscanf ds s else []
  | .number conv :: ds, s =>
    match scanNumber conv s with
    | none => []
    | some (n, s) => n :: sscanf ds s

variable {base bound : Nat} {s t : List UInt8}

/-! ## Reading a numeral back -/

theorem plain_of_isDigit {c : UInt8} (h : isDigit 16 c) :
    isSpace c = false ∧ c ≠ 45 ∧ c ≠ 43 ∧ c ≠ 120 ∧ c ≠ 88 := by
  have hlt : digitVal c < 16 := of_decide_eq_true h
  have key : ∀ d : BitVec 8, digitVal (UInt8.ofBitVec d) < 16 →
      isSpace (UInt8.ofBitVec d) = false ∧ UInt8.ofBitVec d ≠ 45 ∧ UInt8.ofBitVec d ≠ 43 ∧
        UInt8.ofBitVec d ≠ 120 ∧ UInt8.ofBitVec d ≠ 88 := by decide +kernel
  exact key c.toBitVec hlt

theorem isDigit_of_le {c : UInt8} {b : Nat} (hb : base ≤ b) (h : isDigit base c) : isDigit b c :=
  decide_eq_true (lt_of_lt_of_le (of_decide_eq_true h) hb)

/-- A text that begins with a digit has no blanks in front and no sign. -/
theorem sign_digit {c : UInt8} (h : isDigit 16 c) (s : List UInt8) :
    sign ((c :: s).dropWhile isSpace) = (false, c :: s) := by
  obtain ⟨hspace, hminus, hplus, -⟩ := plain_of_isDigit h
  rw [List.dropWhile_cons_of_neg (by rw [hspace]; exact Bool.false_ne_true)]
  unfold sign
  split
  · next hc => exact absurd (List.cons.inj hc).1 hminus
  · next hc => exact absurd (List.cons.inj hc).1 hplus
  · rfl

theorem dropHexPrefix_of_forall (h : ∀ c ∈ s, isDigit 16 c) : dropHexPrefix s = s := by
  unfold dropHexPrefix
  split
  · next t => exact absurd rfl (plain_of_isDigit (h 120 (by simp))).2.2.2.1
  · next t => exact absurd rfl (plain_of_isDigit (h 88 (by simp))).2.2.2.2
  · rfl

theorem scanDigits_numeral (n : Numeral base bound) (hs : ∀ c ∈ s.head?, isDigit base c = false) :
    scanDigits base (n.text ++ s) = some (value base n.text, s) := by
  have hs' : s.takeWhile (isDigit base) = [] ∧ s.dropWhile (isDigit base) = s := by
    cases s with
    | nil => exact ⟨rfl, rfl⟩
    | cons c s =>
      have hc : ¬ isDigit base c = true := by rw [hs c rfl]; exact Bool.false_ne_true
      exact ⟨List.takeWhile_cons_of_neg hc, List.dropWhile_cons_of_neg hc⟩
  obtain ⟨c, text, htext⟩ := List.exists_cons_of_ne_nil n.nonempty
  rw [scanDigits, List.takeWhile_append_of_pos n.digits, List.dropWhile_append_of_pos n.digits,
    hs'.1, hs'.2, List.append_nil, htext]

theorem sign_numeral (n : Numeral base bound) (hbase : base ≤ 16) (s : List UInt8) :
    sign ((n.text ++ s).dropWhile isSpace) = (false, n.text ++ s) := by
  obtain ⟨c, text, htext⟩ := List.exists_cons_of_ne_nil n.nonempty
  have hmem : c ∈ n.text := by
    rw [htext]
    exact List.mem_cons_self
  have hc : isDigit 16 c := isDigit_of_le hbase (n.digits c hmem)
  rw [htext, List.cons_append]
  exact sign_digit hc _

theorem scanNumber_d (n : Numeral 10 (2 ^ 31)) (hs : ∀ c ∈ s.head?, isDigit 10 c = false) :
    scanNumber .d (n.text ++ s) = some (n.toUInt32, s) := by
  have hlt := n.lt
  have hsigned : toSigned false (value 10 n.text) = n.toUInt32 := by
    rw [toSigned, if_neg Bool.false_ne_true, min_eq_left (by omega)]
    rfl
  simp only [scanNumber, sign_numeral n (by decide), scanDigits_numeral n hs, Option.map_some,
    hsigned]

theorem scanNumber_x (n : Numeral 16 (2 ^ 32)) : scanNumber .x n.text = some (n.toUInt32, []) := by
  have hlt := n.lt
  have hunsigned : toUnsigned false (value 16 n.text) = n.toUInt32 := by
    rw [toUnsigned, if_neg (by omega), if_neg Bool.false_ne_true]
    rfl
  have hsign := sign_numeral n le_rfl []
  have hdigits := scanDigits_numeral n (s := []) fun c hc => nomatch hc
  rw [List.append_nil] at hsign hdigits
  simp only [scanNumber, hsign, dropHexPrefix_of_forall n.digits, hdigits, Option.map_some,
    hunsigned]

/-! ## Formats -/

theorem sscanf_char (c : UInt8) (ds : List Directive) (s : List UInt8) :
    sscanf (.char c :: ds) (c :: s) = sscanf ds s := by
  rw [sscanf, if_pos rfl]

theorem sscanf_chars (t : List UInt8) (ds : List Directive) (s : List UInt8) :
    sscanf (chars t ++ ds) (t ++ s) = sscanf ds s := by
  induction t with
  | nil => rfl
  | cons c t ih =>
    rw [chars, List.map_cons, List.cons_append, List.cons_append, sscanf_char]
    exact ih

theorem sscanf_d (n : Numeral 10 (2 ^ 31)) (ds : List Directive)
    (hs : ∀ c ∈ s.head?, isDigit 10 c = false) :
    sscanf (.number .d :: ds) (n.text ++ s) = n.toUInt32 :: sscanf ds s := by
  rw [sscanf, scanNumber_d n hs]

theorem sscanf_x (n : Numeral 16 (2 ^ 32)) : sscanf [.number .x] n.text = [n.toUInt32] := by
  rw [sscanf, scanNumber_x]
  rfl

end Scanf
