import Mathlib.Data.Nat.Digits.Defs
import Mathlib.Tactic

/-!
# The text of SQL statements

How SQLite takes the text of a statement apart: blanks separate, words are keywords, names or
numbers, and a literal runs from a quote to the next quote that is not doubled. `scan` reads from
left to right and can stop and go on anywhere (`scan_append`), so that a text that is put together
from pieces is read piece by piece. A text between quotes is read back exactly if it holds no quote
(`lexFrom_quoted`, `lexFrom_quoted_ne`).
-/

namespace Sql

abbrev Text := List UInt8

/-- The bytes of a text. -/
def bytes (s : String) : Text := s.toUTF8.data.toList

theorem bytes_inj {s t : String} (h : bytes s = bytes t) : s = t :=
  String.toByteArray_inj.mp (ByteArray.ext (Array.toList_inj.mp h))

def quote : UInt8 := 39

/-- A word is a keyword, a name or a number. -/
inductive Token where
  | word (w : Text)
  | quoted (t : Text)
  | sym (c : UInt8)
  deriving DecidableEq

def isSpace (c : UInt8) : Bool := c ∈ [32, 9, 10, 12, 13]

def isDigit (c : UInt8) : Bool := 48 ≤ c ∧ c ≤ 57

def isWord (c : UInt8) : Bool :=
  isDigit c ∨ (65 ≤ c ∧ c ≤ 90) ∨ (97 ≤ c ∧ c ≤ 122) ∨ c = 95

/-- What has been read of the next token, the last byte first. -/
inductive Mode where
  | ready
  | word (w : Text)
  | inside (t : Text)
  /-- Behind a quote that closes the literal, unless another one follows. -/
  | closing (t : Text)
  deriving DecidableEq

def enter (c : UInt8) : List Token × Mode :=
  if isSpace c then ([], .ready)
  else if c = quote then ([], .inside [])
  else if isWord c then ([], .word [c])
  else ([.sym c], .ready)

/-- A token ends in front of `c`. -/
def endToken (x : Token) (c : UInt8) : List Token × Mode := (x :: (enter c).1, (enter c).2)

def next : Mode → UInt8 → List Token × Mode
  | .ready, c => enter c
  | .word w, c => if isWord c then ([], .word (c :: w)) else endToken (.word w.reverse) c
  | .inside t, c => if c = quote then ([], .closing t) else ([], .inside (c :: t))
  | .closing t, c =>
    if c = quote then ([], .inside (quote :: t)) else endToken (.quoted t.reverse) c

/-- The tokens that end in the text, and what has been read of the next one. -/
def scan (m : Mode) : Text → List Token × Mode
  | [] => ([], m)
  | c :: b =>
    let r := next m c
    let r' := scan r.2 b
    (r.1 ++ r'.1, r'.2)

/-- The token the text ends with. A literal that is not closed gives a token no statement has. -/
def finish : Mode → List Token
  | .ready => []
  | .word w => [.word w.reverse]
  | .inside _ => [.sym quote]
  | .closing t => [.quoted t.reverse]

/-- The tokens of a text that is read from a mode on. -/
def lexFrom (m : Mode) (b : Text) : List Token := (scan m b).1 ++ finish (scan m b).2

def lex (b : Text) : List Token := lexFrom .ready b

section
variable {m n : Mode} {a b t u w : Text} {ts us : List Token} {c : UInt8}

theorem scan_append (m : Mode) (a b : Text) :
    scan m (a ++ b) =
      ((scan m a).1 ++ (scan (scan m a).2 b).1, (scan (scan m a).2 b).2) := by
  induction a generalizing m with
  | nil => rfl
  | cons c a ih =>
    simp only [List.cons_append, scan, ih, List.append_assoc]

theorem lexFrom_append (h : scan m a = (ts, n)) : lexFrom m (a ++ b) = ts ++ lexFrom n b := by
  simp only [lexFrom, scan_append, h, List.append_assoc]

theorem lexFrom_cons : lexFrom m (c :: b) = (next m c).1 ++ lexFrom (next m c).2 b :=
  lexFrom_append (a := [c]) (by simp [scan])

/-- A byte that only goes on. -/
theorem lexFrom_next (h : next m c = ([], n)) : lexFrom m (c :: b) = lexFrom n b := by
  rw [lexFrom_cons, h]
  rfl

/-! ## Words and literals -/

theorem scan_word (h : ∀ c ∈ w, isWord c) (u : Text) :
    scan (.word u) w = ([], .word (w.reverse ++ u)) := by
  induction w generalizing u with
  | nil => rfl
  | cons c w ih =>
    obtain ⟨hc, hw⟩ := List.forall_mem_cons.mp h
    rw [scan, next, if_pos hc, ih hw]
    simp

theorem isWord_ne (h : isWord c) : isSpace c = false ∧ c ≠ quote := by
  constructor
  · cases hspace : isSpace c with
    | false => rfl
    | true =>
      simp only [isSpace, List.mem_cons, List.not_mem_nil, or_false, decide_eq_true_eq] at hspace
      rcases hspace with rfl | rfl | rfl | rfl | rfl <;> exact absurd h (by decide)
  · rintro rfl
    exact absurd h (by decide)

theorem enter_word (h : isWord c) : enter c = ([], .word [c]) := by
  obtain ⟨hspace, hquote⟩ := isWord_ne h
  rw [enter, hspace, if_neg Bool.false_ne_true, if_neg hquote, if_pos h]

/-- A word is read up to what cannot be part of it. -/
theorem lexFrom_word (h : ∀ c ∈ w, isWord c) (hw : w ≠ []) (hc : isWord c = false) :
    lexFrom .ready (w ++ c :: b) = .word w :: lexFrom .ready (c :: b) := by
  obtain ⟨d, w, rfl⟩ := List.exists_cons_of_ne_nil hw
  obtain ⟨hd, hw'⟩ := List.forall_mem_cons.mp h
  have hscan : scan .ready (d :: w) = ([], .word (w.reverse ++ [d])) := by
    rw [scan, next, enter_word hd, scan_word hw']
    rfl
  have hend : next (.word (w.reverse ++ [d])) c = endToken (.word (d :: w)) c := by
    rw [next, hc, if_neg Bool.false_ne_true, List.reverse_append, List.reverse_reverse]
    rfl
  rw [lexFrom_append hscan, lexFrom_cons, hend, lexFrom_cons, next, endToken]
  rfl

/-- A word that the text ends with. -/
theorem lex_word (h : ∀ c ∈ w, isWord c) (hw : w ≠ []) : lex w = [.word w] := by
  obtain ⟨d, w, rfl⟩ := List.exists_cons_of_ne_nil hw
  obtain ⟨hd, hw'⟩ := List.forall_mem_cons.mp h
  have hscan : scan .ready (d :: w) = ([], .word (w.reverse ++ [d])) := by
    rw [scan, next, enter_word hd, scan_word hw']
    rfl
  rw [lex, lexFrom, hscan, finish, List.reverse_append, List.reverse_reverse]
  rfl

theorem scan_inside (h : quote ∉ t) (u : Text) :
    scan (.inside u) t = ([], .inside (t.reverse ++ u)) := by
  induction t generalizing u with
  | nil => rfl
  | cons c t ih =>
    rw [List.mem_cons, not_or] at h
    rw [scan, next, if_neg (Ne.symm h.1), ih h.2]
    simp

/-- A literal without a quote in it is read up to the quote that closes it. -/
theorem lexFrom_quoted (h : quote ∉ t) (hc : c ≠ quote) :
    lexFrom .ready (quote :: (t ++ quote :: c :: b)) = .quoted t :: lexFrom .ready (c :: b) := by
  have hend : next (.closing t.reverse) c = endToken (.quoted t) c := by
    rw [next, if_neg hc, List.reverse_reverse]
  rw [lexFrom_next (n := .inside []) rfl, lexFrom_append (scan_inside h []), List.append_nil,
    List.nil_append, lexFrom_next (n := .closing t.reverse) rfl, lexFrom_cons, hend, lexFrom_cons,
    next, endToken]
  rfl

/-! ## What a literal denotes -/

/-- The text with its quotes doubled. -/
def double (t : Text) : Text := t.flatMap fun c => if c = quote then [quote, quote] else [c]

/-- What is read in front of a literal's end is its text with the quotes doubled. -/
theorem lexFrom_literal (b : Text) :
    (∀ t u us, lexFrom (.inside t) b = .quoted u :: us → ∃ v r, u = t.reverse ++ v ∧
      b = double v ++ quote :: r) ∧
    ∀ t u us, lexFrom (.closing t) b = .quoted u :: us → ∃ v r, u = t.reverse ++ v ∧
      quote :: b = double v ++ quote :: r := by
  induction b with
  | nil =>
    constructor
    · intro t u us h
      cases h
    · intro t u us h
      cases h
      exact ⟨[], [], (List.append_nil _).symm, rfl⟩
  | cons c b ih =>
    obtain ⟨hinside, hclosing⟩ := ih
    constructor
    · intro t u us h
      by_cases hc : c = quote
      · subst hc
        rw [lexFrom_next (n := .closing t) rfl] at h
        exact hclosing t u us h
      · rw [lexFrom_next (n := .inside (c :: t)) (by rw [next, if_neg hc])] at h
        obtain ⟨v, r, rfl, rfl⟩ := hinside _ u us h
        exact ⟨c :: v, r, by simp, by simp [double, hc]⟩
    · intro t u us h
      by_cases hc : c = quote
      · subst hc
        rw [lexFrom_next (n := .inside (quote :: t)) rfl] at h
        obtain ⟨v, r, rfl, rfl⟩ := hinside _ u us h
        exact ⟨quote :: v, r, by simp, by simp [double]⟩
      · rw [lexFrom_cons, next, if_neg hc] at h
        cases h
        exact ⟨[], c :: b, (List.append_nil _).symm, rfl⟩

/-- Behind a quote too many the doubled text runs ahead of the text. -/
theorem append_ne_double (hc : c ≠ quote) {n : Nat} (hn : n ≠ 0) (t b r : Text) :
    t ++ quote :: c :: b ≠ List.replicate n quote ++ (double t ++ quote :: r) := by
  induction t generalizing n with
  | nil =>
    obtain ⟨n, rfl⟩ := Nat.exists_eq_succ_of_ne_zero hn
    intro h
    cases n with
    | zero =>
      simp [double, List.replicate] at h
      exact hc h.1
    | succ n =>
      simp [List.replicate_succ] at h
      exact hc h.1
  | cons d t ih =>
    obtain ⟨k, rfl⟩ := Nat.exists_eq_succ_of_ne_zero hn
    intro h
    rw [List.replicate_succ, List.cons_append, List.cons_append] at h
    obtain ⟨rfl, h⟩ := List.cons.inj h
    refine ih (n := k + 2) (by omega) (h.trans ?_)
    simp [double, List.replicate_add]

/-- The text itself is what is read exactly if there is no quote in it. -/
theorem not_mem_of_double (hc : c ≠ quote) {r : Text}
    (h : t ++ quote :: c :: b = double t ++ quote :: r) : quote ∉ t := by
  induction t with
  | nil => exact List.not_mem_nil
  | cons d t ih =>
    by_cases hd : d = quote
    · subst hd
      have hdouble : double (quote :: t) = quote :: quote :: double t := by simp [double]
      rw [hdouble, List.cons_append, List.cons_append] at h
      exact absurd (List.cons.inj h).2 (append_ne_double hc one_ne_zero t b r)
    · have hdouble : double (d :: t) = d :: double t := by simp [double, hd]
      rw [hdouble, List.cons_append, List.cons_append] at h
      rw [List.mem_cons, not_or]
      exact ⟨Ne.symm hd, ih (List.cons.inj h).2⟩

/-- A literal with a quote in it is read as another text, if its end is found at all. -/
theorem lexFrom_quoted_ne (h : quote ∈ t) (hc : c ≠ quote) :
    lexFrom .ready (quote :: (t ++ quote :: c :: b)) ≠ .quoted t :: ts := by
  rw [lexFrom_next (n := .inside []) rfl]
  intro hlex
  obtain ⟨v, r, rfl, htext⟩ := (lexFrom_literal _).1 [] t ts hlex
  exact not_mem_of_double hc htext h

end

/-! ## Numbers -/

/-- The decimal digits of a number. -/
def natText (n : Nat) : Text :=
  if n = 0 then [48] else ((Nat.digits 10 n).map fun d => UInt8.ofNat (48 + d)).reverse

/-- A number as `%d` and `%ld` print it. -/
def intText (n : Int) : Text := if n < 0 then 45 :: natText n.natAbs else natText n.natAbs

def natOfText (w : Text) : Option Nat :=
  if w ≠ [] ∧ w.all isDigit then some (w.foldl (fun n c => 10 * n + (c.toNat - 48)) 0) else none

/-- The tokens of a printed number. -/
def intTokens (n : Int) : List Token :=
  if n < 0 then [.sym 45, .word (natText n.natAbs)] else [.word (natText n.natAbs)]

section
variable {b : Text} {c : UInt8}

theorem digit_toNat {d : Nat} (h : d < 10) : (UInt8.ofNat (48 + d)).toNat = 48 + d := by
  rw [UInt8.toNat_ofNat']
  omega

theorem isDigit_digit {d : Nat} (h : d < 10) : isDigit (UInt8.ofNat (48 + d)) := by
  have hd := digit_toNat h
  simp only [isDigit, UInt8.le_iff_toNat_le, hd, decide_eq_true_eq]
  exact ⟨by show 48 ≤ _; omega, by show _ ≤ 57; omega⟩

theorem natText_ne_nil (n : Nat) : natText n ≠ [] := by
  rw [natText]
  split_ifs with h
  · simp
  · simp [Nat.digits_ne_nil_iff_ne_zero.mpr h]

theorem natText_isDigit (n : Nat) : ∀ c ∈ natText n, isDigit c := by
  intro c hc
  rw [natText] at hc
  split_ifs at hc
  · rw [List.mem_singleton.mp hc]
    decide
  · rw [List.mem_reverse, List.mem_map] at hc
    obtain ⟨d, hd, rfl⟩ := hc
    exact isDigit_digit (Nat.digits_lt_base (by norm_num) hd)

theorem natText_isWord (n : Nat) : ∀ c ∈ natText n, isWord c := by
  intro c hc
  have hdigit := natText_isDigit n c hc
  simp [isWord, hdigit]

theorem natOfText_natText (n : Nat) : natOfText (natText n) = some n := by
  rw [natOfText, if_pos ⟨natText_ne_nil n, List.all_eq_true.mpr (natText_isDigit n)⟩]
  refine congrArg some ?_
  rw [natText]
  split_ifs with h
  · rw [h]
    rfl
  · have hlt := fun d hd => Nat.digits_lt_base (b := 10) (m := n) (d := d) (by norm_num) hd
    have hfold (l : List Nat) (hl : ∀ d ∈ l, d < 10) :
        ((l.map fun d => UInt8.ofNat (48 + d)).reverse).foldl
          (fun n c => 10 * n + (c.toNat - 48)) 0 = Nat.ofDigits 10 l := by
      induction l with
      | nil => rfl
      | cons d l ih =>
        obtain ⟨hd, hl⟩ := List.forall_mem_cons.mp hl
        rw [List.map_cons, List.reverse_cons, List.foldl_append, ih hl, Nat.ofDigits_cons,
          List.foldl_cons, List.foldl_nil, digit_toNat hd]
        omega
    rw [hfold _ hlt, Nat.ofDigits_digits]

theorem quote_notMem_intText (n : Int) : quote ∉ intText n := by
  have hnat : quote ∉ natText n.natAbs := by
    intro h
    exact absurd (natText_isDigit _ _ h) (by decide)
  rw [intText]
  split_ifs
  · rw [List.mem_cons, not_or]
    exact ⟨by decide, hnat⟩
  · exact hnat

theorem lex_intText (n : Int) : lex (intText n) = intTokens n := by
  have hword := lex_word (natText_isWord n.natAbs) (natText_ne_nil _)
  rw [intText, intTokens]
  split_ifs
  · rw [lex, lexFrom_cons, show next .ready 45 = ([.sym 45], .ready) by decide]
    exact congrArg (Token.sym 45 :: ·) hword
  · exact hword

theorem lex_blank : lex (bytes " ") = [] := by decide

theorem lexFrom_blank (b : Text) : lexFrom .ready (bytes " " ++ b) = lexFrom .ready b :=
  lexFrom_append (by decide : scan .ready (bytes " ") = ([], .ready))

/-- A printed number is read up to what cannot be part of it. -/
theorem lexFrom_intText (n : Int) (hc : isWord c = false) :
    lexFrom .ready (intText n ++ c :: b) = intTokens n ++ lexFrom .ready (c :: b) := by
  have hword := lexFrom_word (b := b) (natText_isWord n.natAbs) (natText_ne_nil _) hc
  rw [intText, intTokens]
  split_ifs
  · rw [List.cons_append, lexFrom_cons, show next .ready 45 = ([.sym 45], .ready) by decide, hword]
    rfl
  · exact hword

end

end Sql
