import Libtg.TlGenerator.SchemaText

/-!
# Schemas as files

A schema is lines that declare something and lines that do not. `fgets` reads a declaration into one
buffer, any other line possibly into several, none of which has a `=` either, so that the file
yields the calls for its declarations (`yields_file`).
-/

namespace Libtg.TlParser

open Consumer Fgets

/-- An empty line, or one between the sections. -/
structure Marker where
  text : Bytes
  plain : ∀ c ∈ text, c ≠ 10 ∧ c ≠ 61

inductive SchemaLine where
  | decl (d : Decl)
  | marker (m : Marker)

def SchemaLine.text : SchemaLine → Bytes
  | .decl d => d.text
  | .marker m => m.text

/-- The calls of the callback. -/
def SchemaLine.calls : SchemaLine → List Call
  | .decl d => [.method d.method]
  | .marker _ => []

/-- The last line may be without a newline. -/
def fileText (file : List SchemaLine) (last : Option SchemaLine) : Bytes :=
  file.flatMap (fun l => l.text ++ ascii "\n") ++ last.elim [] (·.text)

/-- What is read yields these calls, in turn. -/
inductive Yields : List Bytes → List Call → Prop
  | nil : Yields [] []
  | skip {buf : Bytes} {bufs : List Bytes} {calls : List Call} (h : parseLine buf = some .skip)
      (hs : Yields bufs calls) : Yields (buf :: bufs) calls
  | method {buf : Bytes} {bufs : List Bytes} {m : MethodT} {calls : List Call}
      (h : parseLine buf = some (.method m)) (hs : Yields bufs calls) :
      Yields (buf :: bufs) (.method m :: calls)

theorem parseSchema_of_yields {bufs : List Bytes} {calls : List Call} (h : Yields bufs calls)
    (stops : Callback) (i : Nat) (log : List Call) :
    parseSchema (some stops) i log bufs = some (0, handed stops log calls) := by
  induction h generalizing i log with
  | nil => rfl
  | skip h _ ih => simp only [parseSchema, h, ih]
  | method h _ ih =>
    simp only [parseSchema, h, ih, handed]
    split <;> rfl

variable {n : Nat} {t tail : Bytes} {calls : List Call}

/-- What stands behind a line yields these calls: nothing, or a newline and further lines. -/
def Ends (n : Nat) (tail : Bytes) (calls : List Call) : Prop :=
  (tail = [] ∧ calls = []) ∨ ∃ rest, tail = 10 :: rest ∧ Yields (lines n rest) calls

theorem yields_marker (hn : 2 ≤ n) (ht : ∀ c ∈ t, c ≠ 10 ∧ c ≠ 61) (h : Ends n tail calls) :
    Yields (lines n (t ++ tail)) calls := by
  induction hlength : t.length using Nat.strong_induction_on generalizing t with
  | h l ih =>
    subst hlength
    have hline : ∀ c ∈ t, c ≠ 10 := fun c hc => (ht c hc).1
    have hskip : ∀ c ∈ t, c ≠ 61 := fun c hc => (ht c hc).2
    by_cases hroom : n - 1 ≤ t.length
    · -- the buffer is filled, and what is left of the line is shorter
      have hne : t ++ tail ≠ [] :=
        List.append_ne_nil_of_left_ne_nil (List.ne_nil_of_length_pos (by omega)) tail
      rw [lines_cons hn hne, fgets_full hline hroom]
      refine .skip (parseLine_marker fun c hc => hskip c (List.take_subset _ t hc)) ?_
      have hdrop : (t.drop (n - 1)).length < t.length := by
        rw [List.length_drop]
        omega
      exact ih _ hdrop (fun c hc => ht c (List.drop_subset _ t hc)) rfl
    · have hroom : t.length < n - 1 := by omega
      obtain ⟨rfl, rfl⟩ | ⟨rest, rfl, hrest⟩ := h
      · rw [List.append_nil]
        cases t with
        | nil => exact .nil
        | cons c t =>
          rw [lines_cons hn (List.cons_ne_nil c t), fgets_last hline hroom]
          exact .skip (parseLine_marker hskip) .nil
      · have hne : t ++ 10 :: rest ≠ [] :=
          List.append_ne_nil_of_right_ne_nil t (List.cons_ne_nil 10 rest)
        rw [lines_cons hn hne, fgets_newline hline hroom]
        refine .skip (parseLine_marker ?_) hrest
        exact List.forall_mem_append.mpr ⟨hskip, List.forall_mem_singleton.mpr (by decide)⟩

theorem yields_decl (d : Decl) (h : Ends (BUFSIZ * 2) tail calls) :
    Yields (lines (BUFSIZ * 2) (d.text ++ tail)) (.method d.method :: calls) := by
  have hn : 2 ≤ BUFSIZ * 2 := by decide
  have hfits := d.fits
  have hline : ∀ c ∈ d.text, c ≠ 10 := fun c hc => (clean_text d.toSignature c hc).2
  have htext : d.text ≠ [] := by
    simp only [Signature.text, List.append_assoc]
    exact List.append_ne_nil_of_left_ne_nil d.name.nonempty _
  have hne : d.text ++ tail ≠ [] := List.append_ne_nil_of_left_ne_nil htext tail
  have hmethod := parseLine_text d (.inl rfl)
  rw [List.append_nil] at hmethod
  rw [lines_cons hn hne]
  by_cases hroom : BUFSIZ * 2 - 1 ≤ d.text.length
  · -- the newline is read by itself
    have htake : d.text.take (BUFSIZ * 2 - 1) = d.text := List.take_of_length_le (by omega)
    have hdrop : d.text.drop (BUFSIZ * 2 - 1) = [] := List.drop_of_length_le (by omega)
    rw [fgets_full hline hroom, htake, hdrop]
    exact .method hmethod (yields_marker hn (List.forall_mem_nil _) h)
  · have hroom : d.text.length < BUFSIZ * 2 - 1 := by omega
    obtain ⟨rfl, rfl⟩ | ⟨rest, rfl, hrest⟩ := h
    · rw [List.append_nil, fgets_last hline hroom]
      exact .method hmethod .nil
    · rw [fgets_newline hline hroom]
      exact .method (parseLine_text d (.inr rfl)) hrest

theorem yields_line (l : SchemaLine) (h : Ends (BUFSIZ * 2) tail calls) :
    Yields (lines (BUFSIZ * 2) (l.text ++ tail)) (l.calls ++ calls) := by
  cases l with
  | decl d => exact yields_decl d h
  | marker m => exact yields_marker (by decide) m.plain h

theorem yields_file (file : List SchemaLine) (last : Option SchemaLine) :
    Yields (lines (BUFSIZ * 2) (fileText file last))
      (file.flatMap SchemaLine.calls ++ last.elim [] SchemaLine.calls) := by
  induction file with
  | nil =>
    cases last with
    | none => exact .nil
    | some l =>
      have := yields_line l (.inl ⟨rfl, rfl⟩ : Ends (BUFSIZ * 2) [] [])
      rwa [List.append_nil, List.append_nil] at this
  | cons l file ih =>
    have hline := yields_line l (.inr ⟨_, rfl, ih⟩ : Ends (BUFSIZ * 2) (10 :: fileText file last) _)
    have htext : fileText (l :: file) last = l.text ++ 10 :: fileText file last := by
      simp only [fileText, List.flatMap_cons, List.append_assoc]
      rfl
    rw [htext, List.flatMap_cons, List.append_assoc]
    exact hline

/-- The callback is called with the descriptors of the declarations in turn, until it stops. -/
theorem tlParse_recovers (file : List SchemaLine) (last : Option SchemaLine) (stops : Callback) :
    tlParse (some (fileText file last)) (some stops) = some (0,
        handed stops [] (file.flatMap SchemaLine.calls ++ last.elim [] SchemaLine.calls)) ∧
      tlParse (some (fileText file last)) (some fun _ => false)
        = some (0, file.flatMap SchemaLine.calls ++ last.elim [] SchemaLine.calls) := by
  have hrun (stops : Callback) := parseSchema_of_yields (yields_file file last) stops 1 []
  refine ⟨hrun stops, ?_⟩
  have htakes : TakesAll (fun _ : List Call => false) []
      (file.flatMap SchemaLine.calls ++ last.elim [] SchemaLine.calls) :=
    takesAll_of_forall (fun _ => rfl) [] _
  have hall := handed_of_takesAll htakes
  rw [tlParse, hrun, hall]
  rfl

end Libtg.TlParser
