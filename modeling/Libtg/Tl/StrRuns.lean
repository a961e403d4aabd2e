import Libtg.Tl.StrMemory

/-!
# Runs over a string (`tl/str.h`)

Any calls of `str_append` and `str_appendf` on a string that `str_init` has made. What is appended
is a text elsewhere, one that is formatted, or a part of the string itself.
-/

namespace Libtg.Memory.Str

open Cells Blocks BlocksM

inductive Call where
  /-- `str_append` of a text elsewhere, or of `NULL`. -/
  | append (str : Option Bytes) (len : Int)
  /-- `str_append` of what is in the string itself from `i` on. -/
  | appendOwn (i : Nat) (len : Int)
  /-- `str_appendf`, where `out` is all that the format makes. -/
  | appendf (out : Bytes)

section
variable {σ : Type} (mv : Moves)

def Call.exec (s : Str) : Call → MemM σ Str
  | .append none len => strAppend mv s none len
  | .append (some str) len => withLocal str fun p => strAppend mv s (some (p, 0)) len
  | .appendOwn i len => strAppend mv s (some (s.str, i)) len
  | .appendf out => strAppendf mv s out

def execAll : Str → List Call → MemM σ Str
  | s, [] => return s
  | s, call :: calls => do
    let s ← call.exec mv s
    execAll s calls

end

/-! ## What the calls mean -/

/-- The text that is appended to `x`; `none` if it is not as long as is said. -/
def Call.text (x : Bytes) : Call → Option Bytes
  | .append none _ => some []
  | .append (some str) len => if len ≤ str.length then some (str.take len.toNat) else none
  | .appendOwn i len => if i + len.toNat ≤ x.length then some ((x.drop i).take len.toNat) else none
  | .appendf out => some (piece out)

/-- The string after the call; `none` also if an `int` would overflow. -/
def Call.meaning (x : Bytes) (call : Call) : Option Bytes := do
  let y ← call.text x
  if x.length + y.length < strLimit then return x ++ y else none

def meanings : Bytes → List Call → Option Bytes
  | x, [] => some x
  | x, call :: calls => do
    let x ← call.meaning x
    meanings x calls

/-- A part of the string is appended to it and its block has to grow for it. -/
def Call.GrowsItself (x : Bytes) : Call → Prop
  | .appendOwn _ len => strSize x.length ≤ x.length + len.toNat
  | _ => False

/-- No call makes the block grow by appending a part of the string. -/
def Apart : Bytes → List Call → Prop
  | _, [] => True
  | x, call :: calls => ¬ call.GrowsItself x ∧ ∀ x', call.meaning x = some x' → Apart x' calls

/-- `s.str[i]`. -/
def charAt (s : Mem) (b : Str) (i : Nat) : Option UInt8 :=
  (s.read b.str).bind fun l => l[i]?.join

/-- The first `len` bytes are `x` and then there is a NUL, in a block of `size` bytes. -/
structure Intact (s : Mem) (b : Str) (x : Bytes) : Prop where
  lt : b.len < b.size
  len : b.len = x.length
  chars : ∀ i < b.len, charAt s b i = x[i]?
  nul : charAt s b b.len = some 0
  block : ∃ l, s.read b.str = some l ∧ l.length = b.size

/-- After `str_init` the calls come to their end, and then the string is what was appended. -/
def KeepsString (mv : Moves) (calls : List Call) (x : Bytes) : Prop :=
  ∀ w : Mem × Unit, ∃ b w', (strInit >>= fun s => execAll mv s calls) w = some (b, w') ∧
    Intact w'.1 b x

theorem intact_of_builds {s : Mem} {b : Str} {x : Bytes} {m : Nat} (h : Builds s b x m) :
    Intact s b x := by
  obtain ⟨rest, hread, hsize⟩ := h.cells
  have hchar : ∀ i, charAt s b i = (x.map some ++ some 0 :: rest)[i]?.join := by
    intro i
    rw [charAt, hread]
    rfl
  refine ⟨?_, h.len, fun i hi => ?_, ?_, _, hread, ?_⟩
  · rw [h.len, h.size]
    exact h.length_lt
  · rw [h.len] at hi
    rw [hchar, List.getElem?_append_left (by rwa [List.length_map]), List.getElem?_map,
      List.getElem?_eq_getElem hi]
    rfl
  · rw [hchar, h.len, List.getElem?_append_right (by rw [List.length_map]), List.length_map,
      Nat.sub_self]
    rfl
  · rw [h.size, hsize, List.length_append, List.length_map, List.length_cons]

/-! ## One call -/

section
variable {σ : Type} {mv : Moves} {w : Mem × σ} {b : Str} {x x' y : Bytes} {call : Call}
  {calls : List Call} {len : Int}

theorem runs_appendLocal (h : Builds w.1 b x (strSize x.length)) (hlen : len ≤ y.length)
    (hn : x.length + (y.take len.toNat).length < strLimit) :
    Runs (· = b.str) (withLocal y fun p => strAppend mv b (some (p, 0)) len) w fun b' w' =>
      Builds w'.1 b' (x ++ y.take len.toNat) (strSize (x ++ y.take len.toNat).length) ∧
        w'.2 = w.2 := by
  have hlt := h.lt_size
  refine (runs_withLocal (Q := fun b' w' =>
    Builds w'.1 b' (x ++ y.take len.toNat) (strSize (x ++ y.take len.toNat).length) ∧
      b'.str ≠ w.1.size ∧ w'.2 = w.2) y hlt.ne' ?_).mono (fun _ _ => id) ?_
  · intro w₁ hk₁ hp hstate
    have hlength : (y.take len.toNat).length = len.toNat := by
      rw [List.length_take]
      omega
    have htake : Has w₁.1 w.1.size 0 (y.take len.toNat) := by
      refine Has.take (y := y.drop len.toNat) ?_
      rw [List.take_append_drop]
      exact has_of_read_map hp
    refine (runs_strAppend (h.kept hk₁ id) htake hlength hn fun heq => absurd heq hlt.ne').mono
      (fun _ _ => id) ?_
    rintro b' w' ⟨hb', hfresh, hstate'⟩
    refine ⟨hb', ?_, hstate'.trans hstate⟩
    rcases hfresh with heq | hnew
    · exact heq ▸ hlt.ne
    · exact ((lt_size_of_read hp).trans_le hnew).ne'
  · rintro b' w' ⟨w₂, ⟨hb', hne, hstate⟩, hk, hstate'⟩
    exact ⟨hb'.kept hk hne, hstate'.trans hstate⟩

theorem length_own {i n : Nat} (h : i + n ≤ x.length) : ((x.drop i).take n).length = n := by
  rw [List.length_take, List.length_drop]
  omega

theorem runs_appendOwn {i : Nat} (h : Builds w.1 b x (strSize x.length))
    (hlen : i + len.toNat ≤ x.length) (hfits : x.length + len.toNat < strSize x.length)
    (hn : x.length + len.toNat < strLimit) :
    Runs (· = b.str) (strAppend mv b (some (b.str, i)) len) w fun b' w' =>
      Builds w'.1 b' (x ++ (x.drop i).take len.toNat)
        (strSize (x ++ (x.drop i).take len.toNat).length) ∧ w'.2 = w.2 := by
  have hlength := length_own hlen
  have hhas : Has w.1 b.str i ((x.drop i).take len.toNat) := by
    have hdrop : Has w.1 b.str (0 + (x.take i).length) (x.drop i) :=
      Has.drop (by rw [List.take_append_drop]; exact h.has)
    rw [List.length_take, Nat.zero_add, Nat.min_eq_left (by omega)] at hdrop
    exact Has.take (y := (x.drop i).drop len.toNat) (by rwa [List.take_append_drop])
  refine (runs_strAppend h hhas hlength (by omega) fun _ => ⟨by omega, by omega⟩).mono
    (fun _ _ => id) ?_
  exact fun _ _ ⟨hb', _, hstate⟩ => ⟨hb', hstate⟩

theorem runs_exec (h : Builds w.1 b x (strSize x.length)) (hcall : call.meaning x = some x')
    (hapart : ¬ call.GrowsItself x) (mv : Moves) :
    ∃ b' w', call.exec mv b w = some (b', w') ∧ Builds w'.1 b' x' (strSize x'.length) := by
  have hpost : ∀ {c : MemM σ Str} {z : Bytes}, Runs (· = b.str) c w
      (fun b' w' => Builds w'.1 b' z (strSize z.length) ∧ w'.2 = w.2) →
      ∃ b' w', c w = some (b', w') ∧ Builds w'.1 b' z (strSize z.length) := by
    rintro c z ⟨b', w', hrun, -, hb', -⟩
    exact ⟨b', w', hrun, hb'⟩
  simp only [Call.meaning, Option.bind_eq_bind, Option.bind_eq_some_iff] at hcall
  obtain ⟨y, hy, hcall⟩ := hcall
  split_ifs at hcall with hn
  cases hcall
  cases call with
  | append str len =>
    cases str with
    | none =>
      cases hy
      rw [List.append_nil]
      exact ⟨b, w, rfl, h⟩
    | some str =>
      rw [Call.text] at hy
      split_ifs at hy with hlen
      cases hy
      exact hpost (runs_appendLocal h hlen hn)
  | appendOwn i len =>
    rw [Call.text] at hy
    split_ifs at hy with hlen
    cases hy
    have hlength := length_own hlen
    exact hpost (runs_appendOwn h hlen (Nat.not_le.mp hapart) (by omega))
  | appendf out =>
    cases hy
    refine hpost ((runs_strAppendf h hn).mono (fun _ _ => id) ?_)
    exact fun _ _ ⟨hb', _, hstate⟩ => ⟨hb', hstate⟩

theorem exec_growsItself (h : Builds w.1 b x (strSize x.length))
    (hcall : call.meaning x = some x') (hgrows : call.GrowsItself x)
    (hall : ∀ s p m, mv s p m = true) : call.exec mv b w = none := by
  cases call with
  | appendOwn i len =>
    simp only [Call.meaning, Call.text, Option.bind_eq_bind, Option.bind_eq_some_iff] at hcall
    obtain ⟨y, hy, hcall⟩ := hcall
    split_ifs at hy hcall with hlen hn
    cases hy
    have hlength := length_own hlen
    exact strAppend_own h hgrows (by omega) hall
  | append => exact hgrows.elim
  | appendf => exact hgrows.elim

/-! ## All calls -/

theorem runs_execAll (h : Builds w.1 b x (strSize x.length)) (hcalls : meanings x calls = some x')
    (hapart : Apart x calls) (mv : Moves) :
    ∃ b' w', execAll mv b calls w = some (b', w') ∧ Builds w'.1 b' x' (strSize x'.length) := by
  induction calls generalizing w b x with
  | nil =>
    cases hcalls
    exact ⟨b, w, rfl, h⟩
  | cons call calls ih =>
    rw [meanings, Option.bind_eq_bind, Option.bind_eq_some_iff] at hcalls
    obtain ⟨x₁, hcall, hrest⟩ := hcalls
    obtain ⟨b₁, w₁, hrun, h₁⟩ := runs_exec h hcall hapart.1 mv
    obtain ⟨b', w', hrun', h'⟩ := ih h₁ hrest (hapart.2 x₁ hcall)
    exact ⟨b', w', (bind_of_eq_some hrun _).trans hrun', h'⟩

theorem execAll_none (h : Builds w.1 b x (strSize x.length)) (hcalls : meanings x calls = some x')
    (hapart : ¬ Apart x calls) (hall : ∀ s p m, mv s p m = true) :
    execAll mv b calls w = none := by
  induction calls generalizing w b x with
  | nil => exact absurd trivial hapart
  | cons call calls ih =>
    rw [meanings, Option.bind_eq_bind, Option.bind_eq_some_iff] at hcalls
    obtain ⟨x₁, hcall, hrest⟩ := hcalls
    by_cases hgrows : call.GrowsItself x
    · exact bind_of_eq_none (exec_growsItself h hcall hgrows hall) _
    · obtain ⟨b₁, w₁, hrun, h₁⟩ := runs_exec h hcall hgrows mv
      have hapart₁ : ¬ Apart x₁ calls := by
        intro hap
        refine hapart ⟨hgrows, fun x₂ hcall₂ => ?_⟩
        cases hcall.symm.trans hcall₂
        exact hap
      exact (bind_of_eq_some hrun _).trans (ih h₁ hrest hapart₁)

/-- The string that `str_init` makes. -/
theorem exists_strInit (w : Mem × σ) :
    ∃ b w', strInit w = some (b, w') ∧ Builds w'.1 b [] (strSize ([] : Bytes).length) := by
  obtain ⟨b, w', hrun, -, h, -⟩ := runs_strInit w
  exact ⟨b, w', hrun, h⟩

end

/-- Whatever `realloc` does, the string is intact after the calls if and only if its block is never
made to grow by appending a part of the string to it. -/
theorem keepsString_iff {calls : List Call} {x : Bytes} (h : meanings [] calls = some x) :
    (∀ mv, KeepsString mv calls x) ↔ Apart [] calls := by
  constructor
  · intro hkeeps
    by_contra hapart
    obtain ⟨b, w, hrun, -⟩ := hkeeps (fun _ _ _ => true) (⟨[]⟩, ())
    obtain ⟨b₀, w₀, hinit, h₀⟩ := exists_strInit (⟨[]⟩, ())
    rw [bind_of_eq_some hinit, execAll_none h₀ h hapart fun _ _ _ => rfl] at hrun
    cases hrun
  · intro hapart mv w
    obtain ⟨b₀, w₀, hinit, h₀⟩ := exists_strInit w
    obtain ⟨b, w', hrun, hb⟩ := runs_execAll h₀ h hapart mv
    exact ⟨b, w', (bind_of_eq_some hinit _).trans hrun, intact_of_builds hb⟩

/-- A text, a part of the string, a formatted text and `NULL`. -/
theorem keepsString_four :
    meanings [] [.append (some [65, 66, 67]) 2, .appendOwn 1 1, .appendf [68, 0, 69],
        .append none 4] = some [65, 66, 66, 68] ∧
      ∀ mv, KeepsString mv [.append (some [65, 66, 67]) 2, .appendOwn 1 1, .appendf [68, 0, 69],
        .append none 4] [65, 66, 66, 68] := by
  refine ⟨by decide, (keepsString_iff (by decide)).mpr ⟨id, fun x hx => ?_⟩⟩
  have hfirst : Call.meaning [] (.append (some [65, 66, 67]) 2) = some [65, 66] := by decide
  cases hfirst.symm.trans hx
  exact ⟨by unfold Call.GrowsItself; decide, fun _ _ => ⟨id, fun _ _ => ⟨id, fun _ _ => trivial⟩⟩⟩

/-- If `realloc` moves the block then `str_append` copies from the one that is no more. -/
theorem execAll_own {y : Bytes} (hgrow : strSize y.length ≤ y.length + y.length)
    (hn : y.length + y.length < strLimit) :
    meanings [] [.append (some y) y.length, .appendOwn 0 y.length] = some (y ++ y) ∧
      ∀ b (w : Mem × Unit), Builds w.1 b [] (strSize 0) →
        execAll (fun _ _ _ => true) b [.append (some y) y.length, .appendOwn 0 y.length] w =
          none := by
  have hfirst : Call.meaning [] (.append (some y) y.length) = some y := by
    have htext : Call.text [] (.append (some y) y.length) = some y := by
      rw [Call.text, if_pos le_rfl, Int.toNat_natCast, List.take_length]
    rw [Call.meaning, htext]
    exact if_pos (by rw [List.length_nil]; omega)
  have hsecond : Call.meaning y (.appendOwn 0 y.length) = some (y ++ y) := by
    have htext : Call.text y (.appendOwn 0 y.length) = some y := by
      rw [Call.text, Int.toNat_natCast, if_pos (Nat.zero_add _).le, List.drop_zero,
        List.take_length]
    rw [Call.meaning, htext]
    exact if_pos hn
  have hmeaning : meanings [] [.append (some y) y.length, .appendOwn 0 y.length] =
      some (y ++ y) := by
    rw [meanings, hfirst]
    show (Call.meaning y (.appendOwn 0 y.length)).bind _ = _
    rw [hsecond]
    rfl
  refine ⟨hmeaning, fun b w h => execAll_none h hmeaning ?_ fun _ _ _ => rfl⟩
  intro hapart
  refine (hapart.2 y hfirst).1 ?_
  rw [Call.GrowsItself, Int.toNat_natCast]
  exact hgrow

/-- A string of 8000 bytes is appended to itself. -/
theorem not_keepsString_own : ∃ x,
    meanings [] [.append (some (List.replicate 8000 65)) (List.replicate 8000 (65 : UInt8)).length,
      .appendOwn 0 (List.replicate 8000 (65 : UInt8)).length] = some x ∧
    ¬ KeepsString (fun _ _ _ => true)
      [.append (some (List.replicate 8000 65)) (List.replicate 8000 (65 : UInt8)).length,
        .appendOwn 0 (List.replicate 8000 (65 : UInt8)).length] x := by
  have hlen : (List.replicate 8000 (65 : UInt8)).length = 8000 := List.length_replicate
  obtain ⟨hmeaning, hnone⟩ := execAll_own (y := List.replicate 8000 65) (by rw [hlen]; decide)
    (by rw [hlen]; decide)
  refine ⟨_, hmeaning, fun hkeeps => ?_⟩
  obtain ⟨b, w, hrun, -⟩ := hkeeps (⟨[]⟩, ())
  obtain ⟨b₀, w₀, hinit, h₀⟩ := exists_strInit (⟨[]⟩, ())
  rw [bind_of_eq_some hinit, hnone b₀ w₀ h₀] at hrun
  cases hrun

end Libtg.Memory.Str
