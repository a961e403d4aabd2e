import Mathlib.Data.List.TakeWhile
import Mathlib.Tactic

/-!
# Lines read by `fgets`

A file read into a buffer of `n` bytes: a line that has room in it with its newline, a longer one in
parts. `lines` are the buffers of all calls.
-/

namespace Fgets

/-- `fgets(buf, n, fp)`: what it reads, up to and including a newline, and what is left. -/
def fgets (n : Nat) (fp : List UInt8) : List UInt8 × List UInt8 :=
  let room := fp.take (n - 1)
  let line := room.take ((room.takeWhile (· ≠ 10)).length + 1)
  (line, fp.drop line.length)

/-- What at most `k` calls of `fgets` read, until one returns `NULL`. -/
def fgetsN (n : Nat) : Nat → List UInt8 → List (List UInt8)
  | 0, _ => []
  | k + 1, fp => if fp = [] then [] else (fgets n fp).1 :: fgetsN n k (fgets n fp).2

/-- Each call reads at least one byte. -/
def lines (n : Nat) (fp : List UInt8) : List (List UInt8) := fgetsN n fp.length fp

variable {n k l : Nat} {fp t : List UInt8}

theorem length_fgets (hn : 2 ≤ n) (hfp : fp ≠ []) : (fgets n fp).2.length < fp.length := by
  have hpos := List.length_pos_iff.mpr hfp
  simp only [fgets, List.length_drop, List.length_take]
  omega

theorem fgetsN_eq (hn : 2 ≤ n) (hk : fp.length ≤ k) (hl : fp.length ≤ l) :
    fgetsN n k fp = fgetsN n l fp := by
  induction k generalizing l fp with
  | zero =>
    have hfp := List.length_eq_zero_iff.mp (Nat.le_zero.mp hk)
    cases l with
    | zero => rfl
    | succ l => rw [hfp, fgetsN, fgetsN, if_pos rfl]
  | succ k ih =>
    by_cases hfp : fp = []
    · cases l with
      | zero => rw [hfp, fgetsN, fgetsN, if_pos rfl]
      | succ l => rw [hfp, fgetsN, fgetsN, if_pos rfl, if_pos rfl]
    · have hlength := length_fgets hn hfp
      obtain ⟨l, rfl⟩ := Nat.exists_eq_succ_of_ne_zero (by omega : l ≠ 0)
      have hrest := ih (by omega) (by omega : (fgets n fp).2.length ≤ l)
      rw [fgetsN, fgetsN, if_neg hfp, if_neg hfp, hrest]

theorem lines_cons (hn : 2 ≤ n) (hfp : fp ≠ []) :
    lines n fp = (fgets n fp).1 :: lines n (fgets n fp).2 := by
  have hlength := length_fgets hn hfp
  rw [lines, fgetsN_eq hn le_rfl (Nat.le_succ fp.length), fgetsN, if_neg hfp,
    fgetsN_eq hn hlength.le le_rfl]
  rfl

theorem takeWhile_line (ht : ∀ c ∈ t, c ≠ 10) : t.takeWhile (· ≠ 10) = t :=
  List.takeWhile_eq_self_iff.mpr fun c hc => decide_eq_true (ht c hc)

/-- A line the buffer has no room for. -/
theorem fgets_full (ht : ∀ c ∈ t, c ≠ 10) (h : n - 1 ≤ t.length) (tail : List UInt8) :
    fgets n (t ++ tail) = (t.take (n - 1), t.drop (n - 1) ++ tail) := by
  have hroom : (t ++ tail).take (n - 1) = t.take (n - 1) := List.take_append_of_le_length h
  have hline := takeWhile_line fun c hc => ht c (List.take_subset (n - 1) t hc)
  have hlength : (t.take (n - 1)).length = n - 1 := List.length_take_of_le h
  have htake : (t.take (n - 1)).take ((t.take (n - 1)).length + 1) = t.take (n - 1) :=
    List.take_of_length_le (Nat.le_succ _)
  simp only [fgets, hroom, hline, htake]
  rw [hlength, List.drop_append_of_le_length h]

theorem fgets_newline (ht : ∀ c ∈ t, c ≠ 10) (h : t.length < n - 1) (rest : List UInt8) :
    fgets n (t ++ 10 :: rest) = (t ++ [10], rest) := by
  obtain ⟨k, hk⟩ := Nat.exists_eq_add_of_lt h
  have hroom : (t ++ 10 :: rest).take (n - 1) = t ++ 10 :: rest.take k := by
    rw [hk, Nat.add_assoc, List.take_length_add_append, List.take_succ_cons]
  have hline : (t ++ 10 :: rest.take k).takeWhile (· ≠ 10) = t := by
    rw [List.takeWhile_append_of_pos fun c hc => decide_eq_true (ht c hc),
      List.takeWhile_cons_of_neg (by decide), List.append_nil]
  have htake : (t ++ 10 :: rest.take k).take (t.length + 1) = t ++ [10] := by
    rw [List.take_length_add_append]
    rfl
  have hdrop : (t ++ 10 :: rest).drop (t ++ [10]).length = rest := by
    have hsplit : t ++ 10 :: rest = t ++ [10] ++ rest := List.append_cons t 10 rest
    rw [hsplit, List.drop_left]
  simp only [fgets, hroom, hline, htake, hdrop]

theorem fgets_last (ht : ∀ c ∈ t, c ≠ 10) (h : t.length < n - 1) : fgets n t = (t, []) := by
  have hroom : t.take (n - 1) = t := List.take_of_length_le h.le
  have htake : t.take (t.length + 1) = t := List.take_of_length_le (Nat.le_succ _)
  have hdrop : t.drop t.length = [] := List.drop_of_length_le le_rfl
  simp only [fgets, hroom, takeWhile_line ht, htake, hdrop]

end Fgets
