import Mathlib.Data.List.TakeWhile
import Mathlib.Tactic

/-!
# Tokens between delimiters

`strtok` and `strtok_r`: a call skips the delimiters in front of it, takes what stands before the
next one and overwrites this one, so that the next call goes on behind it (`next`). `tokens` are the
answers of the calls up to the first that finds nothing.
-/

namespace Strtok

universe u

variable {α : Type u} (isDelim : α → Bool)

/-- One call, from the start of a text or from where the last call stopped: the token, and where the
next call goes on. -/
def next (s : List α) : Option (List α) × List α :=
  match s.dropWhile isDelim with
  | [] => (none, [])
  | c :: s =>
    (some (c :: s.takeWhile fun c => ! isDelim c), (s.dropWhile fun c => ! isDelim c).tail)

/-- The tokens of at most `n` calls. -/
def tokensN : Nat → List α → List (List α)
  | 0, _ => []
  | n + 1, s =>
    match next isDelim s with
    | (none, _) => []
    | (some t, s) => t :: tokensN n s

/-- A call that finds a token reads at least one byte, so that these are all of them. -/
def tokens (s : List α) : List (List α) := tokensN isDelim s.length s

variable {isDelim} {d : α} {s t w : List α} {n : Nat}

theorem next_delim (hd : isDelim d) (s : List α) : next isDelim (d :: s) = next isDelim s := by
  rw [next, List.dropWhile_cons_of_pos hd]
  rfl

theorem takeWhile_word (hw : ∀ c ∈ w, isDelim c = false) (hd : isDelim d) (s : List α) :
    (w ++ d :: s).takeWhile (fun c => ! isDelim c) = w := by
  rw [List.takeWhile_append_of_pos fun c hc => by rw [hw c hc]; rfl,
    List.takeWhile_cons_of_neg (by rw [hd]; exact Bool.false_ne_true), List.append_nil]

theorem dropWhile_word (hw : ∀ c ∈ w, isDelim c = false) (hd : isDelim d) (s : List α) :
    (w ++ d :: s).dropWhile (fun c => ! isDelim c) = d :: s := by
  rw [List.dropWhile_append_of_pos fun c hc => by rw [hw c hc]; rfl,
    List.dropWhile_cons_of_neg (by rw [hd]; exact Bool.false_ne_true)]

/-- A word is found up to the delimiter behind it. -/
theorem next_word (hne : w ≠ []) (hw : ∀ c ∈ w, isDelim c = false) (hd : isDelim d) (s : List α) :
    next isDelim (w ++ d :: s) = (some w, s) := by
  obtain ⟨c, w, rfl⟩ := List.exists_cons_of_ne_nil hne
  obtain ⟨hc, hw⟩ := List.forall_mem_cons.mp hw
  rw [List.cons_append, next, List.dropWhile_cons_of_neg (by rw [hc]; exact Bool.false_ne_true)]
  simp only [takeWhile_word hw hd, dropWhile_word hw hd, List.tail_cons]

/-- A word that the text ends with. -/
theorem next_last (hne : w ≠ []) (hw : ∀ c ∈ w, isDelim c = false) :
    next isDelim w = (some w, []) := by
  obtain ⟨c, w, rfl⟩ := List.exists_cons_of_ne_nil hne
  obtain ⟨hc, hw⟩ := List.forall_mem_cons.mp hw
  have htake : w.takeWhile (fun c => ! isDelim c) = w :=
    List.takeWhile_eq_self_iff.mpr fun c hc => by rw [hw c hc]; rfl
  have hdrop : w.dropWhile (fun c => ! isDelim c) = [] :=
    List.dropWhile_eq_nil_iff.mpr fun c hc => by rw [hw c hc]; rfl
  rw [next, List.dropWhile_cons_of_neg (by rw [hc]; exact Bool.false_ne_true)]
  simp only [htake, hdrop, List.tail_nil]

theorem next_nil : next isDelim ([] : List α) = (none, []) := rfl

theorem length_next (h : next isDelim s = (some w, t)) : t.length < s.length := by
  rw [next] at h
  have hsub := List.length_dropWhile_le isDelim s
  split at h
  · cases h
  · next c u hdrop =>
    cases h
    have htail := List.length_dropWhile_le (fun c => ! isDelim c) u
    rw [hdrop, List.length_cons] at hsub
    rw [List.length_tail]
    omega

/-! ## All tokens -/

/-- Further calls find nothing. -/
theorem tokensN_eq (h : s.length ≤ n) : tokensN isDelim n s = tokens isDelim s := by
  induction n using Nat.strong_induction_on generalizing s with
  | h n ih =>
    cases hs : next isDelim s with
    | mk w t =>
      cases w with
      | none => cases n <;> cases hl : s.length <;> simp [tokens, tokensN, hs, hl]
      | some w =>
        have hlength := length_next hs
        obtain ⟨n, rfl⟩ := Nat.exists_eq_add_of_lt (Nat.zero_lt_of_lt (hlength.trans_le h))
        obtain ⟨k, hk⟩ := Nat.exists_eq_add_of_lt (Nat.zero_lt_of_lt hlength)
        rw [Nat.zero_add] at hk h ih ⊢
        have hn : tokensN isDelim n t = tokens isDelim t := ih n n.lt_succ_self (by omega)
        have hk' : tokensN isDelim k t = tokens isDelim t := ih k (by omega) (by omega)
        simp only [tokens, hk, tokensN, hs, hn, hk']

/-- The first token and those that the next call finds. -/
theorem tokens_of_next (h : next isDelim s = (some w, t)) :
    tokens isDelim s = w :: tokens isDelim t := by
  have hlength := length_next h
  rw [← tokensN_eq (Nat.le_succ s.length), tokensN, h]
  exact congrArg (w :: ·) (tokensN_eq hlength.le)

theorem tokens_of_none (h : next isDelim s = (none, t)) : tokens isDelim s = [] := by
  rw [← tokensN_eq (Nat.le_succ s.length), tokensN, h]

@[simp] theorem tokens_nil : tokens isDelim ([] : List α) = [] := rfl

theorem tokens_delim (hd : isDelim d) (s : List α) :
    tokens isDelim (d :: s) = tokens isDelim s := by
  cases h : next isDelim s with
  | mk w t =>
    cases w with
    | none => rw [tokens_of_none h, tokens_of_none ((next_delim hd s).trans h)]
    | some w => rw [tokens_of_next h, tokens_of_next ((next_delim hd s).trans h)]

theorem tokens_word (hne : w ≠ []) (hw : ∀ c ∈ w, isDelim c = false) (hd : isDelim d)
    (s : List α) : tokens isDelim (w ++ d :: s) = w :: tokens isDelim s :=
  tokens_of_next (next_word hne hw hd s)

theorem tokens_last (hne : w ≠ []) (hw : ∀ c ∈ w, isDelim c = false) :
    tokens isDelim w = [w] :=
  tokens_of_next (next_last hne hw)

/-- Words with a delimiter between them are found again. -/
theorem tokens_flatMap {ws : List (List α)} (hwne : w ≠ []) (hwd : ∀ c ∈ w, isDelim c = false)
    (hne : ∀ w ∈ ws, w ≠ []) (hw : ∀ w ∈ ws, ∀ c ∈ w, isDelim c = false) (hd : isDelim d) :
    tokens isDelim (w ++ ws.flatMap (d :: ·)) = w :: ws := by
  induction ws generalizing w with
  | nil => simpa using tokens_last hwne hwd
  | cons v ws ih =>
    obtain ⟨hvne, hne⟩ := List.forall_mem_cons.mp hne
    obtain ⟨hvd, hw⟩ := List.forall_mem_cons.mp hw
    rw [List.flatMap_cons, List.cons_append, tokens_word hwne hwd hd, ih hvne hvd hne hw]

/-! ## Taking tokens apart again -/

theorem word_or_delim (isDelim : α → Bool) (s : List α) :
    (∀ c ∈ s, isDelim c = false) ∨
      ∃ w d t, (∀ c ∈ w, isDelim c = false) ∧ isDelim d = true ∧ s = w ++ d :: t := by
  induction s with
  | nil => exact .inl (List.forall_mem_nil _)
  | cons c s ih =>
    cases hc : isDelim c with
    | true => exact .inr ⟨[], c, s, List.forall_mem_nil _, hc, rfl⟩
    | false =>
      obtain hs | ⟨w, d, t, hw, hd, rfl⟩ := ih
      · exact .inl (List.forall_mem_cons.mpr ⟨hc, hs⟩)
      · exact .inr ⟨c :: w, d, t, List.forall_mem_cons.mpr ⟨hc, hw⟩, hd, rfl⟩

/-- The tokens are what stands between the delimiters, without the empty parts. -/
theorem tokens_eq_splitOnP (s : List α) :
    tokens isDelim s = (s.splitOnP isDelim).filter (! ·.isEmpty) := by
  induction hn : s.length using Nat.strong_induction_on generalizing s with
  | h n ih =>
    subst hn
    obtain hs | ⟨w, d, t, hw, hd, rfl⟩ := word_or_delim isDelim s
    · rw [List.splitOnP_eq_singleton hs]
      cases s with
      | nil => rfl
      | cons c s => exact tokens_last (List.cons_ne_nil c s) hs
    · have ht : t.length < (w ++ d :: t).length := by
        rw [List.length_append, List.length_cons]
        omega
      have hsplit := List.splitOnP_append_cons_of_forall_mem hw d hd t
      rw [hsplit, List.filter_cons, ← ih t.length ht t rfl]
      cases w with
      | nil => exact tokens_delim hd t
      | cons c w => exact tokens_word (List.cons_ne_nil c w) hw hd t

theorem tokens_append (hd : isDelim d) (s t : List α) :
    tokens isDelim (s ++ d :: t) = tokens isDelim s ++ tokens isDelim t := by
  rw [tokens_eq_splitOnP, List.splitOnP_append_cons s t hd, List.filter_append,
    ← tokens_eq_splitOnP, ← tokens_eq_splitOnP]

/-- Delimiters that do not occur make no difference. -/
theorem tokens_congr {p q : α → Bool} (h : ∀ c ∈ s, p c = q c) : tokens p s = tokens q s := by
  have hsplit : s.splitOnP p = s.splitOnP q := by
    induction s with
    | nil => rfl
    | cons c s ih =>
      obtain ⟨hc, h⟩ := List.forall_mem_cons.mp h
      rw [List.splitOnP_cons_eq_if_modifyHead, List.splitOnP_cons_eq_if_modifyHead, hc, ih h]
  rw [tokens_eq_splitOnP, tokens_eq_splitOnP, hsplit]

theorem infix_of_mem_tokens (h : w ∈ tokens isDelim s) : w <:+: s := by
  induction hn : s.length using Nat.strong_induction_on generalizing s with
  | h n ih =>
    subst hn
    obtain hs | ⟨v, d, t, hv, hd, rfl⟩ := word_or_delim isDelim s
    · cases s with
      | nil => cases h
      | cons c s =>
        rw [tokens_last (List.cons_ne_nil c s) hs] at h
        exact List.mem_singleton.mp h ▸ List.infix_rfl
    · have ht : t.length < (v ++ d :: t).length := by
        rw [List.length_append, List.length_cons]
        omega
      rw [tokens_append hd] at h
      obtain h | h := List.mem_append.mp h
      · cases v with
        | nil => cases h
        | cons c v =>
          rw [tokens_last (List.cons_ne_nil c v) hv] at h
          exact List.mem_singleton.mp h ▸ (List.prefix_append _ _).isInfix
      · exact (ih t.length ht h rfl).trans
          ((List.suffix_cons d t).trans (List.suffix_append v _)).isInfix

/-- What the first token begins with. -/
theorem tokens_eq_cons (hne : w ≠ []) (hw : ∀ c ∈ w, isDelim c = false) (s : List α) :
    ∃ u ws, tokens isDelim (w ++ s) = (w ++ u) :: ws := by
  have hwne (u : List α) : w ++ u ≠ [] := List.append_ne_nil_of_left_ne_nil hne u
  obtain hs | ⟨u, d, t, hu, hd, rfl⟩ := word_or_delim isDelim s
  · exact ⟨s, [], tokens_last (hwne s) (List.forall_mem_append.mpr ⟨hw, hs⟩)⟩
  · rw [← List.append_assoc]
    exact ⟨u, tokens isDelim t,
      tokens_word (hwne u) (List.forall_mem_append.mpr ⟨hw, hu⟩) hd t⟩

theorem flatMap_tokens_word {p q : α → Bool} (hs : ∀ c ∈ s, p c = false) :
    (tokens p s).flatMap (tokens q) = tokens (fun c => p c || q c) s := by
  have hq : tokens (fun c => p c || q c) s = tokens q s :=
    tokens_congr fun c hc => by rw [hs c hc, Bool.false_or]
  rw [hq]
  cases s with
  | nil => rfl
  | cons c s => rw [tokens_last (List.cons_ne_nil c s) hs, List.flatMap_singleton]

/-- Tokens taken apart at further delimiters are those that all of the delimiters leave. -/
theorem flatMap_tokens (p q : α → Bool) (s : List α) :
    (tokens p s).flatMap (tokens q) = tokens (fun c => p c || q c) s := by
  induction hn : s.length using Nat.strong_induction_on generalizing s with
  | h n ih =>
    subst hn
    obtain hs | ⟨w, d, t, hw, hd, rfl⟩ := word_or_delim p s
    · exact flatMap_tokens_word hs
    · have ht : t.length < (w ++ d :: t).length := by
        rw [List.length_append, List.length_cons]
        omega
      have hor : (p d || q d) = true := by rw [hd, Bool.true_or]
      have happend := @tokens_append α (fun c => p c || q c) d hor w t
      rw [tokens_append hd, List.flatMap_append, flatMap_tokens_word hw, ih t.length ht t rfl,
        happend]

end Strtok
