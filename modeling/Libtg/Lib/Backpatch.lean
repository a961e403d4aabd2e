import Libtg.Lib.LittleEndian

/-!
# Output with words patched in later

An encoder that does not know a word yet reserves four bytes for it and writes the bits in place
once they are known. `Seg` is such an output: raw bytes, and reserved words numbered from 1.
`render` fills the reserved words in, `orAt` is the in-place write (`*p |= w` on the little-endian
word at an offset), and `orAt_render` says that writing at the offset of word `n` changes word `n`
and nothing else.
-/

namespace Backpatch

open LittleEndian

/-- A piece of output: bytes, or the reserved word number `n`. -/
inductive Seg where
  | raw (bytes : List UInt8)
  | word (n : Nat)

/-- The bytes of one piece under the words `ws`. -/
def Seg.render (ws : Nat → UInt32) : Seg → List UInt8
  | .raw bytes => bytes
  | .word n => le32 (ws n)

def Seg.size : Seg → Nat
  | .raw bytes => bytes.length
  | .word _ => 4

/-- The numbers of the reserved words, in order. -/
def wordNumbers : List Seg → List Nat
  | [] => []
  | .raw _ :: segs => wordNumbers segs
  | .word n :: segs => n :: wordNumbers segs

def render (ws : Nat → UInt32) (segs : List Seg) : List UInt8 :=
  (segs.map (Seg.render ws)).flatten

def size (segs : List Seg) : Nat := (segs.map Seg.size).sum

@[simp] theorem render_nil (ws : Nat → UInt32) : render ws [] = [] := rfl

@[simp] theorem render_cons (ws : Nat → UInt32) (s : Seg) (segs : List Seg) :
    render ws (s :: segs) = s.render ws ++ render ws segs := rfl

@[simp] theorem render_append (ws : Nat → UInt32) (segs segs' : List Seg) :
    render ws (segs ++ segs') = render ws segs ++ render ws segs' := by
  simp [render]

@[simp] theorem size_nil : size [] = 0 := rfl

@[simp] theorem size_cons (s : Seg) (segs : List Seg) :
    size (s :: segs) = s.size + size segs := by
  simp [size]

@[simp] theorem size_append (segs segs' : List Seg) :
    size (segs ++ segs') = size segs + size segs' := by
  simp [size]

@[simp] theorem wordNumbers_append (segs segs' : List Seg) :
    wordNumbers (segs ++ segs') = wordNumbers segs ++ wordNumbers segs' := by
  induction segs with
  | nil => rfl
  | cons s segs ih => cases s <;> simp [wordNumbers, ih]

@[simp] theorem Seg.render_length (ws : Nat → UInt32) (s : Seg) :
    (s.render ws).length = s.size := by
  cases s <;> simp [Seg.render, Seg.size]

@[simp] theorem render_length (ws : Nat → UInt32) (segs : List Seg) :
    (render ws segs).length = size segs := by
  induction segs with
  | nil => rfl
  | cons s segs ih => simp [ih]

theorem render_congr {ws ws' : Nat → UInt32} {segs : List Seg}
    (h : ∀ n ∈ wordNumbers segs, ws n = ws' n) : render ws segs = render ws' segs := by
  induction segs with
  | nil => rfl
  | cons s segs ih =>
    cases s with
    | raw bytes => simp only [render_cons, Seg.render, ih h]
    | word n =>
      simp only [wordNumbers, List.mem_cons, forall_eq_or_imp] at h
      simp only [render_cons, Seg.render, h.1, ih h.2]

/-- The reserved words can be read back from the output. -/
theorem render_inj {ws ws' : Nat → UInt32} {segs : List Seg}
    (h : render ws segs = render ws' segs) : ∀ n ∈ wordNumbers segs, ws n = ws' n := by
  induction segs with
  | nil => simp [wordNumbers]
  | cons s segs ih =>
    rw [render_cons, render_cons] at h
    obtain ⟨hs, hsegs⟩ := List.append_inj h (by simp)
    cases s with
    | raw bytes => exact ih hsegs
    | word n =>
      simp only [wordNumbers, List.mem_cons, forall_eq_or_imp]
      exact ⟨le32_inj hs, ih hsegs⟩

/-- `*p |= w` where `p` points at offset `off` of the buffer. -/
def orAt (off : Nat) (w : UInt32) (data : List UInt8) : List UInt8 :=
  data.take off ++ le32 (get32 ((data.drop off).take 4) ||| w) ++ data.drop (off + 4)

theorem orAt_append (pre post : List UInt8) (v w : UInt32) :
    orAt pre.length w (pre ++ le32 v ++ post) = pre ++ le32 (v ||| w) ++ post := by
  have htake : (pre ++ le32 v ++ post).take pre.length = pre := by simp
  have hword : ((pre ++ le32 v ++ post).drop pre.length).take 4 = le32 v := by
    rw [List.append_assoc, List.drop_left, List.take_left' (le32_length v)]
  have hdrop : (pre ++ le32 v ++ post).drop (pre.length + 4) = post := by
    rw [List.drop_left' (by simp)]
  rw [orAt, htake, hword, hdrop, get32_le32]

/-- The words after `w` was or-ed into word `n`. -/
def orWord (ws : Nat → UInt32) (n : Nat) (w : UInt32) : Nat → UInt32 :=
  Function.update ws n (ws n ||| w)

theorem orAt_render {ws : Nat → UInt32} {pre post : List Seg} {n : Nat} (w : UInt32)
    (hpre : n ∉ wordNumbers pre) (hpost : n ∉ wordNumbers post) :
    orAt (size pre) w (render ws (pre ++ .word n :: post)) =
      render (orWord ws n w) (pre ++ .word n :: post) := by
  have hkeep : ∀ segs, n ∉ wordNumbers segs →
      render (orWord ws n w) segs = render ws segs := fun segs hn =>
    render_congr fun m hm => Function.update_of_ne (fun he => hn (by rwa [he] at hm)) _ _
  have hword : orWord ws n w n = ws n ||| w := by simp [orWord]
  simp only [render_append, render_cons, Seg.render, hkeep pre hpre, hkeep post hpost, hword]
  rw [← render_length ws pre, ← List.append_assoc, orAt_append, List.append_assoc]

/-! ## Bits of a word -/

/-- `(w & (1 << b)) == (1 << b)`. -/
def hasBit (w : UInt32) (b : Nat) : Bool :=
  w &&& (1 <<< UInt32.ofNat b) == 1 <<< UInt32.ofNat b

theorem toNat_one_shiftLeft {b : Nat} (hb : b < 32) :
    ((1 : UInt32) <<< UInt32.ofNat b).toNat = 2 ^ b := by
  have hpow : 2 ^ b < 2 ^ 32 := Nat.pow_lt_pow_right (by norm_num) hb
  rw [UInt32.toNat_shiftLeft]
  simpa [Nat.mod_eq_of_lt hb, Nat.shiftLeft_eq] using hpow

theorem hasBit_eq_testBit (w : UInt32) {b : Nat} (hb : b < 32) :
    hasBit w b = w.toNat.testBit b := by
  have hshift := toNat_one_shiftLeft hb
  rw [hasBit, Bool.eq_iff_iff, beq_iff_eq, ← UInt32.toNat_inj, UInt32.toNat_and, hshift]
  constructor
  · intro h
    have := congrArg (Nat.testBit · b) h
    simpa [Nat.testBit_two_pow_self] using this
  · intro h
    apply Nat.eq_of_testBit_eq
    intro i
    by_cases hi : b = i
    · subst hi
      simp [Nat.testBit_two_pow_self, h]
    · simp [Nat.testBit_two_pow_of_ne hi]

/-- The word with the bits of `bits` set. -/
def orBits (bits : List Nat) : UInt32 :=
  bits.foldr (fun b w => w ||| (1 <<< UInt32.ofNat b)) 0

theorem hasBit_or (v w : UInt32) {b : Nat} (hb : b < 32) :
    hasBit (v ||| w) b = (hasBit v b || hasBit w b) := by
  simp [hasBit_eq_testBit _ hb]

theorem hasBit_shift {b c : Nat} (hb : b < 32) (hc : c < 32) :
    hasBit (1 <<< UInt32.ofNat c) b = decide (b = c) := by
  rw [hasBit_eq_testBit _ hb, toNat_one_shiftLeft hc, Nat.testBit_two_pow]
  simp [eq_comm]

theorem hasBit_orBits {bits : List Nat} (hbits : ∀ c ∈ bits, c < 32) {b : Nat} (hb : b < 32) :
    hasBit (orBits bits) b = true ↔ b ∈ bits := by
  induction bits with
  | nil => simp [orBits, hasBit_eq_testBit _ hb]
  | cons c bits ih =>
    have hc := hbits c (by simp)
    have htail := ih fun d hd => hbits d (by simp [hd])
    change hasBit (orBits bits ||| 1 <<< UInt32.ofNat c) b = true ↔ b ∈ c :: bits
    rw [hasBit_or _ _ hb, Bool.or_eq_true, htail, hasBit_shift hb hc, List.mem_cons,
      decide_eq_true_eq, or_comm]

end Backpatch
