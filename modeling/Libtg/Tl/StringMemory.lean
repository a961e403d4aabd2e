import Libtg.Tl.Deserialize
import Libtg.Tl.StrMemory

/-!
# Byte strings in memory (`tl/serialize.c`, `tl/deserialize.c`)

The writers and readers of strings as they use memory. A writer makes a new buffer of the bytes that
its counterpart over byte strings answers. A reader does with what its buffer holds what the cursor
does with a byte string (`Reads`).
-/

namespace Libtg.Memory

open Cells Blocks BlocksM LittleEndian

section
variable {σ : Type} (mv : Moves)

/-- A new buffer is said to have `pad` bytes and appended. -/
def catPad (s : BufT) (pad : Nat) : MemM σ BufT := do
  let p ← bufInit
  bufCat mv s { p with size := pad }

/-- What `serialize_bytes` and `serialize_str` share: `head` is the variable `size` in memory, and
`body` the buffer that comes after the length. -/
def serializeBody (head : Bytes) (size : Nat) (body : MemM σ BufT) : MemM σ BufT :=
  if size ≤ 253 then do
    let s ← withLocal head fun p => bufAdd mv p 0 1
    let b ← body
    let s ← bufCat mv s b
    let pad := (4 - s.size % 4) % 4
    catPad mv s pad
  else do
    let s ← withLocal [0xfe] fun p => bufAdd mv p 0 1
    let len ← withLocal head fun p => bufAdd mv p 0 3
    let s ← bufCat mv s len
    let b ← body
    let s ← bufCat mv s b
    let pad := (4 - s.size % 4) % 4
    if pad ≠ 0 then catPad mv s pad else return s

/-- `serialize_bytes` of what is in the block `q` from `j` on. -/
def serializeBytes (q j size : Nat) : MemM σ BufT :=
  serializeBody mv (leBytes 8 size) size (bufAdd mv q j (size % 2 ^ 32))

/-- `serialize_string` of the text that begins with the block. -/
def serializeString (string : Nat) : MemM σ BufT := do
  let size ← strlen string
  serializeBytes mv string 0 size

/-- `serialize_str`. The branch of the source that reports an error is for no size. -/
def serializeStr (b : BufT) : MemM σ BufT := do
  let _ ← bufInit
  serializeBody mv (leBytes 4 b.size) b.size (pure b)

/-- `b->data += n` and `b->size -= n`. -/
def BufT.advance (b : BufT) (n : Nat) : BufT :=
  { b with off := b.off + n, size := (b.size + 2 ^ 32 - n) % 2 ^ 32 }

/-- `buf_get_ui32`. -/
def bufGetUi32 (b : BufT) : MemM σ UInt32 := do
  let bytes ← loads b.aptr b.off 4
  return get32 bytes

/-- `buf_get_ui64`. -/
def bufGetUi64 (b : BufT) : MemM σ UInt64 := do
  let bytes ← loads b.aptr b.off 8
  return get64 bytes

/-- `buf_get_double`: the 64 bits of the `double`. -/
def bufGetDouble (b : BufT) : MemM σ UInt64 := do
  let bytes ← loads b.aptr b.off 8
  return get64 bytes

/-- The loop of `buf_cmp` from `i` on. -/
def cmpBytes (a b : BufT) (i : Nat) : Nat → MemM σ Bool
  | 0 => return true
  | n + 1 => do
    let c ← load a.aptr (a.off + i)
    let d ← load b.aptr (b.off + i)
    if c ≠ d then return false else cmpBytes a b (i + 1) n

/-- `buf_cmp`. -/
def bufCmp (a b : BufT) : MemM σ Bool := cmpBytes a b 0 a.size

/-- `deserialize_ui32`, with the buffer after it. -/
def deserializeUi32 (b : BufT) : MemM σ (UInt32 × BufT) := do
  let c ← bufGetUi32 b
  return (c, b.advance 4)

/-- `deserialize_ui64`. -/
def deserializeUi64 (b : BufT) : MemM σ (UInt64 × BufT) := do
  let c ← bufGetUi64 b
  return (c, b.advance 8)

/-- `deserialize_double`. -/
def deserializeDouble (b : BufT) : MemM σ (UInt64 × BufT) := do
  let c ← bufGetDouble b
  return (c, b.advance 8)

/-- `deserialize_buf`. -/
def deserializeBuf (size : Nat) (b : BufT) : MemM σ (BufT × BufT) := do
  let ret ← bufAdd mv b.aptr b.off size
  return (ret, b.advance size)

/-- `deserialize_bytes` where the first byte is the length: `s`, `len`, `offset` and `b`. -/
def deserializeShort (b : BufT) (c : UInt8) : MemM σ (BufT × Nat × Nat × BufT) := do
  let len := c.toNat
  let b := b.advance 1
  let s ← bufAdd mv b.aptr b.off len
  return (s, len, 1, b)

/-- The other branch. The three bytes of the length are read as four: the next one in the new buffer
is zero. What `buf_cmp` answers decides on a message only. -/
def deserializeLong (b : BufT) : MemM σ (BufT × Nat × Nat × BufT) := do
  let s1 ← withLocal [0xfe] fun p => bufAdd mv p 0 1
  let s2 ← bufAdd mv b.aptr b.off 1
  let _ ← bufCmp s1 s2
  let len_ ← bufAdd mv b.aptr (b.off + 1) 3
  let len ← bufGetUi32 { len_ with size := 4 }
  let b := b.advance 4
  let s ← bufAdd mv b.aptr b.off len.toNat
  return (s, len.toNat, 0, b)

/-- `deserialize_bytes`. -/
def deserializeBytes (b : BufT) : MemM σ (BufT × BufT) := do
  let _ ← bufInit
  let byte ← bufAdd mv b.aptr b.off 4
  let c ← load byte.aptr byte.off
  let (s, len, offset, b) ← (if c ≤ 253 then deserializeShort mv b c else deserializeLong mv b)
  let b := b.advance len
  let pad := (4 - (len + offset) % 4) % 4
  return (s, if pad ≠ 0 then b.advance pad else b)

end

/-! ## Buffers that are read, and buffers that are new -/

/-- From `data` on there is `x`, and `size` is its length. -/
structure Holds (s : Mem) (b : BufT) (x : Bytes) : Prop where
  has : Has s b.aptr b.off x
  size : b.size = x.length
  lt : x.length < 2 ^ 32

section
variable {σ : Type} {s t : Mem} {D : Nat → Prop} {b src : BufT} {x y : Bytes} {n a q j : Nat}
  {mv : Moves} {w₀ w w' : Mem × σ}

theorem Holds.kept (h : Holds s b x) (hk : Kept D s t) (hD : ¬ D b.aptr) : Holds t b x :=
  { h with has := h.has.kept hk hD }

theorem Holds.lt_size (h : Holds s b x) : b.aptr < s.size := by
  obtain ⟨l, hl, -⟩ := h.has
  exact lt_size_of_read hl

theorem Holds.advance (h : Holds s b (x ++ y)) (hx : x.length = n) : Holds s (b.advance n) y := by
  have hlt := h.lt
  have hsize := h.size
  rw [List.length_append] at hlt hsize
  refine ⟨hx ▸ h.has.drop, ?_, by omega⟩
  show (b.size + 2 ^ 32 - n) % 2 ^ 32 = y.length
  omega

theorem Represents.holds (h : Represents s b x a) (hx : x.length < 2 ^ 32) : Holds s b x :=
  ⟨h.has, h.size, hx⟩

/-- Behind the bytes of a buffer there are zeros. -/
theorem Represents.has_zeros (h : Represents s b x a) (hn : x.length + n ≤ a + 1) :
    Has s b.aptr b.off (x ++ List.replicate n 0) := by
  refine has_of_read h.cells fun i hi => ?_
  rw [List.length_append, List.length_replicate] at hi
  rw [h.off, Nat.zero_add]
  by_cases hix : i < x.length
  · rw [getElem?_padded_of_lt hix, List.getElem?_append_left hix]
  · rw [getElem?_padded_of_le (Nat.not_lt.mp hix) (by omega),
      List.getElem?_append_right (Nat.not_lt.mp hix), List.getElem?_replicate, if_pos (by omega)]

theorem New.runs_bufCat (hb : New w₀ w x b) (hsrc : Holds w.1 src y) (hne : src.aptr ≠ b.aptr)
    (hn : x.length + y.length < bufLimit) :
    Runs (w₀.1.size ≤ ·) (bufCat mv b src) w fun b' w' => New w₀ w' (x ++ y) b' := by
  refine (Memory.runs_bufCat hb.represents hsrc.has hsrc.size hn fun h => absurd h hne).mono
    (fun _ _ hk => hk ▸ hb.fresh) ?_
  rintro b' w' ⟨hb', hfresh, hstate⟩
  refine ⟨?_, ?_, hstate.trans hb.state⟩
  · rw [max_assoc, max_eq_right (Nat.le_add_right _ y.length)] at hb'
    rwa [List.length_append]
  · exact hfresh.elim (fun h => h ▸ hb.fresh) (hb.fresh.trans hb.lt_size.le).trans

theorem New.runs_catPad (hb : New w₀ w x b) (hpad : n < 4) (hn : x.length + n < bufLimit) :
    Runs (w₀.1.size ≤ ·) (catPad mv b n) w fun b' w' =>
      New w₀ w' (x ++ List.replicate n 0) b' := by
  refine (runs_bufInit w).bind (fun _ _ => False.elim) ?_
  rintro p w₁ hk₁ hp
  have hzeros : Holds w₁.1 { p with size := n } (List.replicate n 0) := by
    refine ⟨hp.represents.has_zeros ?_, List.length_replicate.symm, ?_⟩
    · rw [List.length_nil, BUFSIZ]
      omega
    · rw [List.length_replicate]
      omega
  refine (hb.kept hk₁ id hp.state).runs_bufCat hzeros ?_ ?_
  · exact (hb.lt_size.trans_le hp.fresh).ne'
  · rwa [List.length_replicate]

end

/-! ## Writing -/

section
variable {σ : Type} {b : BufT} {x head rest : Bytes} {q j p : Nat} {body : MemM σ BufT}
  {mv : Moves} {w : Mem × σ}

/-- `body` gives a buffer with `x`, which is not one that has been made since `w`. -/
def Gives (w : Mem × σ) (x : Bytes) (body : MemM σ BufT) : Prop :=
  ∀ w₁ : Mem × σ, Kept Nothing w.1 w₁.1 → w₁.2 = w.2 →
    Runs Nothing body w₁ fun b w₂ =>
      Holds w₂.1 b x ∧ (b.aptr < w.1.size ∨ w₁.1.size ≤ b.aptr) ∧ w₂.2 = w₁.2

/-- The bytes of `body` are appended to a buffer. -/
theorem Gives.runs_bufCat {w₁ : Mem × σ} {s : BufT} {z : Bytes} (hbody : Gives w x body)
    (hs : New w w₁ z s) (hk : Kept (w.1.size ≤ ·) w.1 w₁.1) (hn : z.length + x.length < bufLimit) :
    Runs (w.1.size ≤ ·) (do let b ← body; bufCat mv s b) w₁ fun s' w' => New w w' (z ++ x) s' := by
  have hk₁ : Kept Nothing w.1 w₁.1 := hk.mono fun _ hlt hle => absurd hlt (Nat.not_lt.mpr hle)
  refine (hbody w₁ hk₁ hs.state).bind (fun _ _ => False.elim) ?_
  rintro b w₂ hk₂ ⟨hb, hapart, hstate⟩
  refine (hs.kept hk₂ id hstate).runs_bufCat hb ?_ hn
  rcases hapart with hold | hnew
  · exact (hold.trans_le hs.fresh).ne
  · exact (hs.lt_size.trans_le hnew).ne'

theorem runs_serializeBody (hhead : leBytes 3 x.length <+: head) (hbody : Gives w x body)
    (hx : x.length < 2 ^ 24) :
    Runs Nothing (serializeBody mv head x.length body) w fun b w' =>
      New w w' (Libtg.serializeBytes x) b := by
  have hlim : x.length + 8 < bufLimit := by
    unfold bufLimit
    omega
  refine Runs.ofNew ?_
  unfold serializeBody Libtg.serializeBytes
  by_cases hshort : x.length ≤ 253
  · rw [if_pos hshort]
    simp only [if_pos hshort]
    have hone : leBytes 1 x.length <+: head := (prefix_leBytes (by omega) _).trans hhead
    refine (runs_addPrefix hone (leBytes_length 1 _) (by decide) w).bind (fun _ _ => False.elim) ?_
    rintro s w₁ hk₁ hs
    rw [← bind_assoc]
    refine (hbody.runs_bufCat hs (hk₁.mono fun _ _ => False.elim) ?_).bind (fun _ _ => id) ?_
    · rw [leBytes_length]
      omega
    rintro s w₂ - hs
    rw [hs.represents.size]
    refine hs.runs_catPad (by omega) ?_
    rw [List.length_append, leBytes_length]
    omega
  · rw [if_neg hshort]
    simp only [if_neg hshort]
    refine (runs_addLocal [0xfe] (by decide) w).bind (fun _ _ => False.elim) ?_
    rintro s w₁ hk₁ hs
    refine (runs_addPrefix hhead (leBytes_length 3 _) (by decide) w₁).bind
      (fun _ _ => False.elim) ?_
    rintro len w₂ hk₂ hlen
    have hheld := hlen.represents.holds (by rw [leBytes_length]; decide)
    refine ((hs.kept hk₂ id hlen.state).runs_bufCat hheld ?_ ?_).bind (fun _ _ => id) ?_
    · exact (hs.lt_size.trans_le hlen.fresh).ne'
    · rw [leBytes_length]
      decide
    rintro s w₃ hk₃ hs
    have hk : Kept (w.1.size ≤ ·) w.1 w₃.1 :=
      ((hk₁.trans hk₂).mono fun _ _ => False.elim).trans hk₃
    rw [← bind_assoc]
    refine (hbody.runs_bufCat hs hk ?_).bind (fun _ _ => id) ?_
    · rw [List.length_append, leBytes_length, List.length_singleton]
      omega
    rintro s w₄ - hs
    rw [hs.represents.size]
    split_ifs with hpad
    · refine hs.runs_catPad (by omega) ?_
      rw [List.length_append, List.length_append, leBytes_length, List.length_singleton]
      omega
    · exact runs_pure hs

/-- `serialize_bytes` writes what is in the block. -/
theorem runs_serializeBytes (h : Has w.1 q j x) (hx : x.length < 2 ^ 24) :
    Runs Nothing (serializeBytes mv q j x.length) w fun b w' =>
      New w w' (Libtg.serializeBytes x) b := by
  refine runs_serializeBody (prefix_leBytes (by omega) _) (fun w₁ hk hstate => ?_) hx
  rw [Nat.mod_eq_of_lt (by omega)]
  refine (runs_bufAdd (h.kept hk id) (by unfold bufLimit; omega)).mono (fun _ _ => id) ?_
  intro b w₂ hb
  exact ⟨hb.represents.holds (by omega), .inr hb.fresh, hb.state⟩

/-- `serialize_str` writes what its buffer holds. -/
theorem runs_serializeStr (h : Holds w.1 b x) (hx : x.length < 2 ^ 24) :
    Runs Nothing (serializeStr mv b) w fun b' w' => New w w' (Libtg.serializeStr x) b' := by
  unfold serializeStr
  refine (runs_bufInit w).bind (fun _ _ => False.elim) ?_
  rintro s₀ w₁ hk₁ hs₀
  rw [h.size, serializeStr_eq]
  have hold := h.kept hk₁ id
  refine (runs_serializeBody (prefix_leBytes (by omega) _) ?_ hx).mono (fun _ _ => id) ?_
  · intro w₂ hk₂ hstate₂
    exact runs_pure ⟨hold.kept hk₂ id, .inl hold.lt_size, rfl⟩
  · rintro b' w' ⟨hb', hfresh, hstate⟩
    exact ⟨hb', hk₁.size_le.trans hfresh, hstate.trans hs₀.state⟩

/-- `serialize_string` writes the text up to its NUL. -/
theorem runs_serializeString (h : w.1.read p = some ((x ++ [0]).map some ++ rest.map some))
    (hx : x.length < 2 ^ 24) :
    Runs Nothing (serializeString mv p) w fun b w' => New w w' (Libtg.serializeString x) b := by
  obtain ⟨z, hz⟩ := exists_takeWhile x
  rw [hz, List.map_append, List.map_cons, List.append_assoc, List.cons_append] at h
  have hnul : (0 : UInt8) ∉ x.takeWhile (· ≠ 0) := fun hmem => by
    simpa using List.mem_takeWhile_imp hmem
  refine (runs_strlen h hnul).bind (fun _ _ => False.elim) ?_
  rintro n w - ⟨rfl, rfl⟩
  refine runs_serializeBytes (has_of_read_append h) ?_
  exact (List.takeWhile_prefix _).length_le.trans_lt hx

end

/-! ## Reading -/

section
variable {σ α β : Type} {b : BufT} {c : UInt8} {x y pad t : Bytes} {n : Nat} {mv : Moves}
  {w : Mem × σ}

/-- Where the cursor answers, `f` reads the same from a buffer: `R` relates the answers, and the
buffer holds what is left. -/
def Reads (cur : Cursor α) (f : BufT → MemM σ (β × BufT))
    (R : Mem × σ → Mem × σ → α → β → Prop) : Prop :=
  ∀ w b x a t, Holds w.1 b x → cur x = some (a, t) →
    Runs Nothing (f b) w fun r w' =>
      R w w' a r.1 ∧ Holds w'.1 r.2 t ∧ r.2.aptr = b.aptr ∧ w'.2 = w.2

theorem Holds.runs_loads (h : Holds w.1 b (x ++ t)) (hx : x.length = n) :
    Runs Nothing (loads b.aptr b.off n) w fun x' w' => x' = x ∧ w' = w := by
  subst hx
  exact Cells.runs_loads h.has.take

theorem reads_deserializeUi32 :
    Reads (σ := σ) Libtg.deserializeUi32 deserializeUi32 fun _ _ a r => r = a := by
  intro w b x a t hb hcur
  obtain rfl := deserializeUi32_eq_some.mp hcur
  unfold deserializeUi32 bufGetUi32
  rw [bind_assoc]
  refine (hb.runs_loads (le32_length a)).bind (fun _ _ => id) ?_
  rintro bytes w - ⟨rfl, rfl⟩
  exact runs_pure ⟨get32_le32 a, hb.advance (le32_length a), rfl, rfl⟩

theorem reads_deserializeUi64 :
    Reads (σ := σ) Libtg.deserializeUi64 deserializeUi64 fun _ _ a r => r = a := by
  intro w b x a t hb hcur
  obtain rfl := deserializeUi64_eq_some.mp hcur
  unfold deserializeUi64 bufGetUi64
  rw [bind_assoc]
  refine (hb.runs_loads (le64_length a)).bind (fun _ _ => id) ?_
  rintro bytes w - ⟨rfl, rfl⟩
  exact runs_pure ⟨get64_le64 a, hb.advance (le64_length a), rfl, rfl⟩

theorem reads_deserializeDouble :
    Reads (σ := σ) Libtg.deserializeDouble deserializeDouble fun _ _ a r => r = a :=
  reads_deserializeUi64

theorem Holds.runs_bufAdd (h : Holds w.1 b (x ++ t)) (hx : x.length = n) (hn : n < bufLimit) :
    Runs Nothing (bufAdd mv b.aptr b.off n) w fun b' w' => New w w' x b' := by
  subst hx
  exact Memory.runs_bufAdd h.has.take hn

theorem reads_deserializeBuf (hn : n < bufLimit) :
    Reads (σ := σ) (Libtg.deserializeBuf n) (deserializeBuf mv n) New := by
  intro w b x a t hb hcur
  obtain ⟨ha, rfl⟩ := Cursor.takeBytes_eq_some.mp hcur
  refine (hb.runs_bufAdd ha hn).bind (fun _ _ => id) ?_
  rintro ret w' hk hret
  exact runs_pure ⟨hret, (hb.kept hk id).advance ha, rfl, hret.state⟩

/-- `buf_cmp` comes to its end whatever it answers. -/
theorem runs_cmpBytes {b' : BufT} {i : Nat} (hx : Has w.1 b.aptr (b.off + i) x)
    (hy : Has w.1 b'.aptr (b'.off + i) y) (hlen : x.length = y.length) :
    Runs Nothing (cmpBytes b b' i x.length) w fun _ w' => w' = w := by
  induction x generalizing i y with
  | nil => exact runs_pure rfl
  | cons c x ih =>
    obtain ⟨d, y, rfl⟩ : ∃ d y', y = d :: y' := List.exists_cons_of_length_pos (hlen ▸ by simp)
    refine hx.runs_load.bind (fun _ _ => id) ?_
    rintro c w - ⟨rfl, rfl⟩
    refine hy.runs_load.bind (fun _ _ => id) ?_
    rintro d w - ⟨rfl, rfl⟩
    split_ifs with hne
    · exact runs_pure rfl
    · exact ih (Has.drop (x := [c]) hx) (Has.drop (x := [d]) hy) (Nat.succ.inj hlen)

/-- Where a branch of `deserialize_bytes` ends: the string has been copied, and `b` is at its first
byte still. -/
structure BodyRead (w w' : Mem × σ) (b : BufT) (x t : Bytes) (offset : Nat)
    (r : BufT × Nat × Nat × BufT) : Prop where
  new : New w w' x r.1
  len : r.2.1 = x.length
  offset : r.2.2.1 = offset
  rest : Holds w'.1 r.2.2.2 (x ++ t)
  aptr : r.2.2.2.aptr = b.aptr

theorem runs_deserializeShort (h : Holds w.1 b (c :: (x ++ t))) (hc : c.toNat = x.length)
    (hx : x.length < bufLimit) :
    Runs Nothing (deserializeShort mv b c) w fun r w' => BodyRead w w' b x t 1 r := by
  have hrest : Holds w.1 (b.advance 1) (x ++ t) := Holds.advance (x := [c]) h rfl
  unfold deserializeShort
  rw [hc]
  refine (hrest.runs_bufAdd rfl hx).bind (fun _ _ => id) ?_
  rintro s w' hk hs
  exact runs_pure ⟨hs, rfl, rfl, hrest.kept hk id, rfl⟩

/-- Three bytes and a zero. -/
theorem toNat_get32 (hn : n < 2 ^ 24) : (get32 (leBytes 3 n ++ [0])).toNat = n := by
  simp only [leBytes, List.cons_append, List.nil_append, get32, leNat, UInt32.toNat_ofNat',
    UInt8.toNat_ofNat', UInt8.toNat_zero]
  omega

theorem runs_deserializeLong (h : Holds w.1 b (c :: (leBytes 3 x.length ++ (x ++ t))))
    (hx : x.length < 2 ^ 24) :
    Runs Nothing (deserializeLong mv b) w fun r w' => BodyRead w w' b x t 0 r := by
  have hlim : x.length < bufLimit := by
    unfold bufLimit
    omega
  have hlength : (leBytes 3 x.length).length = 3 := leBytes_length 3 _
  unfold deserializeLong
  refine (runs_addLocal [0xfe] (by decide) w).bind (fun _ _ => id) ?_
  rintro s1 w₁ hk₁ hs1
  have h₁ := h.kept hk₁ id
  refine (Holds.runs_bufAdd (n := 1) (x := [c]) h₁ rfl (by decide)).bind (fun _ _ => id) ?_
  rintro s2 w₂ hk₂ hs2
  have hcmp : Runs Nothing (bufCmp s1 s2) w₂ fun _ w' => w' = w₂ := by
    have hs1' := (hs1.kept hk₂ id hs2.state).represents
    rw [bufCmp, hs1'.size]
    exact runs_cmpBytes hs1'.has hs2.represents.has rfl
  refine hcmp.bind (fun _ _ => id) ?_
  rintro _ w₂ - rfl
  have h₂ : Holds w₂.1 (b.advance 1) (leBytes 3 x.length ++ (x ++ t)) :=
    Holds.advance (x := [c]) (h₁.kept hk₂ id) rfl
  have hadd : Runs Nothing (bufAdd mv b.aptr (b.off + 1) 3) w₂ fun b' w' =>
      New w₂ w' (leBytes 3 x.length) b' := h₂.runs_bufAdd hlength (by decide)
  refine hadd.bind (fun _ _ => id) ?_
  rintro len_ w₃ hk₃ hlen_
  have hzeros := hlen_.represents.has_zeros (n := 1) (by rw [hlength]; omega)
  have hget : Runs Nothing (bufGetUi32 { len_ with size := 4 }) w₃ fun v w' =>
      v.toNat = x.length ∧ w' = w₃ := by
    have hloads : Runs Nothing (loads len_.aptr len_.off 4) w₃ fun bytes w' =>
        bytes = leBytes 3 x.length ++ [0] ∧ w' = w₃ := by
      have := Cells.runs_loads (w := w₃) hzeros
      rwa [List.length_append, hlength] at this
    refine hloads.bind (fun _ _ => id) ?_
    rintro bytes w₃ - ⟨rfl, rfl⟩
    exact runs_pure ⟨toNat_get32 hx, rfl⟩
  refine hget.bind (fun _ _ => id) ?_
  rintro len w₃ - ⟨hlen, rfl⟩
  rw [hlen]
  have hrest : Holds w₃.1 (b.advance 4) (x ++ t) :=
    Holds.advance (x := c :: leBytes 3 x.length) ((h₁.kept hk₂ id).kept hk₃ id)
      (by rw [List.length_cons, hlength])
  refine (hrest.runs_bufAdd rfl hlim).bind (fun _ _ => id) ?_
  rintro s w' hk hs
  refine runs_pure ⟨⟨hs.represents, ?_, ?_⟩, rfl, rfl, hrest.kept hk id, rfl⟩
  · exact (hk₁.trans (hk₂.trans hk₃)).size_le.trans hs.fresh
  · exact hs.state.trans (hlen_.state.trans (hs2.state.trans hs1.state))

theorem BodyRead.skip_pad {w' : Mem × σ} {offset : Nat} {r : BufT × Nat × Nat × BufT}
    (h : BodyRead w w' b x (pad ++ t) offset r)
    (hpad : pad.length = (4 - (x.length + offset) % 4) % 4) :
    let b' := r.2.2.2.advance r.2.1
    let n := (4 - (r.2.1 + r.2.2.1) % 4) % 4
    Holds w'.1 (if n ≠ 0 then b'.advance n else b') t := by
  have hrest := h.rest.advance rfl
  dsimp only
  rw [h.len, h.offset, ← hpad]
  split_ifs with hn
  · exact hrest.advance rfl
  · rwa [List.eq_nil_of_length_eq_zero (not_not.mp hn), List.nil_append] at hrest

/-- The first byte of a string decides on the branch that reads it. -/
theorem runs_branch (h : WireString x (c :: y) ∨ LongString x (c :: y))
    (hb : Holds w.1 b (c :: y ++ t)) :
    Runs Nothing (if c ≤ 253 then deserializeShort mv b c else deserializeLong mv b) w fun r w' =>
      ∃ offset pad, BodyRead w w' b x (pad ++ t) offset r ∧
        pad.length = (4 - (x.length + offset) % 4) % 4 := by
  have hlong : ∀ pad : Bytes, ¬ c ≤ 253 → x.length < 2 ^ 24 →
      pad.length = (4 - x.length % 4) % 4 → y = leBytes 3 x.length ++ x ++ pad →
      Runs Nothing (if c ≤ 253 then deserializeShort mv b c else deserializeLong mv b) w
        fun r w' => ∃ offset pad, BodyRead w w' b x (pad ++ t) offset r ∧
          pad.length = (4 - (x.length + offset) % 4) % 4 := by
    rintro pad hc hx hpad rfl
    rw [if_neg hc]
    rw [List.cons_append, List.append_assoc, List.append_assoc] at hb
    exact (runs_deserializeLong hb hx).mono (fun _ _ => id) fun r w' hr => ⟨0, pad, hr, hpad⟩
  obtain ⟨pad, ⟨hx, hpad, heq⟩ | ⟨hx, hpad, heq⟩⟩ | ⟨hx, pad, hpad, heq⟩ := h
  · have hcons : c :: y = UInt8.ofNat x.length :: (x ++ pad) := heq
    obtain ⟨rfl, rfl⟩ := List.cons.inj hcons
    have hlen : (UInt8.ofNat x.length).toNat = x.length := by
      rw [UInt8.toNat_ofNat']
      omega
    have hle : UInt8.ofNat x.length ≤ 253 := by
      rw [UInt8.le_iff_toNat_le, hlen]
      exact hx
    rw [if_pos hle]
    rw [List.cons_append, List.append_assoc] at hb
    have hlim : x.length < bufLimit := by
      unfold bufLimit
      omega
    exact (runs_deserializeShort hb hlen hlim).mono (fun _ _ => id) fun r w' hr =>
      ⟨1, pad, hr, hpad⟩
  · obtain ⟨rfl, rfl⟩ := List.cons.inj heq
    exact hlong pad (by decide) hx hpad rfl
  · obtain ⟨rfl, rfl⟩ := List.cons.inj heq
    exact hlong pad (by decide) hx hpad rfl

theorem reads_deserializeBytes :
    Reads (σ := σ) Libtg.deserializeBytes (deserializeBytes mv) New := by
  intro w b z x t hb hcur
  obtain ⟨p, hp, rfl⟩ := deserializeBytes_eq_some hcur
  have hfour : 4 ≤ p.length := by
    rcases hp with hp | ⟨-, pad, -, rfl⟩
    · exact hp.four_le
    · simp
  obtain ⟨c, y, rfl⟩ : ∃ c y, p = c :: y := List.exists_cons_of_length_pos (by omega)
  have hfirst : (y.take 3).length = 3 := List.length_take_of_le (by simpa using hfour)
  refine (runs_bufInit w).bind (fun _ _ => id) ?_
  rintro s₀ w₁ hk₁ hs₀
  have hb₁ := hb.kept hk₁ id
  have hbyte : Runs Nothing (bufAdd mv b.aptr b.off 4) w₁ fun b' w' =>
      New w₁ w' (c :: y.take 3) b' := by
    refine Holds.runs_bufAdd (t := y.drop 3 ++ t) ?_ (by rw [List.length_cons, hfirst]) (by decide)
    rwa [List.cons_append, ← List.append_assoc, List.take_append_drop]
  refine hbyte.bind (fun _ _ => id) ?_
  rintro byte w₂ hk₂ hbyte
  refine hbyte.represents.has.runs_load.bind (fun _ _ => id) ?_
  rintro c w₂ - ⟨rfl, rfl⟩
  refine (runs_branch hp (hb₁.kept hk₂ id)).bind (fun _ _ => id) ?_
  rintro ⟨s, len, offset, b'⟩ w' - ⟨offset', pad, hr, hpad⟩
  have hstate : w'.2 = w.2 := hr.new.state.trans (hbyte.state.trans hs₀.state)
  refine runs_pure ⟨⟨hr.new.represents, ?_, hstate⟩, hr.skip_pad hpad, ?_, hstate⟩
  · exact (hk₁.trans hk₂).size_le.trans hr.new.fresh
  · dsimp only
    split_ifs
    · exact hr.aptr
    · exact hr.aptr

end

/-! ## The round trip -/

/-- What `serialize_bytes` wrote is read back from a message that goes on. -/
theorem runs_roundTrip {σ : Type} {mv : Moves} {w : Mem × σ} {x t : Bytes} {q j : Nat}
    {tail : BufT} (hx : Has w.1 q j x) (hlt : x.length < 2 ^ 24) (ht : Holds w.1 tail t)
    (hlim : (Libtg.serializeBytes x).length + t.length < bufLimit) :
    Runs Nothing (do
      let s ← serializeBytes mv q j x.length
      let b ← bufCat mv s tail
      deserializeBytes mv b) w fun r w' => New w w' x r.1 ∧ Holds w'.1 r.2 t := by
  refine Runs.ofNew ?_
  refine (runs_serializeBytes hx hlt).bind (fun _ _ => False.elim) ?_
  rintro s w₁ hk₁ hs
  refine (hs.runs_bufCat (ht.kept hk₁ id) ?_ hlim).bind (fun _ _ => id) ?_
  · exact (ht.lt_size.trans_le hs.fresh).ne
  rintro b w₂ - hb
  have hheld := hb.represents.holds (by
    rw [List.length_append]
    exact hlim.trans (by decide))
  have hcur := (consumes_deserializeBytes (wireString_serializeBytes hlt)).eq t
  refine (reads_deserializeBytes w₂ b _ _ _ hheld hcur).mono (fun _ _ => False.elim) ?_
  rintro r w' ⟨hr, hrest, -, -⟩
  refine ⟨⟨hr.represents, ?_, hr.state.trans hb.state⟩, hrest⟩
  exact (hb.fresh.trans hb.lt_size.le).trans hr.fresh

end Libtg.Memory
