import Libtg.Lib.Window
import Libtg.Tg.Envelope
import Libtg.Tg.Session

/-!
# What `tg_deheader` reads (`tg/header.c`)

The buffer is a size and a memory here, and nothing stops a read behind the size. `tgDeheader_eq`
says that the function over buffers is this one, with an error for every run that leaves its buffer.
The announced length is put in the place of the size before the data is copied, and
`staysInside_iff` tells for which buffers that is harmless.
-/

namespace Libtg

open LittleEndian Windowed

/-! ## Through the window -/

section
variable (mem : Nat → UInt8)

/-- `deserialize_ui32`. -/
def windowUi32 : Windowed UInt32 := do
  let b ← fetch mem 4
  return get32 b

/-- `deserialize_ui64`. -/
def windowUi64 : Windowed UInt64 := do
  let b ← fetch mem 8
  return get64 b

/-- `tg_deheader` of an encrypted message, behind the test for an empty buffer. -/
def windowDeheader (tg : Tg) : Windowed (Bytes × Tg) := do
  let salt ← windowUi64 mem
  let tg := { tg with salt := le64 salt }
  let _ssid ← windowUi64 mem
  let msgId ← windowUi64 mem
  let tg := (tgAddMsgid msgId tg).2
  let _seqNo ← windowUi32 mem
  let msgDataLen ← windowUi32 mem
  -- `b.size = msg_data_len`, and `buf_cat` copies `b.size` bytes
  setLeft msgDataLen
  let d ← fetchLeft mem
  return (d, tg)

/-- `tg_deheader` of the `size` bytes at address 0, with the end of what it reads. -/
def deheader (size : UInt32) (tg : Tg) : (Bytes × Tg) × Nat :=
  if size = 0 then (([], tg), 0)
  else
    let (out, w) := windowDeheader mem tg ⟨0, size, 0⟩
    (out, w.top)

/-- `n` bytes of the memory. -/
def bytesAt (pos n : Nat) : Bytes := (List.range n).map fun k => mem (pos + k)

/-- `message_data_length`. -/
def announced : Nat := (get32 (bytesAt mem 28 4)).toNat

/-- The header is in the buffer, and so is the data it announces. -/
def Complete (size : UInt32) : Prop := 32 ≤ size.toNat ∧ announced mem ≤ size.toNat - 32

instance (size : UInt32) : Decidable (Complete mem size) := inferInstanceAs (Decidable (_ ∧ _))

/-- Only bytes of the buffer are read. A packet that is not complete is rejected, and of another
one the announced bytes are returned. -/
def StaysInside (size : UInt32) (tg : Tg) : Prop :=
  (deheader mem size tg).2 ≤ size.toNat ∧
    if Complete mem size then (deheader mem size tg).1.1 = bytesAt mem 32 (announced mem)
    else (deheader mem size tg).1 = ([], tg)

end

/-! ## The same with the reads refused -/

/-- `tg_deheader` of an encrypted message, over the cursor. -/
def cursorDeheader (tg : Tg) : Cursor (Bytes × Tg) := do
  let salt ← deserializeUi64
  let tg := { tg with salt := le64 salt }
  let _ssid ← deserializeUi64
  let msgId ← deserializeUi64
  let tg := (tgAddMsgid msgId tg).2
  let _seqNo ← deserializeUi32
  let msgDataLen ← deserializeUi32
  let d ← deserializeBuf msgDataLen.toNat
  return (d, tg)

variable {mem : Nat → UInt8} {size : UInt32} {tg : Tg} {n : Nat}

@[simp] theorem bytesAt_length (pos n : Nat) : (bytesAt mem pos n).length = n := by
  simp [bytesAt]

theorem tgDeheader_eq_cursor {b : Bytes} (h : b.length ≠ 0) :
    tgDeheader tg b true = (cursorDeheader tg b).map (·.1) := by
  rw [tgDeheader, if_neg h, if_pos rfl]
  simp only [cursorDeheader, Cursor.bind_apply, Option.map_bind, Function.comp_def,
    Cursor.pure_apply, Option.map_some]
  rfl

theorem follows_windowUi32 : Follows mem deserializeUi32 (windowUi32 mem) :=
  (follows_fetch 4).bind fun _ => .pure _

theorem follows_windowUi64 : Follows mem deserializeUi64 (windowUi64 mem) :=
  (follows_fetch 8).bind fun _ => .pure _

theorem follows_deheader (tg : Tg) : Follows mem (cursorDeheader tg) (windowDeheader mem tg) :=
  follows_windowUi64.bind fun _ => follows_windowUi64.bind fun _ => follows_windowUi64.bind fun _ =>
    follows_windowUi32.bind fun _ => follows_windowUi32.bind fun k =>
      (follows_fetchLeft k).bind fun _ => .pure _

theorem at_start : At mem (bytesAt mem 0 n) ⟨0, size, 0⟩ where
  bytes := by rw [bytesAt_length]; rfl
  top_le := Nat.zero_le _

/-- The function over buffers refuses exactly the runs that leave the buffer. -/
theorem tgDeheader_eq (mem : Nat → UInt8) (size : UInt32) (tg : Tg) :
    tgDeheader tg (bytesAt mem 0 size.toNat) true =
      if (deheader mem size tg).2 ≤ size.toNat then some (deheader mem size tg).1 else none := by
  by_cases hsize : size = 0
  · rw [hsize]
    rfl
  have hlen : (bytesAt mem 0 size.toNat).length ≠ 0 := by
    rw [bytesAt_length]
    exact fun h => hsize (UInt32.toNat_inj.mp h)
  rw [tgDeheader_eq_cursor hlen, deheader, if_neg hsize]
  have hfollows : Follows mem _ _ := follows_deheader tg
  have hat : At mem (bytesAt mem 0 size.toNat) ⟨0, size, 0⟩ := at_start
  cases hrun : cursorDeheader tg (bytesAt mem 0 size.toNat) with
  | none =>
    have htop := hfollows.refuses _ _ hat hrun
    rw [bytesAt_length, Nat.zero_add] at htop
    exact (if_neg (not_le.mpr htop)).symm
  | some out =>
    obtain ⟨hval, ⟨-, htop⟩, hpos⟩ := hfollows.answers _ _ _ _ hat hrun
    rw [hpos, bytesAt_length, Nat.zero_add] at htop
    exact (congrArg some hval.symm).trans (if_pos htop).symm

/-! ## How far it reads -/

/-- Once the buffer is not empty, the size is not looked at again. -/
theorem deheader_of_ne_zero (h : size ≠ 0) (tg : Tg) :
    deheader mem size tg =
      ((bytesAt mem 32 (announced mem),
        { tg with
          salt := le64 (get64 (bytesAt mem 0 8))
          msgids := tg.msgids ++ [get64 (bytesAt mem 16 8)] }), 32 + announced mem) := by
  have htop : max 32 (32 + announced mem) = 32 + announced mem := max_eq_right (Nat.le_add_right ..)
  rw [deheader, if_neg h, ← htop]
  rfl

theorem not_complete_zero : ¬ Complete mem 0 := fun h => absurd h.1 (by decide)

/-- It stays inside of the buffers that are empty and of those that hold what they announce. -/
theorem staysInside_iff (mem : Nat → UInt8) (size : UInt32) (tg : Tg) :
    StaysInside mem size tg ↔ size = 0 ∨ Complete mem size := by
  by_cases hsize : size = 0
  · rw [StaysInside, hsize, if_neg not_complete_zero]
    exact ⟨fun _ => .inl rfl, fun _ => ⟨le_rfl, rfl⟩⟩
  rw [StaysInside, deheader_of_ne_zero hsize]
  constructor
  · rintro ⟨htop, -⟩
    exact .inr (show 32 ≤ size.toNat ∧ announced mem ≤ size.toNat - 32 by omega)
  · rintro (h | h)
    · exact absurd h hsize
    · refine ⟨?_, if_pos h ▸ rfl⟩
      have := h.1
      have := h.2
      omega

/-- A header that announces one byte more than there is. -/
def headerOnly : Nat → UInt8 := fun k => if k = 28 then 1 else 0

theorem staysInside_counterexample :
    ¬ ∀ (mem : Nat → UInt8) (size : UInt32) (tg : Tg), StaysInside mem size tg := by
  intro h
  have htop := (h headerOnly 32 ⟨[], [], [], 0, [], [], 0, 0⟩).1
  rw [deheader_of_ne_zero (by decide)] at htop
  exact absurd htop (by decide)

end Libtg
