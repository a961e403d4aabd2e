import Libtg.Lib.Blocks
import Libtg.Tg.Container

/-!
# Who releases the query (`tg/header.c`, `tg/prepare_query.c`)

The functions of `PrepareQuery` and `Session` once more, with buffers as numbers of blocks. They
answer with the same bytes (`runs_tgPrepareQuery`); which blocks they release shows here only. What
the cryptographic functions allocate for themselves and release is left out, and the key, the salt
and the session id stay bytes of the session.
-/

namespace Libtg.Heap

open LittleEndian BlocksM

/-- Programs over the buffers and the session. -/
abbrev HeapM (α : Type) := BlocksM Bytes Tg α

/-! ## Buffers -/

/-- `buf_add`. -/
def bufAdd (data : Bytes) : HeapM Nat := alloc data

/-- `buf_new`. -/
def bufNew : HeapM Nat := bufAdd []

/-- `buf_free`. -/
def bufFree (b : Nat) : HeapM Unit := free b

/-- `buf_cat`: `mv n` says whether the block moves when it gets `n` bytes. -/
def bufCat (mv : Nat → Bool) (dest src : Nat) : HeapM Nat := do
  let a ← read dest
  let b ← read src
  if mv (a.length + b.length) then
    bufFree dest
    bufAdd (a ++ b)
  else
    write dest (a ++ b)
    return dest

/-- `buf_cat_ui32`, `buf_cat_ui64`, `buf_cat_rand`: what is appended goes through a buffer. -/
def bufCatData (mv : Nat → Bool) (dest : Nat) (data : Bytes) : HeapM Nat := do
  let src ← bufAdd data
  let buf ← bufCat mv dest src
  bufFree src
  return buf

/-! ## Messages -/

section
variable (mv : Nat → Bool) (E : Env) (C : Crypto)

/-- `tg_ack`. -/
def tgAck : HeapM Nat := do
  let ack ← bufNew
  let ids ← lift Libtg.tgAck
  if ids.length = 0 then return ack else bufAdd ids

/-- `tg_mtp_message`. -/
def tgMtpMessage (payload : Nat) (content : Bool) : HeapM (Nat × UInt64) := do
  let msg ← bufNew
  let msgId ← lift (tgGetCurrentTime E)
  let msg ← bufCatData mv msg (le64 msgId)
  let seqno ← lift (nextSeqno content)
  let msg ← bufCatData mv msg (le32 seqno)
  let p ← read payload
  let msg ← bufCatData mv msg (le32 (UInt32.ofNat p.length))
  let msg ← bufCat mv msg payload
  return (msg, msgId)

/-- The round of `tg_to_drop` for an id. -/
def tgDrop (buf : Nat) (id : UInt64) : HeapM Nat := do
  let drop ← bufAdd (tlRpcDropAnswer id)
  let (msg, _) ← tgMtpMessage mv E drop true
  bufFree drop
  let buf ← bufCat mv buf msg
  bufFree msg
  return buf

/-- `tg_to_drop`. -/
def tgToDrop (buf : Nat) : HeapM (Nat × Nat) := do
  let tg ← lift (get : TgM Tg)
  if tg.todrop.length < 1 then return (0, buf)
  else
    let buf ← tg.todrop.foldlM (tgDrop mv E) buf
    lift (modify fun tg => { tg with todrop := [] })
    return (tg.todrop.length, buf)

/-- The container of `tg_header`, which takes the place of `b`. -/
def tgContainer (b ack : Nat) : HeapM (Nat × UInt64) := do
  let (msg₀, msgId) ← tgMtpMessage mv E b true
  let (msg₁, _) ← tgMtpMessage mv E ack false
  bufFree b
  let b ← bufAdd (le32 idMsgContainer)
  let todrop ← bufNew
  let (len, todrop) ← tgToDrop mv E todrop
  let b ← bufCatData mv b (le32 (UInt32.ofNat (2 + len)))
  let b ← bufCat mv b msg₀
  let b ← bufCat mv b msg₁
  let b ← bufCat mv b todrop
  bufFree msg₀
  bufFree msg₁
  bufFree todrop
  return (b, msgId)

/-- What `tg_header` sends: `b` itself, or the container. -/
def tgHeaderData (b ack : Nat) (content : Bool) : HeapM (Nat × Bool × UInt64) := do
  let ids ← read ack
  if ids.length > 0 then
    let (b, msgid) ← tgContainer mv E b ack
    return (b, false, msgid)
  else return (b, content, 0)

/-- `tg_header` where `enc` is true. -/
def tgHeader (b : Nat) (content : Bool) : HeapM (Nat × UInt64) := do
  let s ← bufNew
  let ack ← tgAck
  let (b, content, msgid) ← tgHeaderData mv E b ack content
  bufFree ack
  let tg ← lift (get : TgM Tg)
  let s ← bufCatData mv s tg.salt
  let s ← bufCatData mv s tg.ssid
  let _msgid ← lift (tgGetCurrentTime E)
  let s ← bufCatData mv s (le64 _msgid)
  let seqno ← lift (nextSeqno content)
  let s ← bufCatData mv s (le32 seqno)
  let data ← read b
  let s ← bufCatData mv s (le32 (UInt32.ofNat data.length))
  let s ← bufCat mv s b
  let s ← bufCatData mv s (bufRand E (16 + (16 - data.length % 16) % 16))
  return (s, if msgid = 0 then _msgid else msgid)

/-- `tg_encrypt`. -/
def tgEncrypt (b : Nat) : HeapM Nat := do
  let data ← read b
  let tg ← lift (get : TgM Tg)
  bufAdd (Libtg.tgEncrypt C tg data true)

/-- `tg_transport`. -/
def tgTransport (buf : Nat) : HeapM Nat := do
  let b ← bufNew
  let data ← read buf
  let b ← bufCatData mv b (le32 (UInt32.ofNat data.length))
  bufCat mv b buf

/-- `tg_prepare_query` where `enc` is true. -/
def tgPrepareQuery (query : Nat) : HeapM (Nat × UInt64) := do
  let (h, msgid) ← tgHeader mv E query true
  let e ← tgEncrypt C h
  bufFree h
  let t ← tgTransport mv e
  bufFree e
  return (t, msgid)

end

/-! ## What the functions answer, and which blocks they change -/

section
variable {mv : Nat → Bool} {E : Env} {C : Crypto} {w : Blocks Bytes × Tg} {a b x : Bytes}
  {dest src h : Nat}

theorem runs_bufAdd (data : Bytes) : Runs Nothing (bufAdd data) w fun r w' =>
    w'.1.read r = some data ∧ w'.2 = w.2 ∧ w.1.size ≤ r :=
  (runs_alloc data w).mono (fun _ _ => id) fun _ _ ⟨hr, hread, htg⟩ => ⟨hr ▸ hread, htg, hr.ge⟩

theorem runs_bufFree (hr : w.1.read h = some a) : Runs (· = h) (bufFree h) w fun _ w' =>
    w'.1.read h = none ∧ w'.2 = w.2 := runs_free hr

/-- The result is the old block or a new one. -/
theorem runs_bufCat (hd : w.1.read dest = some a) (hs : w.1.read src = some b) :
    Runs (· = dest) (bufCat mv dest src) w fun r w' =>
      w'.1.read r = some (a ++ b) ∧ w'.2 = w.2 ∧ (r = dest ∨ w.1.size ≤ r) := by
  refine (runs_read hd).bind (fun _ _ => False.elim) ?_
  rintro _ _ - ⟨rfl, rfl⟩
  refine (runs_read hs).bind (fun _ _ => False.elim) ?_
  rintro _ _ - ⟨rfl, rfl⟩
  split_ifs
  · refine (runs_bufFree hd).bind (fun _ _ => id) fun _ w₁ hk₁ h₁ => ?_
    refine (runs_bufAdd _).mono (fun _ _ => False.elim) fun r w₂ h₂ => ?_
    exact ⟨h₂.1, h₂.2.1.trans h₁.2, .inr (hk₁.size_le.trans h₂.2.2)⟩
  · refine (runs_write hd _).bind (fun _ _ => id) fun _ w₁ _ h₁ => ?_
    exact runs_pure ⟨h₁.1, h₁.2, .inl rfl⟩

theorem runs_bufCatData (hd : w.1.read dest = some a) (data : Bytes) :
    Runs (· = dest) (bufCatData mv dest data) w fun r w' =>
      w'.1.read r = some (a ++ data) ∧ w'.2 = w.2 ∧ (r = dest ∨ w.1.size ≤ r) := by
  have hlt := Blocks.lt_size_of_read hd
  refine Runs.narrow ?_
  refine (runs_bufAdd data).bind (fun _ _ => False.elim) ?_
  rintro src w₁ hk₁ ⟨hsrc, htg₁, hnew⟩
  have hsrclt := Blocks.lt_size_of_read hsrc
  refine (runs_bufCat (hk₁.read hd id) hsrc).bind (fun _ _ => .inl) ?_
  rintro r w₂ hk₂ ⟨hr, htg₂, hrold⟩
  have hle₁ := hk₁.size_le
  refine (runs_bufFree (hk₂.read hsrc (by omega))).bind (fun h _ hh => .inr (by omega)) ?_
  rintro - w₃ hk₃ ⟨-, htg₃⟩
  refine runs_pure ⟨hk₃.read hr (by omega), ?_, by omega⟩
  rw [htg₃, htg₂, htg₁]

/-- Since `w₀` only `s` and new blocks have changed. What was in `s` and has been appended to is in
`buf`, which is `s` or new. -/
structure Grown (w₀ w : Blocks Bytes × Tg) (s buf : Nat) (x : Bytes) : Prop where
  read : w.1.read buf = some x
  old : buf = s ∨ w₀.1.size ≤ buf
  kept : Blocks.Kept (· = s) w₀.1 w.1

section
variable {w₀ w' : Blocks Bytes × Tg} {s buf : Nat} {y : Bytes} {c : HeapM Nat}

theorem grown_refl (hs : w.1.read s = some x) : Grown w w s s x := ⟨hs, .inl rfl, .refl _ _⟩

theorem Grown.of_kept (hg : Grown w₀ w s buf x) (hk : Blocks.Kept Nothing w.1 w'.1) :
    Grown w₀ w' s buf x :=
  ⟨hk.read hg.read id, hg.old, hg.kept.trans (hk.mono fun _ _ => False.elim)⟩

theorem Grown.runs (hg : Grown w₀ w s buf x) (hc : Runs (· = buf) c w fun r w' =>
      w'.1.read r = some y ∧ w'.2 = w.2 ∧ (r = buf ∨ w.1.size ≤ r)) :
    Runs (fun k => k = s ∨ w₀.1.size ≤ k) c w fun r w' => Grown w₀ w' s r y ∧ w'.2 = w.2 := by
  have hle := hg.kept.size_le
  have hold := hg.old
  refine hc.kept.mono (fun k _ hk => by omega) ?_
  rintro r w' ⟨hk, hr, htg, hrold⟩
  refine ⟨⟨hr, by omega, ?_⟩, htg⟩
  have hk' : Blocks.Kept (fun k => k = s ∨ w₀.1.size ≤ k) w.1 w'.1 :=
    hk.mono fun k _ hk => by omega
  exact ((hg.kept.mono fun k _ hk => .inl hk).trans hk').mono fun k hlt hk => by omega

theorem Grown.runs_bufCat (hg : Grown w₀ w s buf x) (hb : w.1.read src = some b) :
    Runs (fun k => k = s ∨ w₀.1.size ≤ k) (bufCat mv buf src) w fun r w' =>
      Grown w₀ w' s r (x ++ b) ∧ w'.2 = w.2 := hg.runs (Heap.runs_bufCat hg.read hb)

theorem Grown.runs_bufCatData (hg : Grown w₀ w s buf x) (data : Bytes) :
    Runs (fun k => k = s ∨ w₀.1.size ≤ k) (bufCatData mv buf data) w fun r w' =>
      Grown w₀ w' s r (x ++ data) ∧ w'.2 = w.2 := hg.runs (Heap.runs_bufCatData hg.read data)

end

theorem runs_tgAck : Runs Nothing tgAck w fun r w' =>
    w'.1.read r = some (Libtg.tgAck w.2).1 ∧ w'.2 = (Libtg.tgAck w.2).2 ∧ w.1.size ≤ r := by
  refine (runs_bufAdd []).bind (fun _ _ => False.elim) ?_
  rintro ack w₁ hk₁ ⟨hack, htg₁, hnew⟩
  refine (runs_lift Libtg.tgAck w₁).bind (fun _ _ => False.elim) ?_
  rintro ids w₂ hk₂ ⟨rfl, htg₂⟩
  rw [htg₁] at htg₂ ⊢
  split_ifs with hids
  · refine runs_pure ⟨?_, htg₂, hnew⟩
    rw [List.length_eq_zero_iff.mp hids]
    exact hk₂.read hack id
  · refine (runs_bufAdd _).mono (fun _ _ => id) fun r w₃ ⟨hr, htg₃, hle⟩ => ?_
    exact ⟨hr, htg₃.trans htg₂, (hk₁.size_le.trans hk₂.size_le).trans hle⟩

theorem runs_tgMtpMessage {payload : Nat} {p : Bytes} (hp : w.1.read payload = some p)
    (content : Bool) : Runs Nothing (tgMtpMessage mv E payload content) w fun r w' =>
      w'.1.read r.1 = some (Libtg.tgMtpMessage E p content w.2).1.1 ∧
        r.2 = (Libtg.tgMtpMessage E p content w.2).1.2 ∧
        w'.2 = (Libtg.tgMtpMessage E p content w.2).2 ∧ w.1.size ≤ r.1 := by
  refine Runs.ofNew ?_
  refine (runs_bufAdd []).bind (fun _ _ => False.elim) ?_
  rintro msg w₁ hk₁ ⟨hmsg, htg₁, hnew⟩
  have hlater : ∀ k, k = msg ∨ w₁.1.size ≤ k → w.1.size ≤ k := fun k hk =>
    hk.elim (fun h => h ▸ hnew) hk₁.size_le.trans
  have hp₁ := hk₁.read hp id
  have hne : payload ≠ msg := ((Blocks.lt_size_of_read hp).trans_le hnew).ne
  refine (runs_lift (tgGetCurrentTime E) w₁).bind (fun _ _ => False.elim) ?_
  rintro msgId w₂ hk₂ ⟨rfl, htg₂⟩
  have h₂ := (grown_refl hmsg).of_kept hk₂
  refine (h₂.runs_bufCatData _).bind (fun k _ => hlater k) ?_
  rintro msg₃ w₃ - ⟨h₃, htg₃⟩
  refine (runs_lift (nextSeqno content) w₃).bind (fun _ _ => False.elim) ?_
  rintro seqno w₄ hk₄ ⟨rfl, htg₄⟩
  have h₄ := h₃.of_kept hk₄
  refine (h₄.runs_bufCatData _).bind (fun k _ => hlater k) ?_
  rintro msg₅ w₅ - ⟨h₅, htg₅⟩
  refine (runs_read (h₅.kept.read hp₁ hne)).bind (fun _ _ => False.elim) ?_
  rintro p' w' - ⟨hp', hw'⟩
  rw [hp', hw']
  refine (h₅.runs_bufCatData _).bind (fun k _ => hlater k) ?_
  rintro msg₆ w₆ - ⟨h₆, htg₆⟩
  refine (h₆.runs_bufCat (h₆.kept.read hp₁ hne)).bind (fun k _ => hlater k) ?_
  rintro msg₇ w₇ - ⟨h₇, htg₇⟩
  have htg : w₇.2 = (Libtg.tgMtpMessage E p content w.2).2 := by
    rw [htg₇, htg₆, htg₅, htg₄, htg₃, htg₂, htg₁]
    rfl
  refine runs_pure ⟨?_, by rw [htg₁]; rfl, htg, hlater _ h₇.old⟩
  rw [h₇.read, htg₃, htg₂, htg₁]
  rfl

theorem runs_tgDrop (hb : w.1.read h = some x) (msgid : UInt64) :
    Runs (· = h) (tgDrop mv E h msgid) w fun r w' =>
      w'.1.read r =
          some (x ++ (Libtg.tgMtpMessage E (tlRpcDropAnswer msgid) true w.2).1.1) ∧
        w'.2 = (Libtg.tgMtpMessage E (tlRpcDropAnswer msgid) true w.2).2 ∧
        (r = h ∨ w.1.size ≤ r) := by
  have hlt := Blocks.lt_size_of_read hb
  refine Runs.narrow ?_
  refine (runs_bufAdd _).bind (fun _ _ => False.elim) ?_
  rintro drop w₁ hk₁ ⟨hdrop, htg₁, hnew⟩
  have hle₁ := hk₁.size_le
  have hdroplt := Blocks.lt_size_of_read hdrop
  refine (runs_tgMtpMessage hdrop true).bind (fun _ _ => False.elim) ?_
  rintro ⟨msg, msgId⟩ w₂ hk₂ ⟨hmsg, -, htg₂, hmsgnew⟩
  have hle₂ := hk₂.size_le
  have hmsglt := Blocks.lt_size_of_read hmsg
  dsimp only at hmsg hmsgnew hmsglt
  refine (runs_bufFree (hk₂.read hdrop id)).bind (fun h _ hh => .inr (by omega)) ?_
  rintro - w₃ hk₃ ⟨-, htg₃⟩
  have hle₃ := hk₃.size_le
  have hb₃ := hk₃.read (hk₂.read (hk₁.read hb id) id) (by omega)
  have hmsg₃ := hk₃.read hmsg (by omega)
  refine (runs_bufCat hb₃ hmsg₃).bind (fun h _ hh => .inl hh) ?_
  rintro r w₄ hk₄ ⟨hr, htg₄, hrold⟩
  have hle₄ := hk₄.size_le
  have hmsg₄ := hk₄.read hmsg₃ (by omega)
  refine (runs_bufFree hmsg₄).bind (fun h _ hh => .inr (by omega)) ?_
  rintro - w₅ hk₅ ⟨-, htg₅⟩
  refine runs_pure ⟨?_, ?_, by omega⟩
  · rw [hk₅.read hr (by omega), htg₁]
  · rw [htg₅, htg₄, htg₃, htg₂, htg₁]

/-- The messages of `tg_to_drop`, one round after the other. -/
theorem runs_tgDrops (ids : List UInt64) (hb : w.1.read h = some x) :
    Runs (· = h) (ids.foldlM (tgDrop mv E) h) w fun r w' =>
      let msgs := (ids.mapM fun id => Libtg.tgMtpMessage E (tlRpcDropAnswer id) true) w.2
      w'.1.read r = some (x ++ (msgs.1.map (·.1)).flatten) ∧ w'.2 = msgs.2 ∧
        (r = h ∨ w.1.size ≤ r) := by
  induction ids generalizing w h x with
  | nil =>
    refine runs_pure ⟨?_, rfl, .inl rfl⟩
    show w.1.read h = some (x ++ [])
    rwa [List.append_nil]
  | cons msgid ids ih =>
    have hlt := Blocks.lt_size_of_read hb
    rw [List.foldlM_cons, List.mapM_cons]
    refine Runs.narrow ?_
    refine (runs_tgDrop hb msgid).bind (fun _ _ => .inl) ?_
    rintro r w₁ hk₁ ⟨hr, htg₁, hrold⟩
    have hle₁ := hk₁.size_le
    refine (ih hr).mono (fun h _ hh => by omega) fun r' w₂ ⟨hr', htg₂, hrold'⟩ => ?_
    rw [htg₁] at hr' htg₂
    refine ⟨?_, htg₂, by omega⟩
    rw [hr', List.append_assoc]
    rfl

theorem runs_tgToDrop (hb : w.1.read h = some x) :
    Runs (· = h) (tgToDrop mv E h) w fun r w' =>
      w'.1.read r.2 = some (x ++ (Libtg.tgToDrop E w.2).1.2) ∧
        r.1 = (Libtg.tgToDrop E w.2).1.1 ∧ w'.2 = (Libtg.tgToDrop E w.2).2 ∧
        (r.2 = h ∨ w.1.size ≤ r.2) := by
  refine (runs_lift get w).bind (fun _ _ => False.elim) ?_
  rintro tg w₁ hk₁ ⟨htg, htg₁⟩
  have hle₁ := hk₁.size_le
  have hb₁ := hk₁.read hb id
  change tg = w.2 at htg
  change w₁.2 = w.2 at htg₁
  rw [htg, Threads.tgToDrop_eq]
  split_ifs with hlen
  · exact runs_pure ⟨by rwa [List.append_nil], rfl, htg₁, .inl rfl⟩
  · refine (runs_tgDrops w.2.todrop hb₁).bind (fun _ _ => id) ?_
    rintro r w₂ hk₂ ⟨hr, htg₂, hrold⟩
    rw [htg₁] at hr htg₂
    refine (runs_lift _ w₂).bind (fun _ _ => False.elim) ?_
    rintro - w₃ hk₃ ⟨-, htg₃⟩
    refine runs_pure ⟨hk₃.read hr id, rfl, ?_, by dsimp only; omega⟩
    rw [htg₃, htg₂]
    rfl

theorem tgAck_length_pos {tg : Tg} (h : tg.msgids ≠ []) : (Libtg.tgAck tg).1.length > 0 := by
  rw [tgAck_eq, if_neg (by simpa [Nat.pos_iff_ne_zero] using h), tlMsgsAck_eq]
  simp

/-- What `tg_header` puts into a container, the id of the query's message and the session after
it. -/
def containerData (E : Env) (query ack : Bytes) (tg : Tg) : (Bytes × UInt64) × Tg :=
  let (msg₀, tg) := Libtg.tgMtpMessage E query true tg
  let (msg₁, tg) := Libtg.tgMtpMessage E ack false tg
  let (todrop, tg) := Libtg.tgToDrop E tg
  ((le32 idMsgContainer ++ le32 (UInt32.ofNat (2 + todrop.1)) ++ msg₀.1 ++ msg₁.1 ++ todrop.2,
    msg₀.2), tg)

/-- The container takes the place of the query, which is released. -/
theorem runs_tgContainer {query ack : Nat} (hq : w.1.read query = some a)
    (hack : w.1.read ack = some b) :
    Runs (· = query) (tgContainer mv E query ack) w fun r w' =>
      w'.1.read r.1 = some (containerData E a b w.2).1.1 ∧ r.2 = (containerData E a b w.2).1.2 ∧
        w'.2 = (containerData E a b w.2).2 ∧ w.1.size ≤ r.1 ∧ w'.1.read query = none := by
  have hqlt := Blocks.lt_size_of_read hq
  have hacklt := Blocks.lt_size_of_read hack
  refine Runs.narrow ?_
  refine (runs_tgMtpMessage hq true).bind (fun _ _ => False.elim) ?_
  rintro ⟨msg₀, msgId⟩ w₁ hk₁ ⟨h₀, hid, htg₁, hnew₀⟩
  dsimp only at h₀ hid hnew₀
  have hle₁ := hk₁.size_le
  have hlt₀ := Blocks.lt_size_of_read h₀
  refine (runs_tgMtpMessage (hk₁.read hack id) false).bind (fun _ _ => False.elim) ?_
  rintro ⟨msg₁, _⟩ w₂ hk₂ ⟨h₁, -, htg₂, hnew₁⟩
  dsimp only at h₁ hnew₁
  have hle₂ := hk₂.size_le
  have hlt₁ := Blocks.lt_size_of_read h₁
  refine (runs_bufFree (hk₂.read (hk₁.read hq id) id)).bind (fun _ _ => .inl) ?_
  rintro - w₃ hk₃ ⟨hgone, htg₃⟩
  have hle₃ := hk₃.size_le
  have h₀₃ := hk₃.read (hk₂.read h₀ id) (by omega)
  have h₁₃ := hk₃.read h₁ (by omega)
  refine (runs_bufAdd _).bind (fun _ _ => False.elim) ?_
  rintro c₄ w₄ hk₄ ⟨hc₄, htg₄, hnew₄⟩
  have hle₄ := hk₄.size_le
  have hlt₄ := Blocks.lt_size_of_read hc₄
  refine (runs_bufAdd []).bind (fun _ _ => False.elim) ?_
  rintro todrop₅ w₅ hk₅ ⟨hd₅, htg₅, hnew₅⟩
  have hle₅ := hk₅.size_le
  refine (runs_tgToDrop hd₅).bind (fun h _ hh => .inr (by omega)) ?_
  rintro ⟨len, todrop⟩ w₆ hk₆ ⟨hd₆, hlen, htg₆, hold₆⟩
  dsimp only at hd₆ hlen hold₆
  have hle₆ := hk₆.size_le
  have h₀₆ := hk₆.read (hk₅.read (hk₄.read h₀₃ id) id) (by omega)
  have h₁₆ := hk₆.read (hk₅.read (hk₄.read h₁₃ id) id) (by omega)
  -- what is appended is in blocks of its own
  have hlater : ∀ k, k = c₄ ∨ w₆.1.size ≤ k → w.1.size ≤ k := fun k hk => by omega
  have hc₆ := grown_refl (hk₆.read (hk₅.read hc₄ id) (by omega))
  refine (hc₆.runs_bufCatData _).bind (fun k _ hk => .inr (hlater k hk)) ?_
  rintro c₇ w₇ - ⟨hc₇, htg₇⟩
  refine (hc₇.runs_bufCat (hc₇.kept.read h₀₆ (by omega))).bind
    (fun k _ hk => .inr (hlater k hk)) ?_
  rintro c₈ w₈ - ⟨hc₈, htg₈⟩
  refine (hc₈.runs_bufCat (hc₈.kept.read h₁₆ (by omega))).bind
    (fun k _ hk => .inr (hlater k hk)) ?_
  rintro c₉ w₉ - ⟨hc₉, htg₉⟩
  refine (hc₉.runs_bufCat (hc₉.kept.read hd₆ (by omega))).bind
    (fun k _ hk => .inr (hlater k hk)) ?_
  rintro c w₁₀ - ⟨hc, htg₁₀⟩
  have hold := hc.old
  have hle₁₀ := hc.kept.size_le
  have hclt := Blocks.lt_size_of_read hc.read
  have hdlt := Blocks.lt_size_of_read hd₆
  refine (runs_bufFree (hc.kept.read h₀₆ (by omega))).bind (fun h _ hh => .inr (by omega)) ?_
  rintro - w₁₁ hk₁₁ ⟨-, htg₁₁⟩
  have hle₁₁ := hk₁₁.size_le
  have h₁₁₁ := hk₁₁.read (hc.kept.read h₁₆ (by omega)) (by omega)
  refine (runs_bufFree h₁₁₁).bind (fun h _ hh => .inr (by omega)) ?_
  rintro - w₁₂ hk₁₂ ⟨-, htg₁₂⟩
  have hle₁₂ := hk₁₂.size_le
  have hd₁₂ := hk₁₂.read (hk₁₁.read (hc.kept.read hd₆ (by omega)) (by omega)) (by omega)
  refine (runs_bufFree hd₁₂).bind (fun h _ hh => .inr (by omega)) ?_
  rintro - w₁₃ hk₁₃ ⟨-, htg₁₃⟩
  have htg : w₆.2 = (containerData E a b w.2).2 := by
    rw [htg₆, htg₅, htg₄, htg₃, htg₂, htg₁]
    rfl
  refine runs_pure ⟨?_, hid, ?_, hlater _ hold, ?_⟩
  · rw [hk₁₃.read (hk₁₂.read (hk₁₁.read hc.read (by omega)) (by omega)) (by omega), hlen, htg₅,
      htg₄, htg₃, htg₂, htg₁]
    rfl
  · rw [htg₁₃, htg₁₂, htg₁₁, htg₁₀, htg₉, htg₈, htg₇, htg]
  · rw [hk₁₃.read_eq (by omega) (by omega), hk₁₂.read_eq (by omega) (by omega),
      hk₁₁.read_eq (by omega) (by omega), hc.kept.read_eq (by omega) (by omega),
      hk₆.read_eq (by omega) (by omega), hk₅.read_eq (by omega) id, hk₄.read_eq (by omega) id, hgone]

theorem tgHeaderData_containerData {tg : Tg} (h : tg.msgids ≠ []) (content : Bool) :
    Libtg.tgHeaderData E a content tg =
      let r := containerData E a (Libtg.tgAck tg).1 (Libtg.tgAck tg).2
      ((r.1.1, false, r.1.2), r.2) := by
  have hlen : (Libtg.tgAck tg).1.length > 0 := tgAck_length_pos h
  rw [Libtg.tgHeaderData, run_bind, if_pos hlen]
  rfl

theorem runs_tgHeaderData {tg : Tg} {query ack : Nat} (hq : w.1.read query = some a)
    (hack : w.1.read ack = some (Libtg.tgAck tg).1) (htg : w.2 = (Libtg.tgAck tg).2)
    (content : Bool) :
    Runs (fun h => h = query ∧ tg.msgids ≠ []) (tgHeaderData mv E query ack content) w fun r w' =>
      w'.1.read r.1 = some (Libtg.tgHeaderData E a content tg).1.1 ∧
        r.2 = (Libtg.tgHeaderData E a content tg).1.2 ∧
        w'.2 = (Libtg.tgHeaderData E a content tg).2 ∧
        (r.1 = query ∧ tg.msgids = [] ∨ w.1.size ≤ r.1 ∧ w'.1.read query = none) := by
  refine (runs_read hack).bind (fun _ _ => False.elim) ?_
  rintro ids w' - ⟨hids, hw'⟩
  rw [hids, hw']
  by_cases h : tg.msgids = []
  · have hnil : Libtg.tgAck tg = ([], tg) := by rw [tgAck_eq, if_pos (by simp [h])]
    rw [hnil] at htg
    rw [hnil, if_neg (by simp), tgHeaderData_plain h]
    exact runs_pure ⟨hq, rfl, htg, .inl ⟨rfl, h⟩⟩
  · rw [if_pos (tgAck_length_pos h), tgHeaderData_containerData h, ← htg]
    refine (runs_tgContainer hq hack).bind (fun _ _ hh => ⟨hh, h⟩) ?_
    rintro ⟨c, msgid⟩ w' - ⟨hc, hid, htg', hnew, hgone⟩
    exact runs_pure ⟨hc, Prod.ext rfl hid, htg', .inr ⟨hnew, hgone⟩⟩

theorem tgHeader_run (content : Bool) (msgid : UInt64) (tg : Tg) :
    Libtg.tgHeader E a true content msgid tg =
      let r := Libtg.tgHeaderData E a content tg
      let t := tgGetCurrentTime E r.2
      let n := nextSeqno r.1.2.1 t.2
      ((r.2.salt ++ r.2.ssid ++ le64 t.1 ++ le32 n.1 ++ le32 (UInt32.ofNat r.1.1.length) ++ r.1.1 ++
          bufRand E (16 + (16 - r.1.1.length % 16) % 16),
        if r.1.2.2 = 0 then t.1 else r.1.2.2), n.2) := by
  rw [Libtg.tgHeader, if_pos rfl]
  rfl

/-- `tg_header` releases the query exactly where it has something to acknowledge. -/
theorem runs_tgHeader {query : Nat} (hq : w.1.read query = some a) (content : Bool)
    (msgid : UInt64) :
    Runs (fun h => h = query ∧ w.2.msgids ≠ []) (tgHeader mv E query content) w fun r w' =>
      w'.1.read r.1 = some (Libtg.tgHeader E a true content msgid w.2).1.1 ∧
        r.2 = (Libtg.tgHeader E a true content msgid w.2).1.2 ∧
        w'.2 = (Libtg.tgHeader E a true content msgid w.2).2 ∧ w.1.size ≤ r.1 ∧
        (w.2.msgids ≠ [] → w'.1.read query = none) := by
  have hqlt := Blocks.lt_size_of_read hq
  refine Runs.narrow ?_
  refine (runs_bufAdd []).bind (fun _ _ => False.elim) ?_
  rintro s₁ w₁ hk₁ ⟨hs₁, htg₁, hnew₁⟩
  have hle₁ := hk₁.size_le
  have hlt₁ := Blocks.lt_size_of_read hs₁
  refine runs_tgAck.bind (fun _ _ => False.elim) ?_
  rintro ack w₂ hk₂ ⟨hack, htg₂, hnew₂⟩
  have hle₂ := hk₂.size_le
  have hacklt := Blocks.lt_size_of_read hack
  rw [htg₁] at hack htg₂
  have hq₂ := hk₂.read (hk₁.read hq id) id
  refine (runs_tgHeaderData hq₂ hack htg₂ content).bind (fun _ _ => .inl) ?_
  rintro ⟨b, content', msgid'⟩ w₃ hk₃ ⟨hb, hr₃, htg₃, hbold⟩
  have hle₃ := hk₃.size_le
  have hblt := Blocks.lt_size_of_read hb
  dsimp only at hb hr₃ hbold hblt
  refine (runs_bufFree (hk₃.read hack (by omega))).bind (fun h _ hh => .inr (by omega)) ?_
  rintro - w₄ hk₄ ⟨-, htg₄⟩
  have hle₄ := hk₄.size_le
  have hs₄ := hk₄.read (hk₃.read (hk₂.read hs₁ id) (by omega)) (by omega)
  have hb₄ := hk₄.read hb (by omega)
  refine (runs_lift get w₄).bind (fun _ _ => False.elim) ?_
  rintro tg w₅ hk₅ ⟨htg, htg₅⟩
  change tg = w₄.2 at htg
  change w₅.2 = w₄.2 at htg₅
  rw [htg₄, htg₃] at htg
  have hle₅ := hk₅.size_le
  obtain ⟨rfl, rfl⟩ := Prod.ext_iff.mp hr₃
  have hlater : ∀ k, k = s₁ ∨ w₅.1.size ≤ k → w.1.size ≤ k := fun k hk => by omega
  have hb₅ := hk₅.read hb₄ id
  have hne : b ≠ s₁ := by omega
  have hs₅ := grown_refl (hk₅.read hs₄ id)
  refine (hs₅.runs_bufCatData _).bind (fun k _ hk => .inr (hlater k hk)) ?_
  rintro s₆ w₆ - ⟨hs₆, htg₆⟩
  refine (hs₆.runs_bufCatData _).bind (fun k _ hk => .inr (hlater k hk)) ?_
  rintro s₇ w₇ - ⟨hs₇, htg₇⟩
  refine (runs_lift (tgGetCurrentTime E) w₇).bind (fun _ _ => False.elim) ?_
  rintro _msgid w₈ hk₈ ⟨hid, htg₈⟩
  refine ((hs₇.of_kept hk₈).runs_bufCatData _).bind (fun k _ hk => .inr (hlater k hk)) ?_
  rintro s₉ w₉ - ⟨hs₉, htg₉⟩
  refine (runs_lift (nextSeqno _) w₉).bind (fun _ _ => False.elim) ?_
  rintro seqno w₁₀ hk₁₀ ⟨hseqno, htg₁₀⟩
  refine ((hs₉.of_kept hk₁₀).runs_bufCatData _).bind (fun k _ hk => .inr (hlater k hk)) ?_
  rintro s₁₁ w₁₁ - ⟨hs₁₁, htg₁₁⟩
  refine (runs_read (hs₁₁.kept.read hb₅ hne)).bind (fun _ _ => False.elim) ?_
  rintro data w' - ⟨hdata, hw'⟩
  rw [hdata, hw']
  refine (hs₁₁.runs_bufCatData _).bind (fun k _ hk => .inr (hlater k hk)) ?_
  rintro s₁₂ w₁₂ - ⟨hs₁₂, htg₁₂⟩
  refine (hs₁₂.runs_bufCat (hs₁₂.kept.read hb₅ hne)).bind (fun k _ hk => .inr (hlater k hk)) ?_
  rintro s₁₃ w₁₃ - ⟨hs₁₃, htg₁₃⟩
  refine (hs₁₃.runs_bufCatData _).bind (fun k _ hk => .inr (hlater k hk)) ?_
  rintro s₁₄ w₁₄ - ⟨hs₁₄, htg₁₄⟩
  have htg' : w₇.2 = (Libtg.tgHeaderData E a content w.2).2 := by
    rw [htg₇, htg₆, htg₅, htg₄, htg₃]
  rw [htg'] at hid htg₈
  rw [htg₉, htg₈] at hseqno htg₁₀
  rw [tgHeader_run]
  refine runs_pure ⟨?_, ?_, ?_, hlater _ hs₁₄.old, fun hack => ?_⟩
  · rw [hs₁₄.read, hseqno, hid, htg]
    rfl
  · rw [hid]
  · rw [htg₁₄, htg₁₃, htg₁₂, htg₁₁, htg₁₀]
  · obtain ⟨-, hnil⟩ | ⟨-, hgone⟩ := hbold
    · exact absurd hnil hack
    · rw [hs₁₄.kept.read_eq (by omega) (by omega), hk₅.read_eq (by omega) id,
        hk₄.read_eq (by omega) (by omega), hgone]

theorem runs_tgEncrypt (hb : w.1.read h = some x) :
    Runs Nothing (tgEncrypt C h) w fun r w' =>
      w'.1.read r = some (Libtg.tgEncrypt C w.2 x true) ∧ w'.2 = w.2 ∧ w.1.size ≤ r := by
  refine (runs_read hb).bind (fun _ _ => id) ?_
  rintro data w' - ⟨hdata, hw'⟩
  rw [hdata, hw']
  refine (runs_lift get w).bind (fun _ _ => id) ?_
  rintro tg w₁ hk₁ ⟨htg, htg₁⟩
  change tg = w.2 at htg
  change w₁.2 = w.2 at htg₁
  refine (runs_bufAdd _).mono (fun _ _ => id) fun r w₂ ⟨hr, htg₂, hnew⟩ => ?_
  exact ⟨htg ▸ hr, htg₂.trans htg₁, hk₁.size_le.trans hnew⟩

theorem runs_tgTransport (hb : w.1.read h = some x) :
    Runs Nothing (tgTransport mv h) w fun r w' =>
      w'.1.read r = some (Libtg.tgTransport x) ∧ w'.2 = w.2 ∧ w.1.size ≤ r := by
  refine Runs.ofNew ?_
  refine (runs_bufAdd []).bind (fun _ _ => False.elim) ?_
  rintro b w₁ hk₁ ⟨hb₁, htg₁, hnew⟩
  have hlater : ∀ k, k = b ∨ w₁.1.size ≤ k → w.1.size ≤ k := fun k hk =>
    hk.elim (fun h => h ▸ hnew) hk₁.size_le.trans
  have hx₁ := hk₁.read hb id
  have hne : h ≠ b := ((Blocks.lt_size_of_read hb).trans_le hnew).ne
  refine (runs_read hx₁).bind (fun _ _ => False.elim) ?_
  rintro data w' - ⟨hdata, hw'⟩
  rw [hdata, hw']
  refine ((grown_refl hb₁).runs_bufCatData _).bind (fun k _ => hlater k) ?_
  rintro b₂ w₂ - ⟨h₂, htg₂⟩
  refine (h₂.runs_bufCat (h₂.kept.read hx₁ hne)).mono (fun k _ => hlater k) ?_
  rintro r w₃ ⟨h₃, htg₃⟩
  exact ⟨h₃.read, (htg₃.trans htg₂).trans htg₁, hlater _ h₃.old⟩

/-- The packet is the one of `PrepareQuery`, and the query is released exactly where there is
something to acknowledge. -/
theorem runs_tgPrepareQuery {query : Nat} (hq : w.1.read query = some a) (msgid : UInt64) :
    Runs (fun h => h = query ∧ w.2.msgids ≠ []) (tgPrepareQuery mv E C query) w fun r w' =>
      let p := Libtg.tgPrepareQuery C E a true msgid w.2
      w'.1.read r.1 = some p.1.1 ∧ r.2 = p.1.2 ∧ w'.2 = p.2 ∧
        w'.1.read query = if w.2.msgids = [] then some a else none := by
  have hqlt := Blocks.lt_size_of_read hq
  refine Runs.narrow ?_
  refine (Runs.kept (runs_tgHeader hq true msgid)).bind (fun _ _ => .inl) ?_
  rintro ⟨h, msgid'⟩ w₁ - ⟨hk₁, hh, hid, htg₁, hnew₁, hgone⟩
  dsimp only at hh hid hnew₁
  have hle₁ := hk₁.size_le
  have hq₁ : w₁.1.read query = if w.2.msgids = [] then some a else none := by
    split_ifs with hack
    · exact hk₁.read hq fun hh => hh.2 hack
    · exact hgone hack
  refine (runs_tgEncrypt hh).bind (fun _ _ => False.elim) ?_
  rintro e w₂ hk₂ ⟨he, htg₂, hnew₂⟩
  have hle₂ := hk₂.size_le
  have hhlt := Blocks.lt_size_of_read hh
  refine (runs_bufFree (hk₂.read hh False.elim)).bind (fun _ _ hh => .inr (by omega)) ?_
  rintro - w₃ hk₃ ⟨-, htg₃⟩
  have hle₃ := hk₃.size_le
  have he₃ := hk₃.read he (by omega)
  have helt := Blocks.lt_size_of_read he₃
  refine (runs_tgTransport he₃).bind (fun _ _ => False.elim) ?_
  rintro t w₄ hk₄ ⟨ht, htg₄, hnew₄⟩
  have hle₄ := hk₄.size_le
  refine (runs_bufFree (hk₄.read he₃ False.elim)).bind (fun _ _ hh => .inr (by omega)) ?_
  rintro - w₅ hk₅ ⟨-, htg₅⟩
  refine runs_pure ⟨?_, hid, ?_, ?_⟩
  · rw [hk₅.read ht (by omega), htg₁]
    rfl
  · rw [htg₅, htg₄, htg₃, htg₂, htg₁]
    rfl
  · rw [hk₅.read_eq (by omega) (by omega), hk₄.read_eq (by omega) id, hk₃.read_eq (by omega)
      (by omega), hk₂.read_eq (by omega) id, hq₁]

end

/-! ## Sending the same query again -/

section
variable (mv : Nat → Bool) (E : Env) (C : Crypto) (query : Nat) (x : Bytes)

/-- The query is sent in these sessions, one after the other, and released in the end: each packet
is the one for `x` and leaves the query as it is. Until the next packet the other blocks may
change. -/
def ServesQuery : List Tg → Blocks Bytes → Prop
  | [], s => ∃ s', s.free query = some s'
  | tg :: tgs, s => ∃ r w', tgPrepareQuery mv E C query (s, tg) = some (r, w') ∧
      w'.1.read r.1 = some (Libtg.tgPrepareQuery C E x true 0 tg).1.1 ∧
      w'.1.read query = some x ∧
      ∀ s', Blocks.Kept (· ≠ query) w'.1 s' → ServesQuery tgs s'

end

section
variable {mv : Nat → Bool} {E : Env} {C : Crypto} {s : Blocks Bytes} {query : Nat} {x : Bytes}
  {tg : Tg}

/-- What is left of the query after a packet. -/
theorem read_query_of_tgPrepareQuery (hq : s.read query = some x) {r : Nat × UInt64}
    {w' : Blocks Bytes × Tg} (hrun : tgPrepareQuery mv E C query (s, tg) = some (r, w')) :
    w'.1.read r.1 = some (Libtg.tgPrepareQuery C E x true 0 tg).1.1 ∧
      w'.1.read query = if tg.msgids = [] then some x else none := by
  obtain ⟨r', w'', hrun', -, hr, -, -, hleft⟩ :
      Runs _ (tgPrepareQuery mv E C query) (s, tg) _ := runs_tgPrepareQuery hq 0
  obtain ⟨rfl, rfl⟩ := Prod.ext_iff.mp (Option.some.inj (hrun.symm.trans hrun'))
  exact ⟨hr, hleft⟩

/-- The query survives its packets exactly if none of them has anything to acknowledge. -/
theorem servesQuery_iff (hq : s.read query = some x) (tgs : List Tg) :
    ServesQuery mv E C query x tgs s ↔ ∀ tg ∈ tgs, tg.msgids = [] := by
  induction tgs generalizing s with
  | nil =>
    refine ⟨fun _ _ h => absurd h List.not_mem_nil, fun _ => ?_⟩
    exact ⟨_, Blocks.free_of_read hq⟩
  | cons tg tgs ih =>
    rw [List.forall_mem_cons]
    constructor
    · rintro ⟨r, w', hrun, -, hleft, hrest⟩
      have hack : tg.msgids = [] := by
        by_contra hne
        rw [(read_query_of_tgPrepareQuery hq hrun).2, if_neg hne] at hleft
        cases hleft
      exact ⟨hack, (ih hleft).mp (hrest w'.1 (.refl _ _))⟩
    · rintro ⟨hack, hacks⟩
      obtain ⟨r, w', hrun, -⟩ : Runs _ (tgPrepareQuery mv E C query) (s, tg) _ :=
        runs_tgPrepareQuery hq 0
      obtain ⟨hr, hleft⟩ := read_query_of_tgPrepareQuery hq hrun
      rw [if_pos hack] at hleft
      refine ⟨r, w', hrun, hr, hleft, fun s' hk => ?_⟩
      exact (ih (hk.read hleft fun hne => hne rfl)).mpr hacks

/-- A `ping` in block 0. -/
def pingBlocks : Blocks Bytes := ⟨[(ping, true)]⟩

theorem servesQuery_ping :
    ServesQuery (fun _ => true) pingEnv pingCrypto 0 ping [pingTg, pingTg] pingBlocks :=
  (servesQuery_iff rfl [pingTg, pingTg]).mpr (by decide)

/-- No packet consumes the query it is for. -/
def QueriesServed : Prop :=
  ∀ (mv : Nat → Bool) (E : Env) (C : Crypto) (s : Blocks Bytes) (query : Nat) (x : Bytes)
    (tgs : List Tg), s.read query = some x → ServesQuery mv E C query x tgs s

/-- With an acknowledgement pending `tg_header` releases the query, and its owner does so again. -/
theorem queriesServed_counterexample : ¬ QueriesServed := by
  intro h
  obtain ⟨r, w', hrun, -, hleft, -⟩ :=
    h (fun _ => true) pingEnv pingCrypto pingBlocks 0 ping [pendingTg] rfl
  have hgone := (read_query_of_tgPrepareQuery rfl hrun).2
  have hpending : pendingTg.msgids ≠ [] := by decide
  rw [if_neg hpending, hleft] at hgone
  cases hgone

end

end Libtg.Heap
