import Libtg.Tl.BufMemory

/-!
# Runs over buffers (`tl/buf.c`)

Any calls of the functions that make and append to buffers, each with its result in the variable it
belongs to. `Op.meaning` says what a call makes of the buffers as values (`Libtg.Buf`), and
`Agrees` that the variables have blocks of their own that hold these values.
-/

namespace Libtg.Memory

open Cells Blocks BlocksM LittleEndian

/-- The buffers of a caller, by the number of the variable. -/
abbrev Vars := Nat → Option BufT

inductive Op where
  | init (v : Nat)
  | new (v : Nat)
  | add (v : Nat) (data : Bytes)
  | cat (dest src : Nat)
  | catUi32 (dest : Nat) (i : UInt32)
  | catUi64 (dest : Nat) (i : UInt64)
  /-- The 64 bits of a `double`. -/
  | catDouble (dest : Nat) (i : UInt64)
  | catData (dest : Nat) (data : Bytes)
  | realloc (v size : Nat)

def getVar (v : Nat) : MemM Vars BufT := fun w => (w.2 v).map fun buf => (buf, w)

def setVar (v : Nat) (buf : BufT) : MemM Vars Unit :=
  lift (modify fun vars => Function.update vars v (some buf))

/-- A call: `dest = buf_cat(dest, src)`, and so on. -/
def Op.exec (mv : Moves) : Op → MemM Vars Unit
  | .init v => do setVar v (← bufInit)
  | .new v => do setVar v (← bufNew)
  | .add v data => do setVar v (← withLocal data fun p => bufAdd mv p 0 data.length)
  | .cat dest src => do
    let s ← getVar src
    let d ← getVar dest
    setVar dest (← bufCat mv d s)
  | .catUi32 dest i => do
    let d ← getVar dest
    setVar dest (← bufCatUi32 mv d i)
  | .catUi64 dest i => do
    let d ← getVar dest
    setVar dest (← bufCatUi64 mv d i)
  | .catDouble dest i => do
    let d ← getVar dest
    setVar dest (← bufCatDouble mv d i)
  | .catData dest data => do
    let d ← getVar dest
    setVar dest (← withLocal data fun p => bufCatData mv d p 0 data.length)
  | .realloc v size => do
    let b ← getVar v
    setVar v (← bufRealloc mv b size)

def execAll (mv : Moves) : List Op → MemM Vars Unit
  | [] => return ()
  | op :: ops => do
    op.exec mv
    execAll mv ops

/-- No block has been given out, and no variable is set. -/
def start : Mem × Vars := (⟨[]⟩, fun _ => none)

/-! ## What the calls mean -/

/-- The buffers as values. -/
abbrev Bufs := Nat → Option Buf

/-- Which block a value belongs to makes no difference here. -/
def still (_ : Nat) : Bool := false

/-- Bytes are appended to a buffer. -/
def appendTo (bufs : Bufs) (dest : Nat) (data : Bytes) : Option Bufs := do
  let d ← bufs dest
  let b ← Libtg.bufCat still d data
  return Function.update bufs dest (some b)

/-- `none` if a buffer is used that was not made, or one gets too long. -/
def Op.meaning (bufs : Bufs) : Op → Option Bufs
  | .init v | .new v => some (Function.update bufs v (some (Libtg.bufAdd [])))
  | .add v data =>
    if data.length < bufLimit then some (Function.update bufs v (some (Libtg.bufAdd data)))
    else none
  | .cat dest src => do
    let s ← bufs src
    appendTo bufs dest s.data
  | .catUi32 dest i => appendTo bufs dest (le32 i)
  | .catUi64 dest i | .catDouble dest i => appendTo bufs dest (le64 i)
  | .catData dest data => appendTo bufs dest data
  | .realloc v size => do
    let b ← bufs v
    if size < bufLimit then
      return Function.update bufs v (some (Libtg.bufRealloc still b size))
    else none

def meanings : Bufs → List Op → Option Bufs
  | bufs, [] => some bufs
  | bufs, op :: ops => do
    let bufs ← op.meaning bufs
    meanings bufs ops

def noBufs : Bufs := fun _ => none

/-- A buffer is appended to itself and has to grow for it. -/
def Op.GrowsItself (bufs : Bufs) : Op → Prop
  | .cat dest src => dest = src ∧ ∃ b, bufs dest = some b ∧ b.asize < b.size + b.size
  | _ => False

/-- No call makes a buffer grow by appending it to itself. -/
def Apart : Bufs → List Op → Prop
  | _, [] => True
  | bufs, op :: ops =>
    ¬ op.GrowsItself bufs ∧ ∀ bufs', op.meaning bufs = some bufs' → Apart bufs' ops

/-- `buf.data[i]`. -/
def byteAt (s : Mem) (buf : BufT) (i : Nat) : Option UInt8 :=
  (s.read buf.aptr).bind fun l => l[buf.off + i]?.join

/-- The first `size` bytes of the buffer are `x`, and those from there up to `asize` are zero. -/
structure Intact (s : Mem) (buf : BufT) (x : Bytes) : Prop where
  size_le : buf.size ≤ buf.asize
  size : buf.size = x.length
  bytes : ∀ i < buf.size, byteAt s buf i = x[i]?
  zero : ∀ i, buf.size ≤ i → i ≤ buf.asize → byteAt s buf i = some 0

/-- The calls come to their end, and then each buffer holds what was appended to it. -/
def KeepsBuffers (mv : Moves) (ops : List Op) (bufs : Bufs) : Prop :=
  ∃ w, execAll mv ops start = some ((), w) ∧
    ∀ v b, bufs v = some b → ∃ buf, w.2 v = some buf ∧ Intact w.1 buf b.data

theorem Represents.intact {s : Mem} {buf : BufT} {x : Bytes} {a : Nat}
    (h : Represents s buf x a) : Intact s buf x := by
  have hbyte : ∀ i, byteAt s buf i = (padded x (a + 1))[i]?.join := by
    intro i
    rw [byteAt, h.cells, h.off, Nat.zero_add]
    rfl
  refine ⟨h.size ▸ h.asize ▸ h.le, h.size, fun i hi => ?_, fun i hi hia => ?_⟩
  · rw [hbyte, getElem?_padded_of_lt (h.size ▸ hi)]
    rfl
  · rw [hbyte, getElem?_padded_of_le (h.size ▸ hi) (Nat.lt_succ_of_le (h.asize ▸ hia))]
    rfl

/-! ## One call -/

/-- Each value is held by the block of its variable, and no two variables have one block. -/
structure Agrees (w : Mem × Vars) (bufs : Bufs) : Prop where
  holds : ∀ v b, bufs v = some b → ∃ buf, w.2 v = some buf ∧ Represents w.1 buf b.data b.asize
  isSome : ∀ v buf, w.2 v = some buf → ∃ b, bufs v = some b
  inj : ∀ v v' buf buf', w.2 v = some buf → w.2 v' = some buf' → buf.aptr = buf'.aptr → v = v'

/-- The block of a variable. -/
def Own (vars : Vars) (v k : Nat) : Prop := ∃ buf, vars v = some buf ∧ k = buf.aptr

section
variable {mv : Moves} {w : Mem × Vars} {bufs bufs' : Bufs} {v : Nat} {b : Buf} {buf : BufT}
  {c : MemM Vars BufT} {op : Op} {ops : List Op}

theorem Agrees.represents (h : Agrees w bufs) (hv : w.2 v = some buf) (hb : bufs v = some b) :
    Represents w.1 buf b.data b.asize := by
  obtain ⟨buf', hv', hrep⟩ := h.holds v b hb
  cases hv.symm.trans hv'
  exact hrep

theorem Agrees.lt_size (h : Agrees w bufs) (hv : w.2 v = some buf) : buf.aptr < w.1.size := by
  obtain ⟨b, hb⟩ := h.isSome v buf hv
  exact lt_size_of_read (h.represents hv hb).cells

/-- A program that makes a value in the block of `v` or in a new one leaves the others alone. -/
theorem Agrees.set (h : Agrees w bufs)
    (hc : Runs (Own w.2 v) c w fun buf w' => Represents w'.1 buf b.data b.asize ∧
      (Own w.2 v buf.aptr ∨ w.1.size ≤ buf.aptr) ∧ w'.2 = w.2) :
    ∃ w', (c >>= setVar v) w = some ((), w') ∧
      Agrees w' (Function.update bufs v (some b)) := by
  obtain ⟨buf, w', hrun, hk, hbuf, hfresh, hvars⟩ := hc
  refine ⟨(w'.1, Function.update w'.2 v (some buf)), ?_, ?_⟩
  · rw [bind_of_eq_some hrun]
    rfl
  -- the block of another variable is neither changed nor given to `v`
  have hother : ∀ u bufu, u ≠ v → w.2 u = some bufu →
      ¬ Own w.2 v bufu.aptr ∧ bufu.aptr ≠ buf.aptr := by
    intro u bufu hu hbufu
    have hown : ¬ Own w.2 v bufu.aptr := by
      rintro ⟨bufv, hbufv, heq⟩
      exact hu (h.inj u v bufu bufv hbufu hbufv heq)
    refine ⟨hown, fun heq => ?_⟩
    rcases hfresh with hold | hnew
    · exact hown (heq ▸ hold)
    · have := h.lt_size hbufu
      omega
  refine ⟨fun u bu hu => ?_, fun u bufu hu => ?_, fun u u' bufu bufu' hu hu' heq => ?_⟩
  · dsimp only
    by_cases huv : u = v
    · subst huv
      rw [Function.update_self] at hu ⊢
      cases hu
      exact ⟨buf, rfl, hbuf⟩
    · rw [Function.update_of_ne huv] at hu ⊢
      obtain ⟨bufu, hbufu, hrep⟩ := h.holds u bu hu
      exact ⟨bufu, hvars ▸ hbufu, hrep.kept hk (hother u bufu huv hbufu).1⟩
  · by_cases huv : u = v
    · subst huv
      exact ⟨b, Function.update_self ..⟩
    · dsimp only at hu
      rw [Function.update_of_ne huv, hvars] at hu
      rw [Function.update_of_ne huv]
      exact h.isSome u bufu hu
  · dsimp only at hu hu'
    rw [hvars] at hu hu'
    by_cases huv : u = v <;> by_cases huv' : u' = v
    · exact huv.trans huv'.symm
    · subst huv
      rw [Function.update_self] at hu
      rw [Function.update_of_ne huv'] at hu'
      cases hu
      exact absurd heq.symm (hother u' bufu' huv' hu').2
    · subst huv'
      rw [Function.update_self] at hu'
      rw [Function.update_of_ne huv] at hu
      cases hu'
      exact absurd heq (hother u bufu huv hu).2
    · rw [Function.update_of_ne huv] at hu
      rw [Function.update_of_ne huv'] at hu'
      exact h.inj u u' bufu bufu' hu hu' heq

theorem getVar_bind {β : Type} (hv : w.2 v = some buf) (f : BufT → MemM Vars β) :
    (getVar v >>= f) w = f buf w :=
  bind_of_eq_some (by rw [getVar, hv]; rfl) f

theorem bufRealloc_still (b : Buf) (n : Nat) : (Libtg.bufRealloc still b n).data = b.data ∧
    (Libtg.bufRealloc still b n).asize = max b.asize n := by
  unfold Libtg.bufRealloc
  by_cases hgt : n > b.asize
  · rw [if_pos hgt]
    exact ⟨rfl, (max_eq_right (le_of_lt hgt)).symm⟩
  · rw [if_neg hgt]
    exact ⟨rfl, (max_eq_left (Nat.not_lt.mp hgt)).symm⟩

theorem bufCat_still {data : Bytes} {b' : Buf} (h : Libtg.bufCat still b data = some b') :
    b.data.length + data.length < bufLimit ∧ b'.data = b.data ++ data ∧
      b'.asize = max b.asize (b.data.length + data.length) := by
  obtain ⟨hlt, hdata⟩ := bufCat_eq_some h
  refine ⟨hlt, hdata, ?_⟩
  rw [Libtg.bufCat, if_pos hlt] at h
  cases h
  dsimp only
  split_ifs with hgt
  · exact (bufRealloc_still b _).2
  · exact (max_eq_left (Nat.not_lt.mp hgt)).symm

theorem appendTo_of_eq_some {data : Bytes} {b' : Buf} (hb : bufs v = some b)
    (h : Libtg.bufCat still b data = some b') :
    appendTo bufs v data = some (Function.update bufs v (some b')) := by
  show (bufs v).bind _ = _
  rw [hb]
  show (Libtg.bufCat still b data).bind _ = _
  rw [h]
  rfl

/-- A new buffer for a variable. -/
theorem Agrees.exec_new {data : Bytes} (h : Agrees w bufs)
    (hc : Runs Nothing c w fun buf w' => New w w' data buf) (v : Nat) :
    ∃ w', (c >>= setVar v) w = some ((), w') ∧
      Agrees w' (Function.update bufs v (some (Libtg.bufAdd data))) :=
  h.set (hc.mono (fun _ _ => False.elim) fun _ _ ⟨hbuf, hnew, hvars⟩ => ⟨hbuf, .inr hnew, hvars⟩)

/-- A buffer that is appended to. -/
theorem Agrees.exec_append {data : Bytes} {f : BufT → MemM Vars BufT} (h : Agrees w bufs)
    (happend : appendTo bufs v data = some bufs')
    (hf : ∀ d b, w.2 v = some d → bufs v = some b → Represents w.1 d b.data b.asize →
      b.data.length + data.length < bufLimit → Runs (· = d.aptr) (f d) w fun buf w' =>
        Represents w'.1 buf (b.data ++ data) (max b.asize (b.data.length + data.length)) ∧
          Fresh w.1 d.aptr buf.aptr ∧ w'.2 = w.2) :
    ∃ w', (do let d ← getVar v; setVar v (← f d) : MemM Vars Unit) w = some ((), w') ∧
      Agrees w' bufs' := by
  simp only [appendTo, Option.bind_eq_bind, Option.bind_eq_some_iff, Option.pure_def,
    Option.some.injEq] at happend
  obtain ⟨b, hb, b', hcat, rfl⟩ := happend
  obtain ⟨hlt, hdata, hasize⟩ := bufCat_still hcat
  obtain ⟨d, hd, hrep⟩ := h.holds v b hb
  rw [getVar_bind hd]
  refine h.set ((hf d b hd hb hrep hlt).mono (fun k _ hk => ⟨d, hd, hk⟩) ?_)
  rintro buf w' ⟨hbuf, hfresh, hvars⟩
  exact ⟨hdata ▸ hasize ▸ hbuf, hfresh.imp (fun heq => ⟨d, hd, heq⟩) id, hvars⟩

theorem Agrees.exec (h : Agrees w bufs) (hop : op.meaning bufs = some bufs')
    (hapart : ¬ op.GrowsItself bufs) (mv : Moves) :
    ∃ w', op.exec mv w = some ((), w') ∧ Agrees w' bufs' := by
  cases op with
  | init v =>
    cases hop
    exact h.exec_new (runs_bufInit w) v
  | new v =>
    cases hop
    exact h.exec_new (runs_bufInit w) v
  | add v data =>
    simp only [Op.meaning] at hop
    split_ifs at hop with hlt
    cases hop
    exact h.exec_new (runs_addLocal data hlt w) v
  | cat dest src =>
    simp only [Op.meaning, Option.bind_eq_bind, Option.bind_eq_some_iff] at hop
    obtain ⟨s, hs, happend⟩ := hop
    obtain ⟨bufs₁, hbufs₁, hsrc⟩ := h.holds src s hs
    rw [Op.exec, getVar_bind hbufs₁]
    refine h.exec_append happend fun d b hd hb hrep hlt => ?_
    refine runs_bufCat hrep hsrc.has hsrc.size hlt fun heq => ?_
    -- one block is one variable
    cases h.inj src dest bufs₁ d hbufs₁ hd heq
    cases hs.symm.trans hb
    rw [hsrc.off, Nat.zero_add]
    exact ⟨le_rfl, Nat.not_lt.mp fun hgrow => hapart ⟨rfl, s, hs, hgrow⟩⟩
  | catUi32 dest i =>
    refine h.exec_append hop fun d b _ _ hrep hlt => ?_
    exact runs_catAndFree hrep (runs_addLocal (le32 i) (by rw [le32_length]; decide) w) hlt
  | catUi64 dest i =>
    refine h.exec_append hop fun d b _ _ hrep hlt => ?_
    exact runs_catAndFree hrep (runs_addLocal (le64 i) (by rw [le64_length]; decide) w) hlt
  | catDouble dest i =>
    refine h.exec_append hop fun d b _ _ hrep hlt => ?_
    exact runs_catAndFree hrep (runs_addLocal (le64 i) (by rw [le64_length]; decide) w) hlt
  | catData dest data =>
    exact h.exec_append hop fun d b _ _ hrep hlt => runs_catLocal hrep hlt
  | realloc v size =>
    simp only [Op.meaning, Option.bind_eq_bind, Option.bind_eq_some_iff] at hop
    obtain ⟨b, hb, hop⟩ := hop
    split_ifs at hop with hlt
    cases hop
    obtain ⟨d, hd, hrep⟩ := h.holds v b hb
    obtain ⟨hdata, hasize⟩ := bufRealloc_still b size
    show ∃ w', ((getVar v >>= fun b => bufRealloc mv b size >>= setVar v) : MemM Vars Unit) w =
      _ ∧ _
    rw [getVar_bind hd]
    refine h.set ((runs_bufRealloc hrep hlt).mono (fun k _ hk => ⟨d, hd, hk⟩) ?_)
    rintro buf w' ⟨hbuf, hfresh, hvars, -, -⟩
    rw [hdata, hasize]
    exact ⟨hbuf, hfresh.imp (fun heq => ⟨d, hd, heq⟩) id, hvars⟩

/-- Where blocks are moved, a buffer that grows by itself is read after its release. -/
theorem Agrees.exec_growsItself (h : Agrees w bufs) (hop : op.meaning bufs = some bufs')
    (hgrows : op.GrowsItself bufs) (hall : ∀ s p m, mv s p m = true) : op.exec mv w = none := by
  cases op with
  | cat dest src =>
    obtain ⟨rfl, b, hb, hgrow⟩ := hgrows
    obtain ⟨d, hd, hrep⟩ := h.holds dest b hb
    simp only [Op.meaning, appendTo, hb, Option.bind_eq_bind, Option.bind_some,
      Option.bind_eq_some_iff] at hop
    obtain ⟨b', hcat, -⟩ := hop
    rw [Op.exec, getVar_bind hd, getVar_bind hd]
    exact bind_of_eq_none (bufCat_self hrep (bufCat_still hcat).1 hgrow hall) _
  | _ => exact hgrows.elim

/-! ## All calls -/

theorem Agrees.execAll (h : Agrees w bufs) (hops : meanings bufs ops = some bufs')
    (hapart : Apart bufs ops) (mv : Moves) :
    ∃ w', execAll mv ops w = some ((), w') ∧ Agrees w' bufs' := by
  induction ops generalizing w bufs with
  | nil =>
    cases hops
    exact ⟨w, rfl, h⟩
  | cons op ops ih =>
    rw [meanings, Option.bind_eq_bind, Option.bind_eq_some_iff] at hops
    obtain ⟨bufs₁, hop, hrest⟩ := hops
    obtain ⟨w₁, hrun, h₁⟩ := h.exec hop hapart.1 mv
    obtain ⟨w', hrun', h'⟩ := ih h₁ hrest (hapart.2 bufs₁ hop)
    exact ⟨w', (bind_of_eq_some hrun _).trans hrun', h'⟩

theorem Agrees.execAll_none (h : Agrees w bufs) (hops : meanings bufs ops = some bufs')
    (hapart : ¬ Apart bufs ops) (hall : ∀ s p m, mv s p m = true) :
    Memory.execAll mv ops w = none := by
  induction ops generalizing w bufs with
  | nil => exact absurd trivial hapart
  | cons op ops ih =>
    rw [meanings, Option.bind_eq_bind, Option.bind_eq_some_iff] at hops
    obtain ⟨bufs₁, hop, hrest⟩ := hops
    by_cases hgrows : op.GrowsItself bufs
    · exact bind_of_eq_none (h.exec_growsItself hop hgrows hall) _
    · obtain ⟨w₁, hrun, h₁⟩ := h.exec hop hgrows mv
      have hapart₁ : ¬ Apart bufs₁ ops := by
        intro hap
        refine hapart ⟨hgrows, fun bufs₂ hop₂ => ?_⟩
        cases hop.symm.trans hop₂
        exact hap
      exact (bind_of_eq_some hrun _).trans (ih h₁ hrest hapart₁)

theorem agrees_start : Agrees start noBufs where
  holds _ _ h := by cases h
  isSome _ _ h := by cases h
  inj _ _ _ _ h := by cases h

end

/-- Whatever `realloc` does, the buffers are intact after the calls if and only if none of them is
made to grow by being appended to itself. -/
theorem keepsBuffers_iff {ops : List Op} {bufs : Bufs} (h : meanings noBufs ops = some bufs) :
    (∀ mv, KeepsBuffers mv ops bufs) ↔ Apart noBufs ops := by
  constructor
  · intro hkeeps
    by_contra hapart
    obtain ⟨w, hrun, -⟩ := hkeeps fun _ _ _ => true
    rw [agrees_start.execAll_none h hapart fun _ _ _ => rfl] at hrun
    cases hrun
  · intro hapart mv
    obtain ⟨w, hrun, hagrees⟩ := agrees_start.execAll h hapart mv
    refine ⟨w, hrun, fun v b hb => ?_⟩
    obtain ⟨buf, hbuf, hrep⟩ := hagrees.holds v b hb
    exact ⟨buf, hbuf, hrep.intact⟩

/-- A number is appended to a buffer, and the buffer to a new one. -/
theorem keepsBuffers_numbers :
    ∃ bufs, meanings noBufs [.add 0 [1], .catUi32 0 7, .new 1, .cat 1 0] = some bufs ∧
      ∀ mv, KeepsBuffers mv [.add 0 [1], .catUi32 0 7, .new 1, .cat 1 0] bufs :=
  ⟨_, rfl, (keepsBuffers_iff rfl).mpr ⟨id, fun _ _ => ⟨id, fun _ _ => ⟨id, fun _ _ =>
    ⟨fun h => absurd h.1 (by decide), fun _ _ => trivial⟩⟩⟩⟩⟩

/-- If `realloc` moves the block then `buf_cat` copies from the one that is no more. -/
theorem execAll_self {data : Bytes} (hgrow : max BUFSIZ data.length < data.length + data.length)
    (hlt : data.length + data.length < bufLimit) :
    ∃ bufs, meanings noBufs [.add 0 data, .cat 0 0] = some bufs ∧
      execAll (fun _ _ _ => true) [.add 0 data, .cat 0 0] start = none := by
  obtain ⟨b', hcat⟩ : ∃ b', Libtg.bufCat still (Libtg.bufAdd data) data = some b' :=
    bufCat_isSome hlt
  have hadd : (Op.add 0 data).meaning noBufs =
      some (Function.update noBufs 0 (some (Libtg.bufAdd data))) := if_pos (by omega)
  have hself : Function.update noBufs 0 (some (Libtg.bufAdd data)) 0 =
      some (Libtg.bufAdd data) := Function.update_self ..
  have hop : (Op.cat 0 0).meaning (Function.update noBufs 0 (some (Libtg.bufAdd data))) =
      some (Function.update (Function.update noBufs 0 (some (Libtg.bufAdd data))) 0 (some b')) := by
    rw [Op.meaning, hself]
    exact appendTo_of_eq_some hself hcat
  have hmeaning : meanings noBufs [.add 0 data, .cat 0 0] =
      some (Function.update (Function.update noBufs 0 (some (Libtg.bufAdd data))) 0 (some b')) := by
    show ((Op.add 0 data).meaning noBufs).bind _ = _
    rw [hadd]
    show ((Op.cat 0 0).meaning _).bind _ = _
    rw [hop]
    rfl
  refine ⟨_, hmeaning, agrees_start.execAll_none hmeaning ?_ fun _ _ _ => rfl⟩
  intro hapart
  exact (hapart.2 _ hadd).1 ⟨rfl, _, hself, hgrow⟩

/-- A buffer of 4097 bytes is appended to itself. -/
theorem not_keepsBuffers_self : ∃ bufs,
    meanings noBufs [.add 0 (List.replicate 4097 0), .cat 0 0] = some bufs ∧
      ¬ KeepsBuffers (fun _ _ _ => true) [.add 0 (List.replicate 4097 0), .cat 0 0] bufs := by
  have hlen : (List.replicate 4097 (0 : UInt8)).length = 4097 := List.length_replicate
  obtain ⟨bufs, hmeaning, hnone⟩ :=
    execAll_self (by rw [hlen]; decide) (by rw [hlen]; decide)
  refine ⟨bufs, hmeaning, ?_⟩
  rintro ⟨w, hrun, -⟩
  rw [hnone] at hrun
  cases hrun

end Libtg.Memory
