import Libtg.Lib.Handed
import Libtg.Tg.DoUpdates

/-!
# The colours of peers (`tg/peer.c`)

`tg_get_peer_colors` and `tg_get_peer_profile_colors` differ in what they ask the server for. The
number they return is read from the reply after `tl_free`: `released` is what its memory holds by
then. What is reported is left out.
-/

namespace Libtg.PeerColors

open LittleEndian Consumer

def idHelpPeerColors : UInt32 := 0x00f8ed08
def idHelpPeerColorOption : UInt32 := 0xadec6ebe
def idHelpPeerColorSet : UInt32 := 0x26219a58
def idHelpPeerColorProfileSet : UInt32 := 0x767d61eb

def tlHelpGetPeerColors (hash : UInt32) : Bytes := le32 0xda80f42f ++ le32 hash

def tlHelpGetPeerProfileColors (hash : UInt32) : Bytes := le32 0xabcfa9fd ++ le32 hash

/-- `tg_colors_t`. -/
structure TgColors where
  rgb0 : UInt32
  rgb1 : UInt32
  rgb2 : UInt32
  deriving DecidableEq

/-- What `memset` leaves. -/
def TgColors.zero : TgColors := ⟨0, 0, 0⟩

/-- The array of a vector, `none` for `NULL`. A decoder allocates none for a vector that is empty or
too long, and any other has the length that goes with it. -/
def allocated : Tl → Option (List Tl)
  | .vector _ (x :: xs) => some (x :: xs)
  | _ => none

/-- The `switch` in the loops over the colours. -/
def TgColors.set (colors : TgColors) (i : Nat) (c : UInt32) : TgColors :=
  match i with
  | 0 => { colors with rgb0 := c }
  | 1 => { colors with rgb1 := c }
  | 2 => { colors with rgb1 := c }
  | _ => colors

/-- The loop over the colours from `i` on. -/
def copyColors (colors : TgColors) (i : Nat) : List Tl → TgColors
  | [] => colors
  | c :: cs => copyColors (colors.set i c.int?) (i + 1) cs

/-- `tg_peer_color_set_to_colors`. The colours of either set are its first field. -/
def tgPeerColorSetToColors (colors : TgColors) (tl : Tl) : TgColors :=
  if tl.id ≠ idHelpPeerColorSet ∧ tl.id ≠ idHelpPeerColorProfileSet then colors
  else if tl.id = idHelpPeerColorSet then
    match allocated (tl.field 0) with
    | none => colors
    | some cs => copyColors colors 0 cs
  else
    match allocated (tl.field 0) with
    | none => colors
    | some cs => copyColors colors 0 cs

/-- What the callback is called with. -/
structure Call where
  colorId : UInt32
  colors : TgColors
  darkColors : TgColors
  deriving DecidableEq

/-- The colours of a field of an option. -/
def colorsField (set : Tl) : TgColors :=
  if set.isNull then .zero else tgPeerColorSetToColors .zero set

def callOf (pco : Tl) : Call :=
  ⟨(pco.field 2).int?, colorsField (pco.field 3), colorsField (pco.field 4)⟩

/-- What the callback answers, by the calls so far with the last one. -/
abbrev Callback := List Call → Int

def Callback.stops (callback : Callback) (log : List Call) : Bool := callback log ≠ 0

/-- The loop over the options: the calls, and what is returned. -/
def colorsLoop (callback : Option Callback) (released : Tl) (log : List Call) :
    List Tl → List Call × Except Fault UInt32
  | [] => (log, .ok (released.field 0).int?)
  | pco :: pcos =>
    if pco.isNull then (log, .error .absent)
    else if pco.id ≠ idHelpPeerColorOption then colorsLoop callback released log pcos
    else
      match callback with
      | none => colorsLoop callback released log pcos
      | some f =>
        let log := log ++ [callOf pco]
        if f.stops log then (log, .ok 0) else colorsLoop callback released log pcos

/-- The body of both functions. -/
def tgGetColors (query : Bytes) (tgSendQuerySync : Bytes → Tl) (callback : Option Callback)
    (released : Tl) : List Call × Except Fault UInt32 :=
  let tl := tgSendQuerySync query
  if tl.isNull then ([], .ok 0)
  else if tl.id = idHelpPeerColors then
    match allocated (tl.field 1) with
    | none => ([], .ok 0)
    | some pcos => colorsLoop callback released [] pcos
  else ([], .ok 0)

/-- `tg_get_peer_profile_colors`, which does not pass its `hash` on. -/
def tgGetPeerProfileColors := tgGetColors (tlHelpGetPeerProfileColors 0)

/-- `tg_get_peer_colors`, which does not pass its `hash` on. -/
def tgGetPeerColors := tgGetColors (tlHelpGetPeerColors 0)

/-! ## What the callback is to receive -/

/-- The colours of a set. -/
def colorsOf (set : Tl) : List UInt32 :=
  if set.id = idHelpPeerColorSet ∨ set.id = idHelpPeerColorProfileSet then
    ((allocated (set.field 0)).getD []).map Tl.int?
  else []

/-- The first three colours. -/
def TgColors.ofList (cs : List UInt32) : TgColors := ⟨cs.getD 0 0, cs.getD 1 0, cs.getD 2 0⟩

def wantedCall (pco : Tl) : Call :=
  ⟨(pco.field 2).int?, .ofList (colorsOf (pco.field 3)), .ofList (colorsOf (pco.field 4))⟩

def IsOption (pco : Tl) : Prop := pco.id = idHelpPeerColorOption

instance : DecidablePred IsOption := fun pco => decEq pco.id idHelpPeerColorOption

def wanted (pcos : List Tl) : List Call := (pcos.filter IsOption).map wantedCall

/-- The array with the options of a reply. -/
def optionsOf (tl : Tl) : Option (List Tl) :=
  if tl.id = idHelpPeerColors then allocated (tl.field 1) else none

/-- The calls up to the first one at which the callback asks to stop. -/
def due : Option Callback → List Tl → List Call
  | none, _ => []
  | some f, pcos => handed f.stops [] (wanted pcos)

/-- The callback receives what it is to receive, and a number is returned that does not depend on
the memory of the reply after its release. -/
def KeepsSlots (run : Tl → List Call × Except Fault UInt32) (callback : Option Callback) (tl : Tl) :
    Prop :=
  ∃ ret, ∀ released, run released = (due callback ((optionsOf tl).getD []), .ok ret)

/-- A set with at most two colours, or whose second and third colour are 0. -/
def KeptSet (set : Tl) : Prop :=
  2 < (colorsOf set).length → (colorsOf set).getD 1 0 = 0 ∧ (colorsOf set).getD 2 0 = 0

/-- An entry that is there, and if it is an option its sets are kept. -/
def Kept (pco : Tl) : Prop :=
  pco.isNull = false ∧ (IsOption pco → KeptSet (pco.field 3) ∧ KeptSet (pco.field 4))

/-- After the calls in `log` the callback asks to stop at an option, and up to it all is kept. -/
def StopsKept (f : Callback) (log : List Call) (pcos : List Tl) : Prop :=
  ∃ before pco after, pcos = before ++ pco :: after ∧ (∀ p ∈ before, Kept p) ∧ Kept pco ∧
    IsOption pco ∧ TakesAll f.stops log (wanted before) ∧
    f.stops (log ++ wanted before ++ [wantedCall pco]) = true

/-! ## One set -/

theorem copyColors_rest {i : Nat} (hi : 3 ≤ i) (colors : TgColors) (cs : List Tl) :
    copyColors colors i cs = colors := by
  induction cs generalizing i with
  | nil => rfl
  | cons c cs ih =>
    obtain ⟨i, rfl⟩ := Nat.exists_eq_add_of_le' hi
    exact ih (by omega)

/-- The third colour is where the second should be. -/
theorem copyColors_zero (cs : List Tl) :
    copyColors .zero 0 cs = TgColors.ofList (cs.map Tl.int?) ↔
      (2 < (cs.map Tl.int?).length →
        (cs.map Tl.int?).getD 1 0 = 0 ∧ (cs.map Tl.int?).getD 2 0 = 0) := by
  match cs with
  | [] | [_] | [_, _] => simp [copyColors, TgColors.set, TgColors.ofList, TgColors.zero]
  | a :: b :: c :: cs =>
    have hcopy : copyColors .zero 0 (a :: b :: c :: cs) = ⟨a.int?, c.int?, 0⟩ :=
      copyColors_rest (le_refl 3) _ cs
    have hof : TgColors.ofList ((a :: b :: c :: cs).map Tl.int?) = ⟨a.int?, b.int?, c.int?⟩ := rfl
    rw [hcopy, hof]
    simp only [TgColors.mk.injEq, List.map_cons, List.length_cons, List.getD_cons_succ,
      List.getD_cons_zero, true_and]
    constructor
    · rintro ⟨hcb, hc⟩ -
      exact ⟨hcb.symm.trans hc.symm, hc.symm⟩
    · intro h
      obtain ⟨hb, hc⟩ := h (by omega)
      rw [hb, hc]
      exact ⟨rfl, rfl⟩

theorem colorsField_eq_iff (set : Tl) :
    colorsField set = TgColors.ofList (colorsOf set) ↔ KeptSet set := by
  unfold colorsField KeptSet
  by_cases hnull : set.isNull = true
  · have hid : ¬ (set.id = idHelpPeerColorSet ∨ set.id = idHelpPeerColorProfileSet) := by
      rw [id_of_isNull hnull]
      decide
    rw [if_pos hnull, colorsOf, if_neg hid]
    exact iff_of_true rfl fun h => absurd h (by simp)
  · rw [if_neg hnull, colorsOf]
    by_cases hid : set.id = idHelpPeerColorSet ∨ set.id = idHelpPeerColorProfileSet
    · have hset : tgPeerColorSetToColors .zero set =
          copyColors .zero 0 ((allocated (set.field 0)).getD []) := by
        unfold tgPeerColorSetToColors
        rw [if_neg (by tauto)]
        split_ifs <;> cases allocated (set.field 0) <;> rfl
      rw [if_pos hid, hset]
      exact copyColors_zero _
    · rw [if_neg hid, tgPeerColorSetToColors, if_pos (by tauto)]
      exact iff_of_true rfl fun h => absurd h (by simp)

theorem callOf_eq_iff (pco : Tl) :
    callOf pco = wantedCall pco ↔ KeptSet (pco.field 3) ∧ KeptSet (pco.field 4) := by
  rw [callOf, wantedCall, Call.mk.injEq, colorsField_eq_iff, colorsField_eq_iff]
  exact and_iff_right rfl

/-! ## All options -/

section
variable {f : Callback} {released : Tl} {log : List Call} {pco : Tl} {pcos : List Tl}

theorem wanted_cons (h : IsOption pco) : wanted (pco :: pcos) = wantedCall pco :: wanted pcos := by
  simp [wanted, h]

theorem wanted_skip (h : ¬ IsOption pco) : wanted (pco :: pcos) = wanted pcos := by
  simp [wanted, h]

theorem stopsKept_nil : ¬ StopsKept f log [] := by
  rintro ⟨before, pco, after, heq, -⟩
  cases before <;> cases heq

theorem StopsKept.kept (h : StopsKept f log (pco :: pcos)) : Kept pco := by
  obtain ⟨before, p, after, heq, hbefore, hp, -⟩ := h
  cases before with
  | nil =>
    cases heq
    exact hp
  | cons q before =>
    cases heq
    exact hbefore pco List.mem_cons_self

theorem stopsKept_skip (h : ¬ IsOption pco) (hkept : Kept pco) :
    StopsKept f log (pco :: pcos) ↔ StopsKept f log pcos := by
  constructor
  · rintro ⟨before, p, after, heq, hbefore, hp, hop, htakes, hstop⟩
    cases before with
    | nil =>
      cases heq
      exact absurd hop h
    | cons q before =>
      cases heq
      rw [wanted_skip h] at htakes hstop
      exact ⟨before, p, after, rfl, fun q hq => hbefore q (List.mem_cons_of_mem _ hq), hp, hop,
        htakes, hstop⟩
  · rintro ⟨before, p, after, rfl, hbefore, hp, hop, htakes, hstop⟩
    rw [← wanted_skip h] at htakes hstop
    exact ⟨pco :: before, p, after, rfl, List.forall_mem_cons.mpr ⟨hkept, hbefore⟩, hp, hop, htakes,
      hstop⟩

theorem stopsKept_of_stops (h : IsOption pco) (hkept : Kept pco)
    (hstop : f.stops (log ++ [wantedCall pco]) = true) : StopsKept f log (pco :: pcos) :=
  ⟨[], pco, pcos, rfl, fun _ hp => absurd hp List.not_mem_nil, hkept, h, trivial,
    by rwa [wanted, List.filter_nil, List.map_nil, List.append_nil]⟩

theorem stopsKept_cons (h : IsOption pco) (hkept : Kept pco)
    (hgo : f.stops (log ++ [wantedCall pco]) = false) :
    StopsKept f log (pco :: pcos) ↔ StopsKept f (log ++ [wantedCall pco]) pcos := by
  constructor
  · rintro ⟨before, p, after, heq, hbefore, hp, hop, htakes, hstop⟩
    cases before with
    | nil =>
      cases heq
      rw [wanted, List.filter_nil, List.map_nil, List.append_nil, hgo] at hstop
      cases hstop
    | cons q before =>
      cases heq
      rw [wanted_cons h] at htakes hstop
      exact ⟨before, p, after, rfl, fun q hq => hbefore q (List.mem_cons_of_mem _ hq), hp, hop,
        htakes.2, by simpa using hstop⟩
  · rintro ⟨before, p, after, rfl, hbefore, hp, hop, htakes, hstop⟩
    refine ⟨pco :: before, p, after, rfl, List.forall_mem_cons.mpr ⟨hkept, hbefore⟩, hp, hop,
      ?_, ?_⟩
    · rw [wanted_cons h]
      exact ⟨hgo, htakes⟩
    · rw [wanted_cons h]
      simpa using hstop

theorem colorsLoop_null (h : pco.isNull = true) (callback : Option Callback) :
    colorsLoop callback released log (pco :: pcos) = (log, .error .absent) := by
  unfold colorsLoop
  rw [if_pos h]

theorem colorsLoop_skip (hnull : pco.isNull = false) (h : ¬ IsOption pco)
    (callback : Option Callback) :
    colorsLoop callback released log (pco :: pcos) = colorsLoop callback released log pcos := by
  have hid : pco.id ≠ idHelpPeerColorOption := h
  conv_lhs => unfold colorsLoop
  rw [if_neg (by rw [hnull]; decide), if_pos hid]

theorem colorsLoop_cons (hnull : pco.isNull = false) (h : IsOption pco) :
    colorsLoop (some f) released log (pco :: pcos) =
      if f.stops (log ++ [callOf pco]) then (log ++ [callOf pco], .ok 0)
      else colorsLoop (some f) released (log ++ [callOf pco]) pcos := by
  rw [colorsLoop, if_neg (by rw [hnull]; decide), if_neg (fun hne => hne h)]

theorem prefix_colorsLoop (callback : Option Callback) (released : Tl) (log : List Call)
    (pcos : List Tl) : log <+: (colorsLoop callback released log pcos).1 := by
  induction pcos generalizing log with
  | nil => exact List.prefix_rfl
  | cons pco pcos ih =>
    unfold colorsLoop
    split_ifs
    · exact List.prefix_rfl
    · exact ih log
    · cases callback with
      | none => exact ih log
      | some f =>
        dsimp only
        split_ifs
        · exact List.prefix_append ..
        · exact (List.prefix_append ..).trans (ih _)

/-- What is returned at the end of the loop is whatever is there by then. -/
theorem not_returns_released (ret : UInt32) :
    ¬ ∀ released : Tl, (Except.ok (released.field 0).int? : Except Fault UInt32) = .ok ret := by
  intro h
  have hzero : (0 : UInt32) = ret := Except.ok.inj (h .null)
  have hone : (1 : UInt32) = ret := Except.ok.inj (h (.object 0 [] [.int 1]))
  exact absurd (hzero.trans hone.symm) (by decide)

/-- If the calls are those that are due, then so is the first of them. -/
theorem callOf_eq_of_due (hnull : pco.isNull = false) (h : IsOption pco)
    (hlog : (colorsLoop (some f) released log (pco :: pcos)).1 =
      handed f.stops log (wanted (pco :: pcos))) : callOf pco = wantedCall pco := by
  have hcall : log ++ [callOf pco] <+: (colorsLoop (some f) released log (pco :: pcos)).1 := by
    rw [colorsLoop_cons hnull h]
    split_ifs
    · exact List.prefix_rfl
    · exact prefix_colorsLoop ..
  have hwant : log ++ [wantedCall pco] <+: handed f.stops log (wanted (pco :: pcos)) := by
    rw [wanted_cons h]
    exact prefix_handed_cons ..
  have heq : log ++ [callOf pco] = log ++ [wantedCall pco] :=
    (List.prefix_of_prefix_length_le (hlog ▸ hcall) hwant (by simp)).eq_of_length (by simp)
  exact List.singleton_inj.mp (List.append_cancel_left heq)

theorem colorsLoop_due_iff (f : Callback) (log : List Call) (pcos : List Tl) :
    (∃ ret, ∀ released, colorsLoop (some f) released log pcos =
        (handed f.stops log (wanted pcos), .ok ret)) ↔ StopsKept f log pcos := by
  induction pcos generalizing log with
  | nil =>
    refine iff_of_false ?_ stopsKept_nil
    rintro ⟨ret, h⟩
    exact not_returns_released ret fun released => (Prod.mk.inj (h released)).2
  | cons pco pcos ih =>
    cases hnull : pco.isNull with
    | true =>
      refine iff_of_false ?_ fun h => ?_
      · rintro ⟨ret, h⟩
        have := (Prod.mk.inj ((colorsLoop_null hnull _).symm.trans (h .null))).2
        cases this
      · exact absurd (hnull.symm.trans h.kept.1) (by decide)
    | false =>
      by_cases hop : IsOption pco
      · constructor
        · rintro ⟨ret, h⟩
          have hcall := callOf_eq_of_due hnull hop (congrArg Prod.fst (h .null))
          have hkept : Kept pco := ⟨hnull, fun _ => (callOf_eq_iff pco).mp hcall⟩
          cases hstop : f.stops (log ++ [wantedCall pco]) with
          | true => exact stopsKept_of_stops hop hkept hstop
          | false =>
            rw [stopsKept_cons hop hkept hstop, ← ih]
            refine ⟨ret, fun released => ?_⟩
            have := h released
            rwa [colorsLoop_cons hnull hop, hcall, wanted_cons hop, handed, hstop,
              if_neg Bool.false_ne_true, if_neg Bool.false_ne_true] at this
        · intro h
          have hkept := h.kept
          have hcall : callOf pco = wantedCall pco := (callOf_eq_iff pco).mpr (hkept.2 hop)
          cases hstop : f.stops (log ++ [wantedCall pco]) with
          | true =>
            refine ⟨0, fun released => ?_⟩
            rw [colorsLoop_cons hnull hop, hcall, wanted_cons hop, handed, hstop, if_pos rfl,
              if_pos rfl]
          | false =>
            rw [stopsKept_cons hop hkept hstop, ← ih] at h
            obtain ⟨ret, h⟩ := h
            refine ⟨ret, fun released => ?_⟩
            rw [colorsLoop_cons hnull hop, hcall, wanted_cons hop, handed, hstop,
              if_neg Bool.false_ne_true, if_neg Bool.false_ne_true]
            exact h released
      · rw [stopsKept_skip hop ⟨hnull, fun h => absurd h hop⟩, ← ih, wanted_skip hop]
        simp only [colorsLoop_skip hnull hop]

end

/-- Without a callback the loop comes to its end or to an entry that is not there. -/
theorem not_colorsLoop_none (log : List Call) (ret : UInt32) (pcos : List Tl) :
    ¬ ∀ released, (colorsLoop none released log pcos).2 = .ok ret := by
  induction pcos with
  | nil => exact not_returns_released ret
  | cons pco pcos ih =>
    intro h
    cases hnull : pco.isNull with
    | true =>
      have := h .null
      rw [colorsLoop_null hnull] at this
      cases this
    | false =>
      refine ih fun released => ?_
      have := h released
      unfold colorsLoop at this
      rw [if_neg (by rw [hnull]; decide)] at this
      split_ifs at this <;> exact this

/-! ## A reply -/

/-- Either the reply has no array of options, or the callback asks to stop at one of them, and up
to it all is kept. -/
def Stopped (callback : Option Callback) (tl : Tl) : Prop :=
  ∀ pcos, optionsOf tl = some pcos → ∃ f, callback = some f ∧ StopsKept f [] pcos

theorem tgGetColors_of_none {query : Bytes} {tgSendQuerySync : Bytes → Tl}
    (h : optionsOf (tgSendQuerySync query) = none) (callback : Option Callback) (released : Tl) :
    tgGetColors query tgSendQuerySync callback released = ([], .ok 0) := by
  unfold optionsOf at h
  unfold tgGetColors
  dsimp only
  split_ifs with hnull hid
  · rfl
  · rw [if_pos hid] at h
    rw [h]
  · rfl

theorem tgGetColors_of_some {query : Bytes} {tgSendQuerySync : Bytes → Tl} {pcos : List Tl}
    (h : optionsOf (tgSendQuerySync query) = some pcos) (callback : Option Callback)
    (released : Tl) : tgGetColors query tgSendQuerySync callback released =
      colorsLoop callback released [] pcos := by
  unfold optionsOf at h
  unfold tgGetColors
  dsimp only
  split_ifs at h with hid
  rw [if_neg (by rw [isNull_of_id hid (by decide)]; decide), if_pos hid, h]

theorem keepsSlots_tgGetColors (query : Bytes) (tgSendQuerySync : Bytes → Tl)
    (callback : Option Callback) :
    KeepsSlots (tgGetColors query tgSendQuerySync callback) callback (tgSendQuerySync query) ↔
      Stopped callback (tgSendQuerySync query) := by
  unfold KeepsSlots Stopped
  cases hoptions : optionsOf (tgSendQuerySync query) with
  | none =>
    refine iff_of_true ⟨0, fun released => ?_⟩ fun pcos h => by cases h
    rw [tgGetColors_of_none hoptions]
    cases callback <;> rfl
  | some pcos =>
    simp only [tgGetColors_of_some hoptions, Option.getD_some, Option.some.injEq, forall_eq']
    cases callback with
    | none =>
      refine iff_of_false ?_ ?_
      · rintro ⟨ret, h⟩
        exact not_colorsLoop_none [] ret pcos fun released => congrArg Prod.snd (h released)
      · rintro ⟨f, hf, -⟩
        cases hf
    | some f =>
      simp only [Option.some.injEq, exists_eq_left']
      exact colorsLoop_due_iff f [] pcos

/-- Both functions hand over the colours in their places and return a number of the reply itself if
and only if the callback stops them before the reply is released. -/
theorem keepsSlots_iff (tgSendQuerySync : Bytes → Tl) (callback : Option Callback) :
    (KeepsSlots (tgGetPeerColors tgSendQuerySync callback) callback
        (tgSendQuerySync (tlHelpGetPeerColors 0)) ↔
      Stopped callback (tgSendQuerySync (tlHelpGetPeerColors 0))) ∧
    (KeepsSlots (tgGetPeerProfileColors tgSendQuerySync callback) callback
        (tgSendQuerySync (tlHelpGetPeerProfileColors 0)) ↔
      Stopped callback (tgSendQuerySync (tlHelpGetPeerProfileColors 0))) :=
  ⟨keepsSlots_tgGetColors _ _ _, keepsSlots_tgGetColors _ _ _⟩

/-- A reply with one option, whose light set has three colours. -/
def threeColors : Tl :=
  .object idHelpPeerColors [] [.int 7, .vector 1 [.object idHelpPeerColorOption [] [.zero, .zero,
    .int 5, .object idHelpPeerColorSet [] [.vector 3 [.int 1, .int 2, .int 3]]]]]

/-- The second place gets the third colour, and the number is read after the release. -/
theorem not_keepsSlots :
    (∀ released, (tgGetPeerColors (fun _ => threeColors) (some fun _ => 1) released).1 =
      [⟨5, ⟨1, 3, 0⟩, ⟨0, 0, 0⟩⟩]) ∧
    (∀ released, (tgGetPeerColors (fun _ => threeColors) none released).2 =
      .ok (released.field 0).int?) ∧
    ¬ KeepsSlots (tgGetPeerColors (fun _ => threeColors) (some fun _ => 1)) (some fun _ => 1)
      threeColors ∧
    ¬ KeepsSlots (tgGetPeerColors (fun _ => threeColors) none) none threeColors := by
  refine ⟨fun _ => rfl, fun _ => rfl, ?_, ?_⟩
  · rintro ⟨ret, h⟩
    have hcalls : [⟨5, ⟨1, 3, 0⟩, ⟨0, 0, 0⟩⟩] = [(⟨5, ⟨1, 2, 3⟩, ⟨0, 0, 0⟩⟩ : Call)] :=
      congrArg Prod.fst (h .null)
    exact absurd hcalls (by decide)
  · rintro ⟨ret, h⟩
    exact not_returns_released ret fun released => congrArg Prod.snd (h released)

end Libtg.PeerColors
