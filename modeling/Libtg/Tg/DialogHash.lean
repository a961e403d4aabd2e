import Libtg.Lib.Xorshift
import Libtg.Tg.Dialogs
import Mathlib.Data.FinEnum
import Mathlib.Data.UInt

/-!
# The hash of the dialogs (`tg/tg.c`, `tg/dialogs.c`)

`tg_dialogs_from_tl` mixes the top message of a dialog into `*hash` just before the callback gets
the dialog, the one it stops at included. So the hash that is left is that of what was handed over
(`foldl_hashedLoop`), and as `update_hash` loses nothing (`nextHash_bijective`), so is the hash it
began with.
-/

namespace Libtg.FromTl

open Database Xorshift

/-- What `update_hash` makes of the word. -/
def nextHash (h : UInt64) (msgId : UInt32) : UInt64 :=
  let h := h ^^^ (h >>> 21)
  let h := h ^^^ (h <<< 35)
  let h := h ^^^ (h >>> 4)
  h + msgId.toUInt64

/-- `update_hash`. -/
def updateHash (hash : Option UInt64) (msgId : UInt32) : Option UInt64 :=
  hash.map fun h => nextHash h msgId

/-- `d.top_message_id`. -/
def topMessageId (p : Made) : UInt32 := (p.2.int "top_message_id").toUInt32

section
variable (T : Texts) (onLog : Bool) (md : Dialogs)

/-- The loop with `*hash`. -/
def hashedLoop (stack : Nat → TlDialog) (callback : Option (List Record → Int)) (i n : Nat)
    (hash : Option UInt64) (log : List Made) :
    List Tl → Option UInt64 × List Made × Except Fault Nat
  | [] => (hash, log, .ok n)
  | entry :: entries =>
    match dialogOf T onLog md (stack i) entry with
    | .error fault => (hash, log, .error fault)
    | .ok none => hashedLoop stack callback (i + 1) n hash log entries
    | .ok (some d) =>
      let hash := updateHash hash (topMessageId (entry, d))
      match callback with
      | none => hashedLoop stack callback (i + 1) (n + 1) hash log entries
      | some f =>
        let log := log ++ [(entry, d)]
        if stopsAt f log then (hash, log, .ok n)
        else hashedLoop stack callback (i + 1) (n + 1) hash log entries

end

/-- `tg_dialogs_from_tl`, with what is left in `*hash`. -/
def tgDialogsFromTlHashed (T : Texts) (onLog : Bool) (stack : Nat → TlDialog)
    (callback : Option (List Record → Int)) (hash : Option UInt64) (tl : Tl) :
    Option UInt64 × List Made × Except Fault Nat :=
  match dialogsOf tl with
  | none => (hash, [], .ok 0)
  | some md =>
    match md.dialogs.elements with
    | none => (hash, [], .ok 0)
    | some entries => hashedLoop T onLog md stack callback 0 0 hash [] entries

/-! ## What the hash covers -/

section
variable {T : Texts} {onLog : Bool} {md : Dialogs} {stack : Nat → TlDialog}

/-- The hash changes nothing else. -/
theorem hashedLoop_snd (callback : Option (List Record → Int)) (i n : Nat) (hash : Option UInt64)
    (log : List Made) (entries : List Tl) :
    (hashedLoop T onLog md stack callback i n hash log entries).2
      = dialogsLoop T onLog md stack callback i n log entries := by
  induction entries generalizing i n hash log with
  | nil => rfl
  | cons entry entries ih =>
    rw [hashedLoop, dialogsLoop]
    cases dialogOf T onLog md (stack i) entry with
    | error fault => rfl
    | ok made =>
      cases made with
      | none => exact ih (i + 1) n hash log
      | some d =>
        cases callback with
        | none => exact ih (i + 1) (n + 1) _ log
        | some f =>
          dsimp only
          by_cases hstops : stopsAt f (log ++ [(entry, d)]) = true
          · rw [if_pos hstops, if_pos hstops]
          · rw [if_neg hstops, if_neg hstops]
            exact ih (i + 1) (n + 1) _ _

/-- In each round the hash is that of the dialogs handed over so far. -/
theorem foldl_hashedLoop (f : List Record → Int) (h : UInt64) (i n : Nat) (log : List Made)
    (entries : List Tl) :
    (hashedLoop T onLog md stack (some f) i n (some ((log.map topMessageId).foldl nextHash h)) log
        entries).1
      = some (((hashedLoop T onLog md stack (some f) i n
          (some ((log.map topMessageId).foldl nextHash h)) log entries).2.1.map topMessageId).foldl
            nextHash h) := by
  induction entries generalizing i n log with
  | nil => rfl
  | cons entry entries ih =>
    unfold hashedLoop
    split
    · rfl
    · exact ih (i + 1) n log
    · next d _ =>
      have hupdate : updateHash (some ((log.map topMessageId).foldl nextHash h))
          (topMessageId (entry, d))
            = some (((log ++ [(entry, d)]).map topMessageId).foldl nextHash h) := by
        rw [List.map_append, List.foldl_append]
        rfl
      rw [hupdate]
      dsimp only
      split
      · rfl
      · exact ih (i + 1) (n + 1) (log ++ [(entry, d)])

end

theorem tgDialogsFromTlHashed_snd (T : Texts) (onLog : Bool) (stack : Nat → TlDialog)
    (callback : Option (List Record → Int)) (hash : Option UInt64) (tl : Tl) :
    (tgDialogsFromTlHashed T onLog stack callback hash tl).2
      = tgDialogsFromTl T onLog stack callback tl := by
  unfold tgDialogsFromTlHashed tgDialogsFromTl
  cases dialogsOf tl with
  | none => rfl
  | some md =>
    dsimp only
    cases md.dialogs.elements with
    | none => rfl
    | some entries => exact hashedLoop_snd callback 0 0 hash [] entries

/-! ## Nothing is forgotten -/

theorem injective_of_toBitVec {f : UInt64 → UInt64} {g : BitVec 64 → BitVec 64}
    (hfg : ∀ x, (f x).toBitVec = g x.toBitVec) (hg : Function.Injective g) :
    Function.Injective f := by
  intro x y h
  refine UInt64.toBitVec_inj.mp (hg ?_)
  rw [← hfg, ← hfg, h]

theorem nextHash_bijective (msgId : UInt32) : Function.Bijective fun h => nextHash h msgId := by
  have h21 : Function.Injective fun h : UInt64 => h ^^^ (h >>> 21) :=
    injective_of_toBitVec (fun _ => rfl) (xor_ushiftRight_injective (by decide : 0 < 21))
  have h35 : Function.Injective fun h : UInt64 => h ^^^ (h <<< 35) :=
    injective_of_toBitVec (fun _ => rfl) (xor_shiftLeft_injective (by decide : 0 < 35))
  have h4 : Function.Injective fun h : UInt64 => h ^^^ (h >>> 4) :=
    injective_of_toBitVec (fun _ => rfl) (xor_ushiftRight_injective (by decide : 0 < 4))
  have hadd : Function.Injective fun h : UInt64 => h + msgId.toUInt64 := add_left_injective _
  exact Finite.injective_iff_bijective.mp (hadd.comp (h4.comp (h35.comp h21)))

end Libtg.FromTl
