import Libtg.Tg.Message

/-!
# What a received object makes a query thread do (`handle_tl` in `tg/queue.c`)

`handle_tl` is a `switch` over the id of a decoded object. Its model answers the calls of the case
in their order, the call of `handle_tl` on what a container or a compressed block holds among them;
the thread makes them one after the other. Logging is left out.
-/

namespace Libtg

/-! ## `handle_tl` -/

/-- The calls a query thread makes for a message. -/
inductive Call where
  /-- `tg_add_msgid`. -/
  | addMsgid (msgId : UInt64)
  /-- `tl_deserialize` of a body, and `handle_tl` of its answer. -/
  | message (body : Bytes)
  | handleTl (tl : Tl)
  /-- `catched_tl`. -/
  | catchedTl (msgId : UInt64) (tl : Tl)
  /-- `ntp_time_diff`. -/
  | timeDiff
  /-- `tg_do_updates`. -/
  | doUpdates (tl : Tl)

/-- `handle_tl`, without its recursion. `gunzip` is `gunzip_buf`, whose failure is only reported;
`none` is the read from `NULL` in a container without its array. -/
def handleTl (gunzip : Bytes → Gunzipped) (tl : Tl) : Option (List Call) :=
  if tl.id = idGzipPacked then some [.message (gunzip tl.packedData).buf]
  else if tl.id = idMsgContainer then
    tl.messages.map fun ms => ms.flatMap fun m => [.addMsgid m.1, .message m.2]
  else if tl.id = idBadMsgNotification then some [.timeDiff]
  else if tl.id = idMsgDetailedInfo then some [.catchedTl tl.answerMsgId .null]
  else if tl.id = idMsgNewDetailedInfo then some [.catchedTl tl.answerMsgId .null]
  else if tl.id = idRpcResult then some [.catchedTl tl.reqMsgId tl.result]
  else if isUpdates tl.id then some [.doUpdates tl]
  else some []

variable {gunzip : Bytes → Gunzipped} {tl : Tl} {calls : List Call}

/-- The calls of `handle_tl` itself: `catched_tl` only for an answer, and no `handle_tl` but through
a message. -/
theorem handleTl_calls (h : handleTl gunzip tl = some calls) :
    (∀ msgId x, .catchedTl msgId x ∈ calls → Answers tl msgId) ∧
      ∀ x, .handleTl x ∉ calls := by
  unfold handleTl at h
  split_ifs at h with h₁ h₂ h₃ h₄ h₅ h₆ h₇
  · cases h
    simp
  · rw [Option.map_eq_some_iff] at h
    obtain ⟨ms, -, rfl⟩ := h
    simp
  · cases h
    simp
  · cases h
    simp [Answers, h₄]
  · cases h
    simp [Answers, h₅]
  · cases h
    simp [Answers, h₆]
  · cases h
    simp
  · cases h
    simp

theorem handleTl_rpcResult (h : tl.id = idRpcResult) :
    handleTl gunzip tl = some [.catchedTl tl.reqMsgId tl.result] := by
  simp [handleTl, h, idRpcResult, idGzipPacked, idMsgContainer, idBadMsgNotification,
    idMsgDetailedInfo, idMsgNewDetailedInfo]

/-! ## `catched_tl`

What becomes of the answer once the query is found and locked. -/

/-- The argument of `on_done`. A compressed answer is inflated first; that its bytes end inside of
an object is `none`. -/
def onDoneArg (S : Schema) (gunzip : Bytes → Gunzipped) (tl : Tl) : Option Tl :=
  match tl with
  | .null => some .null
  | tl =>
    if tl.id = idGzipPacked then
      let buf := gunzip tl.packedData
      if buf.ok then (tlDeserialize S buf.buf).map (·.1) else some .null
    else if tl.id = idBadMsgNotification then some .null
    else some tl

/-- Whether `catched_tl` gets as far as `queue->loop = false`. -/
def stopsLoop : Tl → Bool
  | .null => false
  | _ => true

end Libtg
