import Libtg.Tg.Wrapping

/-!
# Packets as trees

What a server puts into a packet is a message, a container of messages, or a compressed block, and
containers and blocks hold the same again. A `Packet` is such a tree over decoded objects, and
`Decodes` says that the objects of its containers and blocks hold what the tree has below them.
`handle_tl` acknowledges exactly the messages of the tree (`handleTlN_msgids`).
-/

namespace Libtg

mutual

inductive Packet where
  | leaf (tl : Tl)
  | container (tl : Tl) (ms : Messages)
  | gzip (tl : Tl) (p : Packet)

/-- The messages of a container, with their ids. -/
inductive Messages where
  | nil
  | cons (msgId : UInt64) (p : Packet) (ms : Messages)

end

/-- The object that is decoded first. -/
def Packet.root : Packet → Tl
  | .leaf tl => tl
  | .container tl _ => tl
  | .gzip tl _ => tl

mutual

/-- The messages that only stand for themselves, from left to right. -/
def Packet.leaves : Packet → List Tl
  | .leaf tl => [tl]
  | .container _ ms => ms.leaves
  | .gzip _ p => p.leaves

def Messages.leaves : Messages → List Tl
  | .nil => []
  | .cons _ p ms => p.leaves ++ ms.leaves

end

mutual

/-- The ids the server gave to the messages of the containers. -/
def Packet.serverIds : Packet → List UInt64
  | .leaf _ => []
  | .container _ ms => ms.serverIds
  | .gzip _ p => p.serverIds

def Messages.serverIds : Messages → List UInt64
  | .nil => []
  | .cons msgId p ms => msgId :: (p.serverIds ++ ms.serverIds)

end

mutual

/-- Nothing is compressed. -/
def Packet.NoGzip : Packet → Prop
  | .leaf _ => True
  | .container _ ms => ms.NoGzip
  | .gzip _ _ => False

def Messages.NoGzip : Messages → Prop
  | .nil => True
  | .cons _ p ms => p.NoGzip ∧ ms.NoGzip

end

mutual

/-- The objects hold what is below them, and a leaf holds nothing. -/
def Packet.Decodes (S : Schema) (gunzip : Bytes → Gunzipped) : Packet → Prop
  | .leaf tl => tl.id ≠ idMsgContainer ∧ tl.id ≠ idGzipPacked
  | .container tl ms => tl.id = idMsgContainer ∧
      ∃ bodies, tl.messages = some bodies ∧ ms.Decodes S gunzip bodies
  | .gzip tl p => tl.id = idGzipPacked ∧
      (∃ b t, gunzip tl.packedData = ⟨true, b⟩ ∧ tlDeserialize S b = some (p.root, t)) ∧
      p.Decodes S gunzip

def Messages.Decodes (S : Schema) (gunzip : Bytes → Gunzipped) :
    Messages → List (UInt64 × Bytes) → Prop
  | .nil, bodies => bodies = []
  | .cons msgId p ms, bodies => ∃ b t rest, bodies = (msgId, b) :: rest ∧
      tlDeserialize S b = some (p.root, t) ∧ p.Decodes S gunzip ∧ ms.Decodes S gunzip rest

end

namespace Receiving

section
variable {W : Setting} {i n : Nat} {r r' : Receiver} {tl : Tl}

theorem lift_bind_eq_some {α β : Type} {x : Option α} {f : α → RecvM β} {out : β × Receiver}
    (h : ((liftM x : RecvM α) >>= f) r = some out) : ∃ a, x = some a ∧ f a r = some out := by
  cases x with
  | none => cases h
  | some a => exact ⟨a, rfl, h⟩

theorem forM_cons_eq_some {γ : Type} {f : γ → RecvM Unit} {c : γ} {cs : List γ}
    {out : Unit × Receiver} (h : (c :: cs).forM f r = some out) :
    ∃ r₁, f c r = some ((), r₁) ∧ cs.forM f r₁ = some out := by
  obtain ⟨⟨_, r₁⟩, hc, hcs⟩ := Option.bind_eq_some_iff.mp h
  exact ⟨r₁, hc, hcs⟩

theorem forM_singleton {γ : Type} (f : γ → RecvM Unit) (c : γ) : [c].forM f = f c := bind_pure _

theorem handleTlN_of_calls {calls : List Call} (h : handleTl W.gunzip tl = some calls) :
    handleTlN W i (n + 1) tl = calls.forM (runCall W i (handleTlN W i n)) := by
  rw [handleTlN, lift_bind_of_some h]

theorem handleTlN_eq_some {out : Unit × Receiver} (h : handleTlN W i n tl r = some out) :
    ∃ k calls, n = k + 1 ∧ handleTl W.gunzip tl = some calls ∧
      calls.forM (runCall W i (handleTlN W i k)) r = some out := by
  cases n with
  | zero => cases h
  | succ k =>
    obtain ⟨calls, hcalls, hrun⟩ := lift_bind_eq_some h
    exact ⟨k, calls, rfl, hcalls, hrun⟩

theorem handleTl_gzip (h : tl.id = idGzipPacked) :
    handleTl W.gunzip tl = some [.message (W.gunzip tl.packedData).buf] := by
  rw [handleTl, if_pos h]

theorem handleTl_container {bodies : List (UInt64 × Bytes)} (h : tl.id = idMsgContainer)
    (hms : tl.messages = some bodies) : handleTl W.gunzip tl =
      some (bodies.flatMap fun m => [.addMsgid m.1, .message m.2]) := by
  rw [handleTl, h, if_neg (by decide), if_pos rfl, hms]
  rfl

theorem catchedTl_tg {msgId : UInt64} {x : Tl} {out : Unit × Receiver}
    (h : catchedTl W i msgId x r = some out) : out.2.tg.msgids = r.tg.msgids := by
  rw [catchedTl] at h
  cases hfind : r.queries.find msgId with
  | none =>
    rw [hfind] at h
    cases h
    rfl
  | some q =>
    rw [hfind] at h
    obtain ⟨arg, -, rfl⟩ := Option.map_eq_some_iff.mp h
    dsimp only
    split_ifs <;> rfl

/-- A call that queues no acknowledgement and opens nothing. -/
def Call.IsPlain : Call → Prop
  | .addMsgid _ | .message _ | .handleTl _ => False
  | _ => True

/-- A leaf leads to plain calls. -/
theorem handleTl_leaf {calls : List Call} (hcontainer : tl.id ≠ idMsgContainer)
    (hgzip : tl.id ≠ idGzipPacked) (h : handleTl W.gunzip tl = some calls) :
    calls = [] ∨ ∃ call, calls = [call] ∧ Call.IsPlain call := by
  rw [handleTl, if_neg hgzip, if_neg hcontainer] at h
  split_ifs at h <;> cases h
  · exact .inr ⟨_, rfl, trivial⟩
  · exact .inr ⟨_, rfl, trivial⟩
  · exact .inr ⟨_, rfl, trivial⟩
  · exact .inr ⟨_, rfl, trivial⟩
  · exact .inr ⟨_, rfl, trivial⟩
  · exact .inl rfl

theorem runCall_msgids {rec : Tl → RecvM Unit} {call : Call} {out : Unit × Receiver}
    (hcall : Call.IsPlain call) (h : runCall W i rec call r = some out) :
    out.2.tg.msgids = r.tg.msgids := by
  cases call with
  | catchedTl msgId x => exact catchedTl_tg h
  | timeDiff | doUpdates _ =>
    cases h
    rfl
  | addMsgid _ | message _ | handleTl _ => exact absurd hcall id

theorem handleTlN_leaf_msgids {out : Unit × Receiver} (hcontainer : tl.id ≠ idMsgContainer)
    (hgzip : tl.id ≠ idGzipPacked) (h : handleTlN W i n tl r = some out) :
    out.2.tg.msgids = r.tg.msgids := by
  obtain ⟨k, calls, rfl, hcalls, hrun⟩ := handleTlN_eq_some h
  rcases handleTl_leaf hcontainer hgzip hcalls with rfl | ⟨call, rfl, hcall⟩
  · cases hrun
    rfl
  · rw [forM_singleton] at hrun
    exact runCall_msgids hcall hrun

mutual

/-- `handle_tl` queues the ids of the messages of the packet, each once and in their order. -/
theorem handleTlN_msgids {out : Unit × Receiver} : ∀ (p : Packet) (n : Nat) (r : Receiver),
    p.Decodes W.schema W.gunzip → handleTlN W i n p.root r = some out →
      out.2.tg.msgids = r.tg.msgids ++ p.serverIds
  | .leaf tl, n, r, hp, h => by
    rw [handleTlN_leaf_msgids hp.1 hp.2 h]
    exact (List.append_nil _).symm
  | .container tl ms, n, r, ⟨hid, bodies, hbodies, hms⟩, h => by
    obtain ⟨k, calls, rfl, hcalls, hrun⟩ := handleTlN_eq_some h
    cases (handleTl_container hid hbodies).symm.trans hcalls
    exact forM_messages_msgids ms bodies k r hms hrun
  | .gzip tl p, n, r, ⟨hid, ⟨b, t, hb, hroot⟩, hp⟩, h => by
    obtain ⟨k, calls, rfl, hcalls, hrun⟩ := handleTlN_eq_some h
    cases (handleTl_gzip hid).symm.trans hcalls
    rw [forM_singleton, runCall, hb, lift_bind_of_some hroot] at hrun
    exact handleTlN_msgids p k r hp hrun

theorem forM_messages_msgids {out : Unit × Receiver} :
    ∀ (ms : Messages) (bodies : List (UInt64 × Bytes)) (n : Nat) (r : Receiver),
      ms.Decodes W.schema W.gunzip bodies →
      (bodies.flatMap fun m => [.addMsgid m.1, .message m.2]).forM
        (runCall W i (handleTlN W i n)) r = some out →
      out.2.tg.msgids = r.tg.msgids ++ ms.serverIds
  | .nil, bodies, n, r, hbodies, h => by
    cases hbodies
    cases h
    exact (List.append_nil _).symm
  | .cons msgId p ms, bodies, n, r, ⟨b, t, rest, hbodies, hroot, hp, hms⟩, h => by
    rw [hbodies, List.flatMap_cons] at h
    obtain ⟨r₁, hadd, h⟩ := forM_cons_eq_some h
    obtain ⟨r₂, hrun, hrest⟩ := forM_cons_eq_some h
    cases hadd
    rw [runCall, lift_bind_of_some hroot] at hrun
    rw [forM_messages_msgids ms rest n r₂ hms hrest,
      handleTlN_msgids p n (r.addMsgid msgId) hp hrun]
    show r.tg.msgids ++ [msgId] ++ p.serverIds ++ ms.serverIds = _
    rw [Messages.serverIds, List.append_assoc, List.append_assoc]
    rfl

end

end

end Receiving

end Libtg
