import Libtg.TlGenerator.Wire

/-!
# What a decoded object holds

The nested objects of a decoded object carry the bytes they were read from, and reading these again
gives them again; the bodies of its messages are shorter than the object.
-/

namespace Libtg

open LittleEndian Cursor

/-- A field read from a buffer of at most `n` bytes. -/
structure Held (S : Schema) (n : Nat) (x : Tl) : Prop where
  rereads : ∀ id b fields, x = .object id b fields → ∃ t, tlDeserialize S b = some (x, t)
  bodies : ∀ len xs, x = .vector len xs →
    ∀ msgId seqno bytes body, .message msgId seqno bytes body ∈ xs → body.length ≤ n

variable {S : Schema} {n : Nat} {x : Tl}

theorem held_zero : Held S n .zero := ⟨nofun, nofun⟩

theorem held_pending (len : UInt32) (data : Bytes) : Held S n (.pending len data) :=
  ⟨nofun, nofun⟩

theorem gives_tlDeserialize : Gives n (tlDeserialize S) (Held S n) := by
  intro b x t _ h
  rcases tlDeserialize_buf h with rfl | ⟨id, fields, rfl⟩
  · exact ⟨nofun, nofun⟩
  · refine ⟨fun id' b' fields' hx => ?_, nofun⟩
    cases hx
    exact ⟨t, h⟩

/-- An element of a vector that is a message has a body within the buffer. -/
theorem gives_deserializeElem (e : Elem) :
    Gives n (deserializeElem (tlDeserialize S) e) fun x =>
      ∀ msgId seqno bytes body, x = .message msgId seqno bytes body → body.length ≤ n := by
  have hobject : Gives n (tlDeserialize S) fun x =>
      ∀ msgId seqno bytes body, x = .message msgId seqno bytes body → body.length ≤ n := by
    intro b x t _ h
    rcases tlDeserialize_buf h with rfl | ⟨id, fields, rfl⟩ <;> nofun
  cases e with
  | int | long | double | string | bytes => exact Gives.map (Gives.of_all fun _ => nofun)
  | bool =>
    exact Gives.bind shortens_deserializeUi32.weaken (Gives.of_all fun _ => trivial)
      fun _ _ => Gives.pure nofun
  | message =>
    refine Gives.bind shortens_deserializeUi64 (Gives.of_all fun _ => trivial) fun msgId _ => ?_
    refine Gives.bind shortens_deserializeUi32.weaken (Gives.of_all fun _ => trivial)
      fun seqno _ => ?_
    refine Gives.bind shortens_deserializeUi32.weaken (Gives.of_all fun _ => trivial)
      fun bytes _ => ?_
    have hbody : Gives n (deserializeBody bytes) fun body => body.length ≤ n := by
      rw [deserializeBody]
      split_ifs
      · exact gives_takeBytes _
      · exact Gives.overrun
    have hshort : Shortens 0 (deserializeBody bytes) := by
      rw [deserializeBody]
      split_ifs
      · exact (shortens_takeBytes _).weaken
      · exact Shortens.overrun
    refine Gives.bind hshort hbody fun body hlen => Gives.pure ?_
    intro msgId' seqno' bytes' body' hx
    cases hx
    exact hlen
  | int128 | int256 | true | object => exact hobject

theorem gives_deserializeField (ty : Ty) :
    Gives n (deserializeField S (tlDeserialize S) ty) fun r => Held S n r.1 := by
  have hleaf : ∀ {α : Type} {c : Cursor α} {g : α → Tl × Bool},
      (∀ a, Held S n (g a).1) → Gives n (g <$> c) fun r => Held S n r.1 := fun h =>
    Gives.map (Gives.of_all h)
  have hrec : Shortens 0 (tlDeserialize S) := fun b => shortens_tlDeserializeN S b.length b
  cases ty with
  | int | long | double | string | bytes | int128 | int256 => exact hleaf fun _ => ⟨nofun, nofun⟩
  | true => exact Gives.pure ⟨nofun, nofun⟩
  | bool =>
    refine Gives.map (Gives.bind shortens_deserializeUi32.weaken (Gives.of_all fun _ => trivial)
      fun _ _ => Gives.pure ⟨nofun, nofun⟩)
  | vector e =>
    refine Gives.bind shortens_deserializeVectorLen (Gives.of_all fun _ => trivial) fun len _ => ?_
    split_ifs
    · refine Gives.pure ⟨nofun, fun len' xs hx => ?_⟩
      cases hx
      nofun
    · refine Gives.bind ((shortens_deserializeElem hrec e).times _)
        (Gives.times (shortens_deserializeElem hrec e) (gives_deserializeElem e) _)
        fun xs hxs => Gives.pure ⟨nofun, fun len' xs' hx => ?_⟩
      cases hx
      exact fun msgId seqno bytes body hm => hxs _ hm msgId seqno bytes body rfl
  | message | object => exact Gives.map gives_tlDeserialize

theorem gives_deserializeArgs (as : List Arg) (flags : List UInt32) :
    Gives n (deserializeArgs S (tlDeserialize S) as flags) fun xs => ∀ x ∈ xs, Held S n x := by
  have hrec : Shortens 0 (tlDeserialize S) := fun b => shortens_tlDeserializeN S b.length b
  have hskip : ∀ {as : List Arg} {flags : List UInt32},
      Gives n (deserializeArgs S (tlDeserialize S) as flags) (fun xs => ∀ x ∈ xs, Held S n x) →
        Gives n ((Tl.zero :: ·) <$> deserializeArgs S (tlDeserialize S) as flags)
          fun xs => ∀ x ∈ xs, Held S n x := fun h =>
    Gives.map fun b xs t hb hxs =>
      List.forall_mem_cons.mpr ⟨held_zero, h b xs t hb hxs⟩
  induction as generalizing flags with
  | nil => exact Gives.pure (by simp)
  | cons a as ih =>
    rw [deserializeArgs]
    split
    · split_ifs
      · exact Gives.bind shortens_deserializeUi32.weaken (Gives.of_all fun _ => trivial)
          fun _ _ => hskip (ih _)
      · exact hskip (ih _)
    · split
      · exact Gives.overrun
      · exact hskip (ih _)
      · refine Gives.bind (shortens_deserializeField hrec _) (gives_deserializeField _)
          fun r hx => ?_
        obtain ⟨x, more⟩ := r
        dsimp only at hx ⊢
        split_ifs
        · exact Gives.map fun b xs t hb hxs => List.forall_mem_cons.mpr ⟨hx, ih _ b xs t hb hxs⟩
        · refine Gives.pure (List.forall_mem_cons.mpr ⟨hx, ?_⟩)
          simp only [List.mem_map, forall_exists_index, and_imp]
          rintro x a _ rfl
          exact held_zero

/-- The fields of an object `tl_deserialize` returns. -/
theorem tlDeserialize_held {b b' t : Bytes} {id : UInt32} {fields : List Tl}
    (h : tlDeserialize S b = some (.object id b' fields, t)) :
    4 ≤ b.length ∧ ∀ x ∈ fields, Held S (b.length - 4) x := by
  obtain ⟨w, c, hb, ⟨-, hnull, -⟩ | ⟨-, e, -, hm⟩⟩ := tlDeserialize_eq_some h
  · cases hnull
  have hlen : 4 ≤ b.length := by
    rw [hb, List.length_append, le32_length]
    omega
  refine ⟨hlen, ?_⟩
  obtain ⟨id', u, v, head, args, hu, hhead, hargs, hx⟩ := tlDeserializeMethod_eq_some hm
  cases hx
  have hu' := congrArg List.length hu
  rw [List.length_append, le32_length] at hu'
  have hv : v.length + 0 ≤ u.length := shortens_deserializeVectorHead e.method _ _ _ hhead
  intro x hx
  obtain hx | hx := List.mem_append.mp hx
  · obtain ⟨-, len, -, rfl⟩ | ⟨-, rfl, -⟩ := deserializeVectorHead_eq_some hhead
    · rw [List.mem_singleton.mp hx]
      exact held_pending len v
    · cases hx
  · exact gives_deserializeArgs e.method.args [] v args t (by omega) hargs x hx

end Libtg
