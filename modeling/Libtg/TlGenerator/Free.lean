import Libtg.TlGenerator.Bounds

/-!
# Releasing what was decoded (`append_free`, `tl_free`)

For each descriptor the generator emits a function that releases the fields of a structure, its copy
of the buffer and the structure itself, and `tl_free` finds the function at the place where
`tl_deserialize` found its own. `freesAll_iff` says which of the structures `tl_deserialize` returns
are released completely, each block once and without a read from an array that is not there.

A block is named by the place it hangs at in the structure, so that no two have one name
(`nodup_owned`).
-/

namespace Libtg

open LittleEndian Cursor

/-! ## Blocks -/

/-- What a block holds: a structure, its `_buf`, the array of a vector, or the bytes of a
`buf_t`. -/
inductive Kind where
  | struct | copy | array | data
  deriving DecidableEq

/-- A block, with the indices on the way to it, the last one first. -/
abbrev Block := List Nat × Kind

mutual
/-- The blocks that can be reached from a field at the place `p`. An array is allocated for a vector
that has elements. -/
def owned (p : List Nat) : Tl → List Block
  | .buf _ => [(p, .data)]
  | .message _ _ _ _ => [(p, .data)]
  | .pending _ _ => [(p, .data)]
  | .vector _ xs => ownedAll p 0 xs ++ if xs.isEmpty then [] else [(p, .array)]
  | .object _ _ fields => ownedAll p 0 fields ++ [(p, .copy), (p, .struct)]
  | .zero | .int _ | .long _ | .double _ | .true | .null => []

def ownedAll (p : List Nat) (i : Nat) : List Tl → List Block
  | [] => []
  | x :: xs => owned (i :: p) x ++ ownedAll p (i + 1) xs
end

/-! ## The emitted functions -/

/-- The call `append_free` emits for a value that is no vector. -/
inductive FreeCall where
  | nothing | bufFree | tlFree
  deriving DecidableEq

/-- The calls in the loop over a vector. -/
def Elem.call : Elem → FreeCall
  | .bytes | .int256 | .int128 | .string => .bufFree
  | .true | .bool | .int | .long | .message | .double => .nothing
  | .object => .tlFree

/-- The calls for a field; of a message it is the body that is released. -/
def Ty.call : Ty → FreeCall
  | .bytes | .int256 | .int128 | .string | .message => .bufFree
  | .true | .bool | .int | .long | .double | .vector _ => .nothing
  | .object => .tlFree

/-- The rounds of `for(i=0; i<tl->len; ++i)`, where `len` is an `int`. -/
def rounds (len : UInt32) : Nat := if len.toNat < 2 ^ 31 then len.toNat else 0

mutual
/-- A call for a value at the place `p`: the blocks it releases in turn, or `none` where it reads
from an array that is not there. The pointers of a field nothing was written to are `NULL`, and an
object whose id is in no table stays as it is. -/
def freeValue (S : Schema) (p : List Nat) : Tl → FreeCall → Option (List Block)
  | _, .nothing => some []
  | .buf _, .bufFree => some [(p, .data)]
  | .zero, .bufFree => some []
  | .zero, .tlFree => some []
  | .null, .tlFree => some []
  | .object id _ fields, .tlFree =>
    match S.getFun id with
    | none => some []
    | some e =>
      (freeFields S p 0 fields (decide (e.method.name = "vector")) e.method.args).map
        (· ++ [(p, .copy), (p, .struct)])
  | _, _ => none

/-- The statements for the arguments, from the `i`-th field of the structure on. The bare `vector`
has `data_` in front. -/
def freeFields (S : Schema) (p : List Nat) (i : Nat) :
    List Tl → Bool → List Arg → Option (List Block)
  | [], false, [] => some []
  | .pending _ _ :: xs, true, as => do
    let rest ← freeFields S p (i + 1) xs false as
    return (i :: p, .data) :: rest
  | x :: xs, false, a :: as => do
    let field :=
      match a.type.map tyOf with
      | none => some []
      | some (.vector e) => freeVector S (i :: p) x e
      | some ty => freeValue S (i :: p) x ty.call
    let first ← field
    let rest ← freeFields S p (i + 1) xs false as
    return first ++ rest
  | _, _, _ => none

/-- The loop over a vector, and the release of its array. -/
def freeVector (S : Schema) (p : List Nat) : Tl → Elem → Option (List Block)
  | .zero, _ => some []
  | .vector len xs, e =>
    (if e.call = .nothing then some [] else freeElems S p 0 xs (rounds len) e.call).map
      (· ++ if xs.isEmpty then [] else [(p, .array)])
  | _, _ => none

def freeElems (S : Schema) (p : List Nat) (i : Nat) :
    List Tl → Nat → FreeCall → Option (List Block)
  | _, 0, _ => some []
  | [], _ + 1, _ => none
  | x :: xs, n + 1, c => do
    let first ← freeValue S (i :: p) x c
    let rest ← freeElems S p (i + 1) xs n c
    return first ++ rest
end

/-- `tl_free`. -/
def tlFree (S : Schema) (tl : Tl) : Option (List Block) := freeValue S [] tl .tlFree

/-- What is asked of `tl_free`: no read from an array that is not there, every block released, and
none of them twice. -/
def FreesAll (S : Schema) (tl : Tl) : Prop :=
  ∃ released, tlFree S tl = some released ∧ released.Nodup ∧
    ∀ block, block ∈ released ↔ block ∈ owned [] tl

mutual
/-- What `append_free` cannot cope with is not in the structure: a vector of strings, byte strings
or objects with a length its array was not allocated for, and the messages of a container. -/
def Releasable (S : Schema) : Tl → Ty → Prop
  | .vector len xs, .vector e =>
    (e = .string ∨ e = .bytes ∨ e = .object → ¬ (100 < len ∧ len.toNat < 2 ^ 31)) ∧
      (e = .message → xs = []) ∧ ReleasableElems S xs e
  | .object id _ fields, .object => ∃ e, S.getFun id = some e ∧
      ReleasableFields S fields (decide (e.method.name = "vector")) e.method.args
  | _, _ => True

def ReleasableElems (S : Schema) : List Tl → Elem → Prop
  | [], _ => True
  | x :: xs, e => (e = .object → Releasable S x .object) ∧ ReleasableElems S xs e

def ReleasableFields (S : Schema) : List Tl → Bool → List Arg → Prop
  | _ :: xs, true, as => ReleasableFields S xs false as
  | x :: xs, false, a :: as =>
    (∀ ty, a.type.map tyOf = some ty → Releasable S x ty) ∧ ReleasableFields S xs false as
  | _, _, _ => True
end

/-- The types whose text compiles: the decoder has no case for a single message, and none for the
elements of these vectors, to which it would assign pointers. -/
def Ty.Emittable : Ty → Prop
  | .message | .vector .int128 | .vector .int256 | .vector .true => False
  | _ => True

/-- The emitted text compiles. -/
def Schema.Compiles (S : Schema) : Prop :=
  ∀ e ∈ S, ∀ a ∈ e.method.args, ∀ ty, a.type.map tyOf = some ty → ty.Emittable

/-! ## What the decoders leave in memory -/

mutual
/-- The fields have values of their types. -/
def Shaped (S : Schema) : Tl → Ty → Prop
  | .zero, _ => True
  | .int _, .int | .int _, .bool | .true, .true | .long _, .long | .double _, .double => True
  | .buf _, .string | .buf _, .bytes | .buf _, .int128 | .buf _, .int256 => True
  | .null, .object => True
  | .object id _ fields, .object => ∃ e, S.getFun id = some e ∧
      ShapedFields S fields (decide (e.method.name = "vector")) e.method.args
  | .vector len xs, .vector e =>
    (len ≤ 100 → xs.length = len.toNat) ∧ (100 < len → xs = []) ∧ ShapedElems S xs e
  | _, _ => False

def ShapedElems (S : Schema) : List Tl → Elem → Prop
  | [], _ => True
  | x :: xs, e =>
    (match e.ty with
      | some ty => Shaped S x ty
      | none => ∃ msgId seqno bytes body, x = .message msgId seqno bytes body) ∧ ShapedElems S xs e

def ShapedFields (S : Schema) : List Tl → Bool → List Arg → Prop
  | [], false, [] => True
  | x :: xs, true, as => (∃ len data, x = .pending len data) ∧ ShapedFields S xs false as
  | x :: xs, false, a :: as =>
    (match a.type.map tyOf with
      | none => x = .zero
      | some ty => Shaped S x ty) ∧ ShapedFields S xs false as
  | _, _, _ => False
end

/-! ## Accounts -/

/-- The call `r` releases blocks of `own` only, in their order, and all of them exactly if `c`. -/
structure Frees (r : Option (List Block)) (own : List Block) (c : Prop) : Prop where
  within (released : List Block) : r = some released → released.Sublist own
  all : r = some own ↔ c

namespace Frees

variable {r r₁ r₂ : Option (List Block)} {own own₁ own₂ : List Block} {c c₁ c₂ : Prop}

theorem some (own : List Block) : Frees (some own) own True :=
  ⟨fun _ h => Option.some.inj h ▸ List.Sublist.refl own, iff_of_true rfl trivial⟩

theorem crash (own : List Block) : Frees none own False :=
  ⟨fun _ h => (by cases h), iff_of_false (by simp) id⟩

/-- Nothing is released of something. -/
theorem nothing (h : own ≠ []) : Frees (Option.some []) own False :=
  ⟨fun _ hr => Option.some.inj hr ▸ List.nil_sublist own,
    iff_of_false (fun hr => h (Option.some.inj hr).symm) id⟩

theorem congr (h : Frees r own c) (hc : c ↔ c₁) : Frees r own c₁ := ⟨h.within, h.all.trans hc⟩

theorem append (h₁ : Frees r₁ own₁ c₁) (h₂ : Frees r₂ own₂ c₂) :
    Frees (do let a ← r₁; let b ← r₂; return a ++ b) (own₁ ++ own₂) (c₁ ∧ c₂) := by
  constructor
  · intro released h
    simp only [Option.bind_eq_bind, Option.bind_eq_some_iff, Option.pure_def] at h
    obtain ⟨a, ha, b, hb, h⟩ := h
    rw [← Option.some.inj h]
    exact (h₁.within a ha).append (h₂.within b hb)
  · constructor
    · intro h
      simp only [Option.bind_eq_bind, Option.bind_eq_some_iff, Option.pure_def] at h
      obtain ⟨a, ha, b, hb, h⟩ := h
      -- neither part can make up for what the other leaves out
      have hlen := congrArg List.length (Option.some.inj h)
      rw [List.length_append, List.length_append] at hlen
      have hle₁ := (h₁.within a ha).length_le
      have hle₂ := (h₂.within b hb).length_le
      have ha' : a = own₁ := (h₁.within a ha).eq_of_length (by omega)
      have hb' : b = own₂ := (h₂.within b hb).eq_of_length (by omega)
      exact ⟨h₁.all.mp (ha' ▸ ha), h₂.all.mp (hb' ▸ hb)⟩
    · rintro ⟨hc₁, hc₂⟩
      rw [h₁.all.mpr hc₁, h₂.all.mpr hc₂]
      rfl

/-- A block more that is released in any case. -/
theorem snoc (h : Frees r own c) (l : List Block) : Frees (r.map (· ++ l)) (own ++ l) c := by
  have happ := h.append (some l)
  rw [and_true] at happ
  cases r <;> exact happ

end Frees

section
variable {S : Schema} {p : List Nat} {i : Nat} {e : Elem} {xs : List Tl}

/-- Elements without blocks. -/
theorem ownedAll_of_scalar (he : e = .int ∨ e = .bool ∨ e = .long ∨ e = .double)
    (h : ShapedElems S xs e) : ownedAll p i xs = [] := by
  induction xs generalizing i with
  | nil => rfl
  | cons x xs ih =>
    rw [ShapedElems] at h
    obtain ⟨hx, hxs⟩ := h
    have hnone : owned (i :: p) x = [] := by
      rcases he with rfl | rfl | rfl | rfl <;> cases x <;> first | rfl | exact hx.elim
    rw [ownedAll, hnone, ih hxs]
    rfl

theorem ownedAll_of_message (h : ShapedElems S xs .message) (hne : xs ≠ []) :
    ownedAll p i xs ≠ [] := by
  cases xs with
  | nil => exact absurd rfl hne
  | cons x xs =>
    rw [ShapedElems] at h
    obtain ⟨⟨msgId, seqno, bytes, body, rfl⟩, -⟩ := h
    rw [ownedAll, owned]
    exact List.cons_ne_nil _ _

theorem releasableElems_of_ne_object (he : e ≠ .object) : ReleasableElems S xs e := by
  induction xs with
  | nil => exact trivial
  | cons x xs ih => exact ⟨fun h => absurd h he, ih⟩

theorem releasable_leaf {x : Tl} {ty : Ty} (hobj : ty ≠ .object) (hvec : ∀ e, ty ≠ .vector e) :
    Releasable S x ty := by
  cases x <;> cases ty <;>
    first | exact absurd rfl hobj | exact absurd rfl (hvec _) | simp only [Releasable]

/-- The loop over a vector whose elements are released one by one. -/
theorem frees_loop {len : UInt32} (he : e = .string ∨ e = .bytes ∨ e = .object)
    (hle : len ≤ 100 → xs.length = len.toNat) (hgt : 100 < len → xs = [])
    (helems : Frees (freeElems S p 0 xs xs.length e.call) (ownedAll p 0 xs)
      (ReleasableElems S xs e)) :
    Frees (freeElems S p 0 xs (rounds len) e.call) (ownedAll p 0 xs)
      (Releasable S (.vector len xs) (.vector e)) := by
  have hmsg : e ≠ .message := by rcases he with rfl | rfl | rfl <;> decide
  rw [Releasable]
  by_cases hlen : len ≤ 100
  · have hrounds : rounds len = xs.length := by
      have hnat : len.toNat ≤ 100 := UInt32.le_iff_toNat_le.mp hlen
      rw [rounds, if_pos (by omega), hle hlen]
    rw [hrounds]
    refine helems.congr ?_
    simp [hmsg, UInt32.not_lt.mpr hlen]
  · obtain rfl := hgt (UInt32.not_le.mp hlen)
    by_cases hsign : len.toNat < 2 ^ 31
    · have hpos : 100 < len.toNat := UInt32.lt_iff_toNat_lt.mp (UInt32.not_le.mp hlen)
      obtain ⟨n, hn⟩ : ∃ n, rounds len = n + 1 := by
        refine ⟨len.toNat - 1, ?_⟩
        rw [rounds, if_pos hsign]
        omega
      rw [hn, freeElems]
      refine (Frees.crash _).congr (iff_of_false id ?_)
      rintro ⟨hshort, -, -⟩
      exact hshort he ⟨UInt32.not_le.mp hlen, hsign⟩
    · rw [rounds, if_neg hsign, freeElems]
      refine (Frees.some _).congr (iff_of_true trivial ?_)
      exact ⟨fun _ h => hsign h.2, fun _ => rfl, trivial⟩

mutual
theorem frees_value (hS : S.Compiles) {x : Tl} (ty : Ty) (hty : ty.Emittable)
    (hvec : ∀ e, ty ≠ .vector e) (h : Shaped S x ty) (p : List Nat) :
    Frees (freeValue S p x ty.call) (owned p x) (Releasable S x ty) := by
  match x with
  | .object id _ fields =>
    cases ty <;> first | exact h.elim | skip
    rw [Shaped] at h
    obtain ⟨e, hfun, hfields⟩ := h
    have hmem : e ∈ S := List.mem_of_find?_eq_some hfun
    have hrest := (frees_fields hS (hS e hmem) hfields p 0).snoc [(p, .copy), (p, .struct)]
    rw [Ty.call, freeValue, hfun, owned]
    refine hrest.congr ?_
    simp only [Releasable, hfun, Option.some.injEq, exists_eq_left']
  | .vector len xs =>
    cases ty <;> first | exact h.elim | skip
    exact absurd rfl (hvec _)
  | .zero | .int _ | .long _ | .double _ | .true | .buf _ | .message _ _ _ _ | .null
  | .pending _ _ =>
    cases ty <;> first | exact h.elim | exact hty.elim | exact absurd rfl (hvec _) | skip
    all_goals
      refine (Frees.some _).congr ?_
      simp only [Releasable]

theorem frees_elems (hS : S.Compiles) {xs : List Tl} {e : Elem}
    (he : e = .string ∨ e = .bytes ∨ e = .object) (h : ShapedElems S xs e) (p : List Nat)
    (i : Nat) :
    Frees (freeElems S p i xs xs.length e.call) (ownedAll p i xs) (ReleasableElems S xs e) := by
  match xs with
  | [] => exact Frees.some []
  | x :: xs =>
    rw [ShapedElems] at h
    obtain ⟨hx, hxs⟩ := h
    have hrest := frees_elems hS he hxs p (i + 1)
    rw [List.length_cons, freeElems, ownedAll, ReleasableElems]
    rcases he with rfl | rfl | rfl
    · exact ((frees_value hS .string trivial (by simp) hx (i :: p)).congr
        (iff_of_true (releasable_leaf (by simp) (by simp)) (by simp))).append hrest
    · exact ((frees_value hS .bytes trivial (by simp) hx (i :: p)).congr
        (iff_of_true (releasable_leaf (by simp) (by simp)) (by simp))).append hrest
    · exact ((frees_value hS .object trivial (by simp) hx (i :: p)).congr
        (by simp)).append hrest

theorem frees_vector (hS : S.Compiles) {x : Tl} {e : Elem} (he : (Ty.vector e).Emittable)
    (h : Shaped S x (.vector e)) (p : List Nat) :
    Frees (freeVector S p x e) (owned p x) (Releasable S x (.vector e)) := by
  match x with
  | .vector len xs =>
    rw [Shaped] at h
    obtain ⟨hle, hgt, hxs⟩ := h
    rw [freeVector, owned]
    refine Frees.snoc ?_ _
    cases e with
    | int128 | int256 | true => exact he.elim
    | int | bool | long | double =>
      rw [if_pos (by decide), ownedAll_of_scalar (by simp) hxs]
      refine (Frees.some []).congr (iff_of_true trivial ?_)
      rw [Releasable]
      exact ⟨by simp, by simp, releasableElems_of_ne_object (by simp)⟩
    | message =>
      rw [if_pos (by decide)]
      by_cases hne : xs = []
      · subst hne
        refine (Frees.some []).congr (iff_of_true trivial ?_)
        rw [Releasable]
        exact ⟨by simp, by simp, trivial⟩
      · refine (Frees.nothing (ownedAll_of_message hxs hne)).congr (iff_of_false id ?_)
        rw [Releasable]
        exact fun h => hne (h.2.1 rfl)
    | string | bytes | object =>
      rw [if_neg (by decide)]
      exact frees_loop (by simp) hle hgt (frees_elems hS (by simp) hxs p 0)
  | .zero => exact (Frees.some []).congr (by simp only [Releasable])
  | .int _ | .long _ | .double _ | .true | .buf _ | .message _ _ _ _ | .null | .pending _ _
  | .object _ _ _ => exact h.elim

theorem frees_fields (hS : S.Compiles) {xs : List Tl} {bare : Bool} {as : List Arg}
    (has : ∀ a ∈ as, ∀ ty, a.type.map tyOf = some ty → ty.Emittable)
    (h : ShapedFields S xs bare as) (p : List Nat) (i : Nat) :
    Frees (freeFields S p i xs bare as) (ownedAll p i xs) (ReleasableFields S xs bare as) := by
  match xs, bare, as with
  | [], false, [] => exact (Frees.some []).congr (by simp only [ReleasableFields])
  | x :: xs, true, as =>
    rw [ShapedFields] at h
    obtain ⟨⟨len, data, rfl⟩, hxs⟩ := h
    have hrest := (Frees.some [(i :: p, Kind.data)]).append (frees_fields hS has hxs p (i + 1))
    rw [true_and] at hrest
    exact hrest
  | x :: xs, false, a :: as =>
    rw [ShapedFields] at h
    obtain ⟨hx, hxs⟩ := h
    have hrest := frees_fields hS (fun a' ha' => has a' (List.mem_cons_of_mem _ ha')) hxs p (i + 1)
    have ha := has a List.mem_cons_self
    rw [freeFields, ownedAll, ReleasableFields]
    refine Frees.append ?_ hrest
    cases hty : a.type.map tyOf with
    | none =>
      rw [hty] at hx
      obtain rfl := hx
      exact (Frees.some []).congr (iff_of_true trivial (by simp))
    | some ty =>
      rw [hty] at hx
      have hsome : (∀ ty', some ty = some ty' → Releasable S x ty') ↔ Releasable S x ty :=
        ⟨fun h => h ty rfl, fun h ty' heq => Option.some.inj heq ▸ h⟩
      cases hvec : ty with
      | vector e =>
        subst hvec
        exact (frees_vector hS (ha _ hty) hx (i :: p)).congr hsome.symm
      | _ =>
        subst hvec
        exact (frees_value hS _ (ha _ hty) (by simp) hx (i :: p)).congr hsome.symm
  | [], true, _ => exact h.elim
  | [], false, _ :: _ => exact h.elim
  | _ :: _, false, [] => exact h.elim
end

end

/-! ## No block has two places -/

mutual
theorem suffix_of_mem_owned {p : List Nat} {x : Tl} {block : Block} (h : block ∈ owned p x) :
    p <:+ block.1 := by
  match x with
  | .buf _ | .message _ _ _ _ | .pending _ _ =>
    rw [owned, List.mem_singleton] at h
    exact h ▸ List.suffix_refl p
  | .vector _ xs =>
    rw [owned, List.mem_append] at h
    obtain h | h := h
    · obtain ⟨j, -, hj⟩ := suffix_of_mem_ownedAll h
      exact (List.suffix_cons j p).trans hj
    · split_ifs at h
      · cases h
      · exact List.mem_singleton.mp h ▸ List.suffix_refl p
  | .object _ _ fields =>
    rw [owned, List.mem_append] at h
    obtain h | h := h
    · obtain ⟨j, -, hj⟩ := suffix_of_mem_ownedAll h
      exact (List.suffix_cons j p).trans hj
    · simp only [List.mem_cons, List.not_mem_nil, or_false] at h
      rcases h with rfl | rfl <;> exact List.suffix_refl p
  | .zero | .int _ | .long _ | .double _ | .true | .null => cases h

theorem suffix_of_mem_ownedAll {p : List Nat} {i : Nat} {xs : List Tl} {block : Block}
    (h : block ∈ ownedAll p i xs) : ∃ j, i ≤ j ∧ (j :: p) <:+ block.1 := by
  match xs with
  | [] => cases h
  | x :: xs =>
    rw [ownedAll, List.mem_append] at h
    obtain h | h := h
    · exact ⟨i, Nat.le_refl i, suffix_of_mem_owned h⟩
    · obtain ⟨j, hij, hj⟩ := suffix_of_mem_ownedAll h
      exact ⟨j, Nat.le_of_succ_le hij, hj⟩
end

/-- The block at a place is not one of those below it. -/
theorem notMem_ownedAll {p : List Nat} {i : Nat} {xs : List Tl} {k : Kind} :
    (p, k) ∉ ownedAll p i xs := by
  intro h
  obtain ⟨j, -, hj⟩ := suffix_of_mem_ownedAll h
  have hlen : (j :: p).length ≤ p.length := hj.length_le
  rw [List.length_cons] at hlen
  omega

mutual
theorem nodup_owned (p : List Nat) (x : Tl) : (owned p x).Nodup := by
  match x with
  | .buf _ | .message _ _ _ _ | .pending _ _ => exact List.nodup_singleton _
  | .vector _ xs =>
    rw [owned]
    split_ifs
    · rw [List.append_nil]
      exact nodup_ownedAll p 0 xs
    · exact (nodup_ownedAll p 0 xs).append (List.nodup_singleton _)
        (List.disjoint_singleton.mpr notMem_ownedAll)
  | .object _ _ fields =>
    rw [owned]
    refine (nodup_ownedAll p 0 fields).append (by simp) ?_
    intro block hblock hown
    simp only [List.mem_cons, List.not_mem_nil, or_false] at hown
    rcases hown with rfl | rfl <;> exact notMem_ownedAll hblock
  | .zero | .int _ | .long _ | .double _ | .true | .null => exact List.nodup_nil

theorem nodup_ownedAll (p : List Nat) (i : Nat) (xs : List Tl) : (ownedAll p i xs).Nodup := by
  match xs with
  | [] => exact List.nodup_nil
  | x :: xs =>
    rw [ownedAll]
    refine (nodup_owned (i :: p) x).append (nodup_ownedAll p (i + 1) xs) ?_
    intro block hx hxs
    obtain ⟨j, hij, hj⟩ := suffix_of_mem_ownedAll hxs
    have heq : i :: p = j :: p := by
      have hsub := List.suffix_of_suffix_length_le (suffix_of_mem_owned hx) hj (by simp)
      exact hsub.eq_of_length (by simp)
    cases heq
    omega
end

variable {S : Schema}

/-- The account of `tl_free` is in order exactly where every block is released. -/
theorem freesAll_iff_of_shaped (hS : S.Compiles) {tl : Tl} (h : Shaped S tl .object) :
    FreesAll S tl ↔ Releasable S tl .object := by
  have hfrees : Frees (tlFree S tl) (owned [] tl) (Releasable S tl .object) :=
    frees_value hS .object trivial (by simp) h []
  constructor
  · rintro ⟨released, hfree, hnodup, hmem⟩
    have hperm : released.Perm (owned [] tl) :=
      (List.perm_ext_iff_of_nodup hnodup (nodup_owned [] tl)).mpr hmem
    have heq : released = owned [] tl :=
      (hfrees.within released hfree).eq_of_length hperm.length_eq
    exact hfrees.all.mp (heq ▸ hfree)
  · intro hrel
    exact ⟨owned [] tl, hfrees.all.mpr hrel, nodup_owned [] tl, fun _ => Iff.rfl⟩

/-! ## The decoders give every field a value of its type -/

section
variable {n : Nat} {rec : Cursor Tl}

theorem shaped_zero (ty : Ty) : Shaped S .zero ty := by
  cases ty <;> simp only [Shaped]

theorem shapedFields_zero (as : List Arg) : ShapedFields S (as.map fun _ => .zero) false as := by
  induction as with
  | nil => simp only [List.map_nil, ShapedFields]
  | cons a as ih =>
    rw [List.map_cons, ShapedFields]
    refine ⟨?_, ih⟩
    cases a.type.map tyOf with
    | none => rfl
    | some ty => exact shaped_zero ty

theorem gives_shapedMessage : Gives n deserializeMtpMessage fun x =>
    ∃ msgId seqno bytes body, x = .message msgId seqno bytes body := by
  intro b x t _ h
  simp only [deserializeMtpMessage, bind_apply, Option.bind_eq_some_iff] at h
  obtain ⟨⟨msgId, b₁⟩, -, ⟨seqno, b₂⟩, -, ⟨bytes, b₃⟩, -, ⟨body, b₄⟩, -, hret⟩ := h
  cases hret
  exact ⟨msgId, seqno, bytes, body, rfl⟩

theorem gives_shapedElem (h : ∀ n, Gives n rec (Shaped S · .object)) (e : Elem) :
    Gives n (deserializeElem rec e) fun x =>
      match e.ty with
      | some ty => Shaped S x ty
      | none => ∃ msgId seqno bytes body, x = .message msgId seqno bytes body := by
  cases e with
  | int | long | double | string | bytes =>
    exact Gives.map (Gives.of_all fun _ => by simp only [Elem.ty, Shaped])
  | bool =>
    exact Gives.bind shortens_deserializeUi32.weaken (Gives.of_all fun _ => trivial)
      fun _ _ => Gives.pure (by simp only [Elem.ty, Shaped])
  | message => exact gives_shapedMessage
  | int128 | int256 | true | object => exact h n

theorem gives_shapedElems (hs : Shortens 0 rec) (h : ∀ n, Gives n rec (Shaped S · .object))
    (e : Elem) (k : Nat) :
    Gives n ((deserializeElem rec e).times k) fun xs => xs.length = k ∧ ShapedElems S xs e := by
  induction k with
  | zero => exact Gives.pure ⟨rfl, by simp only [ShapedElems]⟩
  | succ k ih =>
    have hshort := shortens_deserializeElem hs e
    refine Gives.bind hshort (gives_shapedElem h e) fun x hx =>
      Gives.bind (hshort.times k) ih fun xs hxs => Gives.pure ?_
    rw [ShapedElems]
    exact ⟨congrArg (· + 1) hxs.1, hx, hxs.2⟩

/-- The block of an argument; after a vector that is too long only a vector is certain. -/
theorem gives_shapedField (hs : Shortens 0 rec) (h : ∀ n, Gives n rec (Shaped S · .object))
    {ty : Ty} (hty : ty.Emittable) :
    Gives n (deserializeField S rec ty) fun r => Shaped S r.1 ty := by
  cases ty with
  | int | long | double | string | bytes | int128 | int256 =>
    exact Gives.map (Gives.of_all fun _ => by simp only [Shaped])
  | true => exact Gives.pure (by simp only [Shaped])
  | bool =>
    refine Gives.map (Gives.bind shortens_deserializeUi32.weaken (Gives.of_all fun _ => trivial)
      fun _ _ => Gives.pure (by simp only [Shaped]))
  | message => exact hty.elim
  | object => exact Gives.map (h n)
  | vector e =>
    refine Gives.bind shortens_deserializeVectorLen (Gives.of_all fun _ => trivial) fun len _ => ?_
    split_ifs with hlong
    · refine Gives.pure ?_
      rw [Shaped]
      exact ⟨fun hle => absurd hlong (UInt32.not_lt.mpr hle), fun _ => rfl,
        by simp only [ShapedElems]⟩
    · refine Gives.bind ((shortens_deserializeElem hs e).times _) (gives_shapedElems hs h e _)
        fun xs hxs => Gives.pure ?_
      rw [Shaped]
      exact ⟨fun _ => hxs.1, fun hgt => absurd hgt hlong, hxs.2⟩

theorem gives_shapedFields (hs : Shortens 0 rec) (h : ∀ n, Gives n rec (Shaped S · .object))
    {as : List Arg} (has : ∀ a ∈ as, ∀ ty, a.type.map tyOf = some ty → ty.Emittable)
    (flags : List UInt32) :
    Gives n (deserializeArgs S rec as flags) fun xs => ShapedFields S xs false as := by
  induction as generalizing flags n with
  | nil => exact Gives.pure (by simp only [ShapedFields])
  | cons a as ih =>
    have hrest := fun {n : Nat} (flags : List UInt32) =>
      ih (n := n) (fun a' ha' => has a' (List.mem_cons_of_mem _ ha')) flags
    have ha := has a List.mem_cons_self
    rw [deserializeArgs]
    cases hty : a.type.map tyOf with
    | none =>
      have hskip : ∀ {n : Nat} (flags : List UInt32),
          Gives n ((Tl.zero :: ·) <$> deserializeArgs S rec as flags) fun xs =>
            ShapedFields S xs false (a :: as) := fun flags =>
        Gives.map fun b xs t hb hxs => by
          show ShapedFields S (.zero :: xs) false (a :: as)
          rw [ShapedFields, hty]
          exact ⟨rfl, hrest flags b xs t hb hxs⟩
      dsimp only
      split_ifs
      · exact Gives.bind shortens_deserializeUi32.weaken (Gives.of_all fun _ => trivial)
          fun _ _ => hskip _
      · exact hskip _
    | some ty =>
      cases isPresent flags a with
      | none => exact Gives.overrun
      | some present =>
        cases present with
        | false =>
          refine Gives.map fun b xs t hb hxs => ?_
          show ShapedFields S (.zero :: xs) false (a :: as)
          rw [ShapedFields, hty]
          exact ⟨shaped_zero ty, hrest flags b xs t hb hxs⟩
        | true =>
          refine Gives.bind (shortens_deserializeField hs ty) (gives_shapedField hs h (ha ty hty))
            fun r hx => ?_
          obtain ⟨x, more⟩ := r
          dsimp only at hx ⊢
          split_ifs
          · refine Gives.map fun b xs t hb hxs => ?_
            show ShapedFields S (x :: xs) false (a :: as)
            rw [ShapedFields, hty]
            exact ⟨hx, hrest flags b xs t hb hxs⟩
          · refine Gives.pure ?_
            rw [ShapedFields, hty]
            exact ⟨hx, shapedFields_zero as⟩

theorem shaped_tlDeserializeMethod (hs : Shortens 0 rec)
    (h : ∀ n, Gives n rec (Shaped S · .object)) {e : Entry}
    (he : ∀ a ∈ e.method.args, ∀ ty, a.type.map tyOf = some ty → ty.Emittable) {id : UInt32}
    (hfun : S.getFun id = some e) {b t : Bytes} {tl : Tl}
    (hread : tlDeserializeMethod S rec e.method (le32 id ++ b) = some (tl, t)) :
    Shaped S tl .object := by
  obtain ⟨id', u, v, head, fields, hb, hhead, hfields, rfl⟩ := tlDeserializeMethod_eq_some hread
  obtain rfl : id = id' := le32_inj (List.append_inj hb (by simp)).1
  rw [Shaped]
  refine ⟨e, hfun, ?_⟩
  have hrest : ShapedFields S fields false e.method.args :=
    gives_shapedFields hs h he [] v fields t (Nat.le_refl _) hfields
  obtain ⟨hname, len, -, rfl⟩ | ⟨hname, rfl, -⟩ := deserializeVectorHead_eq_some hhead
  · rw [decide_eq_true hname]
    show ShapedFields S (.pending len v :: fields) true e.method.args
    rw [ShapedFields]
    exact ⟨⟨len, v, rfl⟩, hrest⟩
  · rw [decide_eq_false hname]
    exact hrest

theorem gives_shaped (hS : S.Compiles) (k n : Nat) :
    Gives n (tlDeserializeN S k) (Shaped S · .object) := by
  induction k generalizing n with
  | zero => exact Gives.overrun
  | succ k ih =>
    intro b tl t _ h
    obtain ⟨id, u, rfl, ⟨-, rfl, -⟩ | ⟨-, e, hfun, hm⟩⟩ := dispatch_eq_some h
    · simp only [Shaped]
    · exact shaped_tlDeserializeMethod (shortens_tlDeserializeN S k) ih
        (hS e (List.mem_of_find?_eq_some hfun)) hfun hm

end

/-- What `tl_deserialize` returned is released completely, each block once, exactly where no vector
of strings, byte strings or objects in it was too long and no container in it has a message. -/
theorem freesAll_iff {S : Schema} (hS : S.Compiles) {b t : Bytes} {tl : Tl}
    (h : tlDeserialize S b = some (tl, t)) : FreesAll S tl ↔ Releasable S tl .object :=
  freesAll_iff_of_shaped hS (gives_shaped hS b.length b.length b tl t (Nat.le_refl _) h)

/-- Whatever was decoded can be freed. -/
def DecodedCanBeFreed : Prop :=
  ∀ (S : Schema), S.Compiles → ∀ (b t : Bytes) (tl : Tl), tlDeserialize S b = some (tl, t) →
    FreesAll S tl

/-- `messages.chats#64ff9fd5 chats:Vector<Chat> = messages.Chats;`. -/
def messagesChats : Entry :=
  ⟨false, "messages_chats", 0x64ff9fd5, [⟨"chats", some "Vector<Chat>", 0, 0⟩]⟩

theorem compiles_messagesChats : Schema.Compiles [vector, messagesChats] := by
  have hty : tyOf "Vector<Chat>" = .vector .object := by decide
  intro e he a ha ty h
  simp only [List.mem_cons, List.not_mem_nil, or_false] at he
  rcases he with rfl | rfl
  · cases ha
  · obtain rfl := List.mem_singleton.mp ha
    cases h
    rw [hty]
    trivial

/-- A reply that announces `n` chats and then ends. -/
def chatsReply (n : UInt32) : Bytes := le32 0x64ff9fd5 ++ (le32 0x1cb5c415 ++ le32 n)

theorem tlDeserialize_chatsReply {n : UInt32} (hn : n = 0 ∨ 100 < n) :
    tlDeserialize [vector, messagesChats] (chatsReply n) =
      some (.object 0x64ff9fd5 (chatsReply n) [.vector n []], []) := by
  have hty : (some "Vector<Chat>").map tyOf = some (.vector .object) := by decide
  have hfun : Schema.getFun [vector, messagesChats] 0x64ff9fd5 = some messagesChats := by decide
  have hid : Schema.idVector? [vector, messagesChats] = some 0x1cb5c415 := by decide
  have hlen : deserializeVectorLen [vector, messagesChats] (le32 0x1cb5c415 ++ le32 n) =
      some (n, []) := by
    refine deserializeVectorLen_eq_some.mpr ⟨_, .inr ⟨_, hid, ?_⟩, (List.append_nil _).symm⟩
    rw [UInt32.ofNat_toNat]
  have hargs : deserializeArgs [vector, messagesChats] (tlDeserialize [vector, messagesChats])
      messagesChats.method.args [] (le32 0x1cb5c415 ++ le32 n) = some ([.vector n []], []) := by
    obtain rfl | hlong := hn
    · have hfield : deserializeField [vector, messagesChats] (tlDeserialize [vector, messagesChats])
          (.vector .object) (le32 0x1cb5c415 ++ le32 0) = some ((.vector 0 [], true), []) :=
        deserializeField_vector hlen (by decide) rfl
      exact (deserializeArgs_present hty rfl hfield).trans rfl
    · exact deserializeArgs_last hty rfl (deserializeField_tooLong hlen hlong)
  refine (tlDeserialize_known (by decide) hfun).trans ?_
  rw [tlDeserializeMethod, bind_of_some rfl, bind_of_some (deserializeUi32_eq_some.mpr rfl),
    deserializeVectorHead, if_neg (by decide), bind_of_some rfl, bind_of_some hargs]
  rfl

/-- An empty list of chats is released. -/
theorem freesAll_iff_noChats :
    FreesAll [vector, messagesChats] (.object 0x64ff9fd5 (chatsReply 0) [.vector 0 []]) ↔
      Releasable [vector, messagesChats]
        (.object 0x64ff9fd5 (chatsReply 0) [.vector 0 []]) .object :=
  freesAll_iff compiles_messagesChats (tlDeserialize_chatsReply (.inl rfl))

/-- A reply with 101 chats: the loop reads the first element of an array that is not there. -/
theorem decodedCanBeFreed_counterexample : ¬ DecodedCanBeFreed := by
  intro h
  obtain ⟨released, hfree, -⟩ := h _ compiles_messagesChats _ _ _
    (tlDeserialize_chatsReply (n := 101) (.inr (by decide)))
  have hcrash : tlFree [vector, messagesChats]
      (.object 0x64ff9fd5 (chatsReply 101) [.vector 101 []]) = none := by
    have hfun : Schema.getFun [vector, messagesChats] 0x64ff9fd5 = some messagesChats := by decide
    have hname : decide (messagesChats.method.name = "vector") = false := by decide
    have hty : (some "Vector<Chat>").map tyOf = some (.vector .object) := by decide
    have hvec (S : Schema) : freeVector S [0] (.vector 101 []) .object = none := by
      rw [freeVector, if_neg (show ¬ Elem.object.call = .nothing by decide)]
      rfl
    rw [tlFree, freeValue, hfun]
    dsimp only
    rw [hname, messagesChats, freeFields, hty]
    dsimp only
    rw [hvec]
    rfl
  rw [hcrash] at hfree
  cases hfree

end Libtg
