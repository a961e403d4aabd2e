import Libtg.Tg.Untouched

/-!
# Compressed answers (`catched_tl` in `tg/queue.c`)

An answer that arrives compressed should be the answer itself to `on_done`. `catched_tl` inflates it
before it is handed on, but it looks at a plain answer first: of a `bad_msg_notification` it makes
`NULL`, and a plain answer that is compressed itself is inflated. So the two differ where the room
`gunzip_buf` guesses is too small, and for these two kinds of objects (`sameAnswer_iff`).
-/

namespace Libtg.Receiving

open LittleEndian

/-- In every thread and every state the two results lead to the same calls of `on_done`. -/
def SameAnswer (W : Setting) (x y : Tl) : Prop :=
  ∀ i msgId r, (catchedTl W i msgId x r).map (·.2.queries.log) =
    (catchedTl W i msgId y r).map (·.2.queries.log)

section
variable {W : Setting} {Z : Zlib} {S : Schema} {x y t : Tl} {e u : Bytes}

/-- One query is listed, with a callback. -/
def oneQuery : Receiver where
  tg := ⟨[], [], [], 0, [], [], 0, 0⟩
  queries := ⟨fun _ => ⟨true, true, 0, none, true⟩, fun _ => .looping, fun _ => none, [0], []⟩
  updates := []
  ntps := 0

theorem catchedTl_oneQuery : (catchedTl W 0 0 x oneQuery).map (·.2.queries.log) =
    (onDoneArg W.schema W.gunzip x).map fun arg => [.called 0 0 0 arg, .took 0 0 0] := by
  have hfind : oneQuery.queries.find 0 = some 0 := rfl
  rw [catchedTl, hfind, Option.map_map]
  refine congrFun (congrArg Option.map (funext fun arg => ?_)) _
  by_cases hid : x.id = idBadMsgNotification
  · simp only [Function.comp_def, hid, if_true]
    rfl
  · simp only [Function.comp_def, hid, if_false]
    rfl

/-- What `on_done` is given decides. -/
theorem sameAnswer_iff_onDoneArg :
    SameAnswer W x y ↔ onDoneArg W.schema W.gunzip x = onDoneArg W.schema W.gunzip y := by
  constructor
  · intro h
    have hlog := h 0 0 oneQuery
    rw [catchedTl_oneQuery, catchedTl_oneQuery] at hlog
    refine Option.map_injective (fun arg arg' harg => ?_) hlog
    cases harg
    rfl
  · intro h i msgId r
    rw [catchedTl, catchedTl]
    cases r.queries.find msgId with
    | none => rfl
    | some q =>
      dsimp only
      rw [h, Option.map_map, Option.map_map]
      refine congrFun (congrArg Option.map (funext fun arg => ?_)) _
      dsimp only [Function.comp_def]
      split_ifs <;> rfl

/-- `NULL` has the id of no object. -/
theorem onDoneArg_eq (gunzip : Bytes → Gunzipped) (x : Tl) :
    onDoneArg S gunzip x =
      if x.id = idGzipPacked then
        if (gunzip x.packedData).ok then (tlDeserialize S (gunzip x.packedData).buf).map (·.1)
        else some .null
      else if x.id = idBadMsgNotification then some .null
      else some x := by
  cases x <;> rfl

theorem onDoneArg_gzip {gunzip : Bytes → Gunzipped} (hid : x.id = idGzipPacked) :
    onDoneArg S gunzip x =
      if (gunzip x.packedData).ok then (tlDeserialize S (gunzip x.packedData).buf).map (·.1)
      else some .null := by
  rw [onDoneArg_eq, if_pos hid]

theorem onDoneArg_badMsgNotification {gunzip : Bytes → Gunzipped}
    (hid : x.id = idBadMsgNotification) : onDoneArg S gunzip x = some .null := by
  rw [onDoneArg_eq, hid, if_neg (by decide), if_pos rfl]

theorem onDoneArg_other {gunzip : Bytes → Gunzipped} (hgzip : x.id ≠ idGzipPacked)
    (hbad : x.id ≠ idBadMsgNotification) : onDoneArg S gunzip x = some x := by
  rw [onDoneArg_eq, if_neg hgzip, if_neg hbad]

/-- The plain answer is handed on as it is. A `gzip_packed` has to inflate to itself for that. -/
def HandedOn (Z : Zlib) (e : Bytes) (t : Tl) : Prop :=
  t.id ≠ idBadMsgNotification ∧
    (t.id = idGzipPacked → gunzipBuf Z t.packedData = ⟨true, e⟩)

/-- The plain answer is handed on as `NULL`. -/
def Nulled (Z : Zlib) (S : Schema) (t : Tl) : Prop :=
  t.id = idBadMsgNotification ∨
    t.id = idGzipPacked ∧ ((gunzipBuf Z t.packedData).ok = true →
      ∃ v, tlDeserialize S (gunzipBuf Z t.packedData).buf = some (.null, v))

theorem onDoneArg_eq_self_iff (ht : tlDeserialize S e = some (t, u)) (hne : t ≠ .null) :
    onDoneArg S (gunzipBuf Z) t = some t ↔ HandedOn Z e t := by
  by_cases hbad : t.id = idBadMsgNotification
  · rw [onDoneArg_badMsgNotification hbad]
    exact ⟨fun h => absurd (Option.some.inj h).symm hne, fun h => absurd hbad h.1⟩
  by_cases hgzip : t.id = idGzipPacked
  swap
  · rw [onDoneArg_other hgzip hbad]
    exact ⟨fun _ => ⟨hbad, fun h => absurd h hgzip⟩, fun _ => rfl⟩
  rw [onDoneArg_gzip hgzip]
  constructor
  · intro h
    refine ⟨hbad, fun _ => ?_⟩
    split_ifs at h with hok
    · obtain ⟨⟨t', v⟩, hdec, rfl⟩ := Option.map_eq_some_iff.mp h
      -- an object keeps the bytes it was read from
      obtain hnull | ⟨id, fields, hobj⟩ := tlDeserialize_buf ht
      · exact absurd hnull hne
      obtain hnull' | ⟨id', fields', hobj'⟩ := tlDeserialize_buf hdec
      · exact absurd hnull' hne
      cases hobj.symm.trans hobj'
      cases hz : gunzipBuf Z t'.packedData with
      | mk ok buf =>
        rw [hz] at hok
        cases hok
        rfl
    · exact absurd (Option.some.inj h).symm hne
  · rintro ⟨-, h⟩
    rw [h hgzip, if_pos rfl, ht]
    rfl

theorem onDoneArg_eq_null_iff (hne : t ≠ .null) :
    onDoneArg S (gunzipBuf Z) t = some .null ↔ Nulled Z S t := by
  by_cases hbad : t.id = idBadMsgNotification
  · rw [onDoneArg_badMsgNotification hbad]
    exact ⟨fun _ => .inl hbad, fun _ => rfl⟩
  by_cases hgzip : t.id = idGzipPacked
  swap
  · rw [onDoneArg_other hgzip hbad]
    refine ⟨fun h => absurd (Option.some.inj h) hne, ?_⟩
    rintro (h | ⟨h, -⟩)
    · exact absurd h hbad
    · exact absurd h hgzip
  rw [onDoneArg_gzip hgzip]
  constructor
  · intro h
    refine .inr ⟨hgzip, fun hok => ?_⟩
    rw [if_pos hok] at h
    obtain ⟨⟨t', v⟩, hdec, rfl⟩ := Option.map_eq_some_iff.mp h
    exact ⟨v, hdec⟩
  · rintro (h | ⟨-, h⟩)
    · exact absurd h hbad
    · split_ifs with hok
      · obtain ⟨v, hdec⟩ := h hok
        rw [hdec]
        rfl
      · rfl

/-- What `on_done` is given for the compressed answer. -/
theorem onDoneArg_compressed {z : Bytes} {gz : Tl} (hz : InflatesTo Z z e)
    (hid : gz.id = idGzipPacked) (hpacked : gz.packedData = z)
    (ht : tlDeserialize S e = some (t, u)) :
    (e.length ≤ gunzipRoom z ∧ onDoneArg S (gunzipBuf Z) gz = some t) ∨
      (gunzipRoom z < e.length ∧ onDoneArg S (gunzipBuf Z) gz = some .null) := by
  rw [onDoneArg_gzip hid, hpacked]
  rcases gunzipBuf_inflates hz with ⟨hle, hbuf⟩ | ⟨hlt, hok⟩
  · refine .inl ⟨hle, ?_⟩
    rw [hbuf, if_pos rfl, ht]
    rfl
  · refine .inr ⟨hlt, ?_⟩
    rw [hok]
    rfl

/-- A compressed answer is the plain one when it fits into the guessed room and the plain one is
handed on as it is, or when neither reaches `on_done`. -/
theorem sameAnswer_iff (Z : Zlib) (S : Schema) (C : Crypto) (ntp : Nat → UInt64) (z e u : Bytes)
    (gz t : Tl) (hz : InflatesTo Z z e) (hid : gz.id = idGzipPacked) (hpacked : gz.packedData = z)
    (ht : tlDeserialize S e = some (t, u)) (hne : t ≠ .null) :
    SameAnswer (zlibSetting Z S C ntp) gz t ↔
      (e.length ≤ gunzipRoom z ∧ HandedOn Z e t) ∨
        (gunzipRoom z < e.length ∧ Nulled Z S t) := by
  rw [sameAnswer_iff_onDoneArg]
  change onDoneArg S (gunzipBuf Z) gz = onDoneArg S (gunzipBuf Z) t ↔ _
  rcases onDoneArg_compressed hz hid hpacked ht with ⟨hle, harg⟩ | ⟨hlt, harg⟩
  · rw [harg, eq_comm, onDoneArg_eq_self_iff ht hne]
    exact ⟨fun h => .inl ⟨hle, h⟩, fun h => (h.resolve_right fun h' => by omega).2⟩
  · rw [harg, eq_comm, onDoneArg_eq_null_iff hne]
    exact ⟨fun h => .inr ⟨hlt, h⟩, fun h => (h.resolve_left fun h' => by omega).2⟩

/-! ## An answer that compresses well -/

/-- `dataJSON#7d748d04 data:string = DataJSON;`. -/
def dataJSON : Entry := ⟨true, "dataJSON", 0x7d748d04, [⟨"data", some "string", 0, 0⟩]⟩

/-- A `dataJSON`, where the string needs the long form and no padding. -/
def jsonOf (x : Bytes) : Bytes := le32 0x7d748d04 ++ (0xfe :: leBytes 3 x.length ++ x)

theorem jsonOf_length (x : Bytes) : (jsonOf x).length = 8 + x.length := by
  rw [jsonOf, List.length_append, List.length_append, List.length_cons, leBytes_length, le32_length]
  omega

theorem tlDeserialize_jsonOf {x : Bytes} (hlt : x.length < 2 ^ 24) (hpad : x.length % 4 = 0) :
    tlDeserialize [dataJSON] (jsonOf x) =
      some (.object 0x7d748d04 (jsonOf x) [.buf x], []) := by
  have hwire : WireString x (0xfe :: leBytes 3 x.length ++ x) :=
    ⟨[], .inr ⟨hlt, by rw [hpad]; rfl, (List.append_nil _).symm⟩⟩
  have hstring := (consumes_deserializeBytes hwire).eq []
  rw [List.append_nil] at hstring
  have hfield : deserializeField [dataJSON] (tlDeserialize [dataJSON]) .string
      (0xfe :: leBytes 3 x.length ++ x) = some ((.buf x, true), []) :=
    Cursor.map_of_some _ hstring
  have hargs : deserializeArgs [dataJSON] (tlDeserialize [dataJSON]) dataJSON.method.args []
      (0xfe :: leBytes 3 x.length ++ x) = some ([.buf x], []) :=
    deserializeArgs_present rfl rfl hfield
  have hhead : deserializeVectorHead dataJSON.method = pure [] := rfl
  rw [jsonOf, tlDeserialize_known (e := dataJSON) (by decide) rfl, tlDeserializeMethod,
    Cursor.bind_apply, Cursor.remaining, Option.bind_some, Cursor.bind_apply,
    (consumes_deserializeUi32 _).eq, Option.bind_some, hhead, pure_bind, Cursor.bind_apply, hargs]
  rfl

@[irreducible]
def blanks : Bytes := List.replicate 9000 0x20

theorem blanks_length : blanks.length = 9000 := by
  rw [blanks, List.length_replicate]

/-- The `dataJSON` of blanks in gzip, and as an answer. -/
def blanksZ : Bytes :=
  bigEndian 56 0x1f8b0800000000000203edc1310d00200c00b01d0859b26702799130cb0421b45db3cfed8a0400000000000000800f3ca4abf95c30230000

def blanksPacked : Tl := .object idGzipPacked [] [.buf blanksZ]

/-- zlib on a stream of `x`. -/
def unpacks (x : Bytes) : Zlib where
  inflateInit2 := Z_OK
  inflate _ room := if x.length ≤ room then (Z_STREAM_END, x) else (-5, x.take room)
  written_le _ room := by
    split_ifs with h
    · exact h
    · exact List.length_take_le _ _

theorem inflatesTo_unpacks (z x : Bytes) : InflatesTo (unpacks x) z x where
  init := rfl
  fits _ h := if_pos h
  fails room h := by
    have hret : ((unpacks x).inflate z room).1 = -5 := congrArg Prod.fst (if_neg (not_le.mpr h))
    rw [hret]
    exact ⟨by decide, by decide⟩

/-- zlib on the stream of blanks, and what is packed in it. -/
def blanksZlib : Zlib := unpacks (jsonOf blanks)

def blanksAnswer : Tl := .object 0x7d748d04 (jsonOf blanks) [.buf blanks]

theorem inflatesTo_blanks : InflatesTo blanksZlib blanksZ (jsonOf blanks) :=
  inflatesTo_unpacks blanksZ (jsonOf blanks)

theorem tlDeserialize_blanks :
    tlDeserialize [dataJSON] (jsonOf blanks) = some (blanksAnswer, []) :=
  tlDeserialize_jsonOf (by rw [blanks_length]; norm_num) (by rw [blanks_length])

theorem sameAnswer_iff_blanks :
    SameAnswer (zlibSetting blanksZlib [dataJSON] pingCrypto fun _ => 0) blanksPacked
        blanksAnswer ↔
      ((jsonOf blanks).length ≤ gunzipRoom blanksZ ∧
          HandedOn blanksZlib (jsonOf blanks) blanksAnswer) ∨
        (gunzipRoom blanksZ < (jsonOf blanks).length ∧
          Nulled blanksZlib [dataJSON] blanksAnswer) :=
  sameAnswer_iff blanksZlib [dataJSON] pingCrypto (fun _ => 0) blanksZ (jsonOf blanks) []
    blanksPacked blanksAnswer inflatesTo_blanks rfl rfl tlDeserialize_blanks nofun

/-- An answer of 9008 bytes is lost when it is compressed. -/
theorem sameAnswer_counterexample :
    ¬ ∀ (Z : Zlib) (S : Schema) (C : Crypto) (ntp : Nat → UInt64) (z e : Bytes) (gz t : Tl),
      InflatesTo Z z e → gz.id = idGzipPacked → gz.packedData = z →
        tlDeserialize S e = some (t, []) → t ≠ .null →
          SameAnswer (zlibSetting Z S C ntp) gz t := by
  intro h
  have hsame := h blanksZlib [dataJSON] pingCrypto (fun _ => 0) blanksZ (jsonOf blanks)
    blanksPacked blanksAnswer inflatesTo_blanks rfl rfl tlDeserialize_blanks nofun
  have hroom : gunzipRoom blanksZ = 8192 := by
    rw [gunzipRoom_eq]
    rfl
  have hlt : ¬ ((jsonOf blanks).length ≤ gunzipRoom blanksZ ∧
      onDoneArg [dataJSON] (gunzipBuf blanksZlib) blanksPacked = some blanksAnswer) := by
    rw [hroom, jsonOf_length, blanks_length]
    omega
  have hpacked :=
    (onDoneArg_compressed inflatesTo_blanks rfl rfl tlDeserialize_blanks).resolve_left hlt
  have hplain : onDoneArg [dataJSON] (gunzipBuf blanksZlib) blanksAnswer = some blanksAnswer :=
    onDoneArg_other (by decide) (by decide)
  cases hpacked.2.symm.trans ((sameAnswer_iff_onDoneArg.mp hsame).trans hplain)

end

end Libtg.Receiving
