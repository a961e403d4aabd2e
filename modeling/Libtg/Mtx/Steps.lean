import Libtg.Mtx.KeyExchange
import Libtg.Mtx.Tgt

/-!
# What the steps of the handshake come to

One lemma for each function of the lower layers. `Logs es s t`: from `s` to `t` the complaints `es`
were logged and nothing else has changed but the counters.
-/

namespace Libtg.Mtx

open LittleEndian BigEndian Exec

structure Logs (es : List String) (s t : Client) : Prop where
  sharedRc : t.sharedRc = s.sharedRc
  types : t.t = s.t
  flag : t.resetTgApiTypeSystemFlag = s.resetTgApiTypeSystemFlag
  errors : t.errors = s.errors ++ es
  sent : t.sent = s.sent
  ticks : s.ticks ≤ t.ticks

variable {W : World} {s t u : Client} {es es' : List String} {a b dest src : Buf} {x y z : Bytes}

theorem Logs.refl (s : Client) : Logs [] s s :=
  ⟨rfl, rfl, rfl, (List.append_nil _).symm, rfl, le_rfl⟩

theorem Logs.trans (h : Logs es s t) (h' : Logs es' t u) : Logs (es ++ es') s u where
  sharedRc := h'.sharedRc.trans h.sharedRc
  types := h'.types.trans h.types
  flag := h'.flag.trans h.flag
  errors := by rw [h'.errors, h.errors, List.append_assoc]
  sent := h'.sent.trans h.sent
  ticks := h.ticks.trans h'.ticks

theorem runs_logError (e : String) (s : Client) :
    Runs (logError e) s fun _ t => Logs [e] s t :=
  ⟨(), _, rfl, rfl, rfl, rfl, rfl, rfl, le_rfl⟩

theorem runs_newLocal (l : Local) (s : Client) :
    Runs (newLocal W l) s fun b t => b = W.stack l s.locals ∧ Logs [] s t :=
  ⟨_, _, rfl, rfl, rfl, rfl, rfl, (List.append_nil _).symm, rfl, le_rfl⟩

/-- What is logged under a condition. -/
def errorIf (p : Prop) [Decidable p] (e : String) : List String := if p then [e] else []

theorem errorIf_neg {p : Prop} [Decidable p] (h : ¬ p) (e : String) : errorIf p e = [] := if_neg h

theorem errorIf_pos {p : Prop} [Decidable p] (h : p) (e : String) : errorIf p e = [e] := if_pos h

theorem runs_logIf (p : Prop) [Decidable p] (e : String) (s : Client) :
    Runs (logIf p e) s fun _ t => Logs (errorIf p e) s t := by
  rw [logIf, errorIf]
  split_ifs
  · exact runs_logError e s
  · exact runs_pure (Logs.refl s)

theorem runs_logIf_neg {p : Prop} [Decidable p] (h : ¬ p) (e : String) (s : Client) :
    Runs (logIf p e) s fun _ t => Logs [] s t :=
  errorIf_neg h e ▸ runs_logIf p e s

theorem runs_logIf_pos {p : Prop} [Decidable p] (h : p) (e : String) (s : Client) :
    Runs (logIf p e) s fun _ t => Logs [e] s t :=
  errorIf_pos h e ▸ runs_logIf p e s

/-! ## `buf.c` -/

theorem runs_bufDump (h : Holds b x) (hx : x ≠ []) (s : Client) :
    Runs (bufDump b) s fun _ t => Logs [] s t := by
  have hle := h.length_le
  rw [bufDump, if_neg (by rw [h.size]; omega), if_neg (by rwa [h.size_eq_zero])]
  exact runs_pure (Logs.refl s)

theorem runs_bufCmp (ha : Holds a x) (hb : Holds b y) (hlen : x.length = y.length) (s : Client) :
    Runs (bufCmp a b) s fun r t => r = decide (x = y) ∧ Logs [] s t := by
  have hsize : a.size = b.size := by rw [ha.size_eq, hb.size_eq, hlen]
  have hle : a.size.toNat ≤ maxBufSize := ha.size.trans_le ha.length_le
  have htake : b.data.take a.size.toNat = y := by
    rw [ha.size, hlen, hb.take_data le_rfl, List.take_length]
  rw [bufCmp]
  refine (runs_logIf_neg (not_not.mpr hsize) _ s).bind fun _ t ht => ?_
  rw [ha.bytes, htake]
  by_cases hxy : x = y
  · rw [if_pos hxy, if_pos hle]
    exact runs_pure ⟨by rw [decide_eq_true hxy], ht⟩
  · rw [if_neg hxy]
    exact runs_pure ⟨by rw [decide_eq_false hxy], ht⟩

/-- Buffers of any contents can be compared. -/
theorem runs_bufCmp_any (ha : a.size.toNat ≤ maxBufSize) (b : Buf) (s : Client) :
    Runs (bufCmp a b) s fun _ t => ∃ es, Logs es s t := by
  refine (runs_logIf (a.size ≠ b.size) _ s).bind fun _ t ht => ?_
  by_cases hsame : a.bytes = b.data.take a.size.toNat
  · rw [if_pos hsame, if_pos ha]
    exact runs_pure ⟨_, ht⟩
  · rw [if_neg hsame]
    exact runs_pure ⟨_, ht⟩

theorem length_randBytes (seed : UInt32) (n : Nat) : (randBytes W seed n).length = n := by
  rw [randBytes, List.length_map, List.length_range]

/-- The seed is the second at which the clock is looked at. -/
theorem runs_bufRand {n : UInt32} (hn : n.toNat ≤ maxBufSize) (s : Client) :
    Runs (bufRand W n) s fun b t => Logs [] s t ∧ s.ticks < t.ticks ∧
      b = ofBytes (randBytes W (W.time s.ticks) n.toNat) := by
  have hlen : n.toNat = (randBytes W (W.time s.ticks) n.toNat).length :=
    (length_randBytes _ _).symm
  refine runs_bind_of_eq_some (a := W.time s.ticks) (t := { s with ticks := s.ticks + 1 }) rfl ?_
  refine runs_lift (bufAdd_eq hlen.le hn) ⟨⟨rfl, rfl, rfl, (List.append_nil _).symm, rfl, ?_⟩, ?_⟩
  · exact Nat.le_succ _
  · refine ⟨Nat.lt_succ_self _, ?_⟩
    rw [List.take_of_length_le hlen.ge]

theorem holds_over (hx : x.length ≤ maxBufSize) (hsize : b.size.toNat = x.length) :
    Holds { b with data := (dest.over x).data, data_length := (dest.over x).data_length } x where
  size := hsize
  data := by
    show x <+: ((x ++ dest.data.drop x.length).take maxBufSize)
    rw [List.take_append, List.take_of_length_le hx]
    exact List.prefix_append _ _

theorem runs_bufXor (ha : Holds a x) (hb : Holds b y) (hlen : x.length = y.length) (s : Client) :
    Runs (bufXor W a b) s fun r t => Holds r (List.zipWith (· ^^^ ·) x y) ∧ Logs [] s t := by
  have hsize : a.size = b.size := by rw [ha.size_eq, hb.size_eq, hlen]
  have hle : a.size.toNat ≤ maxBufSize := ha.size.trans_le ha.length_le
  have hzip : List.zipWith (· ^^^ ·) a.bytes b.data = List.zipWith (· ^^^ ·) x y := by
    obtain ⟨rest, hrest⟩ := hb.data
    rw [ha.bytes, ← hrest, ← List.append_nil x, List.zipWith_append hlen, List.zipWith_nil_left,
      List.append_nil, List.append_nil]
  have hcount : (List.zipWith (· ^^^ ·) x y).length = x.length := by
    rw [List.length_zipWith, hlen, Nat.min_self]
  rw [bufXor]
  refine (runs_logIf_neg (not_not.mpr hsize) _ s).bind fun _ t ht => ?_
  refine (runs_newLocal .bufXor t).bind fun r u hrun => ?_
  obtain ⟨_, hu⟩ := hrun
  rw [if_pos hle, hzip]
  refine runs_pure ⟨?_, ht.trans hu⟩
  exact holds_over (b := { r with size := a.size }) (hcount.trans_le ha.length_le)
    (ha.size.trans hcount.symm)

/-! ## `hsh.c`, `cry.c`, `cmn.c` -/

theorem sha1_eq (s : Sha1nfo) (hx : x.length ≤ maxBufSize) :
    Sha1.sha1 s x = some (Fips180.Sha1.hash x) := by
  have hlt : x.length < 2 ^ 32 := hx.trans_lt (by rw [maxBufSize]; norm_num)
  have h : Sha1.Hashing x (Sha1.sha1Write (Sha1.sha1Init s) x) := Sha1.hashing_sha1Init.sha1Write x
  obtain ⟨s', hrun, hstate⟩ := h.hash_eq hlt
  rw [Sha1.sha1, hrun, ← hstate]
  rfl

theorem runs_hshSha1 (h : Holds b x) (s : Client) :
    Runs (hshSha1 W b) s fun r t => Holds r (Fips180.Sha1.hash x) ∧ Logs [] s t := by
  have hlen : (Fips180.Sha1.hash x).length = 20 := Fips180.Sha1.length_hash x
  refine (runs_get s).bind fun c t hrun => ?_
  obtain ⟨_, ht⟩ := hrun
  subst ht
  refine (runs_newLocal .hshSha1 t).bind fun r u hrun => ?_
  obtain ⟨_, hu⟩ := hrun
  rw [if_pos (h.size.trans_le h.length_le), h.bytes]
  refine runs_bind_lift (sha1_eq _ h.length_le) (runs_pure ⟨?_, hu⟩)
  exact holds_over (b := { r with size := 20 }) (hlen.trans_le (by decide)) hlen.symm

theorem ofBytes_over (hx : x.length ≤ maxBufSize) (n : UInt32) (hn : n.toNat = x.length) :
    { zeroBuf.over x with size := n } = ofBytes x := by
  refine Buf.ext ?_ ?_
  · show (x ++ (ofBytes []).data.drop x.length).take maxBufSize = _
    rw [data_ofBytes (Nat.zero_le _), data_ofBytes hx, List.nil_append, List.drop_replicate,
      List.length_nil, Nat.sub_zero, List.take_of_length_le]
    rw [List.length_append, List.length_replicate]
    omega
  · show n = UInt32.ofNat x.length
    rw [← hn, UInt32.ofNat_toNat]

theorem runs_cryAes {aes : Bytes → Bytes → Bytes → Bytes} {e : String} {key iv : Buf}
    {k i : Bytes} (hb : Holds b x) (hkey : Holds key k) (hiv : Holds iv i) (hx : x ≠ [])
    (hblocks : 16 ∣ x.length) (hk : k.length = 32) (hi : i.length = 32)
    (hlen : (aes x k i).length = x.length) (s : Client) :
    Runs (cryAes aes e b key iv) s fun r t => r = ofBytes (aes x k i) ∧ Logs [] s t := by
  have hle := hb.length_le
  have htake {d : Buf} {z : Bytes} (hd : Holds d z) (hz : z.length = 32) : d.data.take 32 = z := by
    rw [hd.take_data hz.ge, ← hz, List.take_length]
  rw [cryAes, if_pos ⟨hb.size.trans_le hle, hb.size ▸ hblocks⟩]
  refine (runs_logIf_neg (mt hb.size_eq_zero.mp hx) e s).bind fun _ t ht => runs_pure ⟨?_, ht⟩
  rw [hb.bytes, htake hkey hk, htake hiv hi]
  exact ofBytes_over (hlen.trans_le hle) _ (hb.size.trans hlen.symm)

theorem runs_cryAesE {key iv : Buf} {k i : Bytes} (hb : Holds b x) (hkey : Holds key k)
    (hiv : Holds iv i) (hx : x ≠ []) (hblocks : 16 ∣ x.length) (hk : k.length = 32)
    (hi : i.length = 32) (s : Client) : Runs (cryAesE W b key iv) s fun r t =>
      r = ofBytes (W.crypto.aesIgeE x k i) ∧ Logs [] s t :=
  runs_cryAes hb hkey hiv hx hblocks hk hi (W.crypto.aesIgeE_length _ _ _ hblocks) s

theorem runs_cryAesD {key iv : Buf} {k i : Bytes} (hb : Holds b x) (hkey : Holds key k)
    (hiv : Holds iv i) (hx : x ≠ []) (hblocks : 16 ∣ x.length) (hk : k.length = 32)
    (hi : i.length = 32) (s : Client) : Runs (cryAesD W b key iv) s fun r t =>
      r = ofBytes (W.crypto.aesIgeD x k i) ∧ Logs [] s t :=
  runs_cryAes hb hkey hiv hx hblocks hk hi (W.crypto.aesIgeD_length _ _ _ hblocks) s

/-- The complaint about a power that is zero. -/
def powErrors (y : Nat) : List String := errorIf (byteCount y = 0) "pow_mod failed"

theorem runs_cmnPowMod {g e m : Buf} (hg : Holds g x) (he : Holds e y) (hm : Holds m z)
    (hy : y.length = 256) (hz : z.length = 256) (hzero : beNat z ≠ 0) (s : Client) :
    Runs (cmnPowMod W g e m) s fun r t =>
      Holds r (beBytes (beNat x ^ beNat y % beNat z)) ∧
        Logs (powErrors (beNat x ^ beNat y % beNat z)) s t := by
  have he256 : e.size = 256 := UInt32.toNat_inj.mp (he.size.trans hy)
  have hm256 : m.size = 256 := UInt32.toNat_inj.mp (hm.size.trans hz)
  have hlt : beNat z < 256 ^ 256 := (beNat_lt z).trans_le (by rw [hz])
  have hcount : byteCount (beNat x ^ beNat y % beNat z) ≤ 256 :=
    byteCount_le_iff.mpr ((Nat.mod_lt _ (Nat.pos_of_ne_zero hzero)).trans hlt)
  have hle : (beBytes (beNat x ^ beNat y % beNat z)).length ≤ maxBufSize := by
    rw [length_beBytes]
    exact hcount.trans (by decide)
  have hok : ¬ (e.size ≠ m.size ∨ e.size ≠ 256) := by
    rw [he256, hm256]
    decide
  refine (runs_logIf_neg hok _ s).bind fun _ t ht => ?_
  refine (runs_newLocal .cmnPowMod t).bind fun r u hrun => ?_
  obtain ⟨_, hu⟩ := hrun
  have hsizes : g.size.toNat ≤ maxBufSize ∧ e.size.toNat ≤ maxBufSize ∧
      m.size.toNat ≤ maxBufSize :=
    ⟨hg.size.trans_le hg.length_le, he.size.trans_le he.length_le, hm.size.trans_le hm.length_le⟩
  rw [if_pos hsizes, hg.bytes, he.bytes, hm.bytes]
  refine runs_bind_lift (if_neg hzero) ?_
  refine (runs_logIf _ _ u).bind fun _ v hv => runs_pure ⟨?_, (ht.trans hu).trans hv⟩
  refine holds_over (b := { r with size := UInt32.ofNat _ }) hle ?_
  rw [length_beBytes]
  exact UInt32.toNat_ofNat_of_lt' (hcount.trans_lt (by norm_num))

/-! ## `sel.c` -/

theorem ofBytes_zeros {n : UInt32} (hn : n.toNat ≤ maxBufSize) :
    { zeroBuf with size := n } = ofBytes (List.replicate n.toNat 0) := by
  have hlen : (List.replicate n.toNat (0 : UInt8)).length = n.toNat := List.length_replicate
  refine Buf.ext ?_ ?_
  · show (ofBytes []).data = _
    rw [data_ofBytes (Nat.zero_le _), data_ofBytes (hlen.trans_le hn), hlen, List.nil_append,
      List.length_nil, Nat.sub_zero, List.replicate_append_replicate, Nat.add_sub_cancel' hn]
  · show n = UInt32.ofNat (List.replicate n.toNat (0 : UInt8)).length
    rw [hlen, UInt32.ofNat_toNat]

/-- What is appended to fill up to a multiple of four. -/
theorem bufCat_pad {n : UInt32} (hx : x.length + 3 ≤ maxBufSize)
    (hn : n = (4 - (ofBytes x).size % 4) % 4) :
    n.toNat = (4 - x.length % 4) % 4 ∧
      bufCat (ofBytes x) { zeroBuf with size := n } =
        some (ofBytes (x ++ List.replicate ((4 - x.length % 4) % 4) 0)) := by
  have hsize : (ofBytes x).size.toNat = x.length := (holds_ofBytes (by omega)).size
  have hle : (ofBytes x).size % 4 ≤ 4 := by
    rw [UInt32.le_iff_toNat_le, UInt32.toNat_mod]
    exact (Nat.mod_lt _ (by decide)).le
  have hcount : n.toNat = (4 - x.length % 4) % 4 := by
    rw [hn, UInt32.toNat_mod, UInt32.toNat_sub_of_le _ _ hle, UInt32.toNat_mod, hsize]
    rfl
  have hfit : n.toNat ≤ maxBufSize := by
    rw [hcount, maxBufSize]
    omega
  have hreplicate : (List.replicate n.toNat (0 : UInt8)).length = n.toNat := List.length_replicate
  refine ⟨hcount, ?_⟩
  rw [ofBytes_zeros hfit, bufCat_ofBytes (holds_ofBytes (hreplicate.trans_le hfit)), hcount]
  rw [hreplicate, hcount]
  omega

theorem bufAdd_le32 {n : UInt32} {k : Nat} (hn : n.toNat = k) (hk : k ≤ 4) (v : UInt32) :
    bufAdd (le32 v) n = some (ofBytes (leBytes k v.toNat)) := by
  obtain ⟨rest, hrest⟩ := prefix_leBytes hk v.toNat
  have hlen : (leBytes k v.toNat).length = k := leBytes_length _ _
  rw [bufAdd_eq (by rw [hn, le32_length]; exact hk) (by rw [hn, maxBufSize]; omega), hn, le32,
    ← hrest, List.take_left' hlen]

/-- `mtx` writes a byte string as `tl` does. -/
theorem selSerializeString_eq (h : Holds b x) (hx : x.length + 8 ≤ maxBufSize) :
    selSerializeString b = some (ofBytes (serializeBytes x)) := by
  have hle : b.size ≤ 253 ↔ x.length ≤ 253 := by
    rw [UInt32.le_iff_toNat_le, h.size]
    rfl
  rw [selSerializeString, serializeBytes]
  by_cases hshort : x.length ≤ 253
  · rw [if_pos (hle.mpr hshort), if_pos hshort, bufAdd_le32 (k := 1) rfl (by norm_num), h.size]
    have hlen : (leBytes 1 x.length ++ x).length = 1 + x.length := by
      rw [List.length_append, leBytes_length]
    have hcat := bufCat_ofBytes (x := leBytes 1 x.length) h (by rw [leBytes_length]; omega)
    simp only [Option.bind_eq_bind, Option.bind_some, hcat]
    exact (bufCat_pad (by omega) rfl).2
  · have hone : bufAdd [0xfe] 1 = some (ofBytes [0xfe]) := bufAdd_eq (by decide) (by decide)
    have hlen : ([0xfe] ++ leBytes 3 x.length ++ x : Bytes).length = 4 + x.length := by
      simp only [List.length_append, List.length_singleton, leBytes_length]
    have hheader := bufCat_ofBytes (x := [0xfe])
      (holds_ofBytes (x := leBytes 3 x.length) (by rw [leBytes_length]; decide))
      (by rw [leBytes_length]; decide)
    have hcat := bufCat_ofBytes (x := [0xfe] ++ leBytes 3 x.length) h (by
      simp only [List.length_append, List.length_singleton, leBytes_length]
      omega)
    rw [if_neg (mt hle.mp hshort), if_neg hshort, hone, bufAdd_le32 (k := 3) rfl (by norm_num),
      h.size]
    simp only [Option.bind_eq_bind, Option.bind_some, hheader, hcat]
    obtain ⟨hcount, hpad⟩ := bufCat_pad (x := [0xfe] ++ leBytes 3 x.length ++ x) (by omega) rfl
    have hzero : (4 - (ofBytes ([0xfe] ++ leBytes 3 x.length ++ x)).size % 4) % 4 ≠ 0 ↔
        (4 - ([0xfe] ++ leBytes 3 x.length ++ x : Bytes).length % 4) % 4 ≠ 0 := by
      rw [← hcount, ne_eq, ← UInt32.toNat_inj]
      rfl
    split_ifs with h₁ h₂ h₂
    · exact hpad
    · exact absurd (hzero.mp h₁) h₂
    · exact absurd (hzero.mpr h₂) h₁
    · rfl

theorem getD_data_ofBytes_take {c : UInt8} (h : Holds b (c :: x)) :
    (ofBytes (b.data.take 4)).data.getD 0 0 = c := by
  obtain ⟨rest, hrest⟩ := h.data
  have hlen : (b.data.take 4).length ≤ maxBufSize := by
    rw [List.length_take, b.data_length]
    exact Nat.min_le_right _ _
  rw [data_ofBytes hlen, ← hrest]
  rfl

theorem runs_selDeserializeString_short (h : Holds b (UInt8.ofNat x.length :: (x ++ y)))
    (hx : x.length ≤ 253) (s : Client) :
    Runs (selDeserializeString b) s fun r t => r = ofBytes x ∧ Logs [] s t := by
  have hfirst : (UInt8.ofNat x.length).toNat = x.length := by
    rw [UInt8.toNat_ofNat']
    omega
  have hfour : bufAdd b.data 4 = some (ofBytes (b.data.take 4)) :=
    bufAdd_eq (by rw [b.data_length]; decide) (by decide)
  have hle : UInt8.ofNat x.length ≤ 253 := by
    rw [UInt8.le_iff_toNat_le, hfirst]
    exact hx
  rw [selDeserializeString]
  refine runs_bind_lift hfour ?_
  rw [getD_data_ofBytes_take h, if_pos hle]
  refine runs_lift ?_ ⟨rfl, Logs.refl s⟩
  refine Holds.bufAdd (x := [UInt8.ofNat x.length]) (z := y) ?_ rfl ?_
  · rwa [List.append_assoc, List.singleton_append]
  · rw [UInt8.toNat_toUInt32, hfirst]

theorem bufGetUi32_ofBytes_three (v : Nat) (hv : v < 256 ^ 3) :
    bufGetUi32 (ofBytes (leBytes 3 v)) = UInt32.ofNat v := by
  have hlen : (leBytes 3 v).length = 3 := leBytes_length _ _
  have htake : (ofBytes (leBytes 3 v)).data.take 4 = leBytes 3 v ++ [0] := by
    rw [data_ofBytes (by rw [hlen]; decide), hlen, List.take_append, hlen,
      List.take_of_length_le (by rw [hlen]; decide)]
    rfl
  rw [bufGetUi32, htake, get32, leNat_append, leNat_leBytes_of_lt hv]
  rfl

theorem runs_selDeserializeString_long (h : Holds b (0xfe :: (leBytes 3 x.length ++ (x ++ y))))
    (hx : x.length < 256 ^ 3) (s : Client) :
    Runs (selDeserializeString b) s fun r t => r = ofBytes x ∧ Logs [] s t := by
  have hlen3 : (leBytes 3 x.length).length = 3 := leBytes_length _ _
  have hfour : bufAdd b.data 4 = some (ofBytes (b.data.take 4)) :=
    bufAdd_eq (by rw [b.data_length]; decide) (by decide)
  have hone : Holds (ofBytes [0xfe]) [0xfe] := holds_ofBytes (by decide)
  have hmark : bufAdd [0xfe] 1 = some (ofBytes [0xfe]) := bufAdd_eq (by decide) (by decide)
  have hfirst : bufAdd b.data 1 = some (ofBytes [0xfe]) :=
    Holds.bufAdd_take (y := leBytes 3 x.length ++ (x ++ y)) h rfl
  have hcount : bufAdd (b.data.drop 1) 3 = some (ofBytes (leBytes 3 x.length)) := by
    refine Holds.bufAdd (x := [0xfe]) (z := x ++ y) ?_ rfl hlen3.symm
    rwa [List.append_assoc, List.singleton_append]
  have hrest : bufAdd (b.data.drop 4) (b.size - 4) = some (ofBytes (x ++ y)) := by
    refine Holds.bufAdd_drop (x := 0xfe :: leBytes 3 x.length) ?_ ?_ ?_
    · rwa [List.cons_append]
    · rw [List.length_cons, hlen3]
    · rw [List.length_cons, hlen3]
      rfl
  have hle := h.length_le
  simp only [List.length_cons, List.length_append] at hle
  have hholds : Holds (ofBytes (x ++ y)) (x ++ y) := holds_ofBytes (by
    rw [List.length_append]
    omega)
  rw [selDeserializeString]
  refine runs_bind_lift hfour ?_
  rw [getD_data_ofBytes_take h, if_neg (by decide)]
  refine runs_bind_lift hmark (runs_bind_lift hfirst ?_)
  refine (runs_bufCmp hone hone rfl s).bind fun r t hrun => ?_
  obtain ⟨hr, ht⟩ := hrun
  have hsame : ¬ (!r) = true := by simp [hr]
  refine (runs_logIf_neg hsame _ t).bind fun _ u hu => ?_
  refine runs_bind_lift hcount (runs_bind_lift hrest (runs_lift ?_ ⟨rfl, ht.trans hu⟩))
  refine hholds.bufAdd_take ?_
  rw [bufGetUi32_ofBytes_three _ hx]
  exact toNat_ofNat_length (by omega)

theorem runs_selDeserializeString (h : Holds b (serializeBytes x ++ y)) (s : Client) :
    Runs (selDeserializeString b) s fun r t => r = ofBytes x ∧ Logs [] s t := by
  have hle := h.length_le
  have hlong := le_length_serializeBytes x
  rw [List.length_append, maxBufSize] at hle
  rw [serializeBytes] at h
  by_cases hshort : x.length ≤ 253
  · simp only [if_pos hshort, leBytes, List.cons_append, List.nil_append, List.append_assoc] at h
    exact runs_selDeserializeString_short h hshort s
  · have hx : x.length < 256 ^ 3 := by
      norm_num
      omega
    rw [if_neg hshort] at h
    dsimp only at h
    split_ifs at h
    · simp only [List.append_assoc, List.cons_append, List.nil_append] at h
      exact runs_selDeserializeString_long h hx s
    · simp only [List.append_assoc, List.cons_append, List.nil_append] at h
      exact runs_selDeserializeString_long h hx s

/-! ### Parameters -/

theorem runs_fixed {w : UInt32} {id : UInt32} {type : TlType} (h : Holds b (x ++ y))
    (hw : w.toNat = x.length)
    (htype : selDeserializeParam W id ⟨b, type⟩ = do
      let s ← (liftM (bufAdd b.data w) : ClientM Buf)
      pure ⟨s, type⟩) (s : Client) :
    Runs (selDeserializeParam W id ⟨b, type⟩) s fun p t =>
      p = ⟨ofBytes x, type⟩ ∧ Logs [] s t := by
  rw [htype]
  exact runs_bind_lift (h.bufAdd_take hw) (runs_pure ⟨rfl, Logs.refl s⟩)

theorem runs_int128 {id : UInt32} (h : Holds b (x ++ y)) (hx : x.length = 16) (s : Client) :
    Runs (selDeserializeParam W id ⟨b, .int128⟩) s fun p t =>
      p = ⟨ofBytes x, .int128⟩ ∧ Logs [] s t :=
  runs_fixed (w := 16) h hx.symm rfl s

theorem runs_int {id : UInt32} (h : Holds b (x ++ y)) (hx : x.length = 4) (s : Client) :
    Runs (selDeserializeParam W id ⟨b, .int⟩) s fun p t =>
      p = ⟨ofBytes x, .int⟩ ∧ Logs [] s t :=
  runs_fixed (w := 4) h hx.symm rfl s

theorem runs_string {id : UInt32} (h : Holds b (serializeBytes x ++ y)) (s : Client) :
    Runs (selDeserializeParam W id ⟨b, .string⟩) s fun p t =>
      p = ⟨ofBytes x, .string⟩ ∧ Logs [] s t := by
  refine (runs_selDeserializeString h s).bind fun r t hrun => ?_
  obtain ⟨hr, ht⟩ := hrun
  refine runs_pure ⟨?_, ht⟩
  rw [hr]

/-- All rounds read the first element. -/
theorem foldlM_vectorRound {d first : Buf} (hfirst : bufAdd b.data 8 = some first) (n : Nat)
    (hn : n < 12) :
    (List.range (n + 1)).foldlM (vectorRound idResPQ b) d = some first := by
  induction n with
  | zero =>
    show (vectorRound idResPQ b d 0).bind some = _
    rw [vectorRound, if_pos rfl, if_pos (by norm_num), hfirst, Option.bind_some]
  | succ n ih =>
    have ih := ih (by omega)
    rw [List.range_succ, List.foldlM_append, ih, Option.bind_eq_bind, Option.bind_some]
    show (vectorRound idResPQ b first (n + 1)).bind some = _
    rw [vectorRound, if_pos rfl, if_pos hn, hfirst, Option.bind_some]

theorem runs_vector {n : Nat} {v : UInt64} (hn : n < 12)
    (h : Holds b (le32 idVector ++ (le32 (UInt32.ofNat (n + 1)) ++ (le64 v ++ y)))) (s : Client) :
    Runs (selDeserializeParam W idResPQ ⟨b, .vectorLong⟩) s fun p t =>
      p = ⟨ofBytes (le64 v), .vectorLong⟩ ∧ Logs [] s t := by
  have hle := h.length_le
  simp only [List.length_append, le32_length, le64_length] at hle
  have hq : (UInt32.ofNat (n + 1)).toNat = n + 1 := UInt32.toNat_ofNat_of_lt' (by
    rw [UInt32.size]
    omega)
  have hcount : Holds (ofBytes (le32 (UInt32.ofNat (n + 1)) ++ (le64 v ++ y)))
      (le32 (UInt32.ofNat (n + 1)) ++ (le64 v ++ y)) := holds_ofBytes (by
    simp only [List.length_append, le32_length, le64_length]
    omega)
  have helements : Holds (ofBytes (le64 v ++ y)) (le64 v ++ y) := holds_ofBytes (by
    simp only [List.length_append, le64_length]
    omega)
  have hne : UInt32.ofNat (n + 1) ≠ 0 := by
    rw [ne_eq, ← UInt32.toNat_inj, hq]
    exact Nat.succ_ne_zero n
  have hvector : Runs (selDeserializeVector W idResPQ b) s fun r t =>
      r = ofBytes (le64 v) ∧ Logs [] s t := by
    refine (runs_newLocal .selDeserializeVector s).bind fun d t hrun => ?_
    obtain ⟨_, ht⟩ := hrun
    refine (runs_logIf_neg (not_not.mpr h.bufGetUi32) _ t).bind fun _ u hu => ?_
    refine runs_bind_lift (h.bufAdd_drop rfl rfl) ?_
    rw [hcount.bufGetUi32, if_neg hne]
    refine runs_bind_lift (hcount.bufAdd_drop rfl rfl) (runs_lift ?_ ⟨rfl, ht.trans hu⟩)
    rw [hq]
    exact foldlM_vectorRound (helements.bufAdd_take (le64_length v).symm) n hn
  refine hvector.bind fun r t hrun => ?_
  obtain ⟨hr, ht⟩ := hrun
  refine runs_pure ⟨?_, ht⟩
  rw [hr]

/-- What is written for a parameter. -/
def Serializes (W : World) (p : Param) (x : Bytes) : Prop :=
  ∀ s, Runs (selSerializeParam W p) s fun r t => r = ofBytes x ∧ Logs [] s t

theorem serializes_of_eq {p : Param} {o : Option Buf}
    (hp : selSerializeParam W p = liftM o) (ho : o = some (ofBytes x)) : Serializes W p x :=
  fun s => hp ▸ runs_lift ho ⟨rfl, Logs.refl s⟩

theorem serializes_id (v : UInt32) : Serializes W ⟨ofBytes (le32 v), .id⟩ (le32 v) := by
  refine serializes_of_eq rfl (Holds.bufAdd_take (y := []) ?_ (le32_length v).symm)
  rw [List.append_nil]
  exact holds_ofBytes (by rw [le32_length]; decide)

theorem serializes_int128 (h : Holds b x) (hx : x.length = 16) :
    Serializes W ⟨b, .int128⟩ x :=
  serializes_of_eq rfl (Holds.bufAdd_take (y := []) (by rwa [List.append_nil]) hx.symm)

theorem serializes_int256 (h : Holds b x) (hx : x.length = 32) :
    Serializes W ⟨b, .int256⟩ x :=
  serializes_of_eq rfl (Holds.bufAdd_take (y := []) (by rwa [List.append_nil]) hx.symm)

theorem serializes_vectorLong (h : Holds b x) : Serializes W ⟨b, .vectorLong⟩ x :=
  serializes_of_eq rfl h.bufAdd_self

theorem serializes_string (h : Holds b x) (hx : x.length + 8 ≤ maxBufSize) :
    Serializes W ⟨b, .string⟩ (serializeBytes x) :=
  serializes_of_eq rfl (selSerializeString_eq h hx)

/-- `retry_id` has the size of half a `long`. -/
theorem serializes_retryId : Serializes W ⟨ofBytes (le32 0), .long⟩ (List.replicate 8 0) :=
  serializes_of_eq rfl (bufAdd_eq (by rw [Buf.data_length]; decide) (by decide))

theorem runs_selSerialize {params : List Param} {xs : List Bytes}
    (h : List.Forall₂ (Serializes W) params xs) (hxs : xs.flatten.length ≤ maxBufSize)
    (s : Client) :
    Runs (selSerialize W params) s fun r t => r = ofBytes xs.flatten ∧ Logs [] s t := by
  suffices hfold : ∀ (a : Bytes) (s : Client), a.length + xs.flatten.length ≤ maxBufSize →
      Runs (params.foldlM (fun s p => do
        let b ← selSerializeParam W p
        bufCat s b) (ofBytes a)) s fun r t => r = ofBytes (a ++ xs.flatten) ∧ Logs [] s t by
    exact hfold [] s (by rwa [List.length_nil, Nat.zero_add])
  clear hxs s
  induction h with
  | nil =>
    intro a s _
    exact runs_pure ⟨by rw [List.flatten_nil, List.append_nil], Logs.refl s⟩
  | @cons p x params xs hp _ ih =>
    intro a s hle
    rw [List.flatten_cons, List.length_append] at hle
    rw [List.foldlM_cons, List.flatten_cons, ← List.append_assoc]
    have hcat : bufCat (ofBytes a) (ofBytes x) = some (ofBytes (a ++ x)) :=
      bufCat_ofBytes (holds_ofBytes (by omega)) (by omega)
    have hone : Runs (do
        let b ← selSerializeParam W p
        (bufCat (ofBytes a) b : ClientM Buf)) s fun r t => r = ofBytes (a ++ x) ∧ Logs [] s t := by
      refine (hp s).bind fun r t hrun => ?_
      obtain ⟨hr, ht⟩ := hrun
      refine runs_lift ?_ ⟨rfl, ht⟩
      rw [hr, hcat]
    refine hone.bind fun r t hrun => ?_
    obtain ⟨hr, ht⟩ := hrun
    rw [hr]
    refine (ih (a ++ x) t ?_).mono fun r u hrun => ⟨hrun.1, ht.trans hrun.2⟩
    rw [List.length_append]
    omega

/-! ## The stack -/

theorem runs_hdlHeader (h : Holds b x) (hx : x.length + 12 ≤ maxBufSize) (s : Client) :
    Runs (hdlHeader W b) s fun r t => Logs [] s t ∧
      ∃ m, r = ofBytes (le64 m ++ (le32 (UInt32.ofNat x.length) ++ x)) := by
  have htime : Runs (getCurrentTime W) s fun _ t => Logs [] s t :=
    ⟨_, _, rfl, rfl, rfl, rfl, (List.append_nil _).symm, rfl, Nat.le_succ _⟩
  refine htime.bind fun m t ht => ?_
  have hid : bufAddUi64 m = some (ofBytes (le64 m)) :=
    bufAdd_eq (by rw [le64_length]; rfl) (by decide)
  have hlen8 : (le64 m).length ≤ maxBufSize := by
    rw [le64_length]
    decide
  have hcat : bufCat zeroBuf (ofBytes (le64 m)) = some (ofBytes (le64 m)) :=
    bufCat_ofBytes (holds_ofBytes hlen8) (by rwa [List.length_nil, Nat.zero_add])
  have hcat₂ : bufCat (ofBytes (le64 m)) (ofBytes (le32 b.size)) =
      some (ofBytes (le64 m ++ le32 b.size)) :=
    bufCat_ofBytes (holds_ofBytes (by rw [le32_length]; decide))
      (by rw [le64_length, le32_length]; decide)
  have hcat₃ : bufCat (ofBytes (le64 m ++ le32 b.size)) b =
      some (ofBytes (le64 m ++ le32 b.size ++ x)) :=
    bufCat_ofBytes h (by rw [List.length_append, le64_length, le32_length]; omega)
  refine runs_bind_lift hid (runs_bind_lift hcat (runs_bind_lift (bufAddUi32_eq _) ?_))
  refine runs_bind_lift hcat₂ (runs_lift hcat₃ ⟨ht, m, ?_⟩)
  rw [List.append_assoc, h.size_eq]

theorem enlEncrypt_eq (h : Holds b x) (hx : x.length + 8 ≤ maxBufSize) :
    enlEncrypt b = some (ofBytes (List.replicate 8 0 ++ x)) := by
  have hzeros : bufAdd zeroBuf.data 8 = some (ofBytes (List.replicate 8 0)) :=
    bufAdd_eq (by rw [Buf.data_length]; decide) (by decide)
  rw [enlEncrypt, hzeros, Option.bind_eq_bind, Option.bind_some,
    bufCat_ofBytes h (by rw [List.length_replicate]; omega)]

theorem trlTransport_eq (h : Holds b x) (hx : x.length + 4 ≤ maxBufSize) :
    trlTransport b = some (ofBytes (le32 (UInt32.ofNat x.length) ++ x)) := by
  rw [trlTransport, bufAddUi32_eq, Option.bind_eq_bind, Option.bind_some,
    bufCat_ofBytes h (by rw [le32_length]; omega), h.size_eq]

theorem runs_netReceive {reply : Bytes} (hlen : reply.length ≤ maxBufSize)
    (hrecv : W.recv s.sent = .data reply) :
    Runs (netReceive W) s fun r t => Holds r reply ∧ Logs [] s t := by
  refine (runs_newLocal .netReceive s).bind fun buf t hrun => ?_
  obtain ⟨_, ht⟩ := hrun
  refine (runs_get t).bind fun c u hrun => ?_
  obtain ⟨hc, hu⟩ := hrun
  rw [hc, hu, ht.sent, hrecv]
  refine runs_pure ⟨?_, ht⟩
  rw [List.take_of_length_le hlen]
  exact holds_over (b := { buf with size := UInt32.ofNat _ }) hlen (toNat_ofNat_length hlen)

/-- A packet as the stack takes it apart. -/
theorem runs_trlDetransport (h : Holds b (le32 (UInt32.ofNat x.length) ++ x)) (s : Client) :
    Runs (trlDetransport b) s fun r t =>
      r = ofBytes x ∧ Logs ["trl_transport: len mismatch"] s t := by
  have hle := h.length_le
  have hsize := h.size
  rw [List.length_append, le32_length] at hle hsize
  have hne : b.size ≠ 0 := by
    intro hzero
    rw [hzero, UInt32.toNat_zero] at hsize
    omega
  have hlen {v : UInt32} : (le32 v).length ≤ maxBufSize := by
    rw [le32_length]
    decide
  have hdiffer : le32 (UInt32.ofNat x.length) ≠ le32 b.size := by
    intro heq
    have hnat := congrArg UInt32.toNat (le32_inj heq)
    rw [toNat_ofNat_length (by omega), hsize] at hnat
    omega
  refine (runs_logIf_neg hne _ s).bind fun _ t ht => ?_
  refine runs_bind_lift (h.bufAdd_take (le32_length _).symm) (runs_bind_lift (bufAddUi32_eq _) ?_)
  refine (runs_bufCmp (holds_ofBytes hlen) (holds_ofBytes hlen)
    (by rw [le32_length, le32_length]) t).bind fun r u hrun => ?_
  obtain ⟨hr, hu⟩ := hrun
  have hlog : (!r) = true := by simp [hr, hdiffer]
  refine (runs_logIf_pos hlog _ u).bind fun _ v hv => ?_
  exact runs_lift (h.bufAdd_drop (le32_length _).symm (le32_length _).symm)
    ⟨rfl, (ht.trans hu).trans hv⟩

theorem runs_enlDecrypt (h : Holds b (List.replicate 8 0 ++ x)) (s : Client) :
    Runs (enlDecrypt b) s fun r t => r = ofBytes x ∧ Logs [] s t := by
  have hkey : Holds { zeroBuf with size := 8 } (List.replicate 8 0) := by
    rw [ofBytes_zeros (by decide)]
    exact holds_ofBytes (by decide)
  refine runs_bind_lift (h.bufAdd_take rfl) ?_
  refine (runs_bufCmp hkey (holds_ofBytes (by decide)) rfl s).bind fun r t hrun => ?_
  obtain ⟨hr, ht⟩ := hrun
  have hsame : ¬ (!r) = true := by simp [hr]
  refine (runs_logIf_neg hsame _ t).bind fun _ u hu => ?_
  exact runs_lift (h.bufAdd_drop rfl rfl) ⟨rfl, ht.trans hu⟩

theorem runs_hdlDeheader {m : UInt64}
    (h : Holds b (le64 m ++ (le32 (UInt32.ofNat x.length) ++ x))) (s : Client) :
    Runs (hdlDeheader b) s fun r t => r = ofBytes x ∧ Logs [] s t := by
  have hle := h.length_le
  simp only [List.length_append, le32_length, le64_length] at hle
  have hd : Holds (ofBytes (le32 (UInt32.ofNat x.length) ++ x))
      (le32 (UInt32.ofNat x.length) ++ x) := holds_ofBytes (by
    rw [List.length_append, le32_length]
    omega)
  have hsize : (ofBytes (le32 (UInt32.ofNat x.length) ++ x)).size - 4 =
      UInt32.ofNat x.length := by
    have hnat := hd.size
    rw [List.length_append, le32_length] at hnat
    rw [← UInt32.toNat_inj, UInt32.toNat_sub_of_le _ _ (UInt32.le_iff_toNat_le.mpr (by
      rw [hnat]
      exact Nat.le_add_right 4 _)), hnat, toNat_ofNat_length (by omega)]
    exact Nat.add_sub_cancel_left 4 _
  refine runs_bind_lift (h.bufAdd_drop (le64_length _).symm (le64_length _).symm) ?_
  have hsame : ¬ bufGetUi32 (ofBytes (le32 (UInt32.ofNat x.length) ++ x)) ≠
      (ofBytes (le32 (UInt32.ofNat x.length) ++ x)).size - 4 := by
    rw [hd.bufGetUi32, hsize]
    exact not_not.mpr rfl
  refine (runs_logIf_neg hsame _ s).bind fun _ t ht => runs_lift ?_ ⟨rfl, ht⟩
  exact hd.bufAdd_drop (le32_length _).symm (le32_length _).symm

theorem selDeserialize_eq {id : UInt32} (h : Holds b (le32 id ++ x)) :
    selDeserialize b = some (ofBytes (le32 id), ofBytes x) := by
  have hdrop : bufAdd (b.data.drop 4) (b.size - 4) = some (ofBytes x) :=
    h.bufAdd_drop (le32_length id).symm (le32_length id).symm
  rw [selDeserialize, h.bufGetUi32, bufAddUi32_eq, Option.bind_eq_bind, Option.bind_some, hdrop,
    Option.bind_some]

/-- What a request leaves behind. -/
structure Drove (body : Bytes) (s t : Client) : Prop where
  sharedRc : t.sharedRc = s.sharedRc
  types : t.t = s.t
  flag : t.resetTgApiTypeSystemFlag = s.resetTgApiTypeSystemFlag
  errors : t.errors = s.errors ++ ["trl_transport: len mismatch"]
  sent : ∃ m, t.sent = s.sent ++ [plainPacket m body]
  ticks : s.ticks ≤ t.ticks

/-- A request and its answer: whatever the clock says, the length of the answer is complained
about. -/
theorem runs_stkDrive {params : List Param} {xs : List Bytes} {id : UInt32}
    (h : List.Forall₂ (Serializes W) params xs) (hne : xs.flatten ≠ [])
    (hle : xs.flatten.length + 24 ≤ maxBufSize) (hrest : x.length + 28 ≤ maxBufSize)
    (hrecv : ∀ m, ∃ m', W.recv (s.sent ++ [plainPacket m xs.flatten]) =
      .data (plainPacket m' (le32 id ++ x))) :
    Runs (stkDrive W params) s fun a t =>
      a = (ofBytes (le32 id), ofBytes x) ∧ Drove xs.flatten s t := by
  set body := xs.flatten with hbody
  have hnonempty {y z : Bytes} (hy : y ≠ []) : z ++ y ≠ [] := fun hnil =>
    hy (List.append_eq_nil_iff.mp hnil).2
  refine (runs_selSerialize h (by rw [← hbody]; omega) s).bind fun b t hrun => ?_
  obtain ⟨hb, ht⟩ := hrun
  rw [hb, ← hbody]
  have hholds : Holds (ofBytes body) body := holds_ofBytes (by omega)
  refine (runs_bufDump hholds hne t).bind fun _ t₁ ht₁ => ?_
  refine (runs_hdlHeader hholds (by omega) t₁).bind fun b₁ t₂ hrun => ?_
  obtain ⟨ht₂, m, hb₁⟩ := hrun
  rw [hb₁]
  set header := le64 m ++ (le32 (UInt32.ofNat body.length) ++ body) with hheader
  have hheaderlen : header.length = body.length + 12 := by
    simp only [hheader, List.length_append, le64_length, le32_length]
    omega
  have hholds₁ : Holds (ofBytes header) header := holds_ofBytes (by omega)
  refine (runs_bufDump hholds₁ (hnonempty (hnonempty hne)) t₂).bind fun _ t₃ ht₃ => ?_
  refine runs_bind_lift (enlEncrypt_eq hholds₁ (by omega)) ?_
  set message := List.replicate 8 0 ++ header with hmessage
  have hmessagelen : message.length = body.length + 20 := by
    rw [hmessage, List.length_append, List.length_replicate, hheaderlen]
    omega
  have hholds₂ : Holds (ofBytes message) message := holds_ofBytes (by omega)
  refine (runs_bufDump hholds₂ (hnonempty (hnonempty (hnonempty hne))) t₃).bind fun _ t₄ ht₄ => ?_
  refine runs_bind_lift (trlTransport_eq hholds₂ (by omega)) ?_
  have hpacket : le32 (UInt32.ofNat message.length) ++ message = plainPacket m body := rfl
  rw [hpacket]
  have hpacketlen := length_plainPacket m body
  have hholds₃ : Holds (ofBytes (plainPacket m body)) (plainPacket m body) :=
    holds_ofBytes (by omega)
  refine (runs_bufDump hholds₃ (List.ne_nil_of_length_pos (by omega)) t₄).bind fun _ t₅ ht₅ => ?_
  have hbefore := ((((ht.trans ht₁).trans ht₂).trans ht₃).trans ht₄).trans ht₅
  obtain ⟨m', hreply⟩ := hrecv m
  have hanswerlen : (le32 id ++ x).length = x.length + 4 := by
    rw [List.length_append, le32_length]
    omega
  have hreplylen : (plainPacket m' (le32 id ++ x)).length ≤ maxBufSize := by
    rw [length_plainPacket, hanswerlen]
    omega
  -- the packet is sent, and what comes is read back
  refine Runs.bind (P := fun r u => Holds r (plainPacket m' (le32 id ++ x)) ∧
    Logs [] { t₅ with sent := s.sent ++ [plainPacket m body] } u) ?_ fun nr t₆ hreceive => ?_
  · rw [netDrive, netSend, if_pos (hholds₃.size.trans_le hholds₃.length_le), hholds₃.bytes]
    refine (runs_step _ t₅).bind fun _ u hu => ?_
    rw [hu, hbefore.sent]
    exact runs_netReceive hreplylen hreply
  obtain ⟨hnr, ht₆⟩ := hreceive
  refine (runs_bufDump hnr (List.ne_nil_of_length_pos (by
    rw [length_plainPacket]
    omega)) t₆).bind fun _ t₇ ht₇ => ?_
  have hpartslen {y : Bytes} {n : Nat}
      (hy : y.length + n = (plainPacket m' (le32 id ++ x)).length) : Holds (ofBytes y) y :=
    holds_ofBytes (by omega)
  have hreplyeq := length_plainPacket m' (le32 id ++ x)
  refine (runs_trlDetransport hnr t₇).bind fun tr t₈ hrun => ?_
  obtain ⟨htr, ht₈⟩ := hrun
  rw [htr]
  refine (runs_enlDecrypt (hpartslen (n := 4) (by
    simp only [List.length_append, List.length_replicate, le32_length, le64_length] at hreplyeq ⊢
    omega)) t₈).bind fun d t₉ hrun => ?_
  obtain ⟨hd, ht₉⟩ := hrun
  rw [hd]
  refine (runs_hdlDeheader (hpartslen (n := 12) (by
    simp only [List.length_append, le32_length, le64_length] at hreplyeq ⊢
    omega)) t₉).bind fun s1r t₁₀ hrun => ?_
  obtain ⟨hs1r, ht₁₀⟩ := hrun
  rw [hs1r]
  have hafter := (((ht₆.trans ht₇).trans ht₈).trans ht₉).trans ht₁₀
  refine runs_lift (selDeserialize_eq (hpartslen (n := 24) (by omega))) ⟨rfl, ?_⟩
  refine ⟨hafter.sharedRc.trans hbefore.sharedRc, hafter.types.trans hbefore.types,
    hafter.flag.trans hbefore.flag, ?_, ⟨m, hafter.sent⟩, hbefore.ticks.trans hafter.ticks⟩
  simp only [hafter.errors, hbefore.errors, List.append_nil, List.nil_append]

end Libtg.Mtx
