import Libtg.Lib.Loop
import Libtg.Tl.Buf

/-!
# Packets from the socket (`_tg_receive` in `tg/queue.c`, `tg_receive` in `tg/send_query.c`)

Both functions take a length word off the socket, make room for that many bytes and collect them in
a loop; only then the packet is looked at, and nothing more is read. `receive` is that much of the
two. The length word is asked for once, into a variable that was never set, and `recv` may answer
with fewer bytes than asked for.

The socket is a state with a function for `recv`. For `extracts_iff` the state is the position in
the stream of the server; the splits of TCP are arbitrary. For `endsWell_iff` it counts the calls of
`recv`; their results are arbitrary.
-/

namespace Libtg.Framing

open LittleEndian Loop

/-! ## The two functions -/

/-- `recv s n` asks for `n` bytes; `none` is a negative result. -/
structure Socket (σ : Type) where
  recv : σ → Nat → Option Bytes × σ
  bounded (s : σ) (n : Nat) (b : Bytes) : (recv s n).1 = some b → b.length ≤ n

/-- How a call ends: `error` is a failed `recv`, `cancelled` the wish of the callback, `noMemory`
the report of `buf_realloc`, `crashed` a second `free` of a block, and `packet` are the bytes the
function goes on with. -/
inductive Framed where
  | error
  | cancelled
  | noMemory
  | crashed
  | packet (b : Bytes)
  deriving DecidableEq

/-- `len` after its `recv`: what came, in front of what the bytes behind it held before. -/
def lenAfter (garbage : UInt32) (b : Bytes) : UInt32 := get32 (b ++ (le32 garbage).drop b.length)

/-- `buf_realloc` on a new buffer. For one size the `size + 1` handed to `realloc` is 0, which
frees the block and answers `NULL`. -/
def reallocFails (len : UInt32) : Bool := BUFSIZ < len.toNat && len + 1 == 0

variable {σ : Type}

/-- One round of the loop that collects the body, of which `r` is there. -/
def bodyStep (K : Socket σ) (progress : σ → Nat → Nat → Bool) (len : Nat) :
    Bytes × σ → (Framed × σ) ⊕ (Bytes × σ)
  | (r, s) =>
    if r.length < len then
      match K.recv s (len - r.length) with
      | (none, s) => .inl (.error, s)
      | (some piece, s) =>
        -- `int s` holds the count
        if 2 ^ 31 ≤ piece.length then .inl (.error, s)
        else
          let r := r ++ piece
          if progress s r.length len then .inl (.cancelled, s) else .inr (r, s)
    else .inl (.packet r, s)

/-- What the functions have in common. `garbage s` is in `len` when the call begins, `onRealloc`
is what follows where `buf_realloc` fails. -/
def receive (K : Socket σ) (garbage : σ → UInt32) (onRealloc : Framed)
    (progress : σ → Nat → Nat → Bool) (fuel : Nat) (s : σ) : Option (Framed × σ) :=
  match K.recv s 4 with
  | (none, t) => some (.error, t)
  | (some b, t) =>
    let len := lenAfter (garbage s) b
    -- the test `len < 0` of an unsigned number
    if reallocFails len then some (onRealloc, t)
    else run (bodyStep K progress len.toNat) fuel ([], t)

/-- `_tg_receive`. It hands the buffer to `buf_free` also where `realloc` has freed its block. -/
def queueTgReceive (K : Socket σ) (garbage : σ → UInt32) (progress : σ → Nat → Nat → Bool)
    (fuel : Nat) (s : σ) : Option (Framed × σ) :=
  receive K garbage .crashed progress fuel s

/-- `tg_receive`, whose callback cannot cancel. `isset` is the test of the descriptor. -/
def tgReceive (K : Socket σ) (garbage : σ → UInt32) (isset : Bool) (fuel : Nat) (s : σ) :
    Option (Framed × σ) :=
  if isset then receive K garbage .noMemory (fun _ _ _ => false) fuel s else some (.error, s)

/-! ## One call -/

/-- The call returns `r`: some fuel is enough. -/
def Answers (f : Nat → σ → Option (Framed × σ)) (s : σ) (r : Framed × σ) : Prop :=
  ∃ fuel, f fuel s = some r

/-- The call is still reading after the length word: of the body `q` bytes have come, in pieces an
`int` can count and the callback let pass. -/
inductive Reading (K : Socket σ) (progress : σ → Nat → Nat → Bool) (len : Nat) (s : σ) :
    Nat → σ → Prop
  | start : Reading K progress len s 0 s
  | piece {q : Nat} {t u : σ} {b : Bytes} :
      Reading K progress len s q t → q < len → K.recv t (len - q) = (some b, u) →
      b.length < 2 ^ 31 → progress u (q + b.length) len = false →
      Reading K progress len s (q + b.length) u

section
variable {K : Socket σ} {garbage : σ → UInt32} {onRealloc : Framed}
  {progress : σ → Nat → Nat → Bool} {len q : Nat} {s t u : σ} {b r : Bytes} {out : Framed × σ}

@[simp] theorem lenAfter_of_length {g : UInt32} (h : b.length = 4) : lenAfter g b = get32 b := by
  have hrest : (le32 g).drop b.length = [] := List.drop_eq_nil_of_le (by rw [h, le32_length])
  rw [lenAfter, hrest, List.append_nil]

theorem bodyStep_done (h : len ≤ r.length) :
    bodyStep K progress len (r, s) = .inl (.packet r, s) := by
  rw [bodyStep, if_neg (by omega)]

theorem bodyStep_error (h : r.length < len) (hrecv : K.recv s (len - r.length) = (none, t)) :
    bodyStep K progress len (r, s) = .inl (.error, t) := by
  rw [bodyStep, if_pos h, hrecv]

theorem bodyStep_piece (h : r.length < len) (hrecv : K.recv s (len - r.length) = (some b, t)) :
    bodyStep K progress len (r, s) =
      if 2 ^ 31 ≤ b.length then .inl (.error, t)
      else if progress t (r ++ b).length len then .inl (.cancelled, t) else .inr (r ++ b, t) := by
  rw [bodyStep, if_pos h, hrecv]

/-- What a round can do. -/
theorem bodyStep_cases {next : (Framed × σ) ⊕ (Bytes × σ)}
    (h : bodyStep K progress len (r, s) = next) :
    (len ≤ r.length ∧ next = .inl (.packet r, s)) ∨
    (r.length < len ∧ ∃ t, K.recv s (len - r.length) = (none, t) ∧ next = .inl (.error, t)) ∨
    (r.length < len ∧ ∃ b t, K.recv s (len - r.length) = (some b, t) ∧
      (2 ^ 31 ≤ b.length ∧ next = .inl (.error, t) ∨
        b.length < 2 ^ 31 ∧ progress t (r ++ b).length len = true ∧ next = .inl (.cancelled, t) ∨
        b.length < 2 ^ 31 ∧ progress t (r ++ b).length len = false ∧ next = .inr (r ++ b, t))) := by
  subst h
  by_cases hlt : r.length < len
  · rcases hrecv : K.recv s (len - r.length) with ⟨_ | b, t⟩
    · exact .inr (.inl ⟨hlt, t, rfl, bodyStep_error hlt hrecv⟩)
    · refine .inr (.inr ⟨hlt, b, t, rfl, ?_⟩)
      rw [bodyStep_piece hlt hrecv]
      split_ifs with hbig hcancel
      · exact .inl ⟨hbig, rfl⟩
      · exact .inr (.inl ⟨by omega, hcancel, rfl⟩)
      · exact .inr (.inr ⟨by omega, by simpa using hcancel, rfl⟩)
  · exact .inl ⟨by omega, bodyStep_done (by omega)⟩

/-- The loop goes on in one way only. -/
theorem bodyStep_next (h : bodyStep K progress len (r, s) = .inr (b, t)) :
    ∃ piece, b = r ++ piece ∧ r.length < len ∧ K.recv s (len - r.length) = (some piece, t) ∧
      piece.length < 2 ^ 31 ∧ progress t b.length len = false := by
  obtain ⟨-, h'⟩ | ⟨-, _, -, h'⟩ | ⟨hlt, piece, u, hrecv, ⟨-, h'⟩ | ⟨-, -, h'⟩ | ⟨hs, hp, h'⟩⟩ :=
    bodyStep_cases h
  all_goals cases h'
  exact ⟨piece, rfl, hlt, hrecv, hs, hp⟩

/-- The states of `Reading` are the states of the loop. -/
theorem Reading.visits (h : Reading K progress len s q t) :
    ∃ r, r.length = q ∧ Visits (bodyStep K progress len) ([], s) (r, t) := by
  induction h with
  | start => exact ⟨[], rfl, .enter⟩
  | @piece q t u b _ hlt hrecv hsmall hpass ih =>
    obtain ⟨r, rfl, hvisits⟩ := ih
    refine ⟨r ++ b, List.length_append, hvisits.next ?_⟩
    rw [bodyStep_piece hlt hrecv, if_neg (by omega), List.length_append, hpass]
    rfl

/-- What a loop that returns a packet passes on its way. -/
theorem passes_of_packet (h : Yields (bodyStep K progress len) (r, s) (.packet b, u))
    (hlt : r.length < len) {piece : Bytes}
    (hrecv : K.recv s (len - r.length) = (some piece, t)) :
    piece.length < 2 ^ 31 ∧ progress t (r.length + piece.length) len = false := by
  have hstep : bodyStep K progress len (r, s) = _ := bodyStep_piece hlt hrecv
  rw [List.length_append] at hstep
  split_ifs at hstep with hbig hcancel
  · cases (yields_leave hstep).mp h
  · cases (yields_leave hstep).mp h
  · exact ⟨by omega, by simpa using hcancel⟩

theorem receive_error (h : K.recv s 4 = (none, t)) :
    Answers (receive K garbage onRealloc progress) s out ↔ out = (.error, t) := by
  constructor
  · rintro ⟨fuel, hrun⟩
    rw [receive, h] at hrun
    exact (Option.some.inj hrun).symm
  · rintro rfl
    exact ⟨0, by rw [receive, h]⟩

theorem receive_noRoom (h : K.recv s 4 = (some b, t))
    (hroom : reallocFails (lenAfter (garbage s) b) = true) :
    Answers (receive K garbage onRealloc progress) s out ↔ out = (onRealloc, t) := by
  constructor
  · rintro ⟨fuel, hrun⟩
    rw [receive, h] at hrun
    simp only [hroom, if_true] at hrun
    exact (Option.some.inj hrun).symm
  · rintro rfl
    exact ⟨0, by rw [receive, h]; simp only [hroom, if_true]⟩

theorem receive_body (h : K.recv s 4 = (some b, t))
    (hroom : reallocFails (lenAfter (garbage s) b) = false) :
    Answers (receive K garbage onRealloc progress) s out ↔
      Yields (bodyStep K progress (lenAfter (garbage s) b).toNat) ([], t) out := by
  simp only [Answers, receive, h, hroom, Bool.false_eq_true, if_false, Yields]

theorem receive_unique {out' : Framed × σ}
    (h : Answers (receive K garbage onRealloc progress) s out)
    (h' : Answers (receive K garbage onRealloc progress) s out') : out = out' := by
  rcases hrecv : K.recv s 4 with ⟨_ | b, t⟩
  · rw [(receive_error hrecv).mp h, (receive_error hrecv).mp h']
  · cases hroom : reallocFails (lenAfter (garbage s) b) with
    | true => rw [(receive_noRoom hrecv hroom).mp h, (receive_noRoom hrecv hroom).mp h']
    | false => exact ((receive_body hrecv hroom).mp h).unique ((receive_body hrecv hroom).mp h')

end

/-! ## However TCP cuts the stream -/

/-- A packet of the server: the length word can hold its length. -/
structure Sent where
  bytes : Bytes
  lt : bytes.length < 2 ^ 32

def Sent.frame (p : Sent) : Bytes := le32 (UInt32.ofNat p.bytes.length) ++ p.bytes

def streamOf (ps : List Sent) : Bytes := ps.flatMap Sent.frame

/-- How the stream is cut: asked for `n` bytes at a position, `recv` gives between 1 and `n`. -/
structure Splitting where
  piece : Nat → Nat → Nat
  pos (a n : Nat) : 0 < n → 0 < piece a n
  le (a n : Nat) : piece a n ≤ n

/-- The socket with this stream behind it, at a position of the stream. -/
def Splitting.socket (S : Splitting) (stream : Bytes) : Socket Nat where
  recv a n :=
    let b := (stream.drop a).take (S.piece a n)
    (some b, a + b.length)
  bounded a n b h := by
    cases h
    exact (List.length_take_le _ _).trans (S.le a n)

/-- `P` of each packet and the position where it begins. -/
def Along (P : Nat → Sent → Prop) : Nat → List Sent → Prop
  | _, [] => True
  | a, p :: ps => P a p ∧ Along P (a + p.frame.length) ps

/-- The calls one after the other: each returns the packet it is at and stops where the next one
begins. -/
def Extracts (f : Nat → Nat → Option (Framed × Nat)) (ps : List Sent) : Prop :=
  Along (fun a p => Answers f a (.packet p.bytes, a + p.frame.length)) 0 ps

/-- What the function cannot do without: the length word in one piece, a length `buf_realloc` can
handle, pieces an `int` can count, and a callback that does not cancel. -/
structure Unharmed (S : Splitting) (stream : Bytes) (progress : Nat → Nat → Nat → Bool) (a : Nat)
    (p : Sent) : Prop where
  whole : S.piece a 4 = 4
  room : p.bytes.length ≠ 2 ^ 32 - 1
  pieces (q t : Nat) : Reading (S.socket stream) progress p.bytes.length (a + 4) q t →
    q < p.bytes.length → S.piece t (p.bytes.length - q) < 2 ^ 31 ∧
      progress (t + S.piece t (p.bytes.length - q)) (q + S.piece t (p.bytes.length - q))
        p.bytes.length = false

section
variable {S : Splitting} {stream rest : Bytes} {garbage : Nat → UInt32} {onRealloc : Framed}
  {progress : Nat → Nat → Nat → Bool} {a n t u len : Nat} {p : Sent} {r : Bytes}

theorem Sent.toNat_length (p : Sent) : (UInt32.ofNat p.bytes.length).toNat = p.bytes.length := by
  rw [UInt32.toNat_ofNat']
  exact Nat.mod_eq_of_lt p.lt

theorem Sent.frame_length (p : Sent) : p.frame.length = 4 + p.bytes.length := by
  rw [frame, List.length_append, le32_length]

theorem reallocFails_eq_false {len : UInt32} :
    reallocFails len = false ↔ len.toNat ≠ 2 ^ 32 - 1 := by
  have hlt := len.toNat_lt
  have hsucc : (len + 1 = 0) ↔ len.toNat = 2 ^ 32 - 1 := by
    rw [← UInt32.toNat_inj, UInt32.toNat_add]
    change (len.toNat + 1) % 2 ^ 32 = 0 ↔ _
    omega
  rw [reallocFails, Bool.and_eq_false_iff, decide_eq_false_iff_not, beq_eq_false_iff_ne, ne_eq,
    hsucc, BUFSIZ]
  omega

theorem socket_recv (S : Splitting) (stream : Bytes) (a n : Nat) :
    (S.socket stream).recv a n =
      (some ((stream.drop a).take (S.piece a n)),
        a + ((stream.drop a).take (S.piece a n)).length) :=
  rfl

/-- Inside a packet the stream does not end. -/
theorem piece_length (hn : n ≤ (stream.drop a).length) :
    ((stream.drop a).take (S.piece a n)).length = S.piece a n :=
  List.length_take_of_le ((S.le a n).trans hn)

theorem Reading.position (h : Reading (S.socket stream) progress len a n t) : t = a + n := by
  induction h with
  | start => rfl
  | piece _ _ hrecv _ _ ih =>
    rw [socket_recv] at hrecv
    cases hrecv
    rw [ih, Nat.add_assoc]

/-- The body of a packet is all there. -/
theorem body_length (hstream : stream.drop a = p.frame ++ rest) (q : Nat) :
    p.bytes.length - q ≤ (stream.drop (a + 4 + q)).length := by
  have hlen := congrArg List.length hstream
  rw [List.length_append, List.length_drop, p.frame_length] at hlen
  rw [List.length_drop]
  omega

/-- A packet has the length the loop was told, and the position moves by it. -/
theorem body_position
    (h : Yields (bodyStep (S.socket stream) progress len) ([], t) (.packet r, u)) :
    r.length = len ∧ u = t + len := by
  refine h.post (I := fun x => x.1.length ≤ len ∧ x.2 = t + x.1.length)
    (Q := fun out => ∀ r, out.1 = .packet r → r.length = len ∧ out.2 = t + len)
    ⟨Nat.zero_le _, rfl⟩ ?leave ?next r rfl
  case leave =>
    rintro ⟨x, s⟩ out ⟨hle, hpos⟩ hstep r hr
    dsimp only at hle hpos
    obtain ⟨hdone, h'⟩ | ⟨-, _, -, h'⟩ | ⟨-, _, _, -, ⟨-, h'⟩ | ⟨-, -, h'⟩ | ⟨-, -, h'⟩⟩ :=
      bodyStep_cases hstep
    all_goals cases h'
    all_goals cases hr
    have hlen : x.length = len := by omega
    exact ⟨hlen, by rw [← hlen]; exact hpos⟩
  case next =>
    rintro ⟨x, s⟩ ⟨y, s'⟩ ⟨hle, hpos⟩ hstep
    dsimp only at hle hpos
    obtain ⟨b, rfl, hlt, hrecv, -, -⟩ := bodyStep_next hstep
    have hb : b.length ≤ len - x.length :=
      (S.socket stream).bounded _ _ b (by rw [hrecv])
    have hs' : s' = s + b.length := by
      rw [socket_recv] at hrecv
      cases hrecv
      rfl
    show (x ++ b).length ≤ len ∧ s' = t + (x ++ b).length
    rw [List.length_append]
    omega

/-- The calls that do read a packet as it was sent read it unharmed. -/
theorem unharmed_of_answers (hstream : stream.drop a = p.frame ++ rest)
    (hreal : ∀ b, onRealloc ≠ .packet b)
    (h : Answers (receive (S.socket stream) garbage onRealloc progress) a
      (.packet p.bytes, a + p.frame.length)) :
    Unharmed S stream progress a p := by
  have hfour : 4 ≤ (stream.drop a).length := by
    rw [hstream, List.length_append, p.frame_length]
    omega
  have hrecv := socket_recv S stream a 4
  have hlen := piece_length (S := S) hfour
  have hprefix : (stream.drop a).take 4 = le32 (UInt32.ofNat p.bytes.length) := by
    rw [hstream, Sent.frame, List.append_assoc]
    exact List.take_left' (le32_length _)
  set b := (stream.drop a).take (S.piece a 4) with hb
  have hroom : reallocFails (lenAfter (garbage a) b) = false := by
    by_contra hfails
    rw [receive_noRoom hrecv (by simpa using hfails)] at h
    exact hreal _ (congrArg Prod.fst h).symm
  have hbody := (receive_body hrecv hroom).mp h
  obtain ⟨hbytes, hend⟩ := body_position hbody
  -- the call stops where it must only if the length word came whole
  have hwhole : S.piece a 4 = 4 := by
    rw [p.frame_length] at hend
    omega
  rw [hwhole, hprefix] at hb
  rw [hb, lenAfter_of_length (le32_length _), get32_le32] at hbody hroom
  rw [p.toNat_length, le32_length] at hbody
  refine ⟨hwhole, by rw [← p.toNat_length]; exact reallocFails_eq_false.mp hroom,
    fun q t hreading hlt => ?_⟩
  obtain ⟨r, rfl, hvisits⟩ := hreading.visits
  have hpos := hreading.position
  have hpiece : ((stream.drop t).take (S.piece t (p.bytes.length - r.length))).length =
      S.piece t (p.bytes.length - r.length) := piece_length (hpos ▸ body_length hstream r.length)
  have hpass := passes_of_packet (hvisits.yields.mp hbody) hlt (socket_recv S stream t _)
  rw [hpiece] at hpass
  exact hpass

/-- The invariant of the loop: what is there is the front of the packet. -/
def Collected (S : Splitting) (stream : Bytes) (progress : Nat → Nat → Nat → Bool) (a : Nat)
    (p : Sent) (x : Bytes × Nat) : Prop :=
  x.1 <+: p.bytes ∧
    Reading (S.socket stream) progress p.bytes.length (a + 4) x.1.length x.2

/-- A round of an unharmed call returns the packet or adds to it. -/
theorem Unharmed.round (h : Unharmed S stream progress a p)
    (hbody : stream.drop (a + 4) = p.bytes ++ rest) (x : Bytes × Nat)
    (hx : Collected S stream progress a p x) :
    (∃ out, bodyStep (S.socket stream) progress p.bytes.length x = .inl out ∧
      out = (.packet p.bytes, a + p.frame.length)) ∨
    ∃ y, bodyStep (S.socket stream) progress p.bytes.length x = .inr y ∧
      Collected S stream progress a p y ∧
        p.bytes.length - y.1.length < p.bytes.length - x.1.length := by
  obtain ⟨r, t⟩ := x
  obtain ⟨hfront, hreading⟩ := hx
  dsimp only at hfront hreading
  have hpos : t = a + 4 + r.length := hreading.position
  by_cases hlt : r.length < p.bytes.length
  · refine .inr ?_
    obtain ⟨hsmall, hpass⟩ := h.pieces _ t hreading hlt
    have hn := S.le t (p.bytes.length - r.length)
    have hmore := S.pos t (p.bytes.length - r.length) (by omega)
    have hrecv := socket_recv S stream t (p.bytes.length - r.length)
    generalize S.piece t (p.bytes.length - r.length) = n at *
    have hpiece : (stream.drop t).take n = (p.bytes.drop r.length).take n := by
      rw [hpos, ← List.drop_drop, hbody, List.drop_append_of_le_length hfront.length_le,
        List.take_append_of_le_length (by rw [List.length_drop]; omega)]
    have hcount : ((p.bytes.drop r.length).take n).length = n :=
      List.length_take_of_le (by rw [List.length_drop]; omega)
    rw [hpiece, hcount] at hrecv
    have hr : r = p.bytes.take r.length := List.prefix_iff_eq_take.mp hfront
    have hlonger : r ++ (p.bytes.drop r.length).take n <+: p.bytes := by
      nth_rewrite 1 [hr]
      rw [← List.take_add]
      exact List.take_prefix _ _
    refine ⟨(r ++ (p.bytes.drop r.length).take n, t + n), ?_, ⟨hlonger, ?_⟩, ?_⟩
    · rw [bodyStep_piece hlt hrecv, hcount, if_neg (by omega), List.length_append, hcount, hpass]
      rfl
    · have hnext := hreading.piece hlt hrecv (by omega) (by rw [hcount]; exact hpass)
      rw [List.length_append]
      exact hnext
    · dsimp only
      rw [List.length_append, hcount]
      omega
  · refine .inl ⟨_, bodyStep_done (by omega), ?_⟩
    have hr : r = p.bytes := hfront.eq_of_length_le (by omega)
    rw [hr, hpos, hr, p.frame_length]
    congr 1
    omega

/-- Where nothing harms it the packet is read as it was sent. -/
theorem Unharmed.answers (h : Unharmed S stream progress a p)
    (hstream : stream.drop a = p.frame ++ rest) :
    Answers (receive (S.socket stream) garbage onRealloc progress) a
      (.packet p.bytes, a + p.frame.length) := by
  have hprefix : (stream.drop a).take 4 = le32 (UInt32.ofNat p.bytes.length) := by
    rw [hstream, Sent.frame, List.append_assoc]
    exact List.take_left' (le32_length _)
  have hbody : stream.drop (a + 4) = p.bytes ++ rest := by
    rw [← List.drop_drop, hstream, Sent.frame, List.append_assoc]
    exact List.drop_left' (le32_length _)
  have hrecv := socket_recv S stream a 4
  rw [h.whole, hprefix, le32_length] at hrecv
  have hlen : (lenAfter (garbage a) (le32 (UInt32.ofNat p.bytes.length))).toNat =
      p.bytes.length := by
    rw [lenAfter_of_length (le32_length _), get32_le32, p.toNat_length]
  have hroom : reallocFails (lenAfter (garbage a) (le32 (UInt32.ofNat p.bytes.length))) = false :=
    reallocFails_eq_false.mpr (hlen.symm ▸ h.room)
  have hstart : Collected S stream progress a p ([], a + 4) := ⟨List.nil_prefix, .start⟩
  obtain ⟨out, hout, rfl⟩ := yields_of_measure (fun x => p.bytes.length - x.1.length)
    (h.round hbody) hstart
  rw [receive_body hrecv hroom, hlen]
  exact hout

/-- Where each packet is. -/
theorem along_iff {P Q : Nat → Sent → Prop} {ps : List Sent}
    (h : ∀ a p rest, stream.drop a = p.frame ++ rest → (P a p ↔ Q a p))
    (hstream : stream.drop a = streamOf ps) : Along P a ps ↔ Along Q a ps := by
  induction ps generalizing a with
  | nil => exact Iff.rfl
  | cons p ps ih =>
    rw [streamOf, List.flatMap_cons] at hstream
    have hrest : stream.drop (a + p.frame.length) = streamOf ps := by
      rw [← List.drop_drop, hstream]
      exact List.drop_left
    exact and_congr (h a p _ hstream) (ih hrest)

end

/-- Each call reads its packet as it was sent, and leaves the stream at the next one, exactly when
nothing harms the packets on the way. -/
theorem extracts_iff (S : Splitting) (ps : List Sent) (garbage : Nat → UInt32)
    (progress : Nat → Nat → Nat → Bool) (isset : Bool) :
    (Extracts (queueTgReceive (S.socket (streamOf ps)) garbage progress) ps ↔
      Along (Unharmed S (streamOf ps) progress) 0 ps) ∧
    (Extracts (tgReceive (S.socket (streamOf ps)) garbage isset) ps ↔
      Along (fun a p => isset = true ∧
        Unharmed S (streamOf ps) (fun _ _ _ => false) a p) 0 ps) := by
  constructor
  · refine along_iff (fun a p rest hstream => ?_) List.drop_zero
    exact ⟨unharmed_of_answers hstream (by simp), fun h => h.answers hstream⟩
  · refine along_iff (fun a p rest hstream => ?_) List.drop_zero
    cases isset with
    | false =>
      refine ⟨?_, fun h => absurd h.1 Bool.false_ne_true⟩
      rintro ⟨fuel, hrun⟩
      cases hrun
    | true =>
      refine ⟨fun h => ⟨rfl, unharmed_of_answers hstream (by simp) h⟩, fun h => ?_⟩
      exact h.2.answers hstream

/-- However the stream is cut, the calls return the packets that were sent. -/
def FramingIndependent : Prop :=
  ∀ (S : Splitting) (ps : List Sent) (garbage : Nat → UInt32),
    Extracts (queueTgReceive (S.socket (streamOf ps)) garbage fun _ _ _ => false) ps ∧
      Extracts (tgReceive (S.socket (streamOf ps)) garbage true) ps

/-- One byte at a time. -/
def bytewise : Splitting := ⟨fun _ n => min 1 n, fun _ _ h => by omega, fun _ _ => by omega⟩

/-- A packet of one byte comes bytewise: its length word is taken for the packet. -/
theorem framingIndependent_counterexample : ¬ FramingIndependent := by
  intro h
  obtain ⟨⟨hsent, -⟩, -⟩ := h bytewise [⟨[7], by decide⟩] fun _ => 0
  have hread : Answers (queueTgReceive (bytewise.socket (streamOf [⟨[7], by decide⟩])) (fun _ => 0)
      fun _ _ _ => false) 0 (.packet [0], 2) := ⟨2, by decide⟩
  exact absurd (receive_unique hsent hread) (by decide)

/-! ## However the connection ends -/

/-- The results of `recv` in turn: a failure, or bytes of which a call gets as many as it asks for.
Once the peer has closed the connection the results are empty. -/
structure Results where
  result : Nat → Option Bytes
  closed (k : Nat) : result k = some [] → result (k + 1) = some []

/-- The state counts the calls. -/
def Results.socket (R : Results) : Socket Nat where
  recv k n := ((R.result k).map (List.take n), k + 1)
  bounded k n b h := by
    obtain ⟨c, -, rfl⟩ := Option.map_eq_some_iff.mp h
    exact List.length_take_le n c

/-- What is asked of a call that returned `r` after `calls` calls of `recv`. -/
structure Sound (R : Results) (r : Framed) (calls : Nat) : Prop where
  alive : r ≠ .crashed
  received (b : Bytes) : R.result 0 = some b → b.length < 4 → r = .error ∧ calls ≤ 1
  closed (k : Nat) : k < calls → R.result k = some [] → r = .error

/-- The call returns, decides nothing from a length word that did not come, and reports a closed
connection. -/
def EndsWell (R : Results) (f : Nat → Nat → Option (Framed × Nat)) : Prop :=
  ∃ r calls, Answers f 0 (r, calls) ∧ Sound R r calls

/-- All of the length word came. -/
def LengthWord (R : Results) (len : UInt32) : Prop :=
  ∃ b, R.result 0 = some b ∧ 4 ≤ b.length ∧ len = get32 (b.take 4)

/-- The connection is not closed while the body is read. -/
def StaysOpen (R : Results) (progress : Nat → Nat → Nat → Bool) (len : Nat) : Prop :=
  ∀ q k, Reading R.socket progress len 1 q k → q < len → R.result k ≠ some []

section
variable {R : Results} {garbage : Nat → UInt32} {onRealloc : Framed}
  {progress : Nat → Nat → Nat → Bool} {k n calls len : Nat} {b c : Bytes} {r : Framed}

theorem results_recv (h : R.result k = some c) (n : Nat) :
    R.socket.recv k n = (some (c.take n), k + 1) := by
  show ((R.result k).map _, _) = _
  rw [h]
  rfl

theorem results_fail (h : R.result k = none) (n : Nat) : R.socket.recv k n = (none, k + 1) := by
  show ((R.result k).map _, _) = _
  rw [h]
  rfl

theorem results_count {n : Nat} {a : Option Bytes} {t : Nat} (h : R.socket.recv k n = (a, t)) :
    t = k + 1 :=
  (congrArg Prod.snd h).symm

theorem Results.empty_of_le (h : R.result k = some []) {j : Nat} (hj : k ≤ j) :
    R.result j = some [] := by
  induction j, hj using Nat.le_induction with
  | base => exact h
  | succ j _ ih => exact R.closed j ih

/-- A failure in the loop comes after one more `recv`. -/
theorem body_error (h : Yields (bodyStep R.socket progress len) (b, k) (.error, calls)) :
    k < calls := by
  refine h.post (I := fun x => k ≤ x.2) (Q := fun out => out.1 = .error → k < out.2) (Nat.le_refl k)
    ?leave ?next rfl
  case leave =>
    rintro ⟨x, s⟩ out (hle : k ≤ s) hstep herror
    obtain ⟨-, h'⟩ | ⟨-, t, hrecv, h'⟩ | ⟨-, c, t, hrecv, ⟨-, h'⟩ | ⟨-, -, h'⟩ | ⟨-, -, h'⟩⟩ :=
      bodyStep_cases hstep
    all_goals cases h'
    · cases herror
    · rw [results_count hrecv]
      omega
    · rw [results_count hrecv]
      omega
    · cases herror
  case next =>
    rintro ⟨x, s⟩ ⟨y, t⟩ (hle : k ≤ s) hstep
    obtain ⟨c, -, -, hrecv, -⟩ := bodyStep_next hstep
    show k ≤ t
    rw [results_count hrecv]
    omega

/-- Once the connection is closed in the body only the callback ends the loop. -/
theorem body_closed (h : Yields (bodyStep R.socket progress len) (b, k) (r, calls))
    (hlt : b.length < len) (hclosed : R.result k = some []) : r = .cancelled ∧ k < calls := by
  refine h.post (I := fun x => x.1.length < len ∧ k ≤ x.2)
    (Q := fun out => out.1 = .cancelled ∧ k < out.2) ⟨hlt, Nat.le_refl k⟩ ?leave ?next
  case leave =>
    rintro ⟨x, s⟩ out ⟨hlt, hle⟩ hstep
    dsimp only at hlt hle
    have hzero := results_recv (R.empty_of_le hclosed hle) (len - x.length)
    rw [bodyStep_piece hlt hzero, if_neg (by simp)] at hstep
    split_ifs at hstep
    cases hstep
    exact ⟨rfl, Nat.lt_succ_of_le hle⟩
  case next =>
    rintro ⟨x, s⟩ ⟨y, t⟩ ⟨hlt, hle⟩ hstep
    dsimp only at hlt hle
    have hzero := results_recv (R.empty_of_le hclosed hle) (len - x.length)
    rw [bodyStep_piece hlt hzero, if_neg (by simp)] at hstep
    split_ifs at hstep
    cases hstep
    simp only [List.take_nil, List.append_nil]
    exact ⟨hlt, Nat.le_succ_of_le hle⟩

/-- A loop whose connection stays open ends, and no result on the way is empty. -/
theorem StaysOpen.body (h : StaysOpen R progress len) (hfirst : R.result 0 ≠ some []) :
    ∃ out, Yields (bodyStep R.socket progress len) ([], 1) out ∧
      out.1 ≠ .crashed ∧ ∀ j < out.2, R.result j ≠ some [] := by
  refine yields_of_measure (I := fun x => Reading R.socket progress len 1 x.1.length x.2 ∧
    ∀ j < x.2, R.result j ≠ some []) (fun x => len - x.1.length) ?_ ⟨.start, ?_⟩
  · rintro ⟨x, k⟩ ⟨hreading, hopen⟩
    dsimp only at hreading hopen
    -- the result the round asks for is not empty either
    have hopen' (hlt : x.length < len) : ∀ j < k + 1, R.result j ≠ some [] := by
      intro j hj
      obtain hj | rfl := Nat.lt_succ_iff_lt_or_eq.mp hj
      · exact hopen j hj
      · exact h _ _ hreading hlt
    obtain ⟨-, h'⟩ | ⟨hlt, t, hrecv, h'⟩ | ⟨hlt, c, t, hrecv, hcase⟩ := bodyStep_cases rfl
    · exact .inl ⟨_, h', by simp, hopen⟩
    · rw [results_count hrecv] at h'
      exact .inl ⟨_, h', by simp, hopen' hlt⟩
    · obtain rfl := results_count hrecv
      obtain ⟨-, h'⟩ | ⟨-, -, h'⟩ | ⟨hsmall, hpass, h'⟩ := hcase
      · exact .inl ⟨_, h', by simp, hopen' hlt⟩
      · exact .inl ⟨_, h', by simp, hopen' hlt⟩
      · have hc : 0 < c.length := by
          obtain ⟨d, hd, hcd⟩ := Option.map_eq_some_iff.mp (congrArg Prod.fst hrecv)
          have hne : d ≠ [] := fun hnil => h _ _ hreading hlt (hnil ▸ hd)
          have hpos := List.length_pos_iff.mpr hne
          rw [← hcd, List.length_take]
          omega
        rw [List.length_append] at hpass
        have hnext := hreading.piece hlt hrecv hsmall hpass
        refine .inr ⟨_, h', ⟨?_, hopen' hlt⟩, ?_⟩
        · rw [List.length_append]
          exact hnext
        · rw [List.length_append]
          dsimp only
          omega
  · intro j hj
    obtain rfl : j = 0 := by omega
    exact hfirst

/-- Both functions, when the length word came: the size `realloc` cannot handle, and the others. -/
theorem receive_endsWell (hb : R.result 0 = some b) (hlen : 4 ≤ b.length) :
    EndsWell R (receive R.socket garbage onRealloc progress) ↔
      if (get32 (b.take 4)).toNat = 2 ^ 32 - 1 then onRealloc ≠ .crashed
      else StaysOpen R progress (get32 (b.take 4)).toNat := by
  have hrecv := results_recv hb 4
  have hlast : lenAfter (garbage 0) (b.take 4) = get32 (b.take 4) :=
    lenAfter_of_length (List.length_take_of_le hlen)
  have hne : R.result 0 ≠ some [] := by
    rintro hnil
    rw [hnil] at hb
    cases hb
    cases hlen
  split_ifs with hmax
  · have hroom : reallocFails (lenAfter (garbage 0) (b.take 4)) = true := by
      by_contra hfits
      rw [hlast] at hfits
      exact reallocFails_eq_false.mp (by simpa using hfits) hmax
    constructor
    · rintro ⟨r, calls, hans, hsound⟩
      cases (receive_noRoom hrecv hroom).mp hans
      exact hsound.alive
    · intro halive
      refine ⟨onRealloc, 1, (receive_noRoom hrecv hroom).mpr rfl, halive, ?_, ?_⟩
      · intro c hc hshort
        cases hb.symm.trans hc
        omega
      · intro k hk hempty
        obtain rfl : k = 0 := by omega
        exact absurd hempty hne
  · have hroom : reallocFails (lenAfter (garbage 0) (b.take 4)) = false := by
      rw [hlast]
      exact reallocFails_eq_false.mpr hmax
    constructor
    · rintro ⟨r, calls, hans, hsound⟩ q k hreading hlt hempty
      rw [receive_body hrecv hroom, hlast] at hans
      obtain ⟨x, rfl, hvisits⟩ := hreading.visits
      obtain ⟨rfl, hk⟩ := body_closed (hvisits.yields.mp hans) hlt hempty
      cases hsound.closed k hk hempty
    · intro hopen
      obtain ⟨⟨r, calls⟩, hyields, halive, hall⟩ := hopen.body hne
      refine ⟨r, calls, ?_, halive, ?_, ?_⟩
      · rw [receive_body hrecv hroom, hlast]
        exact hyields
      · intro c hc hshort
        cases hb.symm.trans hc
        omega
      · intro k hk hempty
        exact absurd hempty (hall k hk)

/-- A failed `recv` for the length word is reported. -/
theorem receive_endsWell_of_none (h : R.result 0 = none) :
    EndsWell R (receive R.socket garbage onRealloc progress) := by
  refine ⟨.error, 1, (receive_error (results_fail h 4)).mpr rfl, by simp, ?_, fun _ _ _ => rfl⟩
  intro b hb
  cases h.symm.trans hb

/-- A length word of which a part is missing is not. -/
theorem not_endsWell_of_short (hb : R.result 0 = some b) (hshort : b.length < 4)
    (hroom : onRealloc ≠ .error) :
    ¬ EndsWell R (receive R.socket garbage onRealloc progress) := by
  rintro ⟨r, calls, hans, hsound⟩
  obtain ⟨rfl, hcalls⟩ := hsound.received b hb hshort
  have hrecv := results_recv hb 4
  cases hfits : reallocFails (lenAfter (garbage 0) (b.take 4)) with
  | true =>
    cases (receive_noRoom hrecv hfits).mp hans
    exact hroom rfl
  | false =>
    have hmore := body_error ((receive_body hrecv hfits).mp hans)
    omega

/-- The three cases together. -/
theorem receive_endsWell_iff (hroom : onRealloc ≠ .error) :
    EndsWell R (receive R.socket garbage onRealloc progress) ↔
      R.result 0 = none ∨ ∃ len, LengthWord R len ∧
        if len.toNat = 2 ^ 32 - 1 then onRealloc ≠ .crashed
        else StaysOpen R progress len.toNat := by
  constructor
  · intro h
    cases hb : R.result 0 with
    | none => exact .inl rfl
    | some b =>
      by_cases hlen : 4 ≤ b.length
      · exact .inr ⟨_, ⟨b, hb, hlen, rfl⟩, (receive_endsWell hb hlen).mp h⟩
      · exact absurd h (not_endsWell_of_short hb (by omega) hroom)
  · rintro (hnone | ⟨_, ⟨b, hb, hlen, rfl⟩, h⟩)
    · exact receive_endsWell_of_none hnone
    · exact (receive_endsWell hb hlen).mpr h

theorem tgReceive_closed : EndsWell R (tgReceive R.socket garbage false) := by
  refine ⟨.error, 0, ⟨0, rfl⟩, by simp, fun _ _ _ => ⟨rfl, Nat.zero_le 1⟩, fun _ _ _ => rfl⟩

end

/-- What the calls come to, whatever `recv` answers. Where `_tg_receive` frees the block twice,
`tg_receive` returns. -/
theorem endsWell_iff (R : Results) (garbage : Nat → UInt32) (progress : Nat → Nat → Nat → Bool)
    (isset : Bool) :
    (EndsWell R (queueTgReceive R.socket garbage progress) ↔
      R.result 0 = none ∨ ∃ len, LengthWord R len ∧ len.toNat ≠ 2 ^ 32 - 1 ∧
        StaysOpen R progress len.toNat) ∧
    (EndsWell R (tgReceive R.socket garbage isset) ↔
      isset = false ∨ R.result 0 = none ∨ ∃ len, LengthWord R len ∧
        (len.toNat = 2 ^ 32 - 1 ∨ StaysOpen R (fun _ _ _ => false) len.toNat)) := by
  constructor
  · refine (receive_endsWell_iff (by simp)).trans (or_congr_right ?_)
    refine exists_congr fun len => and_congr_right fun _ => ?_
    split_ifs with hmax
    · exact iff_of_false (fun h => h rfl) (fun h => h.1 hmax)
    · exact (and_iff_right hmax).symm
  · cases isset with
    | false => exact iff_of_true tgReceive_closed (.inl rfl)
    | true =>
      rw [or_iff_right (by simp : ¬ true = false)]
      refine (receive_endsWell_iff (by simp)).trans (or_congr_right ?_)
      refine exists_congr fun len => and_congr_right fun _ => ?_
      split_ifs with hmax
      · exact iff_of_true (by simp) (.inl hmax)
      · exact (or_iff_right hmax).symm

/-- Whatever `recv` answers, both functions return, decide nothing from a length that was not
received, and report a closed connection. -/
def ReceiveEnds : Prop :=
  ∀ (R : Results) (garbage : Nat → UInt32) (progress : Nat → Nat → Nat → Bool) (isset : Bool),
    EndsWell R (queueTgReceive R.socket garbage progress) ∧
      EndsWell R (tgReceive R.socket garbage isset)

/-- A packet of eight bytes is announced, and the connection is closed. -/
def dropped : Results :=
  ⟨fun k => if k = 0 then some [8, 0, 0, 0] else some [], fun _ _ => rfl⟩

/-- `tg_receive` calls `recv` for ever. -/
theorem receiveEnds_counterexample : ¬ ReceiveEnds := by
  intro h
  have hends : EndsWell dropped (tgReceive dropped.socket (fun _ => 0) true) :=
    (h dropped (fun _ => 0) (fun _ _ _ => false) true).2
  have hopen := (receive_endsWell (b := [8, 0, 0, 0]) rfl (by decide)).mp hends
  rw [if_neg (by decide)] at hopen
  exact hopen 0 1 .start (by decide) rfl

end Libtg.Framing
