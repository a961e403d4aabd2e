import Libtg.Lib.Handles
import Libtg.Tg.Wrapping

/-!
# The sockets of a query (`tg/net.c`, `tg/queue.c`, `tg/send_query.c`)

A query opens a socket, and the key exchange puts another one in its place. Here is which of them
are closed, and how often, for every outcome of the calls in between: these are the parameters, in
the order of the source. `closes_iff` says when each socket is closed exactly once.
-/

namespace Libtg.Sockets

open Handles Receiving

/-- `none` is a function that has not ended. -/
abbrev SockM := StateT Ledger Option

/-! ## `tg/net.c` -/

/-- What happens while a socket is opened: whether `socket`, `gethostbyname` and `connect`
succeed. -/
structure Opening where
  socket : Bool
  host : Bool
  connected : Bool

/-- `socket`, with `none` for -1. -/
def socket (ok : Bool) : SockM (Option Nat) := fun l =>
  if ok then some (some l.taken, l.take) else some (none, l)

/-- `close`, and `tg_net_close`. There is nothing to close at -1. -/
def close (sockfd : Option Nat) : SockM Unit := modify (·.release sockfd)

/-- `tg_net_open`. -/
def tgNetOpen (o : Opening) : SockM (Option Nat) := do
  match ← socket o.socket with
  | none => return none
  | some sockfd => return if o.host && o.connected then some sockfd else none

/-- The socket `api.app.open` leaves in `shared_rc`: its `net_open` only reports that there is no
such host, or no connection. -/
def appOpen (o : Opening) : SockM (Option Nat) := socket o.socket

/-! ## `tg/queue.c` -/

/-- A part of the session is there, or it is made under a lock that may fail. -/
inductive Need (α : Type) where
  | present
  | lockFails
  | made (a : α)

def Need.fails {α : Type} : Need α → Bool
  | .lockFails => true
  | _ => false

/-- What `tg_send` meets. -/
structure Sending where
  key : Need Opening
  ssid : Need Unit
  salt : Need Unit
  prepared : Bool
  sent : Bool

/-- `tg_send` once there is a key. Nothing is sent through -1. -/
def prepareAndSend (o : Sending) (socket : Option Nat) : SockM (Bool × Option Nat) :=
  if o.ssid.fails || o.salt.fails then return (false, socket)
  else if o.prepared then return (o.sent && socket.isSome, socket)
  else do
    close socket
    return (false, socket)

/-- `tg_send`: whether it answers 0, and `queue->socket`. -/
def tgSend (o : Sending) (socket : Option Nat) : SockM (Bool × Option Nat) :=
  match o.key with
  | .present => prepareAndSend o socket
  | .lockFails => return (false, socket)
  | .made opening => do
    close socket
    let socket ← appOpen opening
    prepareAndSend o socket

/-- A round of the receive loop: what `_tg_receive` answers, what the `tg_send` of a resend meets,
and `queue->loop` at the next test. -/
structure Round where
  res : Rtl
  resend : Sending
  loop : Bool

/-- The loop, from its test on, with the value of `res`. -/
def receiveLoop : List Round → Bool → Rtl → Option Nat → SockM (Rtl × Option Nat)
  | _, false, res, socket => return (res, socket)
  | [], true, _, _ => fun _ => none
  | r :: rounds, true, _, socket =>
    match r.res with
    | .rs => do
      let (ok, socket) ← tgSend r.resend socket
      if ok then receiveLoop rounds r.loop .rs socket else return (.rs, socket)
    | .ex => return (.ex, socket)
    | .er => return (.er, socket)
    | .rq => receiveLoop rounds r.loop .rq socket

/-- What `tg_run_queue` meets. `stale` is what the variable `res` holds before it is assigned, and
`loop` is `queue->loop` at the first test after a `tg_send` that answers 0. -/
structure QueueRun where
  opening : Opening
  locked : Bool
  first : Sending
  loop : Bool
  stale : Rtl
  rounds : List Round

/-- `if (res != RTL_ER && queue->socket >= 0) tg_net_close (queue->tg, queue->socket)`. -/
def closeLast (x : Rtl × Option Nat) : SockM Unit :=
  if x.1 ≠ .er ∧ x.2.isSome then close x.2 else pure ()

/-- `tg_run_queue`. -/
def tgRunQueue (o : QueueRun) : SockM Unit := do
  match ← tgNetOpen o.opening with
  | none => pure ()
  | some sockfd =>
    if o.locked then
      let (ok, socket) ← tgSend o.first (some sockfd)
      receiveLoop o.rounds (ok && o.loop) o.stale socket >>= closeLast
    else pure ()

/-! ## `tg/send_query.c` -/

/-- What the `tg_send` of `tg/send_query.c` meets: the key exchange if there is no key, whether the
query is prepared and sent, and its id. -/
structure Post where
  key : Option Opening
  prepared : Bool
  sent : Bool
  msgId : UInt64

/-- `tg_send`, which answers the id or 0, and `*socket`. -/
def tgPost (o : Post) (socket : Option Nat) : SockM (UInt64 × Option Nat) := do
  let socket ← match o.key with
    | none => pure socket
    | some opening => do
      close socket
      appOpen opening
  if o.prepared then return (if o.sent && socket.isSome then o.msgId else 0, socket)
  else
    close socket
    return (0, socket)

/-- What becomes of a packet: `tg_receive` fails, there is no object, `recevive_data` again, a
`bad_server_salt`, or an answer. -/
inductive Reply where
  | failed
  | null
  | again
  | salt
  | answer

/-- What one call of the function meets, up to the call it makes of itself. -/
structure Attempt where
  opening : Opening
  locked : Bool
  post : Post
  replies : List Reply

/-- From `recevive_data` on, where `resend` is the call of the function itself. -/
def receiveData (resend : SockM Unit) (socket : Option Nat) : List Reply → SockM Unit
  | [] => fun _ => none
  | .again :: replies => receiveData resend socket replies
  | .salt :: _ => do
    close socket
    resend
  | .failed :: _ => pure ()
  | .null :: _ => pure ()
  | .answer :: _ => pure ()

/-- `tg_send_query_via_with_progress`. -/
def tgSendQueryVia : List Attempt → SockM Unit
  | [] => fun _ => none
  | a :: attempts => do
    match ← tgNetOpen a.opening with
    | none => pure ()
    | some sockfd =>
      if a.locked then
        let (msgId, socket) ← tgPost a.post (some sockfd)
        if msgId = 0 then pure () else receiveData (tgSendQueryVia attempts) socket a.replies
      else pure ()

/-! ## Where every socket is closed once -/

/-- Where the function ends, every socket was closed exactly once. -/
def ClosesFrom (l : Ledger) (c : SockM Unit) : Prop := ∀ out, c l = some out → out.2.Settled

namespace Sending

/-- It comes to `tg_prepare_query`. -/
def prepares (o : Sending) : Bool := !(o.key.fails || (o.ssid.fails || o.salt.fails))

/-- The query cannot be prepared, and `tg_send` closes the socket. -/
def givesUp (o : Sending) : Bool := o.prepares && !o.prepared

/-- Whether there is a socket behind it, if there was one before. -/
def keeps (o : Sending) (before : Bool) : Bool :=
  match o.key with
  | .made opening => opening.socket
  | _ => before

/-- Whether it answers 0. -/
def succeeds (o : Sending) (before : Bool) : Bool :=
  o.prepares && o.prepared && o.sent && o.keeps before

end Sending

/-- In no round that is entered the socket fails, and no resend gives up a socket. The loop that is
not entered leaves `res` as it is. -/
def RoundsClean : List Round → Bool → Rtl → Bool → Prop
  | _, false, res, here => here = true → res ≠ .er
  | [], true, _, _ => True
  | r :: rounds, true, _, here =>
    match r.res with
    | .rs =>
      if r.resend.succeeds here then RoundsClean rounds r.loop .rs (r.resend.keeps here)
      else r.resend.givesUp = true → r.resend.keeps here = false
    | .ex => True
    | .er => here = false
    | .rq => RoundsClean rounds r.loop .rq here

/-- There is no socket at all, or the thread gets as far as its loop, and there the socket is not
closed twice or left open. -/
def QueueRun.Clean (o : QueueRun) : Prop :=
  o.opening.socket = false ∨
    o.opening.host = true ∧ o.opening.connected = true ∧ o.locked = true ∧
      if o.first.givesUp then o.first.keeps true = true → o.stale = .er
      else RoundsClean o.rounds (o.first.succeeds true && o.loop) o.stale (o.first.keeps true)

/-- The last packet that is received is a `bad_server_salt`, and the call that follows is clean. -/
def RepliesClean (resend : Prop) : List Reply → Prop
  | [] => True
  | .again :: replies => RepliesClean resend replies
  | .salt :: _ => resend
  | .failed :: _ => False
  | .null :: _ => False
  | .answer :: _ => False

/-- Whether there is a socket behind `tg_send`. -/
def Post.here (o : Post) : Bool :=
  match o.key with
  | none => true
  | some opening => opening.socket

/-- There is no socket, the key exchange gets none, the query cannot be prepared, or it is sent
again. -/
def AttemptsClean : List Attempt → Prop
  | [] => True
  | a :: attempts => a.opening.socket = false ∨
      a.opening.host = true ∧ a.opening.connected = true ∧ a.locked = true ∧
        (a.post.here = false ∨ a.post.prepared = false ∨
          a.post.sent = true ∧ a.post.msgId ≠ 0 ∧ RepliesClean (AttemptsClean attempts) a.replies)

/-! ## What the calls leave -/

section
variable {l : Ledger} {α : Type} {c : SockM α} {a : α} {l' : Ledger} {f : α → SockM Unit}

theorem closesFrom_pure : ClosesFrom l (pure ()) ↔ l.Settled := by
  constructor
  · exact fun h => h _ rfl
  · rintro h out hout
    cases hout
    exact h

/-- The first call is made, and the rest starts from what it leaves. -/
theorem closesFrom_bind (h : c l = some (a, l')) :
    ClosesFrom l (c >>= f) ↔ ClosesFrom l' (f a) := by
  have hrun : (c >>= f) l = f a l' := congrArg (Option.bind · _) h
  rw [ClosesFrom, ClosesFrom, hrun]

theorem closesFrom_none : ClosesFrom l fun _ => none := fun _ h => by cases h

/-- `tg_net_open` leaves a socket behind that nobody knows, unless it fails at once or succeeds. -/
theorem tgNetOpen_spec (o : Opening) (h : Owns l none) :
    (o.socket = false ∧ tgNetOpen o l = some (none, l)) ∨
      o.socket = true ∧ Owns l.take (some l.taken) ∧
        tgNetOpen o l = some (if o.host && o.connected then some l.taken else none, l.take) := by
  cases hsocket : o.socket with
  | false =>
    refine .inl ⟨rfl, ?_⟩
    rw [tgNetOpen, hsocket]
    rfl
  | true =>
    refine .inr ⟨rfl, h.take, ?_⟩
    rw [tgNetOpen, hsocket]
    rfl

theorem appOpen_spec (o : Opening) (h : Owns l none) : ∃ socket l',
    appOpen o l = some (socket, l') ∧ socket.isSome = o.socket ∧ Owns l' socket := by
  cases hsocket : o.socket with
  | false => exact ⟨none, l, by rw [appOpen, hsocket]; rfl, rfl, h⟩
  | true => exact ⟨some l.taken, l.take, by rw [appOpen, hsocket]; rfl, rfl, h.take⟩

/-- `tg_send` from a state where only its socket is open: it ends, and closes that socket or leaves
it as the only one. -/
structure Sends (o : Sending) (before : Bool) (ok : Bool) (socket : Option Nat) (l : Ledger) :
    Prop where
  ok : ok = o.succeeds before
  here : socket.isSome = o.keeps before
  socket_lt : ∀ s ∈ socket, s < l.taken
  owns : Owns l (if o.givesUp then none else socket)

theorem prepareAndSend_spec {o : Sending} {socket : Option Nat} {before : Bool} (h : Owns l socket)
    (hkey : o.key.fails = false) (hhere : socket.isSome = o.keeps before) :
    ∃ ok socket' l', prepareAndSend o socket l = some ((ok, socket'), l') ∧
      Sends o before ok socket' l' := by
  have hprepares : o.prepares = !(o.ssid.fails || o.salt.fails) := by
    rw [Sending.prepares, hkey, Bool.false_or]
  rw [prepareAndSend]
  cases hlock : o.ssid.fails || o.salt.fails with
  | true =>
    rw [hlock] at hprepares
    refine ⟨false, socket, l, rfl, ?_, hhere, h.own_lt, ?_⟩
    · rw [Sending.succeeds, hprepares]
      rfl
    · rw [Sending.givesUp, hprepares]
      exact h
  | false =>
    rw [hlock] at hprepares
    cases hprepared : o.prepared with
    | true =>
      refine ⟨o.sent && socket.isSome, socket, l, rfl, ?_, hhere, h.own_lt, ?_⟩
      · rw [Sending.succeeds, hprepares, hprepared, hhere]
        rfl
      · rw [Sending.givesUp, hprepares, hprepared]
        exact h
    | false =>
      refine ⟨false, socket, l.release socket, rfl, ?_, hhere, h.own_lt, ?_⟩
      · rw [Sending.succeeds, hprepares, hprepared]
        rfl
      · rw [Sending.givesUp, hprepares, hprepared]
        exact h.release

theorem tgSend_spec {o : Sending} {socket : Option Nat} (h : Owns l socket) :
    ∃ ok socket' l', tgSend o socket l = some ((ok, socket'), l') ∧
      Sends o socket.isSome ok socket' l' := by
  rw [tgSend]
  cases hkey : o.key with
  | present =>
    exact prepareAndSend_spec h (by rw [hkey]; rfl) (by rw [Sending.keeps, hkey])
  | lockFails =>
    have hprepares : o.prepares = false := by
      rw [Sending.prepares, hkey]
      rfl
    refine ⟨false, socket, l, rfl, ?_, ?_, h.own_lt, ?_⟩
    · rw [Sending.succeeds, hprepares]
      rfl
    · rw [Sending.keeps, hkey]
    · rw [Sending.givesUp, hprepares]
      exact h
  | made opening =>
    obtain ⟨socket', l', hopen, hhere, howns⟩ := appOpen_spec opening h.release
    have hrun : (do
        close socket
        let socket ← appOpen opening
        prepareAndSend o socket : SockM (Bool × Option Nat)) l = prepareAndSend o socket' l' :=
      congrArg (Option.bind · _) hopen
    dsimp only
    rw [hrun]
    refine prepareAndSend_spec howns (by rw [hkey]; rfl) ?_
    rw [Sending.keeps, hkey]
    exact hhere

/-! ## `tg_run_queue` -/

/-- The last `close`, behind a loop that did not give up the socket. -/
theorem closesFrom_closeLast {res : Rtl} {socket : Option Nat} (h : Owns l socket) :
    ClosesFrom l (closeLast (res, socket)) ↔ (socket.isSome = true → res ≠ .er) := by
  rw [closeLast]
  split_ifs with hclose
  · have hall : ClosesFrom l (close socket) := by
      rintro out hout
      cases hout
      exact h.release.settled_iff.mpr rfl
    exact ⟨fun _ _ => hclose.1, fun _ => hall⟩
  · rw [closesFrom_pure, h.settled_iff]
    constructor
    · rintro rfl hsome
      cases hsome
    · intro hres
      cases socket with
      | none => rfl
      | some s => exact absurd ⟨hres rfl, rfl⟩ hclose

/-- Behind a `tg_send` that closed the socket, it is closed again. -/
theorem closesFrom_closeLast_twice {res : Rtl} {socket : Option Nat} (h : Owns l none)
    (hlt : ∀ s ∈ socket, s < l.taken) :
    ClosesFrom l (closeLast (res, socket)) ↔ (socket.isSome = true → res = .er) := by
  rw [closeLast]
  split_ifs with hclose
  · obtain ⟨hres, hsome⟩ := hclose
    obtain ⟨s, rfl⟩ := Option.isSome_iff_exists.mp hsome
    refine ⟨fun hc => ?_, fun heq => absurd (heq rfl) hres⟩
    exact absurd (hc ((), l.release (some s)) rfl) (h.not_settled_release (hlt s rfl))
  · rw [closesFrom_pure, h.settled_iff]
    refine ⟨fun _ hsome => ?_, fun _ => rfl⟩
    by_contra hres
    exact hclose ⟨hres, hsome⟩

/-- Behind a `tg_send` that failed in the loop. -/
theorem closesFrom_resend {o : Sending} {before ok : Bool} {socket : Option Nat}
    (h : Sends o before ok socket l) : ClosesFrom l (closeLast (.rs, socket)) ↔
      (o.givesUp = true → socket.isSome = false) := by
  have howns := h.owns
  cases hgives : o.givesUp with
  | true =>
    rw [hgives] at howns
    refine (closesFrom_closeLast_twice howns h.socket_lt).trans
      ⟨fun hres _ => Bool.eq_false_iff.mpr fun hsome => absurd (hres hsome) (by decide), ?_⟩
    intro hnone hsome
    cases (hnone rfl).symm.trans hsome
  | false =>
    rw [hgives] at howns
    exact (closesFrom_closeLast howns).trans ⟨fun _ h => absurd h (by decide), fun _ _ => by decide⟩

theorem closesFrom_receiveLoop {rounds : List Round} {loop : Bool} {res : Rtl}
    {socket : Option Nat} (h : Owns l socket) :
    ClosesFrom l (receiveLoop rounds loop res socket >>= closeLast) ↔
      RoundsClean rounds loop res socket.isSome := by
  induction rounds generalizing loop res socket l with
  | nil =>
    cases loop with
    | false => exact closesFrom_closeLast h
    | true => exact ⟨fun _ => trivial, fun _ => closesFrom_none⟩
  | cons r rounds ih =>
    cases loop with
    | false => exact closesFrom_closeLast h
    | true =>
      rw [receiveLoop, RoundsClean]
      cases r.res with
      | ex => exact (closesFrom_closeLast h).trans ⟨fun _ => trivial, fun _ _ => by decide⟩
      | er =>
        have hlast : ClosesFrom l (closeLast (.er, socket)) ↔ socket.isSome = false := by
          rw [closesFrom_closeLast h, Bool.eq_false_iff]
          exact ⟨fun hres hsome => hres hsome rfl, fun hnone hsome => absurd hsome hnone⟩
        exact hlast
      | rq => exact ih h
      | rs =>
        obtain ⟨ok, socket', l', hrun, hsend⟩ := tgSend_spec (o := r.resend) h
        dsimp only
        rw [bind_assoc, closesFrom_bind hrun]
        cases hok : ok with
        | true =>
          have hgives : r.resend.givesUp = false := by
            have hsucceeds := hsend.ok.symm.trans hok
            simp only [Sending.succeeds, Bool.and_eq_true] at hsucceeds
            simp [Sending.givesUp, hsucceeds]
          have howns := hsend.owns
          rw [hgives] at howns
          rw [← hsend.ok, hok, if_pos rfl, ← hsend.here]
          exact ih howns
        | false =>
          rw [← hsend.ok, hok, if_neg Bool.false_ne_true, if_neg Bool.false_ne_true, ← hsend.here]
          exact closesFrom_resend hsend

theorem receiveLoop_false (rounds : List Round) (res : Rtl) (socket : Option Nat) :
    receiveLoop rounds false res socket = pure (res, socket) := by
  cases rounds <;> rfl

/-- What `tg_net_open` leaves is closed by what comes after it, if that is reached. -/
theorem closesFrom_tgNetOpen {o : Opening} {f : Option Nat → SockM Unit} {P : Prop}
    (h : Owns l none) (hnone : f none = pure ())
    (hsome : Owns l.take (some l.taken) → (ClosesFrom l.take (f (some l.taken)) ↔ P)) :
    ClosesFrom l (tgNetOpen o >>= f) ↔
      o.socket = false ∨ o.host = true ∧ o.connected = true ∧ P := by
  rcases tgNetOpen_spec o h with ⟨hsocket, hrun⟩ | ⟨hsocket, howns, hrun⟩
  · rw [closesFrom_bind hrun, hnone, closesFrom_pure]
    exact ⟨fun _ => .inl hsocket, fun _ => h.settled_iff.mpr rfl⟩
  · rw [closesFrom_bind hrun]
    by_cases hopen : o.host = true ∧ o.connected = true
    · rw [hopen.1, hopen.2, Bool.and_self, if_pos rfl, hsome howns]
      simp [hsocket]
    · have hfails : ¬ (o.host && o.connected) = true := by rwa [Bool.and_eq_true]
      rw [if_neg hfails, hnone, closesFrom_pure, howns.settled_iff]
      constructor
      · intro hs
        cases hs
      · rintro (hs | ⟨hhost, hconnected, -⟩)
        · cases hsocket.symm.trans hs
        · exact absurd ⟨hhost, hconnected⟩ hopen

theorem closesFrom_tgRunQueue (o : QueueRun) : ClosesFrom .empty (tgRunQueue o) ↔ o.Clean := by
  refine closesFrom_tgNetOpen owns_empty rfl fun howns => ?_
  dsimp only
  cases hlocked : o.locked with
  | false =>
    rw [if_neg Bool.false_ne_true, closesFrom_pure, howns.settled_iff]
    simp
  | true =>
    obtain ⟨ok, socket, l', hrun, hsend⟩ := tgSend_spec (o := o.first) howns
    have hends := hsend.owns
    rw [if_pos rfl, closesFrom_bind hrun]
    dsimp only
    cases hgives : o.first.givesUp with
    | true =>
      rw [hgives] at hends
      have hok : ok = false := by
        have hprepared : o.first.prepared = false := by
          simp only [Sending.givesUp, Bool.and_eq_true, Bool.not_eq_true'] at hgives
          exact hgives.2
        rw [hsend.ok, Sending.succeeds, hprepared]
        simp
      rw [hok, Bool.false_and, receiveLoop_false, pure_bind,
        closesFrom_closeLast_twice hends hsend.socket_lt, hsend.here]
      simp
    | false =>
      rw [hgives, if_neg Bool.false_ne_true] at hends
      have hloop :
          ClosesFrom l' (receiveLoop o.rounds (ok && o.loop) o.stale socket >>= closeLast) ↔
          RoundsClean o.rounds (ok && o.loop) o.stale socket.isSome := closesFrom_receiveLoop hends
      rw [if_neg Bool.false_ne_true, hloop, hsend.ok, hsend.here]
      simp

/-! ## `tg_send_query_via_with_progress` -/

/-- What `tg_send` does with the socket it has then. -/
theorem post_spec {o : Post} {socket : Option Nat} (h : Owns l socket)
    (hhere : socket.isSome = o.here) : ∃ msgId l',
    (if o.prepared then return (if o.sent && socket.isSome then o.msgId else 0, socket)
      else do
        close socket
        return (0, socket) : SockM (UInt64 × Option Nat)) l = some ((msgId, socket), l') ∧
      msgId = (if o.prepared && o.sent && o.here then o.msgId else 0) ∧
      Owns l' (if o.prepared then socket else none) := by
  cases hprepared : o.prepared with
  | true => exact ⟨_, l, rfl, by rw [hhere, Bool.true_and], h⟩
  | false => exact ⟨0, l.release socket, rfl, by simp, h.release⟩

theorem tgPost_spec {o : Post} {s : Nat} (h : Owns l (some s)) : ∃ msgId socket l',
    tgPost o (some s) l = some ((msgId, socket), l') ∧ socket.isSome = o.here ∧
      msgId = (if o.prepared && o.sent && o.here then o.msgId else 0) ∧
      Owns l' (if o.prepared then socket else none) := by
  cases hkey : o.key with
  | none =>
    have hhere : (some s).isSome = o.here := by rw [Post.here, hkey]; rfl
    obtain ⟨msgId, l', hrun, hspec⟩ := post_spec h hhere
    refine ⟨msgId, some s, l', ?_, hhere, hspec⟩
    rw [tgPost, hkey]
    exact hrun
  | some opening =>
    obtain ⟨socket, l₁, hopen, hsocket, howns⟩ := appOpen_spec opening h.release
    have hhere : socket.isSome = o.here := by rw [Post.here, hkey]; exact hsocket
    obtain ⟨msgId, l', hrun, hspec⟩ := post_spec howns hhere
    refine ⟨msgId, socket, l', ?_, hhere, hspec⟩
    rw [tgPost, hkey]
    exact (congrArg (Option.bind · _) hopen).trans hrun

theorem closesFrom_receiveData {resend : SockM Unit} {P : Prop} {replies : List Reply} {s : Nat}
    (h : Owns l (some s)) (hresend : ∀ l', Owns l' none → (ClosesFrom l' resend ↔ P)) :
    ClosesFrom l (receiveData resend (some s) replies) ↔ RepliesClean P replies := by
  have hopen : ClosesFrom l (pure ()) ↔ False := by
    rw [closesFrom_pure, h.settled_iff]
    simp
  induction replies with
  | nil => exact ⟨fun _ => trivial, fun _ => closesFrom_none⟩
  | cons r replies ih =>
    cases r with
    | again => exact ih
    | salt => exact hresend _ h.release
    | failed | null | answer => exact hopen

theorem closesFrom_tgSendQueryVia {attempts : List Attempt} (h : Owns l none) :
    ClosesFrom l (tgSendQueryVia attempts) ↔ AttemptsClean attempts := by
  induction attempts generalizing l with
  | nil => exact ⟨fun _ => trivial, fun _ => closesFrom_none⟩
  | cons a attempts ih =>
    refine closesFrom_tgNetOpen h rfl fun howns => ?_
    dsimp only
    cases hlocked : a.locked with
    | false =>
      rw [if_neg Bool.false_ne_true, closesFrom_pure, howns.settled_iff]
      simp
    | true =>
      obtain ⟨msgId, socket, l', hrun, hhere, rfl, hends⟩ := tgPost_spec (o := a.post) howns
      rw [if_pos rfl, closesFrom_bind hrun]
      dsimp only
      cases hprepared : a.post.prepared with
      | false =>
        rw [hprepared, if_neg Bool.false_ne_true] at hends
        rw [Bool.false_and, Bool.false_and, if_neg Bool.false_ne_true, if_pos rfl, closesFrom_pure,
          hends.settled_iff]
        simp
      | true =>
        rw [hprepared, if_pos rfl] at hends
        rw [Bool.true_and]
        cases socket with
        | none =>
          have hnone : a.post.here = false := hhere.symm
          rw [hnone, Bool.and_false, if_neg Bool.false_ne_true, if_pos rfl, closesFrom_pure,
            hends.settled_iff]
          simp
        | some s =>
          have hsome : a.post.here = true := hhere.symm
          rw [hsome, Bool.and_true]
          by_cases hsent : a.post.sent = true ∧ a.post.msgId ≠ 0
          · rw [if_pos hsent.1, if_neg hsent.2, closesFrom_receiveData hends fun l' hl' => ih hl']
            simp [hsent]
          · have hzero : (if a.post.sent = true then a.post.msgId else 0) = 0 := by
              split_ifs with h
              · by_contra hne
                exact hsent ⟨h, hne⟩
              · rfl
            rw [hzero, if_pos rfl, closesFrom_pure, hends.settled_iff]
            constructor
            · intro hs
              cases hs
            · rintro ⟨-, hs | hs | ⟨hyes, hne, -⟩⟩
              · cases hs
              · cases hs
              · exact absurd ⟨hyes, hne⟩ hsent

end

/-- The exact outcomes for which no socket is left open and none is closed twice. -/
theorem closes_iff (o : QueueRun) (attempts : List Attempt) :
    (ClosesFrom .empty (tgRunQueue o) ↔ o.Clean) ∧
      (ClosesFrom .empty (tgSendQueryVia attempts) ↔ AttemptsClean attempts) :=
  ⟨closesFrom_tgRunQueue o, closesFrom_tgSendQueryVia owns_empty⟩

/-- Everything succeeds, and the answer is there. -/
def answered : Attempt :=
  ⟨⟨true, true, true⟩, true, ⟨none, true, true, 1⟩, [.answer]⟩

/-- A thread whose query cannot be prepared. -/
def unprepared : QueueRun :=
  ⟨⟨true, true, true⟩, true, ⟨.present, .present, .present, false, true⟩, true, .ex, []⟩

/-- The first leaves its socket open, the second closes it twice. -/
theorem closes_counterexample :
    ¬ ClosesFrom .empty (tgSendQueryVia [answered]) ∧
      ¬ ClosesFrom .empty (tgRunQueue unprepared) := by
  constructor
  · intro h
    have hclean := (closesFrom_tgSendQueryVia owns_empty).mp h
    simp [AttemptsClean, answered, RepliesClean, Post.here] at hclean
  · intro h
    have hclean := (closesFrom_tgRunQueue unprepared).mp h
    simp [QueueRun.Clean, unprepared, Sending.givesUp, Sending.prepares, Need.fails,
      Sending.keeps] at hclean

end Libtg.Sockets
