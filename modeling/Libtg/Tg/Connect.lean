import Libtg.Tg.Message

/-!
# Logging in (`tg/connect.c`)

While `tg_connect` runs, every line any thread gives to `ON_ERR` or `ON_LOG` is copied into
`t.error`, one after the other. The functions it calls are known by the lines given until they
return and by what they return; of `tg_auth_signIn` also the lines it gives itself are told apart.
The callback's answers depend on all its calls so far.
-/

namespace Libtg

/-- `TG_AUTH`. -/
inductive TgAuth where
  | error | info | phoneNumberNeeded | phoneCodeNeeded | passwordNeeded | success
  deriving DecidableEq

/-- What is given to `ON_ERR` or `ON_LOG`. -/
inductive Line where
  | err (text : Bytes)
  | log (text : Bytes)

/-- `str_appendf` cuts the text. -/
def formatted (text : Bytes) : Bytes := text.take (BUFSIZ - 2)

/-- What reaches `on_err` or `on_log`. -/
def Line.delivered : Line → Option (TgAuth × Bytes)
  | .err text =>
    if ascii "duplicate column name:" <:+: formatted text then none
    else some (.error, formatted text)
  | .log text => some (.info, formatted text)

/-- A call of the user's callback. -/
structure AuthCall where
  auth : TgAuth
  tl : Tl
  error : Bytes

/-- `struct tg_connect_t`, and the calls of the callback, the latest first. -/
structure Connect where
  error : Bytes
  calls : List AuthCall

/-- The text does not fit its buffer where the result is `none`. -/
abbrev ConnectM := OptionT (StateM Connect)

/-- What `tg_auth_signIn` finds: the lines until the answer is there, the object `catched_tl` was
given for it, further lines until the caller's own, the answer, and the lines after that until it
returns to the check. -/
structure SignIn where
  before : List Line
  catched : Tl
  between : List Line
  tl : Tl
  after : List Line

/-- The client and its user around `tg_connect`. `tlName` is `TL_NAME_FROM_ID`. -/
structure ConnectEnv where
  tlName : UInt32 → Bytes
  callback : List AuthCall → Option Bytes
  isAuthorized : List Line × Tl
  phoneNumberFromDatabase : List Line × Option Bytes
  sendCode : List Line × Tl
  signIn : SignIn

/-! ## The handlers -/

/-- `on_err`, `on_log`. -/
def Connect.onLine (t : Connect) (l : Line) : Connect :=
  match l.delivered with
  | none => t
  | some (auth, text) => ⟨text, ⟨auth, .null, text⟩ :: t.calls⟩

def emit (lines : List Line) : ConnectM Unit := fun t => (some (), lines.foldl Connect.onLine t)

/-- `_TG_CB`. -/
def tgCb (E : ConnectEnv) (auth : TgAuth) (tl : Tl) (error : Bytes) : ConnectM (Option Bytes) :=
  fun t =>
    if error.length < 256 then
      let t := { t with calls := ⟨auth, tl, error⟩ :: t.calls }
      (some (E.callback t.calls), t)
    else (none, t)

/-! ## `tg_auth_signIn` -/

/-- `error_message_` of an `rpc_error`. -/
def Tl.errorMessage (tl : Tl) : Bytes := (tl.field 1).bytes?

def idAuthAuthorization : UInt32 := 0x2ea2c0d4

/-- The line `catched_tl` gives for an error. -/
def catchedTlLine (tl : Tl) : List Line :=
  if tl.id = idRpcError then [.err (ascii "catched_tl: " ++ Tl.errorMessage tl)] else []

/-- The line `tg_send_query_sync` gives before it returns. -/
def gotTlLine (E : ConnectEnv) (tl : Tl) : Line :=
  .log (ascii "tg_send_query_sync got tl: " ++
    match tl.pointer with
    | .null => ascii "NULL"
    | tl => E.tlName tl.id)

/-- `setup_password_required_` of an `auth.authorization`. -/
def Tl.setupPasswordRequired (tl : Tl) : Bool :=
  match tl.field 1 with
  | .true => Bool.true
  | _ => Bool.false

/-- `tg_auth_signIn`, and what else is given until the check that follows it. -/
def tgAuthSignIn (E : ConnectEnv) : ConnectM Tl := do
  let r := E.signIn
  emit (.log (ascii "tg_auth_signIn") :: r.before)
  emit (catchedTlLine r.catched ++ r.between)
  emit [gotTlLine E r.tl]
  if r.tl.id = idAuthAuthorization then
    if r.tl.setupPasswordRequired then
      emit (.err (ascii "SESSION_PASSWORD_NEEDED") :: r.after)
      return .null
    else
      emit r.after
      return (r.tl.field 5).pointer
  else
    emit r.after
    return .null

/-! ## `tg_connect` -/

/-- Where `tg_connect` is in front of `tg_auth_signIn`. -/
inductive BeforeSignIn where
  | returns (ret : Int)
  | password (sentCode : Tl)
  | signIn (sentCode : Tl)

/-- `strcmp(t.error, "SESSION_PASSWORD_NEEDED") == 0`. -/
def passwordNeeded : ConnectM Bool := fun t =>
  (some (t.error == ascii "SESSION_PASSWORD_NEEDED"), t)

/-- The phone number, from the database or from the user. -/
def connectPhoneNumber (E : ConnectEnv) : ConnectM (Option Bytes) := do
  emit E.phoneNumberFromDatabase.1
  match E.phoneNumberFromDatabase.2 with
  | some phoneNumber => return some phoneNumber
  | none => tgCb E .phoneNumberNeeded .null (ascii "enter phone number (+7XXXXXXXXXX)")

/-- The code the user got. -/
def connectPhoneCode (E : ConnectEnv) (sentCode : Tl) : ConnectM BeforeSignIn := do
  let phoneCode ← tgCb E .phoneCodeNeeded sentCode (ascii "enter code")
  match phoneCode with
  | none =>
    let _ ← tgCb E .error sentCode (ascii "phone code is NULL")
    return .returns 1
  | some phoneCode =>
    let _ ← tgCb E .info sentCode (ascii "phone code: " ++ phoneCode)
    return .signIn sentCode

/-- `tg_connect` up to the call of `tg_auth_signIn`, apart from the branch that asks for the
password. -/
def beforeSignIn (E : ConnectEnv) : ConnectM BeforeSignIn := do
  emit E.isAuthorized.1
  match E.isAuthorized.2.pointer with
  | .object id b fields =>
    let _ ← tgCb E .success (.object id b fields) (ascii "authorized!")
    return .returns 0
  | _ =>
    match ← connectPhoneNumber E with
    | none =>
      let _ ← tgCb E .error .null (ascii "phone number is NULL")
      return .returns 1
    | some phoneNumber =>
      let _ ← tgCb E .info .null (ascii "phone number: " ++ phoneNumber)
      emit E.sendCode.1
      let sentCode := E.sendCode.2.pointer
      if ← passwordNeeded then return .password sentCode
      else
        match sentCode with
        | .object id b fields => connectPhoneCode E (.object id b fields)
        | _ => return .returns 1

/-- The branch that asks for the password. -/
def askPassword (E : ConnectEnv) (sentCode : Tl) : ConnectM Int := do
  let password ← tgCb E .passwordNeeded sentCode (ascii "enter password")
  match password with
  | none =>
    let _ ← tgCb E .error sentCode (ascii "password is NULL")
    return 1
  | some password =>
    let _ ← tgCb E .info sentCode (ascii "password: " ++ password)
    let _ ← tgCb E .error sentCode (ascii "password auth is not implyed yet!")
    return 1

/-- `tg_connect`. -/
def tgConnect (E : ConnectEnv) : ConnectM Int := do
  match ← beforeSignIn E with
  | .returns ret => return ret
  | .password sentCode => askPassword E sentCode
  | .signIn sentCode =>
    let user ← tgAuthSignIn E
    match user with
    | .object id b fields =>
      let _ ← tgCb E .success (.object id b fields) (ascii "authorized!")
      return 0
    | _ =>
      if ← passwordNeeded then askPassword E sentCode else return 1

/-! ## Whether the password is asked for -/

/-- Before any line. -/
def Connect.start : Connect := ⟨[], []⟩

def Connect.Asked (t : Connect) : Prop := ∃ c ∈ t.calls, c.auth = .passwordNeeded

instance (t : Connect) : Decidable t.Asked :=
  inferInstanceAs (Decidable (∃ c ∈ t.calls, c.auth = .passwordNeeded))

/-- `tg_connect` calls the callback with `TG_AUTH_PASSWORD_NEEDED`. -/
def AsksPassword (E : ConnectEnv) : Prop := (tgConnect E Connect.start).2.Asked

/-- `auth.signIn` is called, and the server answers it with this error. -/
def SignInAnswered (E : ConnectEnv) (error : Bytes) : Prop :=
  (∃ sentCode, (beforeSignIn E Connect.start).1 = some (.signIn sentCode)) ∧
    E.signIn.tl.id = idRpcError ∧ E.signIn.tl.errorMessage = error

/-- The text of the last of these lines that reaches a handler. -/
def lastLine (lines : List Line) : Option Bytes :=
  (lines.filterMap Line.delivered).getLast?.map Prod.snd

section
variable {E : ConnectEnv} {α β : Type} {x : ConnectM α} {f : α → ConnectM β} {a : α}
  {s t : Connect} {P : Connect → Prop}

theorem connect_bind_some (h : x s = (some a, t)) : (x >>= f) s = f a t := by
  simp only [bind, OptionT.bind, OptionT.mk, StateT.bind, h]

theorem connect_bind_none (h : x s = (none, t)) : (x >>= f) s = (none, t) := by
  simp only [bind, OptionT.bind, OptionT.mk, StateT.bind, h]
  rfl

theorem emit_bind {f : Unit → ConnectM β} (lines : List Line) :
    (emit lines >>= f) s = f () (lines.foldl Connect.onLine s) := connect_bind_some rfl

/-- What holds before holds after. -/
def Connect.Keeps (P : Connect → Prop) (x : ConnectM α) : Prop := ∀ s, P s → P (x s).2

theorem Connect.Keeps.pure (a : α) : Connect.Keeps P (pure a : ConnectM α) := fun _ h => h

theorem Connect.Keeps.bind (hx : Connect.Keeps P x) (hf : ∀ a, Connect.Keeps P (f a)) :
    Connect.Keeps P (x >>= f) := by
  intro s hs
  cases hxs : x s with
  | mk o t =>
    have ht := hx s hs
    rw [hxs] at ht
    cases o with
    | none => rwa [connect_bind_none hxs]
    | some a =>
      rw [connect_bind_some hxs]
      exact hf a t ht

theorem keeps_passwordNeeded : Connect.Keeps P passwordNeeded := fun _ h => h

/-! ### Other calls than for the password -/

theorem unasked_cons {c : AuthCall} {error : Bytes} (hs : ¬ s.Asked)
    (hc : c.auth ≠ .passwordNeeded) : ¬ Connect.Asked ⟨error, c :: s.calls⟩ := by
  rintro ⟨c', hmem, hasked⟩
  obtain rfl | hmem := List.mem_cons.mp hmem
  · exact hc hasked
  · exact hs ⟨c', hmem, hasked⟩

theorem unasked_onLine (hs : ¬ s.Asked) (l : Line) : ¬ (s.onLine l).Asked := by
  rw [Connect.onLine]
  split
  · exact hs
  · rename_i auth text h
    refine unasked_cons hs ?_
    cases l <;> simp only [Line.delivered] at h
    · split_ifs at h
      cases h
      exact TgAuth.noConfusion
    · cases h
      exact TgAuth.noConfusion

theorem unasked_emit (lines : List Line) : Connect.Keeps (¬ ·.Asked) (emit lines) := by
  intro s hs
  show ¬ (lines.foldl Connect.onLine s).Asked
  induction lines generalizing s with
  | nil => exact hs
  | cons l lines ih => exact ih _ (unasked_onLine hs l)

theorem unasked_tgCb {auth : TgAuth} {tl : Tl} {error : Bytes} (h : auth ≠ .passwordNeeded) :
    Connect.Keeps (¬ ·.Asked) (tgCb E auth tl error) := by
  intro s hs
  rw [tgCb]
  split_ifs
  · exact unasked_cons hs h
  · exact hs

theorem unasked_connectPhoneNumber : Connect.Keeps (¬ ·.Asked) (connectPhoneNumber E) := by
  refine (unasked_emit _).bind fun _ => ?_
  split
  · exact .pure _
  · exact unasked_tgCb (by decide)

theorem unasked_connectPhoneCode (sentCode : Tl) :
    Connect.Keeps (¬ ·.Asked) (connectPhoneCode E sentCode) := by
  refine (unasked_tgCb (by decide)).bind fun phoneCode => ?_
  cases phoneCode with
  | none => exact (unasked_tgCb (by decide)).bind fun _ => .pure _
  | some phoneCode => exact (unasked_tgCb (by decide)).bind fun _ => .pure _

theorem unasked_beforeSignIn : Connect.Keeps (¬ ·.Asked) (beforeSignIn E) := by
  refine (unasked_emit _).bind fun _ => ?_
  split
  · exact (unasked_tgCb (by decide)).bind fun _ => .pure _
  · refine unasked_connectPhoneNumber.bind fun phoneNumber => ?_
    cases phoneNumber with
    | none => exact (unasked_tgCb (by decide)).bind fun _ => .pure _
    | some phoneNumber =>
      refine (unasked_tgCb (by decide)).bind fun _ => (unasked_emit _).bind fun _ =>
        keeps_passwordNeeded.bind fun needed => ?_
      split_ifs
      · exact .pure _
      · split
        · exact unasked_connectPhoneCode _
        · exact .pure _

theorem unasked_tgAuthSignIn : Connect.Keeps (¬ ·.Asked) (tgAuthSignIn E) := by
  refine (unasked_emit _).bind fun _ => (unasked_emit _).bind fun _ => (unasked_emit _).bind
    fun _ => ?_
  split_ifs <;> exact (unasked_emit _).bind fun _ => .pure _

/-! ### The call for the password -/

theorem asked_tgCb {auth : TgAuth} {tl : Tl} {error : Bytes} :
    Connect.Keeps Connect.Asked (tgCb E auth tl error) := by
  rintro s ⟨c, hmem, hc⟩
  rw [tgCb]
  split_ifs
  · exact ⟨c, List.mem_cons_of_mem _ hmem, hc⟩
  · exact ⟨c, hmem, hc⟩

theorem askPassword_asked (sentCode : Tl) : (askPassword E sentCode s).2.Asked := by
  have hcall : tgCb E .passwordNeeded sentCode (ascii "enter password") s =
      (some (E.callback (⟨.passwordNeeded, sentCode, ascii "enter password"⟩ :: s.calls)),
        { s with calls := ⟨.passwordNeeded, sentCode, ascii "enter password"⟩ :: s.calls }) := by
    rw [tgCb, if_pos (by decide)]
  rw [askPassword, connect_bind_some hcall]
  have hasked : Connect.Asked
      { s with calls := ⟨.passwordNeeded, sentCode, ascii "enter password"⟩ :: s.calls } :=
    ⟨_, List.mem_cons_self, rfl⟩
  cases E.callback (⟨.passwordNeeded, sentCode, ascii "enter password"⟩ :: s.calls) with
  | none => exact asked_tgCb.bind (fun _ => .pure _) _ hasked
  | some password =>
    exact asked_tgCb.bind (fun _ => asked_tgCb.bind fun _ => .pure _) _ hasked

/-! ### The text at the check -/

theorem error_foldl (lines : List Line) (s : Connect) :
    (lines.foldl Connect.onLine s).error = (lastLine lines).getD s.error := by
  induction lines generalizing s with
  | nil => rfl
  | cons l lines ih =>
    rw [List.foldl_cons, ih, Connect.onLine, lastLine, lastLine, List.filterMap_cons]
    cases l.delivered with
    | none => rfl
    | some d =>
      simp only [List.getLast?_cons, Option.map_some, Option.getD_some]
      cases (lines.filterMap Line.delivered).getLast? <;> rfl

/-- The caller's own line starts with its name. -/
theorem gotTlLine_delivered (tl : Tl) : ∃ text, (gotTlLine E tl).delivered = some (.info, text) ∧
    text ≠ ascii "SESSION_PASSWORD_NEEDED" := by
  refine ⟨_, rfl, fun h => ?_⟩
  rw [formatted] at h
  have hfirst := congrArg List.head? h
  exact absurd (Option.some.inj hfirst) (by decide)

/-- Behind `tg_auth_signIn` the text is that of the last line. -/
theorem tgAuthSignIn_refused (h : E.signIn.tl.id = idRpcError) :
    ∃ t, tgAuthSignIn E s = (some .null, t) ∧ (t.error = ascii "SESSION_PASSWORD_NEEDED" ↔
      lastLine E.signIn.after = some (ascii "SESSION_PASSWORD_NEEDED")) := by
  have hid : E.signIn.tl.id ≠ idAuthAuthorization := by
    rw [h]
    decide
  obtain ⟨text, hdelivered, hne⟩ := gotTlLine_delivered (E := E) E.signIn.tl
  rw [tgAuthSignIn, emit_bind, emit_bind, emit_bind, if_neg hid, emit_bind]
  refine ⟨_, rfl, ?_⟩
  rw [error_foldl, List.foldl_cons, List.foldl_nil, Connect.onLine, hdelivered]
  cases lastLine E.signIn.after with
  | none => exact iff_of_false hne fun h => by cases h
  | some last => exact Option.some_inj.symm

/-- The user is asked for the password exactly if the last line before the check, which is not one
of the caller's own, is the text. -/
theorem asksPassword_iff (h : SignInAnswered E (ascii "SESSION_PASSWORD_NEEDED")) :
    AsksPassword E ↔ lastLine E.signIn.after = some (ascii "SESSION_PASSWORD_NEEDED") := by
  obtain ⟨⟨sentCode, hcalled⟩, hid, -⟩ := h
  obtain ⟨s, hbefore⟩ : ∃ s, beforeSignIn E Connect.start = (some (.signIn sentCode), s) :=
    ⟨_, Prod.ext hcalled rfl⟩
  have hs : ¬ s.Asked := by
    have := unasked_beforeSignIn (E := E) Connect.start (fun ⟨c, hmem, _⟩ => List.not_mem_nil hmem)
    rwa [hbefore] at this
  obtain ⟨t, hsignIn, hlast⟩ := tgAuthSignIn_refused (E := E) (s := s) hid
  have ht : ¬ t.Asked := by
    have := unasked_tgAuthSignIn (E := E) s hs
    rwa [hsignIn] at this
  have hcheck : tgConnect E Connect.start =
      (if t.error == ascii "SESSION_PASSWORD_NEEDED" then askPassword E sentCode
        else pure 1) t := by
    rw [tgConnect, connect_bind_some hbefore]
    dsimp only
    rw [connect_bind_some hsignIn]
    exact connect_bind_some rfl
  rw [AsksPassword, hcheck, ← hlast]
  by_cases hneeded : t.error = ascii "SESSION_PASSWORD_NEEDED"
  · rw [if_pos (beq_iff_eq.mpr hneeded)]
    exact iff_of_true (askPassword_asked sentCode) hneeded
  · rw [if_neg fun hb => hneeded (beq_iff_eq.mp hb)]
    exact iff_of_false ht hneeded

end

/-- A login in which nothing but the client's own lines and these are given. -/
def passwordLogin (after : List Line) : ConnectEnv where
  tlName _ := ascii "rpc_error"
  callback _ := some (ascii "12345")
  isAuthorized := ([], .null)
  phoneNumberFromDatabase := ([], some (ascii "+70000000000"))
  sendCode := ([], .object 0x5e002502 [] [])
  signIn :=
    let error := .object idRpcError [] [.int 401, .buf (ascii "SESSION_PASSWORD_NEEDED")]
    ⟨[], error, [], error, after⟩

theorem asksPassword_iff_passwordLogin :
    AsksPassword (passwordLogin [.err (ascii "SESSION_PASSWORD_NEEDED")]) ↔
      lastLine [.err (ascii "SESSION_PASSWORD_NEEDED")] =
        some (ascii "SESSION_PASSWORD_NEEDED") :=
  asksPassword_iff (E := passwordLogin [.err (ascii "SESSION_PASSWORD_NEEDED")])
    ⟨⟨_, rfl⟩, rfl, rfl⟩

/-- Whoever needs a password is asked for it. -/
def PasswordAlwaysAsked : Prop :=
  ∀ E : ConnectEnv, SignInAnswered E (ascii "SESSION_PASSWORD_NEEDED") → AsksPassword E

theorem passwordAlwaysAsked_counterexample : ¬ PasswordAlwaysAsked := by
  intro h
  have hasks : (tgConnect (passwordLogin []) Connect.start).2.Asked :=
    h (passwordLogin []) ⟨⟨_, rfl⟩, rfl, rfl⟩
  exact absurd hasks (by decide +kernel)

end Libtg
