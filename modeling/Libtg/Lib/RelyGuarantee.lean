import Libtg.Lib.Transition

/-!
# Threads that share a state

A `Prog` takes one action on the shared state at a time and goes on with its answer; between two
actions of a thread the others may take any number of theirs. What an action does is told by a
handler `h : thread → action → state → Option (answer × state)`, where `none` is an action that has
to wait.

`Ensures h rely guar i p s Q` is the rely/guarantee triple: run by thread `i` from `s` among threads
that change the state only as `rely` allows, `p` changes it only as `guar` allows, and if it ends
`Q` holds of its answer, then and after more interference. `Pool.sound_move` is the parallel rule:
where each thread's guarantee is within the others' rely, the triples hold of all threads at once.
-/

/-- A program over the actions `A`, of which `a` answers with an `R a`. -/
inductive Prog (A : Type) (R : A → Type) (α : Type) : Type
  | done (x : α)
  | act (a : A) (k : R a → Prog A R α)

namespace Prog

variable {A : Type} {R : A → Type} {α β σ : Type}

protected def bind : Prog A R α → (α → Prog A R β) → Prog A R β
  | .done x, f => f x
  | .act a k, f => .act a fun r => (k r).bind f

instance : Monad (Prog A R) where
  pure := .done
  bind := Prog.bind

@[simp] theorem pure_eq (x : α) : (pure x : Prog A R α) = .done x := rfl

@[simp] theorem done_bind (x : α) (f : α → Prog A R β) : (Prog.done x >>= f) = f x := rfl

@[simp] theorem act_bind (a : A) (k : R a → Prog A R α) (f : α → Prog A R β) :
    (Prog.act a k >>= f) = .act a fun r => k r >>= f := rfl

theorem bind_done (p : Prog A R α) : p >>= .done = p := by
  induction p with
  | done x => rfl
  | act a k ih =>
    rw [act_bind]
    congr 1
    funext r
    exact ih r

theorem bind_assoc' {γ : Type} (p : Prog A R α) (f : α → Prog A R β) (g : β → Prog A R γ) :
    p >>= f >>= g = p >>= fun x => f x >>= g := by
  induction p with
  | done x => rfl
  | act a k ih =>
    simp only [act_bind]
    congr 1
    funext r
    exact ih r

instance : LawfulMonad (Prog A R) :=
  LawfulMonad.mk' (Prog A R) bind_done (fun _ _ => rfl) bind_assoc'

/-! ## A thread alone -/

/-- The run of a program without other threads. -/
def run (h : (a : A) → σ → Option (R a × σ)) : Prog A R α → σ → Option (α × σ)
  | .done x, s => some (x, s)
  | .act a k, s => (h a s).bind fun z => (k z.1).run h z.2

theorem run_bind (h : (a : A) → σ → Option (R a × σ)) (p : Prog A R α) (f : α → Prog A R β)
    (s : σ) : (p >>= f).run h s = (p.run h s).bind fun z => (f z.1).run h z.2 := by
  induction p generalizing s with
  | done x => rfl
  | act a k ih =>
    rw [act_bind, run, run, Option.bind_assoc]
    congr 1
    funext z
    exact ih z.1 z.2

end Prog

/-! ## Triples -/

section Ensures

variable {A : Type} {R : A → Type} {α β σ : Type} {h : Nat → (a : A) → σ → Option (R a × σ)}
  {rely guar : σ → σ → Prop} {i : Nat}

/-- The triple of `p` from `s`, run by thread `i`. -/
def Ensures (h : Nat → (a : A) → σ → Option (R a × σ)) (rely guar : σ → σ → Prop) (i : Nat) :
    Prog A R α → σ → (α → σ → Prop) → Prop
  | .done x, s, Q => ∀ s', rely s s' → Q x s'
  | .act a k, s, Q => ∀ s', rely s s' → ∀ r s'', h i a s' = some (r, s'') →
      guar s' s'' ∧ Ensures h rely guar i (k r) s'' Q

theorem Ensures.mono {p : Prog A R α} {s : σ} {Q Q' : α → σ → Prop}
    (hp : Ensures h rely guar i p s Q) (hQ : ∀ x s, Q x s → Q' x s) :
    Ensures h rely guar i p s Q' := by
  induction p generalizing s with
  | done x => exact fun s' hs' => hQ x s' (hp s' hs')
  | act a k ih =>
    intro s' hs' r s'' hr
    obtain ⟨hguar, hk⟩ := hp s' hs' r s'' hr
    exact ⟨hguar, ih r hk⟩

theorem Ensures.guar_mono {guar' : σ → σ → Prop} (hguar : ∀ s t, guar s t → guar' s t)
    {p : Prog A R α} {s : σ} {Q : α → σ → Prop} (hp : Ensures h rely guar i p s Q) :
    Ensures h rely guar' i p s Q := by
  induction p generalizing s with
  | done x => exact hp
  | act a k ih =>
    intro s' hs' r s'' hr
    obtain ⟨hs'', hk⟩ := hp s' hs' r s'' hr
    exact ⟨hguar s' s'' hs'', ih r hk⟩

/-- What the others do in between changes nothing. -/
theorem Ensures.stable (htrans : ∀ s t u, rely s t → rely t u → rely s u) {p : Prog A R α}
    {s t : σ} {Q : α → σ → Prop} (hp : Ensures h rely guar i p s Q) (hst : rely s t) :
    Ensures h rely guar i p t Q := by
  cases p with
  | done x => exact fun s' hs' => hp s' (htrans s t s' hst hs')
  | act a k => exact fun s' hs' => hp s' (htrans s t s' hst hs')

/-- What rely and guarantee have in common holds between the beginning and the end. -/
theorem Ensures.since {T : σ → σ → Prop} (htrans : ∀ s t u, T s t → T t u → T s u)
    (hrely : ∀ s t, rely s t → T s t) (hguar : ∀ s t, guar s t → T s t) {p : Prog A R α}
    {s : σ} {Q : α → σ → Prop} (hp : Ensures h rely guar i p s Q) :
    Ensures h rely guar i p s fun x t => Q x t ∧ T s t := by
  induction p generalizing s with
  | done x => exact fun s' hs' => ⟨hp s' hs', hrely s s' hs'⟩
  | act a k ih =>
    intro s' hs' r s'' hr
    obtain ⟨hs'', hk⟩ := hp s' hs' r s'' hr
    have hbegin : T s s'' := htrans s s' s'' (hrely s s' hs') (hguar s' s'' hs'')
    exact ⟨hs'', (ih r hk).mono fun x t h => ⟨h.1, htrans s s'' t hbegin h.2⟩⟩

theorem Ensures.bind (hrefl : ∀ s, rely s s) {p : Prog A R α} {f : α → Prog A R β} {s : σ}
    {Q : β → σ → Prop}
    (hp : Ensures h rely guar i p s fun x s' => Ensures h rely guar i (f x) s' Q) :
    Ensures h rely guar i (p >>= f) s Q := by
  induction p generalizing s with
  | done x => exact hp s (hrefl s)
  | act a k ih =>
    intro s' hs' r s'' hr
    obtain ⟨hguar, hk⟩ := hp s' hs' r s'' hr
    exact ⟨hguar, ih r hk⟩

end Ensures

/-! ## Threads side by side -/

/-- The shared state, and for each thread its call and what is left of it to do. -/
structure Pool (A : Type) (R : A → Type) (α C σ : Type) where
  shared : σ
  threads : Nat → Option (C × Prog A R α)

namespace Pool

/-- A thread begins a call, or takes its next action or returns. -/
inductive Move (C : Type) where
  | call (i : Nat) (c : C)
  | act (i : Nat)

variable {A : Type} {R : A → Type} {α C σ : Type} {h : Nat → (a : A) → σ → Option (R a × σ)}
  {prog : C → Prog A R α} {ret : Nat → C → α → σ → σ}

/-- No thread is in a call. -/
def idle (s : σ) : Pool A R α C σ := ⟨s, fun _ => none⟩

/-- The next action of a thread. -/
def next (P : Pool A R α C σ) (i : Nat) : Option A :=
  match P.threads i with
  | some (_, .act a _) => some a
  | _ => none

/-- One move. `ret` is what is noted when a call returns. -/
def move (h : Nat → (a : A) → σ → Option (R a × σ)) (prog : C → Prog A R α)
    (ret : Nat → C → α → σ → σ) (P : Pool A R α C σ) : Move C → Option (Pool A R α C σ)
  | .call i c =>
    match P.threads i with
    | none => some { P with threads := Function.update P.threads i (some (c, prog c)) }
    | some _ => none
  | .act i =>
    match P.threads i with
    | none => none
    | some (c, .done x) => some ⟨ret i c x P.shared, Function.update P.threads i none⟩
    | some (c, .act a k) =>
      (h i a P.shared).map fun z => ⟨z.2, Function.update P.threads i (some (c, k z.1))⟩

theorem move_call {P P' : Pool A R α C σ} {i : Nat} {c : C}
    (hm : move h prog ret P (.call i c) = some P') :
    P.threads i = none ∧
      P' = { P with threads := Function.update P.threads i (some (c, prog c)) } := by
  simp only [move] at hm
  split at hm
  · exact ⟨‹_›, (Option.some.inj hm).symm⟩
  · cases hm

theorem move_act {P P' : Pool A R α C σ} {i : Nat} (hm : move h prog ret P (.act i) = some P') :
    (∃ c x, P.threads i = some (c, .done x) ∧
      P' = ⟨ret i c x P.shared, Function.update P.threads i none⟩) ∨
    ∃ c a k r s, P.threads i = some (c, .act a k) ∧ P.next i = some a ∧
      h i a P.shared = some (r, s) ∧
      P' = ⟨s, Function.update P.threads i (some (c, k r))⟩ := by
  simp only [move] at hm
  split at hm
  · cases hm
  · exact .inl ⟨_, _, ‹_›, (Option.some.inj hm).symm⟩
  · rename_i c a k hthread
    rw [Option.map_eq_some_iff] at hm
    obtain ⟨⟨r, s⟩, hr, rfl⟩ := hm
    exact .inr ⟨c, a, k, r, s, hthread, by rw [next, hthread], hr, rfl⟩

/-! ### The parallel rule -/

/-- What each thread may rely on, what it guarantees, and what its calls ensure. -/
structure Contract (h : Nat → (a : A) → σ → Option (R a × σ)) (prog : C → Prog A R α)
    (ret : Nat → C → α → σ → σ) (allowed : C → Prop) where
  rely : Nat → σ → σ → Prop
  guar : Nat → σ → σ → Prop
  post : Nat → C → α → σ → Prop
  refl : ∀ i s, rely i s s
  trans : ∀ i s t u, rely i s t → rely i t u → rely i s u
  compatible : ∀ i j s t, i ≠ j → guar j s t → rely i s t
  ensures : ∀ i c s, allowed c → Ensures h (rely i) (guar i) i (prog c) s (post i c)
  returns : ∀ i c x s, post i c x s → guar i s (ret i c x s)

/-- The triples of all threads hold. -/
def Sound {allowed : C → Prop} (K : Contract h prog ret allowed) (P : Pool A R α C σ) : Prop :=
  ∀ i c p, P.threads i = some (c, p) →
    Ensures h (K.rely i) (K.guar i) i p P.shared (K.post i c)

/-- Only calls of this kind begin. -/
def Calls (allowed : C → Prop) : Pool A R α C σ → Move C → Prop
  | _, .call _ c => allowed c
  | _, .act _ => True

variable {allowed : C → Prop} {K : Contract h prog ret allowed} {P P' : Pool A R α C σ}

theorem sound_idle (s : σ) : Sound K (idle s) := nofun

/-- A move of a thread within its guarantee keeps the triples of the others. -/
theorem Sound.update (hs : Sound K P) {i : Nat} {s : σ} {p : Option (C × Prog A R α)}
    (hguar : K.guar i P.shared s)
    (hp : ∀ c q, p = some (c, q) → Ensures h (K.rely i) (K.guar i) i q s (K.post i c)) :
    Sound K ⟨s, Function.update P.threads i p⟩ := by
  intro j c q hq
  simp only [Function.update_apply] at hq
  split_ifs at hq with hj
  · rw [hj]
    exact hp c q hq
  · exact (hs j c q hq).stable (K.trans j) (K.compatible j i _ _ hj hguar)

/-- The parallel rule: a move keeps all triples, and if it changes the shared state then within the
guarantee of its thread. -/
theorem sound_move {l : Move C} (hs : Sound K P) (hl : Calls allowed P l)
    (hm : move h prog ret P l = some P') :
    Sound K P' ∧ (P'.shared = P.shared ∨ ∃ i, K.guar i P.shared P'.shared) := by
  cases l with
  | call i c =>
    obtain ⟨-, rfl⟩ := move_call hm
    refine ⟨fun j c' q hq => ?_, .inl rfl⟩
    simp only [Function.update_apply] at hq
    split_ifs at hq with hj
    · cases hq
      rw [hj]
      exact K.ensures i c _ hl
    · exact hs j c' q hq
  | act i =>
    obtain ⟨c, x, hthread, rfl⟩ | ⟨c, a, k, r, s, hthread, -, hr, rfl⟩ := move_act hm
    · have hguar := K.returns i c x _ (hs i c _ hthread P.shared (K.refl i _))
      exact ⟨hs.update hguar nofun, .inr ⟨i, hguar⟩⟩
    · obtain ⟨hguar, hk⟩ := hs i c _ hthread P.shared (K.refl i _) r s hr
      refine ⟨hs.update hguar fun c' q hq => ?_, .inr ⟨i, hguar⟩⟩
      cases hq
      exact hk

/-- The run rule: the triples hold in every state of a run. -/
theorem sound_reach {s₀ : σ} {ok : Pool A R α C σ → Move C → Prop}
    (K : Contract h prog ret allowed) (hok : ∀ P l, ok P l → Calls allowed P l)
    (hr : Transition.Reach (move h prog ret) ok (idle s₀) P) : Sound K P :=
  hr.invariant (sound_idle s₀) fun P l _ hs hl hm => (sound_move hs (hok P l hl) hm).1

/-- What every guarantee keeps holds of the shared state of every run. -/
theorem invariant_of_guar {I : σ → Prop} {s₀ : σ} {ok : Pool A R α C σ → Move C → Prop}
    (K : Contract h prog ret allowed) (hok : ∀ P l, ok P l → Calls allowed P l)
    (hI : ∀ i s t, I s → K.guar i s t → I t) (hinit : I s₀)
    (hr : Transition.Reach (move h prog ret) ok (idle s₀) P) : I P.shared := by
  refine hr.invariant_of_reach (I := fun P => I P.shared) hinit fun P l P' hreach hIP hl hm => ?_
  obtain ⟨-, heq | ⟨i, hguar⟩⟩ := sound_move (sound_reach K hok hreach) (hok P l hl) hm
  · exact heq ▸ hIP
  · exact hI i _ _ hIP hguar

end Pool
