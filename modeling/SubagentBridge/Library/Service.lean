import SubagentBridge.Library.Traces

/-! A process that serves one request at a time on a state that may outlive it: the process
may be killed between any two operations, and a new one starts from what is left. -/

namespace Library

/-- What the operations of a signature do to a state, for each answer of the environment. -/
structure Runtime (S : Signature) (ε : Type) where
  State : Type
  World : Type
  possible : S.Op → World → State → Bool
  exec : (o : S.Op) → World → State → Except ε (S.Ret o) × State

namespace Runtime

variable {S : Signature} {ε : Type}

/-- A state, and all that was performed until then. -/
structure Moment (R : Runtime S ε) where
  state : R.State
  history : List (Event S ε)

variable {R : Runtime S ε}

def answer (R : Runtime S ε) (o : S.Op) (w : R.World) (m : R.Moment) : Except ε (S.Ret o) :=
  (R.exec o w m.state).1

def after (R : Runtime S ε) (o : S.Op) (w : R.World) (m : R.Moment) : R.Moment :=
  ⟨(R.exec o w m.state).2, m.history ++ [⟨o, R.answer o w m⟩]⟩

@[simp] theorem after_state (o : S.Op) (w : R.World) (m : R.Moment) :
    (R.after o w m).state = (R.exec o w m.state).2 := rfl

@[simp] theorem after_history (o : S.Op) (w : R.World) (m : R.Moment) :
    (R.after o w m).history = m.history ++ [⟨o, R.answer o w m⟩] := rfl

end Runtime

namespace Proc

variable {S : Signature} {ε α β : Type} {R : Runtime S ε}

/-- Runs a procedure to its end on the given answers of the environment, one for each
operation. -/
def eval (R : Runtime S ε) : List R.World → Proc S ε α → R.Moment → Option (Except ε α × R.Moment)
  | [], .ret a, m => some (.ok a, m)
  | [], .raise e, m => some (.error e, m)
  | w :: ws, .call o k, m =>
    if R.possible o w m.state then (k (R.answer o w m)).eval R ws (R.after o w m) else none
  | _, _, _ => none

/-- `p.Ensures W T Q m`: from the moment `m` on, in environments that satisfy `W`, each
operation takes one moment to the next as `T` says, and the end satisfies `Q`. -/
def Ensures (W : R.World → Prop) (T : R.Moment → R.Moment → Prop)
    (Q : R.Moment → Except ε α → Prop) : R.Moment → Proc S ε α → Prop
  | m, .ret a => Q m (.ok a)
  | m, .raise e => Q m (.error e)
  | m, .call o k => ∀ w, R.possible o w m.state → W w →
      T m (R.after o w m) ∧ (k (R.answer o w m)).Ensures W T Q (R.after o w m)

variable {W : R.World → Prop} {T T' : R.Moment → R.Moment → Prop} {m m' : R.Moment}
variable {Q Q' : R.Moment → Except ε α → Prop}

@[simp] theorem ensures_ret (a : α) :
    (ret a : Proc S ε α).Ensures W T Q m ↔ Q m (.ok a) := Iff.rfl

@[simp] theorem ensures_raise (e : ε) :
    (raise e : Proc S ε α).Ensures W T Q m ↔ Q m (.error e) := Iff.rfl

theorem Ensures.mono {p : Proc S ε α} (h : p.Ensures W T Q m)
    (hT : ∀ m m', T m m' → T' m m') (hQ : ∀ m r, Q m r → Q' m r) : p.Ensures W T' Q' m := by
  induction p generalizing m with
  | ret a => exact hQ _ _ h
  | raise e => exact hQ _ _ h
  | call o k ih => exact fun w hp hw => ⟨hT _ _ (h w hp hw).1, ih _ (h w hp hw).2⟩

theorem Ensures.post {p : Proc S ε α} (h : p.Ensures W T Q m)
    (hQ : ∀ m r, Q m r → Q' m r) : p.Ensures W T Q' m := h.mono (fun _ _ => id) hQ

theorem Ensures.and {p : Proc S ε α} (h : p.Ensures W T Q m) (h' : p.Ensures W T' Q' m) :
    p.Ensures W (fun m m' => T m m' ∧ T' m m') (fun m r => Q m r ∧ Q' m r) m := by
  induction p generalizing m with
  | ret a => exact ⟨h, h'⟩
  | raise e => exact ⟨h, h'⟩
  | call o k ih =>
    exact fun w hp hw => ⟨⟨(h w hp hw).1, (h' w hp hw).1⟩, ih _ (h w hp hw).2 (h' w hp hw).2⟩

theorem Ensures.with {p : Proc S ε α} (h : p.Ensures W T Q m)
    (h' : p.Ensures W (fun _ _ => True) Q' m) : p.Ensures W T (fun m r => Q m r ∧ Q' m r) m :=
  (h.and h').mono (fun _ _ hT => hT.1) fun _ _ hQ => hQ

theorem Ensures.under {p : Proc S ε α} {K : R.Moment → Prop} (h : p.Ensures W T Q m) (hm : K m)
    (hK : ∀ m m', K m → T m m' → T' m m' ∧ K m') :
    p.Ensures W T' (fun m r => Q m r ∧ K m) m := by
  induction p generalizing m with
  | ret a => exact ⟨h, hm⟩
  | raise e => exact ⟨h, hm⟩
  | call o k ih =>
    intro w hp hw
    obtain ⟨hT, hQ⟩ := h w hp hw
    exact ⟨(hK _ _ hm hT).1, ih _ hQ (hK _ _ hm hT).2⟩

theorem Ensures.keeps {p : Proc S ε α} {K : R.Moment → Prop} (h : p.Ensures W T Q m) (hm : K m)
    (hK : ∀ m m', K m → T m m' → K m') : p.Ensures W T (fun m r => Q m r ∧ K m) m :=
  h.under hm fun m m' hk hT => ⟨hT, hK m m' hk hT⟩

theorem Ensures.bind {Q : R.Moment → Except ε β → Prop} {p : Proc S ε α} {f : α → Proc S ε β}
    {M : R.Moment → Except ε α → Prop} (hp : p.Ensures W T M m)
    (hok : ∀ m a, M m (.ok a) → (f a).Ensures W T Q m)
    (herr : ∀ m e, M m (.error e) → Q m (.error e)) : (p.bind f).Ensures W T Q m := by
  induction p generalizing m with
  | ret a => exact hok _ _ hp
  | raise e => exact herr _ _ hp
  | call o k ih => exact fun w hpos hw => ⟨(hp w hpos hw).1, ih _ (hp w hpos hw).2⟩

theorem Ensures.seq {p : Proc S ε α} {f : α → Proc S ε β}
    (hp : p.Ensures W T (fun _ _ => True) m)
    (hf : ∀ m a, (f a).Ensures W T (fun _ _ => True) m) :
    (p.bind f).Ensures W T (fun _ _ => True) m :=
  hp.bind (fun m a _ => hf m a) fun _ _ _ => trivial

def Returns (P : R.Moment → α → Prop) (m : R.Moment) (r : Except ε α) : Prop :=
  ∀ a, r = .ok a → P m a

@[simp] theorem returns_ok {P : R.Moment → α → Prop} (a : α) :
    Returns (ε := ε) P m (.ok a) ↔ P m a :=
  ⟨fun h => h a rfl, fun h a' ha => by cases ha; exact h⟩

@[simp] theorem returns_error {P : R.Moment → α → Prop} (e : ε) : Returns P m (.error e) :=
  fun _ ha => by cases ha

theorem Ensures.then {P : R.Moment → α → Prop} {P' : R.Moment → β → Prop} {p : Proc S ε α}
    {f : α → Proc S ε β} (hp : p.Ensures W T (Returns P) m)
    (hf : ∀ m a, P m a → (f a).Ensures W T (Returns P') m) :
    (p.bind f).Ensures W T (Returns P') m :=
  hp.bind (fun m a h => hf m a (h a rfl)) fun _ e _ => returns_error e

theorem Ensures.first {P : R.Moment → β → Prop} {K : R.Moment → Prop} {p : Proc S ε α}
    {f : α → Proc S ε β} (hp : p.Ensures W T (fun m _ => K m) m)
    (hf : ∀ m a, K m → (f a).Ensures W T (Returns P) m) :
    (p.bind f).Ensures W T (Returns P) m :=
  hp.bind (fun m a h => hf m a h) fun _ e _ => returns_error e

theorem Ensures.tryCatch {p : Proc S ε α} {f : ε → Proc S ε α}
    {M : R.Moment → Except ε α → Prop} (hp : p.Ensures W T M m)
    (hok : ∀ m a, M m (.ok a) → Q m (.ok a))
    (herr : ∀ m e, M m (.error e) → (f e).Ensures W T Q m) :
    (p.tryCatch f).Ensures W T Q m := by
  induction p generalizing m with
  | ret a => exact hok _ _ hp
  | raise e => exact herr _ _ hp
  | call o k ih => exact fun w hpos hw => ⟨(hp w hpos hw).1, ih _ (hp w hpos hw).2⟩

theorem ensures_ofExcept {x : Except ε α} (h : Q m x) : (ofExcept x).Ensures W T Q m := by
  cases x with
  | ok a => exact h
  | error e => exact h

theorem ensures_op {o : S.Op} {Q : R.Moment → Except ε (S.Ret o) → Prop}
    (h : ∀ w, R.possible o w m.state → W w →
      T m (R.after o w m) ∧ Q (R.after o w m) (R.answer o w m)) : (op o).Ensures W T Q m := by
  intro w hp hw
  obtain ⟨hT, hQ⟩ := h w hp hw
  exact ⟨hT, ensures_ofExcept hQ⟩

theorem ensures_when {p : Prop} [Decidable p] {body : Proc S ε Unit}
    {Q : R.Moment → Except ε Unit → Prop} (hbody : p → body.Ensures W T Q m)
    (hskip : ¬ p → Q m (.ok ())) : (when p body).Ensures W T Q m := by
  rw [when]
  split
  next hp => exact hbody hp
  next hp => exact hskip hp

theorem Only.steps {A : S.Op → Prop} {p : Proc S ε α} (hp : p.Only A)
    (hA : ∀ o w m, A o → T m (R.after o w m)) : p.Ensures W T (fun _ _ => True) m := by
  induction p generalizing m with
  | ret a => trivial
  | raise e => trivial
  | call o k ih => exact fun w _ _ => ⟨hA o w m hp.1, ih _ (hp.2 _)⟩

theorem Only.ensures {A : S.Op → Prop} {I : R.Moment → Prop} {p : Proc S ε α} (hp : p.Only A)
    (hI : I m) (hA : ∀ o w m, A o → R.possible o w m.state → W w → I m →
      T m (R.after o w m) ∧ I (R.after o w m)) : p.Ensures W T (fun m _ => I m) m := by
  induction p generalizing m with
  | ret a => exact hI
  | raise e => exact hI
  | call o k ih =>
    intro w hpos hw
    obtain ⟨hT, hI⟩ := hA o w m hp.1 hpos hw hI
    exact ⟨hT, ih _ (hp.2 _) hI⟩

theorem Only.events {A : S.Op → Prop} {p : Proc S ε α} (hp : p.Only A) :
    p.Ensures W (fun _ _ => True)
      (fun m' _ => ∃ h, m'.history = m.history ++ h ∧ ∀ e ∈ h, A e.op) m := by
  apply hp.ensures (I := fun m' : R.Moment => ∃ h : List (Event S ε),
    m'.history = m.history ++ h ∧ ∀ e ∈ h, A e.op)
  · exact ⟨[], by simp, List.forall_mem_nil _⟩
  · rintro o w m' ho - - ⟨h, hh, hA⟩
    refine ⟨trivial, h ++ [⟨o, R.answer o w m'⟩], by simp [hh], ?_⟩
    exact List.forall_mem_append.mpr ⟨hA, List.forall_mem_singleton.mpr ho⟩

theorem ensures_extends (p : Proc S ε α) :
    p.Ensures W (fun _ _ => True) (fun m' _ => m.history <+: m'.history) m := by
  apply (only_of_forall (A := fun _ => True) (fun _ => trivial) p).events.post
  rintro m' r ⟨h, hh, -⟩
  exact ⟨h, hh.symm⟩

theorem Ensures.eval {p : Proc S ε α} (h : p.Ensures (fun _ => True) T Q m) {ws : List R.World}
    {r : Except ε α} (he : p.eval R ws m = some (r, m')) : Q m' r := by
  induction p generalizing m ws with
  | ret a =>
    cases ws with
    | nil => cases he; exact h
    | cons => cases he
  | raise e =>
    cases ws with
    | nil => cases he; exact h
    | cons => cases he
  | call o k ih =>
    cases ws with
    | nil => cases he
    | cons w ws =>
      rw [Proc.eval] at he
      split at he
      next hp => exact ih _ (h w hp trivial).2 he
      next => cases he

theorem eval_plays {p : Proc S ε α} {ws : List R.World} {r : Except ε α}
    (he : p.eval R ws m = some (r, m')) :
    ∃ h, m'.history = m.history ++ h ∧ p.Plays h r := by
  induction p generalizing m ws with
  | ret a =>
    cases ws with
    | nil => cases he; exact ⟨[], by simp, .ret a⟩
    | cons => cases he
  | raise e =>
    cases ws with
    | nil => cases he; exact ⟨[], by simp, .raise e⟩
    | cons => cases he
  | call o k ih =>
    cases ws with
    | nil => cases he
    | cons w ws =>
      rw [Proc.eval] at he
      split at he
      next =>
        obtain ⟨h, hh, hp⟩ := ih _ he
        exact ⟨_, by simp [hh], .call _ hp⟩
      next => cases he

section History

variable {ι : Type} {allow : ι → List (Event S ε) → S.Op → Prop}
variable {answer : (o : S.Op) → Except ε (S.Ret o) → Prop} {i : ι} {p : Proc S ε α}
variable {Q : ι × List (Event S ε) → Except ε α → Prop} {ws : List R.World} {r : Except ε α}

/-- What is shown along the tree of a procedure holds when it has run to its end, and so does
what every allowed operation keeps. -/
theorem Follows.eval {I : R.Moment → Prop}
    (hp : p.Follows (.ofHistory allow answer) Q (i, m.history)) (hI : I m)
    (hstep : ∀ o w m, I m → allow i m.history o →
      I (R.after o w m) ∧ answer o (R.answer o w m))
    (he : p.eval R ws m = some (r, m')) : Q (i, m'.history) r ∧ I m' := by
  induction p generalizing m ws with
  | ret a =>
    cases ws with
    | nil => cases he; exact ⟨hp, hI⟩
    | cons => cases he
  | raise e =>
    cases ws with
    | nil => cases he; exact ⟨hp, hI⟩
    | cons => cases he
  | call o k ih =>
    cases ws with
    | nil => cases he
    | cons w ws =>
      rw [Proc.eval] at he
      split at he
      next =>
        obtain ⟨hI, hans⟩ := hstep o w m hI hp.1
        exact ih _ (hp.2 _ hans) hI he
      next => cases he

end History

end Proc

/-- A runtime with the procedure run for each request, and what a new process makes of the
state that the old one left. -/
structure Service (S : Signature) (ε : Type) extends Runtime S ε where
  Request : Type
  Res : Type
  body : Request → Proc S ε Res
  restart : State → State

namespace Service

variable {S : Signature} {ε : Type} (V : Service S ε)

structure Config where
  moment : V.toRuntime.Moment
  call : Option (V.Request × Proc S ε V.Res)

inductive Label
  | request : V.Request → Label
  | act : V.World → Label
  | restart : Label

def initial (s : V.State) : V.Config := ⟨⟨s, []⟩, none⟩

def serve (q : V.Request) (ws : List V.World) : List V.Label := .request q :: ws.map .act

variable {V}

def Config.outcome (c : V.Config) : Option (Except ε V.Res) := c.call.bind fun p => p.2.result

def Config.idle (c : V.Config) : Bool := c.call.isNone || c.outcome.isSome

def step (c : V.Config) : V.Label → Option V.Config
  | .request q => if c.idle then some { c with call := some (q, V.body q) } else none
  | .act w =>
    match c.call with
    | some (q, .call o k) =>
      if V.possible o w c.moment.state then
        some ⟨V.after o w c.moment, some (q, k (V.answer o w c.moment))⟩
      else none
    | _ => none
  -- a kill is possible at any time
  | .restart => some ⟨⟨V.restart c.moment.state, c.moment.history⟩, none⟩

variable {W : V.World → Prop} {T : V.Request → V.toRuntime.Moment → V.toRuntime.Moment → Prop}
variable {J K : V.toRuntime.Moment → Prop} {c c' : V.Config} {l : V.Label}

/-- Between calls `J` holds, and at any time `K` does; a call in progress keeps to `T` and
ends in `J`. -/
structure Secured (W : V.World → Prop)
    (T : V.Request → V.toRuntime.Moment → V.toRuntime.Moment → Prop)
    (J K : V.toRuntime.Moment → Prop) (c : V.Config) : Prop where
  always : K c.moment
  idle : c.call = none → J c.moment
  active : ∀ q p, c.call = some (q, p) → p.Ensures W (T q) (fun m _ => J m) c.moment

theorem Secured.between (hs : Secured W T J K c) (hi : c.idle = true) : J c.moment := by
  cases hc : c.call with
  | none => exact hs.idle hc
  | some p =>
    obtain ⟨q, p⟩ := p
    have hp := hs.active q p hc
    cases p with
    | ret a => exact hp
    | raise e => exact hp
    | call o k => simp [Config.idle, Config.outcome, hc, Proc.result] at hi

theorem step_act {w : V.World} (h : step c (.act w) = some c') :
    ∃ q o k, c.call = some (q, .call o k) ∧ V.possible o w c.moment.state ∧
      c' = ⟨V.after o w c.moment, some (q, k (V.answer o w c.moment))⟩ := by
  simp only [step] at h
  split at h
  next q o k hc =>
    split at h
    next hp => exact ⟨q, o, k, hc, hp, (Option.some.inj h).symm⟩
    next => cases h
  next => cases h

theorem Secured.transition (hs : Secured W T J K c) {w : V.World} (hw : W w)
    (h : step c (.act w) = some c') : ∃ q,
    (∃ p, c.call = some (q, p)) ∧ T q c.moment c'.moment := by
  obtain ⟨q, o, k, hc, hp, rfl⟩ := step_act h
  exact ⟨q, ⟨_, hc⟩, (hs.active q _ hc w hp hw).1⟩

/-- The condition on labels that the rule below needs: environments in `W`, requests in `A`. -/
def Admits (W : V.World → Prop) (A : V.Request → V.toRuntime.Moment → Prop) (c : V.Config) :
    V.Label → Prop
  | .request q => A q c.moment
  | .act w => W w
  | .restart => True

variable {A : V.Request → V.toRuntime.Moment → Prop}

theorem Secured.step (hbody : ∀ q m, A q m → J m → (V.body q).Ensures W (T q) (fun m _ => J m) m)
    (hT : ∀ q m m', K m → T q m m' → K m') (hJ : ∀ m, J m → K m)
    (hrestart : ∀ m : V.toRuntime.Moment, K m → J ⟨V.restart m.state, m.history⟩)
    (hs : Secured W T J K c) (hl : Admits W A c l) (h : step c l = some c') :
    Secured W T J K c' := by
  cases l with
  | request q =>
    simp only [Service.step] at h
    split at h
    next hi =>
      cases h
      have hJ' := hs.between hi
      refine ⟨hs.always, fun hc => (by cases hc), fun q' p hc => ?_⟩
      cases hc
      exact hbody q _ hl hJ'
    next => cases h
  | act w =>
    obtain ⟨q, o, k, hc, hp, rfl⟩ := step_act h
    obtain ⟨hTq, hk⟩ := hs.active q _ hc w hp hl
    refine ⟨hT q _ _ hs.always hTq, fun hc => (by cases hc), fun q' p hc => ?_⟩
    cases hc
    exact hk
  | restart =>
    cases h
    exact ⟨hJ _ (hrestart _ hs.always), fun _ => hrestart _ hs.always, fun _ _ hc => (by cases hc)⟩

/-- The rule for runs: calls that keep `J` when they run through, and `K` at every
operation, keep both whatever is asked and whenever the process is killed. -/
theorem secured {G : V.Config → V.Label → Prop} (hG : ∀ c l, G c l → Admits W A c l)
    (hbody : ∀ q m, A q m → J m → (V.body q).Ensures W (T q) (fun m _ => J m) m)
    (hT : ∀ q m m', K m → T q m m' → K m') (hJ : ∀ m, J m → K m)
    (hrestart : ∀ m : V.toRuntime.Moment, K m → J ⟨V.restart m.state, m.history⟩)
    {s : V.State} (h₀ : J ⟨s, []⟩) {ls : List V.Label}
    (hrun : Path Service.step G (V.initial s) ls c) : Secured W T J K c := by
  induction hrun with
  | refl => exact ⟨hJ _ h₀, fun _ => h₀, fun _ _ hc => (by cases hc)⟩
  | tail _ hl hs ih => exact ih.step hbody hT hJ hrestart (hG _ _ hl) hs

section Serve

variable {Q : V.toRuntime.Moment → Except ε V.Res → Prop} {q : V.Request} {ws : List V.World}
variable {G : V.Config → V.Label → Prop}

theorem ensures_acts {T : V.toRuntime.Moment → V.toRuntime.Moment → Prop}
    (hG : ∀ c w, G c (.act w) → W w) {p : Proc S ε V.Res}
    (hrun : Path Service.step G c (ws.map .act) c') (hc : c.call = some (q, p))
    (hp : p.Ensures W T Q c.moment) :
    ∃ p', c'.call = some (q, p') ∧ p'.Ensures W T Q c'.moment := by
  induction ws generalizing c p with
  | nil =>
    generalize hn : List.map Label.act [] = ls at hrun
    cases hrun with
    | refl => exact ⟨p, hc, hp⟩
    | tail => simp at hn
  | cons w ws ih =>
    obtain ⟨c₁, hw, hs, hrest⟩ := Path.uncons (List.map_cons .. ▸ hrun)
    obtain ⟨q', o, k, hc', hpos, rfl⟩ := step_act hs
    cases hc.symm.trans hc'
    exact ih hrest rfl (hp w hpos (hG _ _ hw)).2

theorem ensures_serve {T : V.toRuntime.Moment → V.toRuntime.Moment → Prop}
    (hG : ∀ c w, G c (.act w) → W w) (hrun : Path Service.step G c (V.serve q ws) c')
    (hbody : (V.body q).Ensures W T Q c.moment) {r : Except ε V.Res}
    (hr : c'.outcome = some r) : Q c'.moment r := by
  obtain ⟨c₁, -, hs, hrest⟩ := Path.uncons hrun
  simp only [Service.step] at hs
  split at hs
  next =>
    cases hs
    obtain ⟨p, hp, hQ⟩ := ensures_acts hG hrest rfl hbody
    simp only [Config.outcome, hp, Option.bind_some] at hr
    cases p with
    | ret a => cases hr; exact hQ
    | raise e => cases hr; exact hQ
    | call o k => cases hr
  next => cases hs

end Serve

end Service

end Library
