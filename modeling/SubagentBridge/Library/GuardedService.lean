import SubagentBridge.Library.Service

/-! Services under conditions: on what is asked, on what the environment answers to an
operation, and on when the process is killed. -/

namespace Library

namespace Proc

variable {S : Signature} {ε α β : Type} {R : Runtime S ε}

/-- `Ensures`, in environments that keep to `G` at each operation. -/
def EnsuresOn (G : S.Op → R.World → R.Moment → Prop) (T : R.Moment → R.Moment → Prop)
    (Q : R.Moment → Except ε α → Prop) : R.Moment → Proc S ε α → Prop
  | m, .ret a => Q m (.ok a)
  | m, .raise e => Q m (.error e)
  | m, .call o k => ∀ w, R.possible o w m.state → G o w m →
      T m (R.after o w m) ∧ (k (R.answer o w m)).EnsuresOn G T Q (R.after o w m)

variable {G : S.Op → R.World → R.Moment → Prop} {T T' : R.Moment → R.Moment → Prop}
variable {m : R.Moment} {Q Q' : R.Moment → Except ε α → Prop}

theorem Ensures.on {p : Proc S ε α} (h : p.Ensures (fun _ => True) T Q m) :
    p.EnsuresOn G T Q m := by
  induction p generalizing m with
  | ret a => exact h
  | raise e => exact h
  | call o k ih => exact fun w hp _ => ⟨(h w hp trivial).1, ih _ (h w hp trivial).2⟩

theorem EnsuresOn.mono {p : Proc S ε α} (h : p.EnsuresOn G T Q m)
    (hT : ∀ m m', T m m' → T' m m') (hQ : ∀ m r, Q m r → Q' m r) : p.EnsuresOn G T' Q' m := by
  induction p generalizing m with
  | ret a => exact hQ _ _ h
  | raise e => exact hQ _ _ h
  | call o k ih => exact fun w hp hw => ⟨hT _ _ (h w hp hw).1, ih _ (h w hp hw).2⟩

theorem EnsuresOn.under {p : Proc S ε α} {K : R.Moment → Prop} (h : p.EnsuresOn G T Q m)
    (hm : K m) (hK : ∀ m m', K m → T m m' → T' m m' ∧ K m') :
    p.EnsuresOn G T' (fun m r => Q m r ∧ K m) m := by
  induction p generalizing m with
  | ret a => exact ⟨h, hm⟩
  | raise e => exact ⟨h, hm⟩
  | call o k ih =>
    intro w hp hw
    obtain ⟨hT, hQ⟩ := h w hp hw
    exact ⟨(hK _ _ hm hT).1, ih _ hQ (hK _ _ hm hT).2⟩

theorem EnsuresOn.bind {Q : R.Moment → Except ε β → Prop} {p : Proc S ε α} {f : α → Proc S ε β}
    {M : R.Moment → Except ε α → Prop} (hp : p.EnsuresOn G T M m)
    (hok : ∀ m a, M m (.ok a) → (f a).EnsuresOn G T Q m)
    (herr : ∀ m e, M m (.error e) → Q m (.error e)) : (p.bind f).EnsuresOn G T Q m := by
  induction p generalizing m with
  | ret a => exact hok _ _ hp
  | raise e => exact herr _ _ hp
  | call o k ih => exact fun w hpos hw => ⟨(hp w hpos hw).1, ih _ (hp w hpos hw).2⟩

theorem EnsuresOn.tryCatch {p : Proc S ε α} {f : ε → Proc S ε α}
    {M : R.Moment → Except ε α → Prop} (hp : p.EnsuresOn G T M m)
    (hok : ∀ m a, M m (.ok a) → Q m (.ok a))
    (herr : ∀ m e, M m (.error e) → (f e).EnsuresOn G T Q m) :
    (p.tryCatch f).EnsuresOn G T Q m := by
  induction p generalizing m with
  | ret a => exact hok _ _ hp
  | raise e => exact herr _ _ hp
  | call o k ih => exact fun w hpos hw => ⟨(hp w hpos hw).1, ih _ (hp w hpos hw).2⟩

theorem ensuresOn_ofExcept {x : Except ε α} (h : Q m x) : (ofExcept x).EnsuresOn G T Q m := by
  cases x with
  | ok a => exact h
  | error e => exact h

theorem ensuresOn_op {o : S.Op} {Q : R.Moment → Except ε (S.Ret o) → Prop}
    (h : ∀ w, R.possible o w m.state → G o w m →
      T m (R.after o w m) ∧ Q (R.after o w m) (R.answer o w m)) : (op o).EnsuresOn G T Q m := by
  intro w hp hw
  obtain ⟨hT, hQ⟩ := h w hp hw
  exact ⟨hT, ensuresOn_ofExcept hQ⟩

end Proc

namespace Service

variable {S : Signature} {ε : Type} {V : Service S ε}

/-- What is asked of requests, of the answers of the environment, and of kills. -/
structure Conditions (V : Service S ε) where
  request : V.Request → V.toRuntime.Moment → Prop := fun _ _ => True
  act : S.Op → V.World → V.toRuntime.Moment → Prop := fun _ _ _ => True
  restart : V.toRuntime.Moment → Prop := fun _ => True

def Conditions.Met (C : Conditions V) (c : V.Config) : V.Label → Prop
  | .request q => C.request q c.moment
  | .act w => match c.call with
    | some (_, .call o _) => C.act o w c.moment
    | _ => True
  | .restart => C.restart c.moment

variable {C : Conditions V} {T : V.Request → V.toRuntime.Moment → V.toRuntime.Moment → Prop}
variable {K : V.toRuntime.Moment → Prop} {c c' : V.Config} {l : V.Label}

structure Upheld (C : Conditions V)
    (T : V.Request → V.toRuntime.Moment → V.toRuntime.Moment → Prop)
    (K : V.toRuntime.Moment → Prop) (c : V.Config) : Prop where
  always : K c.moment
  active : ∀ q p, c.call = some (q, p) → p.EnsuresOn C.act (T q) (fun _ _ => True) c.moment

theorem Upheld.transition (hs : Upheld C T K c) {w : V.World} (hl : C.Met c (.act w))
    (h : step c (.act w) = some c') :
    ∃ q, (∃ p, c.call = some (q, p)) ∧ T q c.moment c'.moment := by
  obtain ⟨q, o, k, hc, hp, rfl⟩ := step_act h
  rw [Conditions.Met, hc] at hl
  exact ⟨q, ⟨_, hc⟩, (hs.active q _ hc w hp hl).1⟩

theorem Upheld.step (hbody : ∀ q m, C.request q m → K m →
      (V.body q).EnsuresOn C.act (T q) (fun _ _ => True) m)
    (hT : ∀ q m m', K m → T q m m' → K m')
    (hrestart : ∀ m : V.toRuntime.Moment, C.restart m → K m → K ⟨V.restart m.state, m.history⟩)
    (hs : Upheld C T K c) (hl : C.Met c l) (h : step c l = some c') : Upheld C T K c' := by
  cases l with
  | request q =>
    simp only [Service.step] at h
    split at h
    next hi =>
      cases h
      refine ⟨hs.always, fun q' p hc => ?_⟩
      cases hc
      exact hbody q _ hl hs.always
    next => cases h
  | act w =>
    obtain ⟨q, o, k, hc, hp, rfl⟩ := step_act h
    rw [Conditions.Met, hc] at hl
    obtain ⟨hTq, hk⟩ := hs.active q _ hc w hp hl
    refine ⟨hT q _ _ hs.always hTq, fun q' p hc => ?_⟩
    cases hc
    exact hk
  | restart =>
    cases h
    exact ⟨hrestart _ hl hs.always, fun _ _ hc => (by cases hc)⟩

theorem upheld (hbody : ∀ q m, C.request q m → K m →
      (V.body q).EnsuresOn C.act (T q) (fun _ _ => True) m)
    (hT : ∀ q m m', K m → T q m m' → K m')
    (hrestart : ∀ m : V.toRuntime.Moment, C.restart m → K m → K ⟨V.restart m.state, m.history⟩)
    {ls : List V.Label} (h₀ : Upheld C T K c) (hrun : Path Service.step C.Met c ls c') :
    Upheld C T K c' := by
  induction hrun with
  | refl => exact h₀
  | tail _ hl hs ih => exact ih.step hbody hT hrestart hl hs

end Service

end Library
