import SubagentBridge.Library.Interleaving

/-! A component with and without operations whose answers are known beforehand: where these
operations leave alone what the others work on, a run goes through the same states without them. -/

namespace Library

namespace Proc

variable {S : Signature} {ε α β : Type} (drop : (o : S.Op) → Option (S.Ret o))

def skip : Proc S ε α → Proc S ε α
  | .ret a => .ret a
  | .raise e => .raise e
  | .call o k =>
    match drop o with
    | some a => (k (.ok a)).skip
    | none => .call o fun r => (k r).skip

variable {drop}

@[simp] theorem skip_ret (a : α) : (ret a : Proc S ε α).skip drop = .ret a := rfl

@[simp] theorem skip_raise (e : ε) : (raise e : Proc S ε α).skip drop = .raise e := rfl

theorem skip_dropped {o : S.Op} {k : Except ε (S.Ret o) → Proc S ε α} {a : S.Ret o}
    (ho : drop o = some a) : (call o k).skip drop = (k (.ok a)).skip drop := by
  rw [skip, ho]

theorem skip_kept {o : S.Op} {k : Except ε (S.Ret o) → Proc S ε α} (ho : drop o = none) :
    (call o k).skip drop = .call o fun r => (k r).skip drop := by
  rw [skip, ho]

theorem skip_bind (p : Proc S ε α) (f : α → Proc S ε β) :
    (p.bind f).skip drop = (p.skip drop).bind fun a => (f a).skip drop := by
  induction p with
  | ret a => rfl
  | raise e => rfl
  | call o k ih =>
    cases ho : drop o with
    | some a => rw [bind, skip_dropped ho, skip_dropped ho, ih]
    | none =>
      rw [bind, skip_kept ho, skip_kept ho, bind]
      exact congrArg (Proc.call o) (funext ih)

theorem Only.skip {p : Proc S ε α} (hp : p.Only fun o => drop o = none) : p.skip drop = p := by
  induction p with
  | ret a => rfl
  | raise e => rfl
  | call o k ih =>
    rw [skip_kept hp.1]
    exact congrArg (Proc.call o) (funext fun r => ih r (hp.2 r))

end Proc

namespace Machine

variable {M : Machine}

abbrev withBody (M : Machine) (body : M.Request → Proc M.sig M.Err M.Res) : Machine :=
  { M with body }

variable (drop : (o : M.sig.Op) → Option (M.sig.Ret o))
variable {body : M.Request → Proc M.sig M.Err M.Res}

def Activity.skip (a : M.Activity) : (M.withBody body).Activity where
  request := a.request
  proc := a.proc.skip drop
  hist := a.hist.filter fun e => (drop e.op).isNone

def dropped (c : M.Config) : M.Label → Bool
  | .start _ => false
  | .act i _ =>
    match c.calls[i]? with
    | some ⟨_, .call o _, _⟩ => (drop o).isSome
    | _ => false

def Label.with (body : M.Request → Proc M.sig M.Err M.Res) : M.Label → (M.withBody body).Label
  | .start q => .start q
  | .act i w => .act i w

variable (body) in
/-- The labels of a run that are left when the operations of `drop` are not there. -/
def shown (c : M.Config) (ls : List M.Label) : List (M.withBody body).Label :=
  trace step (fun c l => if dropped drop c l then [] else [l.with body]) c ls

/-- `R` relates the states with and without the dropped operations. -/
structure Skips (R : M.State → M.State → Prop) (G : M.Config → M.Label → Prop) : Prop where
  dropped : ∀ c i w c' q o k h t a, G c (.act i w) → Acts c i w c' q o k h → R c.state t →
    drop o = some a → (M.exec o w c.state).1 = .ok a ∧ R (M.exec o w c.state).2 t
  kept : ∀ o w s t, drop o = none → R s t → M.possible o w s = M.possible o w t ∧
    (M.exec o w s).1 = (M.exec o w t).1 ∧ R (M.exec o w s).2 (M.exec o w t).2

variable {drop} {R : M.State → M.State → Prop} {G : M.Config → M.Label → Prop}
variable {c c' : M.Config} {i : Nat} {w : M.World} {q : M.Request} {o : M.sig.Op}
variable {k : Except M.Err (M.sig.Ret o) → Proc M.sig M.Err M.Res}
variable {h : List (Event M.sig M.Err)}

theorem Acts.dropped (ha : Acts c i w c' q o k h) :
    Machine.dropped drop c (.act i w) = (drop o).isSome := by
  rw [Machine.dropped, ha.call]

theorem Acts.skip_dropped (ha : Acts c i w c' q o k h) {a : M.sig.Ret o} (ho : drop o = some a)
    (hans : (M.exec o w c.state).1 = .ok a) :
    (c'.calls.map (Activity.skip drop) : List (M.withBody body).Activity) =
      c.calls.map (Activity.skip drop) := by
  rw [ha.result, List.map_set]
  obtain ⟨hlt, hcall⟩ := List.getElem?_eq_some_iff.mp ha.call
  have hskip : (Activity.skip drop
      ⟨q, k (M.exec o w c.state).1, h ++ [⟨o, (M.exec o w c.state).1⟩]⟩ :
      (M.withBody body).Activity) = Activity.skip drop ⟨q, .call o k, h⟩ := by
    simp [Activity.skip, Proc.skip_dropped ho, hans, ho]
  rw [hskip, ← hcall, ← List.map_set, List.set_getElem_self]

variable (body) in
theorem Acts.skip_kept (ha : Acts c i w c' q o k h) (ho : drop o = none) {t : M.State}
    (hp : M.possible o w c.state = M.possible o w t)
    (hans : (M.exec o w c.state).1 = (M.exec o w t).1) :
    Acts (M := M.withBody body) ⟨t, c.calls.map (Activity.skip drop)⟩ i w
      ⟨(M.exec o w t).2, c'.calls.map (Activity.skip drop)⟩ q o (fun r => (k r).skip drop)
      (h.filter fun e => (drop e.op).isNone) where
  call := by simp [ha.call, Activity.skip, Proc.skip_kept ho]
  possible := hp ▸ ha.possible
  result := by
    rw [ha.result, List.map_set]
    simp [Activity.skip, ho, ← hans]

/-- A run without the dropped operations goes through the related states, and its calls end the
same way. -/
theorem skip_run (hbody : ∀ q, body q = (M.body q).skip drop) (hR : Skips drop R G)
    {s t : M.State} (h₀ : R s t) {ls : List M.Label} (hrun : Path step G (M.initial s) ls c) :
    ∃ t', Run step ((M.withBody body).initial t) (shown drop body (M.initial s) ls)
      ⟨t', c.calls.map (Activity.skip drop)⟩ ∧ R c.state t' := by
  induction hrun with
  | refl => exact ⟨t, .refl, h₀⟩
  | @tail c c' ls l hp hG hs ih =>
    obtain ⟨t', hrun', hrel⟩ := ih
    rw [shown, trace_snoc _ hp, ← shown]
    cases l with
    | start q =>
      refine ⟨t', hrun'.trans (.single trivial ?_), step_start hs ▸ hrel⟩
      rw [step_start hs]
      simp [step, Label.with, Activity.skip, hbody]
    | act i w =>
      obtain ⟨q, o, k, h, ha⟩ := step_act hs
      rw [ha.dropped]
      cases ho : drop o with
      | some a =>
        obtain ⟨hans, hrel'⟩ := hR.dropped _ _ _ _ _ _ _ _ _ _ hG ha hrel ho
        refine ⟨t', ?_, ha.result ▸ hrel'⟩
        rw [ha.skip_dropped ho hans]
        simpa using hrun'
      | none =>
        obtain ⟨hposs, hans, hrel'⟩ := hR.kept o w _ _ ho hrel
        have hstep := (ha.skip_kept body ho hposs hans).isStep
        exact ⟨_, hrun'.trans (.single trivial hstep), by rw [ha.result]; exact hrel'⟩

theorem skip_result {p : Proc M.sig M.Err M.Res} {r : Except M.Err M.Res}
    (hr : p.result = some r) : (p.skip drop).result = some r := by
  cases p with
  | ret | raise => exact hr
  | call => cases hr

theorem skip_calls (hbody : ∀ q, body q = (M.body q).skip drop) (hR : Skips drop R G)
    {s t : M.State} (h₀ : R s t) {ls : List M.Label} (hrun : Path step G (M.initial s) ls c) :
    ∃ c' : (M.withBody body).Config,
      Run step ((M.withBody body).initial t) (shown drop body (M.initial s) ls) c' ∧
      R c.state c'.state ∧ c'.calls.length = c.calls.length ∧
      ∀ (i : Nat) (a : M.Activity), c.calls[i]? = some a → ∃ a', c'.calls[i]? = some a' ∧
        a'.request = a.request ∧ ∀ r, a.proc.result = some r → a'.proc.result = some r := by
  obtain ⟨t', hrun', hrel⟩ := skip_run hbody hR h₀ hrun
  refine ⟨_, hrun', hrel, by simp, fun i a ha => ⟨Activity.skip drop a, by simp [ha], rfl, ?_⟩⟩
  exact fun r hr => skip_result hr

end Machine

end Library
