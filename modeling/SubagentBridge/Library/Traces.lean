import SubagentBridge.Library.Proc

/-! What a procedure does from its beginning to its end: the events, and the outcome. -/

namespace Library

namespace Proc

variable {S : Signature} {ε α β : Type}

def or (b : Bool) (p : Proc S ε Bool) : Proc S ε Bool := if b then .ret true else p

/-- `p.Plays h r`: with the answers in `h`, the procedure performs the operations in `h` and
ends with `r`. -/
inductive Plays : Proc S ε α → List (Event S ε) → Except ε α → Prop
  | ret (a : α) : Plays (.ret a) [] (.ok a)
  | raise (e : ε) : Plays (.raise e) [] (.error e)
  | call {o : S.Op} {k : Except ε (S.Ret o) → Proc S ε α} (x : Except ε (S.Ret o))
      {h : List (Event S ε)} {r : Except ε α} :
      Plays (k x) h r → Plays (.call o k) (⟨o, x⟩ :: h) r

/-- What `p` does when each operation is always answered in the same way. -/
def play (answer : (o : S.Op) → Except ε (S.Ret o)) :
    Proc S ε α → List (Event S ε) × Except ε α
  | .ret a => ([], .ok a)
  | .raise e => ([], .error e)
  | .call o k =>
    let (h, r) := (k (answer o)).play answer
    (⟨o, answer o⟩ :: h, r)

theorem plays_play (answer : (o : S.Op) → Except ε (S.Ret o)) (p : Proc S ε α) :
    p.Plays (p.play answer).1 (p.play answer).2 := by
  induction p with
  | ret a => exact .ret a
  | raise e => exact .raise e
  | call o k ih => exact .call _ (ih (answer o))

theorem play_answers (answer : (o : S.Op) → Except ε (S.Ret o)) (p : Proc S ε α) :
    ∀ e ∈ (p.play answer).1, e.ans = answer e.op := by
  induction p with
  | ret a => simp [play]
  | raise e => simp [play]
  | call o k ih => exact List.forall_mem_cons.mpr ⟨rfl, ih (answer o)⟩

theorem Follows.plays {ι : Type} {allow : ι → List (Event S ε) → S.Op → Prop}
    {answer : (o : S.Op) → Except ε (S.Ret o) → Prop}
    {Q : ι × List (Event S ε) → Except ε α → Prop} {p : Proc S ε α} {i : ι}
    {h₀ h : List (Event S ε)} {r : Except ε α}
    (hp : p.Follows (.ofHistory allow answer) Q (i, h₀)) (hplays : p.Plays h r)
    (hans : ∀ e ∈ h, answer e.op e.ans) : Q (i, h₀ ++ h) r := by
  induction hplays generalizing h₀ with
  | ret a => simpa using hp
  | raise e => simpa using hp
  | @call o k x h r hk ih =>
    rw [List.forall_mem_cons] at hans
    simpa using ih (hp.2 x hans.1) hans.2

theorem Follows.allows {ι : Type} {allow : ι → List (Event S ε) → S.Op → Prop}
    {answer : (o : S.Op) → Except ε (S.Ret o) → Prop}
    {Q : ι × List (Event S ε) → Except ε α → Prop} {p : Proc S ε α} {i : ι}
    {h₀ h : List (Event S ε)} {r : Except ε α}
    (hp : p.Follows (.ofHistory allow answer) Q (i, h₀)) (hplays : p.Plays h r)
    (hans : ∀ e ∈ h, answer e.op e.ans) {h₁ h₂ : List (Event S ε)} {e : Event S ε}
    (hh : h = h₁ ++ e :: h₂) : allow i (h₀ ++ h₁) e.op := by
  induction hplays generalizing h₀ h₁ with
  | ret a => simp at hh
  | raise e => simp at hh
  | @call o k x h r hk ih =>
    rw [List.forall_mem_cons] at hans
    cases h₁ with
    | nil =>
      cases hh
      simpa using hp.1
    | cons e' h₁ =>
      cases hh
      simpa using ih (hp.2 x hans.1) hans.2 rfl

theorem Only.follows_bind {ι : Type} {A : S.Op → Prop}
    {allow : ι → List (Event S ε) → S.Op → Prop}
    {answer : (o : S.Op) → Except ε (S.Ret o) → Prop} {i : ι} {h : List (Event S ε)}
    {p : Proc S ε β} {f : β → Proc S ε α} (hp : p.Only A) (hA : ∀ h o, A o → allow i h o)
    (hf : ∀ b h', h <+: h' → (f b).Follows (.ofHistory allow answer) (fun _ _ => True) (i, h')) :
    (p.bind f).Follows (.ofHistory allow answer) (fun _ _ => True) (i, h) := by
  apply (hp.follows_history (i := i) (h := h) fun h' _ o => hA h' o).bind
  · rintro ⟨j, h'⟩ b ⟨rfl, hh⟩
    exact hf b h' hh
  · exact fun _ _ _ => trivial

theorem Only.follows_true {ι : Type} {A : S.Op → Prop}
    {allow : ι → List (Event S ε) → S.Op → Prop}
    {answer : (o : S.Op) → Except ε (S.Ret o) → Prop} {i : ι} {h : List (Event S ε)}
    {p : Proc S ε α} (hp : p.Only A) (hA : ∀ h o, A o → allow i h o) :
    p.Follows (.ofHistory allow answer) (fun _ _ => True) (i, h) :=
  (hp.follows_history (i := i) (h := h) fun h' _ o => hA h' o).mono fun _ _ _ => trivial

theorem Only.plays {A : S.Op → Prop} {p : Proc S ε α} {h : List (Event S ε)} {r : Except ε α}
    (hp : p.Only A) (hplays : p.Plays h r) : ∀ e ∈ h, A e.op := by
  induction hplays with
  | ret a => simp
  | raise e => simp
  | call x _ ih => exact List.forall_mem_cons.mpr ⟨hp.1, ih (hp.2 x)⟩

/-! ## Reading a state that stays as it is -/

def outcome (known : (o : S.Op) → Except ε (S.Ret o)) (p : Proc S ε α) : Except ε α :=
  (p.play known).2

section Known

variable {known : (o : S.Op) → Except ε (S.Ret o)}

@[simp] theorem outcome_ret (a : α) : (ret a : Proc S ε α).outcome known = .ok a := rfl

@[simp] theorem outcome_raise (e : ε) : (raise e : Proc S ε α).outcome known = .error e := rfl

@[simp] theorem outcome_op (o : S.Op) : (op o : Proc S ε (S.Ret o)).outcome known = known o := by
  rw [outcome, op, play]
  cases known o <;> rfl

theorem outcome_bind (p : Proc S ε α) (f : α → Proc S ε β) :
    (p.bind f).outcome known = (p.outcome known).bind fun a => (f a).outcome known := by
  induction p with
  | ret a => rfl
  | raise e => rfl
  | call o k ih => exact ih _

structure Finds (known : (o : S.Op) → Except ε (S.Ret o)) (P : Prop) (v : α)
    (p : Proc S ε α) : Prop where
  value : P → p.outcome known = .ok v
  error : ¬ P → ∃ e, p.outcome known = .error e

variable {P P' : Prop} {v : α} {w : β}

theorem finds_ret (v : α) : (ret v : Proc S ε α).Finds known True v :=
  ⟨fun _ => rfl, fun h => absurd trivial h⟩

theorem finds_raise (e : ε) : (raise e : Proc S ε α).Finds known False v :=
  ⟨False.elim, fun _ => ⟨e, rfl⟩⟩

theorem finds_op {o : S.Op} {v : S.Ret o} (h : known o = .ok v) :
    (op o : Proc S ε (S.Ret o)).Finds known True v :=
  ⟨fun _ => (outcome_op o).trans h, fun h => absurd trivial h⟩

theorem Finds.congr {p : Proc S ε α} (h : p.Finds known P v) (hP : P ↔ P') :
    p.Finds known P' v :=
  ⟨fun h' => h.value (hP.mpr h'), fun h' => h.error (mt hP.mp h')⟩

theorem Finds.bind {p : Proc S ε α} {f : α → Proc S ε β} (hp : p.Finds known P v)
    (hf : P → (f v).Finds known P' w) : (p.bind f).Finds known (P ∧ P') w where
  value h := by
    rw [outcome_bind, hp.value h.1]
    exact (hf h.1).value h.2
  error h := by
    rw [outcome_bind]
    by_cases hP : P
    · rw [hp.value hP]
      exact (hf hP).error fun h' => h ⟨hP, h'⟩
    · obtain ⟨e, he⟩ := hp.error hP
      exact ⟨e, by rw [he]; rfl⟩

theorem Finds.bind_ret {p : Proc S ε α} (hp : p.Finds known P v) (g : α → β) :
    (p.bind fun a => ret (g a)).Finds known P (g v) :=
  (hp.bind fun _ => finds_ret (g v)).congr (by simp)

theorem Finds.then {p : Proc S ε α} {f : α → Proc S ε β} (hp : p.Finds known True v)
    (hf : (f v).Finds known P' w) : (p.bind f).Finds known P' w :=
  (hp.bind fun _ => hf).congr (by simp)

theorem finds_op_bind {o : S.Op} {f : S.Ret o → Proc S ε β} {v : S.Ret o} (h : known o = .ok v)
    (hf : (f v).Finds known P w) : ((op o).bind f).Finds known P w :=
  (finds_op h).then hf

theorem finds_fold {ι : Type} {f : List β → ι → Proc S ε (List β)} {R : ι → Prop} {c : ι → Bool}
    {g : ι → β} (hf : ∀ acc x, (f acc x).Finds known (R x) (acc ++ ([x].filter c).map g))
    (acc : List β) (xs : List ι) :
    (fold f acc xs).Finds known (∀ x ∈ xs, R x) (acc ++ (xs.filter c).map g) := by
  induction xs generalizing acc with
  | nil => simpa [fold] using (finds_ret acc).congr (by simp)
  | cons x xs ih =>
    have h := (hf acc x).bind (f := fun acc => fold f acc xs) fun _ => ih _
    rw [List.append_assoc, ← List.map_append, ← List.filter_append] at h
    exact h.congr (by simp)

end Known

def Strict : Proc S ε α → Prop
  | .ret _ => True
  | .raise _ => True
  | .call _ k => (∀ e, k (.error e) = .raise e) ∧ ∀ a, (k (.ok a)).Strict

theorem Strict.ok {p : Proc S ε α} {h : List (Event S ε)} {a : α} (hp : p.Strict)
    (hplays : p.Plays h (.ok a)) : ∀ ev ∈ h, ∃ x, ev.ans = .ok x := by
  generalize hr : (Except.ok a : Except ε α) = r at hplays
  induction hplays with
  | ret a => simp
  | raise e => simp
  | @call o k x h r hk ih =>
    cases x with
    | error e =>
      rw [hp.1 e] at hk
      cases hk
      cases hr
    | ok x => exact List.forall_mem_cons.mpr ⟨⟨x, rfl⟩, ih (hp.2 x) hr⟩

@[simp] theorem strict_ret (a : α) : (ret a : Proc S ε α).Strict := trivial

@[simp] theorem strict_raise (e : ε) : (raise e : Proc S ε α).Strict := trivial

@[simp] theorem strict_op (o : S.Op) : (op o : Proc S ε (S.Ret o)).Strict :=
  ⟨fun _ => rfl, fun _ => trivial⟩

theorem Strict.bind {p : Proc S ε α} {f : α → Proc S ε β} (hp : p.Strict)
    (hf : ∀ a, (f a).Strict) : (p.bind f).Strict := by
  induction p with
  | ret a => exact hf a
  | raise e => trivial
  | call o k ih => exact ⟨fun e => by simp only [hp.1 e, Proc.bind], fun a => ih _ (hp.2 a)⟩

theorem strict_op_bind {o : S.Op} {f : S.Ret o → Proc S ε β} (hf : ∀ a, (f a).Strict) :
    ((op o).bind f).Strict :=
  (strict_op o).bind hf

@[simp] theorem strict_ofExcept (x : Except ε α) : (ofExcept x : Proc S ε α).Strict := by
  cases x <;> trivial

theorem strict_and {b : Bool} {p : Proc S ε Bool} (hp : p.Strict) : (and b p).Strict := by
  cases b
  · trivial
  · exact hp

theorem strict_fold {ι : Type} {f : β → ι → Proc S ε β} (hf : ∀ b x, (f b x).Strict) (b : β)
    (xs : List ι) : (fold f b xs).Strict := by
  induction xs generalizing b with
  | nil => trivial
  | cons x xs ih => exact (hf b x).bind ih

theorem Finds.follows_bind {ι : Type} {A : S.Op → Prop}
    {allow : ι → List (Event S ε) → S.Op → Prop}
    {answer : (o : S.Op) → Except ε (S.Ret o) → Prop} {i : ι} {h : List (Event S ε)}
    {Q : ι × List (Event S ε) → Except ε α → Prop} {p : Proc S ε β} {f : β → Proc S ε α}
    {known : (o : S.Op) → Except ε (S.Ret o)} {P : Prop} {v : β} {I : List (Event S ε) → Prop}
    (hfinds : p.Finds known P v) (hp : p.Only A) (hs : p.Strict)
    (hA : ∀ h o, A o → allow i h o)
    (hknown : ∀ o a, A o → answer o (.ok a) → known o = .ok a) (hI : I h)
    (hkeep : ∀ h o a, A o → I h → I (h ++ [⟨o, .ok a⟩]))
    (hok : ∀ h, P → I h → (f v).Follows (.ofHistory allow answer) Q (i, h))
    (herr : ∀ h e, ¬ P → I h → Q (i, h) (.error e))
    (hfail : ∀ h o e, A o → I h → Q (i, h ++ [⟨o, .error e⟩]) (.error e)) :
    (p.bind f).Follows (.ofHistory allow answer) Q (i, h) := by
  induction p generalizing h with
  | ret b =>
    by_cases hP : P
    · cases hfinds.value hP
      exact hok h hP hI
    · obtain ⟨e, he⟩ := hfinds.error hP
      cases he
  | raise e =>
    by_cases hP : P
    · cases hfinds.value hP
    · exact herr h e hP hI
  | call o k ih =>
    refine ⟨hA h o hp.1, fun r hr => ?_⟩
    cases r with
    | error e =>
      simp only [hs.1 e]
      exact hfail h o e hp.1 hI
    | ok a =>
      have hout : (call o k).outcome known = (k (.ok a)).outcome known := by
        rw [outcome, play, hknown o a hp.1 hr]
        rfl
      exact ih _ ⟨fun hP => hout ▸ hfinds.value hP, fun hP => hout ▸ hfinds.error hP⟩ (hp.2 _)
        (hs.2 _) (hkeep h o _ hp.1 hI)

def Smooth : Proc S ε α → Prop
  | .ret _ => True
  | .raise _ => False
  | .call _ k => (∀ e, k (.error e) = .raise e) ∧ ∀ a, (k (.ok a)).Smooth

@[simp] theorem smooth_ret (a : α) : (ret a : Proc S ε α).Smooth := trivial

@[simp] theorem smooth_op (o : S.Op) : (op o : Proc S ε (S.Ret o)).Smooth :=
  ⟨fun _ => rfl, fun _ => trivial⟩

theorem Smooth.bind {p : Proc S ε α} {f : α → Proc S ε β} (hp : p.Smooth)
    (hf : ∀ a, (f a).Smooth) : (p.bind f).Smooth := by
  induction p with
  | ret a => exact hf a
  | raise e => exact hp.elim
  | call o k ih => exact ⟨fun e => by simp only [hp.1 e, Proc.bind], fun a => ih _ (hp.2 a)⟩

theorem Smooth.follows_bind {ι : Type} {A : S.Op → Prop}
    {allow : ι → List (Event S ε) → S.Op → Prop}
    {answer : (o : S.Op) → Except ε (S.Ret o) → Prop} {i : ι} {h : List (Event S ε)}
    {Q : ι × List (Event S ε) → Except ε α → Prop} {p : Proc S ε β} {f : β → Proc S ε α}
    {I : List (Event S ε) → Prop} (hs : p.Smooth) (hp : p.Only A)
    (hA : ∀ h o, A o → allow i h o) (hI : I h)
    (hkeep : ∀ h o a, A o → I h → I (h ++ [⟨o, .ok a⟩]))
    (hok : ∀ b h, I h → (f b).Follows (.ofHistory allow answer) Q (i, h))
    (hfail : ∀ h o e, A o → I h → Q (i, h ++ [⟨o, .error e⟩]) (.error e)) :
    (p.bind f).Follows (.ofHistory allow answer) Q (i, h) := by
  induction p generalizing h with
  | ret b => exact hok b h hI
  | raise e => exact hs.elim
  | call o k ih =>
    refine ⟨hA h o hp.1, fun r hr => ?_⟩
    cases r with
    | error e =>
      simp only [hs.1 e]
      exact hfail h o e hp.1 hI
    | ok a => exact ih _ (hs.2 _) (hp.2 _) (hkeep h o _ hp.1 hI)

def Ends (Q : Except ε α → Prop) : Proc S ε α → Prop
  | .ret a => Q (.ok a)
  | .raise e => Q (.error e)
  | .call _ k => ∀ x, (k x).Ends Q

variable {Q : Except ε α → Prop}

@[simp] theorem ends_ret (a : α) : (ret a : Proc S ε α).Ends Q ↔ Q (.ok a) := Iff.rfl

@[simp] theorem ends_raise (e : ε) : (raise e : Proc S ε α).Ends Q ↔ Q (.error e) := Iff.rfl

theorem Ends.plays {p : Proc S ε α} {h : List (Event S ε)} {r : Except ε α} (hp : p.Ends Q)
    (hplays : p.Plays h r) : Q r := by
  induction hplays with
  | ret a => exact hp
  | raise e => exact hp
  | call x _ ih => exact ih (hp x)

theorem Ends.follows {ι : Type} {answer : (o : S.Op) → Except ε (S.Ret o) → Prop}
    {p : Proc S ε α} {m : ι × List (Event S ε)} (hp : p.Ends Q) :
    p.Follows (.ofHistory (fun _ _ _ => True) answer) (fun _ r => Q r) m := by
  induction p generalizing m with
  | ret a => exact hp
  | raise e => exact hp
  | call o k ih => exact ⟨trivial, fun x _ => ih x (hp x)⟩

theorem Ends.mono {Q' : Except ε α → Prop} {p : Proc S ε α} (hp : p.Ends Q)
    (hQ : ∀ r, Q r → Q' r) : p.Ends Q' := by
  induction p with
  | ret a => exact hQ _ hp
  | raise e => exact hQ _ hp
  | call o k ih => exact fun x => ih x (hp x)

theorem Ends.bind {p : Proc S ε β} {f : β → Proc S ε α} {M : Except ε β → Prop}
    (hp : p.Ends M) (hok : ∀ b, M (.ok b) → (f b).Ends Q)
    (herr : ∀ e, M (.error e) → Q (.error e)) : (p.bind f).Ends Q := by
  induction p with
  | ret b => exact hok b hp
  | raise e => exact herr e hp
  | call o k ih => exact fun x => ih x (hp x)

theorem Only.bind_ends {A : S.Op → Prop} {p : Proc S ε β} {f : β → Proc S ε α}
    {M : Except ε β → Prop} (hp : p.Only A) (hends : p.Ends M)
    (hf : ∀ b, M (.ok b) → (f b).Only A) : (p.bind f).Only A := by
  induction p with
  | ret b => exact hf b hends
  | raise e => trivial
  | call o k ih => exact ⟨hp.1, fun x => ih x (hp.2 x) (hends x)⟩

theorem ends_trivial (p : Proc S ε α) : p.Ends fun _ => True := by
  induction p with
  | ret a => trivial
  | raise e => trivial
  | call o k ih => exact ih

theorem ends_bind {p : Proc S ε β} {f : β → Proc S ε α} (hok : ∀ b, (f b).Ends Q)
    (herr : ∀ e, Q (.error e)) : (p.bind f).Ends Q :=
  (ends_trivial p).bind (fun b _ => hok b) fun e _ => herr e

theorem ends_ofExcept_bind {x : Except ε β} {f : β → Proc S ε α}
    (hok : ∀ b, x = .ok b → (f b).Ends Q) (herr : ∀ e, Q (.error e)) :
    ((ofExcept x).bind f).Ends Q := by
  cases x with
  | ok b => exact hok b rfl
  | error e => exact herr e

theorem Ends.tryCatch {p : Proc S ε α} {f : ε → Proc S ε α} {M : Except ε α → Prop}
    (hp : p.Ends M) (hok : ∀ a, M (.ok a) → Q (.ok a)) (herr : ∀ e, M (.error e) → (f e).Ends Q) :
    (p.tryCatch f).Ends Q := by
  induction p with
  | ret a => exact hok a hp
  | raise e => exact herr e hp
  | call o k ih => exact fun x => ih x (hp x)

end Proc

/-! ## Loops -/

variable {S : Signature} {ε σ ι : Type}

/-- Turns of a loop that carries variables and takes an input at each turn, which `G` allows. -/
inductive Turns (body : σ → ι → Proc S ε (Option σ)) (G : σ → ι → Prop) (s : σ) : σ → Prop
  | start : Turns body G s s
  | turn {t u : σ} {i : ι} {h : List (Event S ε)} :
      Turns body G s t → G t i → (body t i).Plays h (.ok (some u)) → Turns body G s u

theorem Turns.relates {body : σ → ι → Proc S ε (Option σ)} {G : σ → ι → Prop} {s t : σ}
    {R : σ → σ → Prop} (hrun : Turns body G s t) (hrefl : ∀ s, R s s)
    (htrans : ∀ s t u, R s t → R t u → R s u)
    (hturn : ∀ t i h u, G t i → (body t i).Plays h (.ok (some u)) → R t u) : R s t := by
  induction hrun with
  | start => exact hrefl s
  | turn _ hG hplays ih => exact htrans _ _ _ ih (hturn _ _ _ _ hG hplays)

end Library
