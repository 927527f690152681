import SubagentBridge.Library.Traces

/-! Procedures in surroundings that may leave an operation without an answer, and procedures that
are cut short. -/

namespace Library

namespace Proc

variable {S : Signature} {ε α β : Type}

/-- What becomes of a procedure: it ends, or waits for an answer for ever. -/
inductive Course (S : Signature) (ε α : Type)
  | ended (h : List (Event S ε)) (r : Except ε α)
  | waiting (h : List (Event S ε)) (o : S.Op)

/-- Surroundings answer by what has happened, or never. -/
abbrev Surroundings (S : Signature) (ε : Type) :=
  List (Event S ε) → (o : S.Op) → Option (Except ε (S.Ret o))

def course (w : Surroundings S ε) : List (Event S ε) → Proc S ε α → Course S ε α
  | h, .ret a => .ended h (.ok a)
  | h, .raise e => .ended h (.error e)
  | h, .call o k => match w h o with
    | none => .waiting h o
    | some x => course w (h ++ [⟨o, x⟩]) (k x)

/-- The first procedure goes as the second one, but may be cut short. -/
inductive Cuts (cut : ε → Prop) : Proc S ε α → Proc S ε α → Prop
  | cut {e : ε} (he : cut e) (q : Proc S ε α) : Cuts cut (.raise e) q
  | ret (a : α) : Cuts cut (.ret a) (.ret a)
  | raise (e : ε) : Cuts cut (.raise e) (.raise e)
  | call (o : S.Op) {k k' : Except ε (S.Ret o) → Proc S ε α} :
      (∀ x, Cuts cut (k x) (k' x)) → Cuts cut (.call o k) (.call o k')

def Whole (cut : ε → Prop) (r : Except ε α) : Prop := ∀ e, r = .error e → ¬cut e

variable {w : Surroundings S ε} {cut : ε → Prop} {p q : Proc S ε α} {f g : α → Proc S ε β}
  {h h' : List (Event S ε)} {r : Except ε α} {o : S.Op}

theorem plays_of_course (hw : p.course w h = .ended h' r) :
    ∃ k, h' = h ++ k ∧ p.Plays k r ∧ ∀ e ∈ k, ∃ h₀, w h₀ e.op = some e.ans := by
  induction p generalizing h with
  | ret a =>
    cases hw
    exact ⟨[], by simp, .ret a, by simp⟩
  | raise e =>
    cases hw
    exact ⟨[], by simp, .raise e, by simp⟩
  | call o k ih =>
    rw [course] at hw
    split at hw
    next => cases hw
    next x hx =>
      obtain ⟨h₁, rfl, hplays, hans⟩ := ih x hw
      exact ⟨⟨o, x⟩ :: h₁, by simp, .call x hplays, List.forall_mem_cons.mpr ⟨⟨h, hx⟩, hans⟩⟩

namespace Cuts

theorem refl (p : Proc S ε α) : Cuts cut p p := by
  induction p with
  | ret a => exact .ret a
  | raise e => exact .raise e
  | call o k ih => exact .call o ih

theorem bind (hp : Cuts cut p q) (hf : ∀ a, Cuts cut (f a) (g a)) :
    Cuts cut (p.bind f) (q.bind g) := by
  induction hp with
  | cut he q => exact .cut he _
  | ret a => exact hf a
  | raise e => exact .raise e
  | call o _ ih => exact .call o ih

theorem after (p : Proc S ε α) (hf : ∀ a, Cuts cut (f a) (g a)) : Cuts cut (p.bind f) (p.bind g) :=
  (Cuts.refl p).bind hf

theorem tryCatch {f : ε → Proc S ε α} (hp : Cuts cut p q) (hcut : ∀ e, cut e → f e = .raise e) :
    Cuts cut (p.tryCatch f) (q.tryCatch f) := by
  induction hp with
  | cut he q =>
    rw [Proc.tryCatch, hcut _ he]
    exact .cut he _
  | ret a => exact .ret a
  | raise e => exact .refl _
  | call o _ ih => exact .call o ih

theorem ended (hc : Cuts cut p q) (hp : p.course w h = .ended h' r) (hr : Whole cut r) :
    q.course w h = .ended h' r := by
  induction hc generalizing h with
  | cut he q =>
    cases hp
    exact absurd he (hr _ rfl)
  | ret a => exact hp
  | raise e => exact hp
  | call o _ ih =>
    rw [course] at hp ⊢
    split at hp
    next => cases hp
    next x hx => simpa only [hx] using ih x hp

theorem waiting (hc : Cuts cut p q) (hp : p.course w h = .waiting h' o) :
    q.course w h = .waiting h' o := by
  induction hc generalizing h with
  | cut he q => cases hp
  | ret a => exact hp
  | raise e => exact hp
  | call o _ ih =>
    rw [course] at hp ⊢
    split at hp
    next hx => simpa only [hx] using hp
    next x hx => simpa only [hx] using ih x hp

end Cuts

/-! ## A procedure by its approximations -/

def Grows (cut : ε → Prop) (P : Nat → Proc S ε α) : Prop := ∀ n m, n ≤ m → Cuts cut (P n) (P m)

/-- With enough patience the procedure comes to its end. -/
def Finishes (cut : ε → Prop) (w : Surroundings S ε) (P : Nat → Proc S ε α) (h : List (Event S ε))
    (r : Except ε α) : Prop :=
  ∃ n, (P n).course w [] = .ended h r ∧ Whole cut r

/-- The procedure comes to an operation that is never answered. -/
def Hangs (w : Surroundings S ε) (P : Nat → Proc S ε α) : Prop :=
  ∃ n h o, (P n).course w [] = .waiting h o

variable {P : Nat → Proc S ε α} {r' : Except ε α}

theorem Finishes.stable (hP : Grows cut P) (he : Finishes cut w P h r) :
    ∃ n, ∀ m, n ≤ m → (P m).course w [] = .ended h r := by
  obtain ⟨n, hn, hr⟩ := he
  exact ⟨n, fun m hm => (hP n m hm).ended hn hr⟩

theorem Finishes.unique (hP : Grows cut P) (he : Finishes cut w P h r)
    (he' : Finishes cut w P h' r') :
    h = h' ∧ r = r' := by
  obtain ⟨n, hn⟩ := he.stable hP
  obtain ⟨n', hn'⟩ := he'.stable hP
  have hsame := (hn _ (Nat.le_max_left n n')).symm.trans (hn' _ (Nat.le_max_right n n'))
  cases hsame
  exact ⟨rfl, rfl⟩

theorem Finishes.not_hangs (hP : Grows cut P) (he : Finishes cut w P h r) : ¬Hangs w P := by
  rintro ⟨n', h', o, hn'⟩
  obtain ⟨n, hn⟩ := he.stable hP
  have hwaits := (hP n' _ (Nat.le_max_right n n')).waiting hn'
  cases (hn _ (Nat.le_max_left n n')).symm.trans hwaits

end Proc

end Library
