import SubagentBridge.Library.Traces

/-! Taking the events of a run apart, along the procedure. -/

namespace Library

namespace Proc

variable {S : Signature} {ε α β : Type} {p : Proc S ε α} {f : α → Proc S ε β}
  {h : List (Event S ε)} {r : Except ε β}

theorem plays_ret_iff {a : α} {r : Except ε α} :
    (ret a : Proc S ε α).Plays h r ↔ h = [] ∧ r = .ok a := by
  constructor
  · intro hplays
    cases hplays
    exact ⟨rfl, rfl⟩
  · rintro ⟨rfl, rfl⟩
    exact .ret a

theorem plays_raise_iff {e : ε} {r : Except ε α} :
    (raise e : Proc S ε α).Plays h r ↔ h = [] ∧ r = .error e := by
  constructor
  · intro hplays
    cases hplays
    exact ⟨rfl, rfl⟩
  · rintro ⟨rfl, rfl⟩
    exact .raise e

theorem plays_bind : (p.bind f).Plays h r ↔
    (∃ a h₁ h₂, p.Plays h₁ (.ok a) ∧ (f a).Plays h₂ r ∧ h = h₁ ++ h₂) ∨
      ∃ e, p.Plays h (.error e) ∧ r = .error e := by
  induction p generalizing h with
  | ret a =>
    simp only [Proc.bind, plays_ret_iff]
    constructor
    · exact fun hplays => .inl ⟨a, [], h, ⟨rfl, rfl⟩, hplays, rfl⟩
    · rintro (⟨_, _, h₂, ⟨rfl, hok⟩, hplays, rfl⟩ | ⟨e, ⟨-, herr⟩, -⟩)
      · cases hok
        exact hplays
      · cases herr
  | raise e =>
    simp only [Proc.bind, plays_raise_iff]
    constructor
    · rintro ⟨rfl, rfl⟩
      exact .inr ⟨e, ⟨rfl, rfl⟩, rfl⟩
    · rintro (⟨_, _, _, ⟨-, hok⟩, -⟩ | ⟨_, ⟨rfl, herr⟩, rfl⟩)
      · cases hok
      · cases herr
        exact ⟨rfl, rfl⟩
  | call o k ih =>
    constructor
    · rintro (_ | _ | ⟨x, hk⟩)
      rcases (ih x).mp hk with ⟨a, h₁, h₂, hp, hf, rfl⟩ | ⟨e, hp, rfl⟩
      · exact .inl ⟨a, _ :: h₁, h₂, .call x hp, hf, rfl⟩
      · exact .inr ⟨e, .call x hp, rfl⟩
    · rintro (⟨a, h₁, h₂, hp, hf, rfl⟩ | ⟨e, hp, rfl⟩)
      · cases hp with
        | call x hk => exact .call x ((ih x).mpr (.inl ⟨a, _, h₂, hk, hf, rfl⟩))
      · cases hp with
        | call x hk => exact .call x ((ih x).mpr (.inr ⟨e, hk, rfl⟩))

theorem plays_op {o : S.Op} {r : Except ε (S.Ret o)} :
    (op o : Proc S ε (S.Ret o)).Plays h r ↔ h = [⟨o, r⟩] := by
  constructor
  · rintro (_ | _ | ⟨x, hk⟩)
    cases x with
    | ok a =>
      obtain ⟨rfl, rfl⟩ := plays_ret_iff.mp hk
      rfl
    | error e =>
      obtain ⟨rfl, rfl⟩ := plays_raise_iff.mp hk
      rfl
  · rintro rfl
    cases r with
    | ok a => exact .call _ (.ret a)
    | error e => exact .call _ (.raise e)

theorem plays_op_bind {o : S.Op} {f : S.Ret o → Proc S ε β} : ((op o).bind f).Plays h r ↔
    (∃ a h', (f a).Plays h' r ∧ h = ⟨o, .ok a⟩ :: h') ∨
      ∃ e, h = [⟨o, .error e⟩] ∧ r = .error e := by
  rw [plays_bind]
  simp only [plays_op]
  constructor
  · rintro (⟨a, _, h', rfl, hf, rfl⟩ | h)
    · exact .inl ⟨a, h', hf, rfl⟩
    · exact .inr h
  · rintro (⟨a, h', hf, rfl⟩ | h)
    · exact .inl ⟨a, _, h', rfl, hf, rfl⟩
    · exact .inr h

theorem plays_require_bind {P : Prop} [Decidable P] {e : ε} {f : Unit → Proc S ε β} :
    ((require P e).bind f).Plays h r ↔
      P ∧ (f ()).Plays h r ∨ ¬P ∧ h = [] ∧ r = .error e := by
  by_cases hP : P
  · simp [require, hP, Proc.bind]
  · simp [require, hP, Proc.bind, plays_raise_iff]

/-! A run that returns -/

theorem returns_op_bind {o : S.Op} {f : S.Ret o → Proc S ε β} {b : β} :
    ((op o).bind f).Plays h (.ok b) ↔
      ∃ a h', (f a).Plays h' (.ok b) ∧ h = ⟨o, .ok a⟩ :: h' := by
  simp [plays_op_bind]

theorem returns_require_bind {P : Prop} [Decidable P] {e : ε} {f : Unit → Proc S ε β} {b : β} :
    ((require P e).bind f).Plays h (.ok b) ↔ P ∧ (f ()).Plays h (.ok b) := by
  simp [plays_require_bind]

theorem plays_ofExcept_bind {x : Except ε α} : ((ofExcept x).bind f).Plays h r ↔
    (∃ a, x = .ok a ∧ (f a).Plays h r) ∨ ∃ e, x = .error e ∧ h = [] ∧ r = .error e := by
  cases x with
  | ok a => simp [ofExcept, Proc.bind]
  | error e => simp [ofExcept, Proc.bind, plays_raise_iff]

def Secures (K : Event S ε → Prop) (p : Proc S ε α) : Prop :=
  ∀ h a, p.Plays h (.ok a) → ∀ e ∈ h, K e

variable {K : Event S ε → Prop}

theorem secures_ret (a : α) : (ret a : Proc S ε α).Secures K := by
  intro h b hplays
  obtain ⟨rfl, -⟩ := plays_ret_iff.mp hplays
  simp

theorem Secures.bind (hp : p.Secures K) (hf : ∀ a, (f a).Secures K) : (p.bind f).Secures K := by
  intro h b hplays
  rcases plays_bind.mp hplays with ⟨a, h₁, h₂, h₁', h₂', rfl⟩ | ⟨e, -, hr⟩
  · exact List.forall_mem_append.mpr ⟨hp h₁ a h₁', hf a h₂ b h₂'⟩
  · cases hr

theorem secures_op_bind {o : S.Op} {f : S.Ret o → Proc S ε β} (hf : ∀ a, (f a).Secures K)
    (ho : ∀ a h b, (f a).Plays h (.ok b) → K ⟨o, .ok a⟩) : ((op o).bind f).Secures K := by
  intro h b hplays
  rcases plays_op_bind.mp hplays with ⟨a, h', hk, rfl⟩ | ⟨e, -, hr⟩
  · exact List.forall_mem_cons.mpr ⟨ho a h' b hk, hf a h' b hk⟩
  · cases hr

theorem secures_require {P : Prop} [Decidable P] {e : ε} :
    (require P e : Proc S ε Unit).Secures K := by
  rw [require]
  split
  next => exact secures_ret ()
  next =>
    intro h b hplays
    cases (plays_raise_iff.mp hplays).2

theorem secures_ofExcept {x : Except ε α} : (ofExcept x : Proc S ε α).Secures K := by
  cases x with
  | ok a => exact secures_ret a
  | error e =>
    intro h b hplays
    cases (plays_raise_iff.mp hplays).2

theorem secures_when {P : Prop} [Decidable P] {p : Proc S ε Unit} (hp : p.Secures K) :
    (when P p).Secures K := by
  rw [when]
  split
  next => exact hp
  next => exact secures_ret ()

theorem secures_op {o : S.Op} (ho : ∀ a, K ⟨o, .ok a⟩) : (op o : Proc S ε _).Secures K := by
  intro h a hplays
  rw [plays_op.mp hplays]
  simpa using ho a

/-- Once an operation of `D` is performed, all that the procedure does satisfies `K`. -/
def Seals (D : S.Op → Prop) (K : Event S ε → Prop) (p : Proc S ε α) : Prop :=
  ∀ h r, p.Plays h r → (∃ e ∈ h, D e.op) → ∀ e ∈ h, K e

variable {D : S.Op → Prop}

theorem Only.seals {A : S.Op → Prop} (hp : p.Only A) (hA : ∀ e : Event S ε, A e.op → K e) :
    p.Seals D K :=
  fun _ _ hplays _ e he => hA e (hp.plays hplays e he)

theorem Secures.seals_bind (hp : p.Secures K) (honly : p.Only fun o => ¬D o)
    (hf : ∀ a, (f a).Seals D K) : (p.bind f).Seals D K := by
  rintro h r hplays ⟨e, he, hD⟩
  rcases plays_bind.mp hplays with ⟨a, h₁, h₂, h₁', h₂', rfl⟩ | ⟨_, hp', -⟩
  · refine List.forall_mem_append.mpr ⟨hp h₁ a h₁', hf a h₂ r h₂' ⟨e, ?_, hD⟩⟩
    rcases List.mem_append.mp he with he | he
    · exact absurd hD (honly.plays h₁' e he)
    · exact he
  · exact absurd hD (honly.plays hp' e he)

end Proc

end Library
