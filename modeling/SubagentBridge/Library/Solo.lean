import SubagentBridge.Library.Proc
import SubagentBridge.Library.Fallible

/-! A procedure that runs alone, from its first operation to its end. -/

namespace Library

namespace Proc

variable {S : Signature} {ε σ α β ι : Type}

def solo (exec : (o : S.Op) → σ → Except ε (S.Ret o) × σ) : Proc S ε α → σ → Except ε α × σ
  | .ret a, s => (.ok a, s)
  | .raise e, s => (.error e, s)
  | .call o k, s => (k (exec o s).1).solo exec (exec o s).2

variable {exec : (o : S.Op) → σ → Except ε (S.Ret o) × σ} {s t : σ}

@[simp] theorem solo_ret (a : α) : (ret a : Proc S ε α).solo exec s = (.ok a, s) := rfl

@[simp] theorem solo_raise (e : ε) : (raise e : Proc S ε α).solo exec s = (.error e, s) := rfl

@[simp] theorem solo_op (o : S.Op) : (op o : Proc S ε (S.Ret o)).solo exec s = exec o s := by
  rw [op, solo]
  rcases exec o s with ⟨e | a, t⟩ <;> rfl

@[simp] theorem solo_require_ok {p : Prop} [Decidable p] {e : ε} {u : Unit} :
    (require p e : Proc S ε Unit).solo exec s = (.ok u, t) ↔ p ∧ s = t := by
  by_cases h : p <;> simp [require, h]

@[simp] theorem solo_ofExcept_ok {x : Except ε α} {a : α} :
    (ofExcept x : Proc S ε α).solo exec s = (.ok a, t) ↔ x = .ok a ∧ s = t := by
  cases x <;> simp [ofExcept]

theorem solo_bind (p : Proc S ε α) (f : α → Proc S ε β) (s : σ) :
    (p.bind f).solo exec s = match p.solo exec s with
      | (.ok a, t) => (f a).solo exec t
      | (.error e, t) => (.error e, t) := by
  induction p generalizing s with
  | ret a => rfl
  | raise e => rfl
  | call o k ih => exact ih _ _

theorem solo_bind_ret (p : Proc S ε α) (f : α → β) (s : σ) :
    (p.bind fun a => ret (f a)).solo exec s = ((p.solo exec s).1.map f, (p.solo exec s).2) := by
  rw [solo_bind]
  rcases p.solo exec s with ⟨e | a, t⟩ <;> rfl

theorem solo_bind_ok {p : Proc S ε α} {f : α → Proc S ε β} {b : β} :
    (p.bind f).solo exec s = (.ok b, t) ↔
      ∃ a s', p.solo exec s = (.ok a, s') ∧ (f a).solo exec s' = (.ok b, t) := by
  rw [solo_bind]
  rcases p.solo exec s with ⟨e | a, s'⟩ <;> simp

theorem solo_require_bind {p : Prop} [Decidable p] {e : ε} {f : Unit → Proc S ε β} (s : σ) :
    ((require p e).bind f).solo exec s = if p then (f ()).solo exec s else (.error e, s) := by
  by_cases h : p <;> simp [require, h, bind]

theorem solo_op_bind (o : S.Op) (f : S.Ret o → Proc S ε β) (s : σ) :
    ((op o).bind f).solo exec s = match exec o s with
      | (.ok a, t) => (f a).solo exec t
      | (.error e, t) => (.error e, t) := by
  rw [solo_bind, solo_op]
  rcases exec o s with ⟨e | a, t⟩ <;> rfl

theorem solo_require_bind_ok {p : Prop} [Decidable p] {e : ε} {f : Unit → Proc S ε β} {b : β} :
    ((require p e).bind f).solo exec s = (.ok b, t) ↔ p ∧ (f ()).solo exec s = (.ok b, t) := by
  by_cases h : p <;> simp [require, h, bind]

theorem solo_ofExcept_bind_ok {x : Except ε α} {f : α → Proc S ε β} {b : β} :
    ((ofExcept x).bind f).solo exec s = (.ok b, t) ↔
      ∃ a, x = .ok a ∧ (f a).solo exec s = (.ok b, t) := by
  cases x <;> simp [ofExcept, bind]

theorem solo_when_bind_ok {p q : Prop} [Decidable p] {body : Proc S ε Unit}
    {f : Unit → Proc S ε β} {b : β}
    (hbody : ∀ t, body.solo exec s = (.ok (), t) ↔ q ∧ s = t) :
    ((when p body).bind f).solo exec s = (.ok b, t) ↔
      (p → q) ∧ (f ()).solo exec s = (.ok b, t) := by
  by_cases hp : p
  · rw [when, if_pos hp, solo_bind_ok]
    simp only [hbody, hp, forall_const]
    constructor
    · rintro ⟨_, s', ⟨hq, rfl⟩, h⟩
      exact ⟨hq, h⟩
    · rintro ⟨hq, h⟩
      exact ⟨(), s, ⟨hq, rfl⟩, h⟩
  · simp [when, hp, bind]

theorem solo_and_bind_ok {c : Bool} {p : Proc S ε Bool} {f : Bool → Proc S ε β} {b : β} :
    ((and c p).bind f).solo exec s = (.ok b, t) ↔
      c = true ∧ (p.bind f).solo exec s = (.ok b, t) ∨
        c = false ∧ (f false).solo exec s = (.ok b, t) := by
  cases c <;> simp [and, bind]

theorem solo_keeps {I : σ → Prop} (hI : ∀ o s, I s → I (exec o s).2) (p : Proc S ε α) (hs : I s) :
    I (p.solo exec s).2 := by
  induction p generalizing s with
  | ret a => exact hs
  | raise e => exact hs
  | call o k ih => exact ih _ (hI o s hs)

section Reading

variable {A : S.Op → Prop}

theorem Only.solo_state (hA : ∀ o s, A o → (exec o s).2 = s) {p : Proc S ε α} (hp : p.Only A) :
    (p.solo exec s).2 = s := by
  induction p generalizing s with
  | ret a => rfl
  | raise e => rfl
  | call o k ih => exact (ih _ (hp.2 _)).trans (hA o s hp.1)

theorem solo_forEach_ok {f : ι → Proc S ε Unit} (hf : ∀ x s, ((f x).solo exec s).2 = s)
    {xs : List ι} : (forEach xs f).solo exec s = (.ok (), t) ↔
      s = t ∧ ∀ x ∈ xs, (f x).solo exec s = (.ok (), s) := by
  induction xs with
  | nil => simp [forEach]
  | cons x xs ih =>
    rw [forEach, solo_bind_ok]
    constructor
    · rintro ⟨⟨⟩, s', hx, hxs⟩
      have hs := hf x s
      rw [hx] at hs
      obtain rfl : s' = s := hs
      obtain ⟨rfl, hall⟩ := ih.mp hxs
      exact ⟨rfl, fun y hy => (List.mem_cons.mp hy).elim (fun h => h ▸ hx) (hall y)⟩
    · rintro ⟨rfl, hall⟩
      exact ⟨(), s, hall x (by simp), ih.mpr ⟨rfl, fun y hy => hall y (by simp [hy])⟩⟩

theorem solo_forEach_bind_ok {f : ι → Proc S ε Unit} (hf : ∀ x s, ((f x).solo exec s).2 = s)
    {xs : List ι} {g : Unit → Proc S ε β} {b : β} :
    ((forEach xs f).bind g).solo exec s = (.ok b, t) ↔
      (∀ x ∈ xs, (f x).solo exec s = (.ok (), s)) ∧ (g ()).solo exec s = (.ok b, t) := by
  rw [solo_bind_ok]
  constructor
  · rintro ⟨⟨⟩, s', hxs, hg⟩
    obtain ⟨rfl, hall⟩ := (solo_forEach_ok hf).mp hxs
    exact ⟨hall, hg⟩
  · rintro ⟨hall, hg⟩
    exact ⟨(), s, (solo_forEach_ok hf).mpr ⟨rfl, hall⟩, hg⟩

end Reading

def Clean (exec : (o : S.Op) → σ → Except ε (S.Ret o) × σ) (p : Proc S ε α) : Prop :=
  ∀ s e t, p.solo exec s = (.error e, t) → t = s

theorem clean_raise (e : ε) : Clean exec (raise e : Proc S ε α) := fun _ _ _ h => by
  cases h
  rfl

theorem clean_op {o : S.Op} (ho : ∀ s e t, exec o s = (.error e, t) → t = s) :
    Clean exec (op o : Proc S ε (S.Ret o)) := by
  intro s e t h
  rw [solo_op] at h
  exact ho s e t h

theorem Clean.bind_ret {p : Proc S ε α} (hp : Clean exec p) (g : α → β) :
    Clean exec (p.bind fun a => ret (g a)) := by
  intro s e t h
  rw [solo_bind] at h
  rcases hr : p.solo exec s with ⟨e' | a, s'⟩ <;> rw [hr] at h
  · cases h
    exact hp s _ _ hr
  · cases h

theorem Only.clean_bind {A : S.Op → Prop} (hA : ∀ o s, A o → (exec o s).2 = s)
    {p : Proc S ε α} {f : α → Proc S ε β} (hp : p.Only A) (hf : ∀ a, Clean exec (f a)) :
    Clean exec (p.bind f) := by
  intro s e t h
  have hs := hp.solo_state hA (s := s)
  rw [solo_bind] at h
  rcases hr : p.solo exec s with ⟨e' | a, s'⟩ <;> rw [hr] at h hs
  · cases h
    exact hs
  · exact (hf a s' e t h).trans hs

end Proc

end Library
