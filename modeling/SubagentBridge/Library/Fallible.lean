/-! Code that raises: guards, and methods that leave an object behind whether they
return or raise. -/

namespace Library

variable {ε σ α β : Type}

def require (p : Prop) [Decidable p] (e : ε) : Except ε Unit := if p then .ok () else .error e

@[simp] theorem require_ok {p : Prop} [Decidable p] {e : ε} {u : Unit} :
    require p e = .ok u ↔ p := by
  by_cases h : p <;> simp [require, h]

theorem bind_ok {x : Except ε α} {f : α → Except ε β} {b : β} :
    (x >>= f) = .ok b ↔ ∃ a, x = .ok a ∧ f a = .ok b := by
  cases x with
  | error e => simp [bind, Except.bind]
  | ok a => simp [bind, Except.bind]

theorem bind_error {x : Except ε α} {f : α → Except ε β} {e : ε} :
    (x >>= f) = .error e ↔ x = .error e ∨ ∃ a, x = .ok a ∧ f a = .error e := by
  cases x with
  | error e' => simp [bind, Except.bind]
  | ok a => simp [bind, Except.bind]

theorem require_bind_cases {P : Except ε β → Prop} {p : Prop} [Decidable p] {e : ε}
    {f : Unit → Except ε β} (hraise : ¬ p → P (.error e)) (hgo : p → P (f ())) :
    P (require p e >>= f) := by
  by_cases h : p
  · rw [require, if_pos h]
    exact hgo h
  · rw [require, if_neg h]
    exact hraise h

theorem map_ok {f : α → β} {x : Except ε α} {b : β} :
    x.map f = .ok b ↔ ∃ a, x = .ok a ∧ f a = b := by
  cases x with
  | error e => simp [Except.map]
  | ok a => simp [Except.map]

theorem map_error {f : α → β} {x : Except ε α} {e : ε} (h : x.map f = .error e) :
    x = .error e := by
  cases x with
  | error _ => exact congrArg _ (Except.error.inj h)
  | ok _ => cases h

theorem ok_of_toOption {x : Except ε α} {a : α} (h : x.toOption = some a) : x = .ok a := by
  cases x with
  | error _ => cases h
  | ok _ => exact congrArg _ (Option.some.inj h)

theorem forM_ok {f : α → Except ε Unit} {xs : List α} {u : Unit}
    (h : xs.forM f = .ok u) : ∀ x ∈ xs, f x = .ok () := by
  induction xs with
  | nil => simp
  | cons x xs ih =>
    rw [List.forM, bind_ok] at h
    obtain ⟨_, hx, hxs⟩ := h
    intro y hy
    rcases List.mem_cons.mp hy with rfl | hy
    · exact hx
    · exact ih hxs y hy

theorem forM_cases (f : α → Except ε Unit) (xs : List α) :
    (xs.forM f = .ok () ∧ ∀ x ∈ xs, f x = .ok ()) ∨
      ∃ x ∈ xs, ∃ e, f x = .error e ∧ xs.forM f = .error e := by
  induction xs with
  | nil => exact .inl ⟨rfl, nofun⟩
  | cons x xs ih =>
    rw [List.forM]
    cases hx : f x with
    | error e => exact .inr ⟨x, List.mem_cons_self, e, hx, rfl⟩
    | ok _ =>
      rcases ih with ⟨hok, hall⟩ | ⟨y, hy, e, hye, herr⟩
      · exact .inl ⟨hok, List.forall_mem_cons.mpr ⟨hx, hall⟩⟩
      · exact .inr ⟨y, List.mem_cons_of_mem _ hy, e, hye, herr⟩

theorem mapM_ok {f : α → Except ε β} {xs : List α} (h : ∀ x ∈ xs, ∃ y, f x = .ok y) :
    ∃ ys, xs.mapM f = .ok ys ∧ (∀ y ∈ ys, ∃ x ∈ xs, f x = .ok y) ∧
      ∀ x ∈ xs, ∃ y ∈ ys, f x = .ok y := by
  induction xs with
  | nil => exact ⟨[], rfl, by simp, by simp⟩
  | cons x xs ih =>
    obtain ⟨y, hy⟩ := h x (by simp)
    obtain ⟨ys, hys, hback, hforth⟩ := ih fun x hx => h x (by simp [hx])
    refine ⟨y :: ys, by simp [List.mapM_cons, hy, hys, bind, Except.bind, pure,
      Except.pure], ?_, ?_⟩
    · intro z hz
      rcases List.mem_cons.mp hz with rfl | hz
      · exact ⟨x, by simp, hy⟩
      · obtain ⟨x', hx', hfx⟩ := hback z hz
        exact ⟨x', by simp [hx'], hfx⟩
    · intro z hz
      rcases List.mem_cons.mp hz with rfl | hz
      · exact ⟨y, by simp, hy⟩
      · obtain ⟨y', hy', hfy⟩ := hforth z hz
        exact ⟨y', by simp [hy'], hfy⟩

theorem mem_mapM {f : α → Except ε β} {xs : List α} {ys : List β} (h : xs.mapM f = .ok ys) {y : β}
    (hy : y ∈ ys) : ∃ x ∈ xs, f x = .ok y := by
  induction xs generalizing ys with
  | nil =>
    cases h
    cases hy
  | cons x xs ih =>
    rw [List.mapM_cons, bind_ok] at h
    obtain ⟨y', hy', h⟩ := h
    obtain ⟨ys', hys, h⟩ := bind_ok.mp h
    cases h
    rcases List.mem_cons.mp hy with rfl | hy
    · exact ⟨x, by simp, hy'⟩
    · obtain ⟨x', hx', hf⟩ := ih hys hy
      exact ⟨x', by simp [hx'], hf⟩

theorem mapM_keys {κ : Type} {f : α → Except ε β} (g : β → κ) (k : α → κ)
    (hg : ∀ a b, f a = .ok b → g b = k a) {xs : List α} {ys : List β}
    (h : xs.mapM f = .ok ys) : ys.map g = xs.map k := by
  induction xs generalizing ys with
  | nil =>
    cases h
    rfl
  | cons x xs ih =>
    rw [List.mapM_cons, bind_ok] at h
    obtain ⟨y, hy, h⟩ := h
    obtain ⟨ys', hys, h⟩ := bind_ok.mp h
    cases h
    rw [List.map_cons, List.map_cons, hg x y hy, ih hys]

/-- Goes on with the value of `x`, or stops with its error and the object as it is. -/
def orRaise (x : Except ε α) (s : σ) (k : α → Except ε β × σ) : Except ε β × σ :=
  match x with
  | .ok a => k a
  | .error e => (.error e, s)

@[simp] theorem orRaise_ok (a : α) (s : σ) (k : α → Except ε β × σ) :
    orRaise (.ok a) s k = k a := rfl

@[simp] theorem orRaise_error (e : ε) (s : σ) (k : α → Except ε β × σ) :
    orRaise (.error e) s k = (.error e, s) := rfl

theorem orRaise_cases {P : Except ε β × σ → Prop} {x : Except ε α} {s : σ}
    {k : α → Except ε β × σ} (hraise : ∀ e, x = .error e → P (.error e, s))
    (hgo : ∀ a, x = .ok a → P (k a)) : P (orRaise x s k) := by
  cases x with
  | ok a => exact hgo a rfl
  | error e => exact hraise e rfl

theorem orRaise_snd {P : σ → Prop} {x : Except ε α} {s : σ} {k : α → Except ε β × σ}
    (hraise : P s) (hgo : ∀ a, x = .ok a → P (k a).2) : P (orRaise x s k).2 :=
  orRaise_cases (P := fun result => P result.2) (fun _ _ => hraise) hgo

/-- A transaction: what the body did, or nothing if it raises. -/
def atomically (body : σ → Except ε (α × σ)) (s : σ) : Except ε α × σ :=
  match body s with
  | .ok (a, s) => (.ok a, s)
  | .error e => (.error e, s)

theorem atomically_ok {body : σ → Except ε (α × σ)} {s s' : σ} {a : α} :
    atomically body s = (.ok a, s') ↔ body s = .ok (a, s') := by
  rw [atomically]
  rcases h : body s with e | ⟨a', s''⟩ <;> simp

theorem atomically_error {body : σ → Except ε (α × σ)} {s : σ} {e : ε}
    (h : (atomically body s).1 = .error e) : (atomically body s).2 = s := by
  rw [atomically] at h ⊢
  cases hb : body s with
  | error e => rfl
  | ok p =>
    rw [hb] at h
    cases h

theorem atomically_cases (body : σ → Except ε (α × σ)) (s : σ) :
    (∃ e, body s = .error e ∧ atomically body s = (.error e, s)) ∨
      ∃ a s', body s = .ok (a, s') ∧ atomically body s = (.ok a, s') := by
  rw [atomically]
  cases h : body s with
  | error e => exact .inl ⟨e, rfl, rfl⟩
  | ok p => exact .inr ⟨p.1, p.2, rfl, rfl⟩

end Library
