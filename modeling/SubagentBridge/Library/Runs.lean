import Mathlib.Data.List.Induction
import Mathlib.Logic.Relation

/-! Partial step functions, their runs, and the induction principles every
invariant of this development goes through. -/

universe u v

namespace Library

variable {σ : Type u} {ℓ : Type v}

/-- `Path step G s ls t`: the labels `ls` lead from `s` to `t`, and every label is
taken in a state where the side condition `G` holds of it. -/
inductive Path (step : σ → ℓ → Option σ) (G : σ → ℓ → Prop) (s : σ) : List ℓ → σ → Prop
  | refl : Path step G s [] s
  | tail {t u : σ} {ls : List ℓ} {l : ℓ} :
      Path step G s ls t → G t l → step t l = some u → Path step G s (ls ++ [l]) u

abbrev Run (step : σ → ℓ → Option σ) : σ → List ℓ → σ → Prop := Path step fun _ _ => True

def Reachable (step : σ → ℓ → Option σ) (s t : σ) : Prop := ∃ ls, Run step s ls t

def exec (step : σ → ℓ → Option σ) : σ → List ℓ → Option σ
  | s, [] => some s
  | s, l :: ls => (step s l).bind fun t => exec step t ls

variable {step : σ → ℓ → Option σ} {G H : σ → ℓ → Prop} {s t u : σ} {ls ms : List ℓ} {l : ℓ}

theorem Path.single (hG : G s l) (h : step s l = some t) : Path step G s [l] t :=
  .tail .refl hG h

theorem Path.trans (h₁ : Path step G s ls t) (h₂ : Path step G t ms u) :
    Path step G s (ls ++ ms) u := by
  induction h₂ with
  | refl => simpa using h₁
  | tail _ hG hs ih => rw [← List.append_assoc]; exact .tail ih hG hs

theorem Path.split (h : Path step G s (ls ++ ms) u) :
    ∃ t, Path step G s ls t ∧ Path step G t ms u := by
  induction ms using List.reverseRecOn generalizing u with
  | nil => exact ⟨u, by simpa using h, .refl⟩
  | append_singleton ms l ih =>
    rw [← List.append_assoc] at h
    generalize hn : ls ++ ms ++ [l] = ns at h
    cases h with
    | refl => simp at hn
    | tail h hG hs =>
      obtain ⟨rfl, rfl⟩ := List.append_singleton_inj.mp hn
      obtain ⟨t, h₁, h₂⟩ := ih h
      exact ⟨t, h₁, .tail h₂ hG hs⟩

theorem Path.uncons (h : Path step G s (l :: ls) u) :
    ∃ t, G s l ∧ step s l = some t ∧ Path step G t ls u := by
  obtain ⟨t, h₁, h₂⟩ := Path.split (show Path step G s ([l] ++ ls) u from h)
  generalize hn : [l] = ns at h₁
  cases h₁ with
  | refl => simp at hn
  | tail h₁ hG hs =>
    obtain ⟨rfl, rfl⟩ := List.append_singleton_inj.mp (show [] ++ [l] = _ from hn)
    generalize hn : ([] : List ℓ) = ns at h₁
    cases h₁ with
    | refl => exact ⟨t, hG, hs, h₂⟩
    | tail => simp at hn

theorem Path.unique (h : Path step G s ls t) (h' : Path step H s ls u) : t = u := by
  induction h generalizing u with
  | refl =>
    generalize hn : ([] : List ℓ) = ns at h'
    cases h' with
    | refl => rfl
    | tail => simp at hn
  | @tail t₁ t₂ ls l _ _ hs ih =>
    generalize hn : ls ++ [l] = ns at h'
    cases h' with
    | refl => simp at hn
    | tail h' _ hs' =>
      obtain ⟨rfl, rfl⟩ := List.append_singleton_inj.mp hn
      rw [ih h'] at hs
      exact Option.some.inj (hs.symm.trans hs')

theorem Path.mono (h : Path step G s ls t) (hGH : ∀ s l, G s l → H s l) :
    Path step H s ls t := by
  induction h with
  | refl => exact .refl
  | tail _ hG hs ih => exact .tail ih (hGH _ _ hG) hs

theorem Path.both (h : Path step G s ls t) (h' : Path step H s ls t) :
    Path step (fun s l => G s l ∧ H s l) s ls t := by
  induction h with
  | refl => exact .refl
  | @tail t u ls l hp hG hs ih =>
    generalize hn : ls ++ [l] = ns at h'
    cases h' with
    | refl => simp at hn
    | tail h' hH hs' =>
      obtain ⟨rfl, rfl⟩ := List.append_singleton_inj.mp hn
      obtain rfl := hp.unique h'
      exact .tail (ih h') ⟨hG, hH⟩ hs

theorem Path.within {I : σ → Prop} (h : Path step G s ls t)
    (hI : ∀ ms u, Path step G s ms u → I u) : Path step (fun u l => I u ∧ G u l) s ls t := by
  induction h with
  | refl => exact .refl
  | tail hp hG hs ih => exact .tail ih ⟨hI _ _ hp, hG⟩ hs

theorem Path.run (h : Path step G s ls t) : Run step s ls t := h.mono fun _ _ _ => trivial

theorem Path.invariant {I : σ → Prop} (h : Path step G s ls t) (h₀ : I s)
    (hstep : ∀ s l t, I s → G s l → step s l = some t → I t) : I t := by
  induction h with
  | refl => exact h₀
  | tail _ hG hs ih => exact hstep _ _ _ ih hG hs

/-- When a step leaves the invariant exactly where it breaks the side condition, a run keeps to
the side condition if and only if every state on its way has the invariant. -/
theorem Path.guarded_iff {I : σ → Prop} (h : Path step H s ls t) (h₀ : I s)
    (hstep : ∀ s l t, I s → H s l → step s l = some t → (I t ↔ G s l)) :
    Path step G s ls t ↔ ∀ ls₁ ls₂ u, ls = ls₁ ++ ls₂ → Path step H s ls₁ u → I u := by
  constructor
  · rintro hG ls₁ ls₂ u rfl hu
    obtain ⟨v, hv, -⟩ := hG.split
    obtain rfl := hv.unique hu
    refine (hv.both hu).invariant (I := I) h₀ ?_
    exact fun s l t hI hGH hs => (hstep s l t hI hGH.2 hs).mpr hGH.1
  · intro hall
    induction h with
    | refl => exact .refl
    | @tail t u ls l hp hH hs ih =>
      have hI := hall ls [l] t rfl hp
      refine .tail (ih fun ls₁ ls₂ v hls hv => ?_) ((hstep t l u hI hH hs).mp ?_) hs
      · exact hall ls₁ (ls₂ ++ [l]) v (by rw [hls, List.append_assoc]) hv
      · exact hall (ls ++ [l]) [] u (by simp) (.tail hp hH hs)

theorem Path.imp {I : σ → Prop} (h : Path step G s ls t) (h₀ : I s)
    (hkeep : ∀ s l t, I s → step s l = some t → I t)
    (hGH : ∀ s l t, I s → step s l = some t → G s l → H s l) : Path step H s ls t := by
  induction h with
  | refl => exact .refl
  | tail hp hG hs ih =>
    have hI := hp.invariant h₀ fun s l t hI _ hs => hkeep s l t hI hs
    exact .tail ih (hGH _ _ _ hI hs hG) hs

/-- A reflexive and transitive relation that every allowed step respects, in
states where the invariant holds, relates the two ends of a run. -/
theorem Path.relates {I : σ → Prop} {R : σ → σ → Prop} (h : Path step G s ls t) (h₀ : I s)
    (hstep : ∀ s l t, I s → G s l → step s l = some t → I t)
    (hR : ∀ s l t, I s → G s l → step s l = some t → R s t)
    (hrefl : ∀ s, R s s) (htrans : ∀ s t u, R s t → R t u → R s u) : R s t := by
  induction h with
  | refl => exact hrefl _
  | tail hp hG hs ih =>
    have hI := hp.invariant h₀ hstep
    exact htrans _ _ _ ih (hR _ _ _ hI hG hs)

theorem path_of_exec (h : exec step s ls = some t) : Run step s ls t := by
  induction ls generalizing s with
  | nil => cases h; exact .refl
  | cons l ls ih =>
    obtain ⟨u, hu, ht⟩ := Option.bind_eq_some_iff.mp h
    exact (Path.single trivial hu).trans (ih ht)

theorem run_exec (ls : List ℓ) (h : (exec step s ls).isSome) :
    Run step s ls ((exec step s ls).get h) :=
  path_of_exec (Option.some_get h).symm

theorem run_of_any {p : σ → Bool} (h : (exec step s ls).any p = true) :
    ∃ t, Run step s ls t ∧ p t = true := by
  obtain ⟨t, ht, hp⟩ := (Option.any_eq_true _ _).mp h
  exact ⟨t, path_of_exec ht, hp⟩

def restrict (step : σ → ℓ → Option σ) (G : σ → ℓ → Prop) [∀ s l, Decidable (G s l)] (s : σ)
    (l : ℓ) : Option σ := if G s l then step s l else none

theorem path_of_restrict [∀ s l, Decidable (G s l)] (h : Run (restrict step G) s ls t) :
    Path step G s ls t := by
  induction h with
  | refl => exact .refl
  | tail _ _ hs ih =>
    rw [restrict] at hs
    split at hs
    next hG => exact .tail ih hG hs
    next => cases hs

def trace {α : Type*} (step : σ → ℓ → Option σ) (f : σ → ℓ → List α) : σ → List ℓ → List α
  | _, [] => []
  | s, l :: ls => f s l ++ (step s l).elim [] fun t => trace step f t ls

theorem trace_append {α : Type*} (f : σ → ℓ → List α) (h : Path step G s ls t) (ms : List ℓ) :
    trace step f s (ls ++ ms) = trace step f s ls ++ trace step f t ms := by
  induction h generalizing ms with
  | refl => rfl
  | @tail t u ls l _ _ hs ih =>
    rw [List.append_assoc, ih, ih]
    simp [trace, hs]

theorem trace_snoc {α : Type*} (f : σ → ℓ → List α) (h : Path step G s ls t) (l : ℓ) :
    trace step f s (ls ++ [l]) = trace step f s ls ++ f t l := by
  rw [trace_append f h, trace]
  cases step t l <;> simp [trace]

def answers {α : Type*} (f : ℓ → σ → α × σ) : σ → List ℓ → List α
  | _, [] => []
  | s, l :: ls => (f l s).1 :: answers f (f l s).2 ls

theorem answers_eq {τ α β : Type*} {f : ℓ → σ → α × σ} {g : ℓ → τ → β × τ} {φ : α → β}
    {R : σ → τ → Prop} {ls : List ℓ}
    (hstep : ∀ l ∈ ls, ∀ s t, R s t → (g l t).1 = φ (f l s).1 ∧ R (f l s).2 (g l t).2) {s : σ}
    {t : τ} (hR : R s t) : answers g t ls = (answers f s ls).map φ := by
  induction ls generalizing s t with
  | nil => rfl
  | cons l ls ih =>
    obtain ⟨hans, hR⟩ := hstep l List.mem_cons_self s t hR
    have htail : ∀ l ∈ ls, ∀ s t, R s t → (g l t).1 = φ (f l s).1 ∧ R (f l s).2 (g l t).2 :=
      fun l hl => hstep l (List.mem_cons_of_mem _ hl)
    rw [answers, answers, List.map_cons, hans, ih htail hR]

theorem Reachable.refl (s : σ) : Reachable step s s := ⟨[], .refl⟩

theorem Reachable.tail (h : Reachable step s t) (hs : step t l = some u) :
    Reachable step s u :=
  let ⟨ls, hl⟩ := h
  ⟨ls ++ [l], .tail hl trivial hs⟩

theorem Reachable.trans (h₁ : Reachable step s t) (h₂ : Reachable step t u) :
    Reachable step s u :=
  let ⟨_, h₁⟩ := h₁
  let ⟨_, h₂⟩ := h₂
  ⟨_, h₁.trans h₂⟩

theorem Reachable.invariant {I : σ → Prop} (h : Reachable step s t) (h₀ : I s)
    (hstep : ∀ s l t, I s → step s l = some t → I t) : I t :=
  let ⟨_, h⟩ := h
  h.invariant h₀ fun s l t hI _ => hstep s l t hI

end Library
