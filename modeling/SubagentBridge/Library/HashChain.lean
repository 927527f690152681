import Mathlib.Data.List.Induction
import Mathlib.Data.Set.Function

/-! Chains of records, each storing the digest of a text made of its position, the
digest stored before it and its own contents. -/

universe u v w

namespace Library

structure HashChain (ρ : Type u) (δ : Type v) (τ : Type w) where
  genesis : δ
  stored : ρ → δ
  text : Nat → δ → ρ → τ
  hash : τ → δ
  /-- What a record has to satisfy besides its digest. -/
  Sound : Nat → δ → ρ → Prop

namespace HashChain

variable {ρ : Type u} {δ : Type v} {τ : Type w} (C : HashChain ρ δ τ)

/-- `C.Links n prev rs t`: from the digest `prev`, the records `rs` stand at the
positions `n`, `n + 1`, … and lead to the digest `t`. -/
inductive Links : Nat → δ → List ρ → δ → Prop
  | nil (n : Nat) (prev : δ) : Links n prev [] prev
  | cons {n : Nat} {prev t : δ} {r : ρ} {rs : List ρ} :
      C.Sound n prev r → C.stored r = C.hash (C.text n prev r) →
        Links (n + 1) (C.stored r) rs t → Links n prev (r :: rs) t

def Chain (rs : List ρ) (t : δ) : Prop := C.Links 1 C.genesis rs t

def texts : Nat → δ → List ρ → List τ
  | _, _, [] => []
  | n, prev, r :: rs => C.text n prev r :: texts (n + 1) (C.stored r) rs

variable {C} {n m : Nat} {prev prev' t u : δ} {r : ρ} {rs ss : List ρ}

theorem Links.append (h₁ : C.Links n prev rs t) (h₂ : C.Links (n + rs.length) t ss u) :
    C.Links n prev (rs ++ ss) u := by
  induction h₁ with
  | nil => simpa using h₂
  | @cons n prev t r rs hs hd _ ih =>
    refine .cons hs hd (ih ?_)
    rwa [List.length_cons, Nat.add_comm rs.length, ← Nat.add_assoc] at h₂

theorem Links.snoc (h : C.Links n prev rs t) (hs : C.Sound (n + rs.length) t r)
    (hd : C.stored r = C.hash (C.text (n + rs.length) t r)) :
    C.Links n prev (rs ++ [r]) (C.stored r) :=
  h.append (.cons hs hd (.nil _ _))

theorem Links.snoc_inv (h : C.Links n prev (rs ++ [r]) u) :
    ∃ t, C.Links n prev rs t ∧ C.Sound (n + rs.length) t r ∧
      C.stored r = C.hash (C.text (n + rs.length) t r) ∧ u = C.stored r := by
  induction rs generalizing n prev with
  | nil =>
    cases h with
    | cons hs hd hl => cases hl; exact ⟨prev, .nil _ _, hs, hd, rfl⟩
  | cons r' rs ih =>
    cases h with
    | cons hs hd hl =>
      obtain ⟨t, ht, hs', hd', hu⟩ := ih hl
      have hlen : n + 1 + rs.length = n + (r' :: rs).length := by simp; omega
      rw [hlen] at hs' hd'
      exact ⟨t, .cons hs hd ht, hs', hd', hu⟩

theorem Links.tail_unique (h : C.Links n prev rs t) (h' : C.Links n prev rs u) : t = u := by
  induction h with
  | nil => cases h'; rfl
  | cons _ _ _ ih => cases h' with | cons _ _ hl => exact ih hl

theorem Links.head? (h : C.Links n prev rs t) {i : Nat} (hi : rs[i]? = some r) :
    ∃ p, C.Links n prev (rs.take i) p ∧ C.Sound (n + i) p r ∧
      C.stored r = C.hash (C.text (n + i) p r) := by
  induction h generalizing i with
  | nil => simp at hi
  | @cons n prev t r' rs hs hd hl ih =>
    cases i with
    | zero =>
      obtain rfl : r' = r := by simpa using hi
      exact ⟨prev, .nil _ _, hs, hd⟩
    | succ i =>
      obtain ⟨p, hp, hs', hd'⟩ := ih (by simpa using hi)
      have hn : n + 1 + i = n + (i + 1) := by omega
      rw [hn] at hs' hd'
      exact ⟨p, .cons hs hd hp, hs', hd'⟩

theorem Links.stored_last (h : C.Links n prev rs t) :
    t = (rs.getLast?.map C.stored).getD prev := by
  rcases List.eq_nil_or_concat rs with rfl | ⟨rs, r, rfl⟩
  · cases h; rfl
  · obtain ⟨_, -, -, -, rfl⟩ := Links.snoc_inv (by simpa using h)
    simp

theorem texts_append (n : Nat) (prev : δ) (rs ss : List ρ) (h : C.Links n prev rs t) :
    C.texts n prev (rs ++ ss) = C.texts n prev rs ++ C.texts (n + rs.length) t ss := by
  induction h with
  | nil => simp [texts]
  | @cons n prev t r rs _ _ _ ih =>
    simp only [List.cons_append, texts, ih, List.length_cons]
    rw [Nat.add_comm rs.length, Nat.add_assoc]

theorem Links.text_mem (h : C.Links n prev rs t) (r : ρ) :
    C.text (n + rs.length) t r ∈ C.texts n prev (rs ++ [r]) := by
  simp [texts_append n prev rs [r] h, texts]

/-- Where no two hashed texts share a digest and none has the genesis digest, and text
and digest determine position, previous digest and record, the tail fixes the chain. -/
theorem Chain.unique {T : Set τ}
    (htext : ∀ {n m p q r s}, C.Sound n p r → C.Sound m q s → C.stored r = C.stored s →
      C.text n p r = C.text m q s → n = m ∧ p = q ∧ r = s)
    (hinj : Set.InjOn C.hash T) (hgen : ∀ x ∈ T, C.hash x ≠ C.genesis)
    (hr : C.Chain rs t) (hs : C.Chain ss t)
    (hrT : ∀ x ∈ C.texts 1 C.genesis rs, x ∈ T) (hsT : ∀ x ∈ C.texts 1 C.genesis ss, x ∈ T) :
    rs = ss := by
  unfold Chain at hr hs
  induction rs using List.reverseRecOn generalizing ss t with
  | nil =>
    cases hr
    rcases List.eq_nil_or_concat ss with rfl | ⟨ss, s, rfl⟩
    · rfl
    · rw [List.concat_eq_append] at hs hsT
      obtain ⟨p, hp, hsound, hd, hu⟩ := hs.snoc_inv
      exact absurd (hd.symm.trans hu.symm) (hgen _ (hsT _ (hp.text_mem s)))
  | append_singleton rs r ih =>
    obtain ⟨p, hp, hsound, hd, rfl⟩ := hr.snoc_inv
    have hrmem := hrT _ (hp.text_mem r)
    rcases List.eq_nil_or_concat ss with rfl | ⟨ss, s, rfl⟩
    · have htail := hs.tail_unique (.nil _ _)
      exact absurd (hd.symm.trans htail) (hgen _ hrmem)
    · rw [List.concat_eq_append] at hs hsT ⊢
      obtain ⟨q, hq, hsound', hd', hu⟩ := hs.snoc_inv
      have heq := hinj hrmem (hsT _ (hq.text_mem s)) (hd.symm.trans (hu.trans hd'))
      obtain ⟨-, rfl, rfl⟩ := htext hsound hsound' hu heq
      have hinit := ih hp hq
        (fun x hx => hrT x (by rw [texts_append 1 C.genesis rs [r] hp]; simp [hx]))
        (fun x hx => hsT x (by rw [texts_append 1 C.genesis ss [r] hq]; simp [hx]))
      rw [hinit]

end HashChain

end Library
