import Mathlib.Data.List.Basic
import Mathlib.Data.List.Nodup

/-! Insertion-ordered dictionaries, as Python's `dict`: setting a key that is there
keeps its place. -/

namespace Library

abbrev Dict (κ α : Type) := List (κ × α)

namespace Dict

variable {κ α : Type} [DecidableEq κ]

def get? (d : Dict κ α) (k : κ) : Option α := (d.find? (·.1 = k)).map (·.2)

def set : Dict κ α → κ → α → Dict κ α
  | [], k, a => [(k, a)]
  | (k', a') :: d, k, a => if k' = k then (k', a) :: d else (k', a') :: set d k a

def update (d e : Dict κ α) : Dict κ α := e.foldl (fun d p => d.set p.1 p.2) d

def erase (d : Dict κ α) (k : κ) : Dict κ α := d.filter (·.1 ≠ k)

def same [DecidableEq α] (d e : Dict κ α) : Bool :=
  d.all (fun p => e.get? p.1 = some p.2) && e.all fun p => d.get? p.1 = some p.2

def keys (d : Dict κ α) : List κ := d.map (·.1)

@[simp] theorem get?_nil (k : κ) : get? ([] : Dict κ α) k = none := rfl

theorem get?_cons (k' : κ) (a : α) (d : Dict κ α) (k : κ) :
    get? ((k', a) :: d) k = if k' = k then some a else get? d k := by
  by_cases h : k' = k <;> simp [get?, h]

theorem get?_append (d e : Dict κ α) (k : κ) :
    get? (d ++ e) k = (get? d k).or (get? e k) := by
  induction d with
  | nil => rfl
  | cons p d ih =>
    obtain ⟨k', a⟩ := p
    rw [List.cons_append, get?_cons, get?_cons, ih]
    split <;> rfl

theorem erase_cons (p : κ × α) (d : Dict κ α) (k : κ) :
    erase (p :: d) k = if p.1 = k then erase d k else p :: erase d k := by
  by_cases h : p.1 = k <;> simp [erase, h]

theorem get?_set (d : Dict κ α) (k : κ) (a : α) (k' : κ) :
    (d.set k a).get? k' = if k = k' then some a else d.get? k' := by
  induction d with
  | nil => simp [set, get?_cons]
  | cons p d ih =>
    obtain ⟨k₀, a₀⟩ := p
    rw [set]
    split
    next h => subst h; simp only [get?_cons]; split <;> rfl
    next h =>
      simp only [get?_cons, ih]
      split_ifs with h₁ h₂ <;> first | rfl | (subst h₁ h₂; exact absurd rfl h)

@[simp] theorem set_set (d : Dict κ α) (k : κ) (a b : α) : (d.set k a).set k b = d.set k b := by
  induction d with
  | nil => simp [set]
  | cons p d ih =>
    obtain ⟨k₀, a₀⟩ := p
    by_cases h : k₀ = k
    · simp [set, h]
    · simp [set, h, ih]

theorem mem_of_get? {d : Dict κ α} {k : κ} {a : α} (h : d.get? k = some a) : (k, a) ∈ d := by
  obtain ⟨⟨k', a'⟩, hf, rfl⟩ := Option.map_eq_some_iff.mp h
  have hk : k' = k := by simpa using List.find?_some hf
  exact hk ▸ List.mem_of_find?_eq_some hf

theorem exists_get? {d : Dict κ α} {p : κ × α} (h : p ∈ d) : ∃ a, d.get? p.1 = some a := by
  induction d with
  | nil => cases h
  | cons q d ih =>
    rw [get?_cons]
    split
    · exact ⟨q.2, rfl⟩
    next hne =>
      rcases List.mem_cons.mp h with rfl | h
      · exact (hne rfl).elim
      · exact ih h

theorem notMem_keys {d : Dict κ α} {k : κ} : k ∉ d.keys ↔ d.get? k = none := by
  constructor
  · intro hk
    cases h : d.get? k with
    | none => rfl
    | some a => exact (hk (List.mem_map_of_mem (mem_of_get? h))).elim
  · intro h hk
    obtain ⟨p, hp, rfl⟩ := List.mem_map.mp hk
    obtain ⟨a, ha⟩ := exists_get? hp
    cases h.symm.trans ha

theorem get?_of_mem {d : Dict κ α} (hn : d.keys.Nodup) {k : κ} {a : α} (h : (k, a) ∈ d) :
    d.get? k = some a := by
  induction d with
  | nil => cases h
  | cons p d ih =>
    rw [get?_cons]
    rcases List.mem_cons.mp h with rfl | h
    · exact if_pos rfl
    · have hk : p.1 ≠ k := fun he => (List.nodup_cons.mp hn).1 (List.mem_map.mpr ⟨_, h, he.symm⟩)
      rw [if_neg hk]
      exact ih (List.nodup_cons.mp hn).2 h

theorem get?_filter {d : Dict κ α} (hn : d.keys.Nodup) (p : κ × α → Bool) (k : κ) :
    get? (d.filter p) k = (d.get? k).filter fun a => p (k, a) := by
  induction d with
  | nil => rfl
  | cons q d ih =>
    obtain ⟨k', a'⟩ := q
    have hn' := List.nodup_cons.mp hn
    have ih := ih hn'.2
    rw [get?_cons, List.filter_cons]
    split
    next hp =>
      rw [get?_cons, ih]
      split
      next hk =>
        subst hk
        rw [Option.filter_some, if_pos hp]
      next => rfl
    next hp =>
      rw [ih]
      split
      next hk =>
        subst hk
        have hnone : get? d k' = none := notMem_keys.mp hn'.1
        rw [hnone, Option.filter_some, if_neg hp]
        rfl
      next => rfl

theorem get?_erase (d : Dict κ α) (k k' : κ) :
    (d.erase k).get? k' = if k = k' then none else d.get? k' := by
  induction d with
  | nil => simp [erase]
  | cons p d ih =>
    obtain ⟨k₀, a₀⟩ := p
    rw [erase_cons]
    split
    next h =>
      rw [ih, get?_cons]
      split_ifs with h₁ h₂
      · rfl
      · exact absurd (h.symm.trans h₂) h₁
      · rfl
    next h =>
      rw [get?_cons, get?_cons, ih]
      split_ifs with h₁ h₂
      · exact absurd (h₁.trans h₂.symm) h
      · rfl
      · rfl
      · rfl

theorem get?_perm {d e : Dict κ α} (hn : d.keys.Nodup) (h : d.Perm e) (k : κ) :
    d.get? k = e.get? k := by
  have hn' : e.keys.Nodup := (h.map Prod.fst).nodup_iff.mp hn
  cases hd : d.get? k with
  | some a => exact (get?_of_mem hn' (h.mem_iff.mp (mem_of_get? hd))).symm
  | none =>
    cases he : e.get? k with
    | none => rfl
    | some a => exact hd.symm.trans (get?_of_mem hn (h.mem_iff.mpr (mem_of_get? he)))

theorem get?_mapValues {β : Type} (f : α → β) (d : Dict κ α) (k : κ) :
    get? (d.map fun p => (p.1, f p.2)) k = (d.get? k).map f := by
  induction d with
  | nil => rfl
  | cons p d ih =>
    rw [List.map_cons, get?_cons, get?_cons, ih]
    split <;> rfl

theorem set_mapValues {β : Type} (f : α → β) (d : Dict κ α) (k : κ) (a : α) :
    set (d.map fun p => (p.1, f p.2)) k (f a) = (d.set k a).map fun p => (p.1, f p.2) := by
  induction d with
  | nil => rfl
  | cons p d ih =>
    rw [List.map_cons, set, set, ih]
    split <;> rfl

theorem mem_set {d : Dict κ α} {k : κ} {a : α} {p : κ × α} (h : p ∈ d.set k a) :
    p ∈ d ∨ p = (k, a) := by
  induction d with
  | nil => exact .inr (by simpa [set] using h)
  | cons q d ih =>
    obtain ⟨k₀, a₀⟩ := q
    rw [set] at h
    split at h
    next hk =>
      subst hk
      rcases List.mem_cons.mp h with rfl | h
      · exact .inr rfl
      · exact .inl (by simp [h])
    next =>
      rcases List.mem_cons.mp h with rfl | h
      · exact .inl (by simp)
      · exact (ih h).imp (fun h => by simp [h]) id

theorem set_of_notMem {d : Dict κ α} {k : κ} (h : k ∉ d.keys) (a : α) :
    d.set k a = d ++ [(k, a)] := by
  induction d with
  | nil => rfl
  | cons p d ih =>
    simp only [keys, List.map_cons, List.mem_cons, not_or] at h
    rw [set, if_neg (Ne.symm h.1), ih h.2]
    rfl

theorem length_filter_set (p : κ × α → Bool) (d : Dict κ α) (k : κ) (a : α) :
    ((d.set k a).filter p).length + (if (d.get? k).any fun b => p (k, b) then 1 else 0) =
      (d.filter p).length + if p (k, a) then 1 else 0 := by
  induction d with
  | nil => cases h : p (k, a) <;> simp [set, h]
  | cons q d ih =>
    obtain ⟨k₀, a₀⟩ := q
    rw [set, get?_cons]
    split
    next hk =>
      subst hk
      cases h : p (k₀, a) <;> cases h₀ : p (k₀, a₀) <;> simp [h, h₀]
    next =>
      cases h₀ : p (k₀, a₀) <;> simp only [List.filter_cons, h₀, if_true, if_false, reduceCtorEq,
        List.length_cons] <;> omega

theorem same_iff [DecidableEq α] {d e : Dict κ α} (h : same d e) (k : κ) : d.get? k = e.get? k := by
  simp only [same, Bool.and_eq_true, List.all_eq_true, decide_eq_true_eq] at h
  cases hd : d.get? k with
  | some a => exact (h.1 _ (mem_of_get? hd)).symm
  | none =>
    cases he : e.get? k with
    | none => rfl
    | some a => exact hd.symm.trans (h.2 _ (mem_of_get? he))

theorem keys_set (d : Dict κ α) (k : κ) (a : α) :
    (d.set k a).keys = if k ∈ d.keys then d.keys else d.keys ++ [k] := by
  induction d with
  | nil => rfl
  | cons p d ih =>
    obtain ⟨k₀, a₀⟩ := p
    simp only [keys] at ih ⊢
    rw [set]
    by_cases h : k₀ = k
    · simp [h]
    · simp only [if_neg h, List.map_cons, ih, List.mem_cons, Ne.symm h, false_or]
      by_cases hk : k ∈ d.map (·.1) <;> simp [hk]

theorem nodup_keys_set {d : Dict κ α} (h : d.keys.Nodup) (k : κ) (a : α) :
    (d.set k a).keys.Nodup := by
  rw [keys_set]
  split
  next => exact h
  next hk => exact List.nodup_append.mpr ⟨h, by simp, by
    intro x hx y hy
    rw [List.mem_singleton.mp hy]
    exact fun hxy => hk (hxy ▸ hx)⟩

theorem nodup_keys_update {d : Dict κ α} (h : d.keys.Nodup) (e : Dict κ α) :
    (d.update e).keys.Nodup := by
  induction e generalizing d with
  | nil => exact h
  | cons p e ih => exact ih (nodup_keys_set h p.1 p.2)

theorem mem_update {d e : Dict κ α} {p : κ × α} (h : p ∈ d.update e) : p ∈ d ∨ p ∈ e := by
  induction e generalizing d with
  | nil => exact .inl h
  | cons q e ih =>
    rcases ih h with h | h
    · rcases mem_set h with h | rfl
      · exact .inl h
      · exact .inr (by simp)
    · exact .inr (by simp [h])

theorem update_of_nodup {d e : Dict κ α} (h : (keys (d ++ e)).Nodup) : d.update e = d ++ e := by
  induction e generalizing d with
  | nil => simp [update]
  | cons p e ih =>
    have hk : p.1 ∉ d.keys := by
      simp only [keys, List.map_append, List.map_cons] at h
      exact (List.nodup_middle.mp h |> List.nodup_cons.mp).1 ∘ List.mem_append_left _
    have hsnoc : d ++ p :: e = d ++ [p] ++ e := by simp
    rw [update, List.foldl_cons, set_of_notMem hk, ← update, hsnoc]
    exact ih (hsnoc ▸ h)

theorem update_nil_of_nodup {e : Dict κ α} (h : e.keys.Nodup) : update [] e = e :=
  update_of_nodup (d := []) h

end Dict

end Library
