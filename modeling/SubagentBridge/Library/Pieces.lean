import Mathlib.Data.List.Basic

/-! Texts that are put together from pieces, with nothing between them. -/

namespace Library

variable {α : Type*}

/-- From the first piece in which the two differ, one goes on where the other begins its next
piece, and what follows spells the same. -/
inductive Shifted : List (List α) → List (List α) → Prop
  | longer (p : List α) {r : List α} {ps qs : List (List α)} (hr : r ≠ [])
      (h : ps.flatten = r ++ qs.flatten) : Shifted (p :: ps) ((p ++ r) :: qs)
  | shorter (q : List α) {r : List α} {ps qs : List (List α)} (hr : r ≠ [])
      (h : qs.flatten = r ++ ps.flatten) : Shifted ((q ++ r) :: ps) (q :: qs)
  | later (p : List α) {ps qs : List (List α)} (h : Shifted ps qs) : Shifted (p :: ps) (p :: qs)

theorem Shifted.flatten_eq {ps qs : List (List α)} (h : Shifted ps qs) :
    ps.flatten = qs.flatten := by
  induction h with
  | longer p hr h => simp [h]
  | shorter q hr h => simp [h]
  | later p h ih => simp [ih]

theorem shifted_cons {p q : List α} {ps qs : List (List α)}
    (h : (p :: ps).flatten = (q :: qs).flatten) :
    p = q ∧ ps.flatten = qs.flatten ∨ Shifted (p :: ps) (q :: qs) := by
  rw [List.flatten_cons, List.flatten_cons] at h
  obtain ⟨r, rfl, hrest⟩ | ⟨r, rfl, hrest⟩ := List.append_eq_append_iff.mp h
  · by_cases hr : r = []
    · subst hr
      exact .inl ⟨(List.append_nil p).symm, hrest⟩
    · exact .inr (.longer p hr hrest)
  · by_cases hr : r = []
    · subst hr
      exact .inl ⟨List.append_nil q, hrest.symm⟩
    · exact .inr (.shorter q hr hrest)

def piecesOf (parts : List (List α × List α)) : List (List α) := parts.flatMap fun p => [p.1, p.2]

theorem piecesOf_cons (p : List α × List α) (parts : List (List α × List α)) :
    piecesOf (p :: parts) = p.1 :: p.2 :: piecesOf parts := rfl

theorem parts_of_flatten {parts parts' : List (List α × List α)} (hn : ∀ p ∈ parts, p.1 ≠ [])
    (hn' : ∀ p ∈ parts', p.1 ≠ []) (h : (piecesOf parts).flatten = (piecesOf parts').flatten) :
    parts = parts' ∨ Shifted (piecesOf parts) (piecesOf parts') := by
  induction parts generalizing parts' with
  | nil =>
    cases parts' with
    | nil => exact .inl rfl
    | cons p' parts' =>
      have hnil : p'.1 = [] := (List.append_eq_nil_iff.mp h.symm).1
      exact absurd hnil (hn' p' List.mem_cons_self)
  | cons p parts ih =>
    cases parts' with
    | nil =>
      have hnil : p.1 = [] := (List.append_eq_nil_iff.mp h).1
      exact absurd hnil (hn p List.mem_cons_self)
    | cons p' parts' =>
      obtain ⟨name, content⟩ := p
      obtain ⟨name', content'⟩ := p'
      simp only [piecesOf_cons] at h ⊢
      obtain ⟨hname, hrest⟩ | hshift := shifted_cons h
      · subst hname
        obtain ⟨hcontent, hlater⟩ | hshift := shifted_cons hrest
        · subst hcontent
          obtain hparts | hshift := ih (fun p hp => hn p (List.mem_cons_of_mem _ hp))
            (fun p hp => hn' p (List.mem_cons_of_mem _ hp)) hlater
          · exact .inl (by rw [hparts])
          · exact .inr (.later _ (.later _ hshift))
        · exact .inr (.later _ hshift)
      · exact .inr hshift

end Library
