import Mathlib.Data.List.Nodup
import Mathlib.Logic.Relation

/-! Lists in which everything comes after what it needs. -/

namespace Library

universe u

variable {α : Type u} {r : α → α → Prop} {l : List α} {a b : α}

inductive Topological (r : α → α → Prop) : List α → Prop
  | nil : Topological r []
  | snoc {l : List α} {a : α} :
      Topological r l → (∀ b, r a b → b ∈ l) → Topological r (l ++ [a])

namespace Topological

theorem before (h : Topological r l) {pre post : List α} (hl : l = pre ++ a :: post)
    (hr : r a b) : b ∈ pre := by
  induction h generalizing post with
  | nil => simp at hl
  | @snoc l c _ hc ih =>
    rcases List.eq_nil_or_concat post with rfl | ⟨post, d, rfl⟩
    · obtain ⟨rfl, hca⟩ := List.append_inj' hl rfl
      cases hca
      exact hc b hr
    · rw [List.concat_eq_append, ← List.cons_append, ← List.append_assoc] at hl
      exact ih (List.append_inj' hl rfl).1

theorem mem (h : Topological r l) (ha : a ∈ l) (hr : r a b) : b ∈ l := by
  obtain ⟨pre, post, rfl⟩ := List.append_of_mem ha
  exact List.mem_append_left _ (h.before rfl hr)

theorem mem_trans (h : Topological r l) (ha : a ∈ l) (hr : Relation.ReflTransGen r a b) :
    b ∈ l := by
  induction hr with
  | refl => exact ha
  | tail _ hr ih => exact h.mem ih hr

theorem acyclic (h : Topological r l) (hn : l.Nodup) (ha : a ∈ l) :
    ¬ Relation.TransGen r a a := by
  induction h with
  | nil => cases ha
  | @snoc l c hl hc ih =>
    have hn' := List.nodup_append.mp hn
    rcases List.mem_append.mp ha with ha | ha
    · exact ih hn'.1 ha
    · cases List.mem_singleton.mp ha
      intro hcycle
      obtain ⟨b, hb, hback⟩ := Relation.TransGen.head'_iff.mp hcycle
      have hmem : a ∈ l := hl.mem_trans (hc b hb) hback
      exact hn'.2.2 a hmem a (List.mem_singleton_self a) rfl

end Topological

end Library
