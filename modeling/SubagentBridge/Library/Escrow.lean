import Mathlib.Algebra.BigOperators.Group.List.Basic
import Mathlib.Algebra.Order.BigOperators.Group.List
import Mathlib.Algebra.Order.Group.Defs
import Mathlib.Algebra.Order.Monoid.Prod
import Mathlib.Tactic.Abel
import SubagentBridge.Library.Dict

/-! Allowances that are set aside under a key and settled later, partly refunded: nothing is
lost and nothing is made up. -/

namespace Library

structure Escrow (κ A : Type) where
  available : A
  held : Dict κ A

structure Settlement (A : Type) where
  held : A
  refund : A

namespace Escrow

variable {κ A : Type} [AddCommGroup A]

def total (e : Escrow κ A) : A := e.available + (e.held.map (·.2)).sum

def spent (xs : List (Settlement A)) : A := (xs.map fun x => x.held - x.refund).sum

@[simp] theorem spent_nil : spent ([] : List (Settlement A)) = 0 := rfl

@[simp] theorem spent_append (xs ys : List (Settlement A)) :
    spent (xs ++ ys) = spent xs + spent ys := by
  simp [spent]

variable [DecidableEq κ]

theorem sum_set {d : Dict κ A} {k : κ} (hk : k ∉ d.keys) (a : A) :
    ((d.set k a).map (·.2)).sum = (d.map (·.2)).sum + a := by
  simp [Dict.set_of_notMem hk]

theorem sum_erase {d : Dict κ A} (hn : d.keys.Nodup) {k : κ} {a : A} (hk : d.get? k = some a) :
    ((d.erase k).map (·.2)).sum + a = (d.map (·.2)).sum := by
  induction d with
  | nil => cases hk
  | cons p d ih =>
    have hcons := List.nodup_cons.mp hn
    rw [Dict.get?_cons] at hk
    split at hk
    next hp =>
      obtain rfl := Option.some.inj hk
      have hnot : Dict.erase d k = d := by
        apply List.filter_eq_self.mpr
        intro q hq
        have hne : q.1 ≠ k := by
          intro he
          have hmem : q.1 ∈ Dict.keys d := List.mem_map_of_mem hq
          rw [he, ← hp] at hmem
          exact hcons.1 hmem
        simpa using hne
      rw [Dict.erase_cons, if_pos hp, List.map_cons, List.sum_cons, add_comm]
      exact congrArg (fun d : Dict κ A => p.2 + (d.map (·.2)).sum) hnot
    next hp =>
      rw [Dict.erase_cons, if_neg hp, List.map_cons, List.map_cons, List.sum_cons, List.sum_cons,
        add_assoc]
      exact congrArg (p.2 + ·) (ih hcons.2 hk)

variable [PartialOrder A]

structure Sound (capacity : Int) (e : Escrow κ A) : Prop where
  nodup : e.held.keys.Nodup
  available : 0 ≤ e.available
  held : ∀ p ∈ e.held, 0 ≤ p.2
  capacity : (e.held.length : Int) ≤ capacity

inductive Moves (capacity : Int) (e : Escrow κ A) : List (Settlement A) → Escrow κ A → Prop
  | stay : Moves capacity e [] e
  | reserve {k : κ} {a : A} (hk : e.held.get? k = none) (h₀ : 0 ≤ a) (ha : a ≤ e.available)
      (hroom : (e.held.length : Int) < capacity) :
      Moves capacity e [] ⟨e.available - a, e.held.set k a⟩
  | settle {k : κ} {a r : A} (hk : e.held.get? k = some a) (h₀ : 0 ≤ r) (hr : r ≤ a) :
      Moves capacity e [⟨a, r⟩] ⟨e.available + r, e.held.erase k⟩

structure Conserved (capacity : Int) (initial : A) (e : Escrow κ A) (xs : List (Settlement A)) :
    Prop where
  sound : Sound capacity e
  balance : e.total + spent xs = initial
  refunds : ∀ x ∈ xs, 0 ≤ x.refund ∧ x.refund ≤ x.held

variable {capacity : Int} {e e' : Escrow κ A} {xs ys : List (Settlement A)} {initial : A}

omit [DecidableEq κ] in
theorem conserved_initial {a : A} (h₀ : 0 ≤ a) (hcap : 0 ≤ capacity) :
    Conserved capacity a (⟨a, []⟩ : Escrow κ A) [] where
  sound := ⟨List.nodup_nil, h₀, by simp, hcap⟩
  balance := by simp [Escrow.total]
  refunds := by simp

theorem Moves.total (h : Moves capacity e ys e') (hn : e.held.keys.Nodup) :
    e'.total + spent ys = e.total := by
  cases h with
  | stay => simp
  | reserve hk h₀ ha hroom =>
    rw [Escrow.total, Escrow.total, sum_set (Dict.notMem_keys.mpr hk), spent_nil, add_zero,
      add_comm (List.sum _), ← add_assoc, sub_add_cancel]
  | @settle k a r hk h₀ hr =>
    have hsum := sum_erase hn hk
    rw [Escrow.total, Escrow.total, ← hsum]
    simp only [spent, List.map_cons, List.map_nil, List.sum_cons, List.sum_nil]
    abel

theorem Moves.refunds (h : Moves capacity e ys e') :
    ∀ x ∈ ys, 0 ≤ x.refund ∧ x.refund ≤ x.held := by
  cases h with
  | stay => simp
  | reserve => simp
  | settle hk h₀ hr => simpa using ⟨h₀, hr⟩

variable [IsOrderedAddMonoid A]

theorem Moves.sound (h : Moves capacity e ys e') (hs : Sound capacity e) : Sound capacity e' := by
  cases h with
  | stay => exact hs
  | @reserve k a hk h₀ ha hroom =>
    have hnot := Dict.notMem_keys.mpr hk
    refine ⟨Dict.nodup_keys_set hs.nodup k a, sub_nonneg.mpr ha, fun p hp => ?_, ?_⟩
    · rcases Dict.mem_set hp with hp | rfl
      · exact hs.held p hp
      · exact h₀
    · simp only [Dict.set_of_notMem hnot, List.length_append, List.length_singleton]
      omega
  | @settle k a r hk h₀ hr =>
    refine ⟨?_, add_nonneg hs.available h₀, fun p hp => hs.held p (List.mem_filter.mp hp).1, ?_⟩
    · exact hs.nodup.sublist (List.filter_sublist.map _)
    · have hle : (e.held.erase k).length ≤ e.held.length := List.length_filter_le _ _
      have hcap := hs.capacity
      change ((e.held.erase k).length : Int) ≤ capacity
      omega

theorem Conserved.move (hc : Conserved capacity initial e xs) (h : Moves capacity e ys e') :
    Conserved capacity initial e' (xs ++ ys) where
  sound := h.sound hc.sound
  balance := by
    rw [spent_append, ← hc.balance, ← h.total hc.sound.nodup]
    abel
  refunds x hx := (List.mem_append.mp hx).elim (hc.refunds x) (h.refunds x)

omit [DecidableEq κ] in
theorem Conserved.total_le (hc : Conserved capacity initial e xs) : e.total ≤ initial := by
  have hspent : 0 ≤ spent xs := by
    apply List.sum_nonneg
    intro a ha
    obtain ⟨x, hx, rfl⟩ := List.mem_map.mp ha
    exact sub_nonneg.mpr (hc.refunds x hx).2
  rw [← hc.balance]
  exact le_add_of_nonneg_right hspent

omit [DecidableEq κ] in
theorem Sound.sum_nonneg (hs : Sound capacity e) : 0 ≤ (e.held.map (·.2)).sum := by
  apply List.sum_nonneg
  intro a ha
  obtain ⟨p, hp, rfl⟩ := List.mem_map.mp ha
  exact hs.held p hp

omit [DecidableEq κ] in
theorem Conserved.available_le (hc : Conserved capacity initial e xs) : e.available ≤ initial :=
  (le_add_of_nonneg_right hc.sound.sum_nonneg).trans hc.total_le

theorem Conserved.available_add_le (hc : Conserved capacity initial e xs) {k : κ} {a : A}
    (hk : e.held.get? k = some a) : e.available + a ≤ initial := by
  have hback : Conserved capacity initial ⟨e.available + a, e.held.erase k⟩ (xs ++ [⟨a, a⟩]) :=
    hc.move (.settle hk (hc.sound.held _ (Dict.mem_of_get? hk)) le_rfl)
  exact hback.available_le

end Escrow

end Library
