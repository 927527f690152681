import Mathlib.Data.Nat.Cast.Defs
import Mathlib.Order.Defs.LinearOrder
import SubagentBridge.Library.JsonLaws
import SubagentBridge.Library.JsonValues

/-! Python's numbers: integers of any size, and floats next to them. -/

namespace Library

class FloatArith (F : Type) extends LinearOrder F, NatCast F, Add F, Sub F, FloatText F,
    FloatInt F where
  /-- `float(n)`; `none` is an `OverflowError`. -/
  ofInt : Int → Option F
  /-- `float(s)`; `none` is a `ValueError`. -/
  ofText : String → Option F
  intLT : Int → F → Bool

instance : FloatArith Int where
  ofInt := some
  ofText s := readInt s.toList
  intLT n x := n < x

namespace Json

variable {F : Type}

def number : Json F → Option (Int ⊕ F)
  | .bool b => some (.inl (if b then 1 else 0))
  | .int n => some (.inl n)
  | .float x => some (.inr x)
  | .null | .str _ | .arr _ | .obj _ => none

variable [FloatArith F]

def sumExceeds (n : Int) (v : Json F) (bound : Int) : Except NumberError Bool :=
  match v.number with
  | none => .error .type
  | some (.inl k) => .ok (bound < n + k)
  | some (.inr x) => match FloatArith.ofInt (F := F) n with
    | none => .error .overflow
    | some y => .ok (FloatArith.intLT bound (y + x))

def isPositive (v : Json F) : Except NumberError Bool :=
  match v.number with
  | none => .error .type
  | some (.inl k) => .ok (0 < k)
  | some (.inr x) => .ok (FloatArith.intLT 0 x)

def toFloat : Json F → Except NumberError F
  | .float x => .ok x
  | .str s => match FloatArith.ofText s with
    | none => .error .value
    | some x => .ok x
  | .bool b => match FloatArith.ofInt (F := F) (if b then 1 else 0) with
    | none => .error .overflow
    | some x => .ok x
  | .int n => match FloatArith.ofInt (F := F) n with
    | none => .error .overflow
    | some x => .ok x
  | .null | .arr _ | .obj _ => .error .type

omit [FloatArith F] in
/-- The number of a value whose type is `int` or `float` itself. -/
def exactNumber : Json F → Option (Int ⊕ F)
  | .int n => some (.inl n)
  | .float x => some (.inr x)
  | .null | .bool _ | .str _ | .arr _ | .obj _ => none

omit [FloatArith F] in
theorem head_print_ne_quote [FloatText F] {v : Json F} (h : v.members.isSome ∨ v.iterate.isSome)
    (hs : v.text = none) : (v.print .default).head? ≠ some '"' := by
  cases v with
  | arr xs => cases xs <;> simp [Json.print]
  | obj kxs => cases kxs <;> simp [Json.print]
  | str t => cases hs
  | null | bool _ | int _ | float _ => simp [Json.members, Json.iterate] at h

theorem eq_str_of_pyEq {v : Json F} {s : String} (h : v.pyEq (.str s) = true) : v = .str s := by
  have hdumps := of_decide_eq_true h
  have hbracket {w : Json F} (hw : w.members.isSome ∨ w.iterate.isSome) (ht : w.text = none) :
      w.dumps ≠ (Json.str s : Json F).dumps := by
    intro heq
    apply head_print_ne_quote hw ht
    rw [String.ofList_injective heq]
    rfl
  cases v with
  | str t => exact dumps_injective (v := .str t) (w := .str s) trivial trivial hdumps
  | null => cases dumps_injective (v := .null) (w := .str s) trivial trivial hdumps
  | bool b => cases dumps_injective (v := .int _) (w := .str s) trivial trivial hdumps
  | int n => cases dumps_injective (v := .int n) (w := .str s) trivial trivial hdumps
  | float x =>
    simp only [unified] at hdumps
    cases hx : FloatInt.int? x with
    | none =>
      rw [hx] at hdumps
      cases dumps_injective (v := .float x) (w := .str s) trivial trivial hdumps
    | some n =>
      rw [hx] at hdumps
      cases dumps_injective (v := .int n) (w := .str s) trivial trivial hdumps
  | arr xs => exact absurd hdumps (hbracket (.inr rfl) rfl)
  | obj kxs => exact absurd hdumps (hbracket (.inl rfl) rfl)

def isMember (a : Json F) (xs : List (Json F)) : Bool := xs.any a.pyEq

omit [FloatArith F] in
def hashable : Json F → Bool
  | .arr _ | .obj _ => false
  | .null | .bool _ | .int _ | .float _ | .str _ => true

end Json

def atMost {F : Type} [FloatArith F] : Int ⊕ F → F → Bool
  | .inl n, x => FloatArith.intLT n x || FloatInt.int? x = some n
  | .inr y, x => y ≤ x

end Library
