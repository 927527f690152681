import SubagentBridge.Library.Json

/-! JSON values as Python sees them after `json.loads`: truth, equality, iteration. -/

namespace Library

class FloatInt (F : Type) where
  int? : F → Option Int

instance : FloatInt Int := ⟨some⟩

variable {F : Type} [FloatInt F]

mutual

def Json.unified : Json F → Json F
  | .bool b => .int (if b then 1 else 0)
  | .float x => (FloatInt.int? x).elim (.float x) .int
  | .arr xs => .arr (unifiedElems xs)
  | .obj kxs => .obj (unifiedMembers kxs)
  | .null => .null
  | .int n => .int n
  | .str s => .str s

def unifiedElems : List (Json F) → List (Json F)
  | [] => []
  | x :: xs => x.unified :: unifiedElems xs

def unifiedMembers : List (String × Json F) → List (String × Json F)
  | [] => []
  | (k, x) :: kxs => (k, x.unified) :: unifiedMembers kxs

end

def Json.pyEq [FloatText F] (a b : Json F) : Bool :=
  a.unified.sortKeys.dumps = b.unified.sortKeys.dumps

def Json.truthy : Json F → Bool
  | .null => false
  | .bool b => b
  | .int n => n ≠ 0
  | .float x => FloatInt.int? x ≠ some 0
  | .str s => s ≠ ""
  | .arr xs => !xs.isEmpty
  | .obj kxs => !kxs.isEmpty

omit [FloatInt F] in
/-- What a `for` loop over the value goes through; `none` raises. -/
def Json.iterate : Json F → Option (List (Json F))
  | .arr xs => some xs
  | .obj kxs => some (kxs.map fun p => .str p.1)
  | .str s => some (s.toList.map fun c => .str (.singleton c))
  | .null | .bool _ | .int _ | .float _ => none

omit [FloatInt F] in
def Json.members : Json F → Option (Dict String (Json F))
  | .obj kxs => some kxs
  | _ => none

omit [FloatInt F] in
def Json.text : Json F → Option String
  | .str s => some s
  | _ => none

omit [FloatInt F] in
def fetch (d : Dict String (Json F)) (key : String) : Json F := (d.get? key).getD .null

def getOr (d : Dict String (Json F)) (key : String) (default : Json F) : Json F :=
  match d.get? key with
  | some v => if v.truthy then v else default
  | none => default

/-- What Python raises, as far as a handler tells it apart. -/
inductive NumberError | type | value | overflow
  deriving DecidableEq

/-- The built-ins whose results the model leaves open; `int` has a result, or an exception with
its text. -/
structure Builtins (F : Type) where
  repr : String → String
  str : Json F → String
  int : Json F → Except (NumberError × String) Int

namespace Builtins

variable {F : Type} (B : Builtins F)

def format : Json F → String
  | .str s => s
  | v => B.str v

def quote : Json F → String
  | .str s => B.repr s
  | v => B.str v

end Builtins

end Library
