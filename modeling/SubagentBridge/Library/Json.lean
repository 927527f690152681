import Mathlib.Data.List.Sort
import Mathlib.Data.String.Basic
import SubagentBridge.Library.Dict
import SubagentBridge.Library.Text

/-! JSON values, their text in the styles of Python's `json.dumps`, and the reader
`json.loads`. -/

namespace Library

def isNumeric (c : Char) : Bool := c.isDigit || c = '-' || c = '+' || c = '.' || c = 'e' || c = 'E'

/-- Floating point numbers with the text that `float.__repr__` gives them. -/
class FloatText (F : Type) where
  repr : F → List Char
  parse : List Char → Option F
  parse_repr : ∀ x, parse (repr x) = some x
  numeric : ∀ x, ∀ c ∈ repr x, isNumeric c = true
  ne_nil : ∀ x, repr x ≠ []
  marked : ∀ x, ∃ c ∈ repr x, c = '.' ∨ c = 'e'

instance : FloatText Empty where
  repr x := x.elim
  parse _ := none
  parse_repr x := x.elim
  numeric x := x.elim
  ne_nil x := x.elim
  marked x := x.elim

/-- A dict keeps the order in which its keys were inserted. -/
inductive Json (F : Type) : Type
  | null : Json F
  | bool : Bool → Json F
  | int : Int → Json F
  | float : F → Json F
  | str : String → Json F
  | arr : List (Json F) → Json F
  | obj : List (String × Json F) → Json F

section Shape

variable {F : Type}

mutual

def Json.Wf : Json F → Prop
  | .arr xs => WfElems xs
  | .obj kxs => (Dict.keys kxs).Nodup ∧ WfMembers kxs
  | .null | .bool _ | .int _ | .float _ | .str _ => True

def WfElems : List (Json F) → Prop
  | [] => True
  | x :: xs => x.Wf ∧ WfElems xs

def WfMembers : List (String × Json F) → Prop
  | [] => True
  | (_, x) :: kxs => x.Wf ∧ WfMembers kxs

end

end Shape

/-- Separators followed by a blank or not, and non-ASCII characters escaped or not. -/
structure Style where
  pad : Bool
  ascii : Bool

def Style.default : Style := ⟨true, true⟩

def Style.compact : Style := ⟨false, false⟩

def Style.padding (st : Style) : List Char := if st.pad then [' '] else []

/-- What a string literal consists of: characters, and `\u` escapes of code units. -/
abbrev Item := Char ⊕ Nat

def shortEscapes : List (Char × Char) :=
  [('"', '"'), ('\\', '\\'), ('\n', 'n'), ('\r', 'r'), ('\t', 't'),
    (Char.ofNat 12, 'f'), (Char.ofNat 8, 'b')]

def shortOf (c : Char) : Option Char := (shortEscapes.find? (·.1 = c)).map (·.2)

def unshort (c : Char) : Option Char := (shortEscapes.find? (·.2 = c)).map (·.1)

def hex4 (n : Nat) : List Char :=
  [Nat.digitChar (n / 4096 % 16), Nat.digitChar (n / 256 % 16), Nat.digitChar (n / 16 % 16),
    Nat.digitChar (n % 16)]

def hexVal (c : Char) : Option Nat :=
  (List.range 16).find? fun d => Nat.digitChar d = c || (Nat.digitChar d).toUpper = c

def printItem : Item → List Char
  | .inl c => match shortOf c with
    | some e => ['\\', e]
    | none => [c]
  | .inr n => '\\' :: 'u' :: hex4 n

def itemsOf (ascii : Bool) (c : Char) : List Item :=
  if (shortOf c).isSome then [.inl c]
  else if c.toNat < 0x20 then [.inr c.toNat]
  else if ascii && decide (0x7e < c.toNat) then
    if c.toNat < 0x10000 then [.inr c.toNat]
    else [.inr (0xD800 + (c.toNat - 0x10000) / 0x400), .inr (0xDC00 + (c.toNat - 0x10000) % 0x400)]
  else [.inl c]

def printStr (st : Style) (s : String) : List Char :=
  '"' :: ((s.toList.flatMap (itemsOf st.ascii)).flatMap printItem ++ ['"'])

def printInt : Int → List Char
  | .ofNat n => Nat.toDigits 10 n
  | .negSucc n => '-' :: Nat.toDigits 10 (n + 1)

variable {F : Type}

abbrev KeyLE (a b : String × Json F) : Prop := a.1 ≤ b.1

section Print

variable [FloatText F]

mutual

def Json.print (st : Style) : Json F → List Char
  | .null => ['n', 'u', 'l', 'l']
  | .bool true => ['t', 'r', 'u', 'e']
  | .bool false => ['f', 'a', 'l', 's', 'e']
  | .int n => printInt n
  | .float x => FloatText.repr x
  | .str s => printStr st s
  | .arr [] => ['[', ']']
  | .arr (x :: xs) => '[' :: (x.print st ++ printElems st xs)
  | .obj [] => ['{', '}']
  | .obj ((k, x) :: kxs) =>
    '{' :: (printStr st k ++ ':' :: (st.padding ++ (x.print st ++ printMembers st kxs)))

def printElems (st : Style) : List (Json F) → List Char
  | [] => [']']
  | x :: xs => ',' :: (st.padding ++ (x.print st ++ printElems st xs))

def printMembers (st : Style) : List (String × Json F) → List Char
  | [] => ['}']
  | (k, x) :: kxs =>
    ',' :: (st.padding ++ (printStr st k ++ ':' ::
      (st.padding ++ (x.print st ++ printMembers st kxs))))

end

end Print

mutual

/-- Every dict sorted by its keys, as `sort_keys=True` prints them. -/
def Json.sortKeys : Json F → Json F
  | .arr xs => .arr (sortElems xs)
  | .obj kxs => .obj ((sortMembers kxs).insertionSort KeyLE)
  | .null => .null
  | .bool b => .bool b
  | .int n => .int n
  | .float x => .float x
  | .str s => .str s

def sortElems : List (Json F) → List (Json F)
  | [] => []
  | x :: xs => x.sortKeys :: sortElems xs

def sortMembers : List (String × Json F) → List (String × Json F)
  | [] => []
  | (k, x) :: kxs => (k, x.sortKeys) :: sortMembers kxs

end

mutual

def Json.allFinite : Json (Option F) → Option (Json F)
  | .null => some .null
  | .bool b => some (.bool b)
  | .int n => some (.int n)
  | .float x => x.map .float
  | .str s => some (.str s)
  | .arr xs => (finiteElems xs).map .arr
  | .obj kxs => (finiteMembers kxs).map .obj

def finiteElems : List (Json (Option F)) → Option (List (Json F))
  | [] => some []
  | x :: xs => x.allFinite.bind fun y => (finiteElems xs).map (y :: ·)

def finiteMembers : List (String × Json (Option F)) → Option (List (String × Json F))
  | [] => some []
  | (k, x) :: kxs => x.allFinite.bind fun y => (finiteMembers kxs).map ((k, y) :: ·)

end

variable [FloatText F]

def Json.dumps (v : Json F) : String := .ofList (v.print .default)

def skipBlank : List Char → List Char
  | c :: cs => if c = ' ' || c = '\t' || c = '\n' || c = '\r' then skipBlank cs else c :: cs
  | [] => []

def readHex4 (a b c d : Char) : Option Nat := do
  return (← hexVal a) * 4096 + (← hexVal b) * 256 + (← hexVal c) * 16 + (← hexVal d)

def readItems : List Char → Option (List Item × List Char)
  | '"' :: r => some ([], r)
  | '\\' :: 'u' :: a :: b :: c :: d :: r => do
    let n ← readHex4 a b c d
    let (is, r) ← readItems r
    return (.inr n :: is, r)
  | '\\' :: e :: r => do
    let c ← unshort e
    let (is, r) ← readItems r
    return (.inl c :: is, r)
  | c :: r => do
    if c.toNat < 0x20 then none
    let (is, r) ← readItems r
    return (.inl c :: is, r)
  | [] => none

def isHigh (n : Nat) : Bool := decide (0xD800 ≤ n) && decide (n < 0xDC00)

def isLow (n : Nat) : Bool := decide (0xDC00 ≤ n) && decide (n < 0xE000)

def ofUnit (n : Nat) : Option Char := if isHigh n || isLow n then none else some (Char.ofNat n)

def joinItems : List Item → Option (List Char)
  | [] => some []
  | .inl c :: is => (joinItems is).map (c :: ·)
  | .inr n :: .inr m :: is =>
    if isHigh n && isLow m then
      (joinItems is).map (Char.ofNat (0x10000 + (n - 0xD800) * 0x400 + (m - 0xDC00)) :: ·)
    else (ofUnit n).bind fun c => (joinItems (.inr m :: is)).map (c :: ·)
  | .inr n :: is => (ofUnit n).bind fun c => (joinItems is).map (c :: ·)

def readStr (cs : List Char) : Option (String × List Char) := do
  let (is, r) ← readItems cs
  return (.ofList (← joinItems is), r)

def readNat (cs : List Char) : Option Nat :=
  if cs ≠ [] ∧ (∀ c ∈ cs, c.isDigit) ∧ (cs.head? = some '0' → cs = ['0']) then
    some (Nat.ofDigitChars 10 cs 0)
  else none

def readInt : List Char → Option Int
  | '-' :: cs => (readNat cs).map fun n => - (n : Int)
  | cs => (readNat cs).map fun n => (n : Int)

def readNumber (cs : List Char) : Option (Json F × List Char) :=
  let num := cs.takeWhile isNumeric
  let r := cs.dropWhile isNumeric
  match readInt num with
  | some n => some (.int n, r)
  | none => (FloatText.parse num).map fun x => (.float x, r)

mutual

def Json.read : Nat → List Char → Option (Json F × List Char)
  | 0, _ => none
  | n + 1, cs =>
    match skipBlank cs with
    | 'n' :: 'u' :: 'l' :: 'l' :: r => some (.null, r)
    | 't' :: 'r' :: 'u' :: 'e' :: r => some (.bool true, r)
    | 'f' :: 'a' :: 'l' :: 's' :: 'e' :: r => some (.bool false, r)
    | '"' :: r => (readStr r).map fun (s, r) => (.str s, r)
    | '[' :: r =>
      match skipBlank r with
      | ']' :: r => some (.arr [], r)
      | r => do
        let (x, r) ← Json.read n r
        let (xs, r) ← readElems n r
        return (.arr (x :: xs), r)
    | '{' :: r =>
      match skipBlank r with
      | '}' :: r => some (.obj [], r)
      | '"' :: r => do
        let (k, x, r) ← readMember n r
        let (kxs, r) ← readMembers n r
        return (.obj (Dict.update [] ((k, x) :: kxs)), r)
      | _ => none
    | r => readNumber r

def readElems : Nat → List Char → Option (List (Json F) × List Char)
  | 0, _ => none
  | n + 1, cs =>
    match skipBlank cs with
    | ']' :: r => some ([], r)
    | ',' :: r => do
      let (x, r) ← Json.read n r
      let (xs, r) ← readElems n r
      return (x :: xs, r)
    | _ => none

def readMember : Nat → List Char → Option (String × Json F × List Char)
  | 0, _ => none
  | n + 1, cs => do
    let (k, r) ← readStr cs
    match skipBlank r with
    | ':' :: r => do
      let (x, r) ← Json.read n r
      return (k, x, r)
    | _ => none

def readMembers : Nat → List Char → Option (List (String × Json F) × List Char)
  | 0, _ => none
  | n + 1, cs =>
    match skipBlank cs with
    | '}' :: r => some ([], r)
    | ',' :: r =>
      match skipBlank r with
      | '"' :: r => do
        let (k, x, r) ← readMember n r
        let (kxs, r) ← readMembers n r
        return ((k, x) :: kxs, r)
      | _ => none
    | _ => none

end

def Json.loads (s : String) : Option (Json F) := do
  let (v, r) ← Json.read (s.toList.length + 1) s.toList
  if skipBlank r = [] then some v else none

/-! ## Equality of values -/

section Equality

variable {F : Type} [DecidableEq F]

mutual

def Json.beq : Json F → Json F → Bool
  | .null, .null => true
  | .bool a, .bool b => a = b
  | .int a, .int b => a = b
  | .float x, .float y => x = y
  | .str s, .str t => s = t
  | .arr xs, .arr ys => beqElems xs ys
  | .obj kxs, .obj kys => beqMembers kxs kys
  | _, _ => false

def beqElems : List (Json F) → List (Json F) → Bool
  | [], [] => true
  | x :: xs, y :: ys => x.beq y && beqElems xs ys
  | _, _ => false

def beqMembers : List (String × Json F) → List (String × Json F) → Bool
  | [], [] => true
  | (k, x) :: kxs, (l, y) :: kys => k = l && x.beq y && beqMembers kxs kys
  | _, _ => false

end

mutual

theorem Json.beq_iff (a b : Json F) : a.beq b = true ↔ a = b := by
  cases a <;> cases b <;> simp [Json.beq, beqElems_iff, beqMembers_iff]

theorem beqElems_iff (xs ys : List (Json F)) : beqElems xs ys = true ↔ xs = ys := by
  match xs, ys with
  | [], [] => simp [beqElems]
  | [], _ :: _ => simp [beqElems]
  | _ :: _, [] => simp [beqElems]
  | x :: xs, y :: ys => simp [beqElems, Json.beq_iff x y, beqElems_iff xs ys]

theorem beqMembers_iff (kxs kys : List (String × Json F)) :
    beqMembers kxs kys = true ↔ kxs = kys := by
  match kxs, kys with
  | [], [] => simp [beqMembers]
  | [], _ :: _ => simp [beqMembers]
  | _ :: _, [] => simp [beqMembers]
  | (k, x) :: kxs, (l, y) :: kys =>
    simp [beqMembers, Json.beq_iff x y, beqMembers_iff kxs kys, and_assoc]

end

instance : DecidableEq (Json F) := fun a b => decidable_of_iff _ (Json.beq_iff a b)

end Equality
end Library
