import Mathlib.Data.String.Basic

/-! Python's `str` methods, as far as the modelled code uses them. -/

namespace Library

instance (priority := high) decidableBAllChar {p : Char → Prop} [DecidablePred p] (cs : List Char) :
    Decidable (∀ c ∈ cs, p c) := List.decidableBAll p cs

def isSpace (c : Char) : Bool :=
  let n := c.toNat
  decide (9 ≤ n ∧ n ≤ 13 ∨ 28 ≤ n ∧ n ≤ 32 ∨ n = 0x85 ∨ n = 0xa0 ∨ n = 0x1680 ∨
    0x2000 ≤ n ∧ n ≤ 0x200a ∨ n = 0x2028 ∨ n = 0x2029 ∨ n = 0x202f ∨ n = 0x205f ∨ n = 0x3000)

def isBlank (s : String) : Bool := s.toList.all isSpace

/-- `str.lower`, as far as a comparison with an ASCII text can tell: beyond ASCII, the
Kelvin sign is the only character whose lower case is an ASCII letter. -/
def lower (s : String) : List Char :=
  s.toList.map fun c => if c.toNat = 0x212a then 'k' else c.toLower

def take (s : String) (n : Nat) : String := String.ofList (s.toList.take n)

def strip (s : String) : String :=
  String.ofList (((s.toList.dropWhile isSpace).reverse.dropWhile isSpace).reverse)

def occursIn (sub : List Char) : List Char → Bool
  | [] => sub.isEmpty
  | c :: cs => sub.isPrefixOf (c :: cs) || occursIn sub cs

def contains (s sub : String) : Bool := occursIn sub.toList s.toList

def splitOn (sep : Char) : List Char → List (List Char)
  | [] => [[]]
  | c :: cs =>
    if c = sep then [] :: splitOn sep cs
    else match splitOn sep cs with
      | [] => [[c]]
      | w :: ws => (c :: w) :: ws

/-- `s.split(sep)` for a separator of any length; `skip` characters of one are still to go. -/
def splitText (sep : List Char) : (skip : Nat) → (word : List Char) → List Char → List (List Char)
  | _, word, [] => [word.reverse]
  | skip + 1, word, _ :: cs => splitText sep skip word cs
  | 0, word, c :: cs =>
    if sep.isPrefixOf (c :: cs) then word.reverse :: splitText sep (sep.length - 1) [] cs
    else splitText sep 0 (c :: word) cs

theorem cut_injective {c : Char} {xs xs' ys ys' : List Char} (hx : c ∉ xs) (hx' : c ∉ xs')
    (h : xs ++ c :: ys = xs' ++ c :: ys') : xs = xs' ∧ ys = ys' := by
  induction xs generalizing xs' with
  | nil =>
    cases xs' with
    | nil => exact ⟨rfl, (List.cons.inj h).2⟩
    | cons d xs' => exact absurd (by rw [(List.cons.inj h).1]; exact List.mem_cons_self) hx'
  | cons d xs ih =>
    cases xs' with
    | nil => exact absurd (by rw [← (List.cons.inj h).1]; exact List.mem_cons_self) hx
    | cons d' xs' =>
      obtain ⟨rfl, htail⟩ := List.cons.inj h
      obtain ⟨rfl, rfl⟩ := ih (fun hc => hx (List.mem_cons_of_mem _ hc))
        (fun hc => hx' (List.mem_cons_of_mem _ hc)) htail
      exact ⟨rfl, rfl⟩

theorem cut_last_injective {c : Char} {xs xs' ys ys' : List Char} (hy : c ∉ ys) (hy' : c ∉ ys')
    (h : xs ++ c :: ys = xs' ++ c :: ys') : xs = xs' ∧ ys = ys' := by
  have hreverse := congrArg List.reverse h
  simp only [List.reverse_append, List.reverse_cons, List.append_assoc, List.cons_append,
    List.nil_append] at hreverse
  obtain ⟨hys, hxs⟩ := cut_injective (by simpa using hy) (by simpa using hy') hreverse
  exact ⟨List.reverse_injective hxs, List.reverse_injective hys⟩

theorem cut_last_colon {s s' t t' : String} (ht : ':' ∉ t.toList) (ht' : ':' ∉ t'.toList)
    (h : s ++ ":" ++ t = s' ++ ":" ++ t') : s = s' ∧ t = t' := by
  obtain ⟨hs, ht⟩ := cut_last_injective ht ht' (by simpa using congrArg String.toList h)
  exact ⟨String.toList_injective hs, String.toList_injective ht⟩

/-- Two ways to cut a text at a colon, the second one at its first colon: they are the same, or the
first one cuts further right. -/
theorem cut_cases {s s' t t' : String} (hs : ':' ∉ s'.toList)
    (h : s ++ ":" ++ t = s' ++ ":" ++ t') :
    s = s' ∧ t = t' ∨ ∃ u, t' = u ++ ":" ++ t := by
  have hlist : s.toList ++ ':' :: t.toList = s'.toList ++ ':' :: t'.toList := by
    simpa using congrArg String.toList h
  rcases List.append_eq_append_iff.mp hlist with ⟨as, has, ht⟩ | ⟨bs, hbs, ht⟩
  · cases as with
    | nil =>
      rw [List.append_nil] at has
      exact .inl ⟨(String.toList_injective has).symm,
        String.toList_injective (List.cons.inj ht).2⟩
    | cons c as =>
      rw [List.cons_append] at ht
      rw [has, ← (List.cons.inj ht).1] at hs
      simp at hs
  · cases bs with
    | nil =>
      rw [List.append_nil] at hbs
      exact .inl ⟨String.toList_injective hbs,
        (String.toList_injective (List.cons.inj ht).2).symm⟩
    | cons c bs =>
      rw [List.cons_append] at ht
      refine .inr ⟨.ofList bs, String.toList_injective ?_⟩
      rw [(List.cons.inj ht).2]
      simp

/-- A text with its length before it, and another text: the two can be told apart again. -/
def framed (s t : String) : String := toString s.length ++ ":" ++ s ++ ":" ++ t

theorem framed_injective {s s' t t' : String} (h : framed s t = framed s' t') :
    s = s' ∧ t = t' := by
  have hdigit : ∀ n : Nat, ':' ∉ Nat.toDigits 10 n := fun n hc =>
    absurd (Nat.isDigit_of_mem_toDigits (by decide) (by decide) hc) (by decide)
  have hlist : Nat.toDigits 10 s.length ++ ':' :: (s.toList ++ ':' :: t.toList) =
      Nat.toDigits 10 s'.length ++ ':' :: (s'.toList ++ ':' :: t'.toList) := by
    simpa [framed, Nat.toList_repr] using congrArg String.toList h
  obtain ⟨hlen, hrest⟩ := cut_injective (hdigit _) (hdigit _) hlist
  have hlen : s.toList.length = s'.toList.length := by
    rw [← String.length, ← String.length, ← Nat.ofDigitChars_ten_toDigits (n := s.length), hlen,
      Nat.ofDigitChars_ten_toDigits]
  obtain ⟨hs, ht⟩ := List.append_inj hrest hlen
  exact ⟨String.toList_injective hs, String.toList_injective (List.cons.inj ht).2⟩

end Library
