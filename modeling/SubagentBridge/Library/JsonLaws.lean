import SubagentBridge.Library.Json

/-! The reader takes back what the printer wrote, so the printed text determines
the value. -/

namespace Library

/-! ## String literals -/

theorem hexVal_digitChar : ∀ d < 16, hexVal (Nat.digitChar d) = some d := by decide

theorem readHex4_hex4 {n : Nat} (h : n < 65536) :
    readHex4 (Nat.digitChar (n / 4096 % 16)) (Nat.digitChar (n / 256 % 16))
      (Nat.digitChar (n / 16 % 16)) (Nat.digitChar (n % 16)) = some n := by
  have hd : ∀ m, hexVal (Nat.digitChar (m % 16)) = some (m % 16) := fun m =>
    hexVal_digitChar _ (Nat.mod_lt _ (by decide))
  simp only [readHex4, hd, Option.bind_eq_bind, Option.bind_some, Option.pure_def,
    Option.some.injEq]
  omega

theorem unshort_of_shortOf {c e : Char} (h : shortOf c = some e) :
    unshort e = some c ∧ e ≠ 'u' := by
  have hmem : (c, e) ∈ shortEscapes := by
    obtain ⟨⟨c', e'⟩, hf, rfl⟩ := Option.map_eq_some_iff.mp h
    have hc : c' = c := by simpa using List.find?_some hf
    exact hc ▸ List.mem_of_find?_eq_some hf
  simp only [shortEscapes, List.mem_cons, Prod.mk.injEq, List.not_mem_nil, or_false] at hmem
  rcases hmem with ⟨rfl, rfl⟩ | ⟨rfl, rfl⟩ | ⟨rfl, rfl⟩ | ⟨rfl, rfl⟩ | ⟨rfl, rfl⟩ | ⟨rfl, rfl⟩ |
    ⟨rfl, rfl⟩ <;> decide

theorem ne_quote_of_shortOf {c : Char} (h : shortOf c = none) : c ≠ '"' ∧ c ≠ '\\' := by
  constructor <;> rintro rfl <;> revert h <;> decide

def Item.Printable : Item → Prop
  | .inl c => shortOf c = none → 0x20 ≤ c.toNat
  | .inr n => n < 65536

theorem readItems_printItem {i : Item} (hi : i.Printable) (r : List Char) :
    readItems (printItem i ++ r) = (readItems r).map fun p => (i :: p.1, p.2) := by
  cases i with
  | inr n =>
    simp only [printItem, hex4, List.cons_append, List.nil_append]
    rw [readItems, readHex4_hex4 hi]
    cases readItems r <;> rfl
  | inl c =>
    cases hs : shortOf c with
    | some e =>
      obtain ⟨hu, hne⟩ := unshort_of_shortOf hs
      simp only [printItem, hs, List.cons_append, List.nil_append]
      rw [readItems, hu]
      · cases readItems r <;> rfl
      · intro _ _ _ _ _ h
        exact absurd h hne
    | none =>
      obtain ⟨hq, hb⟩ := ne_quote_of_shortOf hs
      have hc : ¬ c.toNat < 0x20 := Nat.not_lt.mpr (hi hs)
      simp only [printItem, hs, List.cons_append, List.nil_append]
      rw [readItems]
      · simp only [hc, if_false]
        cases readItems r <;> rfl
      · exact hq
      · intro _ _ _ _ _ h
        exact absurd h hb
      · intro _ _ h
        exact absurd h hb

theorem readItems_print {is : List Item} (h : ∀ i ∈ is, i.Printable) (r : List Char) :
    readItems (is.flatMap printItem ++ '"' :: r) = some (is, r) := by
  induction is with
  | nil => simp [readItems]
  | cons i is ih =>
    rw [List.flatMap_cons, List.append_assoc, readItems_printItem (h i (by simp)),
      ih fun j hj => h j (by simp [hj])]
    rfl

theorem toNat_lt_max (c : Char) : c.toNat < 0x110000 := by
  have h := c.valid
  simp only [Char.toNat]
  rcases h with h | h <;> simp at h ⊢ <;> omega

theorem printable_itemsOf (ascii : Bool) (c : Char) : ∀ i ∈ itemsOf ascii c, i.Printable := by
  have hmax := toNat_lt_max c
  intro i hi
  rw [itemsOf] at hi
  split_ifs at hi with h₁ h₂ h₃ h₄
  · rw [List.mem_singleton.mp hi]
    intro hn
    simp [hn] at h₁
  · rw [List.mem_singleton.mp hi]
    show c.toNat < 65536
    omega
  · rw [List.mem_singleton.mp hi]
    exact h₄
  · simp only [List.mem_cons, List.not_mem_nil, or_false] at hi
    rcases hi with rfl | rfl <;> simp only [Item.Printable] <;> omega
  · rw [List.mem_singleton.mp hi]
    exact fun _ => Nat.not_lt.mp h₂

theorem isHigh_or_isLow_toNat (c : Char) : (isHigh c.toNat || isLow c.toNat) = false := by
  have h := c.valid
  simp only [Char.toNat, isHigh, isLow]
  rcases h with h | h <;> simp at h ⊢ <;> omega

theorem joinItems_unit (c : Char) (is : List Item) :
    joinItems (.inr c.toNat :: is) = (joinItems is).map (c :: ·) := by
  have hs := isHigh_or_isLow_toNat c
  have hu : ofUnit c.toNat = some c := by simp [ofUnit, hs]
  have hh : isHigh c.toNat = false := by
    cases h : isHigh c.toNat
    · rfl
    · simp [h] at hs
  rcases is with _ | ⟨a | m, is⟩
  · simp [joinItems, hu]
  · simp [joinItems, hu]
  · rw [joinItems]
    simp [hh, hu]

theorem joinItems_pair {c : Char} (hc : 0x10000 ≤ c.toNat) (is : List Item) :
    joinItems (.inr (0xD800 + (c.toNat - 0x10000) / 0x400) ::
      .inr (0xDC00 + (c.toNat - 0x10000) % 0x400) :: is) = (joinItems is).map (c :: ·) := by
  have hmax := toNat_lt_max c
  have hhigh : isHigh (0xD800 + (c.toNat - 0x10000) / 0x400) = true := by
    simp only [isHigh, Bool.and_eq_true, decide_eq_true_eq]; omega
  have hlow : isLow (0xDC00 + (c.toNat - 0x10000) % 0x400) = true := by
    simp only [isLow, Bool.and_eq_true, decide_eq_true_eq]; omega
  have hsum : 0x10000 + (0xD800 + (c.toNat - 0x10000) / 0x400 - 0xD800) * 0x400 +
      (0xDC00 + (c.toNat - 0x10000) % 0x400 - 0xDC00) = c.toNat := by omega
  rw [joinItems, hhigh, hlow, hsum]
  simp

theorem joinItems_itemsOf (ascii : Bool) (c : Char) (is : List Item) :
    joinItems (itemsOf ascii c ++ is) = (joinItems is).map (c :: ·) := by
  rw [itemsOf]
  split_ifs with h₁ h₂ h₃ h₄
  · rfl
  · exact joinItems_unit c is
  · exact joinItems_unit c is
  · exact joinItems_pair (Nat.not_lt.mp h₄) is
  · rfl

theorem joinItems_print (ascii : Bool) (cs : List Char) :
    joinItems (cs.flatMap (itemsOf ascii)) = some cs := by
  induction cs with
  | nil => rfl
  | cons c cs ih => rw [List.flatMap_cons, joinItems_itemsOf, ih]; rfl

theorem readStr_print (st : Style) (s : String) (r : List Char) :
    readStr ((s.toList.flatMap (itemsOf st.ascii)).flatMap printItem ++ '"' :: r) =
      some (s, r) := by
  have hp : ∀ i ∈ s.toList.flatMap (itemsOf st.ascii), i.Printable := by
    intro i hi
    obtain ⟨c, -, hc⟩ := List.mem_flatMap.mp hi
    exact printable_itemsOf _ c i hc
  simp [readStr, readItems_print hp, joinItems_print]

/-! ## Numbers -/

def Stops (r : List Char) : Prop := ∀ c ∈ r.head?, isNumeric c = false

theorem stops_nil : Stops [] := fun _ h => by cases h

theorem stops_cons {c : Char} (h : isNumeric c = false) (r : List Char) : Stops (c :: r) := by
  rintro c' hc
  obtain rfl : c = c' := by simpa using hc
  exact h

theorem split_numeric {ds r : List Char} (hd : ∀ c ∈ ds, isNumeric c = true) (hr : Stops r) :
    (ds ++ r).takeWhile isNumeric = ds ∧ (ds ++ r).dropWhile isNumeric = r := by
  rw [List.takeWhile_append_of_pos hd, List.dropWhile_append_of_pos hd]
  cases r with
  | nil => simp
  | cons c r => simp [hr c rfl]

theorem digitChar_ne_zero : ∀ n < 10, [Nat.digitChar n].head? = some '0' → n = 0 := by decide

theorem isDigit_toDigits {n : Nat} {c : Char} (h : c ∈ Nat.toDigits 10 n) : c.isDigit = true :=
  Nat.isDigit_of_mem_toDigits (by decide) (by decide) h

theorem toDigits_head_zero (n : Nat) (h : (Nat.toDigits 10 n).head? = some '0') : n = 0 := by
  induction n using Nat.strong_induction_on with
  | _ n ih =>
    rw [Nat.toDigits_eq_if (by decide)] at h
    split at h
    next hlt => exact digitChar_ne_zero n hlt h
    next hge =>
      have hne : Nat.toDigits 10 (n / 10) ≠ [] := Nat.toDigits_ne_nil
      rw [List.head?_append_of_ne_nil _ hne] at h
      have := ih (n / 10) (by omega) h
      omega

theorem readNat_toDigits (n : Nat) : readNat (Nat.toDigits 10 n) = some n := by
  rw [readNat, if_pos, Nat.ofDigitChars_ten_toDigits]
  refine ⟨Nat.toDigits_ne_nil, fun c hc => isDigit_toDigits hc, fun h => ?_⟩
  rw [toDigits_head_zero n h, Nat.toDigits_zero]

theorem readInt_printInt (n : Int) : readInt (printInt n) = some n := by
  cases n with
  | ofNat n =>
    rw [printInt, readInt, readNat_toDigits]
    · rfl
    · intro cs h
      have hmem : '-' ∈ Nat.toDigits 10 n := h ▸ List.mem_cons_self
      exact absurd (isDigit_toDigits hmem) (by decide)
  | negSucc n =>
    rw [printInt, readInt, readNat_toDigits]
    rfl

theorem numeric_printInt (n : Int) : ∀ c ∈ printInt n, isNumeric c = true := by
  have hd : ∀ m c, c ∈ Nat.toDigits 10 m → isNumeric c = true := fun m c hc => by
    simp [isNumeric, isDigit_toDigits hc]
  cases n with
  | ofNat n => exact hd n
  | negSucc n =>
    intro c hc
    rcases List.mem_cons.mp hc with rfl | hc
    · decide
    · exact hd _ c hc

section Values

variable {F : Type} [FloatText F]

theorem readNumber_int (n : Int) {r : List Char} (hr : Stops r) :
    readNumber (printInt n ++ r) = some ((.int n : Json F), r) := by
  have hs := split_numeric (numeric_printInt n) hr
  simp only [readNumber, hs.1, hs.2, readInt_printInt]

theorem readNat_of_marked {cs : List Char} (h : ∃ c ∈ cs, c = '.' ∨ c = 'e') :
    readNat cs = none := by
  rw [readNat, if_neg]
  rintro ⟨-, hd, -⟩
  obtain ⟨c, hc, rfl | rfl⟩ := h <;> exact absurd (hd _ hc) (by decide)

theorem readInt_of_marked {cs : List Char} (h : ∃ c ∈ cs, c = '.' ∨ c = 'e') :
    readInt cs = none := by
  unfold readInt
  split
  next cs =>
    obtain ⟨c, hc, hm⟩ := h
    rcases List.mem_cons.mp hc with rfl | hc
    · rcases hm with hm | hm <;> exact absurd hm (by decide)
    · rw [readNat_of_marked ⟨c, hc, hm⟩]; rfl
  next => rw [readNat_of_marked h]; rfl

theorem readNumber_float (x : F) {r : List Char} (hr : Stops r) :
    readNumber (FloatText.repr x ++ r) = some (.float x, r) := by
  have hs := split_numeric (FloatText.numeric x) hr
  simp only [readNumber, hs.1, hs.2, readInt_of_marked (FloatText.marked x),
    FloatText.parse_repr, Option.map_some]

/-! ## Values -/

mutual

def Json.size : Json F → Nat
  | .arr [] => 1
  | .arr (x :: xs) => 1 + x.size + sizeElems xs
  | .obj kxs => 1 + sizeMembers kxs
  | .null | .bool _ | .int _ | .float _ | .str _ => 1

def sizeElems : List (Json F) → Nat
  | [] => 1
  | x :: xs => 1 + x.size + sizeElems xs

def sizeMembers : List (String × Json F) → Nat
  | [] => 1
  | (_, x) :: kxs => 2 + x.size + sizeMembers kxs

end

omit [FloatText F] in
theorem Json.size_pos (v : Json F) : 0 < v.size := by
  rcases v with _ | _ | _ | _ | _ | (_ | _) | _ <;> simp only [size] <;> omega

def Opens (c : Char) : Prop :=
  c = 'n' ∨ c = 't' ∨ c = 'f' ∨ c = '"' ∨ c = '[' ∨ c = '{' ∨ isNumeric c = true

theorem numeric_ne {c : Char} (h : isNumeric c = true) :
    c ≠ 'n' ∧ c ≠ 't' ∧ c ≠ 'f' ∧ c ≠ '"' ∧ c ≠ '[' ∧ c ≠ '{' ∧ c ≠ ']' ∧ c ≠ ' ' ∧ c ≠ '\t' ∧
      c ≠ '\n' ∧ c ≠ '\r' := by
  refine ⟨?_, ?_, ?_, ?_, ?_, ?_, ?_, ?_, ?_, ?_, ?_⟩ <;> rintro rfl <;> revert h <;> decide

theorem Opens.not_blank {c : Char} (h : Opens c) (r : List Char) :
    skipBlank (c :: r) = c :: r := by
  have hb : ¬ (c = ' ' ∨ c = '\t' ∨ c = '\n' ∨ c = '\r') := by
    rcases h with rfl | rfl | rfl | rfl | rfl | rfl | h
    on_goal 7 => have := numeric_ne h; tauto
    all_goals decide
  rw [skipBlank, if_neg]
  simpa [or_assoc] using hb

theorem Opens.ne_close {c : Char} (h : Opens c) : c ≠ ']' := by
  rcases h with rfl | rfl | rfl | rfl | rfl | rfl | h
  on_goal 7 => exact (numeric_ne h).2.2.2.2.2.2.1
  all_goals decide

theorem opens_print (st : Style) (v : Json F) : ∃ c cs, v.print st = c :: cs ∧ Opens c := by
  cases v with
  | null => exact ⟨_, _, by rw [Json.print], by simp [Opens]⟩
  | bool b => cases b <;> exact ⟨_, _, by rw [Json.print], by simp [Opens]⟩
  | int n =>
    cases h : printInt n with
    | nil => cases n <;> simp [printInt] at h
    | cons c cs =>
      have hc := numeric_printInt n c (by simp [h])
      exact ⟨c, cs, by rw [Json.print, h], by simp [Opens, hc]⟩
  | float x =>
    cases h : FloatText.repr x with
    | nil => exact absurd h (FloatText.ne_nil x)
    | cons c cs =>
      have hc := FloatText.numeric x c (by simp [h])
      exact ⟨c, cs, by rw [Json.print, h], by simp [Opens, hc]⟩
  | str s => exact ⟨_, _, by rw [Json.print, printStr], by simp [Opens]⟩
  | arr xs => cases xs <;> exact ⟨_, _, by rw [Json.print], by simp [Opens]⟩
  | obj kxs =>
    rcases kxs with _ | ⟨⟨k, x⟩, kxs⟩ <;> exact ⟨_, _, by rw [Json.print], by simp [Opens]⟩

theorem skipBlank_print (st : Style) (v : Json F) (r : List Char) :
    skipBlank (st.padding ++ (v.print st ++ r)) = v.print st ++ r := by
  obtain ⟨c, cs, hv, hc⟩ := opens_print st v
  rw [hv, List.cons_append, Style.padding]
  split
  · rw [List.cons_append, List.nil_append, skipBlank, if_pos (by decide), hc.not_blank]
  · exact hc.not_blank _

theorem skipBlank_quote (st : Style) (r : List Char) :
    skipBlank (st.padding ++ '"' :: r) = '"' :: r := by
  rw [Style.padding]
  split <;> rfl

theorem stops_elems (st : Style) (xs : List (Json F)) (r : List Char) :
    Stops (printElems st xs ++ r) := by
  cases xs <;> rw [printElems] <;> exact stops_cons (by decide) _

theorem stops_members (st : Style) (kxs : List (String × Json F)) (r : List Char) :
    Stops (printMembers st kxs ++ r) := by
  rcases kxs with _ | ⟨⟨k, x⟩, kxs⟩ <;> rw [printMembers] <;> exact stops_cons (by decide) _

theorem read_skipBlank (n : Nat) (cs : List Char) :
    Json.read (F := F) n (skipBlank cs) = Json.read n cs := by
  have hidem : skipBlank (skipBlank cs) = skipBlank cs := by
    induction cs with
    | nil => rfl
    | cons c cs ih =>
      rw [skipBlank]
      split
      next => exact ih
      next h => rw [skipBlank, if_neg h]
  cases n with
  | zero => rw [Json.read, Json.read]
  | succ n => rw [Json.read, Json.read, hidem]

theorem read_number {n : Nat} {c : Char} {cs : List Char} (hc : isNumeric c = true) :
    Json.read (F := F) (n + 1) (c :: cs) = readNumber (c :: cs) := by
  have hb := Opens.not_blank (c := c) (by simp [Opens, hc]) cs
  obtain ⟨h₁, h₂, h₃, h₄, h₅, h₆, -⟩ := numeric_ne hc
  rw [Json.read, hb]
  split
  all_goals first | rfl | (rename_i h; exact absurd (List.cons.inj h).1 (by assumption))

mutual

theorem read_print (st : Style) : ∀ (v : Json F) (n : Nat) (r : List Char),
    v.Wf → v.size ≤ n → Stops r → Json.read n (v.print st ++ r) = some (v, r)
  | v, 0, r, _, h, _ => absurd h (by have := v.size_pos; omega)
  | .null, n + 1, r, _, _, _ => by simp [Json.print, Json.read, skipBlank]
  | .bool true, n + 1, r, _, _, _ => by simp [Json.print, Json.read, skipBlank]
  | .bool false, n + 1, r, _, _, _ => by simp [Json.print, Json.read, skipBlank]
  | .int m, n + 1, r, _, _, hr => by
    have hnum := readNumber_int (F := F) m hr
    obtain ⟨c, cs, hp, -⟩ := opens_print st (.int m : Json F)
    rw [Json.print] at hp ⊢
    rw [hp, List.cons_append] at hnum ⊢
    rw [read_number (numeric_printInt m c (by simp [hp])), hnum]
  | .float x, n + 1, r, _, _, hr => by
    have hnum := readNumber_float x hr
    obtain ⟨c, cs, hp, -⟩ := opens_print st (.float x)
    rw [Json.print] at hp ⊢
    rw [hp, List.cons_append] at hnum ⊢
    rw [read_number (FloatText.numeric x c (by simp [hp])), hnum]
  | .str s, n + 1, r, _, _, _ => by
    simp [Json.print, printStr, Json.read, skipBlank, readStr_print]
  | .arr [], n + 1, r, _, _, _ => by simp [Json.print, Json.read, skipBlank]
  | .arr (x :: xs), n + 1, r, hw, hn, _ => by
    simp only [Json.Wf, WfElems] at hw
    simp only [Json.size] at hn
    have hx := read_print st x n (printElems st xs ++ r) hw.1 (by omega) (stops_elems st xs r)
    have hxs := readElems_print st xs n r hw.2 (by omega)
    obtain ⟨c, cs, hp, hc⟩ := opens_print st x
    have hblank : skipBlank (x.print st ++ (printElems st xs ++ r)) =
        x.print st ++ (printElems st xs ++ r) := by
      rw [hp, List.cons_append, hc.not_blank]
    rw [Json.print, Json.read]
    simp only [List.cons_append, List.append_assoc, skipBlank, Char.reduceEq, decide_false,
      Bool.or_self, Bool.false_eq_true, ↓reduceIte]
    rw [hblank]
    split
    next h =>
      rw [hp, List.cons_append] at h
      exact absurd (List.cons.inj h).1 hc.ne_close
    next => simp [hx, hxs]
  | .obj [], n + 1, r, _, _, _ => by simp [Json.print, Json.read, skipBlank]
  | .obj ((k, x) :: kxs), n + 1, r, hw, hn, _ => by
    simp only [Json.Wf, WfMembers] at hw
    simp only [Json.size, sizeMembers] at hn
    have hkx := readMember_print st k x n (printMembers st kxs ++ r) hw.2.1 (by omega)
      (stops_members st kxs r)
    have hkxs := readMembers_print st kxs n r hw.2.2 (by omega)
    rw [Json.print, Json.read]
    simp only [printStr, List.cons_append, List.append_assoc, List.nil_append, skipBlank,
      Char.reduceEq, decide_false, Bool.or_self, Bool.false_eq_true, ↓reduceIte]
    simp [hkx, hkxs, Dict.update_nil_of_nodup hw.1]

theorem readElems_print (st : Style) : ∀ (xs : List (Json F)) (n : Nat) (r : List Char),
    WfElems xs → sizeElems xs ≤ n → readElems n (printElems st xs ++ r) = some (xs, r)
  | xs, 0, r, _, h => by cases xs <;> simp [sizeElems] at h
  | [], n + 1, r, _, _ => by simp [printElems, readElems, skipBlank]
  | x :: xs, n + 1, r, hw, hn => by
    simp only [WfElems] at hw
    simp only [sizeElems] at hn
    have hx := read_print st x n (printElems st xs ++ r) hw.1 (by omega) (stops_elems st xs r)
    have hxs := readElems_print st xs n r hw.2 (by omega)
    rw [← skipBlank_print st x, read_skipBlank] at hx
    rw [printElems, readElems]
    simp only [List.cons_append, List.append_assoc, skipBlank, Char.reduceEq, decide_false,
      Bool.or_self, Bool.false_eq_true, ↓reduceIte]
    simp [hx, hxs]

theorem readMember_print (st : Style) : ∀ (k : String) (x : Json F) (n : Nat) (r : List Char),
    x.Wf → 1 + x.size ≤ n → Stops r →
      readMember n ((k.toList.flatMap (itemsOf st.ascii)).flatMap printItem ++ '"' :: ':' ::
        (st.padding ++ (x.print st ++ r))) = some (k, x, r)
  | _, _, 0, _, _, h, _ => by omega
  | k, x, n + 1, r, hw, hn, hr => by
    have hx := read_print st x n r hw (by omega) hr
    rw [← skipBlank_print st x, read_skipBlank] at hx
    rw [readMember]
    simp only [readStr_print, Option.bind_eq_bind, Option.bind_some]
    simp [skipBlank, hx]

theorem readMembers_print (st : Style) :
    ∀ (kxs : List (String × Json F)) (n : Nat) (r : List Char),
      WfMembers kxs → sizeMembers kxs ≤ n →
        readMembers n (printMembers st kxs ++ r) = some (kxs, r)
  | kxs, 0, r, _, h => by rcases kxs with _ | ⟨⟨k, x⟩, kxs⟩ <;> simp [sizeMembers] at h
  | [], n + 1, r, _, _ => by simp [printMembers, readMembers, skipBlank]
  | (k, x) :: kxs, n + 1, r, hw, hn => by
    simp only [WfMembers] at hw
    simp only [sizeMembers] at hn
    have hkx := readMember_print st k x n (printMembers st kxs ++ r) hw.1 (by omega)
      (stops_members st kxs r)
    have hkxs := readMembers_print st kxs n r hw.2 (by omega)
    rw [printMembers, readMembers]
    simp only [printStr, List.cons_append, List.append_assoc, List.nil_append, skipBlank,
      Char.reduceEq, decide_false, Bool.or_self, Bool.false_eq_true, ↓reduceIte]
    rw [skipBlank_quote]
    simp [hkx, hkxs]

end

/-! ## Whole texts -/

mutual

theorem size_le_print (st : Style) : ∀ v : Json F, v.size ≤ (v.print st).length
  | .null => by simp [Json.size, Json.print]
  | .bool true => by simp [Json.size, Json.print]
  | .bool false => by simp [Json.size, Json.print]
  | .int n => by
    obtain ⟨c, cs, hp, -⟩ := opens_print st (.int n : Json F)
    simp [Json.size, hp]
  | .float x => by
    obtain ⟨c, cs, hp, -⟩ := opens_print st (.float x)
    simp [Json.size, hp]
  | .str s => by simp [Json.size, Json.print, printStr]
  | .arr [] => by simp [Json.size, Json.print]
  | .arr (x :: xs) => by
    have := size_le_print st x
    have := sizeElems_le_print st xs
    simp only [Json.size, Json.print, List.length_cons, List.length_append]
    omega
  | .obj [] => by simp [Json.size, sizeMembers, Json.print]
  | .obj ((k, x) :: kxs) => by
    have := size_le_print st x
    have := sizeMembers_le_print st kxs
    simp only [Json.size, sizeMembers, Json.print, printStr, List.length_cons, List.length_append]
    omega

theorem sizeElems_le_print (st : Style) : ∀ xs : List (Json F),
    sizeElems xs ≤ (printElems st xs).length
  | [] => by simp [sizeElems, printElems]
  | x :: xs => by
    have := size_le_print st x
    have := sizeElems_le_print st xs
    simp only [sizeElems, printElems, List.length_cons, List.length_append]
    omega

theorem sizeMembers_le_print (st : Style) : ∀ kxs : List (String × Json F),
    sizeMembers kxs ≤ (printMembers st kxs).length
  | [] => by simp [sizeMembers, printMembers]
  | (k, x) :: kxs => by
    have := size_le_print st x
    have := sizeMembers_le_print st kxs
    simp only [sizeMembers, printMembers, printStr, List.length_cons, List.length_append]
    omega

end

theorem loads_print (st : Style) {v : Json F} (hv : v.Wf) :
    Json.loads (.ofList (v.print st)) = some v := by
  have hsize := size_le_print st v
  have hread := read_print st v ((v.print st).length + 1) [] hv (by omega) stops_nil
  rw [List.append_nil] at hread
  simp [Json.loads, String.toList_ofList, hread, skipBlank]

theorem loads_dumps {v : Json F} (hv : v.Wf) : Json.loads v.dumps = some v :=
  loads_print .default hv

theorem print_injective (st : Style) {v w : Json F} (hv : v.Wf) (hw : w.Wf)
    (h : v.print st = w.print st) : v = w := by
  have hread := loads_print st hv
  rw [h, loads_print st hw] at hread
  exact (Option.some.inj hread).symm

theorem dumps_injective {v w : Json F} (hv : v.Wf) (hw : w.Wf) (h : v.dumps = w.dumps) :
    v = w :=
  print_injective .default hv hw (String.ofList_injective h)

end Values

/-! ## Sorted keys -/

section Sorting

variable {F : Type}

instance : Std.Total (KeyLE (F := F)) := ⟨fun a b => le_total a.1 b.1⟩

instance : IsTrans (String × Json F) KeyLE := ⟨fun _ _ _ => le_trans⟩

theorem sortMembers_eq_map (kxs : List (String × Json F)) :
    sortMembers kxs = kxs.map fun p => (p.1, p.2.sortKeys) := by
  induction kxs with
  | nil => rfl
  | cons p kxs ih => rw [sortMembers, ih, List.map_cons]

theorem sortMembers_insertionSort (kxs : List (String × Json F)) :
    sortMembers (kxs.insertionSort KeyLE) = (sortMembers kxs).insertionSort KeyLE := by
  rw [sortMembers_eq_map, sortMembers_eq_map]
  exact List.map_insertionSort _ _ _ _ fun _ _ _ _ => Iff.rfl

mutual

theorem sortKeys_sortKeys : ∀ v : Json F, v.sortKeys.sortKeys = v.sortKeys
  | .null | .bool _ | .int _ | .float _ | .str _ => by simp [Json.sortKeys]
  | .arr xs => by simp only [Json.sortKeys]; rw [sortElems_sortElems]
  | .obj kxs => by
    simp only [Json.sortKeys]
    rw [sortMembers_insertionSort, sortMembers_sortMembers]
    rw [(List.pairwise_insertionSort KeyLE _).insertionSort_eq]

theorem sortElems_sortElems : ∀ xs : List (Json F), sortElems (sortElems xs) = sortElems xs
  | [] => rfl
  | x :: xs => by simp only [sortElems]; rw [sortKeys_sortKeys, sortElems_sortElems]

theorem sortMembers_sortMembers :
    ∀ kxs : List (String × Json F), sortMembers (sortMembers kxs) = sortMembers kxs
  | [] => rfl
  | (k, x) :: kxs => by simp only [sortMembers]; rw [sortKeys_sortKeys, sortMembers_sortMembers]

end

theorem wfMembers_iff {kxs : List (String × Json F)} :
    WfMembers kxs ↔ ∀ p ∈ kxs, p.2.Wf := by
  induction kxs with
  | nil => simp [WfMembers]
  | cons p kxs ih => simp [WfMembers, ih]

theorem wfElems_iff {xs : List (Json F)} : WfElems xs ↔ ∀ x ∈ xs, x.Wf := by
  induction xs with
  | nil => simp [WfElems]
  | cons p kxs ih => simp [WfElems, ih]

theorem keys_sortMembers (kxs : List (String × Json F)) :
    Dict.keys (sortMembers kxs) = Dict.keys kxs := by
  simp [sortMembers_eq_map, Dict.keys, Function.comp_def]

mutual

theorem Json.Wf.sortKeys : ∀ {v : Json F}, v.Wf → v.sortKeys.Wf
  | .null, _ | .bool _, _ | .int _, _ | .float _, _ | .str _, _ => by simp [Json.sortKeys, Json.Wf]
  | .arr xs, h => by
    simp only [Json.sortKeys, Json.Wf] at h ⊢
    exact wf_sortElems h
  | .obj kxs, h => by
    simp only [Json.sortKeys, Json.Wf] at h ⊢
    have hperm := List.perm_insertionSort KeyLE (sortMembers kxs)
    refine ⟨(hperm.map Prod.fst).nodup_iff.mpr ?_, ?_⟩
    · rw [← Dict.keys, keys_sortMembers]
      exact h.1
    · rw [wfMembers_iff]
      exact fun p hp => wfMembers_iff.mp (wf_sortMembers h.2) p (hperm.mem_iff.mp hp)

theorem wf_sortElems : ∀ {xs : List (Json F)}, WfElems xs → WfElems (sortElems xs)
  | [], _ => trivial
  | _ :: _, h => ⟨h.1.sortKeys, wf_sortElems h.2⟩

theorem wf_sortMembers :
    ∀ {kxs : List (String × Json F)}, WfMembers kxs → WfMembers (sortMembers kxs)
  | [], _ => trivial
  | (_, _) :: _, h => ⟨h.1.sortKeys, wf_sortMembers h.2⟩

end

theorem wf_getD {kxs : List (String × Json F)} {d : Json F} (h : (Json.obj kxs).Wf) (hd : d.Wf)
    (k : String) : ((Dict.get? kxs k).getD d).Wf := by
  cases hk : Dict.get? kxs k with
  | none => exact hd
  | some v => exact wfMembers_iff.mp h.2 _ (Dict.mem_of_get? hk)

theorem get?_sortKeys {kxs : List (String × Json F)} (hn : (Dict.keys kxs).Nodup) (k : String) :
    Dict.get? ((sortMembers kxs).insertionSort KeyLE) k =
      (Dict.get? kxs k).map Json.sortKeys := by
  rw [← Dict.get?_mapValues, ← sortMembers_eq_map]
  refine (Dict.get?_perm ?_ (List.perm_insertionSort KeyLE _).symm k).symm
  rwa [keys_sortMembers]

theorem get?_of_print [FloatText F] (st : Style) {kxs lxs : List (String × Json F)}
    (hk : (Json.obj kxs).Wf) (hl : (Json.obj lxs).Wf)
    (h : (Json.obj kxs).sortKeys.print st = (Json.obj lxs).sortKeys.print st) (k : String) :
    (Dict.get? kxs k).map Json.sortKeys = (Dict.get? lxs k).map Json.sortKeys := by
  have hobj := print_injective st hk.sortKeys hl.sortKeys h
  simp only [Json.sortKeys, Json.obj.injEq] at hobj
  rw [← get?_sortKeys hk.1, ← get?_sortKeys hl.1, hobj]

mutual

theorem wf_allFinite : ∀ {v : Json (Option F)} {w : Json F}, v.allFinite = some w → v.Wf → w.Wf
  | .null, _, h, _ | .bool _, _, h, _ | .int _, _, h, _ | .str _, _, h, _ => by
    simp only [Json.allFinite, Option.some.injEq] at h
    subst h
    simp [Json.Wf]
  | .float x, _, h, _ => by
    obtain ⟨y, -, rfl⟩ := Option.map_eq_some_iff.mp h
    simp [Json.Wf]
  | .arr xs, _, h, hw => by
    obtain ⟨ys, hy, rfl⟩ := Option.map_eq_some_iff.mp h
    simp only [Json.Wf] at hw ⊢
    exact wf_finiteElems hy hw
  | .obj kxs, _, h, hw => by
    obtain ⟨kys, hy, rfl⟩ := Option.map_eq_some_iff.mp h
    simp only [Json.Wf] at hw ⊢
    obtain ⟨hk, hm⟩ := wf_finiteMembers hy hw.2
    exact ⟨hk ▸ hw.1, hm⟩

theorem wf_finiteElems : ∀ {xs : List (Json (Option F))} {ys : List (Json F)},
    finiteElems xs = some ys → WfElems xs → WfElems ys
  | [], _, h, _ => by cases h; trivial
  | x :: xs, _, h, hw => by
    obtain ⟨y, hy, h⟩ := Option.bind_eq_some_iff.mp h
    obtain ⟨ys, hys, rfl⟩ := Option.map_eq_some_iff.mp h
    exact ⟨wf_allFinite hy hw.1, wf_finiteElems hys hw.2⟩

theorem wf_finiteMembers : ∀ {kxs : List (String × Json (Option F))} {kys : List (String × Json F)},
    finiteMembers kxs = some kys → WfMembers kxs → Dict.keys kys = Dict.keys kxs ∧ WfMembers kys
  | [], _, h, _ => by cases h; exact ⟨rfl, trivial⟩
  | (k, x) :: kxs, _, h, hw => by
    obtain ⟨y, hy, h⟩ := Option.bind_eq_some_iff.mp h
    obtain ⟨kys, hys, rfl⟩ := Option.map_eq_some_iff.mp h
    obtain ⟨hk, hm⟩ := wf_finiteMembers hys hw.2
    exact ⟨congrArg (k :: ·) hk, wf_allFinite hy hw.1, hm⟩

end

end Sorting

section Reading

variable {F : Type}

theorem wf_ofMembers {kxs : List (String × Json F)} (h : WfMembers kxs) :
    (Json.obj (Dict.update [] kxs)).Wf := by
  refine ⟨Dict.nodup_keys_update (by simp [Dict.keys]) kxs, wfMembers_iff.mpr fun p hp => ?_⟩
  rcases Dict.mem_update hp with hp | hp
  · cases hp
  · exact wfMembers_iff.mp h p hp

variable [FloatText F]

theorem wf_reads (n : Nat) :
    (∀ cs (v : Json F) r, Json.read n cs = some (v, r) → v.Wf) ∧
    (∀ cs (xs : List (Json F)) r, readElems n cs = some (xs, r) → WfElems xs) ∧
    (∀ cs k (x : Json F) r, readMember n cs = some (k, x, r) → x.Wf) ∧
    ∀ cs (kxs : List (String × Json F)) r, readMembers n cs = some (kxs, r) → WfMembers kxs := by
  induction n with
  | zero => simp [Json.read, readElems, readMember, readMembers]
  | succ n ih =>
    obtain ⟨hread, helems, hmember, hmembers⟩ := ih
    refine ⟨fun cs v r h => ?_, fun cs xs r h => ?_, fun cs k x r h => ?_, fun cs kxs r h => ?_⟩
    · rw [Json.read] at h
      split at h
      · cases h; trivial
      · cases h; trivial
      · cases h; trivial
      · obtain ⟨⟨s, r'⟩, -, h⟩ := Option.map_eq_some_iff.mp h
        cases h
        trivial
      · split at h
        · cases h; trivial
        · obtain ⟨⟨x, r₁⟩, hx, h⟩ := Option.bind_eq_some_iff.mp h
          obtain ⟨⟨xs, r₂⟩, hxs, h⟩ := Option.bind_eq_some_iff.mp h
          cases h
          exact ⟨hread _ _ _ hx, helems _ _ _ hxs⟩
      · split at h
        · cases h; exact ⟨by simp [Dict.keys], trivial⟩
        · obtain ⟨⟨k, x, r₁⟩, hx, h⟩ := Option.bind_eq_some_iff.mp h
          obtain ⟨⟨kxs, r₂⟩, hkxs, h⟩ := Option.bind_eq_some_iff.mp h
          cases h
          exact wf_ofMembers ⟨hmember _ _ _ _ hx, hmembers _ _ _ hkxs⟩
        · cases h
      · rw [readNumber] at h
        split at h
        · cases h; trivial
        · obtain ⟨x, -, h⟩ := Option.map_eq_some_iff.mp h
          cases h
          trivial
    · rw [readElems] at h
      split at h
      · cases h; trivial
      · obtain ⟨⟨x, r₁⟩, hx, h⟩ := Option.bind_eq_some_iff.mp h
        obtain ⟨⟨xs, r₂⟩, hxs, h⟩ := Option.bind_eq_some_iff.mp h
        cases h
        exact ⟨hread _ _ _ hx, helems _ _ _ hxs⟩
      · cases h
    · rw [readMember] at h
      obtain ⟨⟨k', r₁⟩, -, h⟩ := Option.bind_eq_some_iff.mp h
      dsimp only at h
      split at h
      next r₂ heq =>
        obtain ⟨⟨x, r₃⟩, hx, h⟩ := Option.bind_eq_some_iff.mp h
        cases h
        exact hread _ _ _ hx
      next => cases h
    · rw [readMembers] at h
      split at h
      · cases h; trivial
      · split at h
        · obtain ⟨⟨k, x, r₁⟩, hx, h⟩ := Option.bind_eq_some_iff.mp h
          obtain ⟨⟨kxs, r₂⟩, hkxs, h⟩ := Option.bind_eq_some_iff.mp h
          cases h
          exact ⟨hmember _ _ _ _ hx, hmembers _ _ _ hkxs⟩
        · cases h
      · cases h

theorem wf_loads {s : String} {v : Json F} (h : Json.loads s = some v) : v.Wf := by
  obtain ⟨⟨v', r⟩, hr, h⟩ := Option.bind_eq_some_iff.mp h
  dsimp only at h
  split at h
  · cases h
    exact (wf_reads _).1 _ _ _ hr
  · cases h

end Reading

/-! ## Lists of strings and dicts of strings -/

section Texts

variable {F : Type}

def Json.ofStrings (ss : List String) : Json F := .arr (ss.map .str)

def Json.ofDict (d : Dict String String) : Json F := .obj (d.map fun p => (p.1, .str p.2))

def Json.toStrings : Json F → Option (List String)
  | .arr xs => xs.mapM fun x => match x with
    | .str s => some s
    | _ => none
  | _ => none

def Json.toDict : Json F → Option (Dict String String)
  | .obj kxs => kxs.mapM fun p => match p.2 with
    | .str s => some (p.1, s)
    | _ => none
  | _ => none

theorem toStrings_ofStrings (ss : List String) :
    (Json.ofStrings ss : Json F).toStrings = some ss := by
  induction ss with
  | nil => rfl
  | cons s ss ih =>
    simp only [Json.ofStrings, Json.toStrings, List.map_cons, List.mapM_cons] at ih ⊢
    simp [ih]

theorem wf_ofStrings (ss : List String) : (Json.ofStrings ss : Json F).Wf := by
  rw [Json.ofStrings, Json.Wf]
  induction ss with
  | nil => trivial
  | cons s ss ih => exact ⟨trivial, ih⟩

theorem sortKeys_ofStrings (ss : List String) :
    (Json.ofStrings ss : Json F).sortKeys = .ofStrings ss := by
  rw [Json.ofStrings, Json.sortKeys]
  congr 1
  induction ss with
  | nil => rfl
  | cons s ss ih => rw [List.map_cons, sortElems, ih, Json.sortKeys]

theorem printElems_strings [FloatText F] (ss : List String) :
    printElems .default (ss.map Json.str : List (Json F)) =
      printElems .default (ss.map Json.str : List (Json Empty)) := by
  induction ss with
  | nil => rfl
  | cons s ss ih =>
    simp only [List.map_cons, printElems, ih]
    rfl

theorem print_ofStrings [FloatText F] (ss : List String) :
    (Json.ofStrings ss : Json F).print .default =
    (Json.ofStrings ss : Json Empty).print .default := by
  cases ss with
  | nil => rfl
  | cons s ss =>
    simp only [Json.ofStrings, List.map_cons, Json.print, printElems_strings]

theorem ofStrings_injective {ss ss' : List String}
    (h : (Json.ofStrings ss : Json F) = .ofStrings ss') : ss = ss' := by
  have hto := congrArg Json.toStrings h
  rw [toStrings_ofStrings, toStrings_ofStrings] at hto
  exact Option.some.inj hto

theorem allFinite_ofDict (d : Dict String String) :
    (Json.ofDict d : Json (Option F)).allFinite = some (.ofDict d) := by
  have hmembers : finiteMembers (d.map fun p => (p.1, (.str p.2 : Json (Option F)))) =
      some (d.map fun p => (p.1, .str p.2)) := by
    induction d with
    | nil => rfl
    | cons p d ih => rw [List.map_cons, finiteMembers, Json.allFinite, ih]; rfl
  rw [Json.ofDict, Json.allFinite, hmembers]
  rfl

theorem wf_ofDict {d : Dict String String} (h : d.keys.Nodup) : (Json.ofDict d : Json F).Wf := by
  rw [Json.ofDict, Json.Wf]
  refine ⟨by simpa [Dict.keys, Function.comp_def] using h, ?_⟩
  clear h
  induction d with
  | nil => trivial
  | cons p d ih => exact ⟨trivial, ih⟩

theorem sortKeys_ofDict {d : Dict String String} (hd : d.keys.Nodup) :
    ∃ members, (Json.ofDict d : Json F).sortKeys = .obj members ∧
      ∀ k, Dict.get? members k = (d.get? k).map .str := by
  refine ⟨_, by rw [Json.ofDict, Json.sortKeys], fun k => ?_⟩
  rw [get?_sortKeys (by simpa [Dict.keys, Function.comp_def] using hd), Dict.get?_mapValues]
  cases d.get? k with
  | none => rfl
  | some s => simp [Json.sortKeys]

end Texts

instance : FloatText Int where
  repr n := printInt n ++ ['.', '0']
  parse cs := readInt (cs.take (cs.length - 2))
  parse_repr n := by simp [readInt_printInt]
  numeric n c hc := by
    rcases List.mem_append.mp hc with hc | hc
    · exact numeric_printInt n c hc
    · rcases List.mem_pair.mp hc with rfl | rfl <;> rfl
  ne_nil n := by simp
  marked n := ⟨'.', by simp, .inl rfl⟩

end Library
