import SubagentBridge.Library.Text

/-! Python's lines and blocks of a text, and how a text made of them is taken apart. -/

namespace Library

def isLineBreak (c : Char) : Bool :=
  decide (c.toNat ∈ [10, 11, 12, 13, 28, 29, 30, 0x85, 0x2028, 0x2029])

def splitlinesFrom (word : List Char) : List Char → List (List Char)
  | [] => if word = [] then [] else [word.reverse]
  | '\r' :: '\n' :: cs => word.reverse :: splitlinesFrom [] cs
  | c :: cs =>
    if isLineBreak c then word.reverse :: splitlinesFrom [] cs else splitlinesFrom (c :: word) cs

def splitlines (s : List Char) : List (List Char) := splitlinesFrom [] s

def universalNewlines : List Char → List Char
  | [] => []
  | '\r' :: '\n' :: cs => '\n' :: universalNewlines cs
  | c :: cs => (if c = '\r' then '\n' else c) :: universalNewlines cs

attribute [grind =] splitlinesFrom universalNewlines

theorem universalNewlines_of_not_mem {cs : List Char} (h : '\r' ∉ cs) :
    universalNewlines cs = cs := by
  induction cs using universalNewlines.induct with
  | case1 => rfl
  | case2 cs ih => simp at h
  | case3 c cs hno ih =>
    rw [List.mem_cons, not_or] at h
    rw [universalNewlines.eq_3 c cs hno, if_neg (Ne.symm h.1), ih h.2]

/-! ## Lines -/

def Unbroken (line : List Char) : Prop := ∀ c ∈ line, isLineBreak c = false

instance (line : List Char) : Decidable (Unbroken line) :=
  inferInstanceAs (Decidable (∀ c ∈ line, isLineBreak c = false))

theorem splitlinesFrom_append {line : List Char} (h : Unbroken line) (word rest : List Char) :
    splitlinesFrom word (line ++ rest) = splitlinesFrom (line.reverse ++ word) rest := by
  induction line generalizing word with
  | nil => rfl
  | cons c line ih =>
    have hc := h c List.mem_cons_self
    have hcr : ∀ cs, c = '\r' → line ++ rest = '\n' :: cs → False := by
      rintro cs rfl -
      cases hc
    rw [List.cons_append, splitlinesFrom.eq_3 word c (line ++ rest) hcr, if_neg (by simp [hc]),
      ih fun d hd => h d (List.mem_cons_of_mem c hd)]
    simp

theorem splitlines_cons {line : List Char} (h : Unbroken line) (rest : List Char) :
    splitlines (line ++ '\n' :: rest) = line :: splitlines rest := by
  rw [splitlines, splitlinesFrom_append h, List.append_nil]
  simp [splitlinesFrom, splitlines, isLineBreak]

theorem splitlines_singleton {line : List Char} (h : Unbroken line) (hne : line ≠ []) :
    splitlines line = [line] := by
  have := splitlinesFrom_append h [] []
  rw [List.append_nil] at this
  rw [splitlines, this]
  simp [splitlinesFrom, hne]

theorem splitlines_intercalate {lines : List (List Char)}
    (h : ∀ line ∈ lines, line ≠ [] ∧ Unbroken line) :
    splitlines (List.intercalate ['\n'] lines) = lines := by
  induction lines with
  | nil => rfl
  | cons line lines ih =>
    obtain ⟨hne, hline⟩ := h line List.mem_cons_self
    cases lines with
    | nil =>
      rw [List.intercalate_singleton]
      exact splitlines_singleton hline hne
    | cons line' lines =>
      rw [List.intercalate_cons_cons, List.append_assoc, List.singleton_append,
        splitlines_cons hline, ih fun line' hmem => h line' (List.mem_cons_of_mem line hmem)]

/-! ## Blocks -/

def Uncut (sep block : List Char) : Prop :=
  ∀ tail, tail <:+ block → tail ≠ [] → ¬sep <+: tail ∧ ¬tail <+: sep

theorem splitText_skip (sep skipped word rest : List Char) :
    splitText sep skipped.length word (skipped ++ rest) = splitText sep 0 word rest := by
  induction skipped with
  | nil => rfl
  | cons c skipped ih => exact ih

theorem splitText_sep {sep : List Char} (hsep : sep ≠ []) (word rest : List Char) :
    splitText sep 0 word (sep ++ rest) = word.reverse :: splitText sep 0 [] rest := by
  cases sep with
  | nil => exact absurd rfl hsep
  | cons c sep =>
    have hprefix : (c :: sep).isPrefixOf (c :: (sep ++ rest)) = true :=
      List.isPrefixOf_iff_prefix.mpr (List.prefix_append (c :: sep) rest)
    rw [List.cons_append, splitText, if_pos hprefix]
    exact congrArg _ (splitText_skip (c :: sep) sep [] rest)

theorem splitText_append {sep block : List Char} (h : Uncut sep block) (word rest : List Char) :
    splitText sep 0 word (block ++ rest) = splitText sep 0 (block.reverse ++ word) rest := by
  induction block generalizing word with
  | nil => rfl
  | cons c block ih =>
    have hcut : ¬sep.isPrefixOf (c :: (block ++ rest)) := by
      rw [List.isPrefixOf_iff_prefix]
      intro hprefix
      obtain ⟨hsep, htail⟩ := h (c :: block) List.suffix_rfl (by simp)
      rcases List.prefix_or_prefix_of_prefix hprefix
        (List.prefix_append (c :: block) rest) with h | h
      · exact hsep h
      · exact htail h
    rw [List.cons_append, splitText, if_neg hcut,
      ih fun tail htail => h tail (htail.trans (List.suffix_cons c block))]
    simp

theorem splitText_intercalate {sep : List Char} (hsep : sep ≠ []) {blocks : List (List Char)}
    (hne : blocks ≠ []) (h : ∀ block ∈ blocks, Uncut sep block) :
    splitText sep 0 [] (List.intercalate sep blocks) = blocks := by
  induction blocks with
  | nil => exact absurd rfl hne
  | cons block blocks ih =>
    have hblock := h block List.mem_cons_self
    cases blocks with
    | nil =>
      have hsplit := splitText_append hblock [] []
      rw [List.append_nil] at hsplit
      rw [List.intercalate_singleton, hsplit]
      simp [splitText]
    | cons block' blocks =>
      rw [List.intercalate_cons_cons, List.append_assoc, splitText_append hblock,
        splitText_sep hsep,
        ih (by simp) fun block' hmem => h block' (List.mem_cons_of_mem block hmem)]
      simp

theorem uncut_cons {sep block : List Char} {c : Char} : Uncut sep (c :: block) ↔
    (¬sep <+: c :: block ∧ ¬c :: block <+: sep) ∧ Uncut sep block := by
  simp only [Uncut, List.suffix_cons_iff]
  constructor
  · intro h
    exact ⟨h _ (.inl rfl) (by simp), fun tail htail => h tail (.inr htail)⟩
  · rintro ⟨hhead, hblock⟩ tail (rfl | htail) hne
    · exact hhead
    · exact hblock tail htail hne

theorem uncut_intercalate {lines : List (List Char)}
    (h : ∀ line ∈ lines, line ≠ [] ∧ '\n' ∉ line) :
    Uncut ['\n', '\n'] (List.intercalate ['\n'] lines) := by
  have hline {line rest : List Char} (hline : '\n' ∉ line) (hrest : Uncut ['\n', '\n'] rest) :
      Uncut ['\n', '\n'] (line ++ rest) := by
    induction line with
    | nil => exact hrest
    | cons c line ih =>
      rw [List.mem_cons, not_or] at hline
      refine uncut_cons.mpr ⟨?_, ih hline.2⟩
      simp [hline.1, Ne.symm hline.1]
  have hnil : Uncut ['\n', '\n'] [] := by
    intro tail htail hne
    exact absurd (List.suffix_nil.mp htail) hne
  induction lines with
  | nil => exact hnil
  | cons line lines ih =>
    obtain ⟨-, hbreak⟩ := h line List.mem_cons_self
    have hlines := fun line' hmem => h line' (List.mem_cons_of_mem line hmem)
    cases lines with
    | nil => simpa using hline hbreak hnil
    | cons line' lines =>
      rw [List.intercalate_cons_cons, List.append_assoc]
      refine hline hbreak (uncut_cons.mpr ⟨?_, ih hlines⟩)
      obtain ⟨hne, hbreak'⟩ := hlines line' List.mem_cons_self
      cases line' with
      | nil => exact absurd rfl hne
      | cons d line' =>
        rw [List.mem_cons, not_or] at hbreak'
        cases lines with
        | nil => simp [hbreak'.1, Ne.symm hbreak'.1]
        | cons _ _ => simp [List.intercalate_cons_cons, hbreak'.1, Ne.symm hbreak'.1]

/-! ## Words in a text -/

theorem occursIn_nil {sub : List Char} (h : sub ≠ []) : occursIn sub [] = false := by
  simpa [occursIn] using h

theorem occursIn_append_cons {sub : List Char} {c : Char} (hne : sub ≠ []) (hc : c ∉ sub)
    (xs ys : List Char) :
    occursIn sub (xs ++ c :: ys) = (occursIn sub xs || occursIn sub ys) := by
  have hprefix (xs : List Char) : sub.isPrefixOf (xs ++ c :: ys) = sub.isPrefixOf xs := by
    rw [Bool.eq_iff_iff, List.isPrefixOf_iff_prefix, List.isPrefixOf_iff_prefix]
    refine ⟨fun h => ?_, fun h => h.trans (List.prefix_append _ _)⟩
    rcases List.prefix_or_prefix_of_prefix h (List.prefix_append xs (c :: ys)) with h' | ⟨t, rfl⟩
    · exact h'
    · rw [List.prefix_append_right_inj] at h
      cases t with
      | nil => simp
      | cons d t =>
        obtain ⟨rfl, -⟩ := List.cons_prefix_cons.mp h
        simp at hc
  induction xs with
  | nil =>
    have hhead := hprefix []
    rw [List.nil_append] at hhead ⊢
    rw [occursIn.eq_2, hhead, occursIn_nil hne, Bool.false_or]
    cases sub with
    | nil => exact absurd rfl hne
    | cons => rfl
  | cons x xs ih =>
    have hhead := hprefix (x :: xs)
    rw [List.cons_append] at hhead ⊢
    rw [occursIn, hhead, ih, occursIn, Bool.or_assoc]

theorem occursIn_intercalate {sub : List Char} {c : Char} (hne : sub ≠ []) (hc : c ∉ sub)
    (lines : List (List Char)) :
    occursIn sub (List.intercalate [c] lines) = lines.any (occursIn sub) := by
  induction lines with
  | nil => exact occursIn_nil hne
  | cons line lines ih =>
    cases lines with
    | nil => simp
    | cons line' lines =>
      rw [List.intercalate_cons_cons, List.append_assoc, List.singleton_append,
        occursIn_append_cons hne hc, ih]
      rfl

theorem flatMap_append_eq (sep : List Char) {xs : List (List Char)} (h : xs ≠ []) :
    xs.flatMap (fun x => x ++ sep) = List.intercalate sep xs ++ sep := by
  induction xs with
  | nil => exact absurd rfl h
  | cons x xs ih =>
    cases xs with
    | nil => simp
    | cons x' xs =>
      rw [List.flatMap_cons, ih (by simp), List.intercalate_cons_cons, List.append_assoc,
        List.append_assoc, List.append_assoc]

end Library
