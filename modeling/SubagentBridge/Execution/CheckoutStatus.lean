import SubagentBridge.Execution.Checkout
import Mathlib.Data.List.Induction

/-! The paths of `git status --porcelain`, as git prints them and as `check_clean_checkout` reads
them. -/

namespace SubagentBridge.Execution

open Library

/-- A name that git allows: bytes, each written as the character of its number. -/
structure FileName where
  bytes : List Char
  nonempty : bytes ≠ []
  allowed : ∀ c ∈ bytes, 0 < c.toNat ∧ c.toNat < 256 ∧ c ≠ '/'
  proper : bytes ≠ ['.'] ∧ bytes ≠ ['.', '.']

/-- A changed path; an untracked directory is reported as a whole, with a slash at its end. -/
structure ChangedPath where
  parents : List FileName
  name : FileName
  isDirectory : Bool

namespace ChangedPath

variable (p : ChangedPath)

def components : List FileName := p.parents ++ [p.name]

def directories : List FileName := if p.isDirectory then p.components else p.parents

def bytes : List Char :=
  p.parents.flatMap (fun d => d.bytes ++ ['/']) ++ p.name.bytes ++
    if p.isDirectory then ['/'] else []

def IsArtifact : Prop :=
  String.ofList p.name.bytes ∈ allowedRuntimeFilenames ∨
    ∃ d ∈ p.directories, String.ofList d.bytes ∈ allowedRuntimeDirs

end ChangedPath

inductive StatusLetter
  | unmodified | modified | typeChanged | added | deleted | renamed | copied | unmerged
  | untracked | ignored

def StatusLetter.toChar : StatusLetter → Char
  | unmodified => ' '
  | modified => 'M'
  | typeChanged => 'T'
  | added => 'A'
  | deleted => 'D'
  | renamed => 'R'
  | copied => 'C'
  | unmerged => 'U'
  | untracked => '?'
  | ignored => '!'

/-- One entry of the status; what was renamed or copied has a source. -/
structure StatusEntry where
  index : StatusLetter
  worktree : StatusLetter
  source : Option ChangedPath
  path : ChangedPath

def StatusEntry.paths (e : StatusEntry) : List ChangedPath := e.source.toList ++ [e.path]

def octalDigit (n : Nat) : Char := Char.ofNat (48 + n % 8)

/-- git's C-style quoting of a byte, with `core.quotePath` as it is by default. -/
def escape (c : Char) : List Char :=
  match c.toNat with
  | 7 => ['\\', 'a']
  | 8 => ['\\', 'b']
  | 9 => ['\\', 't']
  | 10 => ['\\', 'n']
  | 11 => ['\\', 'v']
  | 12 => ['\\', 'f']
  | 13 => ['\\', 'r']
  | 34 => ['\\', '"']
  | 92 => ['\\', '\\']
  | n =>
    if n < 32 ∨ 127 ≤ n then ['\\', octalDigit (n / 64), octalDigit (n / 8), octalDigit n] else [c]

def quoted (cs : List Char) : List Char := '"' :: (cs ++ ['"'])

/-- A path is put in quotes when a byte of it is escaped or a space. -/
def quotePath (bytes : List Char) : List Char :=
  if bytes.any (fun c => c = ' ' || escape c ≠ [c]) then quoted (bytes.flatMap escape) else bytes

def arrow : List Char := [' ', '-', '>', ' ']

def statusLine (e : StatusEntry) : String :=
  let renamed := match e.source with
    | some source => quotePath source.bytes ++ arrow
    | none => []
  .ofList (e.index.toChar :: e.worktree.toChar :: ' ' :: (renamed ++ quotePath e.path.bytes))

example : (quotePath "a b".toList, quotePath "é\\\t".toList) =
    ("\"a b\"".toList, "\"\\351\\\\\\t\"".toList) := by
  decide

/-! ### Cutting a text at arrows -/

def glue (u : List Char) : List (List Char) → List (List Char)
  | [] => [u]
  | w :: ws => (u ++ w) :: ws

@[simp] theorem glue_cons (u w : List Char) (ws : List (List Char)) :
    glue u (w :: ws) = (u ++ w) :: ws := rfl

@[simp] theorem glue_nil (ws : List (List Char)) (h : ws ≠ []) : glue [] ws = ws := by
  cases ws with
  | nil => exact absurd rfl h
  | cons w ws => rfl

theorem glue_glue (u v : List Char) (ws : List (List Char)) :
    glue u (glue v ws) = glue (u ++ v) ws := by
  cases ws with
  | nil => rfl
  | cons w ws => simp

theorem map_glue (f : List Char → List Char) (hf : ∀ u v, f (u ++ v) = f u ++ f v) (u : List Char)
    (ws : List (List Char)) : (glue u ws).map f = glue (f u) (ws.map f) := by
  cases ws with
  | nil => rfl
  | cons w ws => simp [hf]

def cutArrows : List Char → List (List Char)
  | ' ' :: '-' :: '>' :: ' ' :: cs => [] :: cutArrows cs
  | c :: cs => glue [c] (cutArrows cs)
  | [] => [[]]

attribute [grind =] cutArrows

theorem cutArrows_ne_nil (cs : List Char) : cutArrows cs ≠ [] := by
  induction cs using cutArrows.induct with
  | case1 cs ih => simp [cutArrows]
  | case2 c cs hno ih =>
    rw [cutArrows.eq_2 c cs hno]
    cases h : cutArrows cs with
    | nil => exact absurd h ih
    | cons w ws => simp
  | case3 => simp [cutArrows]

theorem cutArrows_arrow (cs : List Char) : cutArrows (arrow ++ cs) = [] :: cutArrows cs := by
  simp [arrow, cutArrows]

theorem cutArrows_cons {c : Char} {cs : List Char}
    (hno : ∀ cs', c = ' ' → cs ≠ '-' :: '>' :: ' ' :: cs') :
    cutArrows (c :: cs) = glue [c] (cutArrows cs) :=
  cutArrows.eq_2 c cs fun cs' hc hcs => hno cs' hc hcs

theorem cutArrows_append {u : List Char} (h : ' ' ∉ u) (cs : List Char) :
    cutArrows (u ++ cs) = glue u (cutArrows cs) := by
  induction u with
  | nil => simp [cutArrows_ne_nil]
  | cons c u ih =>
    have hc : c ≠ ' ' := fun hc => h (by simp [hc])
    rw [List.cons_append, cutArrows_cons fun _ hspace => absurd hspace hc,
      ih fun hu => h (List.mem_cons_of_mem _ hu), glue_glue]
    rfl

theorem cutArrows_whole {cs : List Char} (h : ' ' ∉ cs) : cutArrows cs = [cs] := by
  have hcut := cutArrows_append h []
  simpa [cutArrows] using hcut

def glueEnd (v : List Char) : List (List Char) → List (List Char)
  | [] => [v]
  | [w] => [w ++ v]
  | w :: ws => w :: glueEnd v ws

theorem glueEnd_cons (v w : List Char) {ws : List (List Char)} (h : ws ≠ []) :
    glueEnd v (w :: ws) = w :: glueEnd v ws := by
  cases ws with
  | nil => exact absurd rfl h
  | cons w' ws => rfl

theorem glueEnd_eq (v : List Char) {ws : List (List Char)} (h : ws ≠ []) :
    glueEnd v ws = ws.dropLast ++ [ws.getLast h ++ v] := by
  induction ws with
  | nil => exact absurd rfl h
  | cons w ws ih =>
    by_cases hws : ws = []
    · subst hws
      rfl
    · rw [glueEnd_cons v w hws, ih hws, List.dropLast_cons_of_ne_nil hws, List.getLast_cons hws]
      rfl

theorem glue_glueEnd (u v : List Char) {ws : List (List Char)} (h : ws ≠ []) :
    glue u (glueEnd v ws) = glueEnd v (glue u ws) := by
  match ws with
  | [] => exact absurd rfl h
  | [w] => simp [glueEnd]
  | w :: w' :: ws => rfl

theorem cutArrows_append_end {v : List Char} (hv : ' ' ∉ v) (u : List Char) :
    cutArrows (u ++ v) = glueEnd v (cutArrows u) := by
  induction u using cutArrows.induct with
  | case1 u ih =>
    rw [cutArrows, glueEnd_cons v [] (cutArrows_ne_nil u), ← ih]
    rfl
  | case2 c u hno ih =>
    have hno' : ∀ cs', c = ' ' → u ++ v ≠ '-' :: '>' :: ' ' :: cs' := by
      intro cs' hc hcs
      match u with
      | [] | [_] | [_, _] =>
        refine hv ?_
        simp only [List.nil_append, List.cons_append, List.cons.injEq] at hcs
        simp [hcs]
      | a :: b :: d :: u =>
        simp only [List.cons_append, List.cons.injEq] at hcs
        obtain ⟨rfl, rfl, rfl, -⟩ := hcs
        exact hno u hc rfl
    rw [List.cons_append, cutArrows_cons hno', ih, cutArrows.eq_2 c u hno,
      glue_glueEnd _ _ (cutArrows_ne_nil u)]
  | case3 => exact cutArrows_whole hv

theorem cutArrows_arrow_append {u : List Char} (h : ¬[' ', '-', '>'] <:+ u) (v : List Char) :
    cutArrows (u ++ arrow ++ v) = cutArrows u ++ cutArrows v := by
  induction u using cutArrows.induct with
  | case1 u ih =>
    have h' : ¬[' ', '-', '>'] <:+ u := fun hu => h (hu.trans (List.suffix_append arrow u))
    simp only [List.cons_append, cutArrows, ih h']
  | case2 c u hno ih =>
    have h' : ¬[' ', '-', '>'] <:+ u := fun hu => h (hu.trans (List.suffix_cons c u))
    have hno' : ∀ cs', c = ' ' → u ++ arrow ++ v ≠ '-' :: '>' :: ' ' :: cs' := by
      intro cs' hc hcs
      match u with
      | [] => simp [arrow] at hcs
      | [a] => simp [arrow] at hcs
      | [a, b] =>
        simp only [List.cons_append, List.nil_append, List.cons.injEq] at hcs
        obtain ⟨rfl, rfl, -⟩ := hcs
        exact h (hc ▸ List.suffix_refl _)
      | a :: b :: d :: u =>
        simp only [List.cons_append, List.cons.injEq] at hcs
        obtain ⟨rfl, rfl, rfl, -⟩ := hcs
        exact hno u hc rfl
    rw [List.cons_append, List.cons_append, cutArrows_cons hno', ih h', cutArrows_cons
      fun cs' hc hcs => hno cs' hc hcs]
    cases hu : cutArrows u with
    | nil => exact absurd hu (cutArrows_ne_nil u)
    | cons w ws => rfl
  | case3 => exact cutArrows_arrow v

theorem cutArrows_map {f : Char → Char} (hf : ∀ c d, d ∈ arrow → (f c = d ↔ c = d))
    (cs : List Char) :
    cutArrows (cs.map f) = (cutArrows cs).map (List.map f) := by
  have hspace : f ' ' = ' ' := (hf _ _ (by simp [arrow])).mpr rfl
  have hdash : f '-' = '-' := (hf _ _ (by simp [arrow])).mpr rfl
  have hhead : f '>' = '>' := (hf _ _ (by simp [arrow])).mpr rfl
  induction cs using cutArrows.induct with
  | case1 cs ih => simp [cutArrows, hspace, hdash, hhead, ih]
  | case2 c cs hno ih =>
    have hno' : ∀ cs', f c = ' ' → cs.map f ≠ '-' :: '>' :: ' ' :: cs' := by
      intro cs' hc hcs
      match cs with
      | [] | [_] | [_, _] => simp at hcs
      | a :: b :: d :: cs =>
        simp only [List.map_cons, List.cons.injEq] at hcs
        obtain ⟨ha, hb, hd, -⟩ := hcs
        rw [hf _ _ (by simp [arrow])] at hc ha hb hd
        subst ha hb hd
        exact hno cs hc rfl
    rw [List.map_cons, cutArrows_cons hno', ih, cutArrows.eq_2 c cs hno,
      map_glue _ (fun u v => List.map_append)]
    rfl
  | case3 => rfl

theorem splitText_arrow (word cs : List Char) :
    splitText arrow 0 word cs = glue word.reverse (cutArrows cs) := by
  induction cs using cutArrows.induct generalizing word with
  | case1 cs ih =>
    have hcut : splitText arrow 0 word (' ' :: '-' :: '>' :: ' ' :: cs) =
        word.reverse :: splitText arrow 0 [] cs := by simp [splitText, arrow]
    rw [hcut, ih]
    simp [cutArrows, cutArrows_ne_nil]
  | case2 c cs hno ih =>
    have hprefixed : arrow.isPrefixOf (c :: cs) = false := by
      rw [Bool.eq_false_iff, ne_eq, List.isPrefixOf_iff_prefix]
      intro ⟨cs', hcs⟩
      obtain ⟨hc, hcs⟩ := List.cons.inj hcs
      exact hno cs' hc.symm hcs.symm
    rw [splitText, if_neg (by simp [hprefixed]), ih, cutArrows.eq_2 c cs hno, glue_glue]
    simp
  | case3 => simp [splitText, cutArrows]

/-! ### The paths as they are read -/

def slashed (c : Char) : Char := if c = '\\' then '/' else c

def reading (bytes : List Char) : List Char := (bytes.flatMap escape).map slashed

/-- A text that is an artifact of the runtime when it is taken for a path. -/
def Shows (text : List Char) : Prop :=
  (∃ name ∈ (PurePath.ofString (.ofList text)).parts.getLast?, name ∈ allowedRuntimeFilenames) ∨
    ∃ part ∈ (PurePath.ofString (.ofList text)).parts, part ∈ allowedRuntimeDirs

/-- What `str.strip` leaves. -/
def trim (cs : List Char) : List Char := ((cs.dropWhile isSpace).reverse.dropWhile isSpace).reverse

namespace ChangedPath

variable (p : ChangedPath)

def HasEscape : Prop := ∃ c ∈ p.bytes, escape c ≠ [c]

def HasArrow : Prop := cutArrows p.bytes ≠ [p.bytes]

def NamedLikeCache : Prop := p.isDirectory = false ∧ String.ofList p.name.bytes ∈ allowedRuntimeDirs

/-- With a slash for every backslash of an escape, and cut at every arrow, the path is an artifact
of the runtime in each piece that is not blank. -/
def ReadsAsArtifact : Prop :=
  ∀ piece ∈ cutArrows (quoted (reading p.bytes)), trim piece = [] ∨ Shows (unquote (trim piece))

end ChangedPath

/-! ### What the bytes of a path tell -/

def trimLeft (bytes : List Char) : List Char := bytes.dropWhile (· = ' ')

def trimRight (bytes : List Char) : List Char := (bytes.reverse.dropWhile (· = ' ')).reverse

/-- What stands between the slashes of a path, when an escaped byte is a slash too, with the
letters that git has for the byte after it. -/
def fragments (bytes : List Char) : List (List Char) := splitOn '/' (reading bytes)

/-- The last fragment is an allowed file name, or one of them an allowed directory name. -/
def TellsOf (fragments : List (List Char)) : Prop :=
  (∃ f ∈ (fragments.filter fun f => f ≠ [] ∧ f ≠ ['.']).getLast?,
    String.ofList f ∈ allowedRuntimeFilenames) ∨
      ∃ f ∈ fragments, String.ofList f ∈ allowedRuntimeDirs

/-- Before the first arrow of a path. The quote that git begins with belongs to the first fragment,
unless a quote of the path's own is there to be taken for the one that ends it. -/
def opening (bytes : List Char) : List (List Char) :=
  if (trimRight bytes).getLast? = some '"' then fragments (trimRight bytes).dropLast
  else splitOn '/' ('"' :: reading (trimRight bytes))

def closing (bytes : List Char) : List (List Char) :=
  splitOn '/' (reading (trimLeft bytes) ++ ['"'])

/-- What stands between two arrows tells of an artifact, or is blank. -/
def TellsBetween (bytes : List Char) : Prop :=
  trimRight (trimLeft bytes) = [] ∨ TellsOf (fragments (trimRight (trimLeft bytes)))

namespace ChangedPath

variable (p : ChangedPath)

/-- The bytes of the path tell of an artifact, on each side of every arrow. -/
def Tells : Prop :=
  match cutArrows p.bytes with
  | [] => False
  | [whole] => TellsOf (fragments whole)
  | first :: next :: rest => TellsOf (opening first) ∧
      (∀ s ∈ (next :: rest).dropLast, TellsBetween s) ∧
        TellsOf (closing ((next :: rest).getLast (List.cons_ne_nil _ _)))

/-- The bytes tell of an artifact that the path is not. -/
structure Disguised : Prop where
  tells : p.Tells
  foreign : ¬p.IsArtifact

end ChangedPath

/-! ### What git prints -/

theorem escape_cases (c : Char) :
    escape c = [c] ∧ c ≠ '"' ∧ c ≠ '\\' ∧ 32 ≤ c.toNat ∧ c.toNat < 127 ∨
      ∃ body, escape c = '\\' :: body ∧ ∀ d ∈ body, 32 < d.toNat ∧ d.toNat < 127 := by
  have hdigit : ∀ n, 32 < (octalDigit n).toNat ∧ (octalDigit n).toNat < 127 := by
    intro n
    have hn : n % 8 < 8 := Nat.mod_lt n (by decide)
    have hall : ∀ m < 8, 32 < (Char.ofNat (48 + m)).toNat ∧ (Char.ofNat (48 + m)).toNat < 127 := by
      decide
    exact hall _ hn
  unfold escape
  split
  case h_10 n hn =>
    split
    next => exact .inr ⟨_, rfl, by simp [hdigit]⟩
    next hplain =>
      refine .inl ⟨rfl, ?_, ?_, by omega, by omega⟩
      · intro hc
        simp [hc] at *
      · intro hc
        simp [hc] at *
  all_goals exact .inr ⟨_, rfl, by decide⟩

theorem isSpace_visible {c : Char} (h : 32 < c.toNat ∧ c.toNat < 127) : isSpace c = false := by
  simp only [isSpace, decide_eq_false_iff_not]
  omega

theorem quotePath_cases (bytes : List Char) :
    quotePath bytes = bytes ∧ (∀ c ∈ bytes, escape c = [c] ∧ c ≠ ' ') ∨
      quotePath bytes = quoted (bytes.flatMap escape) := by
  unfold quotePath
  split
  next => exact .inr rfl
  next h =>
    refine .inl ⟨rfl, fun c hc => ?_⟩
    simp only [Bool.not_eq_true, List.any_eq_false, Bool.or_eq_true, decide_eq_true_eq, not_or,
      ne_eq, not_not] at h
    exact ⟨(h c hc).2, (h c hc).1⟩

theorem visible_plain {c : Char} (h : escape c = [c] ∧ c ≠ ' ') : 32 < c.toNat ∧ c.toNat < 127 := by
  obtain ⟨hc, hspace⟩ := h
  rcases escape_cases c with ⟨-, -, -, hle, hlt⟩ | ⟨body, hbody, hvisible⟩
  · have hne : c.toNat ≠ 32 := fun hn => hspace (Char.toNat_inj.mp hn)
    omega
  · rw [hc] at hbody
    obtain ⟨rfl, -⟩ := List.cons.inj hbody
    decide

/-- A text with something visible at both ends. -/
def Solid (cs : List Char) : Prop :=
  (∃ c t, cs = c :: t ∧ isSpace c = false) ∧ ∃ t c, cs = t ++ [c] ∧ isSpace c = false

theorem Solid.trim {cs : List Char} (h : Solid cs) : trim cs = cs := by
  obtain ⟨⟨c, t, hhead, hc⟩, t', d, hlast, hd⟩ := h
  have hdrop : cs.dropWhile isSpace = cs := by
    rw [hhead, List.dropWhile_cons_of_neg (by simp [hc])]
  rw [SubagentBridge.Execution.trim, hdrop, hlast, List.reverse_append]
  simp [hd]

theorem solid_quotePath {bytes : List Char} (hne : bytes ≠ []) : Solid (quotePath bytes) := by
  rcases quotePath_cases bytes with ⟨hquote, hplain⟩ | hquote
  · rw [hquote]
    constructor
    · cases bytes with
      | nil => exact absurd rfl hne
      | cons c t => exact ⟨c, t, rfl, isSpace_visible (visible_plain (hplain c (by simp)))⟩
    · obtain ⟨t, c, rfl⟩ := List.eq_nil_or_concat' bytes |>.resolve_left hne
      exact ⟨t, c, rfl, isSpace_visible (visible_plain (hplain c (by simp)))⟩
  · rw [hquote]
    exact ⟨⟨'"', _, rfl, by decide⟩, '"' :: bytes.flatMap escape, '"', by simp [quoted], by decide⟩

theorem not_suffix_quotePath (bytes : List Char) : ¬[' ', '-', '>'] <:+ quotePath bytes := by
  intro hsuffix
  rcases quotePath_cases bytes with ⟨hquote, hplain⟩ | hquote
  · rw [hquote] at hsuffix
    exact (hplain ' ' (hsuffix.mem (by simp))).2 rfl
  · rw [hquote] at hsuffix
    obtain ⟨t, ht⟩ := hsuffix
    have ht : (t ++ [' ', '-']) ++ ['>'] = ('"' :: bytes.flatMap escape) ++ ['"'] := by
      simpa [quoted] using ht
    exact absurd (List.append_inj' ht rfl).2 (by decide)

/-! ### What the check reads -/

def passes (piece : List Char) : Bool :=
  trim piece = [] || allowedRuntimePath (.ofList (trim piece))

theorem isIgnored_body {x y : Char} {body : List Char} (h : Solid body) :
    isIgnoredCheckoutStatusLine (.ofList (x :: y :: ' ' :: body)) =
      (cutArrows body).all passes := by
  have hstrip : strip (.ofList body) = .ofList body := by
    rw [strip, String.toList_ofList]
    exact congrArg String.ofList h.trim
  obtain ⟨c, t, rfl, hc⟩ := h.1
  have hblank : isBlank (.ofList (x :: y :: ' ' :: c :: t)) = false := by simp [isBlank, hc]
  have hne : String.ofList (c :: t) ≠ "" := by simp
  have hpieces : splitText " -> ".toList 0 [] (c :: t) = cutArrows (c :: t) := by
    rw [show " -> ".toList = arrow from rfl, splitText_arrow]
    simp [cutArrows_ne_nil]
  unfold isIgnoredCheckoutStatusLine
  rw [if_neg (ne_true_of_eq_false hblank), if_neg (by rw [String.length_ofList]; simp)]
  simp only [String.toList_ofList, List.drop_succ_cons, List.drop_zero, hstrip, if_neg hne, hpieces,
    List.all_map]
  apply congrArg (cutArrows (c :: t)).all
  funext piece
  simp [passes, strip, trim]

theorem ChangedPath.bytes_ne_nil (p : ChangedPath) : p.bytes ≠ [] := by
  simp [ChangedPath.bytes, p.name.nonempty]

theorem isIgnored_statusLine (e : StatusEntry) :
    isIgnoredCheckoutStatusLine (statusLine e) = true ↔
      ∀ p ∈ e.paths, ∀ piece ∈ cutArrows (quotePath p.bytes), passes piece = true := by
  have hpath := solid_quotePath e.path.bytes_ne_nil
  unfold statusLine StatusEntry.paths
  cases e.source with
  | none =>
    show isIgnoredCheckoutStatusLine (.ofList (_ :: _ :: ' ' :: quotePath e.path.bytes)) = true ↔ _
    rw [isIgnored_body hpath]
    simp
  | some source =>
    have hsource := solid_quotePath source.bytes_ne_nil
    have hsolid : Solid (quotePath source.bytes ++ arrow ++ quotePath e.path.bytes) := by
      obtain ⟨c, t, ht, hc⟩ := hsource.1
      obtain ⟨t', d, ht', hd⟩ := hpath.2
      exact ⟨⟨c, t ++ arrow ++ quotePath e.path.bytes, by simp [ht], hc⟩,
        quotePath source.bytes ++ arrow ++ t', d, by simp [ht'], hd⟩
    show isIgnoredCheckoutStatusLine
      (.ofList (_ :: _ :: ' ' :: (quotePath source.bytes ++ arrow ++ quotePath e.path.bytes))) =
        true ↔ _
    rw [isIgnored_body hsolid, cutArrows_arrow_append (not_suffix_quotePath _)]
    simp [or_imp, forall_and]

theorem isSpace_slashed (c : Char) : isSpace (slashed c) = isSpace c := by
  unfold slashed
  split
  next h =>
    rw [h]
    decide
  next => rfl

theorem dropWhile_slashed (cs : List Char) :
    (cs.map slashed).dropWhile isSpace = (cs.dropWhile isSpace).map slashed := by
  rw [List.dropWhile_map]
  congr 2
  funext c
  exact isSpace_slashed c

theorem trim_slashed (cs : List Char) : trim (cs.map slashed) = (trim cs).map slashed := by
  rw [trim, trim, dropWhile_slashed, ← List.map_reverse, dropWhile_slashed, List.map_reverse]

theorem slashed_eq_iff {c d : Char} (hd : d ≠ '/' ∧ d ≠ '\\') : slashed c = d ↔ c = d := by
  unfold slashed
  split
  next h =>
    rw [h]
    exact ⟨fun hslash => absurd hslash.symm hd.1, fun hback => absurd hback.symm hd.2⟩
  next => rfl

theorem unquote_slashed (cs : List Char) : unquote (cs.map slashed) = (unquote cs).map slashed := by
  have hquote : ∀ o : Option Char, o.map slashed = some '"' ↔ o = some '"' := by
    intro o
    cases o with
    | none => simp
    | some c => simpa using slashed_eq_iff (by decide)
  unfold unquote
  simp only [List.head?_map, List.getLast?_map, hquote]
  split
  next => rw [← List.map_tail, List.map_dropLast]
  next => rfl

theorem passes_iff (piece : List Char) :
    passes piece = true ↔
      trim (piece.map slashed) = [] ∨ Shows (unquote (trim (piece.map slashed))) := by
  have hallowed : ∀ cs,
      allowedRuntimePath (.ofList cs) = true ↔ Shows ((unquote cs).map slashed) := by
    intro cs
    have hslashed : (fun c => if c = '\\' then '/' else c) = slashed := rfl
    simp [allowedRuntimePath, Shows, hslashed, Option.any_eq_true]
  rw [trim_slashed, unquote_slashed, ← hallowed]
  simp [passes]

theorem passes_pieces (text : List Char) :
    (∀ piece ∈ cutArrows text, passes piece = true) ↔
      ∀ piece ∈ cutArrows (text.map slashed), trim piece = [] ∨ Shows (unquote (trim piece)) := by
  rw [cutArrows_map fun c d hd => slashed_eq_iff (by revert d; decide)]
  simp [passes_iff]

theorem solid_quoted (cs : List Char) : Solid (quoted cs) :=
  ⟨⟨'"', _, rfl, by decide⟩, '"' :: cs, '"', by simp [quoted], by decide⟩

@[simp] theorem unquote_quoted (cs : List Char) : unquote (quoted cs) = cs := by
  simp [unquote, quoted, List.getLast?_cons]

theorem flatMap_plain {bytes : List Char} (h : ∀ c ∈ bytes, escape c = [c]) :
    bytes.flatMap escape = bytes := by
  induction bytes with
  | nil => rfl
  | cons c bytes ih =>
    rw [List.flatMap_cons, h c List.mem_cons_self, ih fun d hd => h d (List.mem_cons_of_mem c hd)]
    rfl

theorem reading_plain {bytes : List Char} (h : ∀ c ∈ bytes, escape c = [c]) :
    reading bytes = bytes := by
  rw [reading, flatMap_plain h]
  conv_rhs => rw [← List.map_id bytes]
  apply List.map_congr_left
  intro c hc
  refine if_neg fun hback => ?_
  have hescape := h c hc
  rw [hback] at hescape
  exact absurd hescape (by decide)

theorem passes_quotePath (p : ChangedPath) :
    (∀ piece ∈ cutArrows (quotePath p.bytes), passes piece = true) ↔ p.ReadsAsArtifact := by
  rw [passes_pieces]
  rcases quotePath_cases p.bytes with ⟨hquote, hplain⟩ | hquote
  · have hspace : ' ' ∉ p.bytes := fun h => (hplain ' ' h).2 rfl
    have hreading : reading p.bytes = p.bytes := reading_plain fun c hc => (hplain c hc).1
    have hsolid : Solid p.bytes := hquote ▸ solid_quotePath p.bytes_ne_nil
    have hslashed : p.bytes.map slashed = p.bytes := by
      rwa [reading, flatMap_plain fun c hc => (hplain c hc).1] at hreading
    have hbare : unquote p.bytes = p.bytes := by
      refine if_neg fun h => ?_
      obtain ⟨t, ht⟩ := List.head?_eq_some_iff.mp h.1
      have hescape : escape '"' = ['"'] := (hplain '"' (by simp [ht])).1
      exact absurd hescape (by decide)
    have hspaceQuoted : ' ' ∉ quoted p.bytes := by simpa [quoted] using hspace
    rw [ChangedPath.ReadsAsArtifact, hquote, hslashed, hreading, cutArrows_whole hspace,
      cutArrows_whole hspaceQuoted]
    simp only [List.mem_singleton, forall_eq, hsolid.trim, (solid_quoted p.bytes).trim,
      unquote_quoted, hbare, p.bytes_ne_nil, false_or]
    simp [quoted]
  · rw [hquote]
    have hquoted : (quoted (p.bytes.flatMap escape)).map slashed = quoted (reading p.bytes) := by
      simp [quoted, reading, slashed]
    rw [hquoted]
    rfl

/-! ### The components of a path -/

theorem splitOn_word {u : List Char} (h : '/' ∉ u) : splitOn '/' u = [u] := by
  induction u with
  | nil => rfl
  | cons c u ih =>
    have hc : c ≠ '/' := fun hc => h (by simp [hc])
    rw [splitOn, if_neg hc, ih fun hu => h (List.mem_cons_of_mem _ hu)]

theorem splitOn_append {u : List Char} (h : '/' ∉ u) (cs : List Char) :
    splitOn '/' (u ++ '/' :: cs) = u :: splitOn '/' cs := by
  induction u with
  | nil => simp [splitOn]
  | cons c u ih =>
    have hc : c ≠ '/' := fun hc => h (by simp [hc])
    rw [List.cons_append, splitOn, if_neg hc, ih fun hu => h (List.mem_cons_of_mem _ hu)]

theorem FileName.no_slash (d : FileName) : '/' ∉ d.bytes := fun h => (d.allowed _ h).2.2 rfl

theorem parts_bytes (p : ChangedPath) :
    (PurePath.ofString (.ofList p.bytes)).parts = p.components.map fun d => .ofList d.bytes := by
  have hsplit : splitOn '/' p.bytes =
      p.components.map FileName.bytes ++ if p.isDirectory then [[]] else [] := by
    unfold ChangedPath.bytes ChangedPath.components
    induction p.parents with
    | nil =>
      split
      next => simpa [splitOn] using splitOn_append p.name.no_slash []
      next => simpa using splitOn_word p.name.no_slash
    | cons d ds ih =>
      rw [List.flatMap_cons, List.append_assoc, List.append_assoc, List.append_assoc,
        List.singleton_append, splitOn_append d.no_slash, ← List.append_assoc, ih]
      rfl
  have hkept : ∀ d : FileName, String.ofList d.bytes ≠ "" ∧ String.ofList d.bytes ≠ "." := by
    intro d
    refine ⟨fun h => d.nonempty ?_, fun h => d.proper.1 ?_⟩
    · simpa using congrArg String.toList h
    · simpa using congrArg String.toList h
  rw [PurePath.ofString, String.toList_ofList, hsplit, List.map_append, List.filter_append,
    List.map_map, List.filter_eq_self.mpr]
  · split <;> simp
  · intro s hs
    obtain ⟨d, -, rfl⟩ := List.mem_map.mp hs
    simpa using hkept d

/-! ### From the bytes to what is read -/

theorem reading_append (u v : List Char) : reading (u ++ v) = reading u ++ reading v := by
  simp [reading]

theorem reading_cases (c : Char) : reading [c] = [c] ∧ c ≠ '"' ∧ 32 ≤ c.toNat ∧ c.toNat < 127 ∨
    ∃ body, reading [c] = '/' :: body ∧ ∀ d ∈ body, isSpace d = false := by
  have hbyte : reading [c] = (escape c).map slashed := by simp [reading]
  rw [hbyte]
  obtain ⟨hplain, hquote, hback, hle, hlt⟩ | ⟨body, hbody, hvisible⟩ := escape_cases c
  · rw [hplain, List.map_singleton, show slashed c = c from if_neg hback]
    exact .inl ⟨rfl, hquote, hle, hlt⟩
  · refine .inr ⟨body.map slashed, by rw [hbody]; rfl, fun d hd => ?_⟩
    obtain ⟨e, he, rfl⟩ := List.mem_map.mp hd
    rw [isSpace_slashed]
    exact isSpace_visible (hvisible e he)

theorem reading_byte (c : Char) : c = ' ' ∧ reading [c] = [' '] ∨
    c ≠ ' ' ∧ ∃ d u, reading [c] = d :: u ∧ d ≠ '"' ∧ Solid (reading [c]) := by
  obtain ⟨hread, hquote, hle, hlt⟩ | ⟨body, hread, hvisible⟩ := reading_cases c
  · by_cases hspace : c = ' '
    · exact .inl ⟨hspace, hspace ▸ hread⟩
    · have hne : c.toNat ≠ 32 := fun h => hspace (Char.toNat_inj.mp h)
      have hc : isSpace c = false := isSpace_visible ⟨by omega, hlt⟩
      exact .inr ⟨hspace, c, [], hread, hquote, ⟨c, [], hread, hc⟩, [], c, hread, hc⟩
  · refine .inr ⟨?_, '/', body, hread, by decide, ⟨'/', body, hread, by decide⟩, ?_⟩
    · rintro rfl
      cases hread
    · rw [hread]
      obtain rfl | ⟨t, d, rfl⟩ := List.eq_nil_or_concat' body
      · exact ⟨[], '/', rfl, by decide⟩
      · exact ⟨'/' :: t, d, rfl, hvisible d (by simp)⟩

theorem reading_uncons {cs u : List Char} {d : Char} (h : reading cs = d :: u) (hd : d ≠ '/') :
    ∃ cs', cs = d :: cs' ∧ reading cs' = u := by
  cases cs with
  | nil => cases h
  | cons c cs =>
    rw [show c :: cs = [c] ++ cs from rfl, reading_append] at h
    obtain ⟨hread, -⟩ | ⟨body, hread, -⟩ := reading_cases c
    · rw [hread] at h
      obtain ⟨rfl, hrest⟩ := List.cons.inj h
      exact ⟨cs, rfl, hrest⟩
    · rw [hread] at h
      exact absurd (List.cons.inj h).1.symm hd

theorem dropWhile_reading (bytes : List Char) :
    (reading bytes).dropWhile isSpace = reading (trimLeft bytes) := by
  induction bytes with
  | nil => rfl
  | cons c bytes ih =>
    rw [show c :: bytes = [c] ++ bytes from rfl, reading_append]
    obtain ⟨rfl, hread⟩ | ⟨hne, -, -, -, -, ⟨d, t, hd, hvisible⟩, -⟩ := reading_byte c
    · rw [hread]
      exact ih
    · have hkeep : trimLeft ([c] ++ bytes) = [c] ++ bytes :=
        List.dropWhile_cons_of_neg (by simpa using hne)
      rw [hkeep, reading_append, hd, List.cons_append,
        List.dropWhile_cons_of_neg (by simp [hvisible])]

theorem dropWhile_reverse_reading (bytes : List Char) :
    ((reading bytes).reverse.dropWhile isSpace).reverse = reading (trimRight bytes) := by
  induction bytes using List.reverseRecOn with
  | nil => rfl
  | append_singleton bytes c ih =>
    rw [reading_append, List.reverse_append]
    obtain ⟨rfl, hread⟩ | ⟨hne, -, -, -, -, -, t, d, hd, hvisible⟩ := reading_byte c
    · rw [hread]
      have htrim : trimRight (bytes ++ [' ']) = trimRight bytes := by simp [trimRight]
      rw [htrim, ← ih]
      rfl
    · have hkeep : trimRight (bytes ++ [c]) = bytes ++ [c] := by simp [trimRight, hne]
      rw [hkeep, reading_append, hd, List.reverse_append, List.reverse_singleton,
        List.append_assoc, List.singleton_append,
        List.dropWhile_cons_of_neg (by simp [hvisible])]
      simp

theorem trim_eq (cs : List Char) :
    trim cs = ((cs.dropWhile isSpace).reverse.dropWhile isSpace).reverse := rfl

theorem reading_eq_nil {bytes : List Char} : reading bytes = [] ↔ bytes = [] := by
  cases bytes with
  | nil => simp [reading]
  | cons c bytes =>
    rw [show c :: bytes = [c] ++ bytes from rfl, reading_append]
    obtain ⟨-, hread⟩ | ⟨-, d, u, hread, -⟩ := reading_byte c
    · simp [hread]
    · simp [hread]

theorem head_reading (bytes : List Char) : (reading bytes).head? ≠ some '"' := by
  cases bytes with
  | nil => simp [reading]
  | cons c bytes =>
    rw [show c :: bytes = [c] ++ bytes from rfl, reading_append]
    obtain ⟨-, hread⟩ | ⟨-, d, u, hread, hd, -⟩ := reading_byte c
    · simp [hread]
    · simpa [hread] using hd

theorem getLast_escape (c : Char) :
    ((escape c).map slashed).getLast? = some '"' ↔ c = '"' := by
  have hne : ∀ n, c.toNat = n → n ≠ 34 → ¬c = '"' := by
    rintro n hn h34 rfl
    exact h34 hn.symm
  unfold escape
  split
  case h_8 h34 => exact iff_of_true (by decide) (Char.toNat_inj.mp h34)
  case h_10 =>
    split
    next =>
      have hdigit : ∀ m < 8, slashed (Char.ofNat (48 + m)) ≠ '"' := by decide
      refine iff_of_false ?_ ?_
      · simpa [octalDigit] using hdigit (c.toNat % 8) (Nat.mod_lt _ (by decide))
      · rintro rfl
        simp at *
    next => simpa using slashed_eq_iff (by decide)
  all_goals exact iff_of_false (by decide) (hne _ ‹_› (by decide))

theorem getLast_reading {bytes : List Char} :
    (reading bytes).getLast? = some '"' ↔ bytes.getLast? = some '"' := by
  obtain rfl | ⟨t, c, rfl⟩ := List.eq_nil_or_concat' bytes
  · simp [reading]
  have hbyte : reading [c] = (escape c).map slashed := by simp [reading]
  have hne : (escape c).map slashed ≠ [] := by
    rw [← hbyte, ne_eq, reading_eq_nil]
    exact List.cons_ne_nil _ _
  rw [reading_append, List.getLast?_append_of_ne_nil _ (hbyte ▸ hne), hbyte, getLast_escape]
  simp

theorem shows_iff (text : List Char) : Shows text ↔ TellsOf (splitOn '/' text) := by
  have hkeep : ∀ f : List Char, decide (String.ofList f ≠ "" ∧ String.ofList f ≠ ".") =
      decide (f ≠ [] ∧ f ≠ ['.']) := by
    intro f
    rw [decide_eq_decide, show "" = String.ofList [] from rfl,
      show "." = String.ofList ['.'] from rfl,
      ne_eq, ne_eq, String.ofList_inj, String.ofList_inj]
  have hparts : (PurePath.ofString (.ofList text)).parts =
      ((splitOn '/' text).filter fun f => f ≠ [] ∧ f ≠ ['.']).map String.ofList := by
    rw [PurePath.ofString, String.toList_ofList, List.filter_map]
    exact congrArg (List.map _) (List.filter_congr fun f _ => hkeep f)
  have hdirs : ∀ f : List Char, String.ofList f ∈ allowedRuntimeDirs → f ≠ [] ∧ f ≠ ['.'] := by
    rintro f hf
    constructor
    · rintro rfl
      exact absurd hf (by decide)
    · rintro rfl
      exact absurd hf (by decide)
  rw [Shows, TellsOf, hparts]
  refine or_congr ?_ ?_
  · simp [List.getLast?_map]
  · constructor
    · rintro ⟨part, hpart, hallowed⟩
      obtain ⟨f, hf, rfl⟩ := List.mem_map.mp hpart
      exact ⟨f, (List.mem_filter.mp hf).1, hallowed⟩
    · rintro ⟨f, hf, hallowed⟩
      refine ⟨_, List.mem_map_of_mem (List.mem_filter.mpr ⟨hf, ?_⟩), hallowed⟩
      exact decide_eq_true (hdirs f hallowed)

theorem cutArrows_reading (bytes : List Char) :
    cutArrows (reading bytes) = (cutArrows bytes).map reading := by
  induction bytes using cutArrows.induct with
  | case1 cs ih =>
    have hread : reading (' ' :: '-' :: '>' :: ' ' :: cs) = arrow ++ reading cs := by
      rw [show ' ' :: '-' :: '>' :: ' ' :: cs = arrow ++ cs from rfl, reading_append]
      rfl
    rw [hread, cutArrows_arrow, ih, cutArrows]
    rfl
  | case2 c cs hno ih =>
    rw [cutArrows.eq_2 c cs hno, show c :: cs = [c] ++ cs from rfl, reading_append,
      map_glue _ reading_append, ← ih]
    obtain ⟨rfl, hread⟩ | ⟨hne, -⟩ := reading_byte c
    · rw [hread]
      refine cutArrows_cons fun cs' _ hcs => ?_
      obtain ⟨cs₁, rfl, hcs₁⟩ := reading_uncons hcs (by decide)
      obtain ⟨cs₂, rfl, hcs₂⟩ := reading_uncons hcs₁ (by decide)
      obtain ⟨cs₃, rfl, -⟩ := reading_uncons hcs₂ (by decide)
      exact hno cs₃ rfl rfl
    · refine cutArrows_append (fun hspace => ?_) _
      obtain ⟨hread, -⟩ | ⟨body, hread, hvisible⟩ := reading_cases c
      · rw [hread, List.mem_singleton] at hspace
        exact hne hspace.symm
      · rw [hread] at hspace
        obtain hslash | hbody := List.mem_cons.mp hspace
        · cases hslash
        · cases hvisible ' ' hbody
  | case3 => rfl

/-! ### The check, on the bytes -/

def Told (piece : List Char) : Prop := trim piece = [] ∨ Shows (unquote (trim piece))

theorem trim_opening (bytes : List Char) :
    trim ('"' :: reading bytes) = '"' :: reading (trimRight bytes) := by
  rw [trim_eq, List.dropWhile_cons_of_neg (by decide), List.reverse_cons, List.dropWhile_append,
    ← dropWhile_reverse_reading]
  cases h : (reading bytes).reverse.dropWhile isSpace with
  | nil => rfl
  | cons c cs => simp

theorem trim_closing (bytes : List Char) :
    trim (reading bytes ++ ['"']) = reading (trimLeft bytes) ++ ['"'] := by
  rw [trim_eq, List.dropWhile_append, dropWhile_reading]
  cases h : reading (trimLeft bytes) with
  | nil => rfl
  | cons c cs => simp [isSpace]

theorem trim_reading (bytes : List Char) :
    trim (reading bytes) = reading (trimRight (trimLeft bytes)) := by
  rw [trim_eq, dropWhile_reading, dropWhile_reverse_reading]

theorem splitOn_ne_nil (cs : List Char) : splitOn '/' cs ≠ [] := by
  cases cs with
  | nil => simp [splitOn]
  | cons c cs =>
    rw [splitOn]
    split
    next => simp
    next => split <;> simp

theorem splitOn_snoc_slash (cs : List Char) :
    splitOn '/' (cs ++ ['/']) = splitOn '/' cs ++ [[]] := by
  induction cs with
  | nil => rfl
  | cons c cs ih =>
    rw [List.cons_append, splitOn, splitOn, ih]
    split
    next => rfl
    next =>
      cases h : splitOn '/' cs with
      | nil => exact absurd h (splitOn_ne_nil cs)
      | cons w ws => rfl

theorem tellsOf_blank (fs : List (List Char)) : TellsOf (fs ++ [[]]) ↔ TellsOf fs := by
  have hdirs : String.ofList [] ∉ allowedRuntimeDirs := by decide
  simp only [TellsOf, List.filter_append, List.mem_append, List.mem_singleton]
  refine or_congr (by simp) ⟨?_, ?_⟩
  · rintro ⟨f, hf | rfl, hallowed⟩
    · exact ⟨f, hf, hallowed⟩
    · exact absurd hallowed hdirs
  · rintro ⟨f, hf, hallowed⟩
    exact ⟨f, .inl hf, hallowed⟩

theorem tellsOf_quote : TellsOf (splitOn '/' (unquote ['"'])) ↔ TellsOf (splitOn '/' ['"']) :=
  iff_of_false (by simp [TellsOf, unquote, splitOn, allowedRuntimeDirs, allowedRuntimeFilenames])
    (by simp [TellsOf, splitOn, allowedRuntimeDirs, allowedRuntimeFilenames])

theorem told_opening (bytes : List Char) :
    Told ('"' :: reading bytes) ↔ TellsOf (opening bytes) := by
  rw [Told, trim_opening, opening, or_iff_right (List.cons_ne_nil _ _), shows_iff]
  generalize trimRight bytes = t
  split
  next hlast =>
    obtain ⟨u, rfl⟩ := List.getLast?_eq_some_iff.mp hlast
    have hread : reading (u ++ ['"']) = reading u ++ ['/', '"'] := by
      rw [reading_append]
      rfl
    have hquoted : unquote ('"' :: reading (u ++ ['"'])) = reading u ++ ['/'] := by
      rw [hread, show '"' :: (reading u ++ ['/', '"']) = quoted
        (reading u ++ ['/']) by simp [quoted],
        unquote_quoted]
    rw [hquoted, splitOn_snoc_slash, tellsOf_blank, List.dropLast_concat, fragments]
  next hlast =>
    by_cases ht : t = []
    · subst ht
      exact tellsOf_quote
    · have hbare : unquote ('"' :: reading t) = '"' :: reading t := by
        refine if_neg fun h => hlast (getLast_reading.mp ?_)
        rw [← h.2, List.getLast?_cons_of_ne_nil (reading_eq_nil.not.mpr ht)]
      rw [hbare]

theorem told_closing (bytes : List Char) :
    Told (reading bytes ++ ['"']) ↔ TellsOf (closing bytes) := by
  rw [Told, trim_closing, closing, or_iff_right (by simp), shows_iff]
  generalize trimLeft bytes = t
  by_cases ht : t = []
  · subst ht
    exact tellsOf_quote
  · have hbare : unquote (reading t ++ ['"']) = reading t ++ ['"'] := by
      refine if_neg fun h => head_reading t ?_
      rw [← h.1, List.head?_append_of_ne_nil _ (reading_eq_nil.not.mpr ht)]
    rw [hbare]

theorem told_between (bytes : List Char) : Told (reading bytes) ↔ TellsBetween bytes := by
  rw [Told, trim_reading, TellsBetween, reading_eq_nil, shows_iff, fragments]
  have hbare : ∀ t, unquote (reading t) = reading t := fun t => if_neg fun h => head_reading t h.1
  rw [hbare]

theorem told_whole (bytes : List Char) :
    Told (quoted (reading bytes)) ↔ TellsOf (fragments bytes) := by
  rw [Told, (solid_quoted _).trim, unquote_quoted, shows_iff, fragments]
  exact or_iff_right (List.cons_ne_nil _ _)

theorem readsAsArtifact_iff (p : ChangedPath) : p.ReadsAsArtifact ↔ p.Tells := by
  have hcut : cutArrows (quoted (reading p.bytes)) =
      glue ['"'] (glueEnd ['"'] ((cutArrows p.bytes).map reading)) := by
    rw [quoted, cutArrows_cons fun _ hquote => absurd hquote (by decide),
      cutArrows_append_end (by decide), cutArrows_reading]
  have hread : p.ReadsAsArtifact ↔ ∀ piece ∈ cutArrows (quoted (reading p.bytes)), Told piece :=
    Iff.rfl
  rw [hread, hcut, ChangedPath.Tells]
  cases hpieces : cutArrows p.bytes with
  | nil => exact absurd hpieces (cutArrows_ne_nil _)
  | cons first rest =>
    cases rest with
    | nil => simpa [glueEnd, quoted] using told_whole first
    | cons next rest =>
      have hne : (next :: rest).map reading ≠ [] := by simp
      rw [List.map_cons, glueEnd_cons _ _ hne, glueEnd_eq _ hne, glue_cons, List.forall_mem_cons,
        List.forall_mem_append, List.forall_mem_singleton, List.getLast_map, ← List.map_dropLast,
        List.forall_mem_map]
      exact and_congr (told_opening first) (and_congr
        (forall₂_congr fun s _ => told_between s) (told_closing _))

theorem ChangedPath.Disguised.kind {p : ChangedPath} (h : p.Disguised) :
    p.HasEscape ∨ p.HasArrow ∨ p.NamedLikeCache := by
  by_contra hnone
  simp only [not_or, ChangedPath.HasEscape, not_exists, not_and, not_not, ChangedPath.HasArrow]
    at hnone
  obtain ⟨hplain, hwhole, hname⟩ := hnone
  have htells := h.tells
  rw [ChangedPath.Tells, hwhole] at htells
  have hshows : Shows p.bytes := by
    change TellsOf (splitOn '/' (reading p.bytes)) at htells
    rwa [shows_iff, ← reading_plain hplain]
  rw [Shows, parts_bytes] at hshows
  refine h.foreign ?_
  rcases hshows with ⟨name, hlast, hallowed⟩ | ⟨part, hpart, hallowed⟩
  · refine .inl ?_
    simp only [ChangedPath.components, List.map_append, List.map_cons, List.map_nil,
      List.getLast?_append, List.getLast?_singleton, Option.some_or, Option.mem_def,
      Option.some.injEq] at hlast
    rwa [hlast]
  · obtain ⟨d, hd, rfl⟩ := List.mem_map.mp hpart
    refine .inr ⟨d, ?_, hallowed⟩
    unfold ChangedPath.directories
    split
    next => exact hd
    next hfile =>
      rcases List.mem_append.mp hd with hparent | hlast
      · exact hparent
      · rw [List.mem_singleton] at hlast
        exact absurd ⟨by simpa using hfile, hlast ▸ hallowed⟩ hname

theorem checkCleanCheckout_iff (entries : List StatusEntry) :
    checkCleanCheckout (some (0, entries.map statusLine)) = true ↔
      ∀ e ∈ entries, ∀ p ∈ e.paths, p.Tells := by
  have hline : ∀ e, (isBlank (statusLine e) || isIgnoredCheckoutStatusLine (statusLine e)) = true ↔
      ∀ p ∈ e.paths, p.Tells := by
    intro e
    have hblank : (isBlank (statusLine e) || isIgnoredCheckoutStatusLine (statusLine e)) =
        isIgnoredCheckoutStatusLine (statusLine e) := by
      unfold isIgnoredCheckoutStatusLine
      split
      next h => rw [h, Bool.true_or]
      next h => simp [h]
    rw [hblank, isIgnored_statusLine]
    exact forall₂_congr fun p _ => (passes_quotePath p).trans (readsAsArtifact_iff p)
  simp only [checkCleanCheckout, List.all_map, List.all_eq_true, Function.comp_apply, hline]

/-- A checkout that is reported clean has only artifacts among its changed paths, unless one of them
is disguised and the bytes of all of them tell of artifacts. -/
theorem cleanCheckout_artifacts (entries : List StatusEntry) :
    ((checkCleanCheckout (some (0, entries.map statusLine)) = true →
        ∀ e ∈ entries, ∀ p ∈ e.paths, p.IsArtifact) ↔
      (∃ e ∈ entries, ∃ p ∈ e.paths, ¬p.Tells) ∨
        ∀ e ∈ entries, ∀ p ∈ e.paths, ¬p.Disguised) ∧
      ∀ p : ChangedPath, p.Disguised → p.HasEscape ∨ p.HasArrow ∨ p.NamedLikeCache := by
  refine ⟨?_, fun p => ChangedPath.Disguised.kind⟩
  rw [checkCleanCheckout_iff]
  constructor
  · intro h
    by_cases htells : ∀ e ∈ entries, ∀ p ∈ e.paths, p.Tells
    · exact .inr fun e he p hp hd => hd.foreign (h htells e he p hp)
    · simp only [not_forall] at htells
      obtain ⟨e, he, p, hp, hno⟩ := htells
      exact .inl ⟨e, he, p, hp, hno⟩
  · intro h htells e he p hp
    rcases h with ⟨e', he', p', hp', hno⟩ | hnone
    · exact absurd (htells e' he' p' hp') hno
    · by_contra hart
      exact hnone e he p hp ⟨htells e he p hp, hart⟩

/-- A modified source file in a directory whose name goes on with an "é" after that of a cache. -/
def accentedSource : StatusEntry where
  index := .unmodified
  worktree := .modified
  source := none
  path :=
    { parents := [⟨"__pycache__Ã©".toList, by decide, by decide, by decide⟩]
      name := ⟨"server.py".toList, by decide, by decide, by decide⟩
      isDirectory := false }

theorem cleanCheckout_overlooks :
    ¬∀ entries : List StatusEntry,
      checkCleanCheckout (some (0, entries.map statusLine)) = true →
        ∀ e ∈ entries, ∀ p ∈ e.paths, p.IsArtifact := by
  intro h
  have hclean : checkCleanCheckout (some (0, [accentedSource].map statusLine)) = true := by
    decide +kernel
  have hart := h [accentedSource] hclean accentedSource (by simp) accentedSource.path
    (by simp [StatusEntry.paths])
  have hno : ¬accentedSource.path.IsArtifact := by
    unfold ChangedPath.IsArtifact
    decide +kernel
  exact hno hart

end SubagentBridge.Execution
