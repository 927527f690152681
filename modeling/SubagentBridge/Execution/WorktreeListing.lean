import Mathlib.Data.List.Find
import SubagentBridge.Execution.WorktreeManager

/-! The listing of `git worktree list --porcelain`, as git prints it and as the cleanup reads it. -/

namespace SubagentBridge.Execution

open Library Domain

inductive Head
  | bare
  | detached (oid : String)
  | onBranch (oid ref : String)
  /-- a `HEAD` that git cannot follow -/
  | unread (oid : String)
  deriving DecidableEq

/-- A worktree with the reasons, as they are printed, why it is locked and why it may be pruned. -/
structure WorktreeEntry where
  path : String
  head : Head
  locked : Option String
  prunable : Option String
  deriving DecidableEq

namespace WorktreeEntry

def labelled (keyword text : String) : List Char :=
  if text = "" then keyword.toList else keyword.toList ++ ' ' :: text.toList

def headLines : Head → List (List Char)
  | .bare => ["bare".toList]
  | .detached oid => [labelled "HEAD" oid, "detached".toList]
  | .onBranch oid ref => [labelled "HEAD" oid, labelled "branch" ref]
  | .unread oid => [labelled "HEAD" oid]

variable (e : WorktreeEntry)

def details : List (List Char) :=
  headLines e.head ++ (e.locked.map (labelled "locked")).toList ++
    (e.prunable.map (labelled "prunable")).toList

def lines : List (List Char) := ("worktree ".toList ++ e.path.toList) :: e.details

def block : List Char := List.intercalate ['\n'] e.lines

/-- The lines end where they seem to: none has a line break in it, and none but the path ends in
white space. -/
def Legible : Prop :=
  (∀ line ∈ e.lines, Unbroken line) ∧
    ∀ line ∈ e.details, line.getLast?.any fun c => isSpace c = false

instance : Decidable e.Legible := inferInstanceAs (Decidable (_ ∧ _))

def On (branchName : String) : Prop := ∃ oid, e.head = .onBranch oid ("refs/heads/" ++ branchName)

def texts : List String :=
  e.path :: (match e.head with
    | .bare => []
    | .detached oid | .unread oid => [oid]
    | .onBranch oid ref => [oid, ref]) ++ e.prunable.toList

/-- The word "locked" stands somewhere else than in the line of a lock. -/
def Worded : Prop := ∃ text ∈ e.texts, occursIn "locked".toList text.toList = true

instance : Decidable e.Worded := inferInstanceAs (Decidable (∃ text ∈ e.texts, _))

end WorktreeEntry

abbrev Listing := List WorktreeEntry

namespace Listing

variable (l : Listing)

def printed : List Char := l.flatMap fun e => e.lines.flatMap (fun line => line ++ ['\n']) ++ ['\n']

def stdout : String := .ofList (universalNewlines (printed l))

def Legible : Prop := ∀ e ∈ l, e.Legible

instance : Decidable (Legible l) := inferInstanceAs (Decidable (∀ e ∈ l, e.Legible))

def own (target : PurePath) : Option WorktreeEntry := l.find? fun e => e.path = target.toString

/-- The path reads like the target: stripped, with slashes, in lower case. -/
def ReadsLike (P : StrBuiltins) (target : PurePath) (path : String) : Prop :=
  GitWorktreeManager.foldPath P (strip path) = GitWorktreeManager.foldPath P target.toString

instance (P : StrBuiltins) (target : PurePath) (path : String) :
    Decidable (ReadsLike P target path) := inferInstanceAs (Decidable (_ = _))

def first (P : StrBuiltins) (target : PurePath) : Option WorktreeEntry :=
  l.find? fun e => ReadsLike P target e.path

def InOrder (branchName : String) (target : PurePath) : Prop :=
  ∃ e, own l target = some e ∧ e.On branchName ∧ e.locked = none

def paragraphs : List (List Char) := splitText ['\n', '\n'] 0 [] (strip (stdout l)).toList

/-- The paragraph that is taken for the target's: the first with a line of a path that reads like
it. -/
def seen (P : StrBuiltins) (target : PurePath) : Option (List Char) :=
  (paragraphs l).find? fun p => (splitlines p).any fun line =>
    "worktree ".toList.isPrefixOf line && ReadsLike P target (.ofList (line.drop 9))

end Listing

/-- A paragraph has the branch in one of its lines. -/
def Branched (branchName : String) (paragraph : List Char) : Prop :=
  ∃ line ∈ splitlines paragraph, strip (.ofList line) = "branch " ++ ("refs/heads/" ++ branchName)

/-- The paragraph is what git has to say of the target, line by line. -/
def Listing.IsOwn (l : Listing) (target : PurePath) (paragraph : List Char) : Prop :=
  ∃ e, own l target = some e ∧ e.Legible ∧ e.block = paragraph

/-- What misleads the checks about the target. -/
inductive Listing.Misleads (l : Listing) (P : StrBuiltins) (branchName : String)
    (target : PurePath) : Prop
  /-- the word, in the path, the branch or the prunable reason of a worktree that is in order -/
  | word (e : WorktreeEntry) (hown : own l target = some e) (hlegible : e.Legible)
      (hseen : seen l P target = some e.block) (hon : e.On branchName) (hfree : e.locked = none)
      (hworded : e.Worded)
  /-- no branch to compare with that of the worktree -/
  | unassigned (e : WorktreeEntry) (hown : own l target = some e) (hlegible : e.Legible)
      (hseen : seen l P target = some e.block) (hname : branchName = "") (hoff : ¬ e.On branchName)
      (hfree : e.locked = none) (hplain : ¬ e.Worded)
  /-- another text in order, in place of a worktree that is not -/
  | intruder (p : List Char) (hseen : seen l P target = some p) (hother : ¬ IsOwn l target p)
      (hbranched : branchName ≠ "" → Branched branchName p)
      (hplain : occursIn "locked".toList p = false) (hoff : ¬ InOrder l branchName target)
  /-- another text out of order, in place of a worktree that is -/
  | blocker (p : List Char) (hseen : seen l P target = some p) (hother : ¬ IsOwn l target p)
      (hfault : branchName ≠ "" ∧ ¬ Branched branchName p ∨ occursIn "locked".toList p = true)
      (hon : InOrder l branchName target)
  /-- a worktree in order that no text is taken for -/
  | unseen (hseen : seen l P target = none) (hon : InOrder l branchName target)

theorem strip_head {c : Char} (hc : isSpace c = false) (t : List Char) :
    (strip (.ofList (c :: t))).toList.head? = some c := by
  rw [strip, String.toList_ofList, String.toList_ofList,
    List.dropWhile_cons_of_neg (by simp [hc]), List.reverse_cons, List.dropWhile_append]
  split
  next => simp [hc]
  next => simp

/-! ## The lines of an entry -/

namespace WorktreeEntry

variable {e : WorktreeEntry}

theorem details_ne_nil (e : WorktreeEntry) : e.details ≠ [] := by
  rw [details]
  cases e.head <;> simp [headLines]

theorem mem_details {line : List Char} : line ∈ e.details ↔ line ∈ headLines e.head ∨
    (∃ reason, e.locked = some reason ∧ labelled "locked" reason = line) ∨
      ∃ reason, e.prunable = some reason ∧ labelled "prunable" reason = line := by
  simp only [details, List.mem_append, Option.mem_toList, Option.map_eq_some_iff, or_assoc]

theorem labelled_eq (keyword text : String) :
    ∃ tail, labelled keyword text = keyword.toList ++ tail := by
  rw [labelled]
  split
  next => exact ⟨[], by simp⟩
  next => exact ⟨_, rfl⟩

theorem details_head {line : List Char} (h : line ∈ e.details) :
    ∃ c t, line = c :: t ∧ c ≠ 'w' ∧ isSpace c = false := by
  have hlabelled (keyword text : String) {c : Char} {t : List Char}
      (hkeyword : keyword.toList = c :: t) (hc : c ≠ 'w' ∧ isSpace c = false) :
      ∃ c t, labelled keyword text = c :: t ∧ c ≠ 'w' ∧ isSpace c = false := by
    obtain ⟨tail, htail⟩ := labelled_eq keyword text
    exact ⟨c, t ++ tail, by rw [htail, hkeyword, List.cons_append], hc⟩
  have hhead (oid : String) := hlabelled "HEAD" oid rfl (by decide)
  rcases mem_details.mp h with hline | ⟨reason, -, rfl⟩ | ⟨reason, -, rfl⟩
  · cases hcheckedOut : e.head with
    | bare =>
      obtain rfl : line = "bare".toList := by simpa [hcheckedOut, headLines] using hline
      exact ⟨_, _, rfl, by decide⟩
    | detached oid =>
      simp only [hcheckedOut, headLines, List.mem_cons, List.not_mem_nil, or_false] at hline
      rcases hline with rfl | rfl
      · exact hhead oid
      · exact ⟨_, _, rfl, by decide⟩
    | onBranch oid ref =>
      simp only [hcheckedOut, headLines, List.mem_cons, List.not_mem_nil, or_false] at hline
      rcases hline with rfl | rfl
      · exact hhead oid
      · exact hlabelled "branch" ref rfl (by decide)
    | unread oid =>
      simp only [hcheckedOut, headLines, List.mem_cons, List.not_mem_nil, or_false] at hline
      exact hline ▸ hhead oid
  · exact hlabelled "locked" reason rfl (by decide)
  · exact hlabelled "prunable" reason rfl (by decide)

theorem mem_lines_ne_nil {line : List Char} (h : line ∈ e.lines) : line ≠ [] := by
  rcases List.mem_cons.mp h with rfl | h
  · simp
  · obtain ⟨c, t, rfl, -⟩ := details_head h
    simp

namespace Legible

variable (h : e.Legible)

include h

theorem splitlines : Library.splitlines e.block = e.lines :=
  splitlines_intercalate fun line hline => ⟨mem_lines_ne_nil hline, h.1 line hline⟩

theorem not_mem {line : List Char} (hline : line ∈ e.lines) {c : Char}
    (hc : isLineBreak c = true) : c ∉ line := by
  intro hmem
  rw [h.1 line hline c hmem] at hc
  cases hc

theorem solid {line : List Char} (hline : line ∈ e.details) : Solid line := by
  obtain ⟨c, t, hhead, -, hc⟩ := details_head hline
  obtain ⟨d, hd, hspace⟩ := (Option.any_eq_true _ _).mp (h.2 line hline)
  obtain ⟨t', hlast⟩ := List.getLast?_eq_some_iff.mp hd
  exact ⟨⟨c, t, hhead, hc⟩, t', d, hlast, by simpa using hspace⟩

theorem any_readsLike (P : StrBuiltins) (target : PurePath) :
    ((Library.splitlines e.block).any fun line => "worktree ".toList.isPrefixOf line &&
        Listing.ReadsLike P target (.ofList (line.drop 9))) =
      decide (Listing.ReadsLike P target e.path) := by
  have hdetails : (e.details.any fun line => "worktree ".toList.isPrefixOf line &&
      Listing.ReadsLike P target (.ofList (line.drop 9))) = false := by
    rw [List.any_eq_false]
    intro line hline
    obtain ⟨c, t, rfl, hc, -⟩ := details_head hline
    simp [Ne.symm hc]
  rw [h.splitlines, lines, List.any_cons, hdetails, Bool.or_false]
  simp

end Legible

theorem labelled_branch {ref branchName : String} : labelled "branch" ref =
    ("branch " ++ ("refs/heads/" ++ branchName)).toList ↔ ref = "refs/heads/" ++ branchName := by
  rw [labelled]
  split
  next href =>
    subst href
    simp [← String.toList_inj]
  next => simp [← String.toList_inj]

theorem on_iff {branchName : String} :
    ("branch " ++ ("refs/heads/" ++ branchName)).toList ∈ e.details ↔ e.On branchName := by
  constructor
  · intro h
    rcases mem_details.mp h with hline | ⟨reason, -, hline⟩ | ⟨reason, -, hline⟩
    · cases hcheckedOut : e.head with
      | bare => simp [hcheckedOut, headLines] at hline
      | detached oid =>
        obtain ⟨tail, htail⟩ := labelled_eq "HEAD" oid
        simp [hcheckedOut, headLines, htail] at hline
      | onBranch oid ref =>
        obtain ⟨tail, htail⟩ := labelled_eq "HEAD" oid
        simp only [hcheckedOut, headLines, List.mem_cons, List.not_mem_nil, or_false] at hline
        rcases hline with hline | hline
        · simp [htail] at hline
        · exact ⟨oid, by rw [← labelled_branch.mp hline.symm, hcheckedOut]⟩
      | unread oid =>
        obtain ⟨tail, htail⟩ := labelled_eq "HEAD" oid
        simp [hcheckedOut, headLines, htail] at hline
    · obtain ⟨tail, htail⟩ := labelled_eq "locked" reason
      simp [htail] at hline
    · obtain ⟨tail, htail⟩ := labelled_eq "prunable" reason
      simp [htail] at hline
  · rintro ⟨oid, hcheckedOut⟩
    refine mem_details.mpr (.inl ?_)
    rw [hcheckedOut, headLines, labelled_branch.mpr rfl]
    simp

theorem occursIn_labelled (keyword text : String)
    (hkeyword : occursIn "locked".toList keyword.toList = false) :
    occursIn "locked".toList (labelled keyword text) = occursIn "locked".toList text.toList := by
  rw [labelled]
  split
  next h =>
    rw [hkeyword, h]
    exact (occursIn_nil (by decide)).symm
  next => rw [occursIn_append_cons (by decide) (by decide), hkeyword, Bool.false_or]

theorem occursIn_lock (reason : String) :
    occursIn "locked".toList (labelled "locked" reason) = true := by
  obtain ⟨tail, htail⟩ := labelled_eq "locked" reason
  rw [htail]
  simp [occursIn]

theorem occursIn_block : occursIn "locked".toList e.block = true ↔ e.locked ≠ none ∨ e.Worded := by
  have hpath : occursIn "locked".toList ("worktree ".toList ++ e.path.toList) =
      occursIn "locked".toList e.path.toList := by
    rw [show "worktree ".toList ++ e.path.toList = "worktree".toList ++
      ' ' :: e.path.toList from rfl,
      occursIn_append_cons (by decide) (by decide),
        show occursIn "locked".toList "worktree".toList =
        false by decide, Bool.false_or]
  have hhead (oid : String) := occursIn_labelled "HEAD" oid (by decide)
  have hbranch (ref : String) := occursIn_labelled "branch" ref (by decide)
  have hprunable (reason : String) := occursIn_labelled "prunable" reason (by decide)
  have hbare : occursIn "locked".toList "bare".toList = false := by decide
  have hdetached : occursIn "locked".toList "detached".toList = false := by decide
  have hdetails : e.details.any (occursIn "locked".toList) = true ↔ e.locked ≠ none ∨
      ∃ text ∈ e.texts.tail, occursIn "locked".toList text.toList = true := by
    rw [details, texts, List.any_append, List.any_append]
    cases e.locked with
    | some reason =>
      simp only [Option.map_some, Option.toList_some, List.any_cons, occursIn_lock]
      simp
    | none =>
      cases e.head <;> cases e.prunable <;>
        simp only [headLines, Option.map_some, Option.map_none, Option.toList_some,
          Option.toList_none, List.any_cons, List.any_nil, hhead, hbranch, hprunable, hbare,
          hdetached] <;> simp [or_assoc]
  have hworded : e.Worded ↔ occursIn "locked".toList e.path.toList = true ∨
      ∃ text ∈ e.texts.tail, occursIn "locked".toList text.toList = true :=
    List.exists_mem_cons_iff _ e.path e.texts.tail
  rw [block, occursIn_intercalate (by decide) (by decide), lines, List.any_cons, hpath,
    Bool.or_eq_true, hdetails, hworded]
  exact or_left_comm

namespace Legible

variable (h : e.Legible)

include h

theorem strip_line {line : List Char} (hline : line ∈ e.details) :
    strip (.ofList line) = .ofList line := by
  rw [strip, String.toList_ofList]
  exact congrArg String.ofList (h.solid hline).trim

theorem branch_matched (branchName : String) :
    (Library.splitlines e.block).all (fun line =>
        strip (.ofList line) ≠ "branch " ++ ("refs/heads/" ++ branchName)) = false ↔
      e.On branchName := by
  rw [h.splitlines, ← on_iff, List.all_eq_false]
  simp only [decide_eq_true_eq, not_not, lines, List.mem_cons]
  constructor
  · rintro ⟨line, rfl | hline, hmatch⟩
    · have hhead := strip_head (c := 'w') rfl ("orktree ".toList ++ e.path.toList)
      rw [show 'w' :: ("orktree ".toList ++ e.path.toList) = "worktree ".toList ++ e.path.toList
        from rfl, hmatch] at hhead
      simp at hhead
    · rw [h.strip_line hline] at hmatch
      rwa [← hmatch, String.toList_ofList]
  · intro hline
    exact ⟨_, .inr hline, by rw [h.strip_line hline, String.ofList_toList]⟩

end Legible

end WorktreeEntry

/-! ## The text of a listing -/

theorem trim_append {cs tail : List Char} (h : Solid cs) (htail : ∀ c ∈ tail, isSpace c = true) :
    trim (cs ++ tail) = cs := by
  obtain ⟨⟨c, t, hhead, hc⟩, t', d, hlast, hd⟩ := h
  have hdrop : (cs ++ tail).dropWhile isSpace = cs ++ tail := by
    rw [hhead, List.cons_append, List.dropWhile_cons_of_neg (by simp [hc])]
  rw [trim, hdrop, List.reverse_append,
    List.dropWhile_append_of_pos fun c hc => htail c (List.mem_reverse.mp hc), hlast,
    List.reverse_append]
  simp [hd]

theorem solid_intercalate (sep : List Char) {blocks : List (List Char)} (hne : blocks ≠ [])
    (h : ∀ block ∈ blocks, Solid block) : Solid (List.intercalate sep blocks) := by
  induction blocks with
  | nil => exact absurd rfl hne
  | cons block blocks ih =>
    have hblock := h block List.mem_cons_self
    cases blocks with
    | nil => simpa using hblock
    | cons block' blocks =>
      have hrest := ih (by simp) fun block' hmem => h block' (List.mem_cons_of_mem block hmem)
      obtain ⟨⟨c, t, hhead, hc⟩, -⟩ := hblock
      obtain ⟨-, t', d, hlast, hd⟩ := hrest
      rw [List.intercalate_cons_cons, hlast]
      exact ⟨⟨c, t ++ sep ++ (t' ++ [d]), by simp [hhead], hc⟩,
        block ++ sep ++ t', d, by simp, hd⟩

theorem WorktreeEntry.Legible.solid_block {e : WorktreeEntry} (h : e.Legible) : Solid e.block := by
  obtain ⟨-, t, d, hlast, hd⟩ := solid_intercalate ['\n'] e.details_ne_nil fun line => h.solid
  have hblock : e.block = "worktree ".toList ++ e.path.toList ++ '\n' :: (t ++ [d]) := by
    rw [block, lines, ← hlast]
    cases hdetails : e.details with
    | nil => exact absurd hdetails e.details_ne_nil
    | cons line lines => simp [List.intercalate_cons_cons]
  exact ⟨⟨'w', _, hblock, rfl⟩, _, d, by rw [hblock, ← List.cons_append, ← List.append_assoc], hd⟩

theorem WorktreeEntry.Legible.uncut {e : WorktreeEntry} (h : e.Legible) :
    Uncut ['\n', '\n'] e.block :=
  uncut_intercalate fun _ hline => ⟨mem_lines_ne_nil hline, h.not_mem hline rfl⟩

namespace Listing

variable {l : Listing}

theorem printed_eq (hne : l ≠ []) :
    printed l = List.intercalate ['\n', '\n'] (l.map WorktreeEntry.block) ++ ['\n', '\n'] := by
  have hlines (e : WorktreeEntry) : e.lines.flatMap (fun line => line ++ ['\n']) ++ ['\n'] =
      e.block ++ ['\n', '\n'] := by
    rw [flatMap_append_eq ['\n'] (show e.lines ≠ [] from List.cons_ne_nil _ _), List.append_assoc]
    rfl
  rw [printed, ← flatMap_append_eq _ (by simpa using hne), List.flatMap_map]
  simp only [hlines]

namespace Legible

variable (h : Legible l)

include h

theorem stdout_toList : (stdout l).toList = printed l := by
  rw [stdout, String.toList_ofList]
  apply universalNewlines_of_not_mem
  simp only [printed, List.mem_flatMap, List.mem_append, List.mem_singleton, not_exists, not_and,
    not_or]
  intro e he
  refine ⟨fun line hline => ⟨(h e he).not_mem hline rfl, by decide⟩, by decide⟩

theorem blocks (hne : l ≠ []) :
    splitText ['\n', '\n'] 0 [] (strip (stdout l)).toList = l.map WorktreeEntry.block := by
  have hstrip : (strip (stdout l)).toList =
      List.intercalate ['\n', '\n'] (l.map WorktreeEntry.block) := by
    rw [strip, String.toList_ofList, h.stdout_toList, printed_eq hne]
    refine trim_append (solid_intercalate _ (by simpa using hne) ?_) (by decide)
    intro block hblock
    obtain ⟨e, he, rfl⟩ := List.mem_map.mp hblock
    exact (h e he).solid_block
  rw [hstrip]
  refine splitText_intercalate (by simp) (by simpa using hne) ?_
  intro block hblock
  obtain ⟨e, he, rfl⟩ := List.mem_map.mp hblock
  exact (h e he).uncut

theorem seen_eq (P : StrBuiltins) (target : PurePath) :
    seen l P target = (first l P target).map WorktreeEntry.block := by
  cases l with
  | nil => rfl
  | cons e l =>
    rw [seen, paragraphs, h.blocks (List.cons_ne_nil e l), List.find?_map, first]
    congr 1
    apply List.find?_congr
    intro e' he'
    exact (h e' he').any_readsLike P target

end Legible

theorem branched_iff {branchName : String} {paragraph : List Char} : Branched branchName paragraph ↔
    (Library.splitlines paragraph).all (fun line =>
      strip (.ofList line) ≠ "branch " ++ ("refs/heads/" ++ branchName)) = false := by
  simp [Branched, List.all_eq_false]

theorem isTargetLine_eq (P : StrBuiltins) (target : PurePath) :
    GitWorktreeManager.isTargetLine P (GitWorktreeManager.foldPath P target.toString) =
      fun line => "worktree ".toList.isPrefixOf line &&
        decide (ReadsLike P target (.ofList (line.drop 9))) := by
  funext line
  rw [GitWorktreeManager.isTargetLine]
  by_cases hopens : "worktree ".toList.isPrefixOf line = true
  · obtain ⟨path, rfl⟩ := List.isPrefixOf_iff_prefix.mp hopens
    rfl
  · rw [Bool.not_eq_true] at hopens
    rw [hopens, Bool.false_and, Bool.false_and]

theorem matchedEntry_eq (P : StrBuiltins) (target : PurePath) :
    GitWorktreeManager.matchedEntry P (GitWorktreeManager.foldPath P target.toString) (stdout l) =
      seen l P target := by
  rw [GitWorktreeManager.matchedEntry, isTargetLine_eq, seen, paragraphs]

theorem checkListing_iff {P : StrBuiltins} {branchName : String} {target : PurePath} :
    GitWorktreeManager.checkListing P branchName target (stdout l) = .ok () ↔
      ∃ p, seen l P target = some p ∧ (branchName ≠ "" → Branched branchName p) ∧
        occursIn "locked".toList p = false := by
  rw [GitWorktreeManager.checkListing, matchedEntry_eq]
  cases seen l P target with
  | none => simp
  | some p =>
    simp only [Option.some.injEq, exists_eq_left', branched_iff]
    split
    next hmismatch =>
      refine iff_of_false (by simp) fun hpass => ?_
      exact Bool.eq_false_iff.mp (hpass.1 hmismatch.1) hmismatch.2
    next hmatch =>
      have hnamed : branchName ≠ "" → (Library.splitlines p).all (fun line =>
          strip (.ofList line) ≠ "branch " ++ ("refs/heads/" ++ branchName)) = false := by
        intro hne
        exact Bool.eq_false_iff.mpr fun hall => hmatch ⟨hne, hall⟩
      split
      next hlocked => exact iff_of_false (by simp) fun hpass => Bool.eq_false_iff.mp hpass.2 hlocked
      next hlocked => exact iff_of_true rfl ⟨hnamed, by simpa using hlocked⟩

theorem Misleads.not_right {P : StrBuiltins} {branchName : String} {target : PurePath}
    (hmisled : Misleads l P branchName target) :
    ¬ (GitWorktreeManager.checkListing P branchName target (stdout l) = .ok () ↔
      InOrder l branchName target) := by
  intro hright
  rw [checkListing_iff] at hright
  cases hmisled with
  | word e hown hlegible hseen hon hfree hworded =>
    obtain ⟨p, hp, -, hplain⟩ := hright.mpr ⟨e, hown, hon, hfree⟩
    cases hseen.symm.trans hp
    cases hplain.symm.trans (WorktreeEntry.occursIn_block.mpr (.inr hworded))
  | unassigned e hown hlegible hseen hname hoff hfree hplain =>
    have hquiet : occursIn "locked".toList e.block = false := by
      rw [Bool.eq_false_iff, ne_eq, WorktreeEntry.occursIn_block, not_or, not_not]
      exact ⟨hfree, hplain⟩
    obtain ⟨e', hown', hon, -⟩ := hright.mp ⟨_, hseen, fun hne => absurd hname hne, hquiet⟩
    cases hown.symm.trans hown'
    exact hoff hon
  | intruder p hseen _ hbranched hplain hoff =>
    exact hoff (hright.mp ⟨p, hseen, hbranched, hplain⟩)
  | blocker p hseen _ hfault hon =>
    obtain ⟨p', hp, hbranched, hplain⟩ := hright.mpr hon
    cases hseen.symm.trans hp
    obtain ⟨hne, hother⟩ | hword := hfault
    · exact hother (hbranched hne)
    · cases hplain.symm.trans hword
  | unseen hseen hon =>
    obtain ⟨p, hp, -⟩ := hright.mpr hon
    cases hseen.symm.trans hp

theorem inOrder_of_passed {P : StrBuiltins} {branchName : String} {target : PurePath}
    (hclear : ¬ Misleads l P branchName target) {p : List Char} (hseen : seen l P target = some p)
    (hbranched : branchName ≠ "" → Branched branchName p)
    (hplain : occursIn "locked".toList p = false) : InOrder l branchName target := by
  by_contra hoff
  by_cases hother : IsOwn l target p
  · obtain ⟨e, hown, hlegible, rfl⟩ := hother
    have hfree := WorktreeEntry.occursIn_block.not.mp (Bool.eq_false_iff.mp hplain)
    rw [not_or, not_not] at hfree
    have hout : ¬ e.On branchName := fun hon => hoff ⟨e, hown, hon, hfree.1⟩
    by_cases hname : branchName = ""
    · exact hclear (.unassigned e hown hlegible hseen hname hout hfree.1 hfree.2)
    · exact hout ((hlegible.branch_matched branchName).mp (branched_iff.mp (hbranched hname)))
  · exact hclear (.intruder p hseen hother hbranched hplain hoff)

theorem passed_of_inOrder {P : StrBuiltins} {branchName : String} {target : PurePath}
    (hclear : ¬ Misleads l P branchName target) (hon : InOrder l branchName target) :
    ∃ p, seen l P target = some p ∧ (branchName ≠ "" → Branched branchName p) ∧
      occursIn "locked".toList p = false := by
  obtain ⟨e, hown, hbranch, hfree⟩ := id hon
  cases hseen : seen l P target with
  | none => exact absurd (.unseen hseen hon) hclear
  | some p =>
    refine ⟨p, rfl, ?_⟩
    by_cases hother : IsOwn l target p
    · obtain ⟨e', hown', hlegible, rfl⟩ := hother
      cases hown.symm.trans hown'
      refine ⟨fun _ => branched_iff.mpr ((hlegible.branch_matched branchName).mpr hbranch), ?_⟩
      rw [Bool.eq_false_iff]
      intro hword
      obtain hlocked | hworded := WorktreeEntry.occursIn_block.mp hword
      · exact hlocked hfree
      · exact hclear (.word e hown hlegible hseen hbranch hfree hworded)
    · by_contra hfault
      refine hclear (.blocker p hseen hother ?_ hon)
      rw [not_and_or, Classical.not_imp, Bool.not_eq_false] at hfault
      exact hfault

theorem checkListing_right {P : StrBuiltins} {branchName : String} {target : PurePath} :
    (GitWorktreeManager.checkListing P branchName target (stdout l) = .ok () ↔
      InOrder l branchName target) ↔ ¬ Misleads l P branchName target := by
  refine ⟨fun hright hmisled => hmisled.not_right hright, fun hclear => ?_⟩
  rw [checkListing_iff]
  constructor
  · rintro ⟨p, hseen, hbranched, hplain⟩
    exact inOrder_of_passed hclear hseen hbranched hplain
  · exact passed_of_inOrder hclear

/-- Where the entries are legible, it is the first one whose path reads like the target that may
mislead the checks. -/
theorem Legible.misleads_iff (h : Legible l) {P : StrBuiltins} {branchName : String}
    {target : PurePath} : Misleads l P branchName target ↔
      ¬ ((∃ e, first l P target = some e ∧ (branchName ≠ "" → e.On branchName) ∧
          e.locked = none ∧ ¬ e.Worded) ↔ InOrder l branchName target) := by
  have hcheck : (∃ p, seen l P target = some p ∧ (branchName ≠ "" → Branched branchName p) ∧
      occursIn "locked".toList p = false) ↔ ∃ e, first l P target = some e ∧
        (branchName ≠ "" → e.On branchName) ∧ e.locked = none ∧ ¬ e.Worded := by
    rw [h.seen_eq]
    cases hfirst : first l P target with
    | none => simp
    | some e =>
      have hlegible := h e (List.mem_of_find?_eq_some hfirst)
      simp only [Option.map_some, Option.some.injEq, exists_eq_left']
      rw [branched_iff, hlegible.branch_matched]
      refine and_congr_right' ?_
      rw [Bool.eq_false_iff, ne_eq, WorktreeEntry.occursIn_block, not_or, not_not]
  rw [← not_iff_not, not_not, ← checkListing_right, checkListing_iff, hcheck]

end Listing

end SubagentBridge.Execution
