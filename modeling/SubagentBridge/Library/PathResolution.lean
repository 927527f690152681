import Mathlib.Data.List.Infix
import SubagentBridge.Library.FileSystem

/-! Two ways through a tree: the system's, in which `..` leaves a directory, and that of
`os.path.realpath`, in which `..` takes back the name before it. -/

namespace Library

structure Tree extends FileSystem where
  node_parent : ∀ {place : Place} {name : String},
    node (place ++ [name]) ≠ none → node place = some .directory

def Closed (nodes : List (Place × Node)) : Prop :=
  ∀ e ∈ nodes, e.1 = [] ∨ (nodes.lookup e.1.dropLast).any fun node => node matches .directory

instance (nodes : List (Place × Node)) : Decidable (Closed nodes) :=
  inferInstanceAs (Decidable (∀ e ∈ nodes, _))

theorem Closed.lookup_parent {nodes : List (Place × Node)} (h : Closed nodes) {place : Place}
    {name : String} (hnode : nodes.lookup (place ++ [name]) ≠ none) :
    nodes.lookup place = some .directory := by
  obtain ⟨node, hnode⟩ := Option.ne_none_iff_exists'.mp hnode
  obtain ⟨before, after, rfl, -⟩ := List.lookup_eq_some_iff.mp hnode
  rcases h _ (List.mem_append_right _ List.mem_cons_self) with hnil | hdir
  · simp at hnil
  · rw [List.dropLast_concat] at hdir
    obtain ⟨parent, hparent, hdir⟩ := (Option.any_eq_true _ _).mp hdir
    cases parent with
    | directory => exact hparent
    | file _ => cases hdir
    | link _ => cases hdir

def Tree.ofList (nodes : List (Place × Node)) (h : Closed nodes) : Tree where
  node := fun place => nodes.lookup place
  node_parent := h.lookup_parent

inductive ResolveError
  | missing
  | loop
  deriving DecidableEq

def lexical : Place → List String → Place
  | here, [] => here
  | here, name :: names =>
    if name = ".." then lexical here.dropLast names else lexical (here ++ [name]) names

namespace FileSystem

variable (fs : FileSystem)

/-- The system follows names from a place; behind a link `jump` goes on. -/
def lookupWith (jump : Place → List String → Option Place) : Place → List String → Option Place
  | here, [] => some here
  | here, name :: names =>
    if name = ".." then lookupWith jump here.dropLast names
    else match fs.node (here ++ [name]) with
      | some (.link target) => jump (if target.absolute then [] else here) (target.parts ++ names)
      | some .directory => lookupWith jump (here ++ [name]) names
      | some (.file _) => if names = [] then some (here ++ [name]) else none
      | none => none

/-- What the system finds through no more than `links` links. -/
def lookup : (links : Nat) → Place → List String → Option Place
  | 0 => fs.lookupWith fun _ _ => none
  | links + 1 => fs.lookupWith (lookup links)

def isLink (place : Place) : Bool :=
  match fs.node place with
  | some (.link _) => true
  | _ => false

/-- `path.is_symlink()` of an absolute path. What cannot be found is none. -/
def isSymlink (parts : List String) : Bool :=
  match parts.getLast? with
  | none => false
  | some name =>
    name ≠ ".." && (fs.lookup maxLinks [] parts.dropLast).any fun dir => fs.isLink (dir ++ [name])

def isDir (parts : List String) : Bool :=
  (fs.lookup maxLinks [] parts).any fun place => fs.node place matches some .directory

/-- What stands at the end of an absolute path, links followed. -/
def stat (parts : List String) : Option Node := (fs.lookup maxLinks [] parts).bind fs.node

def realpathWith (strict : Bool) (jump : Place → List String → Except ResolveError Place) :
    Place → List String → Except ResolveError Place
  | here, [] => .ok here
  | here, name :: names =>
    if name = ".." then realpathWith strict jump here.dropLast names
    else match fs.node (here ++ [name]) with
      | some (.link target) => jump (if target.absolute then [] else here) (target.parts ++ names)
      | some _ => realpathWith strict jump (here ++ [name]) names
      | none => if strict then .error .missing else realpathWith strict jump (here ++ [name]) names

/-- `os.path.realpath`, through no more than `links` links. -/
def realpath (strict : Bool) : (links : Nat) → Place → List String → Except ResolveError Place
  | 0 => fs.realpathWith strict fun _ _ => .error .loop
  | links + 1 => fs.realpathWith strict (realpath strict links)

/-- The names lead from one place to another, however many links are on the way. -/
inductive Leads : Place → List String → Place → Prop
  | here {here : Place} : Leads here [] here
  | up {here there : Place} {names : List String} :
      Leads here.dropLast names there → Leads here (".." :: names) there
  | link {here there : Place} {name : String} {names : List String} {target : PurePath} :
      name ≠ ".." → fs.node (here ++ [name]) = some (.link target) →
      Leads (if target.absolute then [] else here) (target.parts ++ names) there →
      Leads here (name :: names) there
  | down {here there : Place} {name : String} {names : List String} :
      name ≠ ".." → (∀ target, fs.node (here ++ [name]) ≠ some (.link target)) →
      Leads (here ++ [name]) names there → Leads here (name :: names) there

/-- On paper the names pass no link. -/
def Clear : Place → List String → Prop
  | _, [] => True
  | here, name :: names =>
    if name = ".." then Clear here.dropLast names
    else (∀ target, fs.node (here ++ [name]) ≠ some (.link target)) ∧ Clear (here ++ [name]) names

/-- On paper the names pass directories only. -/
def Solid : Place → List String → Prop
  | _, [] => True
  | here, name :: names =>
    if name = ".." then Solid here.dropLast names
    else fs.node (here ++ [name]) = some .directory ∧ Solid (here ++ [name]) names

/-- On paper the first link stands behind what is no directory. -/
def Veiled (here : Place) (names : List String) : Prop :=
  ∃ before name rest target, names = before ++ name :: rest ∧ fs.Clear here before ∧
    ¬(fs.node here = some .directory ∧ fs.Solid here before) ∧ name ≠ ".." ∧
      fs.node (lexical here before ++ [name]) = some (.link target)

variable {fs} {jump : Place → List String → Option Place} {here there : Place}
  {name : String} {names rest : List String} {links : Nat}

/-! ## Where names lead -/

theorem leads_of_walkWith (h : fs.walkWith jump here names = some there)
    (hjump : ∀ start rest, jump start rest = some there → fs.Leads start rest there) :
    fs.Leads here names there := by
  induction names generalizing here with
  | nil =>
    obtain rfl : here = there := by simpa [walkWith] using h
    exact .here
  | cons name names ih =>
    rw [walkWith] at h
    split at h
    next hup =>
      obtain rfl := hup
      exact .up (ih h)
    next hup =>
      split at h
      next target hnode => exact .link hup hnode (hjump _ _ h)
      next hno => exact .down hup hno (ih h)

theorem leads_of_walk (h : fs.walk links here names = some there) : fs.Leads here names there := by
  induction links generalizing here names with
  | zero => exact leads_of_walkWith h fun _ _ hjump => nomatch hjump
  | succ links ih => exact leads_of_walkWith h fun _ _ hjump => ih hjump

theorem walk_eq (links : Nat) : ∃ jump, fs.walk links = fs.walkWith jump := by
  cases links with
  | zero => exact ⟨_, rfl⟩
  | succ links => exact ⟨_, rfl⟩

theorem Leads.walk (h : fs.Leads here names there) :
    ∃ links, fs.walk links here names = some there := by
  induction h with
  | here => exact ⟨0, rfl⟩
  | up _ ih =>
    obtain ⟨links, ih⟩ := ih
    obtain ⟨jump, hwalk⟩ := fs.walk_eq links
    rw [hwalk] at ih
    exact ⟨links, by rw [hwalk, walkWith, if_pos rfl, ih]⟩
  | link hup hnode _ ih =>
    obtain ⟨links, ih⟩ := ih
    exact ⟨links + 1, by simpa [FileSystem.walk, walkWith, hup, hnode] using ih⟩
  | down hup hno _ ih =>
    obtain ⟨links, ih⟩ := ih
    obtain ⟨jump, hwalk⟩ := fs.walk_eq links
    rw [hwalk] at ih
    exact ⟨links, by rw [hwalk, walkWith_cons hup hno, ih]⟩

theorem Leads.unique {there' : Place} (h : fs.Leads here names there)
    (h' : fs.Leads here names there') : there = there' := by
  induction h with
  | here =>
    cases h' with
    | here => rfl
  | up _ ih =>
    cases h' with
    | up h' => exact ih h'
    | link hup _ _ => exact absurd rfl hup
    | down hup _ _ => exact absurd rfl hup
  | link hup hnode _ ih =>
    cases h' with
    | up _ => exact absurd rfl hup
    | link _ hnode' h' =>
      obtain rfl := Node.link.inj (Option.some.inj (hnode.symm.trans hnode'))
      exact ih h'
    | down _ hno _ => exact absurd hnode (hno _)
  | down hup hno _ ih =>
    cases h' with
    | up _ => exact absurd rfl hup
    | link _ hnode _ => exact absurd hnode (hno _)
    | down _ _ h' => exact ih h'

theorem Leads.split (h : fs.Leads here (names ++ rest) there) :
    ∃ mid, fs.Leads here names mid ∧ fs.Leads mid rest there := by
  generalize hall : names ++ rest = all at h
  induction h generalizing names with
  | here =>
    obtain ⟨rfl, rfl⟩ := List.append_eq_nil_iff.mp hall
    exact ⟨_, .here, .here⟩
  | up h ih =>
    cases names with
    | nil =>
      obtain rfl := hall
      exact ⟨_, .here, .up h⟩
    | cons name names =>
      obtain ⟨rfl, rfl⟩ := List.cons.inj hall
      obtain ⟨mid, hmid, hrest⟩ := ih rfl
      exact ⟨mid, .up hmid, hrest⟩
  | link hup hnode h ih =>
    cases names with
    | nil =>
      obtain rfl := hall
      exact ⟨_, .here, .link hup hnode h⟩
    | cons name names =>
      obtain ⟨rfl, rfl⟩ := List.cons.inj hall
      obtain ⟨mid, hmid, hrest⟩ := ih (List.append_assoc ..)
      exact ⟨mid, .link hup hnode hmid, hrest⟩
  | down hup hno h ih =>
    cases names with
    | nil =>
      obtain rfl := hall
      exact ⟨_, .here, .down hup hno h⟩
    | cons name names =>
      obtain ⟨rfl, rfl⟩ := List.cons.inj hall
      obtain ⟨mid, hmid, hrest⟩ := ih rfl
      exact ⟨mid, .down hup hno hmid, hrest⟩

theorem leads_of_lookupWith (h : fs.lookupWith jump here names = some there)
    (hjump : ∀ start rest, jump start rest = some there → fs.Leads start rest there) :
    fs.Leads here names there := by
  induction names generalizing here with
  | nil =>
    obtain rfl : here = there := by simpa [lookupWith] using h
    exact .here
  | cons name names ih =>
    rw [lookupWith] at h
    split at h
    next hup =>
      obtain rfl := hup
      exact .up (ih h)
    next hup =>
      split at h
      next target hnode => exact .link hup hnode (hjump _ _ h)
      next hnode => exact .down hup (by simp [hnode]) (ih h)
      next hnode =>
        split at h
        next hnames =>
          obtain rfl := hnames
          obtain rfl := Option.some.inj h
          exact .down hup (by simp [hnode]) .here
        next => cases h
      next => cases h

theorem leads_of_lookup (h : fs.lookup links here names = some there) :
    fs.Leads here names there := by
  induction links generalizing here names with
  | zero => exact leads_of_lookupWith h fun _ _ hjump => nomatch hjump
  | succ links ih => exact leads_of_lookupWith h fun _ _ hjump => ih hjump

/-! ## `os.path.realpath` -/

section Realpath

variable {strict : Bool} {jump' : Place → List String → Except ResolveError Place}

theorem walkWith_of_realpathWith (h : fs.realpathWith strict jump' here names = .ok there)
    (hjump : ∀ start rest, jump' start rest = .ok there → jump start rest = some there) :
    fs.walkWith jump here names = some there := by
  induction names generalizing here with
  | nil =>
    obtain rfl : here = there := by simpa [realpathWith] using h
    rfl
  | cons name names ih =>
    rw [realpathWith] at h
    rw [walkWith]
    split at h
    next hup => rw [if_pos hup, ih h]
    next hup =>
      rw [if_neg hup]
      split at h
      next target hnode => simpa only [hnode] using hjump _ _ h
      next node hno hnode =>
        split
        next target hlink => exact absurd (Option.some.inj (hnode.symm.trans hlink)) (hno target)
        next => exact ih h
      next hnode =>
        split at h
        next => cases h
        next => simpa only [hnode] using ih h

theorem walk_of_realpath (h : fs.realpath strict links here names = .ok there) :
    fs.walk links here names = some there := by
  induction links generalizing here names with
  | zero => exact walkWith_of_realpathWith h fun _ _ hjump => nomatch hjump
  | succ links ih => exact walkWith_of_realpathWith h fun _ _ hjump => ih hjump

theorem realpathWith_of_walkWith (h : fs.walkWith jump here names = some there)
    (hjump : ∀ start rest, jump start rest = some there → jump' start rest = .ok there) :
    fs.realpathWith false jump' here names = .ok there := by
  induction names generalizing here with
  | nil =>
    obtain rfl : here = there := by simpa [walkWith] using h
    rfl
  | cons name names ih =>
    rw [walkWith] at h
    rw [realpathWith]
    split at h
    next hup => rw [if_pos hup, ih h]
    next hup =>
      rw [if_neg hup]
      split at h
      next target hnode => simpa only [hnode] using hjump _ _ h
      next hno =>
        split
        next target hlink => exact absurd hlink (hno target)
        next => exact ih h
        next => exact ih h

theorem realpath_of_walk (h : fs.walk links here names = some there) :
    fs.realpath false links here names = .ok there := by
  induction links generalizing here names with
  | zero => exact realpathWith_of_walkWith h fun _ _ hjump => nomatch hjump
  | succ links ih => exact realpathWith_of_walkWith h fun _ _ hjump => ih hjump

end Realpath

/-! ## Places without links -/

theorem clear_append : fs.Clear here (names ++ rest) ↔
    fs.Clear here names ∧ fs.Clear (lexical here names) rest := by
  induction names generalizing here with
  | nil => simp [Clear, lexical]
  | cons name names ih =>
    simp only [List.cons_append, Clear, lexical]
    split
    next => exact ih
    next => rw [ih, and_assoc]

theorem Clear.leads (h : fs.Clear here names) : fs.Leads here names (lexical here names) := by
  induction names generalizing here with
  | nil => exact .here
  | cons name names ih =>
    rw [Clear] at h
    rw [lexical]
    split at h
    next hup =>
      obtain rfl := hup
      exact .up (by simpa using ih h)
    next hup =>
      rw [if_neg hup]
      exact .down hup h.1 (ih h.2)

theorem exists_link (h : ¬fs.Clear here names) : ∃ before name rest target,
    names = before ++ name :: rest ∧ fs.Clear here before ∧ name ≠ ".." ∧
      fs.node (lexical here before ++ [name]) = some (.link target) := by
  induction names generalizing here with
  | nil => exact absurd trivial h
  | cons name names ih =>
    rw [Clear] at h
    split at h
    next hup =>
      obtain ⟨before, name', rest, target, rfl, hclear, hname, hnode⟩ := ih h
      exact ⟨name :: before, name', rest, target, rfl, by simpa [Clear, hup] using hclear, hname,
        by simpa [lexical, hup] using hnode⟩
    next hup =>
      by_cases hlink : ∀ target, fs.node (here ++ [name]) ≠ some (.link target)
      · obtain ⟨before, name', rest, target, rfl, hclear, hname, hnode⟩ :=
          ih fun hclear => h ⟨hlink, hclear⟩
        exact ⟨name :: before, name', rest, target, rfl,
          by simpa [Clear, hup] using ⟨hlink, hclear⟩, hname, by simpa [lexical, hup] using hnode⟩
      · simp only [ne_eq, not_forall, not_not] at hlink
        obtain ⟨target, hnode⟩ := hlink
        exact ⟨[], name, names, target, rfl, trivial, hup, hnode⟩

theorem plain_append : fs.Plain here (names ++ rest) ↔
    fs.Plain here names ∧ fs.Plain (here ++ names) rest := by
  induction names generalizing here with
  | nil => simp [Plain]
  | cons name names ih =>
    rw [List.cons_append, Plain, ih, Plain, List.append_assoc]
    simp only [and_assoc, List.singleton_append]

theorem plain_dropLast (h : fs.Plain [] here) : fs.Plain [] here.dropLast := by
  rcases List.eq_nil_or_concat here with rfl | ⟨init, last, rfl⟩
  · exact trivial
  · rw [List.concat_eq_append] at h ⊢
    rw [List.dropLast_concat]
    exact (plain_append.mp h).1

theorem Leads.plain (h : fs.Leads here names there) (hplain : fs.Plain [] here) :
    fs.Plain [] there := by
  induction h with
  | here => exact hplain
  | up _ ih => exact ih (plain_dropLast hplain)
  | link _ _ _ ih =>
    refine ih ?_
    split
    · trivial
    · exact hplain
  | down hup hno _ ih =>
    exact ih (plain_append.mpr ⟨hplain, hup, by simpa using hno, trivial⟩)

theorem Plain.clear (h : fs.Plain here names) : fs.Clear here names := by
  induction names generalizing here with
  | nil => trivial
  | cons name names ih =>
    obtain ⟨hup, hlink, hplain⟩ := h
    rw [Clear, if_neg hup]
    exact ⟨hlink, ih hplain⟩

theorem Plain.lexical (h : fs.Plain here names) : lexical here names = here ++ names := by
  induction names generalizing here with
  | nil => simp [Library.lexical]
  | cons name names ih =>
    obtain ⟨hup, -, hplain⟩ := h
    rw [Library.lexical, if_neg hup, ih hplain, List.append_assoc, List.singleton_append]

/-! ## What the system finds -/

theorem lookupWith_solid (h : fs.Solid here names) :
    fs.lookupWith jump here (names ++ rest) = fs.lookupWith jump (lexical here names) rest := by
  induction names generalizing here with
  | nil => rfl
  | cons name names ih =>
    rw [Solid] at h
    rw [List.cons_append, lookupWith, lexical]
    split at h
    next hup => rw [if_pos hup, if_pos hup, ih h]
    next hup =>
      rw [if_neg hup, if_neg hup]
      simp only [h.1, ih h.2]

theorem lookup_eq (links : Nat) : ∃ jump, fs.lookup links = fs.lookupWith jump := by
  cases links with
  | zero => exact ⟨_, rfl⟩
  | succ links => exact ⟨_, rfl⟩

theorem lookup_solid (h : fs.Solid here names) :
    fs.lookup links here names = some (lexical here names) := by
  obtain ⟨jump, hlookup⟩ := fs.lookup_eq links
  have hsolid : fs.lookupWith jump here (names ++ []) = fs.lookupWith jump
    (lexical here names) [] :=
    lookupWith_solid h
  simpa [hlookup, lookupWith] using hsolid

theorem lookupWith_append
    (hjump : ∀ start more, jump start more = some there →
      jump start (more ++ rest) = some (lexical there rest))
    (hdir : fs.node there = some .directory) (hsolid : fs.Solid there rest)
    (h : fs.lookupWith jump here names = some there) :
    fs.lookupWith jump here (names ++ rest) = some (lexical there rest) := by
  induction names generalizing here with
  | nil =>
    obtain rfl : here = there := by simpa [lookupWith] using h
    have hpaper : fs.lookupWith jump here (rest ++ []) = fs.lookupWith jump
      (lexical here rest) [] :=
      lookupWith_solid hsolid
    simpa [lookupWith] using hpaper
  | cons name names ih =>
    rw [lookupWith] at h
    rw [List.cons_append, lookupWith]
    split at h
    next hup => rw [if_pos hup, ih h]
    next hup =>
      rw [if_neg hup]
      split at h
      next target hnode => simpa only [hnode, List.append_assoc] using hjump _ _ h
      next hnode => simpa only [hnode] using ih h
      next hnode =>
        split at h
        next =>
          obtain rfl := Option.some.inj h
          cases hdir.symm.trans hnode
        next => cases h
      next => cases h

theorem lookup_append (h : fs.lookup links here names = some there)
    (hdir : fs.node there = some .directory) (hsolid : fs.Solid there rest) :
    fs.lookup links here (names ++ rest) = some (lexical there rest) := by
  induction links generalizing here names with
  | zero => exact lookupWith_append (fun _ _ hjump => nomatch hjump) hdir hsolid h
  | succ links ih => exact lookupWith_append (fun _ _ hjump => ih hjump) hdir hsolid h

theorem solid_of_lookup (hclear : fs.Clear here names)
    (h : fs.lookup links here (names ++ rest) = some there)
    (hrest : rest ≠ [] ∨ fs.node there = some .directory) : fs.Solid here names := by
  obtain ⟨jump, hlookup⟩ := fs.lookup_eq links
  rw [hlookup] at h
  induction names generalizing here with
  | nil => trivial
  | cons name names ih =>
    rw [Clear] at hclear
    rw [List.cons_append, lookupWith] at h
    rw [Solid]
    split at h
    next hup =>
      rw [if_pos hup] at hclear ⊢
      exact ih hclear h
    next hup =>
      rw [if_neg hup] at hclear ⊢
      split at h
      next target hnode => exact absurd hnode (hclear.1 target)
      next hnode => exact ⟨hnode, ih hclear.2 h⟩
      next hnode =>
        split at h
        next hnil =>
          obtain rfl := Option.some.inj h
          rcases hrest with hrest | hdir
          · exact absurd (List.append_eq_nil_iff.mp hnil).2 hrest
          · rw [hnode] at hdir
            cases hdir
        next => cases h
      next => cases h

theorem Clear.lookup (hclear : fs.Clear here names)
    (h : fs.lookup links here names = some there) : there = lexical here names :=
  (leads_of_lookup h).unique hclear.leads

@[simp] theorem isLink_iff {place : Place} :
    fs.isLink place = true ↔ ∃ target, fs.node place = some (.link target) := by
  rw [isLink]
  split
  next target hnode => simp [hnode]
  next hno => simpa using fun target => hno target

theorem Veiled.not_clear (h : fs.Veiled here names) : ¬fs.Clear here names := by
  obtain ⟨before, name, rest, target, rfl, -, -, hname, hnode⟩ := h
  intro hclear
  have hrest := (clear_append.mp hclear).2
  rw [Clear, if_neg hname] at hrest
  exact hrest.1 target hnode

theorem stat_eq_some {node : Node} : fs.stat names = some node ↔
    ∃ place, fs.lookup maxLinks [] names = some place ∧ fs.node place = some node :=
  Option.bind_eq_some_iff

theorem clear_cons : fs.Clear here (name :: names) ↔ if name = ".." then
    fs.Clear here.dropLast names
      else fs.isLink (here ++ [name]) = false ∧ fs.Clear (here ++ [name]) names := by
  rw [Clear, ← Bool.not_eq_true, isLink_iff, not_exists]

instance Clear.decidable : (here : Place) → (names : List String) → Decidable (fs.Clear here names)
  | _, [] => isTrue trivial
  | here, name :: names =>
    have := Clear.decidable here.dropLast names
    have := Clear.decidable (here ++ [name]) names
    decidable_of_iff _ clear_cons.symm

theorem Plain.lookup (hplain : fs.Plain [] names) (h : fs.lookup links [] names = some there) :
    there = names := by
  rw [hplain.clear.lookup h, hplain.lexical, List.nil_append]

theorem isSymlink_append : fs.isSymlink (names ++ [name]) = true ↔ name ≠ ".." ∧
    ∃ dir target, fs.lookup maxLinks [] names = some dir ∧
      fs.node (dir ++ [name]) = some (.link target) := by
  simp [isSymlink, Option.any_eq_true]

theorem any_isSymlink : names.inits.any fs.isSymlink = true ↔
    ∃ before name rest, names = before ++ name :: rest ∧
      fs.isSymlink (before ++ [name]) = true := by
  simp only [List.any_eq_true, List.mem_inits]
  constructor
  · rintro ⟨parts, ⟨rest, rfl⟩, hlink⟩
    rcases List.eq_nil_or_concat parts with rfl | ⟨before, name, rfl⟩
    · cases hlink
    · rw [List.concat_eq_append] at hlink ⊢
      exact ⟨before, name, rest, by simp, hlink⟩
  · rintro ⟨before, name, rest, rfl, hlink⟩
    exact ⟨before ++ [name], ⟨rest, by simp⟩, hlink⟩

theorem isDir_iff : fs.isDir names = true ↔
    ∃ place, fs.lookup maxLinks [] names = some place ∧ fs.node place = some .directory := by
  simp only [isDir, Option.any_eq_true]
  refine exists_congr fun place => and_congr_right fun _ => ?_
  cases hnode : fs.node place with
  | none => simp
  | some node => cases node <;> simp

end FileSystem

end Library
