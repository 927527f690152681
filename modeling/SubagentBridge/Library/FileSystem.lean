import SubagentBridge.Library.Paths

/-! A tree of directories, files and symbolic links, and where a path leads in it. -/

namespace Library

abbrev Place := List String

inductive Node
  | directory
  | file (content : String)
  | link (target : PurePath)

structure FileSystem where
  node : Place → Option Node

namespace FileSystem

variable (fs : FileSystem)

def walkWith (jump : Place → List String → Option Place) : Place → List String → Option Place
  | here, [] => some here
  | here, name :: names =>
    if name = ".." then walkWith jump here.dropLast names
    else match fs.node (here ++ [name]) with
      | some (.link target) => jump (if target.absolute then [] else here) (target.parts ++ names)
      | _ => walkWith jump (here ++ [name]) names

/-- Follows names through no more than `links` links. What is missing counts as a directory. -/
def walk : (links : Nat) → Place → List String → Option Place
  | 0 => fs.walkWith fun _ _ => none
  | links + 1 => fs.walkWith (walk links)

/-- How many links the system goes through before it gives up. -/
def maxLinks : Nat := 40

def follow (cwd : Place) (p : PurePath) : Option Place :=
  fs.walk maxLinks (if p.absolute then [] else cwd) p.parts

/-- From `here` the names lead neither up nor through a link. -/
def Plain : Place → List String → Prop
  | _, [] => True
  | here, name :: names =>
    name ≠ ".." ∧ (∀ target, fs.node (here ++ [name]) ≠ some (.link target)) ∧
      Plain (here ++ [name]) names

def Grows (written : List Place) (fs' : FileSystem) : Prop :=
  ∀ place, fs'.node place = fs.node place ∨ place ∈ written ∨
    fs.node place = none ∧ fs'.node place = some .directory

def put (place : Place) (text : String) : FileSystem where
  node := fun p => if p = place then some (.file text) else fs.node p

@[simp] theorem node_put (place : Place) (text : String) :
    (fs.put place text).node place = some (.file text) := if_pos rfl

theorem grows_put (place : Place) (text : String) : fs.Grows [place] (fs.put place text) := by
  intro p
  by_cases h : p = place
  · exact .inr (.inl (List.mem_singleton.mpr h))
  · exact .inl (if_neg h)

variable {fs} {jump : Place → List String → Option Place}

theorem walkWith_cons {here : Place} {name : String} {names : List String} (hup : name ≠ "..")
    (hlink : ∀ target, fs.node (here ++ [name]) ≠ some (.link target)) :
    fs.walkWith jump here (name :: names) = fs.walkWith jump (here ++ [name]) names := by
  rw [walkWith, if_neg hup]
  split
  next target h => exact absurd h (hlink target)
  next => rfl

theorem walkWith_plain {here : Place} {names : List String} (h : fs.Plain here names) :
    fs.walkWith jump here names = some (here ++ names) := by
  induction names generalizing here with
  | nil => simp [walkWith]
  | cons name names ih =>
    obtain ⟨hup, hlink, hplain⟩ := h
    rw [walkWith_cons hup hlink, ih hplain, List.append_assoc]
    rfl

theorem walkWith_append {jump : Place → List String → Option Place} {here there : Place}
    {names names' : List String}
    (hjump : ∀ start rest, jump start rest = some there →
      jump start (rest ++ names') = some (there ++ names'))
    (h : fs.walkWith jump here names = some there) (hplain : fs.Plain there names') :
    fs.walkWith jump here (names ++ names') = some (there ++ names') := by
  induction names generalizing here with
  | nil =>
    obtain rfl : here = there := by simpa [walkWith] using h
    exact walkWith_plain hplain
  | cons name names ih =>
    rw [List.cons_append, walkWith]
    rw [walkWith] at h
    split
    next hup =>
      rw [if_pos hup] at h
      exact ih h
    next hup =>
      rw [if_neg hup] at h
      split
      next target hnode =>
        rw [hnode] at h
        simpa using hjump _ _ h
      next hno =>
        split at h
        next target hnode => exact absurd hnode (hno target)
        next => exact ih h

theorem walk_append {links : Nat} {here there : Place} {names names' : List String}
    (h : fs.walk links here names = some there) (hplain : fs.Plain there names') :
    fs.walk links here (names ++ names') = some (there ++ names') := by
  induction links generalizing here names with
  | zero => exact walkWith_append (fun _ _ hjump => nomatch hjump) h hplain
  | succ links ih => exact walkWith_append (fun _ _ hjump => ih hjump) h hplain

end FileSystem

end Library
