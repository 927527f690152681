import SubagentBridge.Library.PathResolution

/-! Paths bound to a workspace, and the files read through them. -/

namespace SubagentBridge.Execution

open Library

inductive ScopeError
  | valueError (message : String)
  | permissionError (message : String)
  | unresolved (e : ResolveError)
  deriving DecidableEq

structure ScopedWorkspace (tree : Tree) where
  root : Place
  root_directory : tree.node root = some .directory

namespace ScopedWorkspace

variable {tree : Tree}

theorem directory_of_realpath {links : Nat} {parts : List String} {root : Place}
    (hdir : tree.isDir parts) (h : tree.realpath true links [] parts = .ok root) :
    tree.node root = some .directory := by
  obtain ⟨place, hplace, hnode⟩ := FileSystem.isDir_iff.mp hdir
  have hroot := FileSystem.leads_of_walk (FileSystem.walk_of_realpath h)
  rwa [hroot.unique (FileSystem.leads_of_lookup hplace)]

def init (tree : Tree) (links : Nat) (cwd : Place) (root : String) :
    Except ScopeError (ScopedWorkspace tree) :=
  let p := PurePath.ofString root
  let parts := if p.absolute then p.parts else cwd ++ p.parts
  if hdir : tree.isDir parts then
    if tree.isSymlink parts then
      .error (.valueError "workspace root must exist and not be a link/junction")
    else match h : tree.realpath true links [] parts with
      | .ok root => .ok ⟨root, directory_of_realpath hdir h⟩
      | .error e => .error (.unresolved e)
  else .error (.valueError "workspace root must exist and not be a link/junction")

variable (ws : ScopedWorkspace tree)

def candidate (userPath : String) : List String :=
  let p := PurePath.ofString userPath
  if p.absolute then p.parts else ws.root ++ p.parts

def hasNull (parts : List String) : Bool :=
  parts.any fun part => part.toList.contains (Char.ofNat 0)

def requirePath (links : Nat) (userPath : String) (mustExist : Bool) : Except ScopeError Place :=
  let candidate := ws.candidate userPath
  if candidate.inits.any tree.isSymlink then
    .error (.permissionError "linked path/junction is denied")
  else if hasNull candidate then .error (.valueError "embedded null byte")
  else match tree.realpath mustExist links [] candidate with
    | .error e => .error (.unresolved e)
    | .ok resolved =>
      -- `commonpath` of the root and the resolved path is the root
      if ws.root.isPrefixOf resolved then .ok resolved
      else .error (.permissionError "path outside bound workspace")

def maxReadTextBytes : Nat := 4 * 1024 * 1024

def readText (links : Nat) (relativePath : String) : Except ScopeError String :=
  match ws.requirePath links relativePath false with
  | .error e => .error e
  | .ok path =>
    match (tree.lookup FileSystem.maxLinks [] path).bind tree.node with
    | some (.file content) =>
      if content.utf8ByteSize > maxReadTextBytes then
        .error (.permissionError "read-only inspection file exceeds size limit")
      else .ok content
    | _ => .error (.permissionError "regular file required")

/-- A request is refused, or answered inside the workspace, where it says and through no link. -/
structure Scoped (userPath : String) : Prop where
  require : ∀ links mustExist resolved, ws.requirePath links userPath mustExist = .ok resolved →
    ws.root <+: resolved ∧ resolved = lexical [] (ws.candidate userPath) ∧
      tree.Clear [] (ws.candidate userPath)
  read : ∀ links text, ws.readText links userPath = .ok text →
    ∃ place, ws.root <+: place ∧ tree.node place = some (.file text)

/-- The first link on the way stands behind what is no directory, where it cannot be seen, and
the way through it ends in the workspace. -/
structure Overlooks (userPath : String) : Prop where
  not_null : hasNull (ws.candidate userPath) = false
  hidden : ∃ before name rest target, ws.candidate userPath = before ++ name :: rest ∧
    tree.Clear [] before ∧ ¬tree.Solid [] before ∧ name ≠ ".." ∧
      tree.node (lexical [] before ++ [name]) = some (.link target)
  inside : ∃ place, ws.root <+: place ∧ tree.Leads [] (ws.candidate userPath) place

variable {ws} {links : Nat} {userPath : String} {mustExist : Bool} {resolved : Place}

theorem requirePath_ok (h : ws.requirePath links userPath mustExist = .ok resolved) :
    ¬(ws.candidate userPath).inits.any tree.isSymlink ∧
      hasNull (ws.candidate userPath) = false ∧
      tree.realpath mustExist links [] (ws.candidate userPath) = .ok resolved ∧
      ws.root <+: resolved := by
  rw [requirePath] at h
  split at h
  next => cases h
  next hlink =>
    split at h
    next => cases h
    next hnull =>
      split at h
      next => cases h
      next place hplace =>
        split at h
        next hroot =>
          obtain rfl := Except.ok.inj h
          exact ⟨hlink, by simpa using hnull, hplace, List.isPrefixOf_iff_prefix.mp hroot⟩
        next => cases h

theorem require_within (h : ws.requirePath links userPath mustExist = .ok resolved) :
    ws.root <+: resolved :=
  (requirePath_ok h).2.2.2

theorem require_leads (h : ws.requirePath links userPath mustExist = .ok resolved) :
    tree.Leads [] (ws.candidate userPath) resolved :=
  FileSystem.leads_of_walk (FileSystem.walk_of_realpath (requirePath_ok h).2.2.1)

theorem require_plain (h : ws.requirePath links userPath mustExist = .ok resolved) :
    tree.Plain [] resolved :=
  (require_leads h).plain trivial

theorem read_within {text : String} (h : ws.readText links userPath = .ok text) :
    ∃ place, ws.root <+: place ∧ tree.node place = some (.file text) := by
  rw [readText] at h
  split at h
  next => cases h
  next path hpath =>
    split at h
    next content hcontent =>
      split at h
      next => cases h
      next =>
        obtain rfl := Except.ok.inj h
        obtain ⟨place, hplace, hnode⟩ := Option.bind_eq_some_iff.mp hcontent
        obtain rfl := (require_plain hpath).lookup hplace
        exact ⟨place, require_within hpath, hnode⟩
    next => cases h

theorem isSymlink_of_solid {before : List String} {name : String} {target : PurePath}
    (hsolid : tree.Solid [] before) (hname : name ≠ "..")
    (hnode : tree.node (lexical [] before ++ [name]) = some (.link target)) :
    tree.isSymlink (before ++ [name]) = true :=
  FileSystem.isSymlink_append.mpr ⟨hname, _, target, FileSystem.lookup_solid hsolid, hnode⟩

theorem require_clear (h : ws.requirePath links userPath mustExist = .ok resolved)
    (hclear : tree.Clear [] (ws.candidate userPath)) :
    resolved = lexical [] (ws.candidate userPath) :=
  (require_leads h).unique hclear.leads

theorem clear_of_not_overlooks (h : ws.requirePath links userPath mustExist = .ok resolved)
    (hno : ¬ws.Overlooks userPath) : tree.Clear [] (ws.candidate userPath) := by
  by_contra hclear
  obtain ⟨hlink, hnull, -, hroot⟩ := requirePath_ok h
  obtain ⟨before, name, rest, target, hparts, hbefore, hname, hnode⟩ :=
    FileSystem.exists_link hclear
  refine hno ⟨hnull, ⟨before, name, rest, target, hparts, hbefore, ?_, hname, hnode⟩,
    resolved, hroot, require_leads h⟩
  intro hsolid
  exact hlink (FileSystem.any_isSymlink.mpr
    ⟨before, name, rest, hparts, isSymlink_of_solid hsolid hname hnode⟩)

theorem lookup_ne {before : List String} {name : String} {target : PurePath} {dir : Place}
    (hclear : tree.Clear [] before) (hsolid : ¬tree.Solid [] before)
    (hnode : tree.node (lexical [] before ++ [name]) = some (.link target)) :
    tree.lookup FileSystem.maxLinks [] before ≠ some dir := by
  intro hdir
  have hplace : tree.node (lexical [] before) = some .directory :=
    tree.node_parent (ne_of_eq_of_ne hnode (Option.some_ne_none _))
  rw [← hclear.lookup hdir] at hplace
  rw [← List.append_nil before] at hdir
  exact hsolid (FileSystem.solid_of_lookup hclear hdir (.inr hplace))

theorem not_isSymlink {before rest : List String} {name : String} {target : PurePath}
    (hclear : tree.Clear [] before) (hsolid : ¬tree.Solid [] before)
    (hnode : tree.node (lexical [] before ++ [name]) = some (.link target)) :
    ¬(before ++ name :: rest).inits.any tree.isSymlink := by
  rw [FileSystem.any_isSymlink]
  rintro ⟨front, last, tail, hparts, hlink⟩
  obtain ⟨hlast, dir, target', hdir, hnode'⟩ := FileSystem.isSymlink_append.mp hlink
  rcases List.append_eq_append_iff.mp hparts with ⟨more, rfl, hmore⟩ | ⟨more, rfl, hmore⟩
  · cases more with
    | nil =>
      obtain ⟨rfl, rfl⟩ := List.cons.inj hmore
      rw [List.append_nil] at hdir
      exact lookup_ne hclear hsolid hnode hdir
    | cons _ more => exact hsolid (FileSystem.solid_of_lookup hclear hdir (.inl (by simp)))
  · cases more with
    | nil =>
      obtain ⟨rfl, rfl⟩ := List.cons.inj hmore
      rw [List.append_nil] at hclear hsolid hnode
      exact lookup_ne hclear hsolid hnode hdir
    | cons last' more =>
      obtain ⟨rfl, -⟩ := List.cons.inj hmore
      obtain ⟨hfront, hrest⟩ := FileSystem.clear_append.mp hclear
      rw [FileSystem.Clear, if_neg hlast] at hrest
      obtain rfl := hfront.lookup hdir
      exact hrest.1 target' hnode'

def linkedTree : Tree :=
  .ofList [([], .directory), (["ws"], .directory), (["ws", "real"], .directory),
    (["ws", "real", "x"], .file "text"), (["ws", "link"], .link ⟨false, ["real"]⟩)]
    (by decide +kernel)

def linkedWorkspace : ScopedWorkspace linkedTree := ⟨["ws"], rfl⟩

end ScopedWorkspace

end SubagentBridge.Execution
