import SubagentBridge.Library.PathResolution
import SubagentBridge.Recovery.AcceptedHandoff

/-! The files that the artifacts of a handoff name, in a tree of directories and links. -/

namespace SubagentBridge.Supervisor

open Library Domain TeamStore

variable {F : Type}

/-- The names of a path from `/` down. -/
def namesOf (cwd : Place) (p : PurePath) : List String :=
  if p.absolute then p.parts else cwd ++ p.parts

/-- What the system answers is so in the tree; the digest of a file is that of its content. -/
structure Mirrors (w : World F) (tree : Tree) (cwd : Place) (digest : String → String) : Prop where
  pathExists : ∀ p b, w.answer (.pathExists p) = .ok b → b = (tree.stat (namesOf cwd p)).isSome
  isSymlink : ∀ p b, w.answer (.isSymlink p) = .ok b → b = tree.isSymlink (namesOf cwd p)
  resolvePath : ∀ p q, w.answer (.resolvePath p) = .ok q → ∃ links place,
    tree.realpath false links [] (namesOf cwd p) = .ok place ∧ q = ⟨true, place⟩
  fileSha : ∀ p h, w.answer (.fileSha p) = .ok h →
    ∃ content, tree.stat (namesOf cwd p) = some (.file content) ∧ h = digest content

def present (tree : Tree) (cwd : Place) (path : Option PurePath) : Option PurePath :=
  path.filter fun p => (tree.stat (namesOf cwd p)).isSome

/-- The directory in which the artifacts of the worker are looked up: its worktree if something
is there, else its working directory. -/
def workspaceOf (tree : Tree) (cwd : Place) (wt : Option (WorktreeAssignment F))
    (worker : AgentSession F) : Option PurePath :=
  (present tree cwd (wt.map (.ofString ·.worktreePath))).or
    (present tree cwd (nonempty worker.config.workingDir))

/-- From where, and by which names, a path is reached: from the workspace if the path begins with
that of the workspace, else from `/`. -/
def wayTo (cwd root : Place) (baseDir p : PurePath) : Place × List String :=
  if p.absolute = baseDir.absolute ∧ baseDir.parts <+: p.parts then
    (root, p.parts.drop baseDir.parts.length)
  else ([], namesOf cwd p)

/-- The artifact is a regular file of the workspace, with the declared digest, and no link is on
the way to it. -/
structure Delivered (tree : Tree) (digest : String → String) (root : Place)
    (way : Place × List String) (declared : Dict String (Json F)) (art : String) : Prop where
  clear : tree.Clear way.1 way.2
  inside : root <+: lexical way.1 way.2
  regular : ∃ content d, tree.node (lexical way.1 way.2) = some (.file content) ∧
    (fetch declared art).text = some d ∧ isHexDigest d ∧ lower (digest content) = lower d

def ArtifactsDelivered (tree : Tree) (cwd : Place) (digest : String → String) (db : Db F)
    (evidence : HandoffEvidence F) (worker : AgentSession F) : Prop :=
  ∃ baseDir root declared,
    workspaceOf tree cwd (db.loadWorktree evidence.fromWorkerId) worker = some baseDir ∧
    tree.Leads [] (namesOf cwd baseDir) root ∧
    (fetch evidence.metrics "artifact_hashes").members = some declared ∧
    ∀ art ∈ evidence.artifacts,
      Delivered tree digest root (wayTo cwd root baseDir (baseDir.join art)) declared art

/-- The first link on the way to the artifact stands behind what is no directory. -/
def Veils (tree : Tree) (cwd : Place) (db : Db F) (evidence : HandoffEvidence F)
    (worker : AgentSession F) (art : String) : Prop :=
  ∃ baseDir root, workspaceOf tree cwd (db.loadWorktree evidence.fromWorkerId) worker =
      some baseDir ∧ tree.Leads [] (namesOf cwd baseDir) root ∧
    tree.Veiled (wayTo cwd root baseDir (baseDir.join art)).1
      (wayTo cwd root baseDir (baseDir.join art)).2

variable {w : World F} {tree : Tree} {cwd root : Place} {digest : String → String} {db : Db F}
  {evidence : HandoffEvidence F} {worker : AgentSession F} {baseDir : PurePath} {art : String}

theorem present_of_found (hw : Mirrors w tree cwd digest) {path r : Option PurePath}
    (h : Found w path r) : present tree cwd path = r := by
  cases path with
  | none => exact h.symm
  | some p =>
    cases r with
    | none =>
      rw [present, Option.filter_some, ← hw.pathExists p false h]
      rfl
    | some q =>
      obtain ⟨rfl, h⟩ := h
      rw [present, Option.filter_some, ← hw.pathExists p true h]
      rfl

theorem workspaceOf_eq (hw : Mirrors w tree cwd digest) {wt : Option (WorktreeAssignment F)}
    (h : IsWorkspace w wt worker baseDir) : workspaceOf tree cwd wt worker = some baseDir := by
  rw [workspaceOf]
  rcases h with h | ⟨h, h'⟩
  · rw [present_of_found hw h, Option.some_or]
  · rw [present_of_found hw h, present_of_found hw h', Option.none_or]

theorem stat_of_workspace (h : workspaceOf tree cwd (db.loadWorktree evidence.fromWorkerId) worker =
    some baseDir) : ∃ node, tree.stat (namesOf cwd baseDir) = some node := by
  have hpresent {path : Option PurePath} (h : present tree cwd path = some baseDir) :
      ∃ node, tree.stat (namesOf cwd baseDir) = some node :=
    Option.isSome_iff_exists.mp (Option.filter_eq_some_iff.mp h).2
  rw [workspaceOf, Option.or_eq_some_iff] at h
  exact h.elim hpresent fun h => hpresent h.2

/-! ### The way to an artifact -/

section Way

variable {p : PurePath} {rest : List String}

theorem wayTo_below (habs : p.absolute = baseDir.absolute)
    (hrest : baseDir.parts ++ rest = p.parts) :
    wayTo cwd root baseDir p = (root, rest) := by
  rw [wayTo, if_pos ⟨habs, rest, hrest⟩, ← hrest, List.drop_left]

theorem namesOf_below (habs : p.absolute = baseDir.absolute)
    (hrest : baseDir.parts ++ rest = p.parts) :
    namesOf cwd p = namesOf cwd baseDir ++ rest := by
  rw [namesOf, namesOf, habs, ← hrest]
  split
  next => rfl
  next => rw [List.append_assoc]

theorem absolute_of_apart (h : ¬((baseDir.join art).absolute = baseDir.absolute ∧
    baseDir.parts <+: (baseDir.join art).parts)) : (baseDir.join art).absolute = true := by
  rw [PurePath.join] at h ⊢
  split
  next habs => exact habs
  next hrel =>
    rw [if_neg hrel] at h
    exact absurd ⟨rfl, List.prefix_append _ _⟩ h

theorem leads_way {place : Place} (hroot : tree.Leads [] (namesOf cwd baseDir) root)
    (h : tree.Leads [] (namesOf cwd p) place) :
    tree.Leads (wayTo cwd root baseDir p).1 (wayTo cwd root baseDir p).2 place := by
  by_cases hbelow : p.absolute = baseDir.absolute ∧ baseDir.parts <+: p.parts
  · obtain ⟨habs, rest, hrest⟩ := hbelow
    rw [namesOf_below habs hrest] at h
    obtain ⟨mid, hmid, hplace⟩ := h.split
    rwa [wayTo_below habs hrest, hroot.unique hmid]
  · rwa [wayTo, if_neg hbelow]

theorem exists_symlink {node : Node} (hstat : tree.stat (namesOf cwd baseDir) = some node)
    (hroot : tree.Leads [] (namesOf cwd baseDir) root)
    (hclear : ¬tree.Clear (wayTo cwd root baseDir (baseDir.join art)).1
      (wayTo cwd root baseDir (baseDir.join art)).2)
    (hveiled : ¬tree.Veiled (wayTo cwd root baseDir (baseDir.join art)).1
      (wayTo cwd root baseDir (baseDir.join art)).2) :
    ∃ cur ∈ PurePath.below baseDir (baseDir.join art), tree.isSymlink (namesOf cwd cur) = true := by
  obtain ⟨before, name, after, target, hnames, hbefore, hname, hnode⟩ :=
    FileSystem.exists_link hclear
  have hsolid : tree.node (wayTo cwd root baseDir (baseDir.join art)).1 = some .directory ∧
      tree.Solid (wayTo cwd root baseDir (baseDir.join art)).1 before := by
    by_contra hsolid
    exact hveiled ⟨before, name, after, target, hnames, hbefore, hsolid, hname, hnode⟩
  by_cases hbelow : (baseDir.join art).absolute = baseDir.absolute ∧
      baseDir.parts <+: (baseDir.join art).parts
  · obtain ⟨habs, rest, hrest⟩ := hbelow
    rw [wayTo_below habs hrest] at hnames hbefore hnode hsolid
    obtain ⟨place, hplace, -⟩ := FileSystem.stat_eq_some.mp hstat
    obtain rfl := hroot.unique (FileSystem.leads_of_lookup hplace)
    have hfront : baseDir.parts ++ (before ++ [name]) <+: (baseDir.join art).parts := by
      rw [← hrest, show rest = before ++ name :: after from hnames]
      exact ⟨after, by simp⟩
    refine ⟨⟨(baseDir.join art).absolute, baseDir.parts ++ (before ++ [name])⟩,
      PurePath.mem_below (by simp) hfront fun parts hparts _ heq => ?_, ?_⟩
    · have hlength := hparts.length_le
      rw [← congrArg PurePath.parts heq] at hlength
      simp at hlength
    · have hcur : namesOf cwd ⟨(baseDir.join art).absolute, baseDir.parts ++ (before ++ [name])⟩ =
          namesOf cwd baseDir ++ (before ++ [name]) := namesOf_below habs rfl
      rw [hcur, ← List.append_assoc, FileSystem.isSymlink_append]
      exact ⟨hname, _, target, FileSystem.lookup_append hplace hsolid.1 hsolid.2, hnode⟩
  · have habs := absolute_of_apart hbelow
    have hway : wayTo cwd root baseDir (baseDir.join art) = ([], (baseDir.join art).parts) := by
      rw [wayTo, if_neg hbelow, namesOf, if_pos habs]
    rw [hway] at hnames hbefore hnode hsolid
    have hfront : before ++ [name] <+: (baseDir.join art).parts := ⟨after, by simp [← hnames]⟩
    refine ⟨⟨(baseDir.join art).absolute, before ++ [name]⟩,
      PurePath.mem_below (by simp) hfront fun parts _ hparts heq => ?_, ?_⟩
    · have hbase : parts = baseDir.parts := (congrArg PurePath.parts heq :)
      exact hbelow ⟨(congrArg PurePath.absolute heq :), hbase ▸ hparts⟩
    · rw [namesOf, if_pos habs, FileSystem.isSymlink_append]
      exact ⟨hname, _, target, FileSystem.lookup_solid hsolid.2, hnode⟩

end Way

/-! ### What the checks have seen -/

theorem resolved_leads (hw : Mirrors w tree cwd digest) {p q : PurePath}
    (h : w.answer (.resolvePath p) = .ok q) :
    ∃ place, q = ⟨true, place⟩ ∧ tree.Leads [] (namesOf cwd p) place := by
  obtain ⟨links, place, hplace, rfl⟩ := hw.resolvePath p q h
  exact ⟨place, rfl, FileSystem.leads_of_walk (FileSystem.walk_of_realpath hplace)⟩

theorem delivered_of_checks (hw : Mirrors w tree cwd digest) {declared : Dict String (Json F)}
    (hws : workspaceOf tree cwd (db.loadWorktree evidence.fromWorkerId) worker = some baseDir)
    (hroot : tree.Leads [] (namesOf cwd baseDir) root)
    (hcontained : Contained w baseDir ⟨true, root⟩ art)
    (hmatches : HashMatches w baseDir declared art)
    (hveiled : ¬tree.Veiled (wayTo cwd root baseDir (baseDir.join art)).1
      (wayTo cwd root baseDir (baseDir.join art)).2) :
    Delivered tree digest root (wayTo cwd root baseDir (baseDir.join art)) declared art := by
  obtain ⟨path, hpath, hinside⟩ := hcontained.inside
  obtain ⟨place, rfl, hplace⟩ := resolved_leads hw hpath
  have hclear : tree.Clear (wayTo cwd root baseDir (baseDir.join art)).1
      (wayTo cwd root baseDir (baseDir.join art)).2 := by
    by_contra hclear
    obtain ⟨node, hstat⟩ := stat_of_workspace hws
    obtain ⟨cur, hcur, hlink⟩ := exists_symlink hstat hroot hclear hveiled
    cases hlink.symm.trans (hw.isSymlink cur false (hcontained.below cur hcur)).symm
  have hlexical : lexical (wayTo cwd root baseDir (baseDir.join art)).1
      (wayTo cwd root baseDir (baseDir.join art)).2 = place :=
    hclear.leads.unique (leads_way hroot hplace)
  refine ⟨hclear, ?_, ?_⟩
  · rw [hlexical]
    simpa [PurePath.isRelativeTo] using hinside
  · obtain ⟨path', d, h, htext, hd, hpath', -, -, hsha, heq⟩ := hmatches
    cases hpath.symm.trans hpath'
    obtain ⟨content, hcontent, rfl⟩ := hw.fileSha _ h hsha
    obtain ⟨found, hfound, hnode⟩ := FileSystem.stat_eq_some.mp hcontent
    obtain rfl := (hplace.plain trivial).lookup hfound
    exact ⟨content, d, by rw [hlexical]; exact hnode, htext, hd, heq⟩

theorem artifactsDelivered (hw : Mirrors w tree cwd digest)
    (h : ArtifactsVerified w db evidence worker)
    (hveils : ∀ art ∈ evidence.artifacts, ¬Veils tree cwd db evidence worker art) :
    ArtifactsDelivered tree cwd digest db evidence worker := by
  obtain ⟨baseDir, resolved, declared, hws, -, hresolved, hdecl, harts⟩ := h
  obtain ⟨root, rfl, hroot⟩ := resolved_leads hw hresolved
  have hws := workspaceOf_eq hw hws
  refine ⟨baseDir, root, declared, hws, hroot, hdecl, fun art hart => ?_⟩
  obtain ⟨hcontained, hmatches⟩ := harts art hart
  exact delivered_of_checks hw hws hroot hcontained hmatches fun hveiled =>
    hveils art hart ⟨baseDir, root, hws, hroot, hveiled⟩

theorem ArtifactsDelivered.not_veils (h : ArtifactsDelivered tree cwd digest db evidence worker)
    (hart : art ∈ evidence.artifacts) : ¬Veils tree cwd db evidence worker art := by
  rintro ⟨baseDir, root, hws, hroot, hveiled⟩
  obtain ⟨baseDir', root', declared, hws', hroot', -, harts⟩ := h
  obtain rfl := Option.some.inj (hws.symm.trans hws')
  obtain rfl := hroot.unique hroot'
  exact hveiled.not_clear (harts art hart).clear

/-! ### A world with a tree -/

def World.onDisk (w : World F) (tree : Tree) (cwd : Place)
    (digest : String → String) : World F where
  time := w.time
  later := w.later
  fails := w.fails
  sessions := w.sessions
  answer
    | .pathExists p => .ok (tree.stat (namesOf cwd p)).isSome
    | .isSymlink p => .ok (tree.isSymlink (namesOf cwd p))
    | .isFile p => .ok (tree.stat (namesOf cwd p) matches some (.file _))
    | .resolvePath p => match tree.realpath false FileSystem.maxLinks [] (namesOf cwd p) with
      | .ok place => .ok ⟨true, place⟩
      | .error _ => .error .os
    | .fileSha p => match tree.stat (namesOf cwd p) with
      | some (.file content) => .ok (digest content)
      | _ => .error .os
    | o => w.answer o

theorem mirrors_onDisk (w : World F) (tree : Tree) (cwd : Place) (digest : String → String) :
    Mirrors (w.onDisk tree cwd digest) tree cwd digest where
  pathExists _ _ h := (Except.ok.inj h).symm
  isSymlink _ _ h := (Except.ok.inj h).symm
  resolvePath p q h := by
    simp only [World.onDisk] at h
    split at h
    next place hplace => exact ⟨_, place, hplace, (Except.ok.inj h).symm⟩
    next => cases h
  fileSha p d h := by
    simp only [World.onDisk] at h
    split at h
    next content hcontent => exact ⟨content, hcontent, (Except.ok.inj h).symm⟩
    next => cases h

end SubagentBridge.Supervisor
