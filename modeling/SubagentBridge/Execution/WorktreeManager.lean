import SubagentBridge.Domain.TeamContracts
import SubagentBridge.Execution.CheckoutStatus
import SubagentBridge.Library.TextLines
import SubagentBridge.Library.Traces

/-! The worktrees of the workers: how one is created, and how it is cleaned up. -/

namespace SubagentBridge.Execution

open Library Domain

inductive WorktreeError
  | value (message : String)
  | runtime (message : String)
  | fileExists (message : String)
  | failed
  deriving DecidableEq

structure StrBuiltins where
  repr : String → String
  lower : String → String

structure Completed where
  returncode : Int
  stdout : String
  stderr : String

structure GitWorktreeManager where
  repoRoot : PurePath
  worktreesDir : PurePath

namespace GitWorktreeManager

inductive Op (F : Type)
  | now
  | loadWorktree (workerId : String)
  | saveWorktree (assignment : WorktreeAssignment F)
  | deleteWorktree (workerId : String)
  | isSymlink (path : PurePath)
  | resolve (path : PurePath)
  | pathExists (path : PurePath)
  | git (dir : PurePath) (args : List String)

abbrev Op.Ret {F : Type} : Op F → Type
  | .now => F
  | .loadWorktree _ => Option (WorktreeAssignment F)
  | .isSymlink _ | .pathExists _ => Bool
  | .resolve _ => PurePath
  | .git _ _ => Completed
  | _ => Unit

abbrev sig (F : Type) : Signature := ⟨Op F, Op.Ret⟩

abbrev Call (F α : Type) := Proc (sig F) WorktreeError α

def perform {F : Type} (o : Op F) : Call F o.Ret := Proc.op (S := sig F) o

variable {F : Type} (P : StrBuiltins) (M : GitWorktreeManager)

/-! ## Creation -/

/-- `re.fullmatch` of one or more letters, digits, or other characters listed. -/
def fullmatch (others : List Char) (s : String) : Bool :=
  s ≠ "" && s.toList.all fun c => c.isAlphanum || c ∈ others

def resolveAndValidatePath (workerId : String) : Call F PurePath := do
  Proc.require (fullmatch ['_', '-'] workerId = true) (.value ("Invalid worker_id " ++
    P.repr workerId ++ ": must contain only alphanumeric characters, dashes, and underscores"))
  let target ← perform (.resolve (M.worktreesDir.join ("w-" ++ workerId)))
  Proc.require (target.isRelativeTo M.worktreesDir = true) (.value ("Path traversal detected: " ++
    target.toString ++ " is outside " ++ M.worktreesDir.toString))
  let linked ← perform (.isSymlink target)
  Proc.require (linked = false) (.value ("Target path " ++ target.toString ++
    " is a symlink or junction, refusing to use"))
  return target

def createWorktree (workerId teamId branchName baseRef : String) :
    Call F (WorktreeAssignment F) := do
  let target ← resolveAndValidatePath P M workerId
  let there ← perform (.pathExists target)
  Proc.require (there = false) (.fileExists ("Target worktree path " ++ target.toString ++
    " already exists. Automatic removal is forbidden."))
  match ← perform (.loadWorktree workerId) with
  | some existing => .raise (.runtime ("Worker " ++ P.repr workerId ++
      " already has active worktree assignment at " ++ existing.worktreePath))
  | none => do
    Proc.require (fullmatch ['/', '_', '.', '-'] branchName = true)
      (.value ("Invalid branch_name: " ++ P.repr branchName))
    let chkBranch ← perform (.git M.repoRoot ["rev-parse", "--verify", "refs/heads/" ++ branchName])
    Proc.require (chkBranch.returncode ≠ 0) (.runtime ("Branch " ++ P.repr branchName ++
      " already exists in repository; ambiguous overwrite rejected"))
    let res ← perform (.git M.repoRoot
      ["worktree", "add", "-b", branchName, target.toString, baseRef])
    Proc.require (res.returncode = 0)
      (.runtime ("failed to create git worktree: " ++ strip res.stderr))
    let createdAt ← perform .now
    let assignment : WorktreeAssignment F :=
      ⟨workerId, teamId, target.toString, branchName, createdAt⟩
    perform (.saveWorktree assignment)
    return assignment

/-! ## Cleanup -/

def foldPath (s : String) : String := P.lower (.ofList (s.toList.map slashed))

def isTargetLine (normTarget : String) (line : List Char) : Bool :=
  "worktree ".toList.isPrefixOf line &&
    foldPath P (strip (.ofList (line.dropWhile (· ≠ ' ')).tail)) = normTarget

def matchedEntry (normTarget stdout : String) : Option (List Char) :=
  (splitText ['\n', '\n'] 0 [] (strip stdout).toList).find? fun entry =>
    (splitlines entry).any (isTargetLine P normTarget)

def checkListing (branchName : String) (target : PurePath) (stdout : String) :
    Except WorktreeError Unit :=
  match matchedEntry P (foldPath P target.toString) stdout with
  | none => .error (.runtime ("Target path " ++ target.toString ++
      " is not recognized by git as an active worktree; ambiguous cleanup rejected"))
  | some entry =>
    let expectedBranchRef := "refs/heads/" ++ branchName
    if branchName ≠ "" ∧ (splitlines entry).all
        (fun line => strip (.ofList line) ≠ "branch " ++ expectedBranchRef) then
      .error (.runtime ("Worktree branch mismatch: expected " ++ P.repr expectedBranchRef ++
        " in git worktree list; cleanup rejected"))
    else if occursIn "locked".toList entry then
      .error (.runtime ("Worktree at " ++ target.toString ++ " is locked; cleanup rejected"))
    else .ok ()

def managedTarget (a : WorktreeAssignment F) : Call F PurePath := do
  let rawTarget := PurePath.ofString a.worktreePath
  let linked ← perform (.isSymlink rawTarget)
  Proc.require (linked = false) (.value ("Worktree path " ++ rawTarget.toString ++
    " is a symlink or junction, refusing cleanup"))
  let target ← perform (.resolve rawTarget)
  Proc.require (target.isRelativeTo M.worktreesDir = true) (.value ("Path traversal detected: " ++
    target.toString ++ " is outside managed " ++ M.worktreesDir.toString))
  let linked ← perform (.isSymlink target)
  Proc.require (linked = false) (.value ("Worktree path " ++ target.toString ++
    " is a symlink, refusing cleanup"))
  return target

abbrev listWorktrees : Op F := .git M.repoRoot ["worktree", "list", "--porcelain"]

abbrev inspectStatus (target : PurePath) : Op F :=
  .git target ["status", "--porcelain", "-uall", "--ignored=matching"]

def removeWorktree (a : WorktreeAssignment F) (target : PurePath) : Call F Unit := do
  let wtList ← perform (listWorktrees M)
  Proc.require (wtList.returncode = 0)
    (.runtime ("git worktree list failed: " ++ strip wtList.stderr ++ "; fail-closed"))
  Proc.ofExcept (checkListing P a.branchName target wtList.stdout)
  let statusRes ← perform (inspectStatus target)
  Proc.require (statusRes.returncode = 0) (.runtime ("git status inspection failed on " ++
    target.toString ++ ": " ++ strip statusRes.stderr ++ "; fail-closed"))
  Proc.require (isBlank statusRes.stdout = true) (.runtime ("Cannot cleanup dirty worktree at " ++
    target.toString ++ ": uncommitted changes, untracked files, or user modifications present: " ++
    take (strip statusRes.stdout) 200))
  let res ← perform (.git M.repoRoot ["worktree", "remove", target.toString])
  Proc.require (res.returncode = 0)
    (.runtime ("git worktree remove failed: " ++ strip res.stderr))
  let there ← perform (.pathExists target)
  Proc.require (there = false) (.runtime ("Worktree path " ++ target.toString ++
    " still exists after git worktree remove; destructive rmtree forbidden"))

def removeBranch (a : WorktreeAssignment F) : Call F Unit := do
  let resB ← perform (.git M.repoRoot ["branch", "-d", a.branchName])
  Proc.require (resB.returncode = 0)
    (.runtime ("Safe git branch delete failed (unmerged?): " ++ strip resB.stderr))

def cleanupAssignment (workerId : String) (deleteBranch : Bool) (a : WorktreeAssignment F) :
    Call F Bool := do
  let target ← managedTarget M a
  let there ← perform (.pathExists target)
  Proc.when (there = true) (removeWorktree P M a target)
  Proc.when (deleteBranch = true ∧ a.branchName ≠ "") (removeBranch M a)
  perform (.deleteWorktree workerId)
  return true

def cleanupWorktree (workerId : String) (deleteBranch force : Bool) : Call F Bool := do
  Proc.require (force = false) (.value ("force=True is forbidden: destructive or forceful " ++
    "worktree cleanup is disabled by data safety policy"))
  match ← perform (.loadWorktree workerId) with
  | none => return false
  | some assignment => cleanupAssignment P M workerId deleteBranch assignment

end GitWorktreeManager

end SubagentBridge.Execution
