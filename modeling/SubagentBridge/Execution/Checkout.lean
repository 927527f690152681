import SubagentBridge.Library.Paths

/-! What the supervised runtime asks about the workspace: the tree, and whether the checkout
is clean. -/

namespace SubagentBridge.Execution

open Library

/-- What a `git` command answers: its exit code and output, or nothing if it could not be run. -/
abbrev GitAnswer (α : Type) := Option (Int × α)

def emptyDigest : String := "e3b0c44298fc1c149afbf4c8996fb92427ae41e4649b934ca495991b7852b855"

def zeros (n : Nat) : String := String.ofList (List.replicate n '0')

/-- `resolve_tree_sha`: what `git rev-parse HEAD^{tree}` answers, or else the digest of the
files in the directory. -/
def resolveTreeSha (revParse : GitAnswer String) (directoryDigest : String) : String :=
  let fallback := if directoryDigest ≠ emptyDigest then directoryDigest else zeros 40
  match revParse with
  | some (0, out) => if strip out ≠ "" then strip out else fallback
  | _ => fallback

def allowedRuntimeFilenames : List String :=
  ["store.db", "store.db-wal", "store.db-shm", "audit.db", "audit.db-wal", "audit.db-shm",
    "production_audit.db", "production_audit.db-wal", "production_audit.db-shm", "sessions.db",
    "sessions.db-wal", "sessions.db-shm"]

def allowedRuntimeDirs : List String :=
  [".subagentbridge", ".pytest_cache", ".ruff_cache", "__pycache__", ".mypy_cache"]

def unquote (cs : List Char) : List Char :=
  if cs.head? = some '"' ∧ cs.getLast? = some '"' then cs.tail.dropLast else cs

def allowedRuntimePath (rawPath : String) : Bool :=
  let path := PurePath.ofString
    (String.ofList ((unquote rawPath.toList).map fun c => if c = '\\' then '/' else c))
  path.parts.getLast?.any (· ∈ allowedRuntimeFilenames) || path.parts.any (· ∈ allowedRuntimeDirs)

def isIgnoredCheckoutStatusLine (line : String) : Bool :=
  if isBlank line then true
  else if line.length < 3 then false
  else
    let rawPathPart := strip (String.ofList (line.toList.drop 3))
    if rawPathPart = "" then false
    else
      -- a rename is written "old -> new"
      let paths := (splitText " -> ".toList 0 [] rawPathPart.toList).map fun cs =>
        strip (String.ofList cs)
      paths.all fun rawPath => rawPath = "" || allowedRuntimePath rawPath

/-- `check_clean_checkout`, over the lines of `git status --porcelain`. -/
def checkCleanCheckout (status : GitAnswer (List String)) : Bool :=
  match status with
  | some (0, lines) => lines.all fun line => isBlank line || isIgnoredCheckoutStatusLine line
  | _ => false

example : checkCleanCheckout (some (0, [" M sub/store.db-wal", "?? __pycache__/x.pyc"])) = true ∧
    checkCleanCheckout (some (0, ["R  a.db -> \"store.db\""])) = false := by
  decide +kernel

end SubagentBridge.Execution
