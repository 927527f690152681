import SubagentBridge.Execution.NativeRuntime
import SubagentBridge.Library.Json

/-! Authorization of model-supplied commands: an allowlist, approvals that serve once, and
denial of everything else. -/

namespace SubagentBridge.Server

open Library Domain SqliteStore

/-- A statement of a parsed program: a call as an expression, or anything else. -/
inductive Stmt
  /-- the callee if it is a bare name, which arguments are constants, how many keywords -/
  | call (func : Option String) (constantArgs : List Bool) (keywords : Nat)
  | other
  deriving DecidableEq

/-- What the server takes from the interpreter and the file system it runs on. -/
structure Host where
  cwd : String
  /-- `str(Path(s).resolve())`, unless it raises -/
  resolve : String → Option String
  executable : String
  sysPrefix : String
  basePrefix : String
  tempDir : String
  /-- the body of `ast.parse(code)`, unless it raises -/
  parse : String → Option (List Stmt)
  sha256 : String → String
  repr : String → String

variable (host : Host)

namespace Host

def resolved (s : String) : Option PurePath := (host.resolve s).map PurePath.ofString

def hasParent (p base : PurePath) : Bool := p.isRelativeTo base && p ≠ base

def pythonNames : List (List Char) :=
  ["python".toList, "python.exe".toList, "python3".toList, "python3.exe".toList]

/-- Whether the executable is a Python interpreter; where a path cannot be resolved it is not. -/
def isPythonExe (exe : String) : Bool :=
  ((host.resolved exe).bind fun exe =>
    (host.resolved host.sysPrefix).bind fun sysPrefix =>
    (host.resolved host.basePrefix).bind fun basePrefix =>
    (host.resolved host.executable).map fun executable =>
      exe = executable || hasParent exe sysPrefix || hasParent exe basePrefix ||
        exe.parts.getLast?.any fun name => pythonNames.contains (lower name)).getD false

/-- A path argument, relative to the workspace, that lies in one of `roots`. -/
def staysIn (workspace arg : String) (roots : List PurePath) : Bool :=
  (host.resolved ((PurePath.ofString workspace).join arg).toString).any fun p =>
    roots.any fun root => p.isRelativeTo root

def startsWith (s start : String) : Bool := start.toList.isPrefixOf s.toList

def afterEquals (s : String) : String := String.ofList ((s.toList.dropWhile (· ≠ '=')).drop 1)

def allowsTestArg (workspace arg : String) : Bool :=
  if contains arg ".." then false
  else if startsWith arg "-" then
    if ["--import-mode", "-o", "--override-ini"].any (startsWith arg ·) then false
    else if startsWith arg "--junitxml=" || startsWith arg "--basetemp=" then
      (host.resolved host.tempDir).any fun tempDir =>
        host.staysIn workspace (afterEquals arg) [PurePath.ofString workspace, tempDir]
    else true
  else host.staysIn workspace arg [PurePath.ofString workspace]

def isLiteralPrint : Stmt → Bool
  | .call func constantArgs keywords =>
    func = some "print" && constantArgs.all id && keywords = 0
  | .other => false

def allowsCode (code : String) : Bool :=
  (host.parse code).any fun body => body ≠ [] ∧ body.length ≤ 2 ∧ body.all isLiteralPrint

/-- `_is_trusted_allowlisted_command`, in a workspace whose path is resolved. -/
def isTrustedAllowlistedCommand (cmd : List String) (workspace : String) : Bool :=
  match cmd with
  | [] => false
  | exe :: args =>
    host.isPythonExe exe && match args with
      | "-m" :: "pytest" :: args | "-m" :: "unittest" :: args =>
        args.all (host.allowsTestArg workspace)
      | ["-c", code] => host.allowsCode code
      | _ => false

def fingerprint (runId taskKey workspace : String) (cmd : List String) : String :=
  host.sha256 (runId ++ ":" ++ taskKey ++ ":" ++ workspace ++ ":" ++
    (Json.arr (cmd.map .str) : Json Empty).dumps)

end Host

def taskKey (taskId : String) : String := if taskId = "" then "run" else taskId

namespace Approval

/-- Whether an entry approves this execution, and has not served yet. -/
def Grants (a : Approval) (runId taskKey workspace : String) (cmd : List String) : Prop :=
  a.consumed = false ∧ a.runId = some runId ∧ a.taskId = some taskKey ∧
    a.workspacePath = some workspace ∧ a.command = some cmd

instance (a : Approval) (runId taskKey workspace : String) (cmd : List String) :
    Decidable (a.Grants runId taskKey workspace cmd) := by
  unfold Grants
  infer_instance

end Approval

inductive GateDecision
  | granted (actionId : Option String)
  | allowlisted
  | gated (reason actionId : String)
  deriving DecidableEq

variable {B : Type}

/-- The pending action of a gated command: the one that waits already, or a new one. -/
def pendingActionFor (runId key workspace : String) (cmd : List String) : Call B String := do
  let fp := host.fingerprint runId key workspace cmd
  let m ← perform .memory
  match m.pending.find? fun a =>
      a.rawToolCall.any (·.fingerprint = fp) ∧ a.sessionId = runId with
  | some a => return a.actionId
  | none => do
    let actionId ← perform .uuid4
    let command := " ".intercalate cmd
    let call : ToolCall := {
      command, commandList := cmd, path := workspace, operation := "UNAUTHORIZED_COMMAND"
      reason := "Default-deny: unauthorized command " ++ host.repr command ++
        " requires human approval under CHAT_APPROVAL"
      taskId := key, fingerprint := fp }
    let description := if command = "" then workspace else command
    perform (.modify fun m => { m with
      pending := m.pending ++ [⟨actionId, runId, description, some call⟩] })
    perform (.upsertPendingAction ⟨actionId, runId, fp⟩)
    return actionId

def gateCommand (runId taskId workspace : String) (cmd : List String) : Call B GateDecision := do
  let key := taskKey taskId
  let fp := host.fingerprint runId key workspace cmd
  let m ← perform .memory
  match m.approvedCommands.get? fp with
  | some a =>
    if a.Grants runId key workspace cmd then do
      -- the entry serves once
      perform (.consumeApproval fp)
      return .granted a.actionId
    else unapproved key
  | none => unapproved key
where
  unapproved (key : String) : Call B GateDecision :=
    if host.isTrustedAllowlistedCommand cmd workspace then .ret .allowlisted
    else do
      let actionId ← pendingActionFor host runId key workspace cmd
      return .gated ("default-deny: unauthorized command requires human approval under " ++
        "CHAT_APPROVAL: " ++ " ".intercalate cmd) actionId

/-- The gate over a command map, entry after entry; the first entry that is gated ends it. -/
def gateCommands (runId workspace : String) :
    Dict String (List String) → Call B (Option (String × String))
  | [] => .ret none
  | (taskId, cmd) :: commands =>
    if cmd = [] then gateCommands runId workspace commands
    else do
      match ← gateCommand host runId taskId workspace cmd with
      | .gated reason actionId => return some (reason, actionId)
      | _ => gateCommands runId workspace commands

end SubagentBridge.Server
