import SubagentBridge.Approval.TrustedAuthority
import SubagentBridge.Execution.HarnessAdapters
import SubagentBridge.Library.Traces

/-! The worker process: the main loop's answer to each message. -/

namespace SubagentBridge.Worker

open Library OperatorBoundary TrustedAuthority

inductive Op (F : Type)
  | now
  | isCancelled
  | setCancel
  | clearCancel
  /-- `active_subproc.terminate()`, if there is one -/
  | terminateActive
  | waitCancelled (timeout : F)
  | setActive (pid : Option Nat)
  | isDir (path : Json F)
  | popen (argv : List String) (cwd : Option (Json F))
  | poll (pid : Nat)
  | terminate (pid : Nat)
  | wait (pid : Nat)
  | kill (pid : Nat)
  | sleep
  /-- comes back when the pipes of the command are closed, also by what it has left running -/
  | communicate (pid : Nat)
  /-- creates a file of the workspace, or of the current directory, with its parents -/
  | writeFile (workspace : Option String) (name content : String)
  | sendEvent (event : Dict String (Json F))

/-- What `communicate` answers, and the return code that is there afterwards. -/
structure Finished where
  stdout : String
  stderr : String
  returncode : Int

abbrev Op.Ret {F : Type} : Op F → Type
  | .now => F
  | .isCancelled | .waitCancelled _ | .isDir _ => Bool
  | .popen _ _ => Nat
  | .poll _ => Option Int
  | .communicate _ => Finished
  | .writeFile _ _ _ => String
  | _ => Unit

abbrev sig (F : Type) : Signature := ⟨Op F, Op.Ret⟩

abbrev Call (F α : Type) := Proc (sig F) Error α

def perform {F : Type} (o : Op F) : Call F o.Ret := Proc.op (S := sig F) o

structure Args (F : Type) where
  workerId : String
  teamId : String
  role : String
  budgetTokens : Option Int
  sessionSecret : String
  worktreePath : Option String
  pid : Int
  createTime : F

structure Local (F : Type) where
  harnessName : String
  modelName : Json F
  providerName : Json F
  effortLevel : Json F
  fallbackToNative : Bool
  totalTokensConsumed : Int
  consumedActionIds : List (Json F)

section Events

variable {F : Type}

def send (event : Dict String (Json F)) : Call F Unit := do
  let timestamp ← perform .now
  perform (.sendEvent (event ++ [("timestamp", .float timestamp)]))

def answer (L : Local F) (taskId : Json F) (status : String) (fields : Dict String (Json F)) :
    Call F (Local F) := do
  send ([("type", .str "RESULT"), ("task_id", taskId), ("status", .str status)] ++ fields)
  return L

end Events

section Worker

variable {F : Type} [FloatArith F] (E : Env F) (B : Builtins F) (host : Host) (A : Args F)

/-! ## Instructions -/

/-- `execute` of an adapter whose instructions are only reported. -/
def report (a : HarnessAdapter) (title : String) (taskId : Json F) (instruction : String)
    (config : ExecutionConfig F) : Call F (Dict String (Json F)) := do
  let start ← perform .now
  let stop ← perform .now
  let metered : Int := max 1 (instruction.length / 4)
  let timestamp ← perform .now
  return [("type", .str "RESULT"), ("task_id", taskId), ("status", .str "COMPLETED"),
    ("summary", .str (title ++ " harness executed: " ++ instruction)),
    ("metered_tokens", .int metered), ("duration", .float (stop - start)),
    ("evidence", .obj [("harness", .str a.name),
      ("model", if config.model.truthy then config.model else .str a.defaultModel),
      ("provider", if config.provider.truthy then config.provider else .str a.defaultProvider)]),
    ("timestamp", .float timestamp)]

def refusal (taskId : Json F) (status : String) (fields : Dict String (Json F)) :
    Call F (Dict String (Json F)) := do
  let timestamp ← perform .now
  return [("type", .str "RESULT"), ("task_id", taskId), ("status", .str status)] ++ fields ++
    [("timestamp", .float timestamp)]

def createFile? (instruction : String) : Option (String × String) :=
  match splitOn ':' instruction.toList with
  | word :: name :: first :: rest =>
    if word = "create_file".toList then
      some (strip (.ofList name), ":".intercalate ((first :: rest).map String.ofList))
    else none
  | _ => none

def workspaceOf (workspacePath : Json F) : Except Error (Option String) :=
  if workspacePath.truthy = false then .ok none
  else match workspacePath.text with
  | none => .error ⟨.type, "argument should be a str or an os.PathLike object"⟩
  | some path => .ok (some path)

def notImplemented : String :=
  "Abstract instruction execution without concrete action or generative host runner is not " ++
    "implemented on native harness"

def createFile (taskId : Json F) (instruction : String) (workspacePath : Json F) (start : F) :
    Call F (Dict String (Json F)) :=
  match createFile? instruction with
  | none => refusal taskId "NOT_IMPLEMENTED"
    [("error", .str notImplemented), ("reason", .str notImplemented)]
  | some (name, content) => do
    let workspace ← Proc.ofExcept (workspaceOf workspacePath)
    let path ← perform (.writeFile workspace name content)
    let stop ← perform .now
    let metered : Int := max 1 (content.length / 4)
    let timestamp ← perform .now
    return [("type", .str "RESULT"), ("task_id", taskId), ("status", .str "COMPLETED"),
      ("summary", .str ("Native harness created file " ++ name)),
      ("metered_tokens", .int metered), ("duration", .float (stop - start)),
      ("evidence", .obj [("file", .str path), ("size", .int content.length)]),
      ("timestamp", .float timestamp)]

def executeNative (taskId : Json F) (instruction : String) (config : ExecutionConfig F)
    (workspacePath : Json F) (required : List HarnessCapability) :
    Call F (Dict String (Json F)) := do
  let start ← perform .now
  match ← Proc.ofExcept (validateExecutionConfig B host nativeHarness config required) with
  | some (status, reason) => refusal taskId status [("error", .str reason)]
  | none => createFile taskId instruction workspacePath start

def fallBack (a : HarnessAdapter) (taskId : Json F) (instruction : String)
    (config : ExecutionConfig F) (workspacePath : Json F) (required : List HarnessCapability) :
    Call F (Dict String (Json F)) :=
  if config.fallbackToNative.truthy = true ∧ a.name ≠ "native" then
    if missingNames required nativeHarness ≠ [] then
      refusal taskId "DENIED" [("error", .str ("FallbackDenied: cannot fallback to native " ++
        "harness; missing capabilities [" ++
        ", ".intercalate (missingNames required nativeHarness) ++ "]"))]
    else if config.effort.truthy = true then
      refusal taskId "DENIED" [("error", .str ("FallbackDenied: cannot fallback to native " ++
        "harness; thinking budget / reasoning effort=" ++ B.quote config.effort ++
        " not supported by native"))]
    else do
      let res ← executeNative B host taskId instruction
        ⟨.str "native", .str "local", .null, config.budgetTokens, config.tokensConsumed, .bool true⟩
        workspacePath required
      return (res.set "fallback_from" (.str a.name)).set "fallback_diagnostic"
        (.str (host.diagnostic a))
  else refusal taskId "UNSUPPORTED_HOST" [
    ("error", .str (a.name ++ "Unavailable: " ++ host.diagnostic a)),
    ("diagnostic", .str (host.diagnostic a))]

def execute (a : HarnessAdapter) (taskId : Json F) (instruction : String)
    (config : ExecutionConfig F) (workspacePath : Json F) (required : List HarnessCapability) :
    Call F (Dict String (Json F)) :=
  match a.execution with
  | .native => executeNative B host taskId instruction config workspacePath required
  | .reporting title hosted =>
    if hosted = true ∧ host.available a = false then
      fallBack B host a taskId instruction config workspacePath required
    else do
      match ← Proc.ofExcept (validateExecutionConfig B host a config required) with
      | some (status, reason) => refusal taskId status [("error", .str reason)]
      | none => report a title taskId instruction config
  -- never available, so that what follows the check is not reached
  | .unwired => fallBack B host a taskId instruction config workspacePath required

omit [FloatArith F] in
def requiredCapabilities (raw : Json F) : Except Error (List HarnessCapability) :=
  let invalid : Error := ⟨.value, "invalid capability set"⟩
  match raw with
  | .arr caps =>
    if HarnessCapability.all.length < caps.length then .error invalid
    else match caps.mapM Json.text with
    | none => .error invalid
    | some names => names.mapM fun name => match HarnessCapability.ofValue name with
      | some c => .ok c
      | none => .error ⟨.value, name⟩
  | _ => .error invalid

def effectiveWorkspace (payload : Dict String (Json F)) : Json F :=
  getOr payload "workspace_path" (.str (A.worktreePath.getD ""))

def configOf (L : Local F) (payload : Dict String (Json F)) : ExecutionConfig F where
  model := getOr payload "model" L.modelName
  provider := getOr payload "provider" L.providerName
  effort := getOr payload "effort" L.effortLevel
  budgetTokens := A.budgetTokens
  tokensConsumed := L.totalTokensConsumed
  fallbackToNative := (payload.get? "fallback_to_native").getD (.bool L.fallbackToNative)

def metered (L : Local F) (res : Dict String (Json F)) : Local F × Dict String (Json F) :=
  match res.get? "metered_tokens" with
  | some (.int n) =>
    let total := L.totalTokensConsumed + n
    let res := res.set "tokens_consumed" (.int total)
    ({ L with totalTokensConsumed := total }, match A.budgetTokens with
      | none => res
      | some budget => res.set "remaining_tokens" (.int (max 0 (budget - total))))
  | _ => (L, res)

def runInstruction (L : Local F) (taskId : Json F) (payload : Dict String (Json F))
    (instruction : Json F) : Call F (Local F) := do
  let adapter ← Proc.ofExcept (getHarness B L.harnessName)
  let raw := fetch payload "required_capabilities"
  let required ← Proc.ofExcept (if raw.truthy then requiredCapabilities raw else .ok [])
  let res ← execute B host adapter taskId (B.format instruction) (configOf A L payload)
    (effectiveWorkspace A payload) required
  let (L, res) := metered A L res
  perform (.sendEvent res)
  return L

/-- The `except` clauses of an instruction; other exceptions end the worker. -/
def instructionFailed (L : Local F) (taskId : Json F) (e : Error) : Call F (Local F) :=
  match e.kind with
  | .key => answer L taskId "UNSUPPORTED_HOST" [("error", .str (B.repr e.text))]
  | .value | .type => answer L taskId "DENIED"
    [("error", .str "InvalidCapabilityOrExecutionConfig")]
  | _ => .raise e

def instructionTask (L : Local F) (taskId : Json F) (payload : Dict String (Json F))
    (instruction : Json F) : Call F (Local F) :=
  (runInstruction B host A L taskId payload instruction).tryCatch (instructionFailed B L taskId)

/-! ## Commands -/

inductive Ending | ended | cancelled | timedOut
  deriving DecidableEq

def stopCommand (pid : Nat) : Call F Unit :=
  ((perform (.terminate pid)).bind fun _ => perform (.wait pid)).tryCatch fun e =>
    if e.kind = .timeoutExpired ∨ e.kind = .os then perform (.kill pid) else .raise e

/-- The loop that waits for a command; `patience` bounds how often it looks. -/
def awaitCommand (pid : Nat) (start timeout : F) : (patience : Nat) → Call F Ending
  | 0 => .raise ⟨.cutShort, ""⟩
  | patience + 1 => do
    match ← perform (.poll pid) with
    | some _ => return .ended
    | none =>
      if ← perform .isCancelled then
        stopCommand pid
        return .cancelled
      else
        let now ← perform .now
        if timeout < now - start then
          perform (.kill pid)
          return .timedOut
        else
          perform .sleep
          awaitCommand pid start timeout patience

/-- `int(payload.get("tokens_metered", max(1, len(stdout) // 4)))` -/
def meteredTokens (payload : Dict String (Json F)) (stdout : String) :
    Except (NumberError × String) Int :=
  match payload.get? "tokens_metered" with
  | none => .ok (max 1 (stdout.length / 4))
  | some v => B.int v

def reportCommand (L : Local F) (taskId : Json F) (payload : Dict String (Json F))
    (commandList : List String) (pid : Nat) (finished : Finished) (duration : F) :
    Call F (Local F) :=
  match meteredTokens B payload finished.stdout with
  | .error (e, text) => .raise ⟨kindOf e, text⟩
  | .ok tokens =>
    let total := L.totalTokensConsumed + tokens
    let L := { L with totalTokensConsumed := total }
    let remaining := (A.budgetTokens.map fun budget => Json.int (budget - total)).getD .null
    if finished.returncode = 0 then
      answer L taskId "COMPLETED" [
        ("summary", .str ("Worker " ++ A.workerId ++ " executed command successfully")),
        ("stdout", .str finished.stdout), ("stderr", .str finished.stderr),
        ("exit_code", .int 0), ("duration", .float duration), ("metered_tokens", .int tokens),
        ("tokens_consumed", .int total), ("remaining_tokens", remaining),
        ("evidence", .obj [("command", .ofStrings commandList), ("exit_code", .int 0),
          ("pid", .int pid), ("duration", .float duration)])]
    else
      answer L taskId "FAILED" [
        ("error", .str ("Command failed with exit code " ++ toString finished.returncode)),
        ("stdout", .str finished.stdout), ("stderr", .str finished.stderr),
        ("exit_code", .int finished.returncode), ("duration", .float duration),
        ("metered_tokens", .int tokens), ("tokens_consumed", .int total),
        ("remaining_tokens", remaining)]

variable (patience : Nat)

def runCommand (L : Local F) (taskId : Json F) (payload : Dict String (Json F))
    (commandList : List String) (cwd : Option (Json F)) (start timeout : F) :
    Call F (Local F) := do
  let pid ← perform (.popen commandList cwd)
  perform (.setActive (some pid))
  let ending ← awaitCommand pid start timeout patience
  perform (.setActive none)
  if ← perform .isCancelled then
    answer L taskId "CANCELLED" [("reason", .str "Task was interrupted by controller")]
  else
    let finished ← perform (.communicate pid)
    let stop ← perform .now
    let duration := stop - start
    if ending = .timedOut then
      answer L taskId "FAILED" [
        ("error", .str ("Command timed out after " ++ B.format (.float timeout) ++ "s")),
        ("duration", .float duration)]
    else reportCommand B A L taskId payload commandList pid finished duration

/-- `except Exception`, which does not see a loop that is only cut short here. -/
def commandFailed (L : Local F) (taskId : Json F) (e : Error) : Call F (Local F) :=
  if e.kind = .cutShort then .raise e
  else answer L taskId "FAILED" [("error", .str ("SubprocessExecutionError: " ++ e.text))]

def startCommand (L : Local F) (taskId : Json F) (payload : Dict String (Json F))
    (commandList : List String) (workspace : Json F) : Call F (Local F) := do
  if ← perform .isCancelled then
    answer L taskId "CANCELLED" [("reason", .str "Task execution was cancelled before spawn")]
  else
    let dir ← Proc.and workspace.truthy (perform (.isDir workspace))
    let start ← perform .now
    let timeout ← Proc.ofExcept (ofNumber
      ((payload.get? "timeout").getD (.float (30 : Nat))).toFloat)
    (runCommand B A patience L taskId payload commandList (if dir then some workspace else none)
      start timeout).tryCatch (commandFailed L taskId)

def commandList : Json F → Option (List String)
  | .str s => some [s]
  | .arr xs => some (xs.map B.format)
  | _ => none

def denied (L : Local F) (taskId : Json F) (reason error : String) : Call F (Local F) :=
  answer L taskId "DENIED" [("reason", .str reason), ("error", .str error)]

def unapproved : String := "Default-deny: unapproved command execution blocked by policy"

def commandTask (L : Local F) (taskId : Json F) (payload : Dict String (Json F))
    (command : Json F) : Call F (Local F) :=
  match commandList B command with
  | none => denied L taskId "Default-deny: invalid command payload" "InvalidCommandFormat"
  | some commandList =>
    let ticket := fetch payload "execution_ticket"
    if ticket.truthy = false ∨ A.sessionSecret = "" then
      denied L taskId unapproved
        "AuthorizationFailed: missing execution ticket or session secret"
    else do
      let workspace := effectiveWorkspace A payload
      let now ← perform .now
      let (valid, reason) := verifyTicketBinding E B now ticket A.sessionSecret A.workerId taskId
        commandList workspace
      if valid = false then
        denied L taskId ("Default-deny: " ++ reason) ("AuthorizationFailed: " ++ reason)
      else
        let actionId := ((ticket.members.getD []).get? "action_id").getD (.str "")
        if actionId.hashable = false then .raise ⟨.type, "unhashable type"⟩
        else if actionId.isMember L.consumedActionIds then
          denied L taskId "Default-deny: replayed execution ticket rejected"
            "TicketReplayPrevented"
        else
          startCommand B A patience
            { L with consumedActionIds := actionId :: L.consumedActionIds } taskId payload
            commandList workspace

/-! ## Tasks -/

def sleepTask (L : Local F) (taskId : Json F) (duration : Json F) : Call F (Local F) := do
  let seconds ← Proc.ofExcept (ofNumber duration.toFloat)
  let wasCancelled ← perform (.waitCancelled (min seconds (10 : Nat)))
  if ← Proc.or wasCancelled (perform .isCancelled) then
    answer L taskId "CANCELLED" [("reason", .str "Task was interrupted by controller")]
  else
    let reason := "Simulated sleep cannot report COMPLETED without real tool execution"
    answer L taskId "NOT_IMPLEMENTED" [("reason", .str reason), ("error", .str reason)]

def plainTask (L : Local F) (taskId : Json F) (payload : Dict String (Json F)) :
    Call F (Local F) := do
  let duration := (payload.get? "duration").getD (.int 0)
  if ← Proc.ofExcept (ofNumber duration.isPositive) then sleepTask L taskId duration
  else if (fetch payload "instruction").truthy then
    instructionTask B host A L taskId payload (fetch payload "instruction")
  else
    let reason := "Task without command or instruction cannot be executed"
    answer L taskId "NOT_IMPLEMENTED" [("reason", .str reason), ("error", .str reason)]

/-- The admission check, made whenever there is a budget. -/
def overBudget (L : Local F) (requested : Json F) : Except Error Bool :=
  match A.budgetTokens with
  | none => .ok false
  | some budget => ofNumber (Json.sumExceeds L.totalTokensConsumed requested budget)

def budgetExceeded (L : Local F) (taskId requested : Json F) : Call F (Local F) :=
  let remaining := max 0 (A.budgetTokens.getD 0 - L.totalTokensConsumed)
  let reason := "BudgetExceeded: requested " ++ B.format requested ++
    " tokens exceeds remaining budget " ++ toString remaining
  answer L taskId "DENIED" [("reason", .str reason), ("error", .str reason),
    ("tokens_consumed", .int L.totalTokensConsumed), ("remaining_tokens", .int remaining)]

def payloadTask (L : Local F) (taskId : Json F) (payload : Dict String (Json F)) :
    Call F (Local F) := do
  let requested := (payload.get? "tokens_requested").getD (.int 0)
  if ← Proc.ofExcept (overBudget A L requested) then budgetExceeded B A L taskId requested
  else if (payload.get? "approved").isSome ∨ (payload.get? "approver").isSome then
    denied L taskId unapproved ("ApprovalSpoofingDetected: in-payload approval booleans are " ++
      "untrusted and rejected by policy")
  else match payload.get? "command" with
  | some command => commandTask E B A patience L taskId payload command
  | none => plainTask B host A L taskId payload

def task (L : Local F) (taskId payload : Json F) : Call F (Local F) := do
  perform .clearCancel
  match payload.members with
  | none => .raise ⟨.attribute, "object has no attribute 'get'"⟩
  | some payload => payloadTask E B host A patience L taskId payload

/-! ## The main loop -/

def taskIdOf (msg : Dict String (Json F)) : Json F := (msg.get? "task_id").getD (.str "unknown")

def payloadOf (msg : Dict String (Json F)) : Json F := (msg.get? "payload").getD (.obj [])

def ping : Call F Unit :=
  send [("type", .str "PONG"), ("worker_id", .str A.workerId), ("pid", .int A.pid),
    ("create_time", .float A.createTime)]

def interrupt (msg : Dict String (Json F)) : Call F Unit := do
  perform .setCancel
  (perform .terminateActive).tryCatch fun e => if e.kind = .os then .ret () else .raise e
  send [("type", .str "INTERRUPTED"), ("worker_id", .str A.workerId),
    ("task_id", (msg.get? "task_id").getD (.str ""))]

def reconfigured (L : Local F) (msg : Dict String (Json F)) : Local F :=
  { L with
    harnessName := if (fetch msg "harness").truthy then B.format (fetch msg "harness")
      else L.harnessName
    modelName := (msg.get? "model").getD L.modelName
    providerName := (msg.get? "provider").getD L.providerName
    effortLevel := (msg.get? "effort").getD L.effortLevel
    fallbackToNative := ((msg.get? "fallback_to_native").map Json.truthy).getD
      L.fallbackToNative }

def reconfigure (L : Local F) (msg : Dict String (Json F)) : Call F (Local F) := do
  let L := reconfigured B L msg
  send [("type", .str "RECONFIGURED"), ("worker_id", .str A.workerId),
    ("request_id", fetch msg "request_id"), ("harness", .str L.harnessName),
    ("model", L.modelName), ("provider", L.providerName), ("effort", L.effortLevel),
    ("fallback_to_native", .bool L.fallbackToNative)]
  return L

def serve (L : Local F) (msg : Dict String (Json F)) : Call F (Option (Local F)) :=
  match (fetch msg "command").text with
  | some "PING" => do
    ping A
    return some L
  | some "INTERRUPT" => do
    interrupt A msg
    return some L
  | some "RECONFIGURE" => do
    let L ← reconfigure B A L msg
    return some L
  | some "TASK" => do
    let L ← task E B host A patience L (taskIdOf msg) (payloadOf msg)
    return some L
  | some "STOP" => do
    send [("type", .str "STOPPED"), ("worker_id", .str A.workerId)]
    return none
  | _ => .ret (some L)

end Worker

/-! ## A worker with one approved command -/

section Sample

def sampleSignature : String := "40efd37e1f4b315620cf15928f09a7836f5419d03b05127335aa7b48f6a26d3c"

def sampleResource : String := "3de9c0acb491f258862850a76223909c704606300440d8e98c4bcf18a20515b1"

theorem sample_ttl : (0 : Int) < 600 ∧ (600 : Int) ≤ 86400 := by decide

def sampleEnv : Env Int where
  conf _ := ⟨600, sample_ttl, false, false, none, ""⟩
  sha256 _ := sampleResource
  hmac _ _ := sampleSignature
  repr s := "'" ++ s ++ "'"
  fixed3 n := toString n ++ ".000"

def notANumber (type : String) : String :=
  "int() argument must be a string, a bytes-like object or a real number, not '" ++ type ++ "'"

def sampleBuiltins : Builtins Int where
  repr s := "'" ++ s ++ "'"
  str v := .ofList (v.print .default)
  int
    | .int n => .ok n
    | .bool b => .ok (if b then 1 else 0)
    | .float x => .ok x
    | .str s => match readInt (strip s).toList with
      | some n => .ok n
      | none => .error (.value, "invalid literal for int() with base 10: '" ++ s ++ "'")
    | .null => .error (.type, notANumber "NoneType")
    | .arr _ => .error (.type, notANumber "list")
    | .obj _ => .error (.type, notANumber "dict")

def sampleHost : Host where
  cliPath _ := none
  hasKey _ := false
  diagnostic _ := "not installed"

def sampleArgs : Args Int where
  workerId := "w"
  teamId := "team"
  role := "dev"
  budgetTokens := some 10
  sessionSecret := "s"
  worktreePath := none
  pid := 7
  createTime := 0

def sampleLocal : Local Int := ⟨"native", .null, .null, .null, false, 0, []⟩

def sampleTicket : Json Int := .obj (ticketMembers
  ⟨"act_1", "w", "t", sampleResource, 130, sampleSignature⟩)

def sampleTask (fields : Dict String (Json Int)) : Dict String (Json Int) :=
  [("command", .str "TASK"), ("task_id", .str "t"), ("payload", .obj ([
    ("command", .arr [.str "true"]), ("execution_ticket", sampleTicket)] ++ fields))]

def sampleAnswer : (o : Op Int) → Except Error o.Ret
  | .now => .ok 100
  | .isCancelled | .waitCancelled _ | .isDir _ => .ok false
  | .popen _ _ => .ok 12
  | .poll _ => .ok (some 0)
  | .communicate _ => .ok ⟨"", "", 0⟩
  | .writeFile _ name _ => .ok name
  | .setCancel | .clearCancel | .terminateActive | .setActive _ | .terminate _ | .wait _
  | .kill _ | .sleep | .sendEvent _ => .ok ()

def sampleTurn (L : Local Int) (msg : Dict String (Json Int)) :
    List (Event (sig Int) Error) × Except Error (Option (Local Int)) :=
  (serve sampleEnv sampleBuiltins sampleHost sampleArgs 1 L msg).play sampleAnswer

end Sample

end SubagentBridge.Worker
