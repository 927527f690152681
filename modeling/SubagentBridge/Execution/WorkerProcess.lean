import SubagentBridge.Approval.TrustedAuthority
import SubagentBridge.Execution.HarnessAdapters
import SubagentBridge.Library.Locks
import SubagentBridge.Storage.TeamStore

/-! The controller of the worker processes: how it starts and ends them, and what it says to them
and hears from them over their pipes. -/

namespace SubagentBridge.WorkerProcess

open Library Domain

/-- What Python raises, as far as a handler of the controller or a caller tells it apart. -/
inductive Kind
  | attribute | key | os | permission | psutil | runtime | sqlite | timeoutExpired | type | value
  deriving DecidableEq

structure Error where
  kind : Kind
  text : String
  deriving DecidableEq

inductive IsolationMode | inherited | dedicatedUser | windowsJobRestricted
  deriving DecidableEq

def IsolationMode.value : IsolationMode → String
  | .inherited => "inherited"
  | .dedicatedUser => "dedicated_user"
  | .windowsJobRestricted => "windows_job_restricted"

def statusValue : WorkerStatus → String
  | .idle => "IDLE"
  | .running => "RUNNING"
  | .paused => "PAUSED"
  | .interrupted => "INTERRUPTED"
  | .completed => "COMPLETED"
  | .failed => "FAILED"
  | .archived => "ARCHIVED"

/-- A value of a payload: JSON, or something that `json.dumps` refuses, with what `str` and `repr`
make of it, or `str` of its elements. -/
inductive Value (F : Type)
  | json (v : Json F)
  | object (str repr : String)
  | objects (strs : List String)

abbrev Payload (F : Type) := Dict String (Value F)

inductive Message (F : Type)
  | initAck (sessionSecret : String)
  | ping
  | task (taskId : String) (payload : Dict String (Json F))
  | interrupt (taskId : String)
  | reconfigure (requestId harness : String) (model provider effort : Option String)
      (fallbackToNative : Bool)
  | stop

/-- A line of a worker: what `json.loads` makes of it, if it is JSON. -/
abbrev Line (F : Type) := Option (Json F)

abbrev Reply (F : Type) := Dict String (Json F)

inductive Awaited
  | result (taskId : String)
  | reconfigured (requestId : String)
  | control (eventType workerId : String)
  deriving DecidableEq

/-- `_is_task_result`, `_is_reconfigure_ack` and `_is_control_event` on a dict. -/
def Awaited.accepts {F : Type} : Awaited → Reply F → Bool
  | .result taskId, event =>
    (fetch event "type").text = some "RESULT" ∧ (fetch event "task_id").text = some taskId
  | .reconfigured requestId, event =>
    (fetch event "type").text = some "RECONFIGURED" ∧
      (fetch event "request_id").text = some requestId
  | .control eventType workerId, event =>
    (fetch event "type").text = some eventType ∧ (fetch event "worker_id").text = some workerId

def Awaited.event? {F : Type} (a : Awaited) (line : Line F) : Option (Reply F) :=
  (line.bind Json.members).filter a.accepts

structure WorkerProcessRecord (F : Type) where
  workerId : String
  teamId : String
  pid : Int
  status : WorkerStatus
  startedAt : F
  lastHeartbeat : F
  createTime : Option F
  tokensConsumed : Int
  worktreePath : Option String
  exitCode : Option Int
  sessionSecret : String
  isolationMode : String

/-- The operations of the controller on its own variables, the store, the authority and the
operating system. Processes are numbered as they are started, records as they are made; the line
reader of a process has its number. -/
inductive Op (F : Type)
  | lock
  | unlock
  | processOf (workerId : String)
  | readerOf (workerId : String)
  | recordOf (workerId : String)
  | processes
  | recordIds
  | record (r : Nat)
  | isBusy (workerId : String)
  | busyTaskId (workerId : String)
  | setProcess (workerId : String) (n : Nat)
  | setReader (workerId : String) (n : Nat)
  | setJobHandle (workerId : String)
  | setRecord (workerId : String) (record : WorkerProcessRecord F)
  | dropProcess (workerId : String)
  | dropReader (workerId : String)
  | dropJobHandle (workerId : String)
  | setStatus (r : Nat) (status : WorkerStatus)
  | setExitCode (r : Nat) (code : Option Int)
  | setTokens (r : Nat) (tokens : Int)
  | setHeartbeat (r : Nat) (time : F)
  | addBusy (workerId : String)
  | setBusyTaskId (workerId taskId : String)
  | discardBusy (workerId : String)
  | dropBusyTaskId (workerId : String)
  | issueExecutionTicket (actionId : Value F) (workerId taskId : String) (command : List String)
      (workspacePath sessionSecret : String)
  | loadSession (workerId : String)
  | saveSession (session : AgentSession F)
  | listAllSessions
  | now
  | tokenHex
  | isDir (path : String)
  | resolve (path : String)
  | launchConfiguration
  | popen (argv : List String) (cwd : Option String)
  | restrictJob (n : Nat)
  | hasIdentity (n : Nat)
  | pid (n : Nat)
  | poll (n : Nat)
  | returncode (n : Nat)
  | stdinClosed (n : Nat)
  | closePipes (n : Nat)
  | readStderr (n : Nat)
  | identicallyAlive (pid : Int) (createTime : Option F)
  | createTimeOf (pid : Int)
  | killTree (pid : Int)
  | write (n : Nat) (message : Message F)
  | wait (n : Nat)
  | readline (n : Nat)
  | readlineMatching (n : Nat) (awaited : Awaited)

abbrev Op.Ret {F : Type} : Op F → Type
  | .processOf _ | .readerOf _ | .recordOf _ => Option Nat
  | .processes | .recordIds => Dict String Nat
  | .record _ => WorkerProcessRecord F
  | .isBusy _ | .isDir _ | .hasIdentity _ | .stdinClosed _ | .identicallyAlive _ _ => Bool
  | .busyTaskId _ => Option String
  | .issueExecutionTicket _ _ _ _ _ _ => VerifiedOperatorAuthority.Answer F
  | .loadSession _ => Option (AgentSession F)
  | .listAllSessions => List (AgentSession F)
  | .now | .createTimeOf _ => F
  | .tokenHex | .resolve _ | .readStderr _ => String
  | .popen _ _ => Nat
  | .pid _ => Int
  | .poll _ | .returncode _ => Option Int
  | .readline _ => Option (Line F)
  | .readlineMatching _ _ => Option (Reply F)
  | _ => Unit

abbrev sig (F : Type) : Signature := ⟨Op F, Op.Ret⟩

abbrev Call (F α : Type) := Proc (sig F) Error α

def perform {F : Type} (o : Op F) : Call F o.Ret := Proc.op (S := sig F) o

/-- What a call answers: a dict of the controller's own, or the result of a task. -/
inductive Answer (F : Type)
  | reply (fields : Reply F)
  | result (event : Reply F)

section Basics

variable {F : Type} (B : Builtins F)

/-- `with self._state_lock`, which no call enters twice. -/
def locked {α : Type} (body : Call F α) : Call F α :=
  Proc.within (perform .lock) (perform .unlock) body

def orElse (a b : Option String) : Option String :=
  match a.filter (· ≠ "") with
  | some s => some s
  | none => b

def raiseUnless (p : Prop) [Decidable p] (kind : Kind) (text : String) : Call F Unit :=
  Proc.require p ⟨kind, text⟩

def except {α : Type} (kind : Kind) (handler : Error → Call F α) (body : Call F α) : Call F α :=
  body.tryCatch fun e => if e.kind = kind then handler e else .raise e

def intOf (v : Json F) : Call F Int :=
  match B.int v with
  | .ok n => .ret n
  | .error (_, text) => .raise ⟨.value, text⟩

def floatOf [FloatArith F] (v : Json F) : Call F F :=
  match v.toFloat with
  | .ok x => .ret x
  | .error _ => .raise ⟨.value, "could not convert to float"⟩

def running : Option Nat → Call F (Option Nat)
  | none => .ret none
  | some n => do
    let exited ← perform (.poll n)
    return if exited.isSome then none else some n

def onObject (f : Nat → Call F Unit) : Option Nat → Call F Unit
  | none => .ret ()
  | some r => f r

def updateSession (workerId : String) (f : AgentSession F → AgentSession F) : Call F Unit := do
  match ← perform (.loadSession workerId) with
  | none => return ()
  | some session => do
    let updatedAt ← perform .now
    perform (.saveSession { f session with updatedAt })

def storeStatus (workerId : String) (status : WorkerStatus) : Call F Unit :=
  updateSession workerId fun session => { session with status }

def storeTokens (workerId : String) (tokens : Int) : Call F Unit :=
  updateSession workerId fun session =>
    { session with config := { session.config with tokensConsumed := tokens } }

def release (workerId : String) : Call F Unit := do
  perform (.discardBusy workerId)
  perform (.dropBusyTaskId workerId)

end Basics

section Methods

variable {F : Type} [FloatArith F] (B : Builtins F) (mode : IsolationMode)

/-! ## Spawning -/

omit [FloatArith F] in
def commandLine (config : WorkerConfig F) (worktreePath : Option String) : List String :=
  let option (name : String) (value : Option String) : List String :=
    match orElse value none with
    | some s => [name, s]
    | none => []
  ["-P", "-m", "subagentbridge.execution.worker_runtime_entrypoint", "--worker-id",
    config.workerId, "--team-id", config.teamId, "--role", config.role] ++
  (match config.budgetTokens with
    | some budget => ["--budget-tokens", toString budget]
    | none => []) ++
  (if config.tokensConsumed ≠ 0 then ["--tokens-consumed", toString config.tokensConsumed]
    else []) ++
  option "--harness" config.harness ++ option "--model" config.model ++
  option "--provider" config.provider ++ option "--effort" config.effort ++
  (if config.fallbackToNative then ["--fallback-to-native"] else []) ++
  option "--worktree-path" worktreePath

omit [FloatArith F] in
def workingDirectory (worktreePath : Option String) : Call F (Option String) :=
  match mode, orElse worktreePath none with
  | .dedicatedUser, none =>
    .raise ⟨.value, "Dedicated worker requires an explicit working directory"⟩
  | .dedicatedUser, some path => do
    let workspace ← perform (.resolve path)
    let dir ← perform (.isDir workspace)
    raiseUnless dir .os ("Dedicated worker workspace is not a directory: " ++ workspace)
    return some workspace
  | _, none => .ret none
  | _, some path => do
    let dir ← perform (.isDir path)
    return if dir then some path else none

omit [FloatArith F] in
def abandon {α : Type} (n : Nat) (kind : Kind) (text : String) : Call F α := do
  let pid ← perform (.pid n)
  perform (.killTree pid)
  .raise ⟨kind, text⟩

omit [FloatArith F] in
def restrictProcess (workerId : String) (n : Nat) : Call F Unit :=
  Proc.when (mode = .windowsJobRestricted) <|
    ((perform (.restrictJob n)).bind fun _ => perform (.setJobHandle workerId)).tryCatch fun e =>
      abandon n .runtime ("Failed to apply Windows Job Object restrictions: " ++ e.text)

omit [FloatArith F] in
def initEvent (workerId : String) (n : Nat) : Call F (Reply F) := do
  match ← perform (.readline n) with
  | none => do
    let message ← (perform (.readStderr n)).tryCatch fun _ => .ret ""
    abandon n .runtime ("worker " ++ workerId ++ " failed to emit INIT event within deadline: " ++
      strip message)
  | some none => .raise ⟨.value, "Expecting value"⟩
  | some (some event) => match event.members with
    | none => .raise ⟨.attribute, "object has no attribute 'get'"⟩
    | some event => return event

omit [FloatArith F] in
def childPid (event : Reply F) (n : Nat) : Call F Int := do
  let pid ← perform (.pid n)
  let childPid ← intOf B ((event.get? "pid").getD (.int pid))
  if childPid = pid then return childPid
  else abandon n .runtime "Worker INIT PID mismatch with child process handle"

omit [FloatArith F] in
def checkIdentity (n : Nat) : Call F Unit :=
  Proc.when (mode = .dedicatedUser) do
    if ← perform (.hasIdentity n) then return ()
    else abandon n .permission "Dedicated worker OS UID/GID verification failed"

omit [FloatArith F] in
def acknowledge (workerId : String) (n : Nat) (sessionSecret : String) : Call F Unit :=
  except .os (fun e => abandon n .runtime
      ("failed to send INIT_ACK to worker " ++ workerId ++ ": " ++ e.text))
    (perform (.write n (.initAck sessionSecret)))

def creationTime (event : Reply F) (pid : Int) : Call F F := do
  let announced ← floatOf ((event.get? "create_time").getD (.float (0 : Nat)))
  if announced ≤ (0 : Nat) then (perform (.createTimeOf pid)).tryCatch fun _ => perform .now
  else return announced

def enterWorker (config : WorkerConfig F) (worktreePath : Option String) (sessionSecret : String)
    (n : Nat) (pid : Int) (createTime : F) : Call F (WorkerProcessRecord F) := do
  let now ← perform .now
  let record : WorkerProcessRecord F := {
    workerId := config.workerId
    teamId := config.teamId
    pid
    status := .idle
    startedAt := now
    lastHeartbeat := now
    createTime := some createTime
    tokensConsumed := config.tokensConsumed
    worktreePath
    exitCode := none
    sessionSecret
    isolationMode := mode.value }
  perform (.setProcess config.workerId n)
  perform (.setRecord config.workerId record)
  perform (.saveSession {
    sessionId := config.workerId
    role := .worker
    teamId := config.teamId
    status := .idle
    config := { config with pid := some pid, processCreateTime := some createTime }
    createdAt := now
    updatedAt := now })
  release config.workerId
  return record

def spawnWorker (config : WorkerConfig F) (worktreePath : Option String) :
    Call F (WorkerProcessRecord F) := do
  let prior ← perform (.processOf config.workerId)
  let live ← running prior
  raiseUnless (live = none) .runtime "Worker ID already owns a live process"
  let worktreePath := orElse worktreePath config.workingDir
  let sessionSecret ← perform .tokenHex
  let cwd ← workingDirectory mode worktreePath
  perform .launchConfiguration
  let n ← perform (.popen (commandLine config worktreePath) cwd)
  restrictProcess mode config.workerId n
  perform (.setReader config.workerId n)
  let event ← initEvent config.workerId n
  let pid ← childPid B event n
  checkIdentity mode n
  acknowledge config.workerId n sessionSecret
  let createTime ← creationTime event pid
  enterWorker mode config worktreePath sessionSecret n pid createTime

/-! ## Whether a worker is there -/

omit [FloatArith F] in
def hasAttachedWorkerIpc (workerId : String) : Call F Bool := do
  let proc ← perform (.processOf workerId)
  let reader ← perform (.readerOf workerId)
  let record ← perform (.recordOf workerId)
  match ← running proc with
  | none => return false
  | some n => do
    let closed ← perform (.stdinClosed n)
    match closed, reader, record with
    | false, some _, some r => do
      let pid ← perform (.pid n)
      let record ← perform (.record r)
      perform (.identicallyAlive pid record.createTime)
    | _, _, _ => return false

omit [FloatArith F] in
def isWorkerDispatchable (workerId : String) : Call F Bool := do
  let attached : Call F Bool := do
    if ← hasAttachedWorkerIpc workerId then
      let busy ← perform (.isBusy workerId)
      return !busy
    else return false
  match ← perform (.recordOf workerId) with
  | none => attached
  | some r => do
    let record ← perform (.record r)
    if record.status ∈ [.paused, .interrupted, .failed, .archived] then return false else attached

omit [FloatArith F] in
def isWorkerAlive (workerId : String) : Call F Bool := do
  let proc ← perform (.processOf workerId)
  let record ← perform (.recordOf workerId)
  match ← running proc, record with
  | some n, some r => do
    let pid ← perform (.pid n)
    let record ← perform (.record r)
    perform (.identicallyAlive pid record.createTime)
  | some n, none => do
    let pid ← perform (.pid n)
    perform (.identicallyAlive pid none)
  | none, some r => do
    let record ← perform (.record r)
    perform (.identicallyAlive record.pid record.createTime)
  | none, none => do
    match ← perform (.loadSession workerId) with
    | none => return false
    | some session => match session.config.pid.filter (· ≠ 0) with
      | none => return false
      | some pid => perform (.identicallyAlive pid session.config.processCreateTime)

omit [FloatArith F] in
def getWorkerRecord (workerId : String) : Call F (Option (WorkerProcessRecord F)) := do
  match ← perform (.recordOf workerId) with
  | some r => do
    let record ← perform (.record r)
    return some record
  | none => do
    let session ← perform (.loadSession workerId)
    return session.map fun session => {
      workerId := session.sessionId
      teamId := session.teamId
      pid := session.config.pid.getD 0
      status := session.status
      startedAt := session.createdAt
      lastHeartbeat := session.updatedAt
      createTime := session.config.processCreateTime
      tokensConsumed := session.config.tokensConsumed
      worktreePath := session.config.workingDir
      exitCode := none
      sessionSecret := ""
      isolationMode := "inherited" }

omit [FloatArith F] in
def tryWrite (n : Nat) (message : Message F) : Call F Bool :=
  except .os (fun _ => .ret false) ((perform (.write n message)).bind fun _ => .ret true)

omit [FloatArith F] in
def pingWorker (workerId : String) : Call F (Option (Reply F)) := do
  let proc ← perform (.processOf workerId)
  let reader ← perform (.readerOf workerId)
  match ← running proc, reader with
  | some n, some m => do
    if ← tryWrite n .ping then
      match ← perform (.readlineMatching m (.control "PONG" workerId)) with
      | none => return none
      | some event => do
        let record ← perform (.recordOf workerId)
        onObject (fun r => do
          let time ← perform .now
          perform (.setHeartbeat r time)) record
        return some event
    else return none
  | _, _ => return none

/-! ## Tasks -/

omit [FloatArith F] in
def commandList : Value F → List String
  | .json (.arr xs) => xs.map B.format
  | .json v => [B.format v]
  | .object str _ => [str]
  | .objects strs => strs

omit [FloatArith F] in
def dumps : Payload F → Option (Dict String (Json F))
  | [] => some []
  | (key, .json v) :: rest => (dumps rest).map fun fields => (key, v) :: fields
  | _ :: _ => none

def approvalActionId (payload : Payload F) : Value F :=
  match payload.get? "approval_action_id" with
  | none => .json (.str "")
  | some (.json v) => .json (if v.truthy then v else .str "")
  | some v => v

def authorize (workerId taskId : String) (record : WorkerProcessRecord F) (payload : Payload F) :
    Call F (Except String (Payload F)) :=
  match payload.get? "command" with
  | none => .ret (.ok payload)
  | some command => do
    let workspace := record.worktreePath.getD ""
    let (valid, reason, ticket) ← perform (.issueExecutionTicket (approvalActionId payload)
      workerId taskId (commandList B command) workspace record.sessionSecret)
    match valid, ticket with
    | true, some ticket => return .ok ((payload.set "execution_ticket"
        (.json (.obj (TrustedAuthority.ticketMembers ticket)))).set "workspace_path"
        (.json (.str workspace)))
    | _, _ => return .error reason

omit [FloatArith F] in
def unavailable (workerId : String) (record : WorkerProcessRecord F) : Call F Bool :=
  if record.status ∈ [.paused, .interrupted] then .ret true else perform (.isBusy workerId)

omit [FloatArith F] in
def admitTask (workerId taskId : String) (r : Nat) : Call F Bool := locked do
  if ← perform (.isBusy workerId) then return false
  else
    let record ← perform (.record r)
    if record.status ∈ [.paused, .interrupted, .failed, .archived] then return false
    else
      perform (.addBusy workerId)
      perform (.setBusyTaskId workerId taskId)
      return true

omit [FloatArith F] in
/-- Writes the TASK line of a worker that is claimed for it; the claim is given up for what the
pipe refuses. -/
def writeTask (workerId taskId : String) (payload : Payload F) (n : Nat) : Call F (Option Error) :=
  except .os (fun e => (release workerId).bind fun _ => .ret (some e)) <|
    match dumps payload with
    | none => .raise ⟨.type, "Object is not JSON serializable"⟩
    | some fields => (perform (.write n (.task taskId fields))).bind fun _ => .ret none

omit [FloatArith F] in
def settle (workerId : String) (event : Reply F) (store : Int → Call F Unit) : Call F Unit :=
  locked do
    match event.get? "tokens_consumed" with
    | none => .ret ()
    | some v => (intOf B v).bind store
    release workerId

def statusReply (status : String) (fields : Reply F) : Answer F :=
  .reply (("status", .str status) :: fields)

def awaitResult (workerId taskId : String) (timeout : F) (m r : Nat) : Call F (Answer F) := do
  match ← perform (.readlineMatching m (.result taskId)) with
  | none => do
    let timestamp ← perform .now
    return statusReply "TIMEOUT" [("task_id", .str taskId),
      ("error", .str ("Worker IPC deadline exceeded (" ++ B.format (.float timeout) ++ "s)")),
      ("timestamp", .float timestamp)]
  | some event => do
    settle B workerId event fun tokens => do
      perform (.setTokens r tokens)
      let record ← perform (.record r)
      storeTokens workerId record.tokensConsumed
    return .result event

/-- `dispatch_task_to_worker`, once the process, its reader and its record are there. -/
def dispatchTo (workerId taskId : String) (payload : Payload F) (timeout : F) (n m r : Nat) :
    Call F (Answer F) := do
  let record ← perform (.record r)
  if ← unavailable workerId record then
    let timestamp ← perform .now
    return statusReply "DENIED" [("task_id", .str taskId),
      ("error", .str ("WorkerNotDispatchable: worker " ++ B.repr workerId ++
        " is paused, interrupted or busy")),
      ("reason", .str "Worker is paused, interrupted, or has an outstanding task"),
      ("timestamp", .float timestamp)]
  else match ← authorize B workerId taskId record payload with
  | .error reason => do
    let timestamp ← perform .now
    return statusReply "DENIED" [("task_id", .str taskId),
      ("reason", .str ("Default-deny: " ++ reason)),
      ("error", .str ("AuthorizationFailed: " ++ reason)), ("timestamp", .float timestamp)]
  | .ok payload => do
    if ← admitTask workerId taskId r then
      match ← writeTask workerId taskId payload n with
      | some e => return statusReply "ERROR" [("error", .str ("IPC pipe write failed: " ++ e.text))]
      | none => awaitResult B workerId taskId timeout m r
    else return statusReply "DENIED" [("task_id", .str taskId),
      ("reason", .str "Worker became busy or unavailable before task admission")]

def dispatchTaskToWorker (workerId taskId : String) (payload : Payload F) (timeout : F) :
    Call F (Answer F) := do
  let proc ← perform (.processOf workerId)
  let reader ← perform (.readerOf workerId)
  let record ← perform (.recordOf workerId)
  match ← running proc, reader, record with
  | some n, some m, some r => dispatchTo B workerId taskId payload timeout n m r
  | _, _, _ =>
    return statusReply "ERROR" [("error", .str ("worker " ++ B.repr workerId ++ " not alive"))]

/-- `send_task_async`, once the process and its record are there. -/
def sendTo (workerId taskId : String) (payload : Payload F) (n r : Nat) : Call F Unit := do
  let record ← perform (.record r)
  if ← unavailable workerId record then
    .raise ⟨.runtime, "worker " ++ B.repr workerId ++ " is paused, interrupted or busy"⟩
  else match ← authorize B workerId taskId record payload with
  | .error reason => .raise ⟨.permission, "Default-deny: " ++ reason⟩
  | .ok payload => do
    if ← admitTask workerId taskId r then
      match ← writeTask workerId taskId payload n with
      | some e => .raise e
      | none => return ()
    else .raise ⟨.runtime, "Worker became busy or unavailable before async admission"⟩

def sendTaskAsync (workerId taskId : String) (payload : Payload F) : Call F Unit := do
  let proc ← perform (.processOf workerId)
  let record ← perform (.recordOf workerId)
  match ← running proc, record with
  | some n, some r => sendTo B workerId taskId payload n r
  | _, _ => .raise ⟨.runtime, "worker " ++ B.repr workerId ++ " not running"⟩

def collectAsyncResult (workerId taskId : String) : Call F (Answer F) := do
  let outstanding ← perform (.busyTaskId workerId)
  raiseUnless (outstanding = some taskId) .value
    "No outstanding IPC task with this worker/task identity"
  let blocked := statusReply "RECOVERY_BLOCKED" [("task_id", .str taskId),
    ("reason", .str "Worker IPC detached; operator reconciliation required")]
  match ← perform (.readerOf workerId) with
  | none => return blocked
  | some m => do
    if ← hasAttachedWorkerIpc workerId then
      match ← perform (.readlineMatching m (.result taskId)) with
      | none => return statusReply "TIMEOUT" [("task_id", .str taskId),
          ("reason", .str "Worker task outcome is still ambiguous")]
      | some event => do
        settle B workerId event fun tokens => do
          let record ← perform (.recordOf workerId)
          onObject (fun r => perform (.setTokens r tokens)) record
          storeTokens workerId tokens
        return .result event
    else return blocked

/-! ## Control -/

omit [FloatArith F] in
def interruptWorker (workerId taskId : String) : Call F Bool := do
  let proc ← perform (.processOf workerId)
  let reader ← perform (.readerOf workerId)
  match ← running proc with
  | none => return false
  | some n => do
    if ← tryWrite n (.interrupt taskId) then
      -- what the worker answers is of no further use
      onObject (fun m => (perform (.readlineMatching m (.control "INTERRUPTED" workerId))).bind
        fun _ => .ret ()) reader
      let record ← perform (.recordOf workerId)
      onObject (fun r => perform (.setStatus r .interrupted)) record
      storeStatus workerId .interrupted
      return true
    else return false

omit [FloatArith F] in
def pauseWorker (workerId : String) : Call F Bool := do
  match ← perform (.recordOf workerId) with
  | none => return false
  | some r => do
    if ← isWorkerAlive workerId then
      let record ← perform (.record r)
      if record.status ∈ [.idle, .running] then
        perform (.setStatus r .paused)
        storeStatus workerId .paused
        return true
      else return false
    else return false

omit [FloatArith F] in
def resumeWorker (workerId : String) : Call F Bool := do
  match ← perform (.recordOf workerId) with
  | none => return false
  | some r => do
    if ← isWorkerAlive workerId then
      let record ← perform (.record r)
      if record.status ∈ [.paused, .interrupted] then
        if ← perform (.isBusy workerId) then return false
        else
          perform (.setStatus r .idle)
          storeStatus workerId .idle
          return true
      else return false
    else return false

omit [FloatArith F] in
def askToStop (proc : Option Nat) : Call F Unit := do
  match ← running proc with
  | none => return ()
  | some n =>
    ((perform (.write n .stop)).bind fun _ => perform (.wait n)).tryCatch fun e =>
      if e.kind = .timeoutExpired ∨ e.kind = .os then .ret () else .raise e

omit [FloatArith F] in
def pidOf : Option Nat → Option Nat → Call F Int
  | some n, _ => perform (.pid n)
  | none, some r => (perform (.record r)).bind fun record => .ret record.pid
  | none, none => .ret 0

omit [FloatArith F] in
def exitCode : Option Nat → Call F (Option Int)
  | some n => perform (.returncode n)
  | none => .ret (some 0)

def endStatus (code : Option Int) : WorkerStatus := if code = some 0 then .archived else .failed

omit [FloatArith F] in
def markEnd (code : Option Int) (status : WorkerStatus) : Option Nat → Call F Unit :=
  onObject fun r => do
    perform (.setExitCode r code)
    perform (.setStatus r status)

omit [FloatArith F] in
def forget (workerId : String) : Call F Unit := do
  perform (.dropProcess workerId)
  perform (.dropReader workerId)
  release workerId

omit [FloatArith F] in
def terminateWorker (workerId : String) : Call F Bool := do
  let proc ← perform (.processOf workerId)
  let record ← perform (.recordOf workerId)
  let pid ← pidOf proc record
  askToStop proc
  Proc.when (0 < pid) (perform (.killTree pid))
  onObject (fun n => perform (.closePipes n)) proc
  let code ← exitCode proc
  markEnd code (endStatus code) record
  let code ← exitCode proc
  storeStatus workerId (endStatus code)
  forget workerId
  perform (.dropJobHandle workerId)
  return true

omit [FloatArith F] in
def terminateAll : Call F Unit := do
  let processes ← perform .processes
  Proc.forEach processes.keys fun workerId => (terminateWorker workerId).bind fun _ => .ret ()

omit [FloatArith F] in
def reapWorker (workerId : String) (n : Nat) : Call F Bool := do
  match ← perform (.poll n) with
  | none => return false
  | some code => do
    let record ← perform (.recordOf workerId)
    markEnd (some code) .failed record
    storeStatus workerId .failed
    forget workerId
    return true

omit [FloatArith F] in
def reapDeadWorkers : Call F (List String) := do
  let processes ← perform .processes
  Proc.fold (fun reaped p => do
    let dead ← reapWorker p.1 p.2
    return if dead then reaped ++ [p.1] else reaped) [] processes

/-! ## Reconfiguration -/

omit [FloatArith F] in
def isBool (v : Json F) (b : Bool) : Bool :=
  match v with
  | .bool c => c = b
  | _ => false

omit [FloatArith F] in
/-- The RECONFIGURE line and its acknowledgement; whatever goes wrong is raised. -/
def exchange (workerId : String) (n : Nat) (reader : Option Nat) (requestId harness : String)
    (model provider effort : Option String) (fallbackToNative : Bool) : Call F Unit := do
  perform (.write n (.reconfigure requestId harness model provider effort fallbackToNative))
  match reader with
  | none => .raise ⟨.runtime, "Worker IPC reply stream is unavailable"⟩
  | some m => do
    match ← perform (.readlineMatching m (.reconfigured requestId)) with
    | none => .raise ⟨.runtime, "No matching RECONFIGURED acknowledgement"⟩
    | some ack =>
      raiseUnless ((fetch ack "worker_id").text = some workerId ∧
          (fetch ack "harness").text = some harness ∧
          isBool (fetch ack "fallback_to_native") fallbackToNative = true) .runtime
        "Worker reconfiguration ACK payload mismatch"

omit [FloatArith F] in
def checkHarness (adapter : Worker.HarnessAdapter) (harness : String)
    (model provider effort : Option String) : Call F Unit := do
  raiseUnless ((orElse model none).all fun m => (adapter.models.map lower).contains (lower m))
    .value
    ("ModelNotSupported: harness " ++ B.repr harness ++ " does not support " ++
      B.repr (model.getD ""))
  raiseUnless ((orElse provider none).all fun p => (adapter.providers.map lower).contains (lower p))
    .value
    ("ProviderNotSupported: harness " ++ B.repr harness ++ " does not support " ++
      B.repr (provider.getD ""))
  raiseUnless (orElse effort none = none ∨ .thinkingBudget ∈ adapter.capabilities) .value
    ("CapabilityMismatch: harness " ++ B.repr harness ++
      " does not support THINKING_BUDGET for effort=" ++ B.repr (effort.getD ""))

omit [FloatArith F] in
def confirmReconfigure (workerId harness : String) (model provider effort : Option String)
    (fallbackToNative : Bool) : Call F Unit := do
  let proc ← perform (.processOf workerId)
  let reader ← perform (.readerOf workerId)
  match ← running proc with
  | none => return ()
  | some n => do
    let requestId ← perform .tokenHex
    (exchange workerId n reader requestId harness model provider effort fallbackToNative).tryCatch
      fun e => do
        let _ ← terminateWorker workerId
        .raise ⟨.runtime, "Failed to confirm worker RECONFIGURE: " ++ e.text⟩

omit [FloatArith F] in
def reconfigured (config : WorkerConfig F) (adapter : Worker.HarnessAdapter) (harness : String)
    (model provider effort : Option String) (fallbackToNative : Bool) : WorkerConfig F :=
  { config with
    harness
    model := orElse model (some (if harness ≠ "native" then adapter.defaultModel else "native"))
    provider := orElse provider
      (some (if harness ≠ "native" then adapter.defaultProvider else "local"))
    effort
    fallbackToNative }

omit [FloatArith F] in
def switchTo (workerId newHarness : String) (newModel newProvider newEffort : Option String)
    (fallbackToNative : Option Bool) (r : Nat) : Call F Bool := do
  let record ← perform (.record r)
  raiseUnless (record.status ∈ [.idle, .paused]) .runtime
    ("Cannot switch harness on worker in " ++ statusValue record.status ++ " state")
  let busy ← perform (.isBusy workerId)
  raiseUnless (busy = false) .runtime
    "Cannot switch harness while task response is still outstanding"
  match Worker.getHarness B newHarness with
  | .error e => .raise ⟨.key, e.text⟩
  | .ok adapter => do
    checkHarness B adapter newHarness newModel newProvider newEffort
    match ← perform (.loadSession workerId) with
    | none => .raise ⟨.runtime, "Cannot reconfigure worker without durable session"⟩
    | some session => do
      let effective := fallbackToNative.getD session.config.fallbackToNative
      confirmReconfigure workerId newHarness (orElse newModel (some adapter.defaultModel))
        (orElse newProvider (some adapter.defaultProvider)) newEffort effective
      let updatedAt ← perform .now
      perform (.saveSession { session with
        config := reconfigured session.config adapter newHarness newModel newProvider newEffort
          effective
        updatedAt })
      return true

omit [FloatArith F] in
def switchWorkerHarness (workerId newHarness : String)
    (newModel newProvider newEffort : Option String) (fallbackToNative : Option Bool) :
    Call F Bool := locked do
  match ← perform (.recordOf workerId) with
  | none => return false
  | some r => do
    if ← isWorkerAlive workerId then
      switchTo B workerId newHarness newModel newProvider newEffort fallbackToNative r
    else return false

/-! ## Sessions of an earlier controller -/

omit [FloatArith F] in
def registerPersistedSession (workerId : String) (config : WorkerConfig F) (pid : Int)
    (createTime : Option F) : Call F Unit := do
  let now ← perform .now
  perform (.setRecord workerId {
    workerId
    teamId := config.teamId
    pid
    status := .running
    startedAt := now
    lastHeartbeat := now
    createTime
    tokensConsumed := config.tokensConsumed
    worktreePath := none
    exitCode := none
    sessionSecret := ""
    isolationMode := "inherited" })
  perform (.saveSession {
    sessionId := workerId
    role := .worker
    teamId := config.teamId
    status := .running
    config := { config with pid := some pid, processCreateTime := createTime }
    createdAt := now
    updatedAt := now })

omit [FloatArith F] in
def reconcileRecord (reconciled : List String) (p : String × Nat) : Call F (List String) := do
  let record ← perform (.record p.2)
  if ← perform (.identicallyAlive record.pid record.createTime) then return reconciled
  else
    perform (.setStatus p.2 .failed)
    storeStatus p.1 .failed
    return reconciled ++ [p.1]

omit [FloatArith F] in
/-- A session of the store: added to what was reconciled if it should run and does not. -/
def reconcileSession (reconciled : List String) (session : AgentSession F) :
    Call F (List String) := do
  let fail : Call F (List String) := do
    let updatedAt ← perform .now
    perform (.saveSession { session with status := .failed, updatedAt })
    perform (.setRecord session.sessionId {
      workerId := session.sessionId
      teamId := session.teamId
      pid := session.config.pid.getD 0
      status := .failed
      startedAt := session.createdAt
      lastHeartbeat := updatedAt
      createTime := session.config.processCreateTime
      tokensConsumed := session.config.tokensConsumed
      worktreePath := none
      exitCode := none
      sessionSecret := ""
      isolationMode := "inherited" })
    return reconciled ++ [session.sessionId]
  if session.sessionId ∈ reconciled then return reconciled
  else if session.role = .worker ∧ session.status ∈ [.running, .idle] then
    match session.config.pid with
    | none => fail
    | some pid => do
      if ← perform (.identicallyAlive pid session.config.processCreateTime) then return reconciled
      else fail
  else return reconciled

omit [FloatArith F] in
/-- `reconcile_rehydrated_sessions`: the workers that it found failed. -/
def reconcileRehydratedSessions : Call F (List String) := do
  let records ← perform .recordIds
  let reconciled ← Proc.fold reconcileRecord [] records
  let sessions ← perform .listAllSessions
  Proc.fold reconcileSession reconciled sessions

end Methods

end SubagentBridge.WorkerProcess
