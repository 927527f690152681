import SubagentBridge.Server.CommandGate

/-! The tools of the server on runs and tasks, and the server as a service: one call at a
time, and a new process after a crash. -/

namespace SubagentBridge.Server

open Library Domain Planner Qa Team SqliteStore Execution

variable {B : Type}

inductive Response
  | error (message : String)
  | auditFailed (e : Error)
  | submitted (runId initialTaskId goal : String)
  | notFound (runId : String)
  | settled (status : RunStatus) (runId : String) (tasks : List TaskRecord)
  | blocked (runId reason actionId : String)
  | completed (runId : String) (tasks : List TaskRecord)
  | failed (runId : String) (f : Failure)
  | task (runId taskId : String) (status : Option TaskStatus) (res evidence : Response)
  | summary (run : RunRecord) (taskCount : Nat)
  | tasks (rs : List TaskRecord)
  | evidence (runId taskId : String) (status : TaskStatus) (role : String)
      (evidenceIds : List String) (verified : Bool)
  | taskNotFound (runId taskId : String)
  | cancelled (runId reason : String)

def Response.isBlocked : Response → Bool
  | .blocked _ _ _ => true
  | .task _ _ _ res _ => res.isBlocked
  | _ => false

/-! ## Records in memory and in the database -/

def findRun (runId : String) : Call B (Option RunRecord) := do
  let m ← perform .memory
  match m.runs.get? runId with
  | some r => return some r
  | none => do
    match ← perform (.getRun runId) with
    | none => return none
    | some r => do
      perform (.modify fun m => { m with runs := m.runs.set runId r })
      return some r

def findTasks (runId : String) : Call B (List TaskRecord) := do
  let m ← perform .memory
  match m.tasks.get? runId with
  | some rs => return rs
  | none => do
    let rs ← perform (.loadTasksForRun runId)
    perform (.modify fun m => { m with tasks := m.tasks.set runId rs })
    return rs

def saveRunStatus (runId : String) (run : RunRecord) (status : RunStatus) : Call B Unit := do
  perform (.modify fun m => { m with runs := m.runs.set runId { run with status } })
  perform (.upsertRun { run with status })

def resolvePath (host : Host) (path : String) : Call B String :=
  match host.resolve path with
  | some p => .ret p
  | none => .raise .os

def getProductionSystem (workspace : String) : Call B Unit := do
  let m ← perform .memory
  match m.systems.get? workspace with
  | some _ => return ()
  | none => do
    let (budget, pins) ← perform (.openSystem workspace)
    let gate ← lift (QaEvidenceGate.create ["AC-1: deterministic verification"] pins)
    let sys : System B := ⟨.empty, .empty, budget, gate.testHashes, none⟩
    perform (.modify fun m => { m with systems := m.systems.set workspace sys })

/-! ## Execution -/

def registerPrincipal (workspace principalId : String) (role : Role) : Call B Principal := do
  let secret ← perform .tokenBytes
  let m ← perform .memory
  match m.systems.get? workspace with
  | none => .raise (.raised (.key workspace))
  | some sys => do
    let (p, identities) ← lift (sys.identities.register principalId role secret)
    perform (.modify fun m => { m with
      systems := m.systems.set workspace { sys with identities } })
    return p

def createRun (runId projectId policyRevision : String) : Except Domain.Error Domain.Run := do
  identity runId "run_id"
  identity projectId "project_id"
  identity policyRevision "policy_revision"
  return ⟨runId, projectId, policyRevision⟩

def projectIdOf (workspace : String) : String :=
  ((PurePath.ofString workspace).parts.getLast?).getD ""

/-- `create_coordinator_for_run`: registers the principals of the run, which is possible once
in a process. -/
def createCoordinatorForRun (runId workspace : String) (plan : TaskDecomposer.Plan)
    (commands : Dict String (List String)) : Call B Lifecycle := do
  let pm ← registerPrincipal workspace ("pm_" ++ runId) .pm
  let developer ← registerPrincipal workspace ("dev_" ++ runId) .developer
  let qa ← registerPrincipal workspace ("qa_" ++ runId) .qa
  let executor ← registerPrincipal workspace ("executor_" ++ runId) .executor
  let run ← lift (createRun runId (projectIdOf workspace) "v1")
  let m ← perform .memory
  match m.systems.get? workspace with
  | none => .raise (.raised (.key workspace))
  | some sys => do
    let c ← lift (SupervisedCoordinator.create run plan.tasks plan.dependencies sys.identities
      sys.receipts sys.budget sys.testHashes)
    perform (.modify (·.setCoordinator workspace c))
    return ⟨runId, workspace, pm, developer, qa, executor, commands, true, false, false⟩

variable (api : BudgetApi B) (host : Host)

def effectiveCommands (runId : String) (commandMap : Dict String (List String)) :
    Call B (Dict String (List String)) := do
  let m ← perform .memory
  return if commandMap = [] then (m.runCommands.get? runId).getD [] else commandMap

/-- Replaces the task records of a run by those of its decomposition. -/
def registerTasks (runId : String) (records : List TaskRecord) : Call B Unit := do
  ignoring (perform (.deletePendingTasks runId))
  Proc.forEach records fun r => perform (.upsertTask r)
  perform (.modify fun m => { m with tasks := m.tasks.set runId records })

def block (runId workspace reason actionId : String) (run : RunRecord) : Call B Response := do
  ignoring (perform (.appendOnce workspace ⟨"run:" ++ runId, "gate:" ++ actionId, "COMMAND_GATED",
    [("run_id", runId), ("category", "UNAUTHORIZED_COMMAND"), ("reason", reason),
      ("action_id", actionId)]⟩))
  saveRunStatus runId run .blocked
  return .blocked runId ("command execution gated: requires human approval under " ++
    "CHAT_APPROVAL: " ++ reason) actionId

def settleRun (runId : String) (run : RunRecord) : LifecycleResult → Call B Response
  | .completed tasks => do
    saveRunStatus runId run .completed
    perform (.modify fun m => { m with tasks := m.tasks.set runId tasks })
    return .completed runId tasks
  | .failed f => do
    saveRunStatus runId run .failed
    return .failed runId f

def executeCommands (runId workspace : String) (run : RunRecord) (plan : TaskDecomposer.Plan)
    (commands : Dict String (List String)) : Call B Response := do
  match ← gateCommands host runId workspace commands with
  | some (reason, actionId) => block runId workspace reason actionId run
  | none => do
    perform (.openWorkspace workspace)
    let l ← createCoordinatorForRun runId workspace plan commands
    let result ← l.execute api
    settleRun runId run result

def executeOpenRun (runId : String) (run : RunRecord) (commandMap : Dict String (List String)) :
    Call B Response := do
  let workspace ← resolvePath host run.workspacePath
  getProductionSystem workspace
  let tree ← perform (.inspectTree workspace)
  let plan ← lift (TaskDecomposer.decomposeGoal run.goal runId (resolveTreeSha tree.1 tree.2) "v1")
  registerTasks runId plan.records
  let commands ← effectiveCommands runId commandMap
  executeCommands api host runId workspace run plan commands

def isOver (status : RunStatus) : Bool := status ∈ [.completed, .verified, .cancelled]

def executeRun (runId : String) (commandMap : Dict String (List String)) : Call B Response := do
  match ← findRun runId with
  | none => return .notFound runId
  | some run =>
    if isOver run.status then do
      let m ← perform .memory
      return .settled run.status runId (m.taskRecords runId)
    else executeOpenRun api host runId run commandMap

/-! ## Tools -/

def getTaskEvidence (runId taskId : String) : Call B Response := do
  let rs ← findTasks runId
  match rs.find? (·.taskId = taskId) with
  | none => return .taskNotFound runId taskId
  | some t =>
    let verified := decide (t.status = .verified ∧ t.evidenceIds ≠ [])
    return .evidence runId taskId t.status t.role t.evidenceIds verified

def executeTask (runId taskId : String) (command : List String) : Call B Response := do
  let m ← perform .memory
  let commands := (m.runCommands.get? runId).getD []
  let commands := if command = [] then commands else commands.set taskId command
  let res ← executeRun api host runId commands
  match res with
  | .blocked _ _ _ => return .task runId taskId none res (.taskNotFound runId taskId)
  | _ => do
    let evidence ← getTaskEvidence runId taskId
    let m ← perform .memory
    let task := (m.taskRecords runId).find? (·.taskId = taskId)
    return .task runId taskId (task.map (·.status)) res evidence

def enterSubmission (run : RunRecord) (task : TaskRecord) : Call B Unit := do
  perform (.upsertRun run)
  perform (.upsertTask task)
  perform (.modify fun m => { m with
    runs := m.runs.set run.runId run, tasks := m.tasks.set run.runId [task] })

def auditSubmission (workspace : String) (run : RunRecord) (task : TaskRecord) :
    Call B (Option Error) :=
  ((getProductionSystem workspace).bind fun _ =>
    (perform (.appendOnce workspace ⟨"run:" ++ run.runId, "goal:" ++ run.runId, "GOAL_SUBMITTED",
      [("goal", run.goal), ("run_id", run.runId), ("initial_task_id", task.taskId)]⟩)).bind fun _ =>
    .ret none).tryCatch fun e => .ret (some e)

def withdrawSubmission (runId : String) : Call B Unit := do
  perform (.modify fun m => { m with
    runs := m.runs.erase runId, tasks := m.tasks.erase runId
    runCommands := m.runCommands.erase runId })
  ignoring (perform (.deleteRun runId))

structure Submission where
  goal : String
  workspacePath : Option String
  model : Option String
  execute : Bool
  commands : Dict String (List String)

def orDefault (x : Option String) (default : String) : String := (x.filter (· ≠ "")).getD default

def submitGoal (q : Submission) : Call B Response :=
  if isBlank q.goal then .ret (.error "nonempty goal string required")
  else do
    let workspace ← resolvePath host (orDefault q.workspacePath host.cwd)
    let runId := runIdOf (← perform .uuid4)
    let taskId := taskIdOf (← perform .uuid4)
    Proc.when (q.commands ≠ []) (perform (.modify fun m => { m with
      runCommands := m.runCommands.set runId q.commands }))
    let run : RunRecord :=
      ⟨runId, strip q.goal, workspace, .submitted, orDefault q.model "default"⟩
    let task : TaskRecord := ⟨taskId, runId,
      "Decompose and execute goal under supervised coordination", .pending,
        Role.pm.value, "", [], []⟩
    enterSubmission run task
    match ← auditSubmission workspace run task with
    | some e => do
      withdrawSubmission runId
      return .auditFailed e
    | none =>
      if q.execute then executeRun api host runId q.commands
      else .ret (.submitted runId taskId (strip q.goal))

def getRun (runId : String) : Call B Response := do
  match ← findRun runId with
  | none => return .notFound runId
  | some run => do
    let rs ← findTasks runId
    return .summary run rs.length

def listTasks (runId : String) : Call B Response := do
  let rs ← findTasks runId
  return .tasks rs

/-- The loop of `cancel_run`; `done` are the records before the ones still to go. -/
def cancelTasks (runId : String) (done : List TaskRecord) : List TaskRecord → Call B Unit
  | [] => .ret ()
  | t :: ts =>
    if t.status ∈ [.verified, .failed, .cancelled] then cancelTasks runId (done ++ [t]) ts
    else do
      let t := { t with status := .cancelled }
      perform (.modify fun m => { m with tasks := m.tasks.set runId (done ++ t :: ts) })
      perform (.upsertTask t)
      cancelTasks runId (done ++ [t]) ts

def cancelRun (runId reason : String) : Call B Response := do
  match ← findRun runId with
  | none => return .notFound runId
  | some run => do
    saveRunStatus runId run .cancelled
    let rs ← findTasks runId
    cancelTasks runId [] rs
    ignoring do
      let workspace ← resolvePath host run.workspacePath
      getProductionSystem workspace
      perform (.appendOnce workspace ⟨"run:" ++ runId, "cancel:" ++ runId, "RUN_CANCELLED",
        [("run_id", runId), ("reason", reason)]⟩)
    return .cancelled runId reason

inductive Request
  | submitGoal (q : Submission)
  | executeRun (runId : String) (commands : Dict String (List String))
  | executeTask (runId taskId : String) (command : List String)
  | cancelRun (runId reason : String)
  | getRun (runId : String)
  | listTasks (runId : String)
  | getTaskEvidence (runId taskId : String)

def Request.executes : Request → Option String
  | .executeRun runId _ => some runId
  | .executeTask runId _ _ => some runId
  | _ => none

def Request.cancels : Request → Bool
  | .cancelRun _ _ => true
  | _ => false

def Request.run? : Request → Option String
  | .submitGoal _ => none
  | .executeRun runId _ | .executeTask runId _ _ | .cancelRun runId _ | .getRun runId
  | .listTasks runId | .getTaskEvidence runId _ => some runId

def body : Request → Call B Response
  | .submitGoal q => submitGoal api host q
  | .executeRun runId commands => executeRun api host runId commands
  | .executeTask runId taskId command => executeTask api host runId taskId command
  | .cancelRun runId reason => cancelRun host runId reason
  | .getRun runId => getRun runId
  | .listTasks runId => listTasks runId
  | .getTaskEvidence runId taskId => getTaskEvidence runId taskId

/-- `rehydrate_runs_and_tasks`, in a new process. -/
def rehydrate (s : State B) : State B :=
  let db := s.db.resetStaleActiveTasks
  ⟨⟨db.runs, db.loadAllTasks, [], [], [], []⟩, db⟩

def server : Service (sig B) Error where
  toRuntime := runtime B
  Request := Request
  Res := Response
  body := body api host
  restart := rehydrate

end SubagentBridge.Server
