import SubagentBridge.Server.Runtime

/-! The supervised lifecycle of a run: every task is frozen, dispatched, executed, reported
and reviewed, in the order of the coordinator; the first task that fails ends it. -/

namespace SubagentBridge.Server

open Library Domain Planner Qa Team SqliteStore Execution

variable {B : Type} (api : BudgetApi B)

/-! ## Decomposition -/

namespace TaskDecomposer

structure Plan where
  tasks : Dict String Task
  dependencies : Dict String (List String)
  records : List TaskRecord

def pmTaskId (runId : String) : String := runId ++ "_pm"

def devTaskId (runId : String) : String := runId ++ "_dev"

def qaTaskId (runId : String) : String := runId ++ "_qa"

def pendingRecord (taskId runId title role : String) (dependencies : List String) : TaskRecord :=
  ⟨taskId, runId, title, .pending, role, "", dependencies, []⟩

def records (goal runId : String) : List TaskRecord :=
  [pendingRecord (pmTaskId runId) runId "Analyze requirements and freeze acceptance criteria"
      Role.pm.value [],
    pendingRecord (devTaskId runId) runId ("Implement: " ++ strip goal) Role.developer.value
      [pmTaskId runId],
    pendingRecord (qaTaskId runId) runId "Independent QA verification and receipt review"
      Role.qa.value [devTaskId runId]]

def decomposeGoal (goal runId treeSha policyRevision : String) : Except Domain.Error Plan := do
  let pm ← Task.create (pmTaskId runId) runId
    ["Scope and acceptance criteria defined for: " ++ strip goal] treeSha policyRevision
  let dev ← Task.create (devTaskId runId) runId
    ["Implementation satisfies " ++ strip goal, "Pass invariant test suite", "Clean working tree"]
    treeSha policyRevision
  let qa ← Task.create (qaTaskId runId) runId
    ["Independent QA verification passes with clean checkout and valid receipts"]
    treeSha policyRevision
  return {
    tasks := [(pmTaskId runId, pm), (devTaskId runId, dev), (qaTaskId runId, qa)]
    dependencies := [(pmTaskId runId, []), (devTaskId runId, [pmTaskId runId]),
      (qaTaskId runId, [devTaskId runId])]
    records := records goal runId }

end TaskDecomposer

/-! ## The coordinator and the records in memory -/

namespace Memory

variable (m : Memory B)

def coordinator? (workspace : String) : Option (SupervisedCoordinator B) :=
  (m.systems.get? workspace).bind (·.coordinator)

def setCoordinator (workspace : String) (c : SupervisedCoordinator B) : Memory B :=
  match m.systems.get? workspace with
  | none => m
  | some sys => { m with systems := m.systems.set workspace { sys with
      identities := c.identities, receipts := c.receipts, budget := c.budget
      coordinator := some c } }

def taskRecords (runId : String) : List TaskRecord := (m.tasks.get? runId).getD []

end Memory

/-- `record_map[task_id]`: where an id repeats, the last record has it. -/
def recordOf (taskId : String) (rs : List TaskRecord) : Option TaskRecord :=
  rs.reverse.find? (·.taskId = taskId)

def modifyRecord (taskId : String) (f : TaskRecord → TaskRecord) : List TaskRecord → List TaskRecord
  | [] => []
  | r :: rs =>
    if r.taskId = taskId ∧ ∀ r' ∈ rs, r'.taskId ≠ taskId then f r :: rs
    else r :: modifyRecord taskId f rs

def coordinate {α : Type} (workspace : String)
    (f : String → SupervisedCoordinator B → Result (SupervisedCoordinator B) α) : Call B α := do
  let id ← perform .uuid4
  let m ← perform .memory
  match m.coordinator? workspace with
  | none => .raise (.raised (.key workspace))
  | some c => do
    let (r, c) := f id c
    perform (.modify (·.setCoordinator workspace c))
    lift r

def issueReceipt (executor : Principal) (s : Scope) (exitCode : Int) (uuid4 : String)
    (c : SupervisedCoordinator B) : Result (SupervisedCoordinator B) ExecutorReceipt :=
  orRaise (c.receipts.issue c.identities uuid4 executor s exitCode) c fun (receipt, receipts) =>
    (.ok receipt, { c with receipts })

def createEvidence (receiptId : String) (s : Scope) (uuid4 : String)
    (c : SupervisedCoordinator B) : Result (SupervisedCoordinator B) Evidence :=
  orRaise (c.receipts.createEvidence uuid4 receiptId s) c fun (evidence, receipts) =>
    (.ok evidence, { c with receipts })

/-! ## The stages of a task -/

structure Lifecycle where
  runId : String
  workspace : String
  pm : Principal
  developer : Principal
  qa : Principal
  executor : Principal
  commands : Dict String (List String)
  useStore : Bool
  consultModel : Bool
  providerTermsApproved : Bool

structure Failure where
  failedTaskId : String
  reason : String
  deriving DecidableEq

inductive LifecycleResult
  | completed (tasks : List TaskRecord)
  | failed (f : Failure)
  deriving DecidableEq

/-- `commands.get(task_id) or commands.get(role) or commands.get("default")` -/
def commandFor (commands : Dict String (List String)) (taskId role : String) :
    Option (List String) :=
  let nonempty (key : String) := (commands.get? key).filter (· ≠ [])
  (nonempty taskId).or ((nonempty role).or (nonempty "default"))

namespace Lifecycle

variable (l : Lifecycle)

def saveRecord (taskId : String) (f : TaskRecord → TaskRecord) : Call B Unit := do
  let m ← perform .memory
  let rs := modifyRecord taskId f (m.taskRecords l.runId)
  perform (.modify fun m => { m with tasks := m.tasks.set l.runId rs })
  match recordOf taskId rs with
  | some r => Proc.when l.useStore (perform (.upsertTask r))
  | none => .ret ()

def saveStatus (taskId : String) (status : TaskStatus) : Call B Unit :=
  l.saveRecord taskId fun r => { r with status }

def logEvent (idempotencyKey eventType : String) (payload : Dict String String) : Call B Unit :=
  ignoring (perform (.appendOnce l.workspace
    ⟨"run:" ++ l.runId, idempotencyKey ++ ":" ++ l.runId, eventType, payload⟩))

def freezeTask (taskId : String) : Call B String := do
  let m ← perform .memory
  match recordOf taskId (m.taskRecords l.runId) with
  | none => .raise (.raised (.key taskId))
  | some record => do
    coordinate l.workspace fun _ => SupervisedCoordinator.freeze taskId l.pm
    l.saveStatus taskId .frozen
    l.logEvent ("freeze:" ++ taskId) "TASK_FROZEN" [("task_id", taskId)]
    return record.role

def missingCommand (taskId : String) : Call B (Option Failure) := do
  l.saveStatus taskId .failed
  l.logEvent ("no_cmd:" ++ taskId) "COMMAND_MISSING" [("task_id", taskId)]
  return some ⟨taskId, "no developer command provided for execution of task " ++ taskId ++
    "; synthetic exit code is prohibited"⟩

def beginDispatch (taskId : String) : Call B DispatchPlan := do
  let idempotencyKey := "dispatch:" ++ l.runId ++ ":" ++ taskId
  let plan ← coordinate l.workspace fun id =>
    SupervisedCoordinator.begin api id taskId l.pm idempotencyKey 500 10000
  l.saveStatus taskId .dispatched
  Proc.when l.useStore (perform (.upsertDispatch
    ⟨plan.dispatchId, taskId, 1, idempotencyKey, plan.treeSha, "DISPATCHED"⟩))
  l.logEvent ("dispatch:" ++ plan.dispatchId) "TASK_DISPATCHED"
    [("task_id", taskId), ("dispatch_id", plan.dispatchId)]
  return plan

def releaseDispatch (taskId : String) : Call B Unit :=
  coordinate l.workspace fun _ c => (.ok (), SupervisedCoordinator.releaseDispatch api taskId c)

/-- The optional consultation; whether it fails or not, only an event comes of it. -/
def consult (taskId : String) : Call B Unit :=
  ((perform (.chat taskId)).bind fun _ =>
    l.logEvent ("model_chat:" ++ taskId) "MODEL_CONSULTED" [("task_id", taskId)]).tryCatch fun _ =>
      l.logEvent ("model_err:" ++ taskId) "MODEL_ERROR" [("task_id", taskId)]

/-- The exit code of the developer's process; one that raises counts as 1. -/
def develop (taskId : String) (cmd : List String) : Call B Int :=
  ((perform (.runIsolated taskId cmd)).bind fun result => .ret result.exitCode).tryCatch fun _ =>
    .ret 1

def reportSuccess (taskId : String) (plan : DispatchPlan) (exitCode : Int) : Call B Evidence := do
  coordinate l.workspace fun _ =>
    SupervisedCoordinator.reportProcessSucceeded l.developer taskId plan.dispatchId plan.treeSha
  l.saveStatus taskId .processSucceeded
  l.logEvent ("proc_succ:" ++ plan.dispatchId) "PROCESS_SUCCEEDED"
    [("task_id", taskId), ("dispatch_id", plan.dispatchId)]
  let receipt ← coordinate l.workspace fun id =>
    issueReceipt l.executor ⟨taskId, plan.dispatchId, plan.treeSha⟩ exitCode id
  coordinate l.workspace fun id =>
    createEvidence receipt.receiptId ⟨taskId, plan.dispatchId, plan.treeSha⟩ id

def pathOf (relPath : String) : String := ((PurePath.ofString l.workspace).join relPath).toString

def testFiles : List String → Call B (List String)
  | [] => .ret []
  | relPath :: relPaths => do
    let there ← perform (.isFile (l.pathOf relPath))
    let files ← testFiles relPaths
    return if there then l.pathOf relPath :: files else files

/-- Runs the pinned tests; without any, or if the run raises, they have not passed. -/
def runTests (taskId : String) (pins : Dict String String) : Call B Bool := do
  let files ← l.testFiles pins.keys
  if files = [] then return false
  else do
    perform .createTempFile
    ((perform (.runQa taskId files)).bind fun run => .ret (qaPassed run)).tryCatch fun _ =>
      .ret false

def digests (pins : Dict String String) : Call B (Dict String String) :=
  Proc.fold (fun actual relPath => do
    let digest ← perform (.fileDigest (l.pathOf relPath))
    return actual.set relPath (digest.getD (zeros 64))) [] pins.keys

def pins : Call B (Dict String String) := do
  let m ← perform .memory
  return ((m.systems.get? l.workspace).map (·.testHashes)).getD []

def review (taskId : String) (evidence : Evidence) : Call B EvidenceDecision := do
  let pins ← l.pins
  let passed ← l.runTests taskId pins
  let status ← perform (.gitStatus l.workspace)
  let tree ← perform (.inspectTree l.workspace)
  let actualTestHashes ← l.digests pins
  coordinate l.workspace fun id c =>
    let criteria := ((c.tasks.get? taskId).map (·.task.acceptanceCriteria)).getD []
    SupervisedCoordinator.qaReview api id ⟨l.qa, taskId, [evidence],
      ⟨if passed then criteria else [], actualTestHashes, resolveTreeSha tree.1 tree.2,
        checkCleanCheckout status, false⟩, 0⟩ c

def reviewStatus : Qa.Status → TaskStatus
  | .qaVerified => .verified
  | .unverified => .unverified
  | .blocked => .blocked

def settle (taskId : String) (plan : DispatchPlan) (evidence : Evidence)
    (decision : EvidenceDecision) : Call B (Option Failure) :=
  if decision.status = .qaVerified then do
    l.saveRecord taskId fun r =>
      { r with status := .verified, evidenceIds := [evidence.evidenceId] }
    l.logEvent ("qa_ver:" ++ plan.dispatchId) "TASK_VERIFIED"
      [("task_id", taskId), ("dispatch_id", plan.dispatchId), ("evidence_id", evidence.evidenceId)]
    return none
  else do
    l.releaseDispatch api taskId
    l.saveStatus taskId (reviewStatus decision.status)
    return some ⟨taskId, decision.reason⟩

def conclude (taskId : String) (plan : DispatchPlan) (exitCode : Int) : Call B (Option Failure) :=
  if exitCode ≠ 0 then do
    l.releaseDispatch api taskId
    l.saveStatus taskId .failed
    return some ⟨taskId, "process execution failed with exit code " ++ toString exitCode⟩
  else do
    let evidence ← l.reportSuccess taskId plan exitCode
    let decision ← l.review api taskId evidence
    l.settle api taskId plan evidence decision

def executeDispatched (taskId : String) (cmd : List String) (plan : DispatchPlan) :
    Call B (Option Failure) :=
  if l.consultModel ∧ ¬ l.providerTermsApproved then do
    l.releaseDispatch api taskId
    return some ⟨taskId, "D-02 provider terms review required before model invocation"⟩
  else do
    Proc.when l.consultModel (l.consult taskId)
    let exitCode ← develop taskId cmd
    l.conclude api taskId plan exitCode

def executeTask (taskId : String) : Call B (Option Failure) := do
  let role ← l.freezeTask taskId
  match commandFor l.commands taskId role with
  | none => l.missingCommand taskId
  | some cmd => do
    let plan ← l.beginDispatch api taskId
    l.executeDispatched api taskId cmd plan

def executeTasks : List String → Call B (Option Failure)
  | [] => .ret none
  | taskId :: taskIds => do
    match ← l.executeTask api taskId with
    | some f => return some f
    | none => executeTasks taskIds

def enterRun : Call B Unit := do
  match ← perform (.getRun l.runId) with
  | some _ => .ret ()
  | none => perform (.upsertRun
      ⟨l.runId, "Native lifecycle execution", l.workspace, .inProgress, "default"⟩)

def distinctRecords (rs : List TaskRecord) : List TaskRecord :=
  (rs.foldl (fun (d : Dict String TaskRecord) r => d.set r.taskId r) []).map (·.2)

def execute : Call B LifecycleResult := do
  Proc.when l.useStore l.enterRun
  let m ← perform .memory
  match m.coordinator? l.workspace with
  | none => .raise (.raised (.key l.workspace))
  | some c => do
    match ← l.executeTasks api c.order with
    | some f => return .failed f
    | none => do
      let m ← perform .memory
      return .completed (distinctRecords (m.taskRecords l.runId))

end Lifecycle

end SubagentBridge.Server
