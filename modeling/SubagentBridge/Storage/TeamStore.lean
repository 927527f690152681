import SubagentBridge.Domain.TeamContracts
import SubagentBridge.Library.Fallible
import SubagentBridge.Library.Text
import Mathlib.Order.Defs.LinearOrder

/-! The team store: one SQLite database that every supervisor process opens.  Each method
here is one statement, or one `BEGIN IMMEDIATE` block. -/

namespace SubagentBridge.TeamStore

open Library Domain

inductive Error
  | value : String → Error
  | permission : String → Error
  | key : String → Error
  | runtime : String → Error
  | fileNotFound : String → Error
  | type
  | attribute
  | os
  | integrity
  | sqlite
  deriving DecidableEq

variable {F : Type}

structure QueueRow (F : Type) where
  dispatchId : String
  teamId : String
  fromSessionId : String
  toSessionId : String
  taskId : String
  payloadJson : String
  status : QueueTaskStatus
  dedupKey : Option String
  priority : Int
  steeringJson : String
  createdAt : F
  updatedAt : F
  deriving DecidableEq

structure Db (F : Type) where
  teams : Dict String (AgentTeam F)
  sessions : Dict String (AgentSession F)
  queue : Dict String (QueueRow F)
  worktrees : Dict String (WorktreeAssignment F)
  handoffs : Dict String (String × HandoffEvidence F)
  checkpoints : Dict String (WorkerCheckpoint F)

variable [FloatText F]

def toRow (item : QueueItem F) : QueueRow F where
  dispatchId := item.dispatchId
  teamId := item.teamId
  fromSessionId := item.fromSessionId
  toSessionId := item.toSessionId
  taskId := item.taskId
  payloadJson := (Json.obj item.payload).dumps
  status := item.status
  dedupKey := item.dedupKey
  priority := item.priority
  steeringJson := (Json.arr item.steeringInstructions).dumps
  createdAt := item.createdAt
  updatedAt := item.updatedAt

def QueueRow.assign (row : QueueRow F) (item : QueueItem F) : QueueRow F :=
  { toRow item with
    dispatchId := row.dispatchId
    teamId := row.teamId
    fromSessionId := row.fromSessionId
    toSessionId := row.toSessionId
    taskId := row.taskId
    createdAt := row.createdAt }

def steeringOf (steeringJson : String) : List (Json F) :=
  match Json.loads steeringJson with
  | some (.arr entries) => entries
  | _ => []

def rowToQueueItem (row : QueueRow F) : Except Error (QueueItem F) :=
  match Json.loads row.payloadJson with
  | some (.obj payload) => .ok {
      dispatchId := row.dispatchId
      teamId := row.teamId
      fromSessionId := row.fromSessionId
      toSessionId := row.toSessionId
      taskId := row.taskId
      payload
      status := row.status
      dedupKey := row.dedupKey
      priority := row.priority
      steeringInstructions := steeringOf row.steeringJson
      createdAt := row.createdAt
      updatedAt := row.updatedAt }
  | _ => .error (.value "JSONDecodeError")

namespace Db

/-! ## Reads -/

omit [FloatText F] in
def loadTeam (db : Db F) (teamId : String) : Option (AgentTeam F) := db.teams.get? teamId

omit [FloatText F] in
def loadSession (db : Db F) (sessionId : String) : Option (AgentSession F) :=
  db.sessions.get? sessionId

omit [FloatText F] in
def loadWorktree (db : Db F) (workerId : String) : Option (WorktreeAssignment F) :=
  db.worktrees.get? workerId

def loadQueueItem (db : Db F) (dispatchId : String) : Except Error (Option (QueueItem F)) :=
  match db.queue.get? dispatchId with
  | none => .ok none
  | some row => (rowToQueueItem row).map some

omit [FloatText F] in
def listHandoffsByTeam (db : Db F) (teamId : String) : List (HandoffEvidence F) :=
  (db.handoffs.filter fun p => p.2.1 = teamId).map fun p => p.2.2

def selectQueueStatus (db : Db F) (dispatchId : String) : Option (QueueTaskStatus × String) :=
  (db.queue.get? dispatchId).map fun row => (row.status, row.toSessionId)

def selectHandoff (db : Db F) (dispatchId : String) : Bool := (db.handoffs.get? dispatchId).isSome

section Ordered

variable [LinearOrder F]

omit [FloatText F] in
def listSessionsByTeam (db : Db F) (teamId : String) : List (AgentSession F) :=
  ((db.sessions.map (·.2)).filter (·.teamId = teamId)).insertionSort fun a b =>
    a.createdAt ≤ b.createdAt

omit [FloatText F] in
def rowsByTeam (db : Db F) (teamId : String) : List (QueueRow F) :=
  ((db.queue.map (·.2)).filter (·.teamId = teamId)).insertionSort fun a b =>
    a.createdAt ≤ b.createdAt

def listQueueByTeam (db : Db F) (teamId : String) : Except Error (List (QueueItem F)) :=
  (db.rowsByTeam teamId).mapM rowToQueueItem

omit [FloatText F] in
def loadLatestCheckpoint (db : Db F) (workerId : String) : Option (WorkerCheckpoint F) :=
  (((db.checkpoints.map (·.2)).filter (·.workerId = workerId)).insertionSort fun a b =>
    b.stepIndex < a.stepIndex ∨ a.stepIndex = b.stepIndex ∧ b.createdAt ≤ a.createdAt).head?

/-- The row that `insert_queue_item_once` finds under the deduplication key. -/
def duplicateOf (db : Db F) (teamId dedupKey : String) : Option (QueueRow F) :=
  (((db.queue.map (·.2)).filter fun row => row.teamId = teamId ∧ row.dedupKey = some dedupKey ∧
    row.status ∉ [.failed, .cancelled]).insertionSort fun a b => b.createdAt ≤ a.createdAt).head?

end Ordered

/-! ## Writes -/

omit [FloatText F] in
def saveSession (db : Db F) (session : AgentSession F) : Db F :=
  let row := match db.sessions.get? session.sessionId with
    | none => session
    | some row =>
      { row with
        status := session.status
        config := session.config
        updatedAt := session.updatedAt }
  { db with sessions := db.sessions.set session.sessionId row }

omit [FloatText F] in
def saveCheckpoint (db : Db F) (cp : WorkerCheckpoint F) : Db F :=
  let row := match db.checkpoints.get? cp.checkpointId with
    | none => cp
    | some row =>
      { cp with workerId := row.workerId, teamId := row.teamId, createdAt := row.createdAt }
  { db with checkpoints := db.checkpoints.set cp.checkpointId row }

omit [FloatText F] in
def setRow (db : Db F) (dispatchId : String) (row : QueueRow F) : Db F :=
  { db with queue := db.queue.set dispatchId row }

def saveQueueItem (db : Db F) (item : QueueItem F) : Db F :=
  db.setRow item.dispatchId <| match db.queue.get? item.dispatchId with
    | none => toRow item
    | some row => row.assign item

def insertQueueItemOnce [LinearOrder F] (item : QueueItem F) (db : Db F) :
    Except Error (QueueItem F × Db F) :=
  match (item.dedupKey.filter (· ≠ "")).bind (db.duplicateOf item.teamId) with
  | some row => (rowToQueueItem row).map fun item => (item, db)
  | none =>
    match db.queue.get? item.dispatchId with
    | some _ => .error .integrity
    | none => .ok (item, db.setRow item.dispatchId (toRow item))

end Db

inductive Guidance (F : Type)
  | text : String → Guidance F
  | mapping : (d : Dict String (Json F)) → (Json.obj d).Wf → Guidance F

def privilegedKeys : List String :=
  ["command", "execution_ticket", "approved", "approver", "approval_action_id", "workspace_path",
    "payload"]

omit [FloatText F] in
def Guidance.value : Guidance F → Json F
  | .text s => .str s
  | .mapping d _ => .obj d

def checkSteering (guidance : Option (Guidance F)) (priority : Option Int) :
    Except Error Unit := do
  require (guidance.isSome ∨ priority.isSome) (.value "guidance or priority must be specified")
  require (∀ p ∈ priority, -100 ≤ p ∧ p ≤ 100)
    (.value "priority must be an integer from -100 to 100")
  match guidance with
  | none => .ok ()
  | some (.text s) =>
    require (¬ isBlank s ∧ s.length ≤ 4096) (.value "bounded nonempty guidance required")
  | some (.mapping d _) => do
    require (d ≠ [] ∧ d.length ≤ 32 ∧ ∀ k ∈ privilegedKeys, k ∉ d.keys)
      (.permission "guidance cannot modify privileged execution context")
    require ((Json.obj d).dumps.length ≤ 4096) (.value "guidance size limit exceeded")

omit [FloatText F] in
def checkLead (db : Db F) (leadSessionId teamId : String) : Except Error Unit := do
  let lead := db.loadSession leadSessionId
  let owner := db.loadTeam teamId
  require (lead.map (·.role) = some .lead) (.permission "Only lead session can steer tasks")
  require (lead.map (·.teamId) = some teamId)
    (.permission "cross-team task steering not permitted")
  require (owner.map (·.leadSessionId) = some leadSessionId)
    (.permission "Only registered team lead can steer tasks")

def guidanceEntry (guidance : Guidance F) (leadSessionId : String) (time : F) : Json F :=
  .obj [("guidance", guidance.value), ("steered_by", .str leadSessionId),
    ("timestamp", .float time)]

def cancellationEntry (reason leadSessionId : String) (time : F) : Json F :=
  .obj [("cancellation_reason", .str reason), ("cancelled_by", .str leadSessionId),
    ("timestamp", .float time)]

namespace Db

def steerBody (leadSessionId dispatchId : String) (guidance : Option (Guidance F))
    (priority : Option Int) (time updatedAt : F) (db : Db F) :
    Except Error (QueueItem F × Db F) :=
  match db.queue.get? dispatchId with
  | none => .error (.key dispatchId)
  | some row => do
    let item ← rowToQueueItem row
    checkLead db leadSessionId item.teamId
    require (item.status.active = true)
      (.value ("Cannot steer task in terminal or nonactive status " ++ item.status.value))
    require (priority = none ∨ item.status = .pending)
      (.value "only pending tasks may be reprioritized")
    let item := { item with
      steeringInstructions := item.steeringInstructions ++
        (guidance.map fun g => guidanceEntry g leadSessionId time).toList
      priority := priority.getD item.priority
      updatedAt }
    let steeringJson := (toRow item).steeringJson
    return (item, db.setRow dispatchId
      { row with steeringJson, priority := item.priority, updatedAt })

def steerQueueItemOnce (leadSessionId dispatchId : String) (guidance : Option (Guidance F))
    (priority : Option Int) (time updatedAt : F) (db : Db F) :
    Except Error (QueueItem F × Db F) := do
  checkSteering guidance priority
  db.steerBody leadSessionId dispatchId guidance priority time updatedAt

def cancelActiveQueueItem (dispatchId leadSessionId reason : String) (time updatedAt : F)
    (db : Db F) : Except Error (QueueItem F × Db F) :=
  match db.queue.get? dispatchId with
  | none => .error (.key dispatchId)
  | some row => do
    let item ← rowToQueueItem row
    require (item.status.active = true)
      (.value ("Task cannot be cancelled from " ++ item.status.value))
    let item := { item with
      steeringInstructions := item.steeringInstructions ++
        if reason = "" then [] else [cancellationEntry reason leadSessionId time]
      status := .cancelled
      updatedAt }
    let steeringJson := (toRow item).steeringJson
    return (item, db.setRow dispatchId { row with status := .cancelled, steeringJson, updatedAt })

def markTaskResuming (repr : String → String) (dispatchId : String) (now : F) (db : Db F) :
    Except Error (QueueItem F) × Db F :=
  match db.queue.get? dispatchId with
  | none => (.error (.key ("queue item " ++ repr dispatchId ++ " not found")), db)
  | some row =>
    match row.status with
    | .running => (.error (.runtime
        ("Concurrent resume rejected: task " ++ repr dispatchId ++ " is already RUNNING")), db)
    | .completed => (.error (.runtime
        ("Duplicate resume rejected: task " ++ repr dispatchId ++ " is already COMPLETED")), db)
    | .cancelled => (.error (.runtime
        ("Resume rejected: task " ++ repr dispatchId ++ " is CANCELLED")), db)
    | _ =>
      ((rowToQueueItem row).map fun item => { item with status := .running, updatedAt := now },
        db.setRow dispatchId { row with status := .running, updatedAt := now })

/-- The writes of `finalize_handoff_transaction`, one transaction. -/
def finalizeHandoff (repr : String → String) (teamId : String) (evidence : HandoffEvidence F)
    (newQueueStatus : Option QueueTaskStatus) (workerId : String) (now : F) (db : Db F) :
    Except Error (Unit × Db F) :=
  match db.handoffs.get? evidence.dispatchId with
  | some _ => .error (.value
      ("Handoff already finalized for dispatch " ++ repr evidence.dispatchId))
  | none => .ok ((), { db with
      handoffs := db.handoffs.set evidence.dispatchId (teamId, evidence)
      queue := match newQueueStatus, db.queue.get? evidence.dispatchId with
        | some status, some row =>
          db.queue.set evidence.dispatchId { row with status, updatedAt := now }
        | _, _ => db.queue
      sessions := match db.sessions.get? workerId with
        | some row => db.sessions.set workerId { row with status := .idle, updatedAt := now }
        | none => db.sessions })

end Db

end SubagentBridge.TeamStore
