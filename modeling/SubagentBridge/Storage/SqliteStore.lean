import SubagentBridge.Library.Dict
import SubagentBridge.Library.Fallible

/-! The server's database of runs, tasks and dispatches.  Each method here is one statement
with its commit; foreign keys are enforced. -/

namespace SubagentBridge.SqliteStore

open Library

inductive RunStatus
  | submitted | inProgress | blocked | failed | completed | verified | cancelled
  deriving DecidableEq

inductive TaskStatus
  | pending | frozen | dispatched | processSucceeded | verified | unverified | failed | blocked
  | cancelled | recoveryRequired
  deriving DecidableEq

def TaskStatus.inFlight : TaskStatus → Bool
  | .dispatched | .processSucceeded => true
  | _ => false

structure RunRecord where
  runId : String
  goal : String
  workspacePath : String
  status : RunStatus
  model : String
  deriving DecidableEq

structure TaskRecord where
  taskId : String
  runId : String
  title : String
  status : TaskStatus
  role : String
  treeSha : String
  dependencies : List String
  evidenceIds : List String
  deriving DecidableEq

def TaskRecord.assign (row t : TaskRecord) : TaskRecord :=
  { row with
    status := t.status, treeSha := t.treeSha, dependencies := t.dependencies
    evidenceIds := t.evidenceIds }

structure DispatchRow where
  dispatchId : String
  taskId : String
  attempt : Nat
  idempotencyKey : String
  treeSha : String
  status : String
  deriving DecidableEq

structure PendingRow where
  actionId : String
  sessionId : String
  fingerprint : String
  deriving DecidableEq

structure Db where
  runs : Dict String RunRecord
  tasks : Dict String TaskRecord
  dispatches : Dict String DispatchRow
  pendingActions : Dict String PendingRow
  deriving DecidableEq

inductive Error
  | integrity
  | sqlite
  deriving DecidableEq

namespace Db

def empty : Db := ⟨[], [], [], []⟩

def getRun (runId : String) (db : Db) : Option RunRecord := db.runs.get? runId

def loadTasksForRun (runId : String) (db : Db) : List TaskRecord :=
  (db.tasks.map (·.2)).filter (·.runId = runId)

def upsertRun (r : RunRecord) (db : Db) : Db :=
  { db with runs := db.runs.set r.runId (match db.runs.get? r.runId with
    | some row => { row with status := r.status }
    | none => r) }

def upsertTask (t : TaskRecord) (db : Db) : Except Error (Unit × Db) :=
  match db.tasks.get? t.taskId with
  | some row => .ok ((), { db with tasks := db.tasks.set t.taskId (TaskRecord.assign row t) })
  | none => do
    require (t.runId ∈ db.runs.keys) .integrity
    return ((), { db with tasks := db.tasks.set t.taskId t })

def upsertDispatch (d : DispatchRow) (db : Db) : Except Error (Unit × Db) :=
  match db.dispatches.get? d.dispatchId with
  | some row => .ok ((), { db with
      dispatches := db.dispatches.set d.dispatchId { row with status := d.status } })
  | none => do
    require (d.taskId ∈ db.tasks.keys) .integrity
    return ((), { db with dispatches := db.dispatches.set d.dispatchId d })

def upsertPendingAction (a : PendingRow) (db : Db) : Db :=
  { db with pendingActions := db.pendingActions.set a.actionId a }

def deleteTasks (p : TaskRecord → Bool) (db : Db) : Except Error (Unit × Db) := do
  require (∀ d ∈ db.dispatches, ∀ t ∈ db.tasks, p t.2 → d.2.taskId ≠ t.1) .integrity
  return ((), { db with tasks := db.tasks.filter fun t => ¬ p t.2 })

def deletePendingTasks (runId : String) (db : Db) : Except Error (Unit × Db) :=
  db.deleteTasks fun t => t.runId = runId ∧ t.status = .pending

def deleteRun (runId : String) (db : Db) : Except Error (Unit × Db) := do
  let (_, db) ← db.deleteTasks fun t => t.runId = runId
  require (∀ t ∈ db.tasks, t.2.runId ≠ runId) .integrity
  return ((), { db with runs := db.runs.erase runId })

def resetStatus (t : TaskRecord) : TaskRecord :=
  if t.status.inFlight then { t with status := .recoveryRequired } else t

def resetStaleActiveTasks (db : Db) : Db :=
  { db with tasks := db.tasks.map fun p => (p.1, resetStatus p.2) }

def loadAllTasks (db : Db) : Dict String (List TaskRecord) :=
  db.tasks.foldl (fun byRun p =>
    byRun.set p.2.runId ((byRun.get? p.2.runId).getD [] ++ [p.2])) []

end Db

end SubagentBridge.SqliteStore
