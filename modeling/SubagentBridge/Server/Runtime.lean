import SubagentBridge.Execution.Checkout
import SubagentBridge.Execution.QaReport
import SubagentBridge.Library.Service
import SubagentBridge.Storage.SqliteStore
import SubagentBridge.Team.Coordinator

/-! The server process: what it keeps in memory, its database, and the operations that its
tools are made of.  Memory is lost with the process; the database is not. -/

namespace SubagentBridge.Server

open Library Domain Team SqliteStore Execution

/-- What a tool raises: an error of the domain or of the database, or one of the system. -/
inductive Error
  | raised (e : Domain.Error)
  | store (e : SqliteStore.Error)
  | os
  | timeout
  deriving DecidableEq

/-- What the server uses of a `ProductionSystem`.  The coordinator shares the registries and
the budget. -/
structure System (B : Type) where
  identities : IdentityRegistry
  receipts : ReceiptIssuerRegistry
  budget : B
  testHashes : Dict String String
  coordinator : Option (SupervisedCoordinator B)

/-- An entry of `_approved_commands`; a key that the entry lacks is `none`. -/
structure Approval where
  consumed : Bool
  runId : Option String
  taskId : Option String
  workspacePath : Option String
  command : Option (List String)
  actionId : Option String
  deriving DecidableEq

structure ToolCall where
  command : String
  commandList : List String
  path : String
  operation : String
  reason : String
  taskId : String
  fingerprint : String
  deriving DecidableEq

/-- An unresolved action; those of agent sessions have no tool call of this kind. -/
structure PendingAction where
  actionId : String
  sessionId : String
  description : String
  rawToolCall : Option ToolCall
  deriving DecidableEq

/-- The module variables of the server.  The records in `tasks` are the ones that a lifecycle
in progress works on. -/
structure Memory (B : Type) where
  runs : Dict String RunRecord
  tasks : Dict String (List TaskRecord)
  runCommands : Dict String (Dict String (List String))
  approvedCommands : Dict String Approval
  pending : List PendingAction
  systems : Dict String (System B)

def Memory.consumeApproval {B : Type} (fingerprint : String) (m : Memory B) : Memory B :=
  match m.approvedCommands.get? fingerprint with
  | some a => { m with
      approvedCommands := m.approvedCommands.set fingerprint { a with consumed := true } }
  | none => m

structure State (B : Type) where
  memory : Memory B
  db : Db

inductive ProcessOutcome
  | exited (exitCode : Int) (outputText : String)
  /-- killed after the time limit -/
  | timedOut
  /-- the executable could not be started -/
  | notStarted
  deriving DecidableEq

structure ProcessResult where
  exitCode : Int
  outputText : String
  deriving DecidableEq

structure LedgerEvent where
  stream : String
  idempotencyKey : String
  eventType : String
  payload : Dict String String
  deriving DecidableEq

inductive Op (B : Type)
  | memory
  | modify (f : Memory B → Memory B)
  | consumeApproval (fingerprint : String)
  | uuid4
  | tokenBytes
  | getRun (runId : String)
  | loadTasksForRun (runId : String)
  | upsertRun (r : RunRecord)
  | upsertTask (t : TaskRecord)
  | upsertDispatch (d : DispatchRow)
  | upsertPendingAction (a : PendingRow)
  | deletePendingTasks (runId : String)
  | deleteRun (runId : String)
  | openSystem (workspace : String)
  | openWorkspace (workspace : String)
  | appendOnce (workspace : String) (e : LedgerEvent)
  | inspectTree (workspace : String)
  | gitStatus (workspace : String)
  | isFile (path : String)
  | fileDigest (path : String)
  | createTempFile
  | chat (taskId : String)
  | runIsolated (taskId : String) (argv : List String)
  | runQa (taskId : String) (testFiles : List String)

abbrev Op.Ret {B : Type} : Op B → Type
  | .memory => Memory B
  | .uuid4 | .tokenBytes => String
  | .getRun _ => Option RunRecord
  | .loadTasksForRun _ => List TaskRecord
  | .openSystem _ => B × Dict String String
  | .inspectTree _ => GitAnswer String × String
  | .gitStatus _ => GitAnswer (List String)
  | .isFile _ => Bool
  | .fileDigest _ => Option String
  | .runIsolated _ _ => ProcessResult
  | .runQa _ _ => QaRun
  | _ => Unit

abbrev sig (B : Type) : Signature := ⟨Op B, Op.Ret⟩

abbrev Call (B α : Type) := Proc (sig B) Error α

def perform {B : Type} (o : Op B) : Call B o.Ret := Proc.op (S := sig B) o

structure World (B : Type) where
  /-- the statement, system call or request fails -/
  fails : Bool := false
  text : String := ""
  system : Option (B × Dict String String) := none
  tree : GitAnswer String × String := (none, "")
  status : GitAnswer (List String) := none
  present : Bool := false
  digest : Option String := none
  process : ProcessOutcome := .notStarted
  qaRun : QaRun := ⟨1, .empty, ""⟩

section Exec

variable {B : Type}

def reading {α : Type} (w : World B) (s : State B) (f : Db → α) : Except Error α × State B :=
  if w.fails then (.error (.store .sqlite), s) else (.ok (f s.db), s)

def writing (w : World B) (s : State B) (f : Db → Except SqliteStore.Error (Unit × Db)) :
    Except Error Unit × State B :=
  if w.fails then (.error (.store .sqlite), s)
  else match f s.db with
    | .ok (_, db) => (.ok (), { s with db })
    | .error e => (.error (.store e), s)

def asking {α : Type} (w : World B) (s : State B) (a : α) : Except Error α × State B :=
  (if w.fails then .error .os else .ok a, s)

def ProcessOutcome.result : ProcessOutcome → Except Error ProcessResult
  | .exited exitCode outputText => .ok ⟨exitCode, outputText⟩
  | .timedOut => .error .timeout
  | .notStarted => .error .os

def exec : (o : Op B) → World B → State B → Except Error o.Ret × State B
  | .memory, _, s => (.ok s.memory, s)
  | .modify f, _, s => (.ok (), { s with memory := f s.memory })
  | .consumeApproval fp, _, s => (.ok (), { s with memory := s.memory.consumeApproval fp })
  | .uuid4, w, s => (.ok w.text, s)
  | .tokenBytes, w, s => (.ok w.text, s)
  | .getRun runId, w, s => reading w s (Db.getRun runId)
  | .loadTasksForRun runId, w, s => reading w s (Db.loadTasksForRun runId)
  | .upsertRun r, w, s => writing w s fun db => .ok ((), db.upsertRun r)
  | .upsertTask t, w, s => writing w s (Db.upsertTask t)
  | .upsertDispatch d, w, s => writing w s (Db.upsertDispatch d)
  | .upsertPendingAction a, w, s => writing w s fun db => .ok ((), db.upsertPendingAction a)
  | .deletePendingTasks runId, w, s => writing w s (Db.deletePendingTasks runId)
  | .deleteRun runId, w, s => writing w s (Db.deleteRun runId)
  | .openSystem _, w, s => ((w.system.map .ok).getD (.error .os), s)
  | .openWorkspace _, w, s => asking w s ()
  | .appendOnce _ _, w, s => asking w s ()
  | .inspectTree _, w, s => (.ok w.tree, s)
  | .gitStatus _, w, s => (.ok w.status, s)
  | .isFile _, w, s => (.ok w.present, s)
  | .fileDigest _, w, s => asking w s w.digest
  | .createTempFile, w, s => asking w s ()
  | .chat _, w, s => asking w s ()
  | .runIsolated _ _, w, s => (w.process.result, s)
  | .runQa _ _, w, s => asking w s w.qaRun

def runIdOf (hex : String) : String := "run_" ++ take hex 12

def taskIdOf (hex : String) : String := "task_" ++ take hex 8

def possible : Op B → World B → State B → Bool
  | .uuid4, w, s =>
    runIdOf w.text ∉ s.db.runs.keys ∧ runIdOf w.text ∉ s.memory.runs.keys ∧
      taskIdOf w.text ∉ s.db.tasks.keys
  | _, _, _ => true

abbrev runtime (B : Type) : Runtime (sig B) Error where
  State := State B
  World := World B
  possible := possible
  exec := exec

abbrev Moment (B : Type) := (runtime B).Moment

abbrev ServerEvent (B : Type) := Event (sig B) Error

end Exec

def lift {B α : Type} (x : Except Domain.Error α) : Call B α := Proc.ofExcept (x.mapError .raised)

def ignoring {B : Type} (p : Call B Unit) : Call B Unit := p.tryCatch fun _ => .ret ()

end SubagentBridge.Server
