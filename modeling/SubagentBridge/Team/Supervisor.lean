import SubagentBridge.Library.Interleaving
import SubagentBridge.Library.Paths
import SubagentBridge.Storage.TeamRegistration

/-! What a supervisor process can do: the methods of the team store, and what it asks of the
world outside (clock, files, git, worker processes, the approval authority). -/

namespace SubagentBridge.Supervisor

open Library Domain TeamStore

variable {F : Type}

abbrev Error := TeamStore.Error

structure ApprovalAction where
  actionId : String
  state : String
  deriving DecidableEq

structure SpawnRecord (F : Type) where
  pid : Int
  createTime : Option F

inductive Op (F : Type)
  | createTeamWithLeadOnce (teamId leadSessionId title : String)
  | registerSingleWorkerOnce (teamId : String) (config : WorkerConfig F)
      (worktreePath branchName : Option String)
  | registerWorkerBatchOnce (teamId leadSessionId : String) (configs : List (WorkerConfig F))
      (maxWorkers : Int)
  | loadTeam (teamId : String)
  | loadSession (sessionId : String)
  | saveSession (session : AgentSession F)
  | listSessionsByTeam (teamId : String)
  | loadQueueItem (dispatchId : String)
  | listQueueByTeam (teamId : String)
  | insertQueueItemOnce (item : QueueItem F)
  | steerQueueItemOnce (leadSessionId dispatchId : String) (guidance : Option (Guidance F))
      (priority : Option Int)
  | cancelActiveQueueItem (dispatchId leadSessionId reason : String)
  | saveQueueItem (item : QueueItem F)
  | markTaskResuming (dispatchId : String)
  | selectQueueStatus (dispatchId : String)
  | selectHandoff (dispatchId : String)
  | finalizeHandoff (teamId : String) (evidence : HandoffEvidence F)
      (newQueueStatus : Option QueueTaskStatus) (workerId : String)
  | listHandoffsByTeam (teamId : String)
  | loadWorktree (workerId : String)
  | loadLatestCheckpoint (workerId : String)
  | saveCheckpoint (cp : WorkerCheckpoint F)
  | now
  | uuidHex
  | pathExists (path : PurePath)
  | isDir (path : PurePath)
  | isFile (path : PurePath)
  | isSymlink (path : PurePath)
  | fileSize (path : PurePath)
  | resolvePath (path : PurePath)
  | fileSha (path : PurePath)
  | gitHead (path : String)
  | isProcessAlive (pid : Int) (createTime : Option F)
  | isWorkerAlive (workerId : String)
  | hasAttachedWorkerIpc (workerId : String)
  | isWorkerDispatchable (workerId : String)
  | resumeWorker (workerId : String)
  | spawnWorker (config : WorkerConfig F) (worktreePath : Option String)
  | dispatchTaskToWorker (workerId taskId : String) (payload : Dict String (Json F))
  | getAction (actionId : Json F)
  | isActionForContext (action : ApprovalAction) (workerId taskId : String)
      (command : List String) (path : String)
  | isActionConsumed (actionId : String)
  | requestCommandApproval (workerId taskId : String) (command : List String) (path : String)

abbrev Op.Ret : Op F → Type
  | .createTeamWithLeadOnce _ _ _ => AgentTeam F
  | .registerSingleWorkerOnce _ _ _ _ => AgentSession F
  | .registerWorkerBatchOnce _ _ _ _ => List (AgentSession F)
  | .loadTeam _ => Option (AgentTeam F)
  | .loadSession _ => Option (AgentSession F)
  | .saveSession _ | .saveQueueItem _ | .finalizeHandoff _ _ _ _ | .saveCheckpoint _ => Unit
  | .listSessionsByTeam _ => List (AgentSession F)
  | .loadQueueItem _ => Option (QueueItem F)
  | .listQueueByTeam _ => List (QueueItem F)
  | .insertQueueItemOnce _ | .steerQueueItemOnce _ _ _ _ | .cancelActiveQueueItem _ _ _
  | .markTaskResuming _ => QueueItem F
  | .selectQueueStatus _ => Option (QueueTaskStatus × String)
  | .selectHandoff _ => Bool
  | .listHandoffsByTeam _ => List (HandoffEvidence F)
  | .loadWorktree _ => Option (WorktreeAssignment F)
  | .loadLatestCheckpoint _ => Option (WorkerCheckpoint F)
  | .now => F
  | .uuidHex | .fileSha _ => String
  | .pathExists _ | .isDir _ | .isFile _ | .isSymlink _ => Bool
  | .fileSize _ => Nat
  | .resolvePath _ => PurePath
  | .gitHead _ => Option String
  | .isProcessAlive _ _ | .isWorkerAlive _ | .hasAttachedWorkerIpc _ | .isWorkerDispatchable _
  | .resumeWorker _ => Bool
  | .spawnWorker _ _ => SpawnRecord F
  | .dispatchTaskToWorker _ _ _ => Dict String (Json F)
  | .getAction _ => Option ApprovalAction
  | .isActionForContext _ _ _ _ _ | .isActionConsumed _ => Bool
  | .requestCommandApproval _ _ _ _ => ApprovalAction

variable (F) in
abbrev sig : Signature := ⟨Op F, Op.Ret⟩

abbrev Call (F α : Type) := Proc (sig F) Error α

def perform (o : Op F) : Call F o.Ret := Proc.op (S := sig F) o

/-- What the environment contributes to a step: the clock, whether the database fails, its
answers to all that is not a query, and the sessions that the worker controller leaves. -/
structure World (F : Type) where
  time : F
  later : F
  fails : Bool
  answer : (o : Op F) → Except Error o.Ret
  sessions : Dict String (AgentSession F)

def Op.external : Op F → Bool
  | .now | .uuidHex | .pathExists _ | .isDir _ | .isFile _ | .isSymlink _ | .fileSize _
  | .resolvePath _ | .fileSha _ | .gitHead _ | .isProcessAlive _ _ | .isWorkerAlive _
  | .hasAttachedWorkerIpc _ | .isWorkerDispatchable _ | .resumeWorker _ | .spawnWorker _ _
  | .dispatchTaskToWorker _ _ _ | .getAction _ | .isActionForContext _ _ _ _ _
  | .isActionConsumed _ | .requestCommandApproval _ _ _ _ => true
  | _ => false

variable [LinearOrder F] [FloatText F]

def run (repr : String → String) : (o : Op F) → World F → Db F → Except Error o.Ret × Db F
  | .createTeamWithLeadOnce teamId leadSessionId title, w, db =>
    atomically (Db.createTeamWithLeadOnce teamId leadSessionId title w.time) db
  | .registerSingleWorkerOnce teamId config worktreePath branchName, w, db =>
    atomically (Db.registerSingleWorkerOnce repr teamId config worktreePath branchName w.time) db
  | .registerWorkerBatchOnce teamId leadSessionId configs maxWorkers, w, db =>
    atomically (Db.registerWorkerBatchOnce teamId leadSessionId configs maxWorkers w.time) db
  | .loadTeam teamId, _, db => (.ok (db.loadTeam teamId), db)
  | .loadSession sessionId, _, db => (.ok (db.loadSession sessionId), db)
  | .saveSession session, _, db => (.ok (), db.saveSession session)
  | .listSessionsByTeam teamId, _, db => (.ok (db.listSessionsByTeam teamId), db)
  | .loadQueueItem dispatchId, _, db => (db.loadQueueItem dispatchId, db)
  | .listQueueByTeam teamId, _, db => (db.listQueueByTeam teamId, db)
  | .insertQueueItemOnce item, _, db => atomically (Db.insertQueueItemOnce item) db
  | .steerQueueItemOnce leadSessionId dispatchId guidance priority, w, db =>
    atomically (Db.steerQueueItemOnce leadSessionId dispatchId guidance priority w.time w.later) db
  | .cancelActiveQueueItem dispatchId leadSessionId reason, w, db =>
    atomically (Db.cancelActiveQueueItem dispatchId leadSessionId reason w.time w.later) db
  | .saveQueueItem item, _, db => (.ok (), db.saveQueueItem item)
  | .markTaskResuming dispatchId, w, db => db.markTaskResuming repr dispatchId w.time
  | .selectQueueStatus dispatchId, _, db => (.ok (db.selectQueueStatus dispatchId), db)
  | .selectHandoff dispatchId, _, db => (.ok (db.selectHandoff dispatchId), db)
  | .finalizeHandoff teamId evidence newQueueStatus workerId, w, db =>
    atomically (Db.finalizeHandoff repr teamId evidence newQueueStatus workerId w.time) db
  | .listHandoffsByTeam teamId, _, db => (.ok (db.listHandoffsByTeam teamId), db)
  | .loadWorktree workerId, _, db => (.ok (db.loadWorktree workerId), db)
  | .loadLatestCheckpoint workerId, _, db => (.ok (db.loadLatestCheckpoint workerId), db)
  | .saveCheckpoint cp, _, db => (.ok (), db.saveCheckpoint cp)
  | .resumeWorker workerId, w, db =>
    (w.answer (.resumeWorker workerId), { db with sessions := w.sessions })
  | .spawnWorker config worktreePath, w, db =>
    (w.answer (.spawnWorker config worktreePath), { db with sessions := w.sessions })
  | .dispatchTaskToWorker workerId taskId payload, w, db =>
    (w.answer (.dispatchTaskToWorker workerId taskId payload), { db with sessions := w.sessions })
  | o, w, db => (w.answer o, db)

def exec (repr : String → String) (o : Op F) (w : World F) (db : Db F) :
    Except Error o.Ret × Db F :=
  if w.fails ∧ o.external = false then (.error .sqlite, db) else run repr o w db

end SubagentBridge.Supervisor
