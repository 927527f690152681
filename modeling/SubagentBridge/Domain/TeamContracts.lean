import SubagentBridge.Library.JsonValues

/-! The records of the team: sessions, queue items, worktrees, handoffs, checkpoints. -/

namespace SubagentBridge.Domain

open Library

inductive AgentRole | lead | worker
  deriving DecidableEq

def AgentRole.value : AgentRole → String
  | .lead => "lead"
  | .worker => "worker"

inductive WorkerStatus | idle | running | paused | interrupted | completed | failed | archived
  deriving DecidableEq

inductive QueueTaskStatus
  | pending | dispatched | running | interrupted | completed | cancelled | failed | ambiguous
  deriving DecidableEq

def QueueTaskStatus.value : QueueTaskStatus → String
  | .pending => "PENDING"
  | .dispatched => "DISPATCHED"
  | .running => "RUNNING"
  | .interrupted => "INTERRUPTED"
  | .completed => "COMPLETED"
  | .cancelled => "CANCELLED"
  | .failed => "FAILED"
  | .ambiguous => "AMBIGUOUS"

def QueueTaskStatus.active : QueueTaskStatus → Bool
  | .pending | .dispatched | .running => true
  | .interrupted | .completed | .cancelled | .failed | .ambiguous => false

structure WorkerConfig (F : Type) where
  workerId : String
  teamId : String
  role : String
  harness : String
  model : Option String
  provider : Option String
  systemPrompt : Option String
  workingDir : Option String
  effort : Option String
  budgetTokens : Option Int
  pid : Option Int
  processCreateTime : Option F
  tokensConsumed : Int
  fallbackToNative : Bool
  deriving DecidableEq

structure AgentTeam (F : Type) where
  teamId : String
  leadSessionId : String
  title : String
  createdAt : F
  deriving DecidableEq

structure AgentSession (F : Type) where
  sessionId : String
  role : AgentRole
  teamId : String
  status : WorkerStatus
  config : WorkerConfig F
  createdAt : F
  updatedAt : F
  deriving DecidableEq

structure QueueItem (F : Type) where
  dispatchId : String
  teamId : String
  fromSessionId : String
  toSessionId : String
  taskId : String
  payload : Dict String (Json F)
  status : QueueTaskStatus
  dedupKey : Option String
  priority : Int
  steeringInstructions : List (Json F)
  createdAt : F
  updatedAt : F
  deriving DecidableEq

structure WorktreeAssignment (F : Type) where
  workerId : String
  teamId : String
  worktreePath : String
  branchName : String
  createdAt : F
  deriving DecidableEq

structure HandoffEvidence (F : Type) where
  dispatchId : String
  fromWorkerId : String
  toLeadId : String
  status : String
  summary : String
  artifacts : List String
  metrics : Dict String (Json F)
  submittedAt : F

structure ChannelMessage (F : Type) where
  messageId : String
  teamId : String
  fromSessionId : String
  toSessionId : String
  content : String
  role : String
  createdAt : F
  deriving DecidableEq

structure WorkerCheckpoint (F : Type) where
  checkpointId : String
  workerId : String
  teamId : String
  stepIndex : Int
  stateSummary : String
  tokensConsumed : Int
  contextSnapshot : Dict String (Json F)
  createdAt : F
  deriving DecidableEq

end SubagentBridge.Domain
