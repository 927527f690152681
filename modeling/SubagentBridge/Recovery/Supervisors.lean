import SubagentBridge.Recovery.ResumeTask

/-! Any number of supervisor processes on one team store. -/

namespace SubagentBridge.Supervisor

open Library Domain TeamStore

variable {F : Type}

inductive Request (F : Type)
  | createTeam (teamId : Option String) (leadSessionId title : String)
  | createWorker (teamId : String) (config : WorkerConfig F)
      (worktreePath branchName : Option String)
  | createWorkersBatch (leadSessionId teamId : String) (configs : List (WorkerConfig F))
      (maxWorkers : Int)
  | setWorkerStatus (workerId : String) (status : WorkerStatus)
  | dispatchTask (fromSessionId toSessionId taskId : String) (payload : Dict String (Json F))
      (dedupKey : Option String) (priority : Int)
  | steerTask (leadSessionId dispatchId : String) (guidance : Guidance F)
  | reprioritizeTask (leadSessionId dispatchId : String) (priority : Int)
  | cancelTask (leadSessionId dispatchId reason : String)
  | interruptWorker (workerId reason : String)
  | submitWorkerHandoff (evidence : HandoffEvidence F) (verifyArtifacts : Bool)
  | resumeTask (dispatchId : String) (trusted : Bool)
  | reconcileTeam (teamId : String) (markInFlight : Bool)
  | reconcileAmbiguous (dispatchId resolution operatorNotes : String)

inductive Response (F : Type)
  | team (team : AgentTeam F)
  | sessions (sessions : List (AgentSession F))
  | item (item : QueueItem F)
  | flag (b : Bool)
  | reply (reply : Reply F)

variable [FloatText F] [FloatInt F] (B : Builtins F)

def body : Request F → Call F (Response F)
  | .createTeam teamId leadSessionId title => do
    return .team (← createTeam teamId leadSessionId title)
  | .createWorker teamId config worktreePath branchName => do
    return .sessions [← createWorker teamId config worktreePath branchName]
  | .createWorkersBatch leadSessionId teamId configs maxWorkers => do
    return .sessions (← createWorkersBatch leadSessionId teamId configs maxWorkers)
  | .setWorkerStatus workerId status => do
    return .sessions [← setWorkerStatus B workerId status]
  | .dispatchTask fromSessionId toSessionId taskId payload dedupKey priority => do
    return .item (← dispatchTask B fromSessionId toSessionId taskId payload dedupKey priority)
  | .steerTask leadSessionId dispatchId guidance => do
    return .item (← steerTask leadSessionId dispatchId guidance)
  | .reprioritizeTask leadSessionId dispatchId priority => do
    return .item (← reprioritizeTask leadSessionId dispatchId priority)
  | .cancelTask leadSessionId dispatchId reason => do
    return .item (← cancelTask B leadSessionId dispatchId reason)
  | .interruptWorker workerId reason => do return .flag (← interruptWorker workerId reason)
  | .submitWorkerHandoff evidence verifyArtifacts => do
    return .reply (← submitWorkerHandoff B evidence verifyArtifacts)
  | .resumeTask dispatchId trusted => do
    return .reply (← resumeTaskFromCheckpoint B dispatchId trusted)
  | .reconcileTeam teamId markInFlight => do
    return .reply (← reconcileTeamAfterCrash teamId markInFlight)
  | .reconcileAmbiguous dispatchId resolution operatorNotes => do
    return .item (← reconcileAmbiguousTask B dispatchId resolution operatorNotes)

abbrev supervisors [LinearOrder F] : Machine where
  sig := sig F
  Err := Error
  Res := Response F
  Request := Request F
  State := Db F
  World := World F
  possible _ _ _ := true
  exec := exec B.repr
  body := body B

end SubagentBridge.Supervisor
