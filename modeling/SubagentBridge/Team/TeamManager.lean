import SubagentBridge.Team.Supervisor

/-! The team manager: registration, dispatch, steering, cancellation, interruption, handoff. -/

namespace SubagentBridge.Supervisor

open Library Domain TeamStore

variable {F : Type}

section Registration

variable (B : Builtins F)

def createTeam (teamId : Option String) (leadSessionId title : String) : Call F (AgentTeam F) := do
  match teamId.filter (· ≠ "") with
  | some tid => perform (.createTeamWithLeadOnce tid leadSessionId title)
  | none => do
    let hex ← perform .uuidHex
    perform (.createTeamWithLeadOnce ("team-" ++ take hex 8) leadSessionId title)

def createWorker (teamId : String) (config : WorkerConfig F)
    (worktreePath branchName : Option String) : Call F (AgentSession F) :=
  perform (.registerSingleWorkerOnce teamId config worktreePath branchName)

def registerWorker (config : WorkerConfig F) : Call F (AgentSession F) :=
  createWorker config.teamId config none none

def createWorkersBatch (leadSessionId teamId : String) (configs : List (WorkerConfig F))
    (maxWorkers : Int) : Call F (List (AgentSession F)) :=
  perform (.registerWorkerBatchOnce teamId leadSessionId configs maxWorkers)

def setWorkerStatus (workerId : String) (status : WorkerStatus) : Call F (AgentSession F) := do
  match ← perform (.loadSession workerId) with
  | none => .raise (.key ("session " ++ B.repr workerId ++ " not found"))
  | some session => do
    let updatedAt ← perform .now
    let session := { session with status, updatedAt }
    perform (.saveSession session)
    return session

def archiveWorker (workerId : String) : Call F (AgentSession F) :=
  setWorkerStatus B workerId .archived

end Registration

section Queue

variable (B : Builtins F)

def dispatchTask (fromSessionId toSessionId taskId : String) (payload : Dict String (Json F))
    (dedupKey : Option String) (priority : Int) : Call F (QueueItem F) := do
  let sender ← perform (.loadSession fromSessionId)
  let receiver ← perform (.loadSession toSessionId)
  match sender, receiver with
  | none, _ => .raise (.value ("sender session " ++ B.repr fromSessionId ++ " not found"))
  | some _, none => .raise (.value ("receiver session " ++ B.repr toSessionId ++ " not found"))
  | some sender, some receiver => do
    Proc.require (sender.teamId = receiver.teamId) (.value "cross-team dispatch not permitted")
    let hex ← perform .uuidHex
    let createdAt ← perform .now
    let updatedAt ← perform .now
    perform (.insertQueueItemOnce {
      dispatchId := "dsp-" ++ take hex 12
      teamId := sender.teamId
      fromSessionId, toSessionId, taskId, payload
      status := .pending
      dedupKey, priority
      steeringInstructions := []
      createdAt, updatedAt })

def updateQueueStatus (dispatchId : String) (status : QueueTaskStatus) :
    Call F (QueueItem F) := do
  match ← perform (.loadQueueItem dispatchId) with
  | none => .raise (.key ("queue item " ++ B.repr dispatchId ++ " not found"))
  | some item => do
    let updatedAt ← perform .now
    let item := { item with status, updatedAt }
    perform (.saveQueueItem item)
    return item

def steerTask (leadSessionId dispatchId : String) (guidance : Guidance F) :
    Call F (QueueItem F) :=
  perform (.steerQueueItemOnce leadSessionId dispatchId (some guidance) none)

def reprioritizeTask (leadSessionId dispatchId : String) (priority : Int) :
    Call F (QueueItem F) :=
  perform (.steerQueueItemOnce leadSessionId dispatchId none (some priority))

def cancelTask (leadSessionId dispatchId reason : String) : Call F (QueueItem F) := do
  let lead ← perform (.loadSession leadSessionId)
  Proc.require (lead.map (·.role) = some .lead)
    (.permission ("Only lead session can cancel tasks: " ++ B.repr leadSessionId))
  match ← perform (.loadQueueItem dispatchId) with
  | none => .raise (.key ("queue item " ++ B.repr dispatchId ++ " not found"))
  | some item => do
    Proc.require (lead.map (·.teamId) = some item.teamId)
      (.permission "cross-team task cancellation not permitted")
    perform (.cancelActiveQueueItem dispatchId leadSessionId reason)

def interruptionEntry (reason : String) (time : F) : Json F :=
  .obj [("interruption_reason", .str reason), ("timestamp", .float time)]

def interruptionEntries (reason : String) : Call F (List (Json F)) :=
  if reason = "" then .ret []
  else do
    let time ← perform .now
    return [interruptionEntry reason time]

def preempt (workerId reason : String) (item : QueueItem F) : Call F Unit :=
  if item.toSessionId = workerId ∧ item.status.active then do
    let entries ← interruptionEntries reason
    let updatedAt ← perform .now
    perform (.saveQueueItem { item with
      status := .interrupted
      steeringInstructions := item.steeringInstructions ++ entries
      updatedAt })
  else .ret ()

def interruptWorker (workerId reason : String) : Call F Bool := do
  match ← perform (.loadSession workerId) with
  | none => return false
  | some session => do
    let updatedAt ← perform .now
    perform (.saveSession { session with status := .interrupted, updatedAt })
    let items ← perform (.listQueueByTeam session.teamId)
    Proc.forEach items (preempt workerId reason)
    return true

end Queue

section Handoff

variable (B : Builtins F)

def successful (evidence : HandoffEvidence F) : Prop :=
  evidence.status = "SUCCESS" ∨ evidence.status = "PASSED"

instance (evidence : HandoffEvidence F) : Decidable (successful evidence) :=
  inferInstanceAs (Decidable (_ ∨ _))

def checkBinding (evidence : HandoffEvidence F) (item : QueueItem F) : Except Error Unit := do
  Library.require (evidence.fromWorkerId = item.toSessionId) (.permission
    ("Worker identity mismatch: dispatch " ++ B.repr item.dispatchId ++ " assigned to " ++
      B.repr item.toSessionId ++ ", not " ++ B.repr evidence.fromWorkerId))
  Library.require (item.status ≠ .pending)
    (.value "Cannot accept handoff for pending task: execution has not started")
  Library.require (item.status = .dispatched ∨ item.status = .running)
    (.value ("Cannot accept handoff for item in status " ++ item.status.value))

def checkEvidence (evidence : HandoffEvidence F) (verifyArtifacts : Bool) :
    Except Error Unit := do
  Library.require (successful evidence → verifyArtifacts = true) (.permission
    ("Bypassing artifact verification (verify_artifacts=False) is forbidden for " ++
      "successful handoffs"))
  Library.require (successful evidence → ¬ isBlank evidence.summary)
    (.value "Handoff rejected: summary must be non-empty for successful handoffs")
  Library.require (successful evidence → evidence.metrics ≠ [])
    (.value "Handoff rejected: metrics must be non-empty for successful handoffs")

def found (path : Option PurePath) : Call F (Option PurePath) :=
  match path with
  | none => .ret none
  | some path => do
    let there ← perform (.pathExists path)
    return if there then some path else none

def nonempty (path : Option String) : Option PurePath := (path.filter (· ≠ "")).map .ofString

def artifactBase (wt : Option (WorktreeAssignment F)) (worker : AgentSession F) :
    Call F (Option PurePath) := do
  match ← found (wt.map (.ofString ·.worktreePath)) with
  | some path => return some path
  | none => found (nonempty worker.config.workingDir)

def checkArtifactPath (baseDir resolved : PurePath) (art : String) : Call F Unit := do
  let linked ← perform (.isSymlink (baseDir.join art))
  Proc.require (linked = false) (.permission
    ("Handoff artifact " ++ B.repr art ++ " is a symlink, refusing verification"))
  Proc.forEach (PurePath.below baseDir (baseDir.join art)) fun cur => do
    let linked ← perform (.isSymlink cur)
    Proc.require (linked = false) (.permission ("Handoff artifact path component PosixPath(" ++
      B.repr cur.toString ++ ") is a symlink, refusing verification"))
  let artPath ← perform (.resolvePath (baseDir.join art))
  Proc.require (artPath.isRelativeTo resolved = true) (.permission
    ("Handoff artifact path escape detected: " ++ B.repr art ++ " resolves outside workspace"))

def isHexDigest (s : String) : Prop :=
  s.length = 64 ∧ ∀ c ∈ s.toList, c ∈ "0123456789abcdefABCDEF".toList

instance (s : String) : Decidable (isHexDigest s) := inferInstanceAs (Decidable (_ ∧ _))

def checkArtifactHash [FloatInt F] (baseDir : PurePath) (declaredHashes : Dict String (Json F))
    (art : String) : Call F Unit := do
  let declared := fetch declaredHashes art
  Proc.require (declared.truthy = true) (.value
    ("Handoff rejected: missing required SHA256 hash for declared artifact " ++ B.repr art))
  match declared.text.filter (isHexDigest ·) with
  | none => .raise (.value
      ("Handoff rejected: invalid SHA256 hash format for artifact " ++ B.repr art))
  | some expected => do
    let artPath ← perform (.resolvePath (baseDir.join art))
    let there ← perform (.pathExists artPath)
    let file ← Proc.and there (perform (.isFile artPath))
    Proc.require (file = true) (.fileNotFound
      ("Handoff rejected: declared artifact " ++ B.repr art ++ " does not exist on disk"))
    let h ← perform (.fileSha artPath)
    Proc.require (lower h = lower expected)
      (.value ("Handoff rejected: hash mismatch for artifact " ++ B.repr art))

def checkArtifacts [FloatInt F] (evidence : HandoffEvidence F) (worker : AgentSession F) :
    Call F Unit := do
  let wt ← perform (.loadWorktree evidence.fromWorkerId)
  match ← artifactBase wt worker with
  | none => .raise (.value ("Worker " ++ B.repr evidence.fromWorkerId ++
      " has no verified workspace or worktree for artifact verification"))
  | some baseDir => do
    let linked ← perform (.isSymlink baseDir)
    Proc.require (linked = false) (.permission
      ("Workspace directory " ++ baseDir.toString ++ " is a symlink, refusing verification"))
    let resolved ← perform (.resolvePath baseDir)
    Proc.forEach evidence.artifacts (checkArtifactPath B baseDir resolved)
    match (fetch evidence.metrics "artifact_hashes").members with
    | none => .raise (.value
        "Handoff rejected: 'artifact_hashes' mapping is required when artifacts are declared")
    | some declaredHashes =>
      Proc.forEach evidence.artifacts (checkArtifactHash B baseDir declaredHashes)

def receiptMetrics (metrics : Dict String (Json F)) : Dict String (Json F) :=
  match (fetch metrics "execution_receipt").members with
  | none => metrics
  | some receipt => match receipt.get? "exit_code", fetch metrics "exit_code" with
    | some exitCode, .null => metrics.set "exit_code" exitCode
    | _, _ => metrics

def receiptId [FloatInt F] (metrics : Dict String (Json F)) : Json F :=
  match (fetch metrics "execution_receipt").members with
  | none => fetch metrics "receipt_id"
  | some receipt => getOr metrics "receipt_id" (fetch receipt "receipt_id")

variable [FloatText F] [FloatInt F]

def checkMetrics (metrics : Dict String (Json F)) : Except Error Unit := do
  let receiptText := (receiptId metrics).text
  let exitCode := fetch (receiptMetrics metrics) "exit_code"
  let verdict := fetch metrics "qa_verdict"
  Library.require (∃ s ∈ receiptText, ¬ isBlank s) (.value
    ("Handoff rejected: missing genuine trusted execution receipt ('receipt_id' or " ++
      "'execution_receipt')"))
  Library.require (exitCode.pyEq .null = false)
    (.value "Handoff rejected: missing required execution receipt ('exit_code') in metrics")
  Library.require (exitCode.pyEq (.int 0) = true) (.value
    ("Handoff rejected: execution receipt indicates non-zero exit code (" ++
      B.format exitCode ++ ")"))
  Library.require (verdict.text = some "PASS" ∨ verdict.text = some "VERIFIED") (.value
    ("Handoff rejected: QA verdict must be 'PASS' or 'VERIFIED', got " ++ B.quote verdict))

def checkReceipt (evidence : HandoffEvidence F) : Except Error (HandoffEvidence F) :=
  if successful evidence then do
    checkMetrics B evidence.metrics
    return { evidence with metrics := receiptMetrics evidence.metrics }
  else .ok evidence

def contractOnly (evidence : HandoffEvidence F) : Prop :=
  evidence.status = "CONTRACT_FIXTURE" ∨ evidence.status = "CONTRACT_ONLY"

instance (evidence : HandoffEvidence F) : Decidable (contractOnly evidence) :=
  inferInstanceAs (Decidable (_ ∨ _))

def handoffStatus (evidence : HandoffEvidence F) : Option QueueTaskStatus :=
  if contractOnly evidence then none else some .completed

/-- The two reads and the transaction of `finalize_handoff_transaction`. -/
def finalizeHandoffTransaction (teamId : String) (evidence : HandoffEvidence F)
    (newQueueStatus : Option QueueTaskStatus) : Call F Unit := do
  match ← perform (.selectQueueStatus evidence.dispatchId) with
  | none => .raise (.key ("dispatch " ++ B.repr evidence.dispatchId ++ " not found in queue"))
  | some (status, workerId) => do
    Proc.require (status ≠ .completed ∧ status ≠ .cancelled) (.value
      ("Handoff already finalized for dispatch " ++ B.repr evidence.dispatchId ++
        " (queue status: " ++ status.value ++ ")"))
    let finalized ← perform (.selectHandoff evidence.dispatchId)
    Proc.require (finalized = false)
      (.value ("Handoff already finalized for dispatch " ++ B.repr evidence.dispatchId))
    perform (.finalizeHandoff teamId evidence newQueueStatus workerId)

def submitWorkerHandoff (evidence : HandoffEvidence F) (verifyArtifacts : Bool) :
    Call F (Dict String (Json F)) := do
  match ← perform (.loadQueueItem evidence.dispatchId) with
  | none => .raise (.key ("dispatch " ++ B.repr evidence.dispatchId ++ " not found"))
  | some item => do
    Proc.ofExcept (checkBinding B evidence item)
    match ← perform (.loadSession evidence.fromWorkerId) with
    | none => .raise (.value
        ("Worker " ++ B.repr evidence.fromWorkerId ++ " is interrupted or unavailable"))
    | some worker => do
      Proc.require (worker.status ≠ .interrupted) (.value
        ("Worker " ++ B.repr evidence.fromWorkerId ++ " is interrupted or unavailable"))
      let team ← perform (.loadTeam item.teamId)
      Proc.require (team.map (·.leadSessionId) = some evidence.toLeadId) (.permission
        ("Lead identity mismatch: team lead is " ++
          (team.map fun team => B.repr team.leadSessionId).getD "None"))
      let existing ← perform (.listHandoffsByTeam item.teamId)
      Proc.require (∀ h ∈ existing, h.dispatchId ≠ evidence.dispatchId)
        (.value ("Handoff already finalized for dispatch " ++ B.repr evidence.dispatchId))
      Proc.ofExcept (checkEvidence evidence verifyArtifacts)
      Proc.when (evidence.artifacts ≠ []) (checkArtifacts B evidence worker)
      let evidence ← Proc.ofExcept (checkReceipt B evidence)
      finalizeHandoffTransaction B item.teamId evidence (handoffStatus evidence)
      return [("status", .str (if contractOnly evidence then "CONTRACT_VERIFIED" else "RECEIVED")),
        ("dispatch_id", .str evidence.dispatchId)]

end Handoff

end SubagentBridge.Supervisor
