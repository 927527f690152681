import SubagentBridge.Team.TeamManager

/-! Crash recovery: reconciling workers and queue items, and resuming a task from its
checkpoint. -/

namespace SubagentBridge.Supervisor

open Library Domain TeamStore

variable {F : Type}

abbrev Reply (F : Type) := Dict String (Json F)

/-! ## Reconciliation -/

structure Reconciled where
  deadWorkers : List String
  ambiguousTasks : List String
  failedTasks : List String

def abandoned (markInFlight : Bool) (item : QueueItem F) : QueueTaskStatus :=
  if markInFlight ∧ (item.status = .dispatched ∨ item.status = .running) then .ambiguous
  else .failed

def reconcileItem (sessionId : String) (markInFlight : Bool) (acc : Reconciled)
    (item : QueueItem F) : Call F Reconciled :=
  if item.toSessionId = sessionId ∧ item.status.active then do
    let status := abandoned markInFlight item
    let updatedAt ← perform .now
    perform (.saveQueueItem { item with status, updatedAt })
    return if status = .ambiguous
      then { acc with ambiguousTasks := acc.ambiguousTasks ++ [item.dispatchId] }
      else { acc with failedTasks := acc.failedTasks ++ [item.dispatchId] }
  else .ret acc

def isAlive (config : WorkerConfig F) : Call F Bool :=
  match config.pid.filter (0 < ·) with
  | none => .ret false
  | some pid => perform (.isProcessAlive pid config.processCreateTime)

def reconcileSession (teamId : String) (markInFlight : Bool) (acc : Reconciled)
    (session : AgentSession F) : Call F Reconciled :=
  if session.role = .worker then do
    let alive ← isAlive session.config
    if alive = false ∧ session.status ∈ [.running, .paused, .idle] then do
      let updatedAt ← perform .now
      perform (.saveSession { session with status := .failed, updatedAt })
      let items ← perform (.listQueueByTeam teamId)
      let acc := { acc with deadWorkers := acc.deadWorkers ++ [session.sessionId] }
      Proc.fold (reconcileItem session.sessionId markInFlight) acc items
    else return acc
  else .ret acc

def names (xs : List String) : Json F := .arr (xs.map .str)

def reconcileTeamAfterCrash (teamId : String) (markInFlight : Bool) : Call F (Reply F) := do
  let sessions ← perform (.listSessionsByTeam teamId)
  let acc ← Proc.fold (reconcileSession teamId markInFlight) ⟨[], [], []⟩ sessions
  return [("team_id", .str teamId), ("reconciled_workers", .int acc.deadWorkers.length),
    ("dead_workers", names acc.deadWorkers), ("ambiguous_tasks", names acc.ambiguousTasks),
    ("failed_tasks", names acc.failedTasks)]

section

variable (B : Builtins F)

def resolutionStatus : String → Option QueueTaskStatus
  | "RETRY" => some .pending
  | "MARK_COMPLETED" => some .completed
  | "MARK_FAILED" => some .failed
  | _ => none

def reconcileAmbiguousTask (dispatchId resolution operatorNotes : String) :
    Call F (QueueItem F) :=
  match resolutionStatus resolution with
  | none => .raise (.value ("Invalid resolution " ++ B.repr resolution ++
      "; must be one of \x7b'RETRY', 'MARK_COMPLETED', 'MARK_FAILED'\x7d"))
  | some status => do
    match ← perform (.loadQueueItem dispatchId) with
    | none => .raise (.key ("Queue item " ++ B.repr dispatchId ++ " not found"))
    | some item => do
      Proc.require (item.status ∈ [.ambiguous, .failed, .dispatched]) (.value
        ("Queue item " ++ B.repr dispatchId ++ " has status QueueTaskStatus." ++
          item.status.value ++ ", not eligible for ambiguous reconciliation"))
      let resolvedAt ← perform .now
      let payload := item.payload.set "_reconciliation" (.obj
        [("resolved_at", .float resolvedAt), ("resolution", .str resolution),
          ("operator_notes", .str operatorNotes)])
      let updatedAt ← perform .now
      let item := { item with status, payload, updatedAt }
      perform (.saveQueueItem item)
      return item

/-! ## Attaching the worker -/

def worktreeDir : Option (WorktreeAssignment F) → Call F (Option String)
  | none => .ret none
  | some wt => do
    let path := PurePath.ofString wt.worktreePath
    let there ← perform (.pathExists path)
    let dir ← Proc.and there (perform (.isDir path))
    return if dir then some path.toString else none

def resumeWorkerFromCheckpoint (workerId : String) (controller : Bool) :
    Call F (AgentSession F) := do
  match ← perform (.loadSession workerId) with
  | none => .raise (.key ("worker session " ++ B.repr workerId ++ " not found"))
  | some session => do
    let latestCp ← perform (.loadLatestCheckpoint workerId)
    let tokensConsumed := (latestCp.map (·.tokensConsumed)).getD session.config.tokensConsumed
    let wt ← perform (.loadWorktree workerId)
    let worktreePath ← worktreeDir wt
    let workingDir := worktreePath <|> session.config.workingDir
    let config := { session.config with tokensConsumed, workingDir }
    if controller then do
      let record ← perform (.spawnWorker config worktreePath)
      let updatedAt ← perform .now
      let config := { config with pid := some record.pid, processCreateTime := record.createTime }
      let session := { session with config, status := .idle, updatedAt }
      perform (.saveSession session)
      return session
    else return { session with config }

def sessionOf (workerId : String) : Call F (AgentSession F) := do
  match ← perform (.loadSession workerId) with
  | none => .raise (.key ("worker session " ++ B.repr workerId ++ " not found"))
  | some session => return session

/-- The session of the worker, which can be dispatched to afterwards; `none` if it is attached
and not safe to resume. -/
def attachWorker (workerId : String) : Call F (Option (AgentSession F)) := do
  if ← perform (.isWorkerDispatchable workerId) then
    let session ← sessionOf B workerId
    return some session
  else if ← perform (.hasAttachedWorkerIpc workerId) then
    if ← perform (.resumeWorker workerId) then
      let session ← sessionOf B workerId
      return some session
    else return none
  else
    let session ← resumeWorkerFromCheckpoint B workerId true
    return some session

/-! ## Worktree and checkpoint -/

structure Resumption (F : Type) where
  trusted : Bool
  workerId : String
  session : AgentSession F
  worktreePath : Option String
  currentCommit : Option String
  /-- The latest checkpoint, if it is bound to the task and the commit. -/
  latestCp : Option (WorkerCheckpoint F)

def existing (path : Option String) : Call F (Option PurePath) := found (nonempty path)

def worktreeOf (workerId : String) (session : AgentSession F) : Call F (Option String) := do
  match ← perform (.loadWorktree workerId) with
  | none => return session.config.workingDir
  | some wt => do
    let found ← perform (.pathExists (.ofString wt.worktreePath))
    return if found then some wt.worktreePath else session.config.workingDir

def commitOf (worktreePath : Option String) : Call F (Option String) := do
  match ← existing worktreePath with
  | none => return none
  | some _ => perform (.gitHead (worktreePath.getD ""))

/-- A checkpoint counts for the exact team, dispatch and task, and a commit that is there. -/
def boundTo (item : QueueItem F) (session : AgentSession F) (currentCommit : Option String)
    (cp : WorkerCheckpoint F) : Prop :=
  let snapshot := cp.contextSnapshot
  snapshot ≠ [] ∧ (fetch snapshot "dispatch_id").text = some item.dispatchId ∧
    (fetch snapshot "task_id").text = some item.taskId ∧ cp.teamId = session.teamId ∧
    ∃ commit ∈ currentCommit, commit ≠ "" ∧ (fetch snapshot "commit_hash").text = some commit

instance (item : QueueItem F) (session : AgentSession F) (currentCommit : Option String)
    (cp : WorkerCheckpoint F) : Decidable (boundTo item session currentCommit cp) :=
  inferInstanceAs (Decidable (_ ≠ [] ∧ _ ∧ _ ∧ _ ∧ ∃ commit ∈ currentCommit, _))

/-! ## Steps and their evidence -/

inductive Owner
  | payload
  | step (index : Nat)

def stepsOf (payload : Dict String (Json F)) : List (Json F) :=
  match payload.get? "steps" with
  | some (.arr steps) => steps
  | _ => []

def Owner.dict (item : QueueItem F) : Owner → Dict String (Json F)
  | .payload => item.payload
  | .step i => ((stepsOf item.payload)[i]?.bind Json.members).getD []

def setMember (key : String) (v : Json F) : Json F → Json F
  | .obj members => .obj (Dict.set members key v)
  | j => j

def Owner.set (item : QueueItem F) (key : String) (v : Json F) : Owner → QueueItem F
  | .payload => { item with payload := item.payload.set key v }
  | .step i => { item with
      payload := item.payload.set "steps"
        (.arr ((stepsOf item.payload).modify i (setMember key v))) }

variable [FloatText F] [FloatInt F]

def isIn (a : Json F) (xs : List (Json F)) : Bool := xs.any a.pyEq

omit [FloatText F] in
def artifactOf (step : Dict String (Json F)) : Json F :=
  getOr step "artifact" (fetch step "expected_artifact")

def stepNamed (name : Json F) : List (Json F) → Except Error (Option (Dict String (Json F)))
  | [] => .ok none
  | step :: steps => match step.members with
    | none => .error .attribute
    | some step => if (fetch step "name").pyEq name then .ok (some step) else stepNamed name steps

omit [FloatText F] [FloatInt F] in
def joined (path : PurePath) (name : Json F) : Call F PurePath :=
  match name.text with
  | none => .raise .type
  | some name => .ret (path.join name)

omit [FloatText F] [FloatInt F] in
def hasContent (path : PurePath) (artifact : Json F) : Call F Bool := do
  let file ← joined path artifact
  if ← perform (.pathExists file) then
    let size ← perform (.fileSize file)
    return 0 < size
  else return false

omit [FloatText F] in
def leftArtifact (path : PurePath) (step : Dict String (Json F)) : Call F Bool :=
  if (artifactOf step).truthy then do
    let file ← joined path (artifactOf step)
    perform (.pathExists file)
  else .ret false

def iterable (v : Json F) : Call F (List (Json F)) :=
  match v.iterate with
  | none => .raise .type
  | some xs => .ret xs

def verifyStep (path : PurePath) (steps : Json F) (verified : List (Json F)) (name : Json F) :
    Call F (List (Json F)) := do
  let candidates ← iterable (if steps.truthy then steps else .arr [])
  let found ← Proc.ofExcept (stepNamed name candidates)
  let artifact := artifactOf (found.getD [])
  if artifact.truthy then
    let there ← hasContent path artifact
    return if there then verified ++ [name] else verified
  else return verified ++ [name]

def completedSteps (R : Resumption F) (steps : Json F) : Call F (List (Json F)) :=
  match R.latestCp with
  | none => .ret []
  | some cp => do
    let candidates ← iterable ((cp.contextSnapshot.get? "completed_steps").getD (.arr []))
    match ← existing R.worktreePath with
    | none => return []
    | some path => Proc.fold (verifyStep path steps) [] candidates

def missingArtifact (path : PurePath) : List (Json F) → Call F Bool
  | [] => .ret false
  | art :: arts => do
    if ← hasContent path art then missingArtifact path arts else return true

def anyEvidence (path : PurePath) : List (Dict String (Json F)) → Call F Bool
  | [] => .ret false
  | step :: steps => do
    if ← leftArtifact path step then return true else anyEvidence path steps

def missingEvidence (R : Resumption F) (expectedArtifacts : Json F)
    (steps : List (Dict String (Json F))) : Call F Bool :=
  match expectedArtifacts.truthy, nonempty R.worktreePath with
  | true, some path => do
    let arts ← iterable expectedArtifacts
    missingArtifact path arts
  | true, none => .ret false
  | false, some path => do
    if steps = [] then return false
    else
      let there ← anyEvidence path steps
      return !there
  | false, none => .ret (steps ≠ [])

end

end SubagentBridge.Supervisor
