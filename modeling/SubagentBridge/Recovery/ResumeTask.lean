import SubagentBridge.Recovery.CrashRecovery

/-! Resuming a task from its checkpoint: approvals first, then the remaining steps. -/

namespace SubagentBridge.Supervisor

open Library Domain TeamStore

variable {F : Type} [FloatText F] [FloatInt F] (B : Builtins F)

def pathOrNull (path : Option String) : Json F := (path.map .str).getD .null

/-! ## Approvals -/

structure PendingAction where
  taskId : String
  actionId : String

omit [FloatText F] [FloatInt F] in
def PendingAction.value (a : PendingAction) : Json F :=
  .obj [("task_id", .str a.taskId), ("action_id", .str a.actionId)]

omit [FloatText F] [FloatInt F] in
def commandList (owner : Dict String (Json F)) : List String :=
  match fetch owner "command" with
  | .arr args => args.map B.format
  | cmd => [B.format cmd]

omit [FloatText F] [FloatInt F] in
def needsApproval (workerId taskId : String) (command : List String) (path : String) :
    Option ApprovalAction → Call F Bool
  | none => .ret true
  | some action =>
    if action.state = "EXPIRED" ∨ action.state = "CONSUMED" then .ret true
    else do
      if ← perform (.isActionForContext action workerId taskId command path) then
        if action.state = "APPROVED" then perform (.isActionConsumed action.actionId)
        else return false
      else return true

omit [FloatText F] in
def namedAction (actionId : Json F) : Call F (Option ApprovalAction) :=
  if actionId.truthy then perform (.getAction actionId) else .ret none

omit [FloatText F] in
def actionFor (R : Resumption F) (item : QueueItem F) (taskId : String) (owner : Owner) :
    Call F (ApprovalAction × QueueItem F) := do
  let command := commandList B (owner.dict item)
  let path := R.worktreePath.getD ""
  let actionId := fetch (owner.dict item) "approval_action_id"
  let action ← namedAction actionId
  let fresh ← needsApproval R.workerId taskId command path action
  match action, fresh with
  | some action, false => return (action, item)
  | _, _ => do
    let action ← perform (.requestCommandApproval R.workerId taskId command path)
    return (action, owner.set item "approval_action_id" (.str action.actionId))

omit [FloatText F] in
/-- The loop of `preflight_command_approvals`: the item with what became of it, and a reply
if a human has decided against a command. -/
def approvals (R : Resumption F) (item : QueueItem F) (pending : List PendingAction) :
    List (String × Owner) → Call F (QueueItem F × List PendingAction × Option (Reply F))
  | [] => .ret (item, pending, none)
  | (taskId, owner) :: commandSteps => do
    let (action, item) ← actionFor B R item taskId owner
    if action.state = "BLOCKED" then
      approvals R item (pending ++ [⟨taskId, action.actionId⟩]) commandSteps
    else if action.state = "APPROVED" then approvals R item pending commandSteps
    else do
      let updatedAt ← perform .now
      let item := { item with status := .dispatched, updatedAt }
      perform (.saveQueueItem item)
      return (item, pending, some [("status", .str "RECOVERY_BLOCKED"),
        ("reason", .str ("Human approval " ++ action.state)), ("action_id", .str action.actionId),
        ("dispatch_id", .str item.dispatchId)])

omit [FloatText F] in
def preflightCommandApprovals (R : Resumption F) (item : QueueItem F)
    (completed : List (Json F)) (commandSteps : List (String × Owner)) :
    Call F (QueueItem F × Option (Reply F)) :=
  if commandSteps.isEmpty then .ret (item, none)
  else if R.trusted then do
    let (item, pending, reply) ← approvals B R item [] commandSteps
    match reply with
    | some reply => return (item, some reply)
    | none => do
      let updatedAt ← perform .now
      match pending with
      | [] => do
        let item := { item with status := .running, updatedAt }
        perform (.saveQueueItem item)
        return (item, none)
      | first :: _ => do
        let item := { item with status := .dispatched, updatedAt }
        perform (.saveQueueItem item)
        return (item, some [("status", .str "AWAITING_APPROVAL"),
          ("dispatch_id", .str item.dispatchId), ("action_id", .str first.actionId),
          ("pending_actions", .arr (pending.map PendingAction.value)),
          ("completed_steps", .arr completed)])
  else do
    let item := { item with status := .dispatched }
    perform (.saveQueueItem item)
    return (item, some [("status", .str "RECOVERY_BLOCKED"),
      ("reason", .str "Trusted attached human approval authority required"),
      ("dispatch_id", .str item.dispatchId)])

/-! ## Workflows of several steps -/

omit [FloatText F] [FloatInt F] in
def stepName (step : Dict String (Json F)) (n : Int) : Json F :=
  (step.get? "name").getD (.str ("step_" ++ toString n))

omit [FloatText F] [FloatInt F] in
def commandSteps (item : QueueItem F) : List String → Nat → List Nat →
    Except Error (List (String × Owner))
  | _, _, [] => .ok []
  | seen, n, i :: rest => do
    let step := (Owner.step i).dict item
    let name := B.format (stepName step (n + 1))
    Library.require (name ∉ seen) (.value "Duplicate step name cannot safely bind approvals")
    let others ← commandSteps item (name :: seen) (n + 1) rest
    return if (step.get? "command").isSome then (item.taskId ++ "-" ++ name, .step i) :: others
      else others

omit [FloatText F] [FloatInt F] in
def withWorkspace (R : Resumption F) (payload : Dict String (Json F)) : Dict String (Json F) :=
  match R.worktreePath.filter (· ≠ "") with
  | none => payload
  | some path => payload.set "workspace_path" (.str path)

omit [FloatText F] [FloatInt F] in
def checkpointOf (R : Resumption F) (item : QueueItem F) (stepIdx tokens : Int) (name : Json F)
    (completed : List (Json F)) (createdAt : F) : WorkerCheckpoint F where
  checkpointId := "cp-" ++ item.dispatchId ++ "-" ++ toString stepIdx
  workerId := R.workerId
  teamId := R.session.teamId
  stepIndex := stepIdx
  stateSummary := "Completed " ++ B.format name
  tokensConsumed := tokens
  contextSnapshot := [("dispatch_id", .str item.dispatchId), ("task_id", .str item.taskId),
    ("completed_steps", .arr completed), ("worktree_path", pathOrNull R.worktreePath),
    ("commit_hash", pathOrNull R.currentCommit)]
  createdAt

omit [FloatText F] [FloatInt F] in
def executeSteps (R : Resumption F) (skipped : List (Json F)) :
    List Nat → QueueItem F → Int → Int → List (Json F) → Call F (Reply F)
  | [], item, _, tokens, completed => do
    let updatedAt ← perform .now
    perform (.saveQueueItem { item with status := .completed, updatedAt })
    return [("status", .str "COMPLETED"), ("dispatch_id", .str item.dispatchId),
      ("task_id", .str item.taskId), ("completed_steps", .arr completed),
      ("skipped_steps", .arr skipped), ("tokens_consumed", .int tokens),
      ("worktree_path", pathOrNull R.worktreePath)]
  | i :: rest, item, stepIdx, tokens, completed => do
    let step := (Owner.step i).dict item
    let name := stepName step (stepIdx + 1)
    let stepIdx := stepIdx + 1
    let res ← perform (.dispatchTaskToWorker R.workerId (item.taskId ++ "-" ++ B.format name)
      (withWorkspace R step))
    if (fetch res "status").text = some "COMPLETED" then
      let completed := completed ++ [name]
      let payload := item.payload.set "_unverified_completed_steps" (.arr completed)
      let item := { item with payload }
      perform (.saveQueueItem item)
      match B.int ((res.get? "metered_tokens").getD (.int 0)) with
      | .error _ => .raise .type
      | .ok metered => do
        let tokens := tokens + metered
        let createdAt ← perform .now
        perform (.saveCheckpoint (checkpointOf B R item stepIdx tokens name completed createdAt))
        executeSteps R skipped rest item stepIdx tokens completed
    else do
      let updatedAt ← perform .now
      perform (.saveQueueItem { item with status := .failed, updatedAt })
      return [("status", .str "FAILED"),
        ("error", (res.get? "error").getD (.str "Step execution failed")),
        ("failed_step", name), ("completed_steps", .arr completed)]

omit [FloatText F] [FloatInt F] in
def nameOf (item : QueueItem F) (i : Nat) : Json F := fetch ((Owner.step i).dict item) "name"

/-- The part of the multi-step branch that follows once `remaining` is settled. -/
def executeWorkflow (R : Resumption F) (item : QueueItem F) (count : Nat)
    (remaining : List Nat) (completed : List (Json F)) : Call F (Reply F) := do
  let unverified := fetch item.payload "_unverified_completed_steps"
  if unverified.truthy ∧ R.latestCp.isNone then
    perform (.saveQueueItem { item with status := .dispatched })
    return [("status", .str "RECOVERY_BLOCKED"),
      ("reason", .str "Ambiguous side effects require operator reconciliation"),
      ("completed_steps", unverified)]
  else
    let commandSteps ← Proc.ofExcept (commandSteps B item [] 0 remaining)
    match ← preflightCommandApprovals B R item completed commandSteps with
    | (_, some reply) => return reply
    | (item, none) => do
      let updatedAt ← perform .now
      let item := { item with status := .running, updatedAt }
      perform (.saveQueueItem item)
      let tokens := (R.latestCp.map (·.tokensConsumed)).getD R.session.config.tokensConsumed
      let skipped := ((List.range count).map (nameOf item)).filter fun name =>
        !isIn name (remaining.map (nameOf item))
      executeSteps B R skipped remaining item ((R.latestCp.map (·.stepIndex)).getD 0) tokens
        completed

omit [FloatText F] in
def sideEffect (path : PurePath) (acc : List (Json F)) (step : Dict String (Json F)) :
    Call F (List (Json F)) := do
  let there ← leftArtifact path step
  return if there then acc ++ [fetch step "name"] else acc

omit [FloatText F] in
def uncheckpointed (R : Resumption F) (steps : List (Dict String (Json F))) :
    Call F (List (Json F)) := do
  match ← existing R.worktreePath with
  | none => return []
  | some path => Proc.fold (sideEffect path) [] steps

def resumeSteps (R : Resumption F) (item : QueueItem F) (steps : List (Dict String (Json F)))
    (completed : List (Json F)) : Call F (Reply F) := do
  let indices := List.range steps.length
  let remaining := indices.filter fun i => !isIn (nameOf item i) completed
  let effects ← uncheckpointed R (remaining.map fun i => (Owner.step i).dict item)
  let classification := if effects.isEmpty then "AT_LEAST_ONCE_RECOVERABLE"
    else "RECOVERABLE_AMBIGUITY_AT_LEAST_ONCE"
  if remaining.isEmpty then
    let expected := (item.payload.get? "expected_artifacts").getD (.arr [])
    if ← missingEvidence R expected steps then
      executeWorkflow B R item steps.length indices []
    else
      let updatedAt ← perform .now
      perform (.saveQueueItem { item with status := .completed, updatedAt })
      return [("status", .str "COMPLETED"),
        ("summary", .str "All steps already completed in checkpoint and verified against evidence"),
        ("completed_steps", .arr completed), ("skipped_steps", .arr completed),
        ("tokens_consumed", .int R.session.config.tokensConsumed),
        ("execution_classification", .str classification)]
  else executeWorkflow B R item steps.length remaining completed

/-! ## A single instruction -/

def unprovenCompletion (R : Resumption F) (cp : WorkerCheckpoint F) (expected : Json F) :
    Call F Bool :=
  match expected.truthy, nonempty R.worktreePath with
  | true, some path => do
    let arts ← iterable expected
    missingArtifact path arts
  | true, none => .ret false
  | false, _ => .ret !(fetch cp.contextSnapshot "receipt_id").truthy

def completedBefore (R : Resumption F) (expected : Json F) : Call F Bool :=
  match R.latestCp.filter fun cp => (fetch cp.contextSnapshot "completed").truthy with
  | none => .ret false
  | some cp => do
    let missing ← unprovenCompletion R cp expected
    return !missing

omit [FloatText F] [FloatInt F] in
def executeInstruction (R : Resumption F) (item : QueueItem F) : Call F (Reply F) := do
  let updatedAt ← perform .now
  let item := { item with status := .running, updatedAt }
  perform (.saveQueueItem item)
  let res ← perform (.dispatchTaskToWorker R.workerId item.taskId (withWorkspace R item.payload))
  let status := if (fetch res "status").text = some "COMPLETED" then .completed else .failed
  let updatedAt ← perform .now
  perform (.saveQueueItem { item with status, updatedAt })
  return res

def resumeInstruction (R : Resumption F) (item : QueueItem F) (completed : List (Json F)) :
    Call F (Reply F) := do
  if ← completedBefore R ((item.payload.get? "expected_artifacts").getD (.arr [])) then
    let updatedAt ← perform .now
    perform (.saveQueueItem { item with status := .completed, updatedAt })
    return [("status", .str "COMPLETED"),
      ("summary", .str "Task was completed before crash and verified against evidence")]
  else if (item.payload.get? "command").isSome then
    match ← preflightCommandApprovals B R item completed [(item.taskId, .payload)] with
    | (_, some reply) => return reply
    | (item, none) => executeInstruction R item
  else executeInstruction R item

/-! ## The whole resumption -/

def resumeClaimed (trusted : Bool) (item : QueueItem F) (session : AgentSession F) :
    Call F (Reply F) := do
  let workerId := item.toSessionId
  let worktreePath ← worktreeOf workerId session
  let currentCommit ← commitOf worktreePath
  let latest ← perform (.loadLatestCheckpoint workerId)
  let latestCp := latest.filter (boundTo item session currentCommit ·)
  let R : Resumption F := ⟨trusted, workerId, session, worktreePath, currentCommit, latestCp⟩
  let steps := fetch item.payload "steps"
  let completed ← completedSteps R steps
  match steps with
  | .arr steps => match steps.mapM Json.members with
    | none => .raise .attribute
    | some steps => resumeSteps B R item steps completed
  | _ => resumeInstruction B R item completed

omit [FloatText F] [FloatInt F] in
def isOrphan : Option (QueueItem F) → Call F Bool
  | none => .ret false
  | some item => do
    if ← perform (.isWorkerAlive item.toSessionId) then
      let attached ← perform (.hasAttachedWorkerIpc item.toSessionId)
      return !attached
    else return false

def resumeTaskFromCheckpoint (dispatchId : String) (trusted : Bool) : Call F (Reply F) := do
  let preItem ← perform (.loadQueueItem dispatchId)
  if ← isOrphan preItem then
    return [("status", .str "RECOVERY_BLOCKED"), ("dispatch_id", .str dispatchId),
      ("reason", .str ("Worker PID is alive but this controller has no attached IPC; " ++
        "operator reconciliation required"))]
  else
    let item ← perform (.markTaskResuming dispatchId)
    match ← attachWorker B item.toSessionId with
    | none => do
      let updatedAt ← perform .now
      perform (.saveQueueItem { item with status := .dispatched, updatedAt })
      return [("status", .str "RECOVERY_BLOCKED"), ("dispatch_id", .str dispatchId),
        ("reason", .str ("Attached worker is not safe to resume; outstanding result or " ++
          "operator reconciliation required"))]
    | some session => resumeClaimed B trusted item session

end SubagentBridge.Supervisor
