import SubagentBridge.Domain.Engine
import SubagentBridge.Library.Runs
import SubagentBridge.Planner.Budget
import SubagentBridge.Planner.TaskDag
import SubagentBridge.Qa.Adjudication

/-! The supervised coordinator: task states, dispatches, QA review and tree changes,
over the shared registries and the budget. -/

namespace SubagentBridge.Team

open Library Domain Planner Qa

structure DispatchPlan where
  taskId : String
  dispatchId : String
  policyRevision : String
  treeSha : String
  runtimeAuthorized : Bool
  deriving DecidableEq

structure SupervisedCoordinator (B : Type) where
  run : Domain.Run
  order : List String
  dependencies : Dict String (List String)
  identities : IdentityRegistry
  receipts : ReceiptIssuerRegistry
  budget : B
  tasks : Dict String TaskAggregate
  testHashes : Dict String String
  activeIds : Dict String String
  fixRounds : Dict String Int

namespace SupervisedCoordinator

variable {B : Type}

def create (run : Domain.Run) (tasks : Dict String Task) (dependencies : Dict String (List String))
    (identities : IdentityRegistry) (receipts : ReceiptIssuerRegistry) (budget : B)
    (qaTestHashes : Dict String String) : Except Error (SupervisedCoordinator B) := do
  require (tasks ≠ [] ∧ (∀ k ∈ tasks.keys, k ∈ dependencies.keys) ∧
      ∀ k ∈ dependencies.keys, k ∈ tasks.keys)
    (.value "run task and DAG identities must match")
  require (∀ p ∈ tasks, p.2.taskId = p.1 ∧ p.2.runId = run.runId ∧
      p.2.policyRevision = run.policyRevision)
    (.value "task identity or policy revision mismatch")
  let order ← validateTaskDag dependencies (tasks.map fun p => (p.1, p.2.acceptanceCriteria))
  require (qaTestHashes ≠ []) (.value "QA test hashes must be pinned before dispatch")
  return { run, order, dependencies, identities, receipts, budget
           tasks := tasks.map fun p => (p.1, TaskAggregate.create p.2)
           testHashes := qaTestHashes
           activeIds := []
           fixRounds := tasks.map fun p => (p.1, 0) }

variable (api : BudgetApi B)

def setTask (c : SupervisedCoordinator B) (taskId : String) (agg : TaskAggregate) :
    SupervisedCoordinator B := { c with tasks := c.tasks.set taskId agg }

def withTask {α : Type} (c : SupervisedCoordinator B) (taskId : String) (missing : String)
    (k : TaskAggregate → Result (SupervisedCoordinator B) α) : Result (SupervisedCoordinator B) α :=
  match c.tasks.get? taskId with
  | some agg => k agg
  | none => (.error (.key missing), c)

def freeze (taskId : String) (pm : Principal) (c : SupervisedCoordinator B) :
    Result (SupervisedCoordinator B) Unit :=
  orRaise (c.identities.require pm .pm) c fun _ =>
  c.withTask taskId taskId fun agg =>
  orRaise (agg.freeze c.identities pm) c fun agg => (.ok (), c.setTask taskId agg)

def requireVerified (c : SupervisedCoordinator B) (dep : String) : Except Error Unit :=
  match c.tasks.get? dep with
  | some agg => require (agg.state = .verified)
      (.invalidTransition "dependencies must be QA VERIFIED, not PROCESS_SUCCEEDED")
  | none => .error (.key dep)

def precheck (c : SupervisedCoordinator B) (taskId : String) (agg : TaskAggregate)
    (idempotencyKey : String) (tokenAllowance costMicrounits : Int) : Except Error Unit := do
  require (agg.state = .frozen) (.invalidTransition "frozen task required for dispatch")
  ((c.dependencies.get? taskId).getD []).forM c.requireVerified
  require (0 ≤ tokenAllowance ∧ 0 ≤ costMicrounits)
    (.value "nonnegative integer reservation ceilings required")
  require (idempotencyKey ≠ "") (.invalidTransition "missing idempotency key")
  let snap ← api.snapshot c.budget
  require (¬ (api.maxWorkers c.budget ≤ snap.active ∨ snap.tokensAvailable < tokenAllowance ∨
      snap.costAvailable < costMicrounits))
    (.budgetExceeded "budget or concurrency ceiling exceeded")

def begin (uuid4 : String) (taskId : String) (pm : Principal) (idempotencyKey : String)
    (tokenAllowance costMicrounits : Int) (c : SupervisedCoordinator B) :
    Result (SupervisedCoordinator B) DispatchPlan :=
  orRaise (c.identities.require pm .pm) c fun _ =>
  c.withTask taskId "unknown task" fun agg =>
  orRaise (c.precheck api taskId agg idempotencyKey tokenAllowance costMicrounits) c fun _ =>
  let (d, agg) := agg.dispatch c.identities uuid4 pm idempotencyKey
  let c := c.setTask taskId agg
  orRaise d c fun d =>
  let (r, budget) := api.reserve d.dispatchId tokenAllowance costMicrounits c.budget
  let c := { c with budget }
  -- the consumed idempotency key cannot be given back
  orRaise r (c.setTask taskId agg.recoverUnknown) fun _ =>
  (.ok ⟨taskId, d.dispatchId, d.policyRevision, d.treeSha, false⟩,
    { c with activeIds := c.activeIds.set taskId d.dispatchId })

/-- Pops the active dispatch of a task and releases its reservation; what the budget
raises is dropped. -/
def releaseDispatch (taskId : String) (c : SupervisedCoordinator B) : SupervisedCoordinator B :=
  match c.activeIds.get? taskId with
  | none => c
  | some dispatchId =>
    { c with activeIds := c.activeIds.erase taskId
             budget := (api.release dispatchId c.budget).2 }

def reportProcessSucceeded (developer : Principal) (taskId dispatchId treeSha : String)
    (c : SupervisedCoordinator B) : Result (SupervisedCoordinator B) Unit :=
  orRaise (c.identities.require developer .developer) c fun _ =>
  c.withTask taskId taskId fun agg =>
  orRaise (agg.processSucceeded dispatchId treeSha) c fun agg => (.ok (), c.setTask taskId agg)

structure QaReview where
  qa : Principal
  taskId : String
  evidence : List Evidence
  checkout : QaEvidenceGate.Checkout
  fixRound : Int

def exhausted : EvidenceDecision := ⟨.blocked, "three fix rounds exhausted: human required"⟩

def failReview (q : QaReview) (agg : TaskAggregate) (currentRound : Int)
    (decision : EvidenceDecision) (c : SupervisedCoordinator B) :
    Result (SupervisedCoordinator B) EvidenceDecision :=
  let c := { c with fixRounds := c.fixRounds.set q.taskId (currentRound + 1) }
  if 3 ≤ currentRound + 1 then
    (.ok exhausted, releaseDispatch api q.taskId (c.setTask q.taskId agg.block))
  else (.ok decision, c)

def passReview (q : QaReview) (agg : TaskAggregate) (decision : EvidenceDecision) (v : QaVerdict)
    (c : SupervisedCoordinator B) : Result (SupervisedCoordinator B) EvidenceDecision :=
  orRaise (agg.qaVerified c.identities c.receipts q.qa v) c fun agg =>
  let c := c.setTask q.taskId agg
  orRaise (agg.markVerified c.identities q.qa) c fun agg =>
  (.ok decision, releaseDispatch api q.taskId (c.setTask q.taskId agg))

def settleReview (q : QaReview) (agg : TaskAggregate) (currentRound : Int)
    (decision : EvidenceDecision) (verdict : Option QaVerdict) (c : SupervisedCoordinator B) :
    Result (SupervisedCoordinator B) EvidenceDecision :=
  match verdict, decision.status with
  | some v, .qaVerified => passReview api q agg decision v c
  | _, _ => failReview api q agg currentRound decision c

def qaReview (uuid4 : String) (q : QaReview) (c : SupervisedCoordinator B) :
    Result (SupervisedCoordinator B) EvidenceDecision :=
  orRaise (c.identities.require q.qa .qa) c fun _ =>
  c.withTask q.taskId "unknown task" fun agg =>
  match agg.state, agg.activeDispatch with
  | .processSucceeded, some d =>
    let currentRound := max ((c.fixRounds.get? q.taskId).getD 0) (max q.fixRound 0)
    if 3 ≤ currentRound then
      (.ok exhausted, releaseDispatch api q.taskId (c.setTask q.taskId agg.block))
    else
      orRaise (QaEvidenceGate.create agg.task.acceptanceCriteria c.testHashes) c fun gate =>
      let (decision, verdict, receipts) := gate.check c.receipts c.identities uuid4 q.qa q.evidence
        q.checkout agg.task.taskId d.dispatchId agg.task.treeSha currentRound
      settleReview api q agg currentRound decision verdict { c with receipts }
  | _, _ => (.error (.invalidTransition "QA review requires PROCESS_SUCCEEDED"), c)

def reconcileRecovery (taskId : String) (pm : Principal) (newTreeSha : Option String)
    (c : SupervisedCoordinator B) : Result (SupervisedCoordinator B) Unit :=
  orRaise (c.identities.require pm .pm) c fun _ =>
  c.withTask taskId "unknown task" fun agg =>
  orRaise (require (agg.state = .recoveryRequired)
    (.invalidTransition "reconcile_recovery requires RECOVERY_REQUIRED")) c fun _ =>
  let c := releaseDispatch api taskId c
  orRaise (agg.reconcile c.identities pm newTreeSha) c fun agg => (.ok (), c.setTask taskId agg)

def updateOne (newTreeSha : String) (agg : TaskAggregate) : Except Error TaskAggregate :=
  if agg.task.treeSha = newTreeSha then .ok agg
  else match agg.state with
    | .dispatched | .processSucceeded => .ok agg.recoverUnknown
    | .recoveryRequired => .ok agg
    | .created => do return { agg with task := ← agg.task.atTree newTreeSha }
    | _ => agg.changeTree newTreeSha

/-- The loop stops where a task raises; the tasks before it keep what was done. -/
def updateAll (newTreeSha : String) :
    Dict String TaskAggregate → Result (Dict String TaskAggregate) Unit
  | [] => (.ok (), [])
  | (k, agg) :: tasks =>
    orRaise (updateOne newTreeSha agg) ((k, agg) :: tasks) fun agg =>
    let (r, tasks) := updateAll newTreeSha tasks
    (r, (k, agg) :: tasks)

def updateTree (newTreeSha : String) (c : SupervisedCoordinator B) :
    Result (SupervisedCoordinator B) Unit :=
  orRaise (require (newTreeSha ≠ "") (.value "tree SHA is mandatory")) c fun _ =>
  let (r, tasks) := updateAll newTreeSha c.tasks
  (r, { c with tasks })

end SupervisedCoordinator

/-! ## Runs -/

/-- A call on the coordinator or on the registries it shares, or another user's change
of a shared budget. -/
inductive Call (B : Type)
  | register (principalId : String) (role : Role) (secret : String)
  | issue (executor : Principal) (s : Scope) (exitCode : Int)
  | createEvidence (receiptId : String) (s : Scope)
  | createQaVerdict (qa : Principal) (evidence : List Evidence) (s : Scope) (accepted : Bool)
  | freeze (taskId : String) (pm : Principal)
  | begin (taskId : String) (pm : Principal) (idempotencyKey : String)
      (tokenAllowance costMicrounits : Int)
  | reportProcessSucceeded (developer : Principal) (taskId dispatchId treeSha : String)
  | releaseDispatch (taskId : String)
  | qaReview (q : SupervisedCoordinator.QaReview)
  | updateTree (newTreeSha : String)
  | reconcileRecovery (taskId : String) (pm : Principal) (newTreeSha : Option String)
  | otherBudgetUse (budget : B)

structure State (B : Type) where
  coordinator : SupervisedCoordinator B
  /-- how many calls were made; each draws at most one identifier from `uuid4` -/
  calls : Nat

section Runs

variable {B : Type} (api : BudgetApi B) (uuid4 : Nat → String)

/-- What a call leaves behind, whether it returns or raises. -/
def perform (id : String) (c : SupervisedCoordinator B) : Call B → SupervisedCoordinator B
  | .register principalId role secret =>
    match c.identities.register principalId role secret with
    | .ok (_, identities) => { c with identities }
    | .error _ => c
  | .issue executor s exitCode =>
    match c.receipts.issue c.identities id executor s exitCode with
    | .ok (_, receipts) => { c with receipts }
    | .error _ => c
  | .createEvidence receiptId s =>
    match c.receipts.createEvidence id receiptId s with
    | .ok (_, receipts) => { c with receipts }
    | .error _ => c
  | .createQaVerdict qa evidence s accepted =>
    match c.receipts.createQaVerdict c.identities id qa evidence s accepted with
    | .ok (_, receipts) => { c with receipts }
    | .error _ => c
  | .freeze taskId pm => (c.freeze taskId pm).2
  | .begin taskId pm idempotencyKey tokenAllowance costMicrounits =>
    (c.begin api id taskId pm idempotencyKey tokenAllowance costMicrounits).2
  | .reportProcessSucceeded developer taskId dispatchId treeSha =>
    (c.reportProcessSucceeded developer taskId dispatchId treeSha).2
  | .releaseDispatch taskId => c.releaseDispatch api taskId
  | .qaReview q => (c.qaReview api id q).2
  | .updateTree newTreeSha => (c.updateTree newTreeSha).2
  | .reconcileRecovery taskId pm newTreeSha => (c.reconcileRecovery api taskId pm newTreeSha).2
  | .otherBudgetUse budget => { c with budget }

def step (s : State B) (q : Call B) : Option (State B) :=
  some ⟨perform api (uuid4 s.calls) s.coordinator q, s.calls + 1⟩

end Runs

end SubagentBridge.Team
