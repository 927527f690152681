import SubagentBridge.Domain.Registry

/-! The aggregate of one task: the stages of its work, and the rejection of stale
dispatches. -/

namespace SubagentBridge.Domain

open Library

structure TaskAggregate where
  task : Task
  state : TaskState
  activeDispatch : Option Dispatch
  verifiedTreeSha : Option String
  qaVerdict : Option QaVerdict
  usedKeys : List String
  attempt : Nat
  deriving DecidableEq

namespace TaskAggregate

def create (task : Task) : TaskAggregate := ⟨task, .created, none, none, none, [], 0⟩

variable (agg : TaskAggregate) (identities : IdentityRegistry)

def freeze (pm : Principal) : Except Error TaskAggregate := do
  identities.require pm .pm
  require (agg.state = .created ∨ agg.state = .blocked)
    (.invalidTransition "freeze requires CREATED or BLOCKED")
  return { agg with state := .frozen }

def dispatch (uuid4 : String) (pm : Principal) (idempotencyKey : String) :
    Result TaskAggregate Dispatch :=
  orRaise (identities.require pm .pm) agg fun _ =>
  orRaise (require (agg.state = .frozen) (.invalidTransition "a frozen task is required")) agg
    fun _ =>
  orRaise (require (idempotencyKey ≠ "" ∧ idempotencyKey ∉ agg.usedKeys)
    (.invalidTransition "duplicate or missing idempotency key")) agg fun _ =>
  let agg := { agg with usedKeys := idempotencyKey :: agg.usedKeys, attempt := agg.attempt + 1 }
  orRaise (Dispatch.create uuid4 agg.task.taskId agg.attempt idempotencyKey agg.task.treeSha
    agg.task.policyRevision) agg fun d =>
  (.ok d, { agg with activeDispatch := some d, state := .dispatched })

def requireCurrent (dispatchId treeSha : String) : Except Error Unit :=
  require (∃ d ∈ agg.activeDispatch,
      d.dispatchId = dispatchId ∧ d.treeSha = treeSha ∧ treeSha = agg.task.treeSha)
    (.staleDispatch "stale or cross-tree dispatch ignored")

def processSucceeded (dispatchId treeSha : String) : Except Error TaskAggregate := do
  agg.requireCurrent dispatchId treeSha
  require (agg.state = .dispatched) (.invalidTransition "PROCESS_SUCCEEDED requires DISPATCHED")
  return { agg with state := .processSucceeded }

def qaVerified (receipts : ReceiptIssuerRegistry) (qa : Principal) (verdict : QaVerdict) :
    Except Error TaskAggregate := do
  identities.require qa .qa
  match agg.state, agg.activeDispatch with
  | .processSucceeded, some d =>
    receipts.requireVerdict verdict ⟨agg.task.taskId, d.dispatchId, agg.task.treeSha⟩
    require (verdict.qaPrincipalId = qa.principalId)
      (.permission "QA verdict cannot be presented by a different principal")
    return { agg with qaVerdict := some verdict, state := .qaVerified }
  | _, _ => throw (.invalidTransition "QA_VERIFIED requires PROCESS_SUCCEEDED")

def markVerified (qa : Principal) : Except Error TaskAggregate := do
  identities.require qa .qa
  match agg.state, agg.qaVerdict with
  | .qaVerified, some verdict =>
    require (verdict.qaPrincipalId = qa.principalId)
      (.permission "only verdict-issuing QA can finalize")
    return { agg with state := .verified, verifiedTreeSha := some agg.task.treeSha }
  | _, _ => throw (.invalidTransition "VERIFIED requires QA_VERIFIED plus verdict")

def changeTree (newTreeSha : String) : Except Error TaskAggregate := do
  require (newTreeSha ≠ "") (.value "new tree cannot be empty")
  if newTreeSha = agg.task.treeSha then
    return agg
  require (agg.state ≠ .recoveryRequired) (.invalidTransition
    "cannot change tree while task is in RECOVERY_REQUIRED; reconciliation required")
  let task ← agg.task.atTree newTreeSha
  return { agg with
    task, state := .frozen, verifiedTreeSha := none, qaVerdict := none, activeDispatch := none }

def reconcile (pm : Principal) (newTreeSha : Option String) : Except Error TaskAggregate := do
  identities.require pm .pm
  require (agg.state = .recoveryRequired)
    (.invalidTransition "reconcile requires RECOVERY_REQUIRED")
  -- an empty string counts as no tree
  let task ← agg.task.atTree ((newTreeSha.filter (· ≠ "")).getD agg.task.treeSha)
  return { agg with
    task, state := .frozen, activeDispatch := none, verifiedTreeSha := none, qaVerdict := none }

def block : TaskAggregate :=
  { agg with state := .blocked, qaVerdict := none, verifiedTreeSha := none }

def recoverUnknown : TaskAggregate :=
  { agg with state := .recoveryRequired, qaVerdict := none, verifiedTreeSha := none }

end TaskAggregate

end SubagentBridge.Domain
