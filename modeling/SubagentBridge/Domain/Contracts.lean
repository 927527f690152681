import SubagentBridge.Library.Fallible
import SubagentBridge.Library.Text

/-! The data contracts of the domain: records that are built only from valid fields. -/

namespace SubagentBridge.Domain

open Library

inductive Error
  | value : String → Error
  | permission : String → Error
  | key : String → Error
  | invalidTransition : String → Error
  | staleDispatch : String → Error
  | budgetExceeded : String → Error
  | storage : String → Error
  deriving DecidableEq

def Error.name : Error → String
  | .value _ => "ValueError"
  | .permission _ => "PermissionError"
  | .key _ => "KeyError"
  | .invalidTransition _ => "InvalidTransition"
  | .staleDispatch _ => "StaleDispatch"
  | .budgetExceeded _ => "BudgetExceeded"
  | .storage _ => "OperationalError"

/-- A method that may raise leaves an object behind either way. -/
abbrev Result (σ α : Type) := Except Error α × σ

def Identity (value : String) : Prop :=
  isBlank value = false ∧ value.length ≤ 4096 ∧
    ∀ c ∈ value.toList, ¬ (c.toNat < 32 ∨ c.toNat = 127)

instance (value : String) : Decidable (Identity value) := by
  unfold Identity
  infer_instance

def identity (value label : String) : Except Error Unit :=
  require (Identity value) (.value (label ++ " must be bounded printable text"))

inductive Role | pm | developer | qa | specialist | executor
  deriving DecidableEq

def Role.value : Role → String
  | .pm => "PM"
  | .developer => "DEVELOPER"
  | .qa => "QA"
  | .specialist => "SPECIALIST"
  | .executor => "EXECUTOR"

inductive TaskState
  | created | frozen | dispatched | processSucceeded | qaVerified | verified | blocked
  | recoveryRequired
  deriving DecidableEq

structure Run where
  runId : String
  projectId : String
  policyRevision : String
  deriving DecidableEq

def Criteria (criteria : List String) : Prop :=
  criteria ≠ [] ∧ (∀ x ∈ criteria, isBlank x = false ∧ x.length ≤ 4096) ∧ criteria.Nodup

instance (criteria : List String) : Decidable (Criteria criteria) := by
  unfold Criteria
  infer_instance

structure Task where
  taskId : String
  runId : String
  acceptanceCriteria : List String
  treeSha : String
  policyRevision : String
  ids : Identity taskId ∧ Identity runId ∧ Identity treeSha ∧ Identity policyRevision
  criteria : Criteria acceptanceCriteria
  deriving DecidableEq

def Task.create (taskId runId : String) (acceptanceCriteria : List String)
    (treeSha policyRevision : String) : Except Error Task := do
  identity taskId "task_id"
  identity runId "run_id"
  identity treeSha "tree_sha"
  identity policyRevision "policy_revision"
  if h : (Identity taskId ∧ Identity runId ∧ Identity treeSha ∧ Identity policyRevision) ∧
      Criteria acceptanceCriteria then
    .ok ⟨taskId, runId, acceptanceCriteria, treeSha, policyRevision, h.1, h.2⟩
  else .error (.value "nonempty, unique frozen acceptance criteria required")

/-- `Task(task.task_id, task.run_id, task.acceptance_criteria, tree, task.policy_revision)` -/
def Task.atTree (t : Task) (tree : String) : Except Error Task :=
  Task.create t.taskId t.runId t.acceptanceCriteria tree t.policyRevision

theorem Task.atTree_eq (t : Task) (tree : String) :
    t.atTree tree = if h : Identity tree then
      .ok { t with treeSha := tree, ids := ⟨t.ids.1, t.ids.2.1, h, t.ids.2.2.2⟩ }
    else .error (.value "tree_sha must be bounded printable text") := by
  obtain ⟨h₁, h₂, -, h₄⟩ := t.ids
  by_cases h : Identity tree <;>
    simp [Task.atTree, Task.create, identity, require, h₁, h₂, h₄, h, t.criteria, bind, Except.bind]

theorem Task.atTree_ok {t t' : Task} {tree : String} (h : t.atTree tree = .ok t') :
    t'.taskId = t.taskId ∧ t'.treeSha = tree ∧ Identity tree := by
  rw [atTree_eq] at h
  split at h
  next hid => cases h; exact ⟨rfl, rfl, hid⟩
  next => cases h

theorem Task.atTree_error {t : Task} {tree : String} {e : Error} (h : t.atTree tree = .error e) :
    ¬ Identity tree := by
  rw [atTree_eq] at h
  split at h
  next => cases h
  next hid => exact hid

structure Dispatch where
  dispatchId : String
  taskId : String
  attempt : Nat
  idempotencyKey : String
  treeSha : String
  policyRevision : String
  deriving DecidableEq

def Dispatch.create (dispatchId taskId : String) (attempt : Nat)
    (idempotencyKey treeSha policyRevision : String) : Except Error Dispatch := do
  identity dispatchId "dispatch_id"
  identity taskId "task_id"
  identity idempotencyKey "idempotency_key"
  identity treeSha "tree_sha"
  identity policyRevision "policy_revision"
  require (1 ≤ attempt) (.value "attempt must be positive and policy revision nonempty")
  return ⟨dispatchId, taskId, attempt, idempotencyKey, treeSha, policyRevision⟩

structure Evidence where
  evidenceId : String
  receiptId : String
  taskId : String
  dispatchId : String
  treeSha : String
  deriving DecidableEq

structure Message where
  messageId : String
  fromPrincipal : String
  toPrincipal : String
  taskId : String
  dispatchId : String
  payload : String
  ids : Identity messageId ∧ Identity fromPrincipal ∧ Identity toPrincipal ∧ Identity taskId ∧
    Identity dispatchId
  deriving DecidableEq

end SubagentBridge.Domain
