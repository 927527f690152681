import SubagentBridge.Domain.Contracts
import SubagentBridge.Library.Dict

/-! Registered identities, and the registry of what executors and QA issued. -/

namespace SubagentBridge.Domain

open Library

structure Principal where
  principalId : String
  role : Role
  registrySecret : String
  deriving DecidableEq

structure ExecutorReceipt where
  receiptId : String
  issuerId : String
  taskId : String
  dispatchId : String
  treeSha : String
  exitCode : Int
  deriving DecidableEq

structure QaVerdict where
  verdictId : String
  qaPrincipalId : String
  taskId : String
  dispatchId : String
  treeSha : String
  receiptIds : List String
  accepted : Bool
  deriving DecidableEq

structure IdentityRegistry where
  members : Dict String (Role × String)
  deriving DecidableEq

namespace IdentityRegistry

def empty : IdentityRegistry := ⟨[]⟩

/-- `register`, with the random bytes that `token_bytes` answers. -/
def register (reg : IdentityRegistry) (principalId : String) (role : Role) (secret : String) :
    Except Error (Principal × IdentityRegistry) := do
  Library.require (principalId ≠ "") (.value "valid principal identity and role required")
  Library.require (reg.members.get? principalId = none)
    (.value "principal cannot be re-registered or change roles")
  return (⟨principalId, role, secret⟩, ⟨reg.members.set principalId (role, secret)⟩)

def require (reg : IdentityRegistry) (p : Principal) (role : Role) : Except Error Unit :=
  Library.require (reg.members.get? p.principalId = some (role, p.registrySecret) ∧ p.role = role)
    (.permission ("registered " ++ role.value ++ " identity is required"))

def IsMember (reg : IdentityRegistry) (principalId : String) (role : Role) : Prop :=
  ∃ secret, reg.members.get? principalId = some (role, secret)

end IdentityRegistry

structure Scope where
  taskId : String
  dispatchId : String
  treeSha : String
  deriving DecidableEq

def ExecutorReceipt.scope (r : ExecutorReceipt) : Scope := ⟨r.taskId, r.dispatchId, r.treeSha⟩

def Evidence.scope (e : Evidence) : Scope := ⟨e.taskId, e.dispatchId, e.treeSha⟩

def QaVerdict.scope (v : QaVerdict) : Scope := ⟨v.taskId, v.dispatchId, v.treeSha⟩

structure ReceiptIssuerRegistry where
  receipts : Dict String ExecutorReceipt
  evidence : Dict String Evidence
  verdicts : Dict String QaVerdict
  deriving DecidableEq

namespace ReceiptIssuerRegistry

def empty : ReceiptIssuerRegistry := ⟨[], [], []⟩

variable (reg : ReceiptIssuerRegistry) (identities : IdentityRegistry) (uuid4 : String)

def issue (executor : Principal) (s : Scope) (exitCode : Int) :
    Except Error (ExecutorReceipt × ReceiptIssuerRegistry) := do
  identities.require executor .executor
  require (s.taskId ≠ "" ∧ s.dispatchId ≠ "" ∧ s.treeSha ≠ "")
    (.value "receipt requires task/dispatch/tree identity and exit code")
  let record : ExecutorReceipt :=
    ⟨uuid4, executor.principalId, s.taskId, s.dispatchId, s.treeSha, exitCode⟩
  return (record, { reg with receipts := reg.receipts.set record.receiptId record })

def createEvidence (receiptId : String) (s : Scope) :
    Except Error (Evidence × ReceiptIssuerRegistry) := do
  match reg.receipts.get? receiptId with
  | none => throw (.permission "unissued receipt is not evidence")
  | some receipt =>
    require (receipt.scope = s) (.permission "receipt does not match task, dispatch, and tree")
    require (receipt.exitCode = 0) (.permission "failed execution cannot serve as success evidence")
    let record : Evidence := ⟨uuid4, receiptId, s.taskId, s.dispatchId, s.treeSha⟩
    return (record, { reg with evidence := reg.evidence.set record.evidenceId record })

def Backs (s : Scope) (receiptId : String) : Prop :=
  ∃ r ∈ reg.receipts.get? receiptId, r.scope = s ∧ r.exitCode = 0

instance (s : Scope) (receiptId : String) : Decidable (reg.Backs s receiptId) := by
  unfold Backs
  infer_instance

def checkItem (s : Scope) (item : Evidence) : Except Error Unit := do
  require (reg.evidence.get? item.evidenceId = some item)
    (.permission "unregistered or mutated evidence object")
  require (item.scope = s) (.permission "cross-task, stale dispatch or wrong-tree evidence")
  require (reg.Backs s item.receiptId) (.permission "unissued or mismatched receipt")

def createQaVerdict (qa : Principal) (evidence : List Evidence) (s : Scope) (accepted : Bool) :
    Except Error (QaVerdict × ReceiptIssuerRegistry) := do
  identities.require qa .qa
  require (evidence ≠ []) (.permission "QA verdict requires executor-issued receipt evidence")
  require (evidence.map (·.evidenceId)).Nodup
    (.permission "duplicate evidence cannot be counted twice")
  evidence.forM (reg.checkItem s)
  let verdict : QaVerdict := ⟨uuid4, qa.principalId, s.taskId, s.dispatchId, s.treeSha,
    evidence.map (·.receiptId), accepted⟩
  return (verdict, { reg with verdicts := reg.verdicts.set verdict.verdictId verdict })

def requireVerdict (verdict : QaVerdict) (s : Scope) : Except Error Unit := do
  require (reg.verdicts.get? verdict.verdictId = some verdict)
    (.permission "QA verdict is not from a registered issuer")
  require (verdict.scope = s) (.permission "QA verdict does not bind this dispatch and tree")
  require verdict.accepted (.permission "QA rejected the change")
  require (verdict.receiptIds ≠ [] ∧ ∀ i ∈ verdict.receiptIds, reg.receipts.get? i ≠ none)
    (.permission "missing executor-issued receipt")

end ReceiptIssuerRegistry

structure MessageRegistry where
  recorded : Dict String Message
  deriving DecidableEq

namespace MessageRegistry

def empty : MessageRegistry := ⟨[]⟩

def record (reg : MessageRegistry) (message : Message) (taskId dispatchId : String) :
    Except Error (Bool × MessageRegistry) := do
  Library.require (message.taskId = taskId ∧ message.dispatchId = dispatchId)
    (.permission "stale or cross-task message denied")
  Library.require (message.toPrincipal ≠ "*" ∧ message.fromPrincipal ≠ "*")
    (.permission "no implicit broadcast")
  match reg.recorded.get? message.messageId with
  | some known =>
    Library.require (known = message) (.value "conflicting message id cannot be replayed")
    return (false, reg)
  | none => return (true, ⟨reg.recorded.set message.messageId message⟩)

end MessageRegistry

end SubagentBridge.Domain
