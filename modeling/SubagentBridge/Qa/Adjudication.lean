import SubagentBridge.Domain.Registry

/-! The QA gate: a verdict is asked for only when checkout, tests and criteria match
what was frozen. -/

namespace SubagentBridge.Qa

open Library Domain

def TestPath (relative : String) : Prop :=
  let pieces := (splitOn '/' relative.toList).map String.ofList
  -- PurePosixPath drops empty and dot components
  let parts := pieces.filter fun p => p ≠ "" ∧ p ≠ "."
  (relative ≠ "" ∧ ∀ c ∈ relative.toList, c ≠ '\\' ∧ c ≠ ':' ∧ c.toNat ≠ 0) ∧
    relative.toList.take 6 = "tests/".toList ∧ (∀ p ∈ pieces, p ≠ "" ∧ p ≠ "." ∧ p ≠ "..") ∧
    2 ≤ parts.length ∧ parts.head? = some "tests"

instance (relative : String) : Decidable (TestPath relative) := by
  unfold TestPath
  infer_instance

def Sha256Pin (digest : String) : Prop :=
  digest.length = 64 ∧ ∀ c ∈ digest.toList, c ∈ "0123456789abcdef".toList

instance (digest : String) : Decidable (Sha256Pin digest) := by
  unfold Sha256Pin
  infer_instance

inductive Status | unverified | blocked | qaVerified
  deriving DecidableEq

structure EvidenceDecision where
  status : Status
  reason : String
  deriving DecidableEq

structure QaEvidenceGate where
  criteria : List String
  testHashes : Dict String String
  deriving DecidableEq

namespace QaEvidenceGate

def checkPin (path digest : String) : Except Error Unit := do
  require (TestPath path) (.value "invalid QA-owned test path")
  require (Sha256Pin digest) (.value "invalid QA-owned test SHA256 pin")

def create (frozenCriteria : List String) (qaTestHashes : Dict String String) :
    Except Error QaEvidenceGate := do
  require (frozenCriteria ≠ [] ∧ ∀ x ∈ frozenCriteria, isBlank x = false)
    (.value "frozen acceptance criteria required")
  require (qaTestHashes ≠ []) (.value "pinned QA-owned test paths/hashes required")
  qaTestHashes.forM fun p => checkPin p.1 p.2
  return ⟨frozenCriteria, qaTestHashes⟩

structure Checkout where
  coveredCriteria : List String
  actualTestHashes : Dict String String
  actualTree : String
  clean : Bool
  humanWaiver : Bool

/-- `set(covered_criteria) == set(self.criteria)`, and no criterion twice. -/
def Covers (covered criteria : List String) : Prop :=
  ((∀ x ∈ covered, x ∈ criteria) ∧ ∀ x ∈ criteria, x ∈ covered) ∧ covered.length = criteria.length

instance (covered criteria : List String) : Decidable (Covers covered criteria) := by
  unfold Covers
  infer_instance

def check (gate : QaEvidenceGate) (receipts : ReceiptIssuerRegistry) (identities : IdentityRegistry)
    (uuid4 : String) (qa : Principal) (evidence : List Evidence) (co : Checkout)
    (taskId dispatchId expectedTree : String) (fixRound : Int) :
    EvidenceDecision × Option QaVerdict × ReceiptIssuerRegistry :=
  if fixRound < 0 then (⟨.unverified, "invalid fix-round counter"⟩, none, receipts)
  else if 3 ≤ fixRound then
    (⟨.blocked, "three fix rounds exhausted: human required"⟩, none, receipts)
  else if co.clean = false ∨ expectedTree = "" ∨ co.actualTree ≠ expectedTree then
    (⟨.unverified, "dirty checkout or wrong tree"⟩, none, receipts)
  else if gate.testHashes.same co.actualTestHashes = false then
    (⟨.unverified, "QA tests changed, missing or substituted"⟩, none, receipts)
  else if ¬ Covers co.coveredCriteria gate.criteria then
    (⟨.unverified, "frozen acceptance criteria not fully covered"⟩, none, receipts)
  else if co.humanWaiver then
    (⟨.unverified, "human waiver is not QA evidence"⟩, none, receipts)
  else if evidence = [] then (⟨.unverified, "executor receipts required"⟩, none, receipts)
  else
    match receipts.createQaVerdict identities uuid4 qa evidence ⟨taskId, dispatchId, expectedTree⟩
        true with
    | .ok (v, receipts) =>
      (⟨.qaVerified, "registered, matched evidence for frozen criteria"⟩, some v, receipts)
    | .error e => (⟨.unverified, "provenance rejected: " ++ e.name⟩, none, receipts)

end QaEvidenceGate

end SubagentBridge.Qa
