import SubagentBridge.Approval.OperatorBoundary

/-! The authority that mints execution tickets for workers from what the operator boundary
grants, and the boundary's table as a later version of the code finds it. -/

namespace SubagentBridge.VerifiedOperatorAuthority

open Library OperatorBoundary

section Authority

variable {τ : Type} [LinearOrder τ] [NatCast τ] (E : Env τ)

/-- What the constructor lets through: a boundary that verifies each decision. -/
structure VerifiedOperatorApprovalAuthority where
  boundary : Nat
  verifies : (E.conf boundary).decisionVerifier = true
  deriving DecidableEq

structure ExecutionTicket (τ : Type) where
  actionId : String
  workerId : String
  taskId : String
  resource : String
  expiry : τ
  signature : String
  deriving DecidableEq

abbrev Answer (τ : Type) := Bool × String × Option (ExecutionTicket τ)

def computeActionResource (command : List String) (workspacePath taskId : String) : String :=
  E.sha256 (commandText command workspacePath taskId)

def ticketPayload (actionId workerId taskId resource : String) (expiry : τ) : String :=
  actionId ++ ":" ++ workerId ++ ":" ++ taskId ++ ":" ++ resource ++ ":" ++ E.fixed3 expiry

def executionTicket (actionId workerId taskId resource sessionSecret : String) (expiry : τ) :
    ExecutionTicket τ where
  actionId := actionId
  workerId := workerId
  taskId := taskId
  resource := resource
  expiry := expiry
  signature := E.hmac sessionSecret (ticketPayload E actionId workerId taskId resource expiry)

variable {E} (authority : VerifiedOperatorApprovalAuthority E)

def isActionForContext (action : OperatorApprovalRequest τ) (workerId taskId : String)
    (command : List String) (workspacePath : String) : Call τ Bool :=
  Proc.and (action.sessionId = workerId && action.taskId = taskId && action.command = command) do
    let path ← perform (.resolvePath workspacePath)
    return action.workspacePath = path && (action.state ≠ .approved || action.operatorVerified)

def isActionConsumed (actionId : String) : Call τ Bool := do
  let found ← getRequest authority.boundary actionId
  return found.any fun req => req.state = .consumed

def getAction (actionId : String) : Call τ (Option (OperatorApprovalRequest τ)) :=
  if actionId = "" then .ret none else getRequest authority.boundary actionId

def approveByHuman : Call τ (OperatorApprovalRequest τ) :=
  .raise (.permission ("DENIED: legacy broker tokens cannot approve commands; " ++
    "use a trusted out-of-band operator identity verifier"))

def verifyAndConsume : Call τ (Bool × String) :=
  .ret (false, "DENIED: verified operator grants require IPC ticket issuance")

variable [Add τ]

def requestCommandApproval (workerId taskId : String) (command : List String)
    (workspacePath : String) : Call τ (OperatorApprovalRequest τ) :=
  createRequest E authority.boundary workerId taskId command workspacePath [] none

def issueExecutionTicket (actionId workerId taskId : String) (command : List String)
    (workspacePath sessionSecret : String) (ttlSeconds : τ) : Call τ (Answer τ) :=
  if ¬ ((0 : Nat) < ttlSeconds ∧ ttlSeconds ≤ (60 : Nat)) then
    .ret (false, "DENIED: ticket TTL must be finite in (0, 60]", none)
  else if sessionSecret.length < 32 then
    .ret (false, "DENIED: missing valid IPC session secret", none)
  else do
    let (allowed, reason, receipt) ← consumeForExecution E authority.boundary actionId workerId
      taskId command workspacePath ttlSeconds
    if allowed = false ∨ receipt.isNone then return (false, reason, none)
    else
      let now ← perform .now
      let resource := computeActionResource E command workspacePath taskId
      return (true, "APPROVED_BY_VERIFIED_OPERATOR",
        some (executionTicket E actionId workerId taskId resource sessionSecret (now + ttlSeconds)))

/-! ## The machine -/

variable (E)

inductive Request
  | boundary (q : OperatorBoundary.Request τ)
  | requestCommandApproval (authority : VerifiedOperatorApprovalAuthority E)
      (workerId taskId : String) (command : List String) (workspacePath : String)
  | approveByHuman (authority : VerifiedOperatorApprovalAuthority E) (actionId : String)
  | getAction (authority : VerifiedOperatorApprovalAuthority E) (actionId : String)
  | isActionForContext (authority : VerifiedOperatorApprovalAuthority E)
      (action : OperatorApprovalRequest τ) (workerId taskId : String) (command : List String)
      (workspacePath : String)
  | isActionConsumed (authority : VerifiedOperatorApprovalAuthority E) (actionId : String)
  | verifyAndConsume (authority : VerifiedOperatorApprovalAuthority E) (actionId : String)
  | issueExecutionTicket (authority : VerifiedOperatorApprovalAuthority E)
      (actionId workerId taskId : String) (command : List String)
      (workspacePath sessionSecret : String) (ttlSeconds : τ)
  deriving DecidableEq

inductive Response (τ : Type)
  | boundary (r : OperatorBoundary.Response τ)
  | request (req : OperatorApprovalRequest τ)
  | found (req : Option (OperatorApprovalRequest τ))
  | flag (b : Bool)
  | refused (v : Bool × String)
  | answer (a : Answer τ)
  deriving DecidableEq

def body : Request E → Call τ (Response τ)
  | .boundary q => do return .boundary (← OperatorBoundary.body E q)
  | .requestCommandApproval authority workerId taskId command workspacePath => do
    return .request (← requestCommandApproval authority workerId taskId command workspacePath)
  | .approveByHuman _ _ => do return .request (← approveByHuman)
  | .getAction authority actionId => do return .found (← getAction authority actionId)
  | .isActionForContext _ action workerId taskId command workspacePath => do
    return .flag (← isActionForContext action workerId taskId command workspacePath)
  | .isActionConsumed authority actionId => do
    return .flag (← isActionConsumed authority actionId)
  | .verifyAndConsume _ _ => do return .refused (← verifyAndConsume)
  | .issueExecutionTicket authority actionId workerId taskId command workspacePath sessionSecret
      ttlSeconds => do
    return .answer (← issueExecutionTicket authority actionId workerId taskId command
      workspacePath sessionSecret ttlSeconds)

abbrev machine [FloatText τ] : Machine where
  sig := sig τ
  Err := Error
  Res := Response τ
  Request := Request E
  State := State τ
  World := World τ
  possible := possible
  exec := exec E
  body := body E

end Authority

/-- The table that an upgrade leaves: the columns that are unique are unique, and the new
column is 0 in every row that was there. -/
structure LegacyTable (τ : Type) where
  rows : List (Row τ)
  keys : (rows.map (·.actionId)).Nodup
  nonces : (rows.map (·.nonce)).Nodup
  unproven : ∀ r ∈ rows, r.actionBoundVerified = false

def LegacyTable.state {τ : Type} (table : LegacyTable τ) : State τ :=
  { initial with rows := table.rows, minted := table.rows.map (·.nonce) }

end SubagentBridge.VerifiedOperatorAuthority
