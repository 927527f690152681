import SubagentBridge.Approval.VerifiedOperatorAuthority
import SubagentBridge.Library.Numbers

/-! The broker of human approvals, the authority that turns an approval into one execution
ticket, and the check of a ticket in the worker process. -/

namespace SubagentBridge.TrustedAuthority

open Library OperatorBoundary VerifiedOperatorAuthority

inductive ApprovalState | blocked | approved | rejected | expired
  deriving DecidableEq

def ApprovalState.value : ApprovalState → String
  | .blocked => "BLOCKED"
  | .approved => "APPROVED"
  | .rejected => "REJECTED"
  | .expired => "EXPIRED"

inductive Error
  | value (message : String)
  | permission (message : String)
  | key (message : String)
  deriving DecidableEq

structure ApprovalAction (τ : Type) where
  actionId : String
  sessionId : String
  operation : String
  resource : String
  fingerprint : String
  state : ApprovalState
  reason : String
  expiresAt : τ
  deriving DecidableEq

structure ApprovalBroker (τ : Type) [LinearOrder τ] [NatCast τ] where
  ttlSeconds : τ
  ttl_bound : (0 : Nat) < ttlSeconds ∧ ttlSeconds ≤ (86400 : Nat)
  secret : String
  actions : Dict String (ApprovalAction τ)
  consumedFingerprints : List String

section Broker

variable {τ : Type} [LinearOrder τ] [NatCast τ] (E : Env τ)

namespace ApprovalBroker

def createAction [Add τ] (b : ApprovalBroker τ) (sessionId operation resource token : String)
    (now : τ) : Except Error (ApprovalAction τ) × ApprovalBroker τ :=
  if sessionId = "" ∨ operation = "" then
    (.error (.value "session_id and operation required"), b)
  else
    let raw := sessionId ++ ":" ++ operation ++ ":" ++ resource ++ ":" ++ token
    let actionId := "act_" ++ take (E.sha256 raw) 16
    let action : ApprovalAction τ := {
      actionId
      sessionId
      operation
      resource
      fingerprint := E.sha256 (actionId ++ ":" ++ operation ++ ":" ++ resource)
      state := .blocked
      reason := ""
      expiresAt := now + b.ttlSeconds }
    (.ok action, { b with actions := b.actions.set actionId action })

def expireIfNeeded (b : ApprovalBroker τ) (action : ApprovalAction τ) (now : τ) :
    ApprovalAction τ × ApprovalBroker τ :=
  if (action.state = .blocked ∨ action.state = .approved) ∧ action.expiresAt ≤ now then
    let expired := { action with state := .expired, reason := "Approval deadline expired" }
    (expired, { b with actions := b.actions.set action.actionId expired })
  else (action, b)

def resolveByHuman (b : ApprovalBroker τ) (actionId : String) (approved : Bool)
    (authToken reason : String) (now : τ) : Except Error (ApprovalAction τ) × ApprovalBroker τ :=
  if authToken ≠ b.secret then
    (.error (.permission "unauthorized caller cannot resolve human approval"), b)
  else match b.actions.get? actionId with
  | none => (.error (.key ("unknown action " ++ E.repr actionId)), b)
  | some action =>
    let (action, b) := b.expireIfNeeded action now
    if action.state ≠ .blocked then
      (.error (.permission ("action " ++ E.repr actionId ++ " is already resolved to " ++
        action.state.value ++ " and cannot be modified")), b)
    else if action.fingerprint ∈ b.consumedFingerprints then
      (.error (.permission "one-time approval already consumed (replay prevented)"), b)
    else
      let updated := { action with state := if approved then .approved else .rejected, reason }
      (.ok updated, { b with
        actions := b.actions.set actionId updated
        consumedFingerprints := action.fingerprint :: b.consumedFingerprints })

def getAction (b : ApprovalBroker τ) (actionId : String) (now : τ) :
    Option (ApprovalAction τ) × ApprovalBroker τ :=
  match b.actions.get? actionId with
  | none => (none, b)
  | some action => ((b.expireIfNeeded action now).map some id)

end ApprovalBroker

/-! ## The authority -/

structure TrustedApprovalAuthority (τ : Type) [LinearOrder τ] [NatCast τ] where
  broker : ApprovalBroker τ
  consumedActions : List String

variable (a : TrustedApprovalAuthority τ)

def requestCommandApproval [Add τ] (workerId taskId : String) (command : List String)
    (workspacePath token : String) (now : τ) :
    Except Error (ApprovalAction τ) × TrustedApprovalAuthority τ :=
  let resource := computeActionResource E command workspacePath taskId
  (a.broker.createAction E workerId "execute_command" resource token now).map id
    fun broker => { a with broker }

def approveByHuman (actionId authToken reason : String) (now : τ) :
    Except Error (ApprovalAction τ) × TrustedApprovalAuthority τ :=
  (a.broker.resolveByHuman E actionId true authToken reason now).map id
    fun broker => { a with broker }

def getAction (actionId : String) (now : τ) :
    Option (ApprovalAction τ) × TrustedApprovalAuthority τ :=
  if actionId = "" then (none, a)
  else (a.broker.getAction actionId now).map id fun broker => { a with broker }

def isActionForContext (action : ApprovalAction τ) (workerId taskId : String)
    (command : List String) (workspacePath : String) : Bool :=
  action.sessionId = workerId ∧
    action.resource = computeActionResource E command workspacePath taskId

def isActionConsumed (actionId : String) : Bool := actionId ∈ a.consumedActions

def verifyAndConsume (actionId workerId taskId : String) (command : List String)
    (workspacePath : String) (now : τ) : (Bool × String) × TrustedApprovalAuthority τ :=
  if actionId = "" then ((false, "DENIED: missing approval action_id"), a)
  else if actionId ∈ a.consumedActions then
    ((false, "DENIED: approval action already consumed (replay prevented)"), a)
  else
    let (found, broker) := a.broker.getAction actionId now
    let a := { a with broker }
    match found with
    | none => ((false, "DENIED: unknown approval action " ++ E.repr actionId), a)
    | some action =>
      if action.state ≠ .approved then
        ((false, "DENIED: action is in state " ++ action.state.value ++
          ", human approval required"), a)
      else if action.sessionId ≠ workerId then
        ((false, "DENIED: action session " ++ E.repr action.sessionId ++
          " does not match worker " ++ E.repr workerId), a)
      else if action.resource ≠ computeActionResource E command workspacePath taskId then
        ((false, "DENIED: command, task, or workspace mismatch with approved action"), a)
      else ((true, "APPROVED"), { a with consumedActions := actionId :: a.consumedActions })

/-- The clock is read twice: for the deadline of the action, and for that of the ticket. -/
def issueExecutionTicket [Add τ] (actionId workerId taskId : String) (command : List String)
    (workspacePath sessionSecret : String) (ttlSeconds now later : τ) :
    Answer τ × TrustedApprovalAuthority τ :=
  if ¬ ((0 : Nat) < ttlSeconds ∧ ttlSeconds ≤ (60 : Nat)) then
    ((false, "DENIED: ticket TTL must be a finite number in (0, 60] seconds", none), a)
  else
    let ((valid, reason), a) := verifyAndConsume E a actionId workerId taskId command
      workspacePath now
    if valid = false then ((false, reason, none), a)
    else
      let resource := computeActionResource E command workspacePath taskId
      ((true, "APPROVED", some (executionTicket E actionId workerId taskId resource sessionSecret
        (later + ttlSeconds))), a)

end Broker

/-! ## The check in the worker -/

section Binding

variable {F : Type} [FloatArith F] (E : Env F) (B : Builtins F)

/-- The text behind `compute_action_resource`, for values of any type. -/
def resourceText (command : List String) (workspacePath taskId : Json F) : String :=
  .ofList ((Json.obj [("command", .ofStrings command), ("workspace_path", workspacePath),
    ("task_id", taskId)]).sortKeys.print .default)

def fixedText : Int ⊕ F → String
  | .inl n => ((FloatArith.ofInt n).map E.fixed3).getD ""
  | .inr x => E.fixed3 x

def isAscii (s : String) : Bool := s.toList.all fun c => c.toNat < 128

def verifyMembers (now : F) (ticket : Dict String (Json F)) (sessionSecret workerId : String)
    (taskId : Json F) (command : List String) (workspacePath : Json F) : Bool × String :=
  let actionId := (ticket.get? "action_id").getD (.str "")
  let worker := (ticket.get? "worker_id").getD (.str "")
  let task := (ticket.get? "task_id").getD (.str "")
  let resource := (ticket.get? "resource").getD (.str "")
  let signature := ((ticket.get? "signature").getD (.str "")).text
  if actionId.truthy = false then (false, "DENIED: ticket missing action_id")
  else if worker.text ≠ some workerId then
    (false, "DENIED: ticket worker " ++ B.quote worker ++ " mismatch with " ++ E.repr workerId)
  else if task.pyEq taskId = false then
    (false, "DENIED: ticket task " ++ B.quote task ++ " mismatch with " ++ B.quote taskId)
  else match ((ticket.get? "expiry").getD (.int 0)).exactNumber, signature with
  | none, _ => (false, "DENIED: ticket expiry malformed")
  | _, none => (false, "DENIED: ticket signature malformed")
  | some expiry, some signature =>
    if signature.length ≠ 64 ∨ isAscii signature = false then
      (false, "DENIED: ticket signature malformed")
    else if atMost expiry now then (false, "DENIED: ticket expired")
    else if atMost expiry (now + (60 : Nat)) = false then
      (false, "DENIED: ticket expiry malformed or exceeds maximum TTL")
    else if resource.text ≠ some (E.sha256 (resourceText command workspacePath taskId)) then
      (false, "DENIED: ticket resource mismatch with command/task/workspace")
    else if signature ≠ E.hmac sessionSecret (B.format actionId ++ ":" ++ B.format worker ++ ":" ++
        B.format task ++ ":" ++ B.format resource ++ ":" ++ fixedText E expiry) then
      (false, "DENIED: ticket cryptographic signature invalid")
    else (true, "VALID")

def verifyTicketBinding (now : F) (ticket : Json F) (sessionSecret workerId : String)
    (taskId : Json F) (command : List String) (workspacePath : Json F) : Bool × String :=
  match ticket.members with
  | none => (false, "DENIED: invalid ticket format")
  | some ticket =>
    verifyMembers E B now ticket sessionSecret workerId taskId command workspacePath

theorem resourceText_str (command : List String) (path taskId : String) :
    resourceText command (.str path : Json F) (.str taskId) = commandText command path taskId := by
  have hsort (G : Type) : (Json.obj [("command", .ofStrings command), ("workspace_path", .str path),
      ("task_id", .str taskId)] : Json G).sortKeys =
      .obj [("command", .ofStrings command), ("task_id", .str taskId),
        ("workspace_path", .str path)] := by
    have hkeys : ¬ ("workspace_path" : String) ≤ "task_id" := by decide
    have hfirst : ("command" : String) ≤ "task_id" := by decide
    simp only [Json.sortKeys, sortMembers, sortKeys_ofStrings]
    simp [List.insertionSort, hkeys, hfirst]
  rw [resourceText, commandText, hsort, hsort]
  simp only [Json.print, printMembers, print_ofStrings]

structure Verifies (now : F) (ticket : Dict String (Json F)) (sessionSecret workerId : String)
    (taskId : Json F) (command : List String) (workspacePath : Json F) (expiry : Int ⊕ F)
    (signature : String) : Prop where
  actionId : ((ticket.get? "action_id").getD (.str "")).truthy = true
  worker : ((ticket.get? "worker_id").getD (.str "")).text = some workerId
  task : ((ticket.get? "task_id").getD (.str "")).pyEq taskId = true
  reads : ((ticket.get? "expiry").getD (.int 0)).exactNumber = some expiry
  carries : ((ticket.get? "signature").getD (.str "")).text = some signature
  shape : signature.length = 64 ∧ isAscii signature = true
  alive : atMost expiry now = false
  soon : atMost expiry (now + (60 : Nat)) = true
  resource : ((ticket.get? "resource").getD (.str "")).text =
    some (E.sha256 (resourceText command workspacePath taskId))
  signed : signature = E.hmac sessionSecret (B.format ((ticket.get? "action_id").getD (.str "")) ++
    ":" ++ B.format ((ticket.get? "worker_id").getD (.str "")) ++ ":" ++
    B.format ((ticket.get? "task_id").getD (.str "")) ++ ":" ++
    B.format ((ticket.get? "resource").getD (.str "")) ++ ":" ++ fixedText E expiry)

theorem verifyMembers_iff {now : F} {ticket : Dict String (Json F)}
    {sessionSecret workerId : String}
    {taskId : Json F} {command : List String} {workspacePath : Json F} :
    (verifyMembers E B now ticket sessionSecret workerId taskId command workspacePath).1 = true ↔
      ∃ expiry signature, Verifies E B now ticket sessionSecret workerId taskId command
        workspacePath expiry signature := by
  constructor
  · intro h
    rw [verifyMembers] at h
    split at h
    next => cases h
    next hactionId =>
    split at h
    next => cases h
    next hworker =>
    split at h
    next => cases h
    next htask =>
    split at h
    next => cases h
    next => cases h
    next expiry signature hexpiry hsignature =>
    split at h
    next => cases h
    next hshape =>
    split at h
    next => cases h
    next halive =>
    split at h
    next => cases h
    next hsoon =>
    split at h
    next => cases h
    next hresource =>
    split at h
    next => cases h
    next hsigned =>
    refine ⟨expiry, signature, ⟨by simpa using hactionId, by simpa using hworker,
      by simpa using htask, hexpiry, hsignature, ?_, by simpa using halive, by simpa using hsoon,
      by simpa using hresource, by simpa using hsigned⟩⟩
    simpa using hshape
  · rintro ⟨expiry, signature, h⟩
    simp only [verifyMembers, h.actionId, h.worker, h.task, h.reads, h.carries, h.alive, h.soon,
      h.resource, h.shape.1, h.shape.2]
    simp [← h.signed]

def ticketMembers (t : ExecutionTicket F) : Dict String (Json F) :=
  [("action_id", .str t.actionId), ("worker_id", .str t.workerId), ("task_id", .str t.taskId),
    ("resource", .str t.resource), ("expiry", .float t.expiry), ("signature", .str t.signature)]

end Binding

end SubagentBridge.TrustedAuthority
