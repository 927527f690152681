import SubagentBridge.Library.Interleaving
import SubagentBridge.Library.JsonLaws
import SubagentBridge.Storage.AuditLedger
import Mathlib.Data.Nat.Cast.Defs
import Mathlib.Logic.Function.Basic
import Mathlib.Order.Defs.LinearOrder

/-! The operator approval boundary: decisions in one SQLite table, shared by any number of
boundary instances, each of which works on its own copy in memory. -/

namespace SubagentBridge.OperatorBoundary

open Library

inductive OperatorDecision | allowOnce | deny | answerQuestions
  deriving DecidableEq

def OperatorDecision.value : OperatorDecision → String
  | .allowOnce => "ALLOW_ONCE"
  | .deny => "DENY"
  | .answerQuestions => "ANSWER_QUESTIONS"

inductive ApprovalState | blocked | approved | denied | questionPending | expired | consumed
  deriving DecidableEq

def ApprovalState.value : ApprovalState → String
  | .blocked => "BLOCKED"
  | .approved => "APPROVED"
  | .denied => "DENIED"
  | .questionPending => "QUESTION_PENDING"
  | .expired => "EXPIRED"
  | .consumed => "CONSUMED"

def ApprovalState.active : ApprovalState → Bool
  | .blocked | .approved | .questionPending => true
  | .denied | .expired | .consumed => false

def permitted : ApprovalState → List ApprovalState
  | .blocked => [.questionPending, .approved, .denied, .expired]
  | .questionPending => [.questionPending, .approved, .denied, .expired]
  | .approved => [.expired]
  | .denied | .expired | .consumed => []

inductive Error
  | value : String → Error
  | permission : String → Error
  | key : String → Error
  | os
  | verifier
  | integrity
  | sqlite
  | ledger : AuditLedger.LedgerError → Error
  deriving DecidableEq

structure OperatorIdentity where
  operatorId : String
  role : String
  channel : String
  authToken : String
  filled : operatorId ≠ "" ∧ role ≠ "" ∧ channel ≠ "" ∧ authToken ≠ ""
  authorized : role ∉ ["worker", "agent", "subagent", "untrusted"]
  deriving DecidableEq

section Records

variable {τ : Type}

structure OperatorApprovalRequest (τ : Type) where
  actionId : String
  sessionId : String
  taskId : String
  command : List String
  workspacePath : String
  nonce : String
  createdAt : τ
  expiresAt : τ
  state : ApprovalState
  decision : Option OperatorDecision
  operatorId : String
  operatorRole : String
  operatorChannel : String
  operatorNotes : String
  questions : List String
  answers : Dict String String
  operatorVerified : Bool
  actionBoundVerified : Bool
  deriving DecidableEq

/-- A row of `operator_approvals`; a column that may be `NULL` is an `Option`. -/
structure Row (τ : Type) where
  actionId : String
  sessionId : String
  taskId : String
  commandJson : String
  workspacePath : String
  nonce : String
  createdAt : τ
  expiresAt : τ
  state : ApprovalState
  decision : Option OperatorDecision
  operatorId : Option String
  operatorRole : Option String
  operatorChannel : Option String
  operatorNotes : Option String
  questionsJson : Option String
  answersJson : Option String
  operatorVerified : Bool
  actionBoundVerified : Bool
  deriving DecidableEq

def dumpList (xs : List String) : String := (Json.ofStrings xs : Json Empty).dumps

def dumpDict (d : Dict String String) : String := (Json.ofDict d : Json Empty).dumps

def loadList (s : String) : Option (List String) :=
  (Json.loads s : Option (Json Empty)).bind Json.toStrings

def loadDict (s : String) : Option (Dict String String) :=
  (Json.loads s : Option (Json Empty)).bind Json.toDict

def OperatorApprovalRequest.toRow (req : OperatorApprovalRequest τ) : Row τ where
  actionId := req.actionId
  sessionId := req.sessionId
  taskId := req.taskId
  commandJson := dumpList req.command
  workspacePath := req.workspacePath
  nonce := req.nonce
  createdAt := req.createdAt
  expiresAt := req.expiresAt
  state := req.state
  decision := req.decision
  operatorId := some req.operatorId
  operatorRole := some req.operatorRole
  operatorChannel := some req.operatorChannel
  operatorNotes := some req.operatorNotes
  questionsJson := some (dumpList req.questions)
  answersJson := some (dumpDict req.answers)
  operatorVerified := req.operatorVerified
  actionBoundVerified := req.actionBoundVerified

/-- The `WHERE` clause of the compare-and-swap, with its `COALESCE`s. -/
def Row.matchesSnapshot (r : Row τ) (expected : OperatorApprovalRequest τ) : Bool :=
  r.actionId = expected.actionId && r.nonce = expected.nonce &&
  r.sessionId = expected.sessionId && r.taskId = expected.taskId &&
  r.commandJson = dumpList expected.command && r.workspacePath = expected.workspacePath &&
  r.state = expected.state &&
  (r.decision.map (·.value)).getD "" = (expected.decision.map (·.value)).getD "" &&
  r.operatorId.getD "" = expected.operatorId && r.operatorRole.getD "" = expected.operatorRole &&
  r.operatorChannel.getD "" = expected.operatorChannel &&
  r.operatorNotes.getD "" = expected.operatorNotes &&
  r.questionsJson.getD "[]" = dumpList expected.questions &&
  r.answersJson.getD "{}" = dumpDict expected.answers &&
  r.operatorVerified = expected.operatorVerified &&
  r.actionBoundVerified = expected.actionBoundVerified

def Row.assign (r : Row τ) (req : OperatorApprovalRequest τ) : Row τ :=
  { r with
    state := req.state
    decision := req.decision
    operatorId := some req.operatorId
    operatorRole := some req.operatorRole
    operatorChannel := some req.operatorChannel
    operatorNotes := some req.operatorNotes
    questionsJson := some (dumpList req.questions)
    answersJson := some (dumpDict req.answers)
    operatorVerified := req.operatorVerified
    actionBoundVerified := req.actionBoundVerified }

structure Ticket (τ : Type) where
  actionId : String
  sessionId : String
  taskId : String
  commandDigest : String
  nonce : String
  expiry : τ
  signature : String
  deriving DecidableEq

/-! ## Operations -/

inductive Op (τ : Type)
  | now
  | tokenHex
  | resolvePath (path : String)
  | verifyOperator (self : Nat) (operator : OperatorIdentity)
  | verifyDecision (self : Nat) (req : OperatorApprovalRequest τ) (decision : OperatorDecision)
      (operator : OperatorIdentity)
  | getRequest (self : Nat) (actionId : String)
  | allRequests (self : Nat)
  | putRequest (self : Nat) (req : OperatorApprovalRequest τ)
  | nonceConsumed (self : Nat) (nonce : String)
  | addConsumed (self : Nat) (nonce : String)
  | insertRow (req : OperatorApprovalRequest τ)
  | updateRow (req expected : OperatorApprovalRequest τ)
  | consumeRow (actionId nonce : String) (bound : Bool) (now : τ)
  | selectRows
  | appendEvent (ledger : Nat) (key kind : String) (payload : AuditLedger.Value τ)

abbrev Op.Ret : Op τ → Type
  | .now => τ
  | .tokenHex | .resolvePath _ => String
  | .verifyOperator _ _ | .verifyDecision _ _ _ _ | .nonceConsumed _ _ => Bool
  | .getRequest _ _ => Option (OperatorApprovalRequest τ)
  | .allRequests _ => List (OperatorApprovalRequest τ)
  | .putRequest _ _ | .addConsumed _ _ | .insertRow _ | .appendEvent _ _ _ _ => Unit
  | .updateRow _ _ | .consumeRow _ _ _ _ => Nat
  | .selectRows => List (Row τ)

variable (τ) in
abbrev sig : Signature := ⟨Op τ, Op.Ret⟩

abbrev Call (τ α : Type) := Proc (sig τ) Error α

def perform (o : Op τ) : Call τ o.Ret := Proc.op (S := sig τ) o

end Records

section Boundary

variable {τ : Type} [LinearOrder τ] [NatCast τ]

structure BoundaryConfig (τ : Type) [LinearOrder τ] [NatCast τ] where
  defaultTtl : τ
  ttl_bound : (0 : Nat) < defaultTtl ∧ defaultTtl ≤ (86400 : Nat)
  operatorVerifier : Bool
  decisionVerifier : Bool
  ledger : Option Nat
  secret : String

structure Env (τ : Type) [LinearOrder τ] [NatCast τ] where
  conf : Nat → BoundaryConfig τ
  sha256 : String → String
  hmac : String → String → String
  repr : String → String
  fixed3 : τ → String

/-! ## The shared state -/

structure State (τ : Type) where
  rows : List (Row τ)
  requests : Nat → Dict String (OperatorApprovalRequest τ)
  consumedNonces : Nat → List String
  ledgers : Nat → AuditLedger.Db
  minted : List String

def initial : State τ := ⟨[], fun _ => [], fun _ => [], fun _ => .empty, []⟩

/-- What the environment answers: clock, randomness, file system, verifiers (`none`
raises), and whether the operation fails. -/
structure World (τ : Type) where
  time : τ
  token : String
  path : String
  verdict : Option Bool
  fails : Bool

def possible : Op τ → World τ → State τ → Bool
  | .tokenHex, w, s => w.token ∉ s.minted
  | _, _, _ => true

def State.insertRow (s : State τ) (req : OperatorApprovalRequest τ) :
    Except Error Unit × State τ :=
  if ∃ r ∈ s.rows, r.actionId = req.actionId ∨ r.nonce = req.nonce then (.error .integrity, s)
  else (.ok (), { s with rows := s.rows ++ [req.toRow] })

def State.updateRow (s : State τ) (req expected : OperatorApprovalRequest τ) : Nat × State τ :=
  (s.rows.countP (·.matchesSnapshot expected),
    { s with rows := s.rows.map fun r => if r.matchesSnapshot expected then r.assign req else r })

def Row.consumable (r : Row τ) (actionId nonce : String) (bound : Bool) (now : τ) : Bool :=
  r.actionId = actionId && r.state = .approved && r.nonce = nonce && r.operatorVerified &&
    (!bound || r.actionBoundVerified) && now < r.expiresAt

def State.consumeRow (s : State τ) (actionId nonce : String) (bound : Bool) (now : τ) :
    Nat × State τ :=
  (s.rows.countP (·.consumable actionId nonce bound now),
    { s with rows := s.rows.map fun r =>
        if r.consumable actionId nonce bound now then { r with state := .consumed } else r })

def State.putRequest (s : State τ) (self : Nat) (req : OperatorApprovalRequest τ) : State τ :=
  { s with requests := Function.update s.requests self ((s.requests self).set req.actionId req) }

def State.addConsumed (s : State τ) (self : Nat) (nonce : String) : State τ :=
  let nonces := nonce :: s.consumedNonces self
  { s with consumedNonces := Function.update s.consumedNonces self nonces }

variable (E : Env τ)

def State.appendEvent [FloatText τ] (s : State τ) (ledger : Nat) (key kind : String)
    (payload : AuditLedger.Value τ) : Except Error Unit × State τ :=
  let (r, db) := AuditLedger.appendOnce E.sha256 "operator_approvals" key kind payload
    (s.ledgers ledger)
  ((r.map fun _ => ()).mapError .ledger, { s with ledgers := Function.update s.ledgers ledger db })

def Op.failure : Op τ → Option Error
  | .resolvePath _ => some .os
  | .insertRow _ | .updateRow _ _ | .consumeRow _ _ _ _ | .selectRows => some .sqlite
  | .appendEvent _ _ _ _ => some (.ledger .operational)
  | _ => none

def succeed [FloatText τ] : (o : Op τ) → World τ → State τ → Except Error o.Ret × State τ
  | .now, w, s => (.ok w.time, s)
  | .tokenHex, w, s => (.ok w.token, { s with minted := w.token :: s.minted })
  | .resolvePath _, w, s => (.ok w.path, s)
  | .verifyOperator _ _, w, s => ((w.verdict.map .ok).getD (.error .verifier), s)
  | .verifyDecision _ _ _ _, w, s => ((w.verdict.map .ok).getD (.error .verifier), s)
  | .getRequest self actionId, _, s => (.ok ((s.requests self).get? actionId), s)
  | .allRequests self, _, s => (.ok ((s.requests self).map (·.2)), s)
  | .putRequest self req, _, s => (.ok (), s.putRequest self req)
  | .nonceConsumed self nonce, _, s => (.ok (decide (nonce ∈ s.consumedNonces self)), s)
  | .addConsumed self nonce, _, s => (.ok (), s.addConsumed self nonce)
  | .insertRow req, _, s => s.insertRow req
  | .updateRow req expected, _, s => (s.updateRow req expected).map .ok id
  | .consumeRow actionId nonce bound now, _, s =>
    (s.consumeRow actionId nonce bound now).map .ok id
  | .selectRows, _, s => (.ok s.rows, s)
  | .appendEvent ledger key kind payload, _, s => s.appendEvent E ledger key kind payload

def exec [FloatText τ] (o : Op τ) (w : World τ) (s : State τ) : Except Error o.Ret × State τ :=
  match w.fails, o.failure with
  | true, some e => (.error e, s)
  | _, _ => succeed E o w s

/-! ## The methods -/

def commandText (command : List String) (path taskId : String) : String :=
  .ofList ((Json.obj [("command", .ofStrings command), ("workspace_path", .str path),
    ("task_id", .str taskId)] : Json Empty).sortKeys.print .default)

def canonicalCommandDigest (command : List String) (workspacePath taskId : String) :
    Call τ String := do
  let path ← perform (.resolvePath workspacePath)
  return E.sha256 (commandText command path taskId)

def challengeText [FloatText τ] (commandDigest : String) (request : OperatorApprovalRequest τ)
    (decision : OperatorDecision) : String :=
  .ofList ((Json.obj [("domain", .str "SIMPUL_OPERATOR_APPROVAL_V1"),
    ("action_id", .str request.actionId), ("session_id", .str request.sessionId),
    ("task_id", .str request.taskId), ("nonce", .str request.nonce),
    ("command_digest", .str commandDigest), ("workspace_path", .str request.workspacePath),
    ("created_at", .float request.createdAt), ("expires_at", .float request.expiresAt),
    ("decision", .str decision.value)] : Json τ).sortKeys.print ⟨false, true⟩)

def operatorDecisionChallenge [FloatText τ] (request : OperatorApprovalRequest τ)
    (decision : OperatorDecision) : Call τ String := do
  let digest ← canonicalCommandDigest E request.command request.workspacePath request.taskId
  return E.sha256 (challengeText digest request decision)

def insertRequest (req : OperatorApprovalRequest τ) : Call τ Unit :=
  (perform (.insertRow req)).tryCatch fun
    | .integrity =>
      .raise (.permission "DENIED: stale or terminal approval cannot be inserted again")
    | e => .raise e

def swapRequest (req expected : OperatorApprovalRequest τ) : Call τ Unit :=
  if req.actionId ≠ expected.actionId ∨ req.sessionId ≠ expected.sessionId ∨
      req.taskId ≠ expected.taskId ∨ req.command ≠ expected.command ∨
      req.workspacePath ≠ expected.workspacePath ∨ req.nonce ≠ expected.nonce ∨
      req.createdAt ≠ expected.createdAt ∨ req.expiresAt ≠ expected.expiresAt then
    .raise (.permission "DENIED: approval context changed during transition")
  else if req.state ∉ permitted expected.state then
    .raise (.permission "DENIED: stale or terminal approval state transition")
  else do
    let rowcount ← perform (.updateRow req expected)
    Proc.require (rowcount = (1 : Nat)) (.permission
      "DENIED: stale operator decision or terminal approval changed in another process")

def persistRequest (req : OperatorApprovalRequest τ) :
    Option (OperatorApprovalRequest τ) → Call τ Unit
  | none => insertRequest req
  | some expected => swapRequest req expected

def orText (s : Option String) (default : String) : String :=
  if s.getD "" = "" then default else s.getD ""

def parsed {α : Type} : Option α → Except Error α
  | none => .error (.value "JSONDecodeError")
  | some a => .ok a

def Row.load (r : Row τ) (now : τ) : Except Error (OperatorApprovalRequest τ) := do
  let command ← parsed (loadList r.commandJson)
  let questions ← parsed (loadList (orText r.questionsJson "[]"))
  let answers ← parsed (loadDict (orText r.answersJson "{}"))
  return {
    actionId := r.actionId
    sessionId := r.sessionId
    taskId := r.taskId
    command
    workspacePath := r.workspacePath
    nonce := r.nonce
    createdAt := r.createdAt
    expiresAt := r.expiresAt
    state := if r.state.active && r.expiresAt ≤ now then .expired else r.state
    decision := r.decision
    operatorId := r.operatorId.getD ""
    operatorRole := r.operatorRole.getD ""
    operatorChannel := r.operatorChannel.getD ""
    operatorNotes := r.operatorNotes.getD ""
    questions
    answers
    operatorVerified := r.operatorVerified
    actionBoundVerified := r.actionBoundVerified }

def rehydrateRow (self : Nat) (now : τ) (r : Row τ) : Call τ Unit := do
  let req ← Proc.ofExcept (r.load now)
  perform (.putRequest self req)
  if req.state = .consumed then perform (.addConsumed self req.nonce) else return ()

def rehydrateFromDisk (self : Nat) : Call τ Nat := do
  let now ← perform .now
  let rows ← perform .selectRows
  Proc.forEach rows (rehydrateRow self now)
  return rows.length

def expireIfDue (self : Nat) (req : OperatorApprovalRequest τ) (now : τ) :
    Call τ (OperatorApprovalRequest τ) :=
  if now < req.expiresAt ∨ req.state.active = false then return req
  else do
    let expired := { req with state := .expired }
    let persisted ← ((persistRequest expired (some req)).bind fun _ => return true).tryCatch fun
      | .permission _ => return false
      | e => .raise e
    if persisted then
      perform (.putRequest self expired)
      return expired
    else
      let _ ← rehydrateFromDisk self
      let current ← perform (.getRequest self req.actionId)
      return current.getD expired

def appendEvent (self : Nat) (key kind : String)
    (payload : List (Option String × AuditLedger.Value τ)) : Call τ Unit :=
  match (E.conf self).ledger with
  | none => .ret ()
  | some ledger => perform (.appendEvent ledger key kind (.mapping payload))

def createRequest [Add τ] (self : Nat) (sessionId taskId : String) (command : List String)
    (workspacePath : String) (questions : List String) (ttlSeconds : Option τ) :
    Call τ (OperatorApprovalRequest τ) :=
  let ttl := ttlSeconds.getD (E.conf self).defaultTtl
  if sessionId = "" ∨ taskId = "" ∨ command = [] ∨ workspacePath = "" then
    .raise (.value "session_id, task_id, command, and workspace_path are required")
  else if ¬ ((0 : Nat) < ttl ∧ ttl ≤ (86400 : Nat)) then
    .raise (.value "ttl_seconds must be in (0, 86400]")
  else do
    let now ← perform .now
    let nonce ← perform .tokenHex
    let digest ← canonicalCommandDigest E command workspacePath taskId
    let rawId := sessionId ++ ":" ++ taskId ++ ":" ++ digest ++ ":" ++ nonce
    let actionId := "act_" ++ .ofList ((E.sha256 rawId).toList.take 16)
    let path ← perform (.resolvePath workspacePath)
    let req : OperatorApprovalRequest τ := {
      actionId
      sessionId
      taskId
      command
      workspacePath := path
      nonce
      createdAt := now
      expiresAt := now + ttl
      state := .blocked
      decision := none
      operatorId := ""
      operatorRole := ""
      operatorChannel := ""
      operatorNotes := ""
      questions
      answers := []
      operatorVerified := false
      actionBoundVerified := false }
    perform (.putRequest self req)
    persistRequest req none
    appendEvent E self actionId "REQUEST_CREATED" [
      (some "action_id", .str actionId), (some "session_id", .str sessionId),
      (some "task_id", .str taskId), (some "command_digest", .str digest),
      (some "nonce", .str nonce), (some "expires_at", .float (some req.expiresAt))]
    return req

def OperatorDecision.target : OperatorDecision → ApprovalState
  | .allowOnce => .approved
  | .deny => .denied
  | .answerQuestions => .questionPending

def OperatorApprovalRequest.resolved (req : OperatorApprovalRequest τ) (bound : Bool)
    (decision : OperatorDecision) (operator : OperatorIdentity) (notes : String)
    (answers : Dict String String) : OperatorApprovalRequest τ :=
  { req with
    decision := some decision
    operatorId := operator.operatorId
    operatorRole := operator.role
    operatorChannel := operator.channel
    operatorNotes := notes
    operatorVerified := true
    actionBoundVerified := bound
    state := decision.target
    answers := if decision = .answerQuestions then req.answers.update answers else req.answers }

/-- Asks a verifier; an exception in it counts as a refusal. -/
def demand (verdict : Call τ Bool) (failed refused : String) : Call τ Unit := do
  let verified ← verdict.tryCatch fun _ => .raise (.permission failed)
  Proc.require (verified = true) (.permission refused)

def demandProof (self : Nat) (req : OperatorApprovalRequest τ) (decision : OperatorDecision)
    (operator : OperatorIdentity) : Call τ Unit :=
  if (E.conf self).decisionVerifier then
    demand (perform (.verifyDecision self req decision operator))
      "DENIED: action-bound decision verification failed"
      "DENIED: action-specific operator proof invalid"
  else .ret ()

/-- What `resolve_by_operator` does with a snapshot that may be resolved. -/
def resolveRequest (self : Nat) (actionId : String) (req : OperatorApprovalRequest τ)
    (decision : OperatorDecision) (operator : OperatorIdentity) (notes : String)
    (answers : Dict String String) : Call τ (OperatorApprovalRequest τ) := do
  demandProof E self req decision operator
  let updated := req.resolved (E.conf self).decisionVerifier decision operator notes answers
  appendEvent E self
    (actionId ++ ":decision:" ++ decision.value ++ ":" ++ toString updated.answers.length)
    "OPERATOR_DECISION" [
      (some "action_id", .str actionId), (some "decision", .str decision.value),
      (some "operator_id", .str operator.operatorId), (some "operator_role", .str operator.role),
      (some "operator_channel", .str operator.channel),
      (some "state", .str updated.state.value), (some "notes", .str notes),
      (some "answers", .mapping (updated.answers.map fun p => (some p.1, .str p.2)))]
  persistRequest updated (some req)
  perform (.putRequest self updated)
  return updated

def resolveByOperator (self : Nat) (actionId : String) (decision : OperatorDecision)
    (operator : OperatorIdentity) (notes : String) (answers : Dict String String) :
    Call τ (OperatorApprovalRequest τ) := do
  Proc.require ((E.conf self).operatorVerifier = true)
    (.permission "DENIED: independently authenticated operator verifier is not configured")
  demand (perform (.verifyOperator self operator))
    "DENIED: operator identity verification failed"
    "DENIED: operator identity has not been authenticated"
  Proc.require (operator.role ∈ ["security_lead", "security_admin", "operator"])
    (.permission "DENIED: authenticated operator role cannot resolve approvals")
  let now ← perform .now
  let found ← perform (.getRequest self actionId)
  match found with
  | none => .raise (.key ("unknown action_id " ++ E.repr actionId))
  | some req =>
    if (req.state = .blocked ∨ req.state = .questionPending) ∧ req.expiresAt ≤ now then do
      let _ ← expireIfDue self req now
      .raise (.permission "Approval request has expired")
    else if req.state ≠ .blocked ∧ req.state ≠ .questionPending then
      .raise (.permission ("Action " ++ E.repr actionId ++ " cannot be resolved in state " ++
        req.state.value))
    else do
      let used ← perform (.nonceConsumed self req.nonce)
      Proc.require (used = false)
        (.permission "Action nonce already consumed (replay prevented)")
      resolveRequest E self actionId req decision operator notes answers

/-- What `consume_for_execution` answers: granted, reason, ticket. -/
abbrev Verdict (τ : Type) := Bool × String × Option (Ticket τ)

def denied (reason : String) : Call τ (Verdict τ) := .ret (false, reason, none)

/-- The end of `consume_for_execution`, after the row was consumed. -/
def issueTicket (self : Nat) (req : OperatorApprovalRequest τ)
    (actionId sessionId taskId digest : String) (expiry : τ) : Call τ (Verdict τ) := do
  perform (.putRequest self { req with state := .consumed })
  perform (.addConsumed self req.nonce)
  let payload := actionId ++ ":" ++ sessionId ++ ":" ++ taskId ++ ":" ++ digest ++
    ":" ++ req.nonce ++ ":" ++ E.fixed3 expiry
  let ticket : Ticket τ := {
    actionId
    sessionId
    taskId
    commandDigest := digest
    nonce := req.nonce
    expiry
    signature := E.hmac (E.conf self).secret payload }
  appendEvent E self (actionId ++ ":consume") "APPROVAL_CONSUMED" [
    (some "action_id", .str actionId), (some "session_id", .str sessionId),
    (some "task_id", .str taskId), (some "nonce", .str req.nonce)]
  return (true, "APPROVED", some ticket)

/-- The row count of the consuming `UPDATE`, if the store is there. -/
def consumeRow (self : Nat) (req : OperatorApprovalRequest τ) (now : τ) : Call τ (Option Nat) :=
  ((perform (.consumeRow req.actionId req.nonce (E.conf self).decisionVerifier now)).bind
    fun n => .ret (some n)).tryCatch fun _ => .ret none

/-- The end of `consume_for_execution` for an approved snapshot in its lifetime. -/
def consumeApproved [Add τ] (self : Nat) (req : OperatorApprovalRequest τ)
    (actionId sessionId taskId : String) (command : List String) (workspacePath : String)
    (ticketTtlSeconds now : τ) : Call τ (Verdict τ) := do
  let used ← perform (.nonceConsumed self req.nonce)
  if used = true then denied "DENIED: approval already consumed (replay prevented)"
  else if req.sessionId ≠ sessionId then
    denied ("DENIED: session " ++ E.repr req.sessionId ++ " mismatch with " ++ E.repr sessionId)
  else if req.taskId ≠ taskId then
    denied ("DENIED: task " ++ E.repr req.taskId ++ " mismatch with " ++ E.repr taskId)
  else do
    let expectedDigest ← canonicalCommandDigest E req.command req.workspacePath req.taskId
    let actualDigest ← canonicalCommandDigest E command workspacePath taskId
    if expectedDigest ≠ actualDigest then
      denied "DENIED: command or workspace mismatch with approved action"
    else do
      match ← consumeRow E self req now with
      | none => denied "DENIED: durable approval store unavailable"
      | some rowcount =>
        if rowcount ≠ 1 then denied "DENIED: durable approval already consumed or changed"
        else issueTicket E self req actionId sessionId taskId actualDigest (now + ticketTtlSeconds)

def consumeForExecution [Add τ] (self : Nat) (actionId sessionId taskId : String)
    (command : List String) (workspacePath : String) (ticketTtlSeconds : τ) :
    Call τ (Verdict τ) :=
  if ¬ ((0 : Nat) < ticketTtlSeconds ∧ ticketTtlSeconds ≤ (60 : Nat)) then
    denied "DENIED: ticket TTL must be within (0, 60] seconds"
  else do
    let now ← perform .now
    let found ← perform (.getRequest self actionId)
    match found with
    | none => denied ("DENIED: unknown action " ++ E.repr actionId)
    | some req =>
      if req.expiresAt ≤ now then do
        let _ ← expireIfDue self req now
        denied "DENIED: approval expired"
      else if req.state ≠ .approved then
        denied ("DENIED: action is in state " ++ req.state.value ++ ", not APPROVED")
      else if req.operatorVerified = false then
        denied "DENIED: approval has no verified operator provenance"
      else if (E.conf self).operatorVerifier = false then
        denied "DENIED: operator authentication boundary is unavailable"
      else if (E.conf self).decisionVerifier = true ∧ req.actionBoundVerified = false then
        denied "DENIED: approval has no action-bound decision provenance"
      else
        consumeApproved E self req actionId sessionId taskId command workspacePath
          ticketTtlSeconds now

def getRequest (self : Nat) (actionId : String) : Call τ (Option (OperatorApprovalRequest τ)) := do
  let found ← perform (.getRequest self actionId)
  match found with
  | none => return none
  | some req =>
    let now ← perform .now
    let req ← expireIfDue self req now
    return some req

def listPendingFrom (self : Nat) (now : τ) :
    List (OperatorApprovalRequest τ) → Call τ (List (OperatorApprovalRequest τ))
  | [] => return []
  | req :: reqs => do
    let current ← expireIfDue self req now
    let pending ← listPendingFrom self now reqs
    return if current.state = .blocked ∨ current.state = .questionPending then current :: pending
      else pending

def listPending (self : Nat) : Call τ (List (OperatorApprovalRequest τ)) := do
  let now ← perform .now
  let reqs ← perform (.allRequests self)
  listPendingFrom self now reqs

/-! ## The machine -/

inductive Request (τ : Type)
  | createRequest (self : Nat) (sessionId taskId : String) (command : List String)
      (workspacePath : String) (questions : List String) (ttlSeconds : Option τ)
  | resolveByOperator (self : Nat) (actionId : String) (decision : OperatorDecision)
      (operator : OperatorIdentity) (notes : String) (answers : Dict String String)
  | consumeForExecution (self : Nat) (actionId sessionId taskId : String) (command : List String)
      (workspacePath : String) (ticketTtlSeconds : τ)
  | rehydrateFromDisk (self : Nat)
  | getRequest (self : Nat) (actionId : String)
  | listPending (self : Nat)
  deriving DecidableEq

inductive Response (τ : Type)
  | request (req : OperatorApprovalRequest τ)
  | found (req : Option (OperatorApprovalRequest τ))
  | pending (reqs : List (OperatorApprovalRequest τ))
  | rehydrated (n : Nat)
  | verdict (v : Verdict τ)
  deriving DecidableEq

def body [Add τ] : Request τ → Call τ (Response τ)
  | .createRequest self sessionId taskId command workspacePath questions ttlSeconds => do
    return .request
      (← createRequest E self sessionId taskId command workspacePath questions ttlSeconds)
  | .resolveByOperator self actionId decision operator notes answers => do
    return .request (← resolveByOperator E self actionId decision operator notes answers)
  | .consumeForExecution self actionId sessionId taskId command workspacePath ticketTtlSeconds => do
    return .verdict (← consumeForExecution E self actionId sessionId taskId command workspacePath
      ticketTtlSeconds)
  | .rehydrateFromDisk self => do return .rehydrated (← rehydrateFromDisk self)
  | .getRequest self actionId => do return .found (← getRequest self actionId)
  | .listPending self => do return .pending (← listPending self)

abbrev machine [Add τ] [FloatText τ] : Machine where
  sig := sig τ
  Err := Error
  Res := Response τ
  Request := Request τ
  State := State τ
  World := World τ
  possible := possible
  exec := exec E
  body := body E

end Boundary

end SubagentBridge.OperatorBoundary
