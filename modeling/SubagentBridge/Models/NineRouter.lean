import SubagentBridge.Library.Fallible
import SubagentBridge.Library.Interleaving
import SubagentBridge.Library.JsonValues

/-! The client of the local model router, and the budget that its chat requests are charged to. -/

namespace SubagentBridge.Models

open Library

inductive RouterError
  | permission : String → RouterError
  | value : String → RouterError
  | type : String → RouterError
  | unknownCapability : String → RouterError
  | budgetExceeded : String → RouterError
  | unavailable : String → RouterError
  | protocol : String → RouterError
  | other : String → RouterError
  deriving DecidableEq

/-! ## Discovered models -/

structure ModelCapabilities where
  modelId : String
  toolCalls : Option Bool
  structuredOutput : Option Bool
  streaming : Option Bool
  inputCostKnown : Bool
  outputCostKnown : Bool
  deriving DecidableEq

structure ModelRoutingTable where
  models : Dict String ModelCapabilities
  keyed : ∀ p ∈ models, p.2.modelId = p.1

namespace ModelRoutingTable

def suits (m : ModelCapabilities) (coding structured streaming : Bool) : Bool :=
  !(coding && m.toolCalls ≠ some true) && !(structured && m.structuredOutput ≠ some true) &&
    !(streaming && m.streaming ≠ some true)

def select (t : ModelRoutingTable) (requestedIds : List String)
    (coding structured streaming : Bool) : Except RouterError ModelCapabilities :=
  match requestedIds.findSome? fun ident =>
      (t.models.get? ident).filter fun m => suits m coding structured streaming with
  | some m => .ok m
  | none => .error (.unknownCapability
      "no model with independently confirmed required capabilities")

end ModelRoutingTable

/-! ## The budget -/

structure CallBudget where
  requestsLeft : Int
  tokensLeft : Int
  deriving DecidableEq

namespace CallBudget

def create (requests tokens : Int) : Except RouterError CallBudget := do
  require (0 ≤ requests ∧ 0 ≤ tokens) (.value "nonnegative integer limits required")
  return ⟨requests, tokens⟩

def charge (b : CallBudget) (maxTokens : Int) : Except RouterError CallBudget := do
  require (0 < maxTokens) (.value "positive max_tokens required")
  require (¬ (b.requestsLeft < 1 ∨ b.tokensLeft < maxTokens))
    (.budgetExceeded "9Router request/token ceiling reached")
  return ⟨b.requestsLeft - 1, b.tokensLeft - maxTokens⟩

end CallBudget

/-! ## Chat requests -/

variable {F : Type}

abbrev Message (F : Type) := Dict String (Json F)

structure Payload (F : Type) where
  model : String
  messages : List (Message F)
  maxTokens : Int

/-- What a chat does to what it shares with others: charging the budget, sending a POST to
the router, and getting the reply to it. -/
inductive Op (F : Type)
  | charge (maxTokens : Int)
  | send (payload : Payload F)
  | receive

def Op.Ret : Op F → Type
  | .charge _ | .send _ => Unit
  | .receive => Json F

abbrev sig (F : Type) : Signature := ⟨Op F, Op.Ret⟩

abbrev Chat (F α : Type) := Proc (sig F) RouterError α

structure ChatReply where
  model : String
  text : String
  finishReason : String
  promptTokens : Option Int
  completionTokens : Option Int
  toolCallsPending : Bool
  usageClass : String
  deriving DecidableEq

/-- The arguments of `chat`, and the models that the client has discovered by then. -/
structure ChatCall (F : Type) where
  models : Option ModelRoutingTable
  modelId : String
  messages : List (Message F)
  maxTokens : Int
  providerTermsApproved : Bool
  maxRetries : Int

/-- Whether a message is refused; a role that cannot be hashed raises. -/
def refused (m : Message F) : Except RouterError Bool :=
  if ¬ ((∀ k ∈ m.keys, k = "role" ∨ k = "content") ∧ "role" ∈ m.keys ∧ "content" ∈ m.keys) then
    .ok true
  else match fetch m "role" with
    | .arr _ | .obj _ => .error (.type "unhashable type")
    | .str role =>
      if role = "system" ∨ role = "user" ∨ role = "assistant" then
        match fetch m "content" with
        | .str content => .ok (100000 < content.length)
        | _ => .ok true
      else .ok true
    | _ => .ok true

/-- `any(…)` over the messages: the first one that is refused ends the search. -/
def anyRefused : List (Message F) → Except RouterError Bool
  | [] => .ok false
  | m :: ms => do
    if ← refused m then return true
    anyRefused ms

def checkMessages (messages : List (Message F)) : Except RouterError Unit := do
  let error := RouterError.value "bounded text-only role/content messages required"
  require (messages ≠ [] ∧ messages.length ≤ 64) error
  if ← anyRefused messages then .error error

/-- `transport.request`: the POST goes out, and its reply comes back, unless either fails. -/
def request (payload : Payload F) : Chat F (Json F) := do
  Proc.op (S := sig F) (.send payload)
  Proc.op (S := sig F) .receive

/-- One turn of the retry loop: the reply, or the text of the exception that it catches. -/
def attempt (payload : Payload F) : Chat F (Json F ⊕ String) :=
  ((request payload).bind fun obj => .ret (.inl obj)).tryCatch fun
    | .unavailable text => .ret (.inr text)
    | e => .raise e

def attempts (payload : Payload F) :
    (left : Nat) → (lastExc : Option String) → Chat F (Json F × Option String)
  | 0, lastExc => (attempt payload).bind fun
    | .inl obj => .ret (obj, lastExc)
    | .inr text => .raise (.unavailable text)
  | left + 1, lastExc => (attempt payload).bind fun
    | .inl obj => .ret (obj, lastExc)
    | .inr text => attempts payload left (some text)

section Reply

variable [FloatInt F]

def count : Json F → Option Int
  | .int n => if 0 ≤ n then some n else none
  | _ => none

def parseReply (modelId : String) (obj : Json F) : Except RouterError ChatReply :=
  match (obj.members.map fun d => fetch d "choices") with
  | some (.arr [choice]) =>
    match choice.members, choice.members.bind fun d => (fetch d "message").members with
    | some choice, some message =>
      if (fetch message "tool_calls").truthy then
        .ok ⟨modelId, "", "TOOL_CALLS_BLOCKED", none, none, true, "unknown"⟩
      else match fetch message "content", fetch choice "finish_reason", fetch message "role" with
        | .str content, .str finish, .null => .ok (reply content finish)
        | .str content, .str finish, .str role =>
          if role = "assistant" then .ok (reply content finish)
          else .error (.protocol "invalid text assistant reply")
        | _, _, _ => .error (.protocol "invalid text assistant reply")
    | _, _ => .error (.protocol "missing assistant message")
  | _ => .error (.protocol "invalid chat choices")
where
  reply (content finish : String) : ChatReply :=
    let usage := (obj.members.bind fun d => (fetch d "usage").members).getD []
    let p := count (fetch usage "prompt_tokens")
    let c := count (fetch usage "completion_tokens")
    ⟨modelId, content, finish, p, c, false, if p.isSome ∧ c.isSome then "actual" else "unknown"⟩

def chat (q : ChatCall F) : Chat F ChatReply := do
  Proc.require (q.providerTermsApproved = true)
    (.permission "D-02 review is required before model invocation")
  Proc.require (0 ≤ q.maxRetries ∧ q.maxRetries ≤ 5)
    (.value "max_retries must be an integer between 0 and 5")
  let models ← match q.models with
    | some models => .ret models
    | none => .raise (.unknownCapability "run model discovery before sending requests")
  Proc.require (q.modelId ≠ "") (.unknownCapability "model not discovered")
  let selected ← Proc.ofExcept (models.select [q.modelId] false false false)
  Proc.require (selected.modelId = q.modelId) (.unknownCapability "model not discovered")
  Proc.ofExcept (checkMessages q.messages)
  Proc.op (S := sig F) (.charge q.maxTokens)
  let (obj, lastExc) ← attempts ⟨q.modelId, q.messages, q.maxTokens⟩ q.maxRetries.toNat none
  match obj, lastExc with
  | .null, some text => .raise (.unavailable text)
  | obj, _ => Proc.ofExcept (parseReply q.modelId obj)

end Reply

/-! ## Callers that share a budget -/

/-- The budget, and the `max_tokens` of the POST requests that were sent. -/
structure Shared where
  budget : CallBudget
  posts : List Int
  deriving DecidableEq

/-- What the transport does at this moment: whether a POST goes out, and what comes back. -/
structure World (F : Type) where
  sent : Except RouterError Unit
  reply : Except RouterError (Json F)

def exec : (o : Op F) → World F → Shared → Except RouterError o.Ret × Shared
  | .charge maxTokens, _, s => match s.budget.charge maxTokens with
    | .ok budget => (.ok (), { s with budget })
    | .error e => (.error e, s)
  | .send payload, w, s => match w.sent with
    | .ok _ => (.ok (), { s with posts := s.posts ++ [payload.maxTokens] })
    | .error e => (.error e, s)
  | .receive, w, s => (w.reply, s)

variable (F) in
abbrev callers [FloatInt F] : Machine where
  sig := sig F
  Err := RouterError
  Res := ChatReply
  Request := ChatCall F
  State := Shared
  World := World F
  possible _ _ _ := true
  exec := exec
  body := chat

end SubagentBridge.Models
