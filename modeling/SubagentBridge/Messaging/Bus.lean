import SubagentBridge.Domain.Registry
import SubagentBridge.Library.Interleaving
import SubagentBridge.Library.JsonValues
import SubagentBridge.Storage.AuditLedger

/-! The durable message bus: messages and acknowledgements as events of one stream of the audit
ledger.  The bus instances on a stream share nothing else, and keep nothing themselves. -/

namespace SubagentBridge.Messaging

open Library AuditLedger
open Domain (Message)

inductive Error
  | value : String → Error
  | permission : String → Error
  | key : String → Error
  | ledger : LedgerError → Error
  deriving DecidableEq

section Operations

variable {F : Type}

inductive Op (F : Type)
  | read
  | appendOnce (key kind : String) (payload : List (Option String × Value F))

abbrev Op.Ret : Op F → Type
  | .read => List (AuditEvent F)
  | .appendOnce _ _ _ => Bool

variable (F) in
abbrev sig : Signature := ⟨Op F, Op.Ret⟩

abbrev Call (F α : Type) := Proc (sig F) Error α

def perform (o : Op F) : Call F o.Ret := Proc.op (S := sig F) o

end Operations

structure DurableMessageBus where
  stream : String
  named : stream ≠ ""

section Methods

variable {F : Type}

def asdict (m : Message) : List (Option String × Value F) :=
  [(some "message_id", .str m.messageId), (some "from_principal", .str m.fromPrincipal),
    (some "to_principal", .str m.toPrincipal), (some "task_id", .str m.taskId),
    (some "dispatch_id", .str m.dispatchId), (some "payload", .str m.payload)]

def messageKey (messageId : String) : String := "message:" ++ messageId

def ackKey (messageId recipientId : String) : String :=
  "ack:" ++ toString messageId.length ++ ":" ++ messageId ++ ":" ++ recipientId

def ackPayload (messageId recipientId : String) : List (Option String × Value F) :=
  [(some "message_id", .str messageId), (some "recipient_id", .str recipientId)]

def enqueue (message : Message) (activeTaskId activeDispatchId : String) : Call F Bool := do
  Proc.require (message.taskId = activeTaskId ∧ message.dispatchId = activeDispatchId)
    (.permission "cross-dispatch or stale message denied")
  Proc.require (message.fromPrincipal ≠ "*" ∧ message.toPrincipal ≠ "*")
    (.permission "worker broadcast not available")
  Proc.require (message.payload.utf8ByteSize ≤ 65536)
    (.value "message payload must be bounded UTF-8 text")
  perform (.appendOnce (messageKey message.messageId) "MESSAGE_QUEUED" (asdict message))

def item (payload : Json F) (key : String) : Except Error (Json F) :=
  match payload.members with
  | none => .error (.value "payload is not a mapping")
  | some members =>
    match members.get? key with
    | none => .error (.key key)
    | some v => .ok v

/-- `[x for x in events if x.event_type == 'MESSAGE_QUEUED' and …]` -/
def queued (messageId : String) : List (AuditEvent F) → Except Error (List (AuditEvent F))
  | [] => .ok []
  | x :: xs =>
    if x.eventType = "MESSAGE_QUEUED" then do
      let id ← item x.payload "message_id"
      let found ← queued messageId xs
      return if id.text = some messageId then x :: found else found
    else queued messageId xs

/-- `len(found) == 1 and found[0].payload['to_principal'] == recipient_id` -/
def targets (found : List (AuditEvent F)) (recipientId : String) : Except Error Bool :=
  match found with
  | [x] => do
    let recipient ← item x.payload "to_principal"
    return recipient.text = some recipientId
  | _ => .ok false

def ack (messageId recipientId : String) : Call F Bool := do
  Proc.require (messageId ≠ "" ∧ recipientId ≠ "") (.value "message and recipient required")
  let events ← perform .read
  let found ← Proc.ofExcept (queued messageId events)
  let matched ← Proc.ofExcept (targets found recipientId)
  Proc.require (matched = true) (.permission "ack target mismatch")
  perform (.appendOnce (ackKey messageId recipientId) "MESSAGE_ACK"
    (ackPayload messageId recipientId))

end Methods

/-! ## The machine -/

inductive Request
  | enqueue (message : Message) (activeTaskId activeDispatchId : String)
  | ack (messageId recipientId : String)
  deriving DecidableEq

section Machine

variable {F : Type}

def body : Request → Call F Bool
  | .enqueue message activeTaskId activeDispatchId => enqueue message activeTaskId activeDispatchId
  | .ack messageId recipientId => ack messageId recipientId

variable [FloatText F] (sha : String → String) (bus : DurableMessageBus)

def run : (o : Op F) → Db → Except Error o.Ret × Db
  | .read, db => ((AuditLedger.read sha bus.stream bus.stream db).mapError .ledger, db)
  | .appendOnce key kind payload, db =>
    let (r, db) := AuditLedger.appendOnce sha bus.stream key kind (.mapping payload) db
    ((r.map (·.2)).mapError .ledger, db)

def exec (o : Op F) (fails : Bool) (db : Db) : Except Error o.Ret × Db :=
  if fails then (.error (.ledger .operational), db) else run sha bus o db

abbrev machine : Machine where
  sig := sig F
  Err := Error
  Res := Bool
  Request := Request
  State := Db
  World := Bool
  possible _ _ _ := true
  exec := exec sha bus
  body := body

end Machine

end SubagentBridge.Messaging
