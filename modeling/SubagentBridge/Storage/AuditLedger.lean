import SubagentBridge.Library.HashChain
import SubagentBridge.Library.Json
import SubagentBridge.Library.Runs
import SubagentBridge.Library.Text

/-! The append-only audit ledger: hash-chained event streams and the recovery
states of sessions, in one SQLite file that any number of connections share. -/

namespace SubagentBridge.AuditLedger

open Library

def GENESIS : String := .ofList (List.replicate 64 '0')

def SCHEMA_VERSION : Int := 1

def privateKeys : List String :=
  ["api_key", "authorization", "access_token", "refresh_token", "secret", "password",
    "credential", "credentials", "private_key"]

inductive LedgerError
  | value : String → LedgerError
  | permission : String → LedgerError
  | integrity : String → LedgerError
  | replayConflict : String → LedgerError
  | uniqueConstraint
  | operational
  deriving DecidableEq

variable {F : Type}

/-- What a payload is made of.  A float that is `none` is not finite, a key that is
`none` is not a string, and `other` stands for an object of any further type. -/
inductive Value (F : Type) : Type
  | none : Value F
  | bool : Bool → Value F
  | int : Int → Value F
  | float : Option F → Value F
  | str : String → Value F
  | list : List (Value F) → Value F
  | mapping : List (Option String × Value F) → Value F
  | other : Value F

def isPrivate (key : String) : Bool :=
  privateKeys.contains (.ofList ((lower key).map fun c => if c = '-' then '_' else c))

mutual

def scrub : Value F → Except LedgerError (Json (Option F))
  | .mapping items => (scrubItems [] items).map .obj
  | .list xs => (scrubElems xs).map .arr
  | .none => .ok .null
  | .bool b => .ok (.bool b)
  | .int n => .ok (.int n)
  | .float x => .ok (.float x)
  | .str s => .ok (.str s)
  | .other => .error (.value "event payload contains a non-JSON type")

def scrubElems : List (Value F) → Except LedgerError (List (Json (Option F)))
  | [] => .ok []
  | x :: xs => do
    let y ← scrub x
    let ys ← scrubElems xs
    return y :: ys

def scrubItems (result : Dict String (Json (Option F))) :
    List (Option String × Value F) → Except LedgerError (Dict String (Json (Option F)))
  | [] => .ok result
  | (none, _) :: _ => .error (.value "event mapping keys must be strings")
  | (some key, item) :: items => do
    let y ← if isPrivate key then .ok (.str "[REDACTED]") else scrub item
    scrubItems (result.set key y) items

end

def requireFinite (v : Json (Option F)) : Except LedgerError (Json F) :=
  match v.allFinite with
  | some v => .ok v
  | none => .error (.value "Out of range float values are not JSON compliant")

def canonical [FloatText F] (v : Json F) : String := .ofList (v.sortKeys.print .compact)

def digestText (stream : String) (seq : Int) (key kind payloadJson prevSha : String) : String :=
  canonical (.arr [.int SCHEMA_VERSION, .str stream, .int seq, .str key, .str kind,
    .str payloadJson, .str prevSha] : Json Empty)

structure Row where
  seq : Int
  key : String
  kind : String
  payloadJson : String
  eventSha : String
  prevSha : String
  deriving DecidableEq

structure EventRow extends Row where
  stream : String
  deriving DecidableEq

inductive SessionState | recoveryRequired | reconciledClosed
  deriving DecidableEq

structure RecoveryRow where
  stream : String
  sessionId : String
  state : SessionState
  cause : String
  deriving DecidableEq

structure Db where
  auditEvents : List EventRow
  recoveryState : List RecoveryRow
  deriving DecidableEq

structure AuditEvent (F : Type) where
  stream : String
  seq : Int
  idempotencyKey : String
  eventType : String
  payload : Json F
  prevSha : String
  eventSha : String

namespace Db

def empty : Db := ⟨[], []⟩

def rows (db : Db) (stream : String) : List Row :=
  (db.auditEvents.filter (·.stream = stream)).map (·.toRow)

def readRows (db : Db) (stream : String) : List Row :=
  (db.rows stream).insertionSort fun a b => a.seq ≤ b.seq

def findKey (db : Db) (stream key : String) : Option Row :=
  (db.rows stream).find? (·.key = key)

/-- `INSERT INTO audit_events` under the constraints of the table. -/
def insertEvent (db : Db) (stream : String) (row : Row) : Except LedgerError Db :=
  if row.seq ≤ 0 ∨ ∃ r ∈ db.rows stream, r.seq = row.seq ∨ r.key = row.key then
    .error .uniqueConstraint
  else .ok { db with auditEvents := db.auditEvents ++ [{ row with stream }] }

def recovery (db : Db) (stream sessionId : String) : Option RecoveryRow :=
  db.recoveryState.find? fun r => r.stream = stream ∧ r.sessionId = sessionId

def setRecovery (db : Db) (row : RecoveryRow) : Db :=
  if (db.recovery row.stream row.sessionId).isSome then
    { db with recoveryState := db.recoveryState.map fun r =>
        if r.stream = row.stream ∧ r.sessionId = row.sessionId then row else r }
  else { db with recoveryState := db.recoveryState ++ [row] }

def closeRecovery (db : Db) (stream sessionId : String) : Db :=
  { db with recoveryState := db.recoveryState.map fun r =>
      if r.stream = stream ∧ r.sessionId = sessionId then { r with state := .reconciledClosed }
      else r }

end Db

section Ledger

variable (sha : String → String)

def digest (stream : String) (seq : Int) (key kind payloadJson prevSha : String) : String :=
  sha (digestText stream seq key kind payloadJson prevSha)

def checkFrom (stream : String) : Nat → String → List Row → Except LedgerError String
  | _, prev, [] => .ok prev
  | expectedSeq, prev, r :: rs =>
    if r.seq ≠ expectedSeq ∨ r.prevSha ≠ prev ∨
        digest sha stream r.seq r.key r.kind r.payloadJson prev ≠ r.eventSha then
      .error (.integrity "audit chain integrity mismatch")
    else checkFrom stream (expectedSeq + 1) r.eventSha rs

def checkRows (stream : String) (rows : List Row) : Except LedgerError String :=
  checkFrom sha stream 1 GENESIS rows

/-- `BEGIN IMMEDIATE`, then `COMMIT`, or `ROLLBACK` when the body raises. -/
def transaction {α : Type} (body : Db → Except LedgerError (α × Db)) (db : Db) :
    Except LedgerError α × Db :=
  match body db with
  | .ok (a, db) => (.ok a, db)
  | .error e => (.error e, db)

def prevOf (existing : List Row) : String := (existing.getLast?.map (·.eventSha)).getD GENESIS

def nextRow (stream key kind payloadJson : String) (existing : List Row) : Row where
  seq := existing.length + 1
  key
  kind
  payloadJson
  eventSha := digest sha stream (existing.length + 1) key kind payloadJson (prevOf existing)
  prevSha := prevOf existing

variable [FloatText F]

/-- What `append_once` checks and computes before it opens its transaction. -/
def scrubPayload (stream key kind : String) (payload : Value F) :
    Except LedgerError (Json F) := do
  if isBlank stream || isBlank key || isBlank kind then
    .error (.value "nonempty stream, key and event type required")
  match payload with
  | .mapping _ => requireFinite (← scrub payload)
  | _ => .error (.value "payload must be a mapping")

def appendData (stream key kind : String) (data : Json F) (db : Db) :
    Except LedgerError ((AuditEvent F × Bool) × Db) := do
  let existing := db.readRows stream
  let _ ← checkRows sha stream existing
  match db.findKey stream key with
  | some r =>
    if r.kind ≠ kind ∨ r.payloadJson ≠ canonical data then
      .error (.replayConflict "idempotency key reused for a different event")
    else .ok ((⟨stream, r.seq, key, kind, data, r.prevSha, r.eventSha⟩, false), db)
  | none =>
    let row := nextRow sha stream key kind (canonical data) existing
    let db ← db.insertEvent stream row
    return ((⟨stream, row.seq, key, kind, data, row.prevSha, row.eventSha⟩, true), db)

def appendOnce (stream key kind : String) (payload : Value F) (db : Db) :
    Except LedgerError (AuditEvent F × Bool) × Db :=
  match scrubPayload stream key kind payload with
  | .error e => (.error e, db)
  | .ok data => transaction (appendData sha stream key kind data) db

omit [FloatText F] in
def verify (stream : String) (expectedTail : Option String) (db : Db) :
    Except LedgerError String := do
  let tail ← checkRows sha stream (db.readRows stream)
  if expectedTail ≠ none ∧ expectedTail ≠ some tail then
    .error (.integrity "stream tail no longer matches external checkpoint")
  return tail

def toEvent (stream : String) (r : Row) : Except LedgerError (AuditEvent F) :=
  match Json.loads r.payloadJson with
  | some payload => .ok ⟨stream, r.seq, r.key, r.kind, payload, r.prevSha, r.eventSha⟩
  | none => .error (.value "JSONDecodeError")

def read (stream readerStream : String) (db : Db) : Except LedgerError (List (AuditEvent F)) := do
  if stream ≠ readerStream then
    .error (.permission "cross-stream audit read denied")
  let rows := db.readRows stream
  let _ ← checkRows sha stream rows
  rows.mapM (toEvent stream)

def noteUnreconciled (stream sessionId cause : String) (db : Db) : Except LedgerError Unit × Db :=
  if stream = "" ∨ sessionId = "" ∨ cause = "" then
    (.error (.value "recovery identity and cause required"), db)
  else (.ok (), db.setRecovery ⟨stream, sessionId, .recoveryRequired, cause⟩)

def recoveryKey (sessionId evidenceKey : String) : String :=
  "recovery:" ++ toString sessionId.length ++ ":" ++ sessionId ++ ":" ++ evidenceKey

def recoveryData (sessionId evidenceKey : String) : Json F :=
  .obj [("session_id", .str sessionId), ("evidence_key", .str evidenceKey)]

variable (F) in
def reconcileBody (stream sessionId evidenceKey : String) (db : Db) :
    Except LedgerError (Unit × Db) := do
  if (db.recovery stream sessionId).map (·.state) ≠ some .recoveryRequired then
    .error (.value "no unresolved recovery checkpoint")
  let existing := db.readRows stream
  let _ ← checkRows sha stream existing
  let key := recoveryKey sessionId evidenceKey
  if (db.findKey stream key).isSome then
    .error (.replayConflict "reconciliation key already used")
  let payloadJson := canonical (recoveryData sessionId evidenceKey : Json F)
  let db ← db.insertEvent stream
    (nextRow sha stream key "RECOVERY_RECONCILED" payloadJson existing)
  return ((), db.closeRecovery stream sessionId)

variable (F) in
def reconcileClosed (stream sessionId evidenceKey : String) (db : Db) :
    Except LedgerError Unit × Db :=
  if stream = "" ∨ sessionId = "" ∨ evidenceKey = "" then
    (.error (.value "reconciliation needs scoped stream/session/evidence"), db)
  else transaction (reconcileBody F sha stream sessionId evidenceKey) db

end Ledger

/-! ## Runs -/

inductive Request (F : Type)
  | appendOnce (stream key kind : String) (payload : Value F)
  | noteUnreconciled (stream sessionId cause : String)
  | reconcileClosed (stream sessionId evidenceKey : String)
  | verify (stream : String) (expectedTail : Option String)
  | read (stream readerStream : String)

inductive Answer (F : Type)
  | appended (event : AuditEvent F) (created : Bool)
  | done
  | tail (sha : String)
  | events (es : List (AuditEvent F))

section Runs

variable (sha : String → String) [FloatText F]

def perform (db : Db) : Request F → Except LedgerError (Answer F) × Db
  | .appendOnce stream key kind payload =>
    let (r, db) := appendOnce sha stream key kind payload db
    (r.map fun (e, created) => .appended e created, db)
  | .noteUnreconciled stream sessionId cause =>
    let (r, db) := noteUnreconciled stream sessionId cause db
    (r.map fun _ => .done, db)
  | .reconcileClosed stream sessionId evidenceKey =>
    let (r, db) := reconcileClosed F sha stream sessionId evidenceKey db
    (r.map fun _ => .done, db)
  | .verify stream expectedTail => ((verify sha stream expectedTail db).map .tail, db)
  | .read stream readerStream => ((read sha stream readerStream db).map .events, db)

/-- A call on one of the connections.  SQLite runs its statements as one atomic
transaction, or fails it as a whole (the lock times out, the disk is full). -/
structure Label (F : Type) where
  conn : Nat
  request : Request F
  fails : Bool

structure State (F : Type) where
  db : Db
  log : List (Request F × Except LedgerError (Answer F))

def initial : State F := ⟨.empty, []⟩

def call (db : Db) (l : Label F) : Except LedgerError (Answer F) × Db :=
  if l.fails then (.error .operational, db) else perform sha db l.request

def step (s : State F) (l : Label F) : Option (State F) :=
  some ⟨(call sha s.db l).2, s.log ++ [(l.request, (call sha s.db l).1)]⟩

end Runs

end SubagentBridge.AuditLedger
