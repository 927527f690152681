import SubagentBridge.Library.Interleaving
import SubagentBridge.Storage.TeamStore
import Mathlib.Data.List.Sort

/-! The message channel of a team: what is posted on it, and the history that is read back. -/

namespace SubagentBridge.Channel

open Library Domain

abbrev Error := TeamStore.Error

variable {F : Type}

/-- The tables behind the channel; the messages are in the order in which their rows were
inserted. -/
structure Db (F : Type) where
  sessions : Dict String (AgentSession F)
  messages : Dict String (ChannelMessage F)

namespace Db

def saveChannelMessage (db : Db F) (msg : ChannelMessage F) : Db F :=
  let row := match db.messages.get? msg.messageId with
    | none => msg
    | some row => { row with content := msg.content }
  { db with messages := db.messages.set msg.messageId row }

def limited (limit : Int) (rows : List (ChannelMessage F)) : List (ChannelMessage F) :=
  if limit < 0 then rows else rows.take limit.toNat

/-- The index on team and time yields rows of the same time in the order of insertion. -/
def listChannelMessagesByTeam [LinearOrder F] (db : Db F) (teamId : String) (limit : Int) :
    List (ChannelMessage F) :=
  limited limit <| ((db.messages.map (·.2)).filter (·.teamId = teamId)).insertionSort fun a b =>
    a.createdAt ≤ b.createdAt

end Db

inductive Op (F : Type)
  | loadSession (sessionId : String)
  | uuidHex
  | now
  | saveChannelMessage (msg : ChannelMessage F)
  | listChannelMessagesByTeam (teamId : String) (limit : Int)

abbrev Op.Ret : Op F → Type
  | .loadSession _ => Option (AgentSession F)
  | .uuidHex => String
  | .now => F
  | .saveChannelMessage _ => Unit
  | .listChannelMessagesByTeam _ _ => List (ChannelMessage F)

variable (F) in
abbrev sig : Signature := ⟨Op F, Op.Ret⟩

abbrev Call (F α : Type) := Proc (sig F) Error α

def perform (o : Op F) : Call F o.Ret := Proc.op (S := sig F) o

section Calls

variable (repr : String → String)

def postMessage (fromSessionId toSessionId content : String) : Call F (ChannelMessage F) := do
  match ← perform (.loadSession fromSessionId) with
  | none => .raise (.value ("sender session " ++ repr fromSessionId ++ " not found"))
  | some sender => do
    match ← perform (.loadSession toSessionId) with
    | none => .raise (.value ("receiver session " ++ repr toSessionId ++ " not found"))
    | some receiver => do
      Proc.require (sender.teamId = receiver.teamId) (.value "cross-team messaging not permitted")
      let hex ← perform .uuidHex
      let createdAt ← perform .now
      let msg : ChannelMessage F := {
        messageId := "msg-" ++ take hex 12
        teamId := sender.teamId
        fromSessionId, toSessionId, content
        role := sender.role.value
        createdAt }
      perform (.saveChannelMessage msg)
      return msg

def readLeadHistory (sessionId : String) (limit : Int) : Call F (List (ChannelMessage F)) := do
  match ← perform (.loadSession sessionId) with
  | none => .raise (.value ("session " ++ repr sessionId ++ " not found"))
  | some session => perform (.listChannelMessagesByTeam session.teamId limit)

end Calls

/-! ## Any number of connections -/

inductive Request
  | postMessage (fromSessionId toSessionId content : String)
  | readLeadHistory (sessionId : String) (limit : Int)

inductive Response (F : Type)
  | posted (msg : ChannelMessage F)
  | history (messages : List (ChannelMessage F))

/-- The clock, the random source and the health of the database at one moment. -/
structure World (F : Type) where
  time : F
  hex : String
  fails : Bool

def body (repr : String → String) : Request → Call F (Response F)
  | .postMessage fromSessionId toSessionId content => do
    return .posted (← postMessage repr fromSessionId toSessionId content)
  | .readLeadHistory sessionId limit => do return .history (← readLeadHistory repr sessionId limit)

variable [LinearOrder F]

def exec : (o : Op F) → World F → Db F → Except Error o.Ret × Db F
  | .uuidHex, w, db => (.ok w.hex, db)
  | .now, w, db => (.ok w.time, db)
  | .loadSession sessionId, w, db =>
    if w.fails then (.error .sqlite, db) else (.ok (db.sessions.get? sessionId), db)
  | .saveChannelMessage msg, w, db =>
    if w.fails then (.error .sqlite, db) else (.ok (), db.saveChannelMessage msg)
  | .listChannelMessagesByTeam teamId limit, w, db =>
    if w.fails then (.error .sqlite, db) else (.ok (db.listChannelMessagesByTeam teamId limit), db)

def possible : Op F → World F → Db F → Bool
  | .saveChannelMessage msg, _, db => (db.messages.get? msg.messageId).isNone
  | _, _, _ => true

variable (F) in
abbrev channel (repr : String → String) : Machine where
  sig := sig F
  Err := Error
  Res := Response F
  Request := Request
  State := Db F
  World := World F
  possible := possible
  exec := exec
  body := body repr

end SubagentBridge.Channel
