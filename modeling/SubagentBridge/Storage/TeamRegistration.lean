import SubagentBridge.Storage.TeamStore

/-! Registration of teams, leads and workers: each a check of the arguments, then one
`BEGIN IMMEDIATE` block. -/

namespace SubagentBridge.TeamStore

open Library Domain

variable {F : Type}

def leadConfig (leadSessionId teamId : String) : WorkerConfig F where
  workerId := leadSessionId
  teamId
  role := "lead"
  harness := "native"
  model := none
  provider := none
  systemPrompt := none
  workingDir := none
  effort := none
  budgetTokens := none
  pid := none
  processCreateTime := none
  tokensConsumed := 0
  fallbackToNative := false

def registered (role : AgentRole) (teamId : String) (config : WorkerConfig F) (now : F) :
    AgentSession F :=
  ⟨config.workerId, role, teamId, .idle, config, now, now⟩

def bounded (s : String) (n : Nat) : Prop := ¬ isBlank s ∧ s.length ≤ n

instance (s : String) (n : Nat) : Decidable (bounded s n) := inferInstanceAs (Decidable (_ ∧ _))

def checkTeam (teamId leadSessionId title : String) : Except Error Unit :=
  require (bounded teamId 128 ∧ bounded leadSessionId 128 ∧ title.length ≤ 256)
    (.value "bounded nonempty team and lead identities required")

def checkWorker (teamId : String) (config : WorkerConfig F)
    (worktreePath branchName : Option String) :
    Except Error Unit := do
  require (¬ isBlank teamId ∧ bounded config.workerId 128 ∧ config.teamId = teamId ∧
    ¬ isBlank config.role ∧ lower config.role ≠ "lead".toList)
    (.value "worker identity, role or team binding is invalid")
  require (config.pid = none ∧ config.processCreateTime.isNone)
    (.permission "metadata registration cannot adopt an unverified OS process")
  require (∀ path ∈ worktreePath, bounded path 4096) (.value "bounded worktree path required")
  require (∀ branch ∈ branchName, bounded branch 256) (.value "bounded branch name required")

def batchRoles : List String := ["worker", "pm", "developer", "qa", "specialist"]

def checkMember (teamId leadSessionId : String) (config : WorkerConfig F) : Except Error Unit := do
  require (¬ isBlank config.workerId ∧ config.teamId = teamId ∧ config.workerId ≠ leadSessionId ∧
    config.role ∈ batchRoles) (.value "worker role, identity or team binding is invalid")
  require (config.pid = none ∧ config.processCreateTime.isNone)
    (.permission "batch metadata registration cannot adopt an unverified live process")

def checkBatch (teamId leadSessionId : String) (configs : List (WorkerConfig F))
    (maxWorkers : Int) : Except Error Unit := do
  require (¬ isBlank teamId) (.value "nonempty team ID required")
  require (¬ isBlank leadSessionId) (.value "nonempty lead session ID required")
  require (configs ≠ [] ∧ configs.length ≤ 16)
    (.value "worker batch must contain between 1 and 16 configs")
  require (1 ≤ maxWorkers ∧ maxWorkers ≤ 64) (.value "max_workers must be between 1 and 64")
  configs.forM (checkMember teamId leadSessionId)
  require (configs.map (·.workerId)).Nodup (.value "duplicate worker ID within batch")

namespace Db

def isLeadOf (db : Db F) (sessionId teamId : String) : Prop :=
  (db.loadSession sessionId).map (fun lead => (lead.role, lead.teamId)) = some (.lead, teamId)

instance (db : Db F) (sessionId teamId : String) : Decidable (db.isLeadOf sessionId teamId) :=
  inferInstanceAs (Decidable (_ = _))

def createTeamWithLead (teamId leadSessionId title : String) (created : F) (db : Db F) :
    Except Error (AgentTeam F × Db F) :=
  match db.loadTeam teamId with
  | some existing => do
    require (existing.leadSessionId = leadSessionId ∧ existing.title = title)
      (.permission "team registration cannot replace owner or title")
    require (db.isLeadOf leadSessionId teamId)
      (.permission "existing team has inconsistent lead identity")
    return (⟨teamId, leadSessionId, title, existing.createdAt⟩, db)
  | none => do
    require (db.loadSession leadSessionId).isNone
      (.permission "lead session identity already belongs to another team")
    let team : AgentTeam F := ⟨teamId, leadSessionId, title, created⟩
    let lead := registered .lead teamId (leadConfig leadSessionId teamId) created
    return (team, { db with
      teams := db.teams.set teamId team
      sessions := db.sessions.set leadSessionId lead })

def createTeamWithLeadOnce (teamId leadSessionId title : String) (created : F) (db : Db F) :
    Except Error (AgentTeam F × Db F) := do
  checkTeam teamId leadSessionId title
  db.createTeamWithLead teamId leadSessionId title created

variable (repr : String → String)

def insertWorktree (teamId workerId : String) (worktreePath branchName : Option String) (now : F)
    (db : Db F) : Except Error (Db F) :=
  match worktreePath with
  | none => .ok db
  | some path => do
    require (db.loadWorktree workerId).isNone .integrity
    let branch := branchName.getD ("worker/" ++ workerId)
    return { db with worktrees := db.worktrees.set workerId ⟨workerId, teamId, path, branch, now⟩ }

def registerSingleWorker (teamId : String) (config : WorkerConfig F)
    (worktreePath branchName : Option String) (now : F) (db : Db F) :
    Except Error (AgentSession F × Db F) :=
  match db.loadTeam teamId with
  | none => .error (.value ("team " ++ repr teamId ++ " not found"))
  | some team => do
    require (team.leadSessionId ≠ config.workerId)
      (.permission "worker cannot replace the team lead identity")
    require (db.loadSession config.workerId).isNone (.value "worker identity already registered")
    let session := registered .worker teamId config now
    let sessions := db.sessions.set config.workerId session
    let db ← insertWorktree teamId config.workerId worktreePath branchName now { db with sessions }
    return (session, db)

def registerSingleWorkerOnce (teamId : String) (config : WorkerConfig F)
    (worktreePath branchName : Option String) (now : F) (db : Db F) :
    Except Error (AgentSession F × Db F) := do
  checkWorker teamId config worktreePath branchName
  db.registerSingleWorker repr teamId config worktreePath branchName now

/-- `SELECT COUNT(*)` of the team's workers that are not archived. -/
def rosterSize (db : Db F) (teamId : String) : Nat :=
  (db.sessions.filter fun p =>
    p.2.teamId = teamId ∧ p.2.role = .worker ∧ p.2.status ≠ .archived).length

def registerWorkerBatch (teamId leadSessionId : String) (configs : List (WorkerConfig F))
    (maxWorkers : Int) (now : F) (db : Db F) : Except Error (List (AgentSession F) × Db F) := do
  require ((db.loadTeam teamId).map (·.leadSessionId) = some leadSessionId)
    (.permission "team lead binding is not valid")
  require (db.isLeadOf leadSessionId teamId) (.permission "registered lead session is required")
  require ((db.rosterSize teamId : Int) + configs.length ≤ maxWorkers)
    (.value "worker roster capacity exceeded")
  require (∀ config ∈ configs, (db.loadSession config.workerId).isNone)
    (.value "worker identity already registered")
  let created := configs.map fun config => registered .worker teamId config now
  return (created, { db with
    sessions := created.foldl (fun d session => d.set session.sessionId session) db.sessions })

def registerWorkerBatchOnce (teamId leadSessionId : String) (configs : List (WorkerConfig F))
    (maxWorkers : Int) (now : F) (db : Db F) : Except Error (List (AgentSession F) × Db F) := do
  checkBatch teamId leadSessionId configs maxWorkers
  db.registerWorkerBatch teamId leadSessionId configs maxWorkers now

end Db

end SubagentBridge.TeamStore
