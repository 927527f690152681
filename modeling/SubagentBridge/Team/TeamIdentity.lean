import SubagentBridge.Recovery.Handoffs

/-! Teams, leads and workers: who is registered as what, once and for good. -/

namespace SubagentBridge.Supervisor

open Library Domain TeamStore

variable {F : Type}

/-! ## What a step does to the registered identities -/

def enrolled (sessions : Dict String (AgentSession F)) (created : List (AgentSession F)) :
    Dict String (AgentSession F) :=
  created.foldl (fun d session => d.set session.sessionId session) sessions

section Enrolled

variable {sessions : Dict String (AgentSession F)} {created : List (AgentSession F)}
variable {id : String} {session : AgentSession F}

theorem mem_enrolled {p : String × AgentSession F} (h : p ∈ enrolled sessions created) :
    p ∈ sessions ∨ p.2.sessionId = p.1 := by
  induction created generalizing sessions with
  | nil => exact .inl h
  | cons first rest ih =>
    rcases ih h with h | hid
    · rcases Dict.mem_set h with h | rfl
      · exact .inl h
      · exact .inr rfl
    · exact .inr hid

theorem get?_enrolled_old (hnew : ∀ s ∈ created, sessions.get? s.sessionId = none)
    (h : sessions.get? id = some session) : (enrolled sessions created).get? id = some session := by
  have hother : ∀ s ∈ created, s.sessionId ≠ id := by
    rintro s hs rfl
    cases (hnew s hs).symm.trans h
  clear hnew
  induction created generalizing sessions with
  | nil => exact h
  | cons first rest ih =>
    apply ih
    · rw [Dict.get?_set, if_neg (hother first (by simp)), h]
    · exact fun s hs => hother s (by simp [hs])

theorem exists_enrolled (sessions : Dict String (AgentSession F))
    (h : ∃ s ∈ created, s.sessionId = id) :
    ∃ s ∈ created, s.sessionId = id ∧ (enrolled sessions created).get? id = some s := by
  induction created using List.reverseRecOn with
  | nil => obtain ⟨s, hs, -⟩ := h; cases hs
  | append_singleton rest last ih =>
    rw [enrolled, List.foldl_append]
    change ∃ s ∈ rest ++ [last], s.sessionId = id ∧
      ((enrolled sessions rest).set last.sessionId last).get? id = some s
    rw [Dict.get?_set]
    by_cases hid : last.sessionId = id
    · exact ⟨last, by simp, hid, if_pos hid⟩
    · obtain ⟨s, hs, hsid⟩ := h
      have hmem : s ∈ rest := by
        rcases List.mem_append.mp hs with hs | hs
        · exact hs
        · exact (hid (List.mem_singleton.mp hs ▸ hsid)).elim
      obtain ⟨s', hs', hsid', hget⟩ := ih ⟨s, hmem, hsid⟩
      exact ⟨s', by simp [hs'], hsid', by rw [if_neg hid, hget]⟩

end Enrolled

inductive Enrols (db db' : Db F) : Prop
  | same (hteams : db'.teams = db.teams) (hsessions : db'.sessions = db.sessions)
      (hworktrees : db'.worktrees = db.worktrees)
  | touched {id : String} {row : AgentSession F} (row' : AgentSession F)
      (hrow : db.sessions.get? id = some row)
      (hid : row'.sessionId = row.sessionId) (hrole : row'.role = row.role)
      (hteam : row'.teamId = row.teamId) (hteams : db'.teams = db.teams)
      (hsessions : db'.sessions = db.sessions.set id row')
        (hworktrees : db'.worktrees = db.worktrees)
  | team (team : AgentTeam F) (lead : AgentSession F) (hnew : db.teams.get? team.teamId = none)
      (hlead : db.sessions.get? team.leadSessionId = none)
        (hid : lead.sessionId = team.leadSessionId)
      (hrole : lead.role = .lead) (hteam : lead.teamId = team.teamId)
      (hteams : db'.teams = db.teams.set team.teamId team)
      (hsessions : db'.sessions = db.sessions.set team.leadSessionId lead)
      (hworktrees : db'.worktrees = db.worktrees)
  | workers (created : List (AgentSession F)) (teamId : String)
      (hnew : ∀ session ∈ created, db.sessions.get? session.sessionId = none)
      (hall : ∀ session ∈ created, session.role = .worker ∧ session.teamId = teamId)
      (hteams : db'.teams = db.teams) (hsessions : db'.sessions = enrolled db.sessions created)
      (hworktrees : db'.worktrees = db.worktrees ∨ ∃ a : WorktreeAssignment F, a.teamId = teamId ∧
        (∃ session ∈ created, session.sessionId = a.workerId) ∧
        db'.worktrees = db.worktrees.set a.workerId a)

def Kept (db db' : Db F) : Prop :=
  ∀ id session, db.sessions.get? id = some session → ∃ session',
    db'.sessions.get? id = some session' ∧ session'.role = session.role ∧
      session'.teamId = session.teamId

structure Roster (db : Db F) : Prop where
  ids : ∀ p ∈ db.sessions, p.2.sessionId = p.1
  leads : ∀ id team, db.teams.get? id = some team → team.teamId = id ∧ ∃ lead,
    db.sessions.get? team.leadSessionId = some lead ∧ lead.role = .lead ∧ lead.teamId = id
  worktrees : ∀ id a, db.worktrees.get? id = some a → a.workerId = id ∧ ∃ worker,
    db.sessions.get? id = some worker ∧ worker.role = .worker ∧ worker.teamId = a.teamId

section Steps

variable {db db' db'' : Db F}

theorem Kept.refl (db : Db F) : Kept db db := fun _ session h => ⟨session, h, rfl, rfl⟩

theorem Kept.trans (h : Kept db db') (h' : Kept db' db'') : Kept db db'' := by
  intro id session hs
  obtain ⟨s', hs', hrole, hteam⟩ := h id session hs
  obtain ⟨s'', hs'', hrole', hteam'⟩ := h' id s' hs'
  exact ⟨s'', hs'', hrole'.trans hrole, hteam'.trans hteam⟩

theorem Enrols.kept (h : Enrols db db') : Kept db db' := by
  intro id session hs
  cases h with
  | same _ hsessions => exact ⟨session, hsessions ▸ hs, rfl, rfl⟩
  | touched row' hrow _ hrole hteam _ hsessions =>
    rw [hsessions, Dict.get?_set]
    split
    next hid =>
      obtain rfl := Option.some.inj (hrow.symm.trans (hid ▸ hs))
      exact ⟨row', rfl, hrole, hteam⟩
    next => exact ⟨session, hs, rfl, rfl⟩
  | team _ _ _ hlead _ _ _ _ hsessions =>
    rw [hsessions, Dict.get?_set]
    split
    next hid => cases hlead.symm.trans (hid ▸ hs)
    next => exact ⟨session, hs, rfl, rfl⟩
  | workers _ _ hnew _ _ hsessions =>
    exact ⟨session, hsessions ▸ get?_enrolled_old hnew hs, rfl, rfl⟩

theorem Enrols.roster (h : Enrols db db') (hr : Roster db) : Roster db' := by
  have hkept := h.kept
  have hleads : ∀ id team, db.teams.get? id = some team → team.teamId = id ∧ ∃ lead,
      db'.sessions.get? team.leadSessionId = some lead ∧ lead.role = .lead ∧ lead.teamId = id := by
    intro id team hteam
    obtain ⟨hid, lead, hlead, hrole, ht⟩ := hr.leads id team hteam
    obtain ⟨lead', hlead', hrole', ht'⟩ := hkept _ _ hlead
    exact ⟨hid, lead', hlead', hrole'.trans hrole, ht'.trans ht⟩
  have hworktrees : ∀ id a, db.worktrees.get? id = some a → a.workerId = id ∧ ∃ worker,
      db'.sessions.get? id = some worker ∧ worker.role = .worker ∧ worker.teamId = a.teamId := by
    intro id a ha
    obtain ⟨hid, worker, hworker, hrole, ht⟩ := hr.worktrees id a ha
    obtain ⟨worker', hworker', hrole', ht'⟩ := hkept _ _ hworker
    exact ⟨hid, worker', hworker', hrole'.trans hrole, ht'.trans ht⟩
  cases h with
  | same ht hs hw =>
    exact ⟨hs ▸ hr.ids, by rw [ht]; exact hleads, by rw [hw]; exact hworktrees⟩
  | touched row' hrow hid _ _ ht hs hw =>
    refine ⟨fun p hp => ?_, by rw [ht]; exact hleads, by rw [hw]; exact hworktrees⟩
    rcases Dict.mem_set (hs ▸ hp) with hp | rfl
    · exact hr.ids p hp
    · exact hid.trans (hr.ids _ (Dict.mem_of_get? hrow))
  | team team lead hnew hlead hid hrole hteam ht hs hw =>
    refine ⟨fun p hp => ?_, fun id t hget => ?_, by rw [hw]; exact hworktrees⟩
    · rcases Dict.mem_set (hs ▸ hp) with hp | rfl
      · exact hr.ids p hp
      · exact hid
    · rw [ht, Dict.get?_set] at hget
      split at hget
      next he =>
        obtain rfl := Option.some.inj hget
        refine ⟨he, lead, ?_, hrole, hteam.trans he⟩
        rw [hs, Dict.get?_set, if_pos rfl]
      next => exact hleads id t hget
  | workers created teamId hnew hall ht hs hw =>
    refine ⟨fun p hp => ?_, by rw [ht]; exact hleads, fun id a hget => ?_⟩
    · exact (mem_enrolled (hs ▸ hp)).elim (hr.ids p) id
    · rcases hw with hw | ⟨a', hteam, hmem, hw⟩
      · exact hworktrees id a (hw ▸ hget)
      · rw [hw, Dict.get?_set] at hget
        split at hget
        next he =>
          obtain rfl := Option.some.inj hget
          obtain ⟨worker, hworker, hid, hgetw⟩ := exists_enrolled db.sessions hmem
          obtain ⟨hrole, hwt⟩ := hall worker hworker
          exact ⟨he, worker, by rw [hs, ← he]; exact hgetw, hrole, hwt.trans hteam.symm⟩
        next => exact hworktrees id a hget

end Steps

section Operations

variable {repr : String → String} {db db' : Db F} {now : F}

theorem createTeam_enrols {teamId lead title : String} {team : AgentTeam F}
    (h : db.createTeamWithLeadOnce teamId lead title now = .ok (team, db')) : Enrols db db' := by
  obtain ⟨_, -, h⟩ := bind_ok.mp h
  rw [Db.createTeamWithLead] at h
  split at h
  · obtain ⟨_, -, h⟩ := bind_ok.mp h
    obtain ⟨_, -, h⟩ := bind_ok.mp h
    cases h
    exact .same rfl rfl rfl
  next hteam =>
    obtain ⟨_, hlead, h⟩ := bind_ok.mp h
    rw [require_ok, Option.isNone_iff_eq_none] at hlead
    cases h
    exact .team ⟨teamId, lead, title, now⟩ _ hteam hlead rfl rfl rfl rfl rfl rfl

theorem registerSingle_enrols {teamId : String} {config : WorkerConfig F}
    {path branch : Option String} {session : AgentSession F}
    (h : db.registerSingleWorkerOnce repr teamId config path branch now = .ok (session, db')) :
    Enrols db db' := by
  obtain ⟨_, -, h⟩ := bind_ok.mp h
  rw [Db.registerSingleWorker] at h
  split at h
  · cases h
  obtain ⟨_, -, h⟩ := bind_ok.mp h
  obtain ⟨_, hnew, h⟩ := bind_ok.mp h
  rw [require_ok, Option.isNone_iff_eq_none] at hnew
  obtain ⟨db₁, h₁, h⟩ := bind_ok.mp h
  cases h
  have hcreated : ∀ s ∈ [registered .worker teamId config now],
      db.sessions.get? s.sessionId = none := by
    intro s hs
    obtain rfl := List.mem_singleton.mp hs
    exact hnew
  have hall : ∀ s ∈ [registered .worker teamId config now],
      s.role = .worker ∧ s.teamId = teamId := by
    intro s hs
    obtain rfl := List.mem_singleton.mp hs
    exact ⟨rfl, rfl⟩
  cases path with
  | none =>
    cases h₁
    exact .workers _ teamId hcreated hall rfl rfl (.inl rfl)
  | some path =>
    obtain ⟨_, -, h₁⟩ := bind_ok.mp h₁
    cases h₁
    let a : WorktreeAssignment F :=
      ⟨config.workerId, teamId, path, branch.getD ("worker/" ++ config.workerId), now⟩
    exact .workers _ teamId hcreated hall rfl rfl
      (.inr ⟨a, rfl, ⟨_, List.mem_singleton_self _, rfl⟩, rfl⟩)

theorem registerBatch_enrols {teamId lead : String} {configs : List (WorkerConfig F)}
    {maxWorkers : Int} {created : List (AgentSession F)}
    (h : db.registerWorkerBatchOnce teamId lead configs maxWorkers now = .ok (created, db')) :
    Enrols db db' := by
  obtain ⟨_, -, h⟩ := bind_ok.mp h
  obtain ⟨_, -, h⟩ := bind_ok.mp h
  obtain ⟨_, -, h⟩ := bind_ok.mp h
  obtain ⟨_, -, h⟩ := bind_ok.mp h
  obtain ⟨_, hnew, h⟩ := bind_ok.mp h
  rw [require_ok] at hnew
  cases h
  refine .workers _ teamId ?_ ?_ rfl rfl (.inl rfl)
  · intro session hsession
    obtain ⟨config, hconfig, rfl⟩ := List.mem_map.mp hsession
    exact Option.isNone_iff_eq_none.mp (hnew config hconfig)
  · intro session hsession
    obtain ⟨config, -, rfl⟩ := List.mem_map.mp hsession
    exact ⟨rfl, rfl⟩

theorem saveSession_enrols {session row : AgentSession F}
    (hrow : db.sessions.get? session.sessionId = some row) :
    Enrols db (db.saveSession session) := by
  rw [Db.saveSession, hrow]
  let row' : AgentSession F :=
    { row with status := session.status, config := session.config, updatedAt := session.updatedAt }
  exact .touched row' hrow rfl rfl rfl rfl rfl rfl

theorem finalize_enrols {teamId workerId : String} {evidence : HandoffEvidence F}
    {status : Option QueueTaskStatus}
    (h : db.finalizeHandoff repr teamId evidence status workerId now = .ok ((), db')) :
    Enrols db db' := by
  unfold Db.finalizeHandoff at h
  split at h
  · cases h
  obtain rfl := (Prod.mk.inj (Except.ok.inj h)).2
  cases hrow : db.sessions.get? workerId with
  | none => exact .same rfl (by simp) rfl
  | some row =>
    exact .touched { row with status := .idle, updatedAt := now } hrow rfl rfl rfl rfl (by simp) rfl

theorem enrols_atomically {α : Type} {f : Db F → Except Error (α × Db F)}
    (hf : ∀ a db', f db = .ok (a, db') → Enrols db db') : Enrols db (atomically f db).2 := by
  rcases atomically_cases f db with ⟨e, -, h⟩ | ⟨a, db', hok, h⟩
  · rw [h]
    exact .same rfl rfl rfl
  · rw [h]
    exact hf a db' hok

variable [LinearOrder F] [FloatText F] {w : World F} {o : Op F}

def Op.controls : Op F → Bool
  | .resumeWorker _ | .spawnWorker _ _ | .dispatchTaskToWorker _ _ _ => true
  | _ => false

theorem run_enrols (ho : o.controls = false) (hsave : ∀ session, o = .saveSession session →
    ∃ row, db.sessions.get? session.sessionId = some row) : Enrols db (run repr o w db).2 := by
  cases o with
  | createTeamWithLeadOnce => exact enrols_atomically fun _ _ => createTeam_enrols
  | registerSingleWorkerOnce => exact enrols_atomically fun _ _ => registerSingle_enrols
  | registerWorkerBatchOnce => exact enrols_atomically fun _ _ => registerBatch_enrols
  | finalizeHandoff => exact enrols_atomically fun _ _ => finalize_enrols
  | saveSession session =>
    obtain ⟨row, hrow⟩ := hsave session rfl
    exact saveSession_enrols hrow
  | insertQueueItemOnce item =>
    refine enrols_atomically fun _ _ h => ?_
    rcases insert_ok h with rfl | ⟨-, -, -, rfl⟩ <;> exact .same rfl rfl rfl
  | steerQueueItemOnce =>
    refine enrols_atomically fun _ _ h => ?_
    obtain ⟨_, _, -, -, -, -, rfl⟩ := steer_ok h
    exact .same rfl rfl rfl
  | cancelActiveQueueItem =>
    refine enrols_atomically fun _ _ h => ?_
    obtain ⟨_, _, -, -, -, -, rfl⟩ := cancel_ok h
    exact .same rfl rfl rfl
  | markTaskResuming d =>
    rw [run, Db.markTaskResuming]
    split
    · exact .same rfl rfl rfl
    · split <;> exact .same rfl rfl rfl
  | resumeWorker | spawnWorker | dispatchTaskToWorker => cases ho
  | _ => exact .same rfl rfl rfl

theorem exec_enrols (ho : o.controls = false) (hsave : ∀ session, o = .saveSession session →
    ∃ row, db.sessions.get? session.sessionId = some row) : Enrols db (exec repr o w db).2 := by
  rw [exec]
  split
  · exact .same rfl rfl rfl
  · exact run_enrols ho hsave

end Operations

/-! ## Calls -/

def showsSession (session : AgentSession F) : Event (sig F) Error → Prop
  | ⟨.loadSession _, .ok found⟩ => found = some session
  | ⟨.listSessionsByTeam _, .ok sessions⟩ => session ∈ sessions
  | _ => False

def Knows (h : History F) (id : String) : Prop :=
  ∃ e ∈ h, ∃ session, showsSession session e ∧ session.sessionId = id

def Request.managed : Request F → Bool
  | .resumeTask _ _ => false
  | _ => true

def SavesKnown (q : Request F) (h : History F) (o : Op F) : Prop :=
  q.managed = true → o.controls = false ∧ ∀ session, o = .saveSession session →
    Knows h session.sessionId

variable (F) in
abbrev known : Protocol (sig F) Error := .ofHistory SavesKnown fun _ _ => True

def Op.plain : Op F → Bool
  | .saveSession _ | .resumeWorker _ | .spawnWorker _ _ | .dispatchTaskToWorker _ _ _ => false
  | _ => true

abbrev Plain (o : Op F) : Prop := o.plain = true

section Calls

variable {q : Request F} {h : History F} {id : String} {o : Op F} {α β : Type}
variable {Q : (known F).Mode → Except Error β → Prop} {J : History F → Prop}

theorem Knows.snoc (hk : Knows h id) (e : Event (sig F) Error) : Knows (h ++ [e]) id :=
  let ⟨e', he', hs⟩ := hk
  ⟨e', List.mem_append_left _ he', hs⟩

theorem savesKnown_of_plain (ho : Plain o) : SavesKnown q h o := fun _ => by
  cases o <;> first
    | exact (Bool.false_ne_true ho).elim
    | exact ⟨rfl, fun _ he => by cases he⟩

theorem plain_follows {p : Call F α} (hp : p.Only Plain) (hJ : J h)
    (hmono : ∀ h e, J h → J (h ++ [e])) :
    p.Follows (known F) (fun m _ => m.1 = q ∧ J m.2) (q, h) := by
  refine hp.follows (I := fun m : (known F).Mode => m.1 = q ∧ J m.2) ⟨rfl, hJ⟩ ?_
  rintro ⟨q', h'⟩ o ⟨rfl, hJ⟩ ho
  exact ⟨savesKnown_of_plain ho, fun r _ => ⟨rfl, hmono _ _ hJ⟩⟩

theorem plain_calls {p : Call F α} (hp : p.Only Plain) (h : History F) :
    p.Follows (known F) (fun _ _ => True) (q, h) :=
  (plain_follows (J := fun _ => True) hp trivial fun _ _ _ => trivial).mono fun _ _ _ => trivial

theorem known_perform (o : Op F) {f : o.Ret → Call F β} (ha : SavesKnown q h o)
    (hok : ∀ a, (f a).Follows (known F) (fun _ _ => True) (q, h ++ [⟨o, .ok a⟩])) :
    ((perform o).bind f).Follows (known F) (fun _ _ => True) (q, h) :=
  (Proc.follows_op_bind ..).mpr ⟨ha, fun a _ => hok a, fun _ _ => trivial⟩

theorem knows_loaded {session : AgentSession F} :
    Knows (h ++ [⟨.loadSession id, .ok (some session)⟩]) session.sessionId :=
  ⟨_, List.mem_append_right _ (List.mem_singleton_self _), session, rfl, rfl⟩

theorem setWorkerStatus_known {B : Builtins F} (workerId : String) (status : WorkerStatus) :
    (setWorkerStatus B workerId status).Follows (known F) (fun _ _ => True) (q, h) := by
  refine known_perform _ (savesKnown_of_plain rfl) fun found => ?_
  cases found with
  | none => trivial
  | some session =>
    refine known_perform _ (savesKnown_of_plain rfl) fun updatedAt => ?_
    refine known_perform _ (fun _ => ⟨rfl, ?_⟩) fun _ => trivial
    rintro saved he
    cases he
    exact Knows.snoc knows_loaded _

theorem preempt_plain (workerId reason : String) (item : QueueItem F) :
    (preempt workerId reason item).Only Plain := by
  rw [preempt]
  split
  · refine Proc.Only.bind ?_ fun _ => Proc.only_op_bind rfl fun _ => ?_
    · rw [interruptionEntries]
      split
      · trivial
      · exact Proc.only_op_bind rfl fun _ => trivial
    · exact (Proc.only_op _).mpr rfl
  · trivial

theorem interruptWorker_known (workerId reason : String) :
    (interruptWorker workerId reason).Follows (known F) (fun _ _ => True) (q, h) := by
  refine known_perform _ (savesKnown_of_plain rfl) fun found => ?_
  cases found with
  | none => trivial
  | some session =>
    refine known_perform _ (savesKnown_of_plain rfl) fun updatedAt => ?_
    refine known_perform _ (fun _ => ⟨rfl, ?_⟩) fun _ => ?_
    · rintro saved he
      cases he
      exact Knows.snoc knows_loaded _
    · refine known_perform _ (savesKnown_of_plain rfl) fun items => plain_calls ?_ _
      exact (Proc.only_forEach (preempt_plain workerId reason) items).bind fun _ => trivial

theorem isAlive_plain (config : WorkerConfig F) : (isAlive config).Only Plain := by
  rw [isAlive]
  split
  · trivial
  · exact (Proc.only_op _).mpr rfl

theorem reconcileItem_plain (sessionId : String) (mark : Bool) (acc : Reconciled)
    (item : QueueItem F) : (reconcileItem sessionId mark acc item).Only Plain := by
  rw [reconcileItem]
  split
  · exact Proc.only_op_bind rfl fun _ => Proc.only_op_bind rfl fun _ => trivial
  · trivial

def Listed (q : Request F) (sessions : List (AgentSession F)) (m : (known F).Mode) : Prop :=
  m.1 = q ∧ ∀ session ∈ sessions, Knows m.2 session.sessionId

theorem reconcileSession_known {teamId : String} {mark : Bool} {acc : Reconciled}
    {session : AgentSession F} {rest : List (AgentSession F)} {m : (known F).Mode}
    (hm : Listed q (session :: rest) m) :
    (reconcileSession teamId mark acc session).Follows (known F)
      (Proc.loopPost (Listed q) (Q := fun _ _ => True) rest) m := by
  obtain ⟨q', h⟩ := m
  obtain ⟨rfl, hm⟩ := hm
  have hmono : ∀ (h : History F) e, (∀ s ∈ session :: rest, Knows h s.sessionId) →
      ∀ s ∈ session :: rest, Knows (h ++ [e]) s.sessionId := fun _ e hs s hmem => (hs s hmem).snoc e
  have hend : ∀ {h : History F} {a : Reconciled}, (∀ s ∈ session :: rest, Knows h s.sessionId) →
      Proc.loopPost (Listed q') (Q := fun _ _ => True) rest (q', h) (.ok a) :=
    fun hs => ⟨rfl, fun s hmem => hs s (List.mem_cons_of_mem _ hmem)⟩
  rw [reconcileSession]
  split
  · refine (plain_follows (isAlive_plain _) hm hmono).bind ?_ fun _ _ _ => trivial
    rintro ⟨_, h₁⟩ alive ⟨rfl, hm₁⟩
    split
    · refine (Proc.follows_op_bind ..).mpr ⟨savesKnown_of_plain rfl, fun updatedAt _ => ?_,
        fun _ _ => trivial⟩
      refine (Proc.follows_op_bind ..).mpr ⟨fun _ => ⟨rfl, ?_⟩, fun _ _ => ?_, fun _ _ => trivial⟩
      · rintro saved he
        cases he
        exact (hm₁ session (by simp)).snoc _
      refine (Proc.follows_op_bind ..).mpr ⟨savesKnown_of_plain rfl, fun items _ => ?_,
        fun _ _ => trivial⟩
      refine (plain_follows (Proc.only_fold (fun _ _ => reconcileItem_plain _ _ _ _) _ _)
        (fun s hmem => (((hm₁ s hmem).snoc _).snoc _).snoc _) hmono).mono ?_
      rintro ⟨_, h₂⟩ (e | a) ⟨rfl, hm₃⟩
      · trivial
      · exact hend hm₃
    · exact hend hm₁
  · exact hend hm

variable {B : Builtins F}

theorem dispatchTask_plain (fromId toId taskId : String) (payload : Dict String (Json F))
    (key : Option String) (priority : Int) :
    (dispatchTask B fromId toId taskId payload key priority).Only Plain := by
  refine Proc.only_op_bind rfl fun sender => Proc.only_op_bind rfl fun receiver => ?_
  cases sender with
  | none => cases receiver <;> trivial
  | some sender =>
    cases receiver with
    | none => trivial
    | some receiver =>
      refine (Proc.only_require _ _).bind fun _ => Proc.only_op_bind rfl fun hex => ?_
      refine Proc.only_op_bind rfl fun createdAt => Proc.only_op_bind rfl fun updatedAt => ?_
      exact (Proc.only_op _).mpr rfl

theorem cancelTask_plain (lead dispatchId reason : String) :
    (cancelTask B lead dispatchId reason).Only Plain := by
  refine Proc.only_op_bind rfl fun session => (Proc.only_require _ _).bind fun _ => ?_
  refine Proc.only_op_bind rfl fun item => ?_
  cases item with
  | none => trivial
  | some item => exact (Proc.only_require _ _).bind fun _ => (Proc.only_op _).mpr rfl

theorem reconcileTeam_known (teamId : String) (mark : Bool) :
    (reconcileTeamAfterCrash teamId mark).Follows (known F) (fun _ _ => True) (q, h) := by
  refine known_perform _ (savesKnown_of_plain rfl) fun sessions => ?_
  refine Proc.Follows.bind (M := fun _ _ => True) ?_ (fun _ _ _ => trivial) fun _ _ _ => trivial
  refine Proc.follows_fold (I := Listed q) _ _ _ ⟨rfl, fun session hmem => ?_⟩
    (fun _ _ _ _ => reconcileSession_known) fun _ _ _ => trivial
  exact ⟨_, List.mem_append_right _ (List.mem_singleton_self _), session, hmem, rfl⟩

theorem reconcileAmbiguous_plain (dispatchId resolution notes : String) :
    (reconcileAmbiguousTask B dispatchId resolution notes).Only Plain := by
  rw [reconcileAmbiguousTask]
  split
  · trivial
  · refine Proc.only_op_bind rfl fun item => ?_
    cases item with
    | none => trivial
    | some item =>
      refine (Proc.only_require _ _).bind fun _ => Proc.only_op_bind rfl fun resolvedAt => ?_
      exact Proc.only_op_bind rfl fun updatedAt => Proc.only_op_bind rfl fun _ => trivial

theorem plain_of_handsOver (ho : HandsOver o) : Plain o := by
  rcases ho with ho | ⟨_, _, _, _, rfl⟩
  · cases o <;> first
      | exact (Bool.false_ne_true ho).elim
      | rfl
  · rfl

def Request.registers : Request F → Bool
  | .createTeam _ _ _ | .createWorker _ _ _ _ | .createWorkersBatch _ _ _ _ => true
  | _ => false

def Op.registers : Op F → Bool
  | .createTeamWithLeadOnce _ _ _ | .registerSingleWorkerOnce _ _ _ _
  | .registerWorkerBatchOnce _ _ _ _ => true
  | _ => false

def Harmless (e : Event (sig F) Error) : Prop :=
  e.op.reads = true ∨ e.op.registers = true ∧ ∃ err, e.ans = .error err

def Unregistered (q : Request F) (m : (known F).Mode) (r : Except Error (Response F)) : Prop :=
  q.registers = true → ∀ err, r = .error err → ∀ e ∈ m.2, Harmless e

theorem registration_known {f : o.Ret → Response F} (ho : Plain o) (hreg : o.registers = true)
    (hh : ∀ e ∈ h, Harmless e) :
    ((perform o).bind fun a => .ret (f a)).Follows (known F) (Unregistered q) (q, h) := by
  refine (Proc.follows_op_bind ..).mpr
    ⟨savesKnown_of_plain ho, fun a _ _ err he => ?_, fun err _ _ _ _ e hmem => ?_⟩
  · cases he
  rcases List.mem_append.mp hmem with hmem | hmem
  · exact hh e hmem
  · exact List.mem_singleton.mp hmem ▸ .inr ⟨hreg, err, rfl⟩

theorem response_known {p : Call F α} {f : α → Response F} (hq : q.registers = false)
    (hp : p.Follows (known F) (fun _ _ => True) (q, h)) :
    (p.bind fun a => .ret (f a)).Follows (known F) (Unregistered q) (q, h) :=
  hp.bind (fun _ _ _ hreg => (Bool.false_ne_true (hq.symm.trans hreg)).elim)
    fun _ _ _ hreg => (Bool.false_ne_true (hq.symm.trans hreg)).elim

variable [FloatText F] [FloatInt F]

theorem body_known (q : Request F) : (body B q).Follows (known F) (Unregistered q) (q, []) := by
  cases q with
  | createTeam teamId lead title =>
    simp only [body, createTeam, Proc.bind_eq]
    split
    · exact registration_known rfl rfl (by simp)
    · refine ⟨savesKnown_of_plain rfl, fun r _ => ?_⟩
      cases r with
      | error err => exact fun _ _ _ e he => List.mem_singleton.mp he ▸ .inl rfl
      | ok hex => exact registration_known rfl rfl fun e he => List.mem_singleton.mp he ▸ .inl rfl
  | createWorker => exact registration_known rfl rfl (by simp)
  | createWorkersBatch => exact registration_known rfl rfl (by simp)
  | setWorkerStatus => exact response_known rfl (setWorkerStatus_known _ _)
  | dispatchTask => exact response_known rfl (plain_calls (dispatchTask_plain ..) _)
  | steerTask => exact response_known rfl (plain_calls ((Proc.only_op _).mpr rfl) _)
  | reprioritizeTask => exact response_known rfl (plain_calls ((Proc.only_op _).mpr rfl) _)
  | cancelTask => exact response_known rfl (plain_calls (cancelTask_plain ..) _)
  | interruptWorker => exact response_known rfl (interruptWorker_known _ _)
  | submitWorkerHandoff evidence verify =>
    exact response_known rfl (plain_calls ((submitWorkerHandoff_only evidence verify).mono
      fun _ => plain_of_handsOver) _)
  | resumeTask dispatchId trusted =>
    -- The protocol asks nothing of a call that goes through the worker controller.
    refine response_known rfl ?_
    refine ((Proc.only_of_forall (A := fun _ => True) (fun _ => trivial) _).follows
      (I := fun m : (known F).Mode => m.1 = .resumeTask dispatchId trusted) rfl ?_).mono
      fun _ _ _ => trivial
    rintro ⟨q', h'⟩ o rfl -
    exact ⟨fun hm => (Bool.false_ne_true hm).elim, fun _ _ => rfl⟩
  | reconcileTeam => exact response_known rfl (reconcileTeam_known _ _)
  | reconcileAmbiguous => exact response_known rfl (plain_calls (reconcileAmbiguous_plain ..) _)

end Calls

/-! ## Runs from an empty store -/

section Runs

variable [LinearOrder F] [FloatText F] [FloatInt F] {B : Builtins F}
variable {c c' c₁ c₂ : Calls B} {ls ls₁ ls₂ : List (supervisors B).Label} {i : Nat} {w : World F}
variable {q : Request F} {o : Op F} {k : Except Error o.Ret → Call F (Response F)}
variable {h : History F} {db : Db F} {ms : List (Request F × History F)}

variable (F) in
def emptyDb : Db F := ⟨[], [], [], [], [], []⟩

def AllManaged (c : Calls B) : Prop := ∀ call ∈ c.calls, call.request.managed = true

structure Registered (db : Db F) (ms : List (Request F × History F)) : Prop where
  roster : Roster db
  known : ∀ m ∈ ms, ∀ id, Knows m.2 id → ∃ row, db.sessions.get? id = some row

omit [LinearOrder F] [FloatText F] [FloatInt F] in
theorem registered_empty : Registered (emptyDb F) [] where
  roster := ⟨by simp [emptyDb], by simp [emptyDb], by simp [emptyDb]⟩
  known _ hm := by cases hm

omit [LinearOrder F] [FloatText F] [FloatInt F] in
theorem Registered.start (hr : Registered db ms) (q : Request F) :
    Registered db (ms ++ [(q, [])]) where
  roster := hr.roster
  known m hm id hk := by
    rcases List.mem_append.mp hm with hm | hm
    · exact hr.known m hm id hk
    · obtain rfl := List.mem_singleton.mp hm
      obtain ⟨e, he, -⟩ := hk
      cases he

omit [LinearOrder F] [FloatText F] [FloatInt F] in
theorem Roster.exists_of_mem (hr : Roster db) {p : String × AgentSession F}
    (hp : p ∈ db.sessions) : ∃ row, db.sessions.get? p.2.sessionId = some row :=
  hr.ids p hp ▸ Dict.exists_get? hp

omit [FloatInt F] in
theorem shown_session {session : AgentSession F} (hr : Roster db)
    (hs : showsSession session ⟨o, (exec B.repr o w db).1⟩) :
    ∃ row, db.sessions.get? session.sessionId = some row := by
  cases o with
  | loadSession id =>
    rw [exec] at hs
    split at hs
    · exact hs.elim
    · exact hr.exists_of_mem (Dict.mem_of_get? hs)
  | listSessionsByTeam teamId =>
    rw [exec] at hs
    split at hs
    · exact hs.elim
    · have hmem : session ∈ db.listSessionsByTeam teamId := hs
      rw [Db.listSessionsByTeam, List.mem_insertionSort, List.mem_filter, List.mem_map] at hmem
      obtain ⟨⟨p, hp, rfl⟩, -⟩ := hmem
      exact hr.exists_of_mem hp
  | _ => exact hs.elim

omit [FloatInt F] in
theorem Registered.act (hr : Registered db ms) (hi : ms[i]? = some (q, h)) (hm : q.managed = true)
    (ha : SavesKnown q h o) : Registered (exec B.repr o w db).2
      (ms.set i (q, h ++ [⟨o, (exec B.repr o w db).1⟩])) := by
  obtain ⟨ho, hsave⟩ := ha hm
  have henrols : Enrols db (exec B.repr o w db).2 := exec_enrols ho fun session he =>
    hr.known _ (List.mem_of_getElem? hi) _ (hsave session he)
  have keep : ∀ id, (∃ row, db.sessions.get? id = some row) →
      ∃ row, (exec B.repr o w db).2.sessions.get? id = some row := by
    rintro id ⟨row, hrow⟩
    obtain ⟨row', hrow', -⟩ := henrols.kept id row hrow
    exact ⟨row', hrow'⟩
  refine ⟨henrols.roster hr.roster, fun m hmem id hk => keep id ?_⟩
  rcases List.mem_or_eq_of_mem_set hmem with hmem | rfl
  · exact hr.known m hmem id hk
  obtain ⟨e, he, session, hs, rfl⟩ := hk
  rcases List.mem_append.mp he with he | he
  · exact hr.known _ (List.mem_of_getElem? hi) _ ⟨e, he, session, hs, rfl⟩
  · exact shown_session hr.roster (List.mem_singleton.mp he ▸ hs)

omit [LinearOrder F] [FloatText F] [FloatInt F] in
theorem known_start (q : Request F) (h : History F) : (known F).after (q, []) h = (q, h) :=
  Protocol.after_ofHistory _ _ q [] h

theorem known_answered : Machine.Answered (M := supervisors B) (known F) (fun _ _ => True)
    (emptyDb F) := fun _ _ _ _ _ _ => trivial

theorem registered_run (hrun : Run (Step B) (start B (emptyDb F)) ls c) (hm : AllManaged c) :
    Registered c.state (c.modes (known F) fun q => (q, [])) := by
  refine Machine.modes_invariant (M := supervisors B) (P := known F) (Q := Unregistered)
    (J := fun db ms => (∀ m ∈ ms, m.1.managed = true) → Registered db ms) body_known known_answered
    (fun _ => registered_empty) ?_ ?_ hrun ?_
  · exact fun db ms q hJ hms => (hJ fun m hmem => hms m (by simp [hmem])).start q
  · intro c i w c' q o k h _ hact hJ ha hms
    simp only [known_start] at ha hms ⊢
    have hi : (c.modes (known F) fun q => (q, []))[i]? = some (q, h) := by
      rw [hact.mode_at, known_start]
    have hlt := (List.getElem?_eq_some_iff.mp hi).1
    have hq : q.managed = true := hms _ (List.mem_set hlt _)
    refine (hJ fun m hmem => ?_).act hi hq ha
    obtain ⟨j, hj⟩ := List.getElem?_of_mem hmem
    by_cases hij : i = j
    · subst hij
      obtain rfl := Option.some.inj (hi.symm.trans hj)
      exact hq
    · exact hms m (List.mem_of_getElem? ((List.getElem?_set_ne hij).trans hj))
  · intro m hmem
    obtain ⟨call, hcall, rfl⟩ := List.mem_map.mp hmem
    rw [Machine.Activity.mode, known_start]
    exact hm call hcall

theorem managed_before (h₂ : Run (Step B) c ls c') (hm : AllManaged c') : AllManaged c := by
  intro call hcall
  obtain ⟨i, hi⟩ := List.getElem?_of_mem hcall
  obtain ⟨call', -, hc', hq, -⟩ := Machine.call_of_run h₂ hi
  exact hq ▸ hm call' (List.mem_of_getElem? hc')

theorem act_enrols (hrun : Run (Step B) (start B (emptyDb F)) ls c) (hm : AllManaged c)
    (hact : Machine.Acts c i w c' q o k h) : Enrols c.state c'.state := by
  have ha := hact.allowed (Q := Unregistered) body_known known_answered hrun
  rw [known_start] at ha
  obtain ⟨ho, hsave⟩ := ha (hm _ (List.mem_of_getElem? hact.call))
  rw [hact.result]
  refine exec_enrols ho fun session he => (registered_run hrun hm).known (q, h) ?_ _
    (hsave session he)
  have hmode : (c.modes (known F) fun q => (q, []))[i]? = some ((known F).after (q, []) h) :=
    hact.mode_at
  rw [known_start] at hmode
  exact List.mem_of_getElem? hmode

theorem kept_run (h₁ : Run (Step B) (start B (emptyDb F)) ls₁ c₁) (h₂ : Run (Step B) c₁ ls₂ c₂)
    (hm : AllManaged c₂) : Kept c₁.state c₂.state := by
  induction h₂ with
  | refl => exact Kept.refl _
  | @tail c c' ls l hp _ hs ih =>
    have hm' := managed_before (.single trivial hs) hm
    refine (ih hm').trans ?_
    cases l with
    | start q =>
      rw [Machine.step_start hs]
      exact Kept.refl _
    | act i w =>
      obtain ⟨q, o, k, h, hact⟩ := Machine.step_act hs
      exact (act_enrols (h₁.trans hp) hm' hact).kept

omit [FloatInt F] in
theorem harmless_exec (hh : Harmless ⟨o, (exec B.repr o w db).1⟩) :
    (exec B.repr o w db).2 = db := by
  rcases hh with ho | ⟨hreg, err, he⟩
  · exact reads_exec ho
  change (exec B.repr o w db).1 = .error err at he
  rw [exec] at he ⊢
  split at he
  next hf => rw [if_pos hf]
  next hf =>
    rw [if_neg hf]
    cases o <;> first
      | exact (Bool.false_ne_true hreg).elim
      | (next => exact atomically_error he)

theorem unregistered_act (h₁ : Run (Step B) (start B (emptyDb F)) ls₁ c₁)
    (hact : Machine.Acts c₁ i w c q o k h) (h₂ : Run (Step B) c ls₂ c₂)
    {call : (supervisors B).Activity} (hc : c₂.calls[i]? = some call)
    (hq : call.request.registers = true) {e : Error} (hr : call.proc.result = some (.error e)) :
    c.state = c₁.state := by
  have hrun := (h₁.trans (.single trivial hact.isStep)).trans h₂
  have hout := Machine.finished (P := known F) (Q := Unregistered) body_known known_answered hrun
    (List.mem_of_getElem? hc) hr
  rw [Machine.Activity.mode, known_start] at hout
  rw [hact.result]
  exact harmless_exec (hout hq e rfl _ (hact.recorded h₂ hc).2)

/-- In every run of managed calls from an empty store: sessions keep their role and team, every
team has a lead of its own which is a LEAD session of that team, every worktree belongs to a
worker of its team, and a registration that raises changes no row. -/
theorem team_identity (h₁ : Run (Step B) (start B (emptyDb F)) ls₁ c₁)
    (h₂ : Run (Step B) c₁ ls₂ c₂) (hm : AllManaged c₂) :
    Kept c₁.state c₂.state ∧
    (∀ teamId team, c₂.state.teams.get? teamId = some team →
      (∃ lead, c₂.state.sessions.get? team.leadSessionId = some lead ∧ lead.role = .lead ∧
        lead.teamId = teamId) ∧
      (∀ teamId' team', c₂.state.teams.get? teamId' = some team' →
        team'.leadSessionId = team.leadSessionId → teamId' = teamId) ∧
      ∀ id session, c₂.state.sessions.get? id = some session → session.role = .worker →
        team.leadSessionId ≠ id) ∧
    (∀ workerId a, c₂.state.worktrees.get? workerId = some a → a.workerId = workerId ∧
      ∃ worker, c₂.state.sessions.get? workerId = some worker ∧ worker.role = .worker ∧
        worker.teamId = a.teamId) ∧
    ∀ (i : Nat) w c, Step B c₁ (.act i w) = some c → ∀ ls c' call e, Run (Step B) c ls c' →
      c'.calls[i]? = some call → call.request.registers = true →
      call.proc.result = some (.error e) → c.state = c₁.state := by
  have hroster := (registered_run (h₁.trans h₂) hm).roster
  refine ⟨kept_run h₁ h₂ hm, fun teamId team hteam => ⟨(hroster.leads teamId team hteam).2, ?_, ?_⟩,
    hroster.worktrees, ?_⟩
  · intro teamId' team' hteam' hlead
    obtain ⟨-, lead, hget, -, ht⟩ := hroster.leads teamId team hteam
    obtain ⟨-, lead', hget', -, ht'⟩ := hroster.leads teamId' team' hteam'
    obtain rfl := Option.some.inj ((hlead ▸ hget').symm.trans hget)
    exact ht'.symm.trans ht
  · rintro id session hget hworker rfl
    obtain ⟨-, lead, hget', hrole, -⟩ := hroster.leads teamId team hteam
    obtain rfl := Option.some.inj (hget.symm.trans hget')
    cases hworker.symm.trans hrole
  · intro i w c hs ls c' call e h₂ hc hq hr
    obtain ⟨q, o, k, h, hact⟩ := Machine.step_act hs
    exact unregistered_act h₁ hact h₂ hc hq hr

def newWorker : WorkerConfig Int := { sampleConfig "worker" with role := "worker" }

def firstWorker : List SampleLabel :=
  ask (.createTeam (some "t") "lead" "T") :: acts 0 1 1 ++
    ask (.createWorker "t" newWorker (some "/w") none) :: acts 1 1 2

def secondWorker : List SampleLabel :=
  ask (.interruptWorker "worker" "") :: acts 2 4 3 ++
    ask (.createWorkersBatch "lead" "t" [newWorker] 4) :: acts 3 1 4

theorem team_identity_twice : ∃ c₁ c₂ : Calls sampleBuiltins,
    (c₁.state.worktrees.get? "worker").isSome = true ∧
    (c₂.calls[3]?.bind (·.proc.result)).any (fun r => !r.toBool) = true ∧
    Kept c₁.state c₂.state := by
  have h : (Library.exec (Step sampleBuiltins) (start sampleBuiltins (emptyDb Int))
      firstWorker).any (fun c => (c.state.worktrees.get? "worker").isSome &&
        (Library.exec (Step sampleBuiltins) c secondWorker).any fun c =>
          (c.calls[3]?.bind (·.proc.result)).any (fun r => !r.toBool) &&
            c.calls.all fun call => call.request.managed) = true := by
    decide +kernel
  obtain ⟨c₁, h₁, hc⟩ := run_of_any h
  obtain ⟨hworktree, h₂⟩ := Bool.and_eq_true_iff.mp hc
  obtain ⟨c₂, h₂, hc⟩ := run_of_any h₂
  obtain ⟨hraised, hmanaged⟩ := Bool.and_eq_true_iff.mp hc
  have hm : AllManaged c₂ := fun call hcall =>
    List.all_eq_true.mp hmanaged call hcall
  exact ⟨c₁, c₂, hworktree, hraised, (team_identity h₁ h₂ hm).1⟩

end Runs

end SubagentBridge.Supervisor
