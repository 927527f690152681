import SubagentBridge.Recovery.Handoffs

/-! The roster of a team whose workers are registered in batches: how many of them are not
archived. -/

namespace SubagentBridge.Supervisor

open Library Domain TeamStore

variable {F : Type}

inductive RosterRequest (F : Type) (team : String) (capacity : Int)
  | createWorkersBatch (leadSessionId teamId : String) (configs : List (WorkerConfig F))
      (maxWorkers : Int) (fixed : teamId = team → maxWorkers = capacity)
  | archiveWorker (workerId : String)
  | dispatchTask (fromSessionId toSessionId taskId : String) (payload : Dict String (Json F))
      (dedupKey : Option String) (priority : Int)
  | updateQueueStatus (dispatchId : String) (status : QueueTaskStatus)
  | submitWorkerHandoff (evidence : HandoffEvidence F) (verifyArtifacts : Bool)

variable {team : String} {capacity : Int}

section Machine

variable [FloatText F] [FloatInt F] (B : Builtins F)

def rosterBody : RosterRequest F team capacity → Call F (Response F)
  | .createWorkersBatch leadSessionId teamId configs maxWorkers _ => do
    return .sessions (← createWorkersBatch leadSessionId teamId configs maxWorkers)
  | .archiveWorker workerId => do return .sessions [← archiveWorker B workerId]
  | .dispatchTask fromSessionId toSessionId taskId payload dedupKey priority => do
    return .item (← dispatchTask B fromSessionId toSessionId taskId payload dedupKey priority)
  | .updateQueueStatus dispatchId status => do
    return .item (← updateQueueStatus B dispatchId status)
  | .submitWorkerHandoff evidence verifyArtifacts => do
    return .reply (← submitWorkerHandoff B evidence verifyArtifacts)

variable (team capacity) in
abbrev rosters [LinearOrder F] : Machine where
  sig := sig F
  Err := Error
  Res := Response F
  Request := RosterRequest F team capacity
  State := Db F
  World := World F
  possible _ _ _ := true
  exec := exec B.repr
  body := rosterBody B

end Machine

/-! ## What a step does to the roster -/

inductive Staffs (team : String) (capacity : Int) : Op F → Prop
  | reads {o} : o.reads = true → Staffs team capacity o
  | queues {o} : (∃ item, o = .insertQueueItemOnce item ∨ o = .saveQueueItem item) →
      Staffs team capacity o
  | archives (session) : session.status = .archived → Staffs team capacity (.saveSession session)
  | registers (teamId leadSessionId configs maxWorkers) : (teamId = team → maxWorkers = capacity) →
      Staffs team capacity (.registerWorkerBatchOnce teamId leadSessionId configs maxWorkers)
  | finalizes (teamId evidence status workerId) :
      Staffs team capacity (.finalizeHandoff teamId evidence status workerId)

section Bodies

variable {B : Builtins F}

theorem archiveWorker_staffs (workerId : String) :
    (archiveWorker B workerId).Only (Staffs team capacity) := by
  rw [archiveWorker, setWorkerStatus, Proc.bind_eq]
  refine Proc.only_op_bind (.reads rfl) fun found => ?_
  cases found with
  | none => trivial
  | some session =>
    refine Proc.only_op_bind (.reads rfl) fun updatedAt => ?_
    exact Proc.only_op_bind (.archives _ rfl) fun _ => trivial

theorem dispatchTask_staffs (fromSessionId toSessionId taskId : String)
    (payload : Dict String (Json F)) (dedupKey : Option String) (priority : Int) :
    (dispatchTask B fromSessionId toSessionId taskId payload dedupKey priority).Only
      (Staffs team capacity) := by
  rw [dispatchTask, Proc.bind_eq]
  refine Proc.only_op_bind (.reads rfl) fun sender =>
    Proc.only_op_bind (.reads rfl) fun receiver => ?_
  cases sender with
  | none => trivial
  | some sender =>
    cases receiver with
    | none => trivial
    | some receiver =>
      refine Proc.only_require_bind fun _ => Proc.only_op_bind (.reads rfl) fun hex => ?_
      refine Proc.only_op_bind (.reads rfl) fun _ => Proc.only_op_bind (.reads rfl) fun _ => ?_
      exact (Proc.only_op _).mpr (.queues ⟨_, .inl rfl⟩)

theorem updateQueueStatus_staffs (dispatchId : String) (status : QueueTaskStatus) :
    (updateQueueStatus B dispatchId status).Only (Staffs team capacity) := by
  rw [updateQueueStatus, Proc.bind_eq]
  refine Proc.only_op_bind (.reads rfl) fun found => ?_
  cases found with
  | none => trivial
  | some item =>
    refine Proc.only_op_bind (.reads rfl) fun updatedAt => ?_
    exact Proc.only_op_bind (.queues ⟨_, .inr rfl⟩) fun _ => trivial

variable [FloatText F] [FloatInt F]

theorem rosterBody_staffs (q : RosterRequest F team capacity) :
    (rosterBody B q).Only (Staffs team capacity) := by
  cases q with
  | createWorkersBatch leadSessionId teamId configs maxWorkers fixed =>
    exact Proc.only_op_bind (.registers _ _ _ _ fixed) fun _ => trivial
  | archiveWorker workerId => exact (archiveWorker_staffs workerId).bind fun _ => trivial
  | dispatchTask => exact (dispatchTask_staffs ..).bind fun _ => trivial
  | updateQueueStatus => exact (updateQueueStatus_staffs ..).bind fun _ => trivial
  | submitWorkerHandoff evidence verifyArtifacts =>
    refine ((submitWorkerHandoff_only evidence verifyArtifacts).mono ?_).bind fun _ => trivial
    rintro o (ho | ⟨_, _, _, _, rfl⟩)
    · exact .reads ho
    · exact .finalizes ..

end Bodies

def onRoster (team : String) (session : AgentSession F) : Bool :=
  session.teamId = team ∧ session.role = .worker ∧ session.status ≠ .archived

def revives (db : Db F) (team workerId : String) (evidence : HandoffEvidence F) : Bool :=
  (db.handoffs.get? evidence.dispatchId).isNone && (db.loadSession workerId).any fun session =>
    session.teamId = team ∧ session.role = .worker ∧ session.status = .archived

section Effects

def staff (team : String) (sessions : Dict String (AgentSession F)) : Nat :=
  (sessions.filter fun p => onRoster team p.2).length

variable {db db' : Db F} {sessions : Dict String (AgentSession F)} {session : AgentSession F}
variable {id : String}

theorem rosterSize_eq (db : Db F) (team : String) :
    db.rosterSize team = staff team db.sessions := rfl

theorem staff_set (team : String) (sessions : Dict String (AgentSession F)) (id : String)
    (session : AgentSession F) :
    staff team (sessions.set id session) +
        (if (sessions.get? id).any (onRoster team) then 1 else 0) =
      staff team sessions + if onRoster team session then 1 else 0 :=
  Dict.length_filter_set (fun p => onRoster team p.2) sessions id session

theorem staff_off (hoff : onRoster team session = false) :
    staff team (sessions.set id session) ≤ staff team sessions := by
  have hset := staff_set team sessions id session
  rw [hoff] at hset
  exact le_trans (Nat.le_add_right ..) hset.le

theorem staff_archive (harch : session.status = .archived) :
    (db.saveSession session).rosterSize team ≤ db.rosterSize team := by
  refine staff_off ?_
  split <;> simp [onRoster, harch]

theorem staff_created (team : String) {teamId : String} {created : List (AgentSession F)}
    (sessions : Dict String (AgentSession F)) (hteam : ∀ s ∈ created, s.teamId = teamId) :
    staff team (created.foldl (fun d s => d.set s.sessionId s) sessions) ≤
      staff team sessions + if teamId = team then created.length else 0 := by
  induction created generalizing sessions with
  | nil => simp
  | cons s created ih =>
    rw [List.foldl_cons]
    refine (ih _ fun s' hs' => hteam s' (List.mem_cons_of_mem _ hs')).trans ?_
    by_cases hid : teamId = team
    · have hset := staff_set team sessions s.sessionId s
      rw [if_pos hid, if_pos hid, List.length_cons]
      split at hset <;> split at hset <;> omega
    · rw [if_neg hid, if_neg hid]
      exact staff_off (by simp [onRoster, hteam s List.mem_cons_self, hid])

theorem rosterSize_register {teamId leadSessionId : String} {configs : List (WorkerConfig F)}
    {maxWorkers : Int} {now : F} {created : List (AgentSession F)}
    (h : db.registerWorkerBatchOnce teamId leadSessionId configs maxWorkers now =
      .ok (created, db')) :
    db'.rosterSize team ≤ db.rosterSize team ∨
      teamId = team ∧ (db'.rosterSize team : Int) ≤ maxWorkers := by
  simp only [Db.registerWorkerBatchOnce, Db.registerWorkerBatch, bind_ok, require_ok] at h
  obtain ⟨_, _, _, _, _, _, _, hroom, _, _, h⟩ := h
  obtain ⟨rfl, rfl⟩ := Prod.mk.inj (Except.ok.inj h)
  have hteam : ∀ s ∈ configs.map fun config => registered .worker teamId config now,
      s.teamId = teamId := by simp [registered]
  have hsize := staff_created team db.sessions hteam
  rw [List.length_map] at hsize
  by_cases hid : teamId = team
  · rw [if_pos hid] at hsize
    rw [hid, rosterSize_eq] at hroom
    refine .inr ⟨hid, le_trans (Int.ofNat_le.mpr hsize) ?_⟩
    omega
  · rw [if_neg hid] at hsize
    exact .inl hsize

theorem rosterSize_finalize {repr : String → String} {teamId workerId : String}
    {evidence : HandoffEvidence F} {status : Option QueueTaskStatus} {now : F}
    (h : db.finalizeHandoff repr teamId evidence status workerId now = .ok ((), db')) :
    db'.rosterSize team =
      db.rosterSize team + if revives db team workerId evidence then 1 else 0 := by
  unfold Db.finalizeHandoff at h
  split at h
  next => cases h
  next hnew =>
    obtain rfl := (Prod.mk.inj (Except.ok.inj h)).2
    rw [rosterSize_eq, rosterSize_eq, revives, Db.loadSession, hnew]
    cases hold : db.sessions.get? workerId with
    | none => simp
    | some row =>
      have hset := staff_set team db.sessions workerId
        { row with status := .idle, updatedAt := now }
      have hback : (if onRoster team { row with status := .idle, updatedAt := now } then 1 else 0) =
          (if onRoster team row then 1 else 0) + if decide (row.teamId = team ∧
            row.role = .worker ∧ row.status = .archived) then 1 else 0 := by
        by_cases hteam : row.teamId = team <;> by_cases hrole : row.role = .worker <;>
          by_cases harch : row.status = .archived <;> simp [onRoster, hteam, hrole, harch]
      rw [hold, Option.any_some, hback] at hset
      simp only [Option.any_some, Option.isNone_none, Bool.true_and]
      omega

end Effects

/-! ## Runs -/

section Runs

variable [LinearOrder F] [FloatText F] [FloatInt F] {B : Builtins F}

/-- A handoff puts an archived worker of the team back to work when the roster is full. -/
def overbooks (team : String) (capacity : Int) (w : World F) (db : Db F) : Op F → Bool
  | .finalizeHandoff _ evidence _ workerId =>
    !w.fails && revives db team workerId evidence && capacity ≤ db.rosterSize team
  | _ => false

def crowds (c : (rosters team capacity B).Config) : (rosters team capacity B).Label → Bool
  | .start _ => false
  | .act i w => match c.calls[i]? with
    | some ⟨_, .call o _, _⟩ => overbooks team capacity w c.state o
    | _ => false

abbrev Vacant (c : (rosters team capacity B).Config) (l : (rosters team capacity B).Label) : Prop :=
  crowds c l = false

section Step

variable {repr : String → String} {o : Op F} {w : World F} {db : Db F}

omit [FloatInt F]

theorem rosterSize_finalized (teamId workerId : String) (evidence : HandoffEvidence F)
    (status : Option QueueTaskStatus) :
    (exec repr (.finalizeHandoff teamId evidence status workerId) w db).2.rosterSize team =
      db.rosterSize team +
        if (!w.fails && revives db team workerId evidence) = true then 1 else 0 := by
  rw [exec]
  split
  next h => simp [h.1]
  next h =>
    have hf : w.fails = false := by simpa [Op.external] using h
    rw [hf, run]
    rcases atomically_cases (Db.finalizeHandoff repr teamId evidence status workerId w.time) db with
      ⟨e, he, hrun⟩ | ⟨⟨⟩, db', hok, hrun⟩
    · have hold : revives db team workerId evidence = false := by
        unfold Db.finalizeHandoff at he
        split at he
        next hold => simp [revives, hold]
        next => cases he
      simp [hrun, hold]
    · rw [hrun]
      exact rosterSize_finalize hok

theorem rosterSize_exec (ho : Staffs team capacity o)
    (hfin : ∀ teamId evidence status workerId,
      o ≠ .finalizeHandoff teamId evidence status workerId) :
    (exec repr o w db).2.rosterSize team ≤ db.rosterSize team ∨
      ((exec repr o w db).2.rosterSize team : Int) ≤ capacity := by
  cases ho with
  | reads ho => exact .inl (by rw [reads_exec ho])
  | queues ho =>
    obtain ⟨item, rfl | rfl⟩ := ho
    · rcases exec_atomically repr w db (o := .insertQueueItemOnce item) rfl with
        ⟨e, h⟩ | ⟨saved, db', hins, h⟩
      · exact .inl (by rw [h])
      · rw [h]
        rcases insert_ok hins with rfl | ⟨-, -, -, rfl⟩
        · exact .inl le_rfl
        · exact .inl le_rfl
    · rw [exec]
      split
      · exact .inl le_rfl
      · exact .inl le_rfl
  | archives session harch =>
    rw [exec]
    split
    · exact .inl le_rfl
    · exact .inl (staff_archive harch)
  | registers teamId leadSessionId configs maxWorkers hfix =>
    rcases exec_atomically repr w db
      (o := .registerWorkerBatchOnce teamId leadSessionId configs maxWorkers) rfl with
      ⟨e, h⟩ | ⟨created, db', hreg, h⟩
    · exact .inl (by rw [h])
    · rw [h]
      refine (rosterSize_register hreg).imp id ?_
      rintro ⟨hteam, hle⟩
      exact hfix hteam ▸ hle
  | finalizes teamId evidence status workerId => exact (hfin _ _ _ _ rfl).elim

theorem within_exec (ho : Staffs team capacity o) (hcap : (db.rosterSize team : Int) ≤ capacity) :
    ((exec repr o w db).2.rosterSize team : Int) ≤ capacity ↔
      overbooks team capacity w db o = false := by
  by_cases hfin : ∃ teamId evidence status workerId,
    o = .finalizeHandoff teamId evidence status workerId
  · obtain ⟨teamId, evidence, status, workerId, rfl⟩ := hfin
    rw [rosterSize_finalized, overbooks]
    by_cases hback : (!w.fails && revives db team workerId evidence) = true
    · rw [if_pos hback, hback, Bool.true_and, decide_eq_false_iff_not]
      push_cast
      omega
    · rw [if_neg hback, Bool.eq_false_iff.mpr hback]
      simpa using hcap
  · have hno : overbooks team capacity w db o = false := by
      cases o with
      | finalizeHandoff teamId evidence status workerId => exact (hfin ⟨_, _, _, _, rfl⟩).elim
      | _ => rfl
    refine ⟨fun _ => hno, fun _ => ?_⟩
    rcases rosterSize_exec ho fun a b c d h => hfin ⟨a, b, c, d, h⟩ with hle | hle
    · exact (Int.ofNat_le.mpr hle).trans hcap
    · exact hle

end Step

/-- The roster stays within the capacity for as long as no step overbooks it. -/
theorem roster_within_capacity {db : Db F} (hcap : (db.rosterSize team : Int) ≤ capacity)
    {ls : List (rosters team capacity B).Label} {c : (rosters team capacity B).Config}
    (hrun : Run Machine.step ((rosters team capacity B).initial db) ls c) :
    Path Machine.step Vacant ((rosters team capacity B).initial db) ls c ↔
      ∀ ls₁ ls₂ c₁, ls = ls₁ ++ ls₂ →
        Run Machine.step ((rosters team capacity B).initial db) ls₁ c₁ →
        (c₁.state.rosterSize team : Int) ≤ capacity := by
  have hcalls : ∀ ms d, Run Machine.step ((rosters team capacity B).initial db) ms d →
      ∀ a ∈ d.calls, a.proc.Only (Staffs team capacity) := fun _ _ h =>
    Machine.only_run (A := fun _ => Staffs team capacity) rosterBody_staffs h
  rw [(hrun.within hcalls).guarded_iff (G := Vacant)
    (I := fun c => (c.state.rosterSize team : Int) ≤ capacity) hcap]
  · refine forall_congr' fun ls₁ => forall_congr' fun ls₂ => forall_congr' fun c₁ => ?_
    refine imp_congr_right fun _ => imp_congr_left ⟨fun h => h.run, fun h => h.within hcalls⟩
  · rintro c (q | ⟨i, w⟩) c' hI ⟨hcalls, -⟩ hs
    · rw [Machine.step_start hs]
      exact ⟨fun _ => rfl, fun _ => hI⟩
    · obtain ⟨q, o, k, h, hact⟩ := Machine.step_act hs
      have ho := (hcalls _ (List.mem_of_getElem? hact.call)).1
      rw [hact.result, Vacant, crowds, hact.call]
      exact within_exec ho hI

end Runs

/-! ## A team of one -/

def ledTeam : Db Int where
  teams := [("t", ⟨"t", "lead", "T", 0⟩)]
  sessions := [("lead", registered .lead "t" (leadConfig "lead" "t") 0)]
  queue := []
  worktrees := []
  handoffs := []
  checkpoints := []

abbrev SampleRoster := rosters "t" 1 sampleBuiltins

def hire (workerId : String) : SampleRoster.Label :=
  .start (.createWorkersBatch "lead" "t" [{ sampleConfig workerId with role := "worker" }] 1
    fun _ => rfl)

def goes (i n : Nat) (time : Int) : List SampleRoster.Label :=
  List.replicate n (.act i (sampleWorld time))

def replacement : List SampleRoster.Label :=
  hire "worker" :: goes 0 1 0 ++ .start (.archiveWorker "worker") :: goes 1 3 0 ++
    hire "second" :: goes 2 1 0

def lateHandoff : List SampleRoster.Label :=
  hire "worker" :: goes 0 1 0 ++
    .start (.dispatchTask "lead" "worker" "task" [] none 0) :: goes 1 6 0 ++
    .start (.updateQueueStatus "dsp-0123456789ab" .dispatched) :: goes 2 3 0 ++
    .start (.archiveWorker "worker") :: goes 3 3 0 ++ hire "second" :: goes 4 1 0 ++
    .start (.submitWorkerHandoff (sampleEvidence "dsp-0123456789ab" "FAILED") true) :: goes 5 7 0

theorem roster_within_replacement : ∃ c,
    Run Machine.step (SampleRoster.initial ledTeam) replacement c ∧
    ∀ ls₁ ls₂ c₁, replacement = ls₁ ++ ls₂ →
      Run Machine.step (SampleRoster.initial ledTeam) ls₁ c₁ →
        (c₁.state.rosterSize "t" : Int) ≤ 1 := by
  have hrun : (Library.exec (restrict Machine.step Vacant) (SampleRoster.initial ledTeam)
      replacement).any (fun _ => true) = true := by decide +kernel
  obtain ⟨c, hc, -⟩ := run_of_any hrun
  have hpath := path_of_restrict hc
  have hempty : (ledTeam.rosterSize "t" : Int) ≤ 1 := by decide
  exact ⟨c, hpath.run, (roster_within_capacity hempty hpath.run).mp hpath⟩

/-- Two workers of a team with room for one. -/
theorem roster_beyond_capacity : ledTeam.rosterSize "t" = 0 ∧ ∃ c,
    Run Machine.step (SampleRoster.initial ledTeam) lateHandoff c ∧ c.state.rosterSize "t" = 2 := by
  refine ⟨by decide, ?_⟩
  have hrun : (Library.exec Machine.step (SampleRoster.initial ledTeam) lateHandoff).any
      (fun c => c.state.rosterSize "t" = 2) = true := by decide +kernel
  obtain ⟨c, hc, hsize⟩ := run_of_any hrun
  exact ⟨c, hc, of_decide_eq_true hsize⟩

end SubagentBridge.Supervisor
