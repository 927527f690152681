import SubagentBridge.Server.ToolLaws

/-! What a lifecycle does, operation by operation: it works on one task at a time, and leaves
runs, other tasks and approvals alone. -/

namespace SubagentBridge.Server

open Library Domain Planner Qa Team SqliteStore Execution

variable {B : Type} {api : BudgetApi B}

/-! ## Records -/

section Records

variable {taskId : String} {rs : List TaskRecord} {f : TaskRecord → TaskRecord}

theorem id_of_recordOf {r : TaskRecord} (h : recordOf taskId rs = some r) :
    r.taskId = taskId := by simpa using List.find?_some h

theorem mem_of_recordOf {r : TaskRecord} (h : recordOf taskId rs = some r) : r ∈ rs :=
  List.mem_reverse.mp (List.mem_of_find?_eq_some h)

theorem recordOf_cons (r : TaskRecord) (rs : List TaskRecord) :
    recordOf taskId (r :: rs) =
      (recordOf taskId rs).or (if r.taskId = taskId then some r else none) := by
  simp only [recordOf, List.reverse_cons, List.find?_append, List.find?_cons, List.find?_nil]
  congr 1
  split <;> simp_all

theorem recordOf_eq_none : recordOf taskId rs = none ↔ ∀ r ∈ rs, r.taskId ≠ taskId := by
  simp [recordOf]

theorem recordOf_modifyRecord (hf : ∀ r, (f r).taskId = r.taskId) (rs : List TaskRecord) :
    recordOf taskId (modifyRecord taskId f rs) = (recordOf taskId rs).map f := by
  induction rs with
  | nil => rfl
  | cons r rs ih =>
    rw [modifyRecord]
    split
    next h =>
      obtain ⟨hr, hrs⟩ := h
      have hnone := recordOf_eq_none.mpr hrs
      simp [recordOf_cons, hnone, hf, hr]
    next h =>
      rw [recordOf_cons, recordOf_cons, ih]
      cases hrs : recordOf taskId rs with
      | some r' => simp
      | none =>
        have hr : r.taskId ≠ taskId := fun hr => h ⟨hr, recordOf_eq_none.mp hrs⟩
        simp [hr]

theorem recordOf_modifyRecord_of_ne (hf : ∀ r, (f r).taskId = r.taskId) {id : String}
    (hid : id ≠ taskId) (rs : List TaskRecord) :
    recordOf id (modifyRecord taskId f rs) = recordOf id rs := by
  induction rs with
  | nil => rfl
  | cons r rs ih =>
    rw [modifyRecord]
    split
    next h => simp [recordOf_cons, hf, h.1, Ne.symm hid]
    next => rw [recordOf_cons, recordOf_cons, ih]

theorem mem_modifyRecord {r : TaskRecord} (h : r ∈ modifyRecord taskId f rs) :
    r ∈ rs ∨ ∃ r' ∈ rs, r'.taskId = taskId ∧ r = f r' := by
  induction rs with
  | nil => cases h
  | cons r' rs ih =>
    rw [modifyRecord] at h
    split at h
    next hr =>
      rcases List.mem_cons.mp h with rfl | h
      · exact .inr ⟨r', List.mem_cons_self .., hr.1, rfl⟩
      · exact .inl (List.mem_cons_of_mem _ h)
    next =>
      rcases List.mem_cons.mp h with rfl | h
      · exact .inl (List.mem_cons_self ..)
      · rcases ih h with h | ⟨r'', hr'', h⟩
        · exact .inl (List.mem_cons_of_mem _ h)
        · exact .inr ⟨r'', List.mem_cons_of_mem _ hr'', h⟩

theorem map_taskId_modifyRecord (hf : ∀ r, (f r).taskId = r.taskId) (rs : List TaskRecord) :
    (modifyRecord taskId f rs).map (·.taskId) = rs.map (·.taskId) := by
  induction rs with
  | nil => rfl
  | cons r rs ih =>
    rw [modifyRecord]
    split
    next => simp [hf]
    next => simp [ih]

end Records

/-! ## The work on a task -/

structure Edit (f : TaskRecord → TaskRecord) : Prop where
  taskId : ∀ r, (f r).taskId = r.taskId
  runId : ∀ r, (f r).runId = r.runId
  status : ∀ r, (f r).status ≠ .recoveryRequired

theorem edit_status {status : TaskStatus} (h : status ≠ .recoveryRequired) :
    Edit fun r => { r with status } := ⟨fun _ => rfl, fun _ => rfl, fun _ => h⟩

namespace Lifecycle

def edited (l : Lifecycle) (taskId : String) (f : TaskRecord → TaskRecord)
    (s : State B) : State B :=
  { s with memory := { s.memory with
      tasks := s.memory.tasks.set l.runId (modifyRecord taskId f (s.memory.taskRecords l.runId)) } }

/-- What one operation does while the lifecycle is at work on `taskId`. -/
inductive Effect (l : Lifecycle) (taskId : String) (s s' : State B) : Op B → Prop
  | asks {o : Op B} : o.quiet = true → s' = s → Effect l taskId s s' o
  | coordinates {g : Memory B → Memory B} (systems : Dict String (System B)) :
    s' = { s with memory := { s.memory with systems } } → Effect l taskId s s' (.modify g)
  | edits {g : Memory B → Memory B} (f : TaskRecord → TaskRecord) : Edit f →
    s' = l.edited taskId f s → Effect l taskId s s' (.modify g)
  | writes {r : TaskRecord} : recordOf taskId (s.memory.taskRecords l.runId) = some r →
    r.status ≠ .recoveryRequired → s'.memory = s.memory →
    s'.db = s.db ∨ s.db.upsertTask r = .ok ((), s'.db) → Effect l taskId s s' (.upsertTask r)
  | dispatches {d : DispatchRow} : d.taskId = taskId → s'.memory = s.memory →
    s'.db = s.db ∨ s.db.upsertDispatch d = .ok ((), s'.db) →
      Effect l taskId s s' (.upsertDispatch d)
  | develops {argv : List String} : argv ≠ [] → (∃ key, (key, argv) ∈ l.commands) → s' = s →
    Effect l taskId s s' (.runIsolated taskId argv)
  | tests {files : List String} : s' = s → Effect l taskId s s' (.runQa taskId files)

def Works (l : Lifecycle) (taskId : String) (m m' : Moment B) : Prop :=
  ∃ e : ServerEvent B, m'.history = m.history ++ [e] ∧ l.Effect taskId m.state m'.state e.op

section Stages

variable {W : World B → Prop} {m : Moment B} {l : Lifecycle} {taskId : String} {α : Type}

theorem allowsAsking_works : AllowsAsking (l.Works (B := B) taskId) :=
  fun _ w m ho => ⟨_, rfl, .asks ho.1 (ho.state w m.state)⟩

theorem works_of_asks {p : Call B α} (hp : p.Only Op.asks) :
    p.Ensures W (l.Works taskId) (fun m' _ => m'.state = m.state) m := by
  apply hp.ensures (I := fun m' => m'.state = m.state) rfl
  intro o w m' ho _ _ h
  exact ⟨allowsAsking_works o w m' ho, (ho.state w m'.state).trans h⟩

theorem works_then {β : Type} {P : Moment B → β → Prop} {Q : Moment B → Except Error α → Prop}
    {p : Call B α} {f : α → Call B β} (hp : p.Ensures W (l.Works taskId) Q m)
    (hf : ∀ m' a, (f a).Ensures W (l.Works taskId) (Proc.Returns P) m') :
    (p.bind f).Ensures W (l.Works taskId) (Proc.Returns P) m :=
  hp.bind (fun m' a _ => hf m' a) fun _ e _ => Proc.returns_error e

theorem works_returns {p : Call B α} {Q : Moment B → Except Error α → Prop}
    (hp : p.Ensures W (l.Works taskId) Q m) :
    p.Ensures W (l.Works taskId) (Proc.Returns fun _ _ => True) m :=
  hp.post fun _ _ _ _ _ => trivial

theorem coordinate_works
    (f : String → SupervisedCoordinator B → Result (SupervisedCoordinator B) α) :
    (coordinate l.workspace f).Ensures W (l.Works taskId) (fun _ _ => True) m := by
  apply ensures_ask_bind allowsAsking_works ⟨rfl, rfl⟩
  · intro m₁ id _ _
    apply ensures_memory_bind allowsAsking_works
    intro m₂ h₂ _
    rw [← h₂]
    split
    next => trivial
    next c _ =>
      apply ensures_perform_bind
      intro w _ _
      refine ⟨⟨_, rfl, ?_⟩, fun _ _ => ?_, fun _ _ => trivial⟩
      · refine .coordinates (m₂.state.memory.setCoordinator l.workspace (f id c).2).systems ?_
        simp only [Runtime.after_state, exec, Memory.setCoordinator]
        split <;> rfl
      · exact (works_of_asks (Proc.only_ofExcept _)).post fun _ _ _ => trivial
  · exact fun _ _ _ _ => trivial

structure Saved (l : Lifecycle) (taskId : String) (P : TaskRecord → Prop) (s : State B) : Prop where
  record : ∀ r, recordOf taskId (s.memory.taskRecords l.runId) = some r → P r
  row : l.useStore = true → ∀ r, recordOf taskId (s.memory.taskRecords l.runId) = some r →
    ∃ row, s.db.tasks.get? taskId = some row ∧ row.status = r.status ∧
      row.evidenceIds = r.evidenceIds

theorem upsertTask_row {t : TaskRecord} {db db' : Db} (h : db.upsertTask t = .ok ((), db')) :
    ∃ row, db'.tasks.get? t.taskId = some row ∧ row.status = t.status ∧
      row.evidenceIds = t.evidenceIds := by
  rw [Db.upsertTask] at h
  split at h
  next row _ =>
    cases h
    exact ⟨TaskRecord.assign row t, by simp [Dict.get?_set], rfl, rfl⟩
  next =>
    simp only [bind_ok, require_ok] at h
    obtain ⟨_, -, h⟩ := h
    cases h
    exact ⟨t, by simp [Dict.get?_set], rfl, rfl⟩

theorem taskRecords_edited {f : TaskRecord → TaskRecord} (s : State B) :
    (l.edited taskId f s).memory.taskRecords l.runId =
      modifyRecord taskId f (s.memory.taskRecords l.runId) := by
  simp [edited, Memory.taskRecords, Dict.get?_set]

theorem saveRecord_works {f : TaskRecord → TaskRecord} (hf : Edit f) :
    (l.saveRecord taskId f).Ensures W (l.Works taskId)
      (Proc.Returns fun m' (_ : Unit) => l.Saved taskId (fun r => ∃ r', r = f r') m'.state) m := by
  apply ensures_memory_bind allowsAsking_works
  intro m₁ h₁ _
  rw [← h₁]
  apply ensures_modify_bind
  · exact fun w => ⟨_, rfl, .edits f hf rfl⟩
  intro m₂ h₂ _
  have hrecord : recordOf taskId (m₂.state.memory.taskRecords l.runId) =
      recordOf taskId (modifyRecord taskId f (m₁.state.memory.taskRecords l.runId)) := by
    have hedited : m₂.state = l.edited taskId f m₁.state := h₂
    rw [hedited, taskRecords_edited]
  have hf' : recordOf taskId (m₂.state.memory.taskRecords l.runId) =
      (recordOf taskId (m₁.state.memory.taskRecords l.runId)).map f := by
    rw [hrecord, recordOf_modifyRecord hf.taskId]
  have hmem : ∀ r, recordOf taskId (m₂.state.memory.taskRecords l.runId) = some r →
      ∃ r', r = f r' := by
    intro r hr
    rw [hf'] at hr
    obtain ⟨r', -, hr'⟩ := Option.map_eq_some_iff.mp hr
    exact ⟨r', hr'.symm⟩
  rw [← hrecord]
  split
  next r hr =>
    rw [Proc.when]
    split
    next hstore =>
      apply ensures_perform (.upsertTask r)
      intro w _ _
      have hs : r.status ≠ .recoveryRequired := by
        obtain ⟨r', rfl⟩ := hmem r hr
        exact hf.status r'
      rcases writing_cases w m₂.state (Db.upsertTask r) with ⟨e, he⟩ | ⟨db, hdb, he⟩
      · refine ⟨⟨_, rfl, .writes hr hs ?_ (.inl ?_)⟩, ?_⟩ <;> simp [exec, he]
      · refine ⟨⟨_, rfl, .writes hr hs ?_ (.inr ?_)⟩, ?_⟩
        · simp [exec, he]
        · simpa [exec, he] using hdb
        · simp only [exec, he, Proc.returns_ok, Runtime.after_state]
          refine ⟨hmem, fun _ r' hr' => ?_⟩
          cases hr.symm.trans hr'
          rw [← id_of_recordOf hr]
          exact upsertTask_row hdb
    next hstore =>
      exact fun _ _ => ⟨hmem, fun hs => absurd hs hstore⟩
  next hnone =>
    exact fun _ _ => ⟨hmem, fun _ r hr => by rw [hnone] at hr; cases hr⟩

theorem saveStatus_works {status : TaskStatus} (h : status ≠ .recoveryRequired) :
    (l.saveStatus taskId status).Ensures W (l.Works taskId) (Proc.Returns fun _ _ => True) m :=
  works_returns (saveRecord_works (edit_status h))

theorem asks_logEvent (key eventType : String) (payload : Dict String String) :
    (l.logEvent key eventType payload : Call B Unit).Only Op.asks :=
  Proc.Only.tryCatch ((Proc.only_op _).mpr ⟨rfl, rfl⟩) fun _ => trivial

theorem freezeTask_works :
    (l.freezeTask taskId).Ensures W (l.Works taskId) (Proc.Returns fun _ _ => True) m := by
  apply ensures_memory_bind allowsAsking_works
  intro m₁ _ _
  split
  next => exact Proc.returns_error _
  next r _ =>
    apply works_then (coordinate_works _)
    intro m₂ _
    apply works_then (saveStatus_works (by decide))
    intro m₃ _
    apply works_then (works_of_asks (asks_logEvent _ _ _))
    exact fun _ _ => Proc.returns_ok r.role |>.mpr trivial

theorem missingCommand_works : (l.missingCommand taskId).Ensures W (l.Works taskId)
    (Proc.Returns fun (_ : Moment B) f => f ≠ none) m := by
  apply works_then (saveStatus_works (by decide))
  intro m₁ _
  apply works_then (works_of_asks (asks_logEvent _ _ _))
  intro m₂ _
  exact (Proc.returns_ok _).mpr (by simp)

theorem upsertDispatch_works {d : DispatchRow} (hd : d.taskId = taskId) :
    (perform (.upsertDispatch d)).Ensures W (l.Works taskId) (fun _ _ => True) m := by
  apply ensures_perform (.upsertDispatch d)
  intro w _ _
  rcases writing_cases w m.state (Db.upsertDispatch d) with ⟨e, he⟩ | ⟨db, hdb, he⟩
  · refine ⟨⟨_, rfl, .dispatches hd ?_ (.inl ?_)⟩, trivial⟩ <;> simp [exec, he]
  · refine ⟨⟨_, rfl, .dispatches hd ?_ (.inr ?_)⟩, trivial⟩
    · simp [exec, he]
    · simpa [exec, he] using hdb

theorem beginDispatch_works : (l.beginDispatch api taskId).Ensures W (l.Works taskId)
    (Proc.Returns fun _ _ => True) m := by
  apply works_then (coordinate_works _)
  intro m₁ plan
  apply works_then (saveStatus_works (by decide))
  intro m₂ _
  apply works_then (Q := fun _ _ => True)
  · exact Proc.ensures_when (fun _ => upsertDispatch_works rfl) fun _ => trivial
  · intro m₃ _
    apply works_then (works_of_asks (asks_logEvent _ _ _))
    exact fun _ _ => (Proc.returns_ok plan).mpr trivial

theorem asks_consult : (l.consult taskId : Call B Unit).Only Op.asks := by
  apply Proc.Only.tryCatch
  · exact Proc.Only.bind ((Proc.only_op _).mpr ⟨rfl, rfl⟩) fun _ => asks_logEvent _ _ _
  · exact fun _ => asks_logEvent _ _ _

theorem develop_works {cmd : List String} (hcmd : cmd ≠ [])
    (hmem : ∃ key, (key, cmd) ∈ l.commands) :
    (develop taskId cmd).Ensures W (l.Works (B := B) taskId) (fun _ _ => True) m := by
  apply Proc.Ensures.tryCatch (M := fun _ _ => True)
  · apply ensures_perform_bind
    intro w _ _
    exact ⟨⟨_, rfl, .develops hcmd hmem rfl⟩, fun _ _ => trivial, fun _ _ => trivial⟩
  · exact fun _ _ _ => trivial
  · exact fun _ _ _ => trivial

theorem reportSuccess_works (plan : DispatchPlan) (exitCode : Int) :
    (l.reportSuccess taskId plan exitCode).Ensures W (l.Works (B := B) taskId)
      (fun _ _ => True) m := by
  apply (coordinate_works _).seq
  intro m₁ _
  apply ((saveStatus_works (by decide)).post fun _ _ _ => trivial).seq
  intro m₂ _
  apply ((works_of_asks (asks_logEvent _ _ _)).post fun _ _ _ => trivial).seq
  intro m₃ _
  apply (coordinate_works _).seq
  intro m₄ receipt
  exact coordinate_works _

theorem asks_testFiles (relPaths : List String) :
    (l.testFiles relPaths : Call B _).Only Op.asks := by
  induction relPaths with
  | nil => trivial
  | cons relPath relPaths ih =>
    apply Proc.only_op_bind ⟨rfl, rfl⟩
    intro _
    exact Proc.Only.bind ih fun _ => trivial

theorem runTests_works (pins : Dict String String) :
    (l.runTests taskId pins).Ensures W (l.Works (B := B) taskId) (fun _ _ => True) m := by
  apply ((works_of_asks (asks_testFiles _)).post fun _ _ _ => trivial).seq
  intro m₁ files
  split
  next => trivial
  next =>
    apply ensures_ask_bind allowsAsking_works ⟨rfl, rfl⟩
    · intro m₂ _ _ _
      apply Proc.Ensures.tryCatch (M := fun _ _ => True)
      · apply ensures_perform_bind
        intro w _ _
        exact ⟨⟨_, rfl, .tests rfl⟩, fun _ _ => trivial, fun _ _ => trivial⟩
      · exact fun _ _ _ => trivial
      · exact fun _ _ _ => trivial
    · exact fun _ _ _ _ => trivial

theorem asks_digests (pins : Dict String String) :
    (l.digests pins : Call B _).Only Op.asks := by
  apply Proc.only_fold
  intro actual relPath
  exact Proc.only_op_bind ⟨rfl, rfl⟩ fun _ => trivial

theorem review_works (evidence : Evidence) :
    (l.review api taskId evidence).Ensures W (l.Works taskId) (fun _ _ => True) m := by
  have hpins : (l.pins : Call B _).Only Op.asks := Proc.only_op_bind ⟨rfl, rfl⟩ fun _ => trivial
  apply ((works_of_asks hpins).post fun _ _ _ => trivial).seq
  intro m₁ pins
  apply (runTests_works _).seq
  intro m₂ passed
  apply ensures_ask_bind allowsAsking_works ⟨rfl, rfl⟩ _ fun _ _ _ _ => trivial
  intro m₃ status _ _
  apply ensures_ask_bind allowsAsking_works ⟨rfl, rfl⟩ _ fun _ _ _ _ => trivial
  intro m₄ tree _ _
  apply ((works_of_asks (asks_digests _)).post fun _ _ _ => trivial).seq
  intro m₅ hashes
  exact coordinate_works _

abbrev Verified (l : Lifecycle) (taskId : String) (s : State B) : Prop :=
  l.Saved taskId (·.status = .verified) s

theorem reviewStatus_ne (status : Qa.Status) : reviewStatus status ≠ .recoveryRequired := by
  cases status <;> decide

theorem settle_works (plan : DispatchPlan) (evidence : Evidence) (decision : EvidenceDecision) :
    (l.settle api taskId plan evidence decision).Ensures W (l.Works taskId)
      (Proc.Returns fun m' f => f = none → l.Verified taskId m'.state) m := by
  rw [settle]
  split
  next =>
    have hedit : Edit fun r => { r with
        status := .verified, evidenceIds := [evidence.evidenceId] } :=
      ⟨fun _ => rfl, fun _ => rfl, fun _ => by simp⟩
    apply (saveRecord_works hedit).then
    intro m₁ _ hsaved
    apply (works_of_asks (asks_logEvent _ _ _)).first
    intro m₂ _ h₂
    refine (Proc.returns_ok _).mpr fun _ => ?_
    rw [h₂]
    refine ⟨fun r hr => ?_, hsaved.row⟩
    obtain ⟨r', rfl⟩ := hsaved.record r hr
    rfl
  next =>
    apply works_then (coordinate_works _)
    intro m₁ _
    apply works_then (saveStatus_works (reviewStatus_ne _))
    exact fun _ _ => (Proc.returns_ok _).mpr fun hf => by cases hf

theorem conclude_works (plan : DispatchPlan) (exitCode : Int) :
    (l.conclude api taskId plan exitCode).Ensures W (l.Works taskId)
      (Proc.Returns fun m' f => f = none → l.Verified taskId m'.state) m := by
  rw [conclude]
  split
  next =>
    apply works_then (coordinate_works _)
    intro m₁ _
    apply works_then (saveStatus_works (by decide))
    exact fun _ _ => (Proc.returns_ok _).mpr fun hf => by cases hf
  next =>
    apply works_then (reportSuccess_works _ _)
    intro m₁ evidence
    apply works_then (review_works _)
    intro m₂ decision
    exact settle_works _ _ _

theorem commandFor_mem {commands : Dict String (List String)} {role : String} {cmd : List String}
    (h : commandFor commands taskId role = some cmd) : cmd ≠ [] ∧ ∃ key, (key, cmd) ∈ commands := by
  have hmem : ∀ key, (commands.get? key).filter (· ≠ []) = some cmd →
      cmd ≠ [] ∧ ∃ key, (key, cmd) ∈ commands := by
    intro key hkey
    obtain ⟨hget, hne⟩ := Option.filter_eq_some_iff.mp hkey
    exact ⟨by simpa using hne, key, Dict.mem_of_get? hget⟩
  simp only [commandFor, Option.or_eq_some_iff] at h
  rcases h with h | ⟨-, h | ⟨-, h⟩⟩ <;> exact hmem _ h

theorem executeDispatched_works {cmd : List String} (hcmd : cmd ≠ [])
    (hmem : ∃ key, (key, cmd) ∈ l.commands) (plan : DispatchPlan) :
    (l.executeDispatched api taskId cmd plan).Ensures W (l.Works taskId)
      (Proc.Returns fun m' f => f = none → l.Verified taskId m'.state) m := by
  rw [executeDispatched]
  split
  next =>
    apply works_then (coordinate_works _)
    exact fun _ _ => (Proc.returns_ok _).mpr fun hf => by cases hf
  next =>
    apply works_then (works_of_asks (Proc.only_when asks_consult))
    intro m₁ _
    apply works_then (develop_works hcmd hmem)
    intro m₂ exitCode
    exact conclude_works plan exitCode

theorem executeTask_works : (l.executeTask api taskId).Ensures W (l.Works taskId)
    (Proc.Returns fun m' f => f = none → l.Verified taskId m'.state) m := by
  apply works_then freezeTask_works
  intro m₁ role
  split
  next => exact missingCommand_works.post fun m' r h f hf hnone => absurd hnone (h f hf)
  next cmd hcmd =>
    obtain ⟨hne, hmem⟩ := commandFor_mem hcmd
    apply works_then beginDispatch_works
    intro m₂ plan
    exact executeDispatched_works hne hmem plan

end Stages

/-! ## What the work leaves alone -/

section Frame

variable {l : Lifecycle} {taskId id : String} {s s' : State B} {m m' : Moment B} {o : Op B}

structure Frame (l : Lifecycle) (taskId : String) (s s' : State B) : Prop where
  runs : s'.memory.runs = s.memory.runs
  runCommands : s'.memory.runCommands = s.memory.runCommands
  approvedCommands : s'.memory.approvedCommands = s.memory.approvedCommands
  otherTasks : ∀ runId, runId ≠ l.runId → s'.memory.tasks.get? runId = s.memory.tasks.get? runId
  ids : (s'.memory.taskRecords l.runId).map (·.taskId) =
    (s.memory.taskRecords l.runId).map (·.taskId)
  records : ∀ id, id ≠ taskId → recordOf id (s'.memory.taskRecords l.runId) =
    recordOf id (s.memory.taskRecords l.runId)
  dbRuns : s'.db.runs = s.db.runs
  rows : ∀ id, id ≠ taskId → s'.db.tasks.get? id = s.db.tasks.get? id

theorem Frame.refl : l.Frame taskId s s :=
  ⟨rfl, rfl, rfl, fun _ _ => rfl, rfl, fun _ _ => rfl, rfl, fun _ _ => rfl⟩

theorem frame_of_db (hm : s'.memory = s.memory) (hruns : s'.db.runs = s.db.runs)
    (hrows : ∀ id, id ≠ taskId → s'.db.tasks.get? id = s.db.tasks.get? id) :
    l.Frame taskId s s' := by
  refine ⟨?_, ?_, ?_, fun _ _ => ?_, ?_, fun _ _ => ?_, hruns, hrows⟩ <;> rw [hm]

theorem upsertTask_frame {t : TaskRecord} {db db' : Db} (h : db.upsertTask t = .ok ((), db')) :
    db'.runs = db.runs ∧ db'.dispatches = db.dispatches ∧
      ∃ row, db'.tasks = db.tasks.set t.taskId row := by
  rw [Db.upsertTask] at h
  split at h
  next =>
    cases h
    exact ⟨rfl, rfl, _, rfl⟩
  next =>
    simp only [bind_ok, require_ok] at h
    obtain ⟨_, -, h⟩ := h
    cases h
    exact ⟨rfl, rfl, _, rfl⟩

theorem upsertDispatch_frame {d : DispatchRow} {db db' : Db}
    (h : db.upsertDispatch d = .ok ((), db')) : db'.runs = db.runs ∧ db'.tasks = db.tasks := by
  rw [Db.upsertDispatch] at h
  split at h
  next =>
    cases h
    exact ⟨rfl, rfl⟩
  next =>
    simp only [bind_ok, require_ok] at h
    obtain ⟨_, -, h⟩ := h
    cases h
    exact ⟨rfl, rfl⟩

theorem frame_edited {f : TaskRecord → TaskRecord} (hf : Edit f) (s : State B) :
    l.Frame taskId s (l.edited taskId f s) where
  runs := rfl
  runCommands := rfl
  approvedCommands := rfl
  otherTasks runId hne := by simp [edited, Dict.get?_set, Ne.symm hne]
  ids := by rw [taskRecords_edited, map_taskId_modifyRecord hf.taskId]
  records id hne := by rw [taskRecords_edited, recordOf_modifyRecord_of_ne hf.taskId hne]
  dbRuns := rfl
  rows _ _ := rfl

theorem Effect.frame (h : l.Effect taskId s s' o) : l.Frame taskId s s' := by
  cases h with
  | asks _ hs => exact hs ▸ .refl
  | coordinates systems hs =>
    subst hs
    exact ⟨rfl, rfl, rfl, fun _ _ => rfl, rfl, fun _ _ => rfl, rfl, fun _ _ => rfl⟩
  | edits f hf hs => exact hs ▸ frame_edited hf s
  | writes hr _ hm hdb =>
    rcases hdb with hdb | hdb
    · exact frame_of_db hm (by rw [hdb]) fun _ _ => by rw [hdb]
    · obtain ⟨hruns, -, row, htasks⟩ := upsertTask_frame hdb
      refine frame_of_db hm hruns fun id hne => ?_
      rw [htasks, Dict.get?_set, if_neg]
      rw [id_of_recordOf hr]
      exact Ne.symm hne
  | dispatches _ hm hdb =>
    rcases hdb with hdb | hdb
    · exact frame_of_db hm (by rw [hdb]) fun _ _ => by rw [hdb]
    · obtain ⟨hruns, htasks⟩ := upsertDispatch_frame hdb
      exact frame_of_db hm hruns fun _ _ => by rw [htasks]
  | develops _ _ hs => exact hs ▸ .refl
  | tests hs => exact hs ▸ .refl

theorem Works.frame (h : l.Works taskId m m') : l.Frame taskId m.state m'.state := by
  obtain ⟨e, -, he⟩ := h
  exact he.frame

theorem Frame.verified (h : l.Frame taskId s s') (hne : id ≠ taskId) (hv : l.Verified id s) :
    l.Verified id s' := by
  have hrecord := h.records id hne
  have hrow := h.rows id hne
  refine ⟨fun r hr => hv.record r (hrecord ▸ hr), fun hstore r hr => ?_⟩
  rw [hrow]
  exact hv.row hstore r (hrecord ▸ hr)

end Frame

/-! ## The whole lifecycle -/

section Whole

variable {W : World B → Prop} {m : Moment B} {l : Lifecycle}

theorem executeTasks_works (taskIds : List String) : (l.executeTasks api taskIds).Ensures W
    (fun m m' => ∃ id ∈ taskIds, l.Works id m m')
    (Proc.Returns fun m' f => f = none → ∀ id ∈ taskIds, l.Verified id m'.state) m := by
  induction taskIds generalizing m with
  | nil => exact (Proc.returns_ok _).mpr fun _ _ hid => by cases hid
  | cons id taskIds ih =>
    have hfirst : (l.executeTask api id).Ensures W
        (fun m m' => ∃ id' ∈ id :: taskIds, l.Works id' m m')
        (Proc.Returns fun m' f => f = none → l.Verified id m'.state) m :=
      executeTask_works.mono (fun _ _ h => ⟨id, List.mem_cons_self .., h⟩) fun _ _ h => h
    apply hfirst.then
    intro m₁ f hf
    split
    next f => exact (Proc.returns_ok _).mpr fun h => by cases h
    next =>
      -- what the rest of the loop does to `id`, if it does not come to it again
      have hrest : (l.executeTasks api taskIds).Ensures W
          (fun m m' => ∃ id ∈ taskIds, l.Works id m m')
          (fun m' r => Proc.Returns (fun m' f => f = none → ∀ id ∈ taskIds, l.Verified id m'.state)
            m' r ∧ (id ∉ taskIds → l.Verified id m'.state)) m₁ := by
        apply ih.keeps
        · exact fun _ => hf rfl
        · rintro m m' hv ⟨id', hid', hw⟩ hid
          refine hw.frame.verified ?_ (hv hid)
          rintro rfl
          exact hid hid'
      apply hrest.mono
      · rintro m m' ⟨id', hid', hw⟩
        exact ⟨id', List.mem_cons_of_mem _ hid', hw⟩
      · rintro m' r ⟨hr, hid⟩ f hf hnone id' hid'
        by_cases hmem : id' ∈ taskIds
        · exact hr f hf hnone id' hmem
        · rcases List.mem_cons.mp hid' with rfl | hid'
          · exact hid hmem
          · exact absurd hid' hmem

def Enters (l : Lifecycle) (m m' : Moment B) : Prop :=
  ∃ (e : ServerEvent B) (r : RunRecord), m'.history = m.history ++ [e] ∧ e.op = .upsertRun r ∧
    r.runId = l.runId ∧ m.state.db.runs.get? l.runId = none ∧
    (m'.state = m.state ∨ m'.state = { m.state with db := m.state.db.upsertRun r })

def orderIn (l : Lifecycle) (s : State B) : List String :=
  ((s.memory.coordinator? l.workspace).map (·.order)).getD []

def Steps (l : Lifecycle) (taskIds : List String) (m m' : Moment B) : Prop :=
  m'.state = m.state ∧ Next m m' ∨ l.Enters m m' ∨ ∃ id ∈ taskIds, l.Works id m m'

theorem allowsAsking_steps (ids : List String) : AllowsAsking (l.Steps (B := B) ids) :=
  fun _ w m ho => .inl ⟨ho.state w m.state, _, ho.1, rfl⟩

theorem enterRun_steps (ids : List String) : l.enterRun.Ensures W (l.Steps (B := B) ids)
    (fun m' _ => m'.state.memory = m.state.memory) m := by
  apply ensures_read_bind (allowsAsking_steps ids) ⟨rfl, rfl⟩ fun _ _ => rfl
  · intro m₁ h₁ _
    split
    next => exact congrArg State.memory h₁
    next hnone =>
      apply ensures_perform (.upsertRun _)
      intro w _ _
      have hrun : m₁.state.db.runs.get? l.runId = none := by
        rw [h₁]
        exact hnone
      rcases upsertRun_cases ⟨l.runId, "Native lifecycle execution", l.workspace, .inProgress,
        "default"⟩ w m₁.state with hs | hs
      · refine ⟨.inr (.inl ⟨_, _, rfl, rfl, rfl, hrun, .inl hs⟩), ?_⟩
        rw [Runtime.after_state, ← h₁]
        exact congrArg State.memory hs
      · refine ⟨.inr (.inl ⟨_, _, rfl, rfl, rfl, hrun, .inr hs⟩), ?_⟩
        rw [Runtime.after_state, ← h₁]
        exact (congrArg State.memory hs).trans rfl
  · exact fun m₁ e h₁ _ => congrArg State.memory h₁

def Completes (l : Lifecycle) (ids : List String) (m' : Moment B) : LifecycleResult → Prop
  | .completed tasks => (∀ id ∈ ids, l.Verified id m'.state) ∧
      tasks = distinctRecords (m'.state.memory.taskRecords l.runId)
  | .failed _ => True

theorem execute_steps : (l.execute api).Ensures W (l.Steps (l.orderIn m.state))
    (Proc.Returns (l.Completes (l.orderIn m.state))) m := by
  have hask := allowsAsking_steps (l := l) (B := B) (l.orderIn m.state)
  apply Proc.Ensures.first (K := fun m' : Moment B => m'.state.memory = m.state.memory)
  · exact Proc.ensures_when (fun _ => enterRun_steps _) fun _ => rfl
  · intro m₁ _ h₁
    apply ensures_memory_bind hask
    intro m₂ h₂ _
    rw [h₁]
    cases hc : m.state.memory.coordinator? l.workspace with
    | none => exact Proc.returns_error _
    | some c =>
      have horder : l.orderIn m.state = c.order := by simp [orderIn, hc]
      rw [horder]
      have htasks : (l.executeTasks api c.order).Ensures W (l.Steps c.order)
          (Proc.Returns fun m' f => f = none → ∀ id ∈ c.order, l.Verified id m'.state) m₂ :=
        (executeTasks_works c.order).mono (fun _ _ h => .inr (.inr h)) fun _ _ h => h
      apply htasks.then
      intro m₃ f hf
      split
      next => exact (Proc.returns_ok _).mpr trivial
      next =>
        apply ensures_memory_bind (allowsAsking_steps _)
        intro m₄ h₄ _
        refine (Proc.returns_ok _).mpr ⟨?_, by rw [h₄]⟩
        rw [h₄]
        exact hf rfl

end Whole

end Lifecycle

end SubagentBridge.Server
