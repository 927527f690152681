import SubagentBridge.Server.Bookkeeping

/-! Whose the records of the server are: an invariant of memory and database that every call
keeps, and every restart. -/

namespace SubagentBridge.Server

open Library Domain Planner Qa Team SqliteStore Execution

variable {B : Type} {api : BudgetApi B} {host : Host}

/-! ## Identifiers -/

def IsRunId (runId : String) : Prop := ∃ hex, runId = runIdOf hex

def IsInitial (taskId : String) : Prop := ∃ hex, taskId = taskIdOf hex

def Decomposed (runId taskId : String) : Prop :=
  taskId ∈ [TaskDecomposer.pmTaskId runId, TaskDecomposer.devTaskId runId,
    TaskDecomposer.qaTaskId runId]

theorem decomposed_iff {runId taskId : String} : Decomposed runId taskId ↔
    taskId.toList = runId.toList ++ "_pm".toList ∨ taskId.toList = runId.toList ++ "_dev".toList ∨
      taskId.toList = runId.toList ++ "_qa".toList := by
  simp only [Decomposed, TaskDecomposer.pmTaskId, TaskDecomposer.devTaskId,
    TaskDecomposer.qaTaskId, List.mem_cons, List.not_mem_nil, or_false, ← String.toList_inj,
    String.toList_append]

theorem Decomposed.injective {r r' taskId : String} (h : Decomposed r taskId)
    (h' : Decomposed r' taskId) : r = r' := by
  rw [decomposed_iff] at h h'
  rw [← String.toList_inj]
  -- the three suffixes differ in their last letters
  rcases h with h | h | h <;> rcases h' with h' | h' | h' <;> rw [h] at h' <;>
    first
    | exact List.append_cancel_right h'
    | simpa using congrArg List.getLast? h'

theorem Decomposed.not_initial {runId taskId : String} (hr : IsRunId runId)
    (h : Decomposed runId taskId) : ¬ IsInitial taskId := by
  rintro ⟨hex', rfl⟩
  obtain ⟨hex, rfl⟩ := hr
  rw [decomposed_iff] at h
  have hhead : (taskIdOf hex').toList.head? = some 't' := by
    simp [taskIdOf]
  rcases h with h | h | h <;> rw [h] at hhead <;> simp [runIdOf] at hhead

/-! ## Idle operations -/

structure SameRecords (s s' : State B) : Prop where
  runs : s'.memory.runs = s.memory.runs
  tasks : s'.memory.tasks = s.memory.tasks
  dbRuns : s'.db.runs = s.db.runs
  rows : s'.db.tasks = s.db.tasks
  dispatches : s'.db.dispatches = s.db.dispatches

theorem SameRecords.refl {s : State B} : SameRecords s s := ⟨rfl, rfl, rfl, rfl, rfl⟩

theorem SameRecords.trans {s s' s'' : State B} (h : SameRecords s s') (h' : SameRecords s' s'') :
    SameRecords s s'' :=
  ⟨h'.runs.trans h.runs, h'.tasks.trans h.tasks, h'.dbRuns.trans h.dbRuns, h'.rows.trans h.rows,
    h'.dispatches.trans h.dispatches⟩

theorem SameRecords.of_eq {s s' : State B} (h : s' = s) : SameRecords s s' := h ▸ .refl

def Op.Idle : Op B → Prop
  | .modify f => ∀ m, (f m).runs = m.runs ∧ (f m).tasks = m.tasks
  | .upsertRun _ | .upsertTask _ | .upsertDispatch _ | .deletePendingTasks _ | .deleteRun _
  | .runIsolated _ _ | .runQa _ _ => False
  | _ => True

theorem Op.Minor.idle {o : Op B} (ho : o.Minor) : o.Idle := by
  cases o with
  | modify f => exact fun m => ⟨(ho m).1, (ho m).2.1⟩
  | upsertRun | upsertTask | upsertDispatch | deletePendingTasks | deleteRun | runIsolated
  | runQa => exact ho
  | _ => trivial

theorem Op.asks.idle {o : Op B} (ho : o.asks) : o.Idle := by
  cases o with
  | modify f => cases ho.2
  | upsertRun | upsertTask | upsertDispatch | deletePendingTasks | deleteRun | runIsolated
  | runQa => cases ho.1
  | _ => trivial

theorem Op.Idle.same {o : Op B} (ho : o.Idle) (w : World B) (s : State B) :
    SameRecords s (exec o w s).2 := by
  cases o with
  | modify f => exact ⟨(ho s.memory).1, (ho s.memory).2, rfl, rfl, rfl⟩
  | consumeApproval fp =>
    refine ⟨?_, ?_, rfl, rfl, rfl⟩ <;> simp only [exec, Memory.consumeApproval] <;> split <;> rfl
  | upsertPendingAction a =>
    rcases writing_cases w s fun db => .ok ((), db.upsertPendingAction a) with
      ⟨e, he⟩ | ⟨db, hdb, he⟩
    · exact .of_eq (congrArg Prod.snd he)
    · cases hdb
      simp only [exec, he]
      exact ⟨rfl, rfl, rfl, rfl, rfl⟩
  | getRun | loadTasksForRun => exact .of_eq (reading_state _ _ _)
  | upsertRun | upsertTask | upsertDispatch | deletePendingTasks | deleteRun | runIsolated
  | runQa => cases ho
  | _ => exact .refl

def AllowsIdle (T : Moment B → Moment B → Prop) : Prop :=
  ∀ o w m, o.Idle → T m ((runtime B).after o w m)

theorem AllowsIdle.asking {T : Moment B → Moment B → Prop} (hT : AllowsIdle T) : AllowsAsking T :=
  fun o w m ho => hT o w m ho.idle

section Idle

variable {W : World B → Prop} {T : Moment B → Moment B → Prop} {m : Moment B} {α : Type}

theorem idle_ensures (hT : AllowsIdle T) {p : Call B α} (hp : p.Only Op.Idle) :
    p.Ensures W T (fun m' _ => SameRecords m.state m'.state) m := by
  apply hp.ensures (I := fun m' : Moment B => SameRecords m.state m'.state) SameRecords.refl
  intro o w m' ho _ _ h
  exact ⟨hT o w m' ho, h.trans (ho.same w m'.state)⟩

theorem idle_gateCommands (runId workspace : String) (commands : Dict String (List String)) :
    (gateCommands host runId workspace commands : Call B _).Only Op.Idle := by
  induction commands with
  | nil => trivial
  | cons p commands ih =>
    have hunapproved (key : String) :
        (gateCommand.unapproved host runId workspace p.2 key : Call B _).Only Op.Idle := by
      rw [gateCommand.unapproved]
      split
      next => trivial
      next =>
        refine Proc.Only.bind ?_ fun _ => trivial
        exact (only_pendingActionFor key p.2).mono fun _ ho => ho.idle
    have hgate : (gateCommand host runId p.1 workspace p.2 : Call B _).Only Op.Idle := by
      apply Proc.only_op_bind trivial
      intro m
      split
      next =>
        split
        next => exact Proc.only_op_bind trivial fun _ => trivial
        next => exact hunapproved _
      next => exact hunapproved _
    rw [gateCommands]
    split
    next => exact ih
    next =>
      apply Proc.Only.bind hgate
      intro d
      split
      next => trivial
      next => exact ih

theorem idle_auditSubmission (workspace : String) (run : RunRecord) (task : TaskRecord) :
    (auditSubmission workspace run task : Call B _).Only Op.Idle := by
  apply Proc.Only.tryCatch
  · apply Proc.Only.bind (only_getProductionSystem.mono fun _ ho => ho.idle)
    exact fun _ => Proc.only_op_bind trivial fun _ => trivial
  · exact fun _ => trivial

theorem idle_appendOnce (workspace : String) (e : LedgerEvent) :
    (ignoring (perform (.appendOnce workspace e)) : Call B _).Only Op.Idle :=
  Proc.Only.tryCatch ((Proc.only_op _).mpr trivial) fun _ => trivial

end Idle

/-! ## The invariant -/

/-- A record of the run that it names: one of the three that its decomposition makes, or the
first one, which no lifecycle works on. -/
def Owned (t : TaskRecord) : Prop :=
  IsRunId t.runId ∧ (Decomposed t.runId t.taskId ∨
    IsInitial t.taskId ∧ (t.status = .pending ∨ t.status = .cancelled))

structure Tidy (s : State B) : Prop where
  rowKeys : s.db.tasks.keys.Nodup
  rows : ∀ id t, s.db.tasks.get? id = some t → t.taskId = id ∧ Owned t ∧ t.runId ∈ s.db.runs.keys
  records : ∀ runId, ∀ t ∈ s.memory.taskRecords runId, t.runId = runId ∧ Owned t
  dbRuns : ∀ id r, s.db.runs.get? id = some r → r.runId = id ∧ IsRunId id
  runs : ∀ id r, s.memory.runs.get? id = some r → r.runId = id ∧ IsRunId id
  stored : ∀ id, s.memory.runs.get? id ≠ none → s.db.runs.get? id ≠ none

section Tidy

variable {s s' : State B} {runId : String}

theorem tidy_emptyState : Tidy (emptyState : State B) := by
  constructor
  case rowKeys => exact List.nodup_nil
  case records =>
    intro runId t ht
    cases ht
  case stored => exact fun _ h => absurd rfl h
  all_goals exact fun _ _ h => by cases h

theorem Tidy.same (h : Tidy s) (hs : SameRecords s s') : Tidy s' := by
  have htasks : ∀ runId, s'.memory.taskRecords runId = s.memory.taskRecords runId := by
    intro runId
    rw [Memory.taskRecords, hs.tasks]
    rfl
  constructor
  · rw [hs.rows]
    exact h.rowKeys
  · rw [hs.rows, hs.dbRuns]
    exact h.rows
  · intro runId t ht
    exact h.records runId t (htasks runId ▸ ht)
  · rw [hs.dbRuns]
    exact h.dbRuns
  · rw [hs.runs]
    exact h.runs
  · rw [hs.runs, hs.dbRuns]
    exact h.stored

theorem Tidy.known (h : Tidy s) {run : RunRecord} (hr : knownRun s runId = some run) :
    run.runId = runId ∧ IsRunId runId := by
  rw [knownRun, Option.or_eq_some_iff] at hr
  rcases hr with hr | ⟨-, hr⟩
  · exact h.runs _ _ hr
  · exact h.dbRuns _ _ hr

theorem Tidy.setRun (h : Tidy s) {r : RunRecord} (hr : r.runId = runId ∧ IsRunId runId)
    (hdb : s.db.runs.get? runId ≠ none) :
    Tidy { s with memory := { s.memory with runs := s.memory.runs.set runId r } } := by
  refine ⟨h.rowKeys, h.rows, h.records, h.dbRuns, ?_, ?_⟩
  · intro id r' hr'
    rw [Dict.get?_set] at hr'
    split at hr'
    next hid =>
      cases hr'
      exact hid ▸ hr
    next => exact h.runs id r' hr'
  · intro id hid
    rw [Dict.get?_set] at hid
    split at hid
    next heq => exact heq ▸ hdb
    next => exact h.stored id hid

theorem Tidy.setTasks (h : Tidy s) {rs : List TaskRecord}
    (hrs : ∀ t ∈ rs, t.runId = runId ∧ Owned t) :
    Tidy { s with memory := { s.memory with tasks := s.memory.tasks.set runId rs } } := by
  refine ⟨h.rowKeys, h.rows, ?_, h.dbRuns, h.runs, h.stored⟩
  intro id t ht
  simp only [Memory.taskRecords, Dict.get?_set] at ht
  split at ht
  next hid => exact hid ▸ hrs t ht
  next => exact h.records id t ht

theorem Tidy.loaded (h : Tidy s) : ∀ t ∈ s.db.loadTasksForRun runId, t.runId = runId ∧ Owned t := by
  intro t ht
  simp only [Db.loadTasksForRun, List.mem_filter, List.mem_map, decide_eq_true_eq] at ht
  obtain ⟨⟨p, hp, rfl⟩, hrun⟩ := ht
  exact ⟨hrun, (h.rows p.1 p.2 (Dict.get?_of_mem h.rowKeys hp)).2.1⟩

theorem Tidy.cacheRun (h : Tidy s) (runId : String) : Tidy (Server.cacheRun s runId) := by
  rw [Server.cacheRun]
  split
  next r _ hr => exact h.setRun (h.dbRuns _ _ hr) (by simp [hr])
  next => exact h

theorem Tidy.cacheTasks (h : Tidy s) (runId : String) : Tidy (Server.cacheTasks s runId) := by
  rw [Server.cacheTasks]
  split
  next => exact h.setTasks h.loaded
  next => exact h

theorem get?_upsertRun (db : Db) (r : RunRecord) (id : String) :
    (db.upsertRun r).runs.get? id = if r.runId = id then
      some (match db.runs.get? r.runId with
        | some row => { row with status := r.status }
        | none => r) else db.runs.get? id := by
  have hset : (db.upsertRun r).runs = db.runs.set r.runId (match db.runs.get? r.runId with
      | some row => { row with status := r.status }
      | none => r) := by
    cases h : db.runs.get? r.runId with
    | none => simp only [Db.upsertRun, h]
    | some row => simp only [Db.upsertRun, h]
  rw [hset, Dict.get?_set]

theorem Tidy.upsertRun (h : Tidy s) {r : RunRecord} (hr : IsRunId r.runId) :
    Tidy { s with db := s.db.upsertRun r } := by
  refine ⟨h.rowKeys, ?_, h.records, ?_, h.runs, ?_⟩
  · intro id t ht
    obtain ⟨hid, ho, hmem⟩ := h.rows id t ht
    refine ⟨hid, ho, ?_⟩
    rw [Db.upsertRun, Dict.keys_set]
    split
    next => exact hmem
    next => exact List.mem_append_left _ hmem
  · intro id r' hr'
    simp only [get?_upsertRun] at hr'
    split at hr'
    next hid =>
      subst hid
      cases hr'
      split
      next row hrow => exact ⟨(h.dbRuns _ _ hrow).1, hr⟩
      next => exact ⟨rfl, hr⟩
    next => exact h.dbRuns id r' hr'
  · intro id hid
    simp only [get?_upsertRun]
    split
    next => simp
    next => exact h.stored id hid

theorem upsertTask_cases {t : TaskRecord} {db db' : Db} (h : db.upsertTask t = .ok ((), db')) :
    (∃ row, db.tasks.get? t.taskId = some row ∧
      db' = { db with tasks := db.tasks.set t.taskId (TaskRecord.assign row t) }) ∨
    db.tasks.get? t.taskId = none ∧ t.runId ∈ db.runs.keys ∧
      db' = { db with tasks := db.tasks.set t.taskId t } := by
  rw [Db.upsertTask] at h
  split at h
  next row hrow =>
    cases h
    exact .inl ⟨row, hrow, rfl⟩
  next hnone =>
    simp only [bind_ok, require_ok] at h
    obtain ⟨_, hrun, h⟩ := h
    cases h
    exact .inr ⟨hnone, hrun, rfl⟩

theorem Owned.assign {row t : TaskRecord} (hrow : Owned row) (ht : Owned t)
    (hid : row.taskId = t.taskId) : Owned (TaskRecord.assign row t) := by
  refine ⟨hrow.1, hrow.2.imp id fun hinit => ⟨hinit.1, ?_⟩⟩
  rcases ht.2 with hd | hi
  · exact absurd (hid ▸ hinit.1) (hd.not_initial ht.1)
  · exact hi.2

theorem Tidy.upsertTask (h : Tidy s) {t : TaskRecord} (ht : Owned t) {db : Db}
    (hdb : s.db.upsertTask t = .ok ((), db)) : Tidy { s with db } := by
  have hset (row : TaskRecord) (hrow : row.taskId = t.taskId ∧ Owned row ∧
      row.runId ∈ s.db.runs.keys) :
      Tidy { s with db := { s.db with tasks := s.db.tasks.set t.taskId row } } := by
    refine ⟨Dict.nodup_keys_set h.rowKeys _ _, ?_, h.records, h.dbRuns, h.runs, h.stored⟩
    intro id t' ht'
    simp only [Dict.get?_set] at ht'
    split at ht'
    next hid =>
      cases ht'
      exact hid ▸ hrow
    next => exact h.rows id t' ht'
  rcases upsertTask_cases hdb with ⟨row, hrow, rfl⟩ | ⟨-, hrun, rfl⟩
  · obtain ⟨hid, ho, hmem⟩ := h.rows _ _ hrow
    exact hset _ ⟨hid, ho.assign ht hid, hmem⟩
  · exact hset t ⟨rfl, ht, hrun⟩

theorem Tidy.dropRows (h : Tidy s) (p : String × TaskRecord → Bool) :
    Tidy { s with db := { s.db with tasks := s.db.tasks.filter p } } := by
  refine ⟨?_, ?_, h.records, h.dbRuns, h.runs, h.stored⟩
  · exact h.rowKeys.sublist (List.filter_sublist.map _)
  · intro id t ht
    simp only [Dict.get?_filter h.rowKeys, Option.filter_eq_some_iff] at ht
    exact h.rows id t ht.1

theorem deleteTasks_ok {p : TaskRecord → Bool} {db db' : Db}
    (h : db.deleteTasks p = .ok ((), db')) :
    db' = { db with tasks := db.tasks.filter fun t => ¬ p t.2 } := by
  simp only [Db.deleteTasks, bind_ok, require_ok] at h
  obtain ⟨_, -, h⟩ := h
  cases h
  rfl

theorem Tidy.deletePendingTasks (h : Tidy s) {db : Db}
    (hdb : s.db.deletePendingTasks runId = .ok ((), db)) : Tidy { s with db } := by
  rw [deleteTasks_ok hdb]
  exact h.dropRows _

theorem Tidy.deleteRun (h : Tidy s) {db : Db} (hdb : s.db.deleteRun runId = .ok ((), db))
    (hmem : s.memory.runs.get? runId = none) : Tidy { s with db } := by
  simp only [Db.deleteRun, bind_ok, require_ok] at hdb
  obtain ⟨⟨_, db₁⟩, hdel, _, hnone, hdb⟩ := hdb
  cases hdb
  have hdrop := deleteTasks_ok hdel
  have h₁ : Tidy { s with db := db₁ } := hdrop ▸ h.dropRows _
  refine ⟨h₁.rowKeys, ?_, h₁.records, ?_, h₁.runs, ?_⟩
  · intro id t ht
    obtain ⟨hid, ho, hmem⟩ := h₁.rows id t ht
    refine ⟨hid, ho, ?_⟩
    obtain ⟨p, hp, hrun⟩ := List.mem_map.mp hmem
    refine List.mem_map.mpr ⟨p, List.mem_filter.mpr ⟨hp, ?_⟩, hrun⟩
    simpa [hrun] using hnone (id, t) (Dict.mem_of_get? ht)
  · intro id r hr
    simp only [Dict.get?_erase] at hr
    split at hr
    next => cases hr
    next => exact h₁.dbRuns id r hr
  · intro id hid
    simp only [Dict.get?_erase]
    split
    next heq => exact absurd (heq ▸ hmem) hid
    next => exact h₁.stored id hid

theorem Tidy.sameDb (h : Tidy s) (hm : s'.memory = s.memory) (hruns : s'.db.runs = s.db.runs)
    (hrows : s'.db.tasks = s.db.tasks) : Tidy s' := by
  refine ⟨hrows ▸ h.rowKeys, ?_, hm ▸ h.records, hruns ▸ h.dbRuns, hm ▸ h.runs, ?_⟩
  · rw [hrows, hruns]
    exact h.rows
  · rw [hm, hruns]
    exact h.stored

variable {l : Lifecycle} {taskId : String}

theorem Tidy.effect (h : Tidy s) (hid : Decomposed l.runId taskId) {o : Op B}
    (he : l.Effect taskId s s' o) : Tidy s' := by
  cases he with
  | asks _ hs => exact hs ▸ h
  | coordinates systems hs => exact h.same (hs ▸ ⟨rfl, rfl, rfl, rfl, rfl⟩)
  | edits f hf hs =>
    subst hs
    apply h.setTasks
    intro t ht
    rcases mem_modifyRecord ht with ht | ⟨t', ht', htask, rfl⟩
    · exact h.records _ t ht
    · obtain ⟨hrun, ho⟩ := h.records _ t' ht'
      rw [hf.runId]
      refine ⟨hrun, ?_, .inl ?_⟩
      · rw [hf.runId]
        exact ho.1
      · rw [hf.runId, hf.taskId, hrun, htask]
        exact hid
  | writes hr _ hm hdb =>
    rcases hdb with hdb | hdb
    · exact h.sameDb hm (by rw [hdb]) (by rw [hdb])
    · have ht := h.upsertTask (h.records _ _ (mem_of_recordOf hr)).2 hdb
      exact ht.sameDb hm rfl rfl
  | dispatches _ hm hdb =>
    rcases hdb with hdb | hdb
    · exact h.sameDb hm (by rw [hdb]) (by rw [hdb])
    · exact h.sameDb hm (Lifecycle.upsertDispatch_frame hdb).1
        (Lifecycle.upsertDispatch_frame hdb).2
  | develops _ _ hs => exact hs ▸ h
  | tests hs => exact hs ▸ h

theorem mem_loadAllTasks {db : Db} {runId : String} {t : TaskRecord}
    (h : t ∈ (db.loadAllTasks.get? runId).getD []) : t.runId = runId ∧ ∃ p ∈ db.tasks, p.2 = t := by
  have hfold (rows : Dict String TaskRecord) (acc : Dict String (List TaskRecord))
      (hacc : ∀ runId, ∀ t ∈ (acc.get? runId).getD [],
        t.runId = runId ∧ ∃ p ∈ db.tasks, p.2 = t)
      (hrows : ∀ p ∈ rows, p ∈ db.tasks) :
      ∀ runId, ∀ t ∈ ((rows.foldl (fun byRun p =>
          byRun.set p.2.runId ((byRun.get? p.2.runId).getD [] ++ [p.2])) acc).get? runId).getD [],
        t.runId = runId ∧ ∃ p ∈ db.tasks, p.2 = t := by
    induction rows generalizing acc with
    | nil => exact hacc
    | cons p rows ih =>
      rw [List.forall_mem_cons] at hrows
      apply ih _ _ hrows.2
      intro runId t ht
      simp only [Dict.get?_set] at ht
      split at ht
      next hid =>
        rcases List.mem_append.mp ht with ht | ht
        · exact hid ▸ hacc _ t ht
        · rw [List.mem_singleton.mp ht]
          exact ⟨hid, p, hrows.1, rfl⟩
      next => exact hacc runId t ht
  exact hfold db.tasks [] (fun _ t ht => by cases ht) (fun _ hp => hp) runId t h

theorem owned_resetStatus {t : TaskRecord} (h : Owned t) : Owned (Db.resetStatus t) := by
  rw [Db.resetStatus]
  split
  next hs =>
    refine ⟨h.1, h.2.imp id fun hi => ?_⟩
    rcases hi.2 with hp | hp <;> rw [hp] at hs <;> cases hs
  next => exact h

theorem get?_resetStaleActiveTasks (db : Db) (id : String) :
    db.resetStaleActiveTasks.tasks.get? id = (db.tasks.get? id).map Db.resetStatus :=
  Dict.get?_mapValues Db.resetStatus db.tasks id

theorem keys_resetStaleActiveTasks (db : Db) :
    db.resetStaleActiveTasks.tasks.keys = db.tasks.keys := by
  simp [Db.resetStaleActiveTasks, Dict.keys]

theorem Tidy.rehydrate (h : Tidy s) : Tidy (Server.rehydrate s) := by
  have hrows : ∀ id t, (Server.rehydrate s).db.tasks.get? id = some t →
      t.taskId = id ∧ Owned t ∧ t.runId ∈ s.db.runs.keys := by
    intro id t ht
    change s.db.resetStaleActiveTasks.tasks.get? id = some t at ht
    rw [get?_resetStaleActiveTasks] at ht
    obtain ⟨t', ht', rfl⟩ := Option.map_eq_some_iff.mp ht
    obtain ⟨hid, ho, hmem⟩ := h.rows id t' ht'
    refine ⟨?_, owned_resetStatus ho, ?_⟩ <;> rw [Db.resetStatus] <;> split <;> assumption
  have hkeys : (Server.rehydrate s).db.tasks.keys.Nodup :=
    keys_resetStaleActiveTasks s.db ▸ h.rowKeys
  refine ⟨hkeys, hrows, ?_, h.dbRuns, h.dbRuns, fun _ => id⟩
  intro runId t ht
  obtain ⟨hrun, p, hp, rfl⟩ := mem_loadAllTasks ht
  exact ⟨hrun, (hrows p.1 p.2 (Dict.get?_of_mem hkeys hp)).2.1⟩

end Tidy

end SubagentBridge.Server
