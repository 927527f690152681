import SubagentBridge.Recovery.DisciplineLaws

/-! What one step of a supervisor does to the rows of the queue. -/

namespace SubagentBridge.Supervisor

open Library Domain TeamStore

variable {F : Type} {repr : String → String}

structure Keyed (db : Db F) : Prop where
  nodup : db.queue.keys.Nodup
  ids : ∀ p ∈ db.queue, p.2.dispatchId = p.1

theorem Keyed.id_of_get? {db : Db F} {d : String} (hk : Keyed db) {row : QueueRow F}
    (h : db.queue.get? d = some row) :
    row.dispatchId = d :=
  hk.ids _ (Dict.mem_of_get? h)

def statusOf (db : Db F) (d : String) : Option QueueTaskStatus := (db.queue.get? d).map (·.status)

theorem statusOf_of_get? {db : Db F} {d : String} {row : QueueRow F}
    (h : db.queue.get? d = some row) : statusOf db d = some row.status := by
  rw [statusOf, h, Option.map_some]

theorem nodup_rowsByTeam [LinearOrder F] {db : Db F} (hk : Keyed db) (teamId : String) :
    ((db.rowsByTeam teamId).map (·.dispatchId)).Nodup := by
  have hids : (db.queue.map (·.2)).map (·.dispatchId) = db.queue.keys := by
    rw [List.map_map]
    exact List.map_congr_left hk.ids
  have hall : ((db.queue.map (·.2)).map (·.dispatchId)).Nodup := hids ▸ hk.nodup
  have hsub := hall.sublist
    ((List.filter_sublist (p := fun row : QueueRow F => row.teamId = teamId)).map (·.dispatchId))
  exact ((List.perm_insertionSort _ _).map _).nodup_iff.mpr hsub

theorem statusOf_setRow (db : Db F) (d : String) (row : QueueRow F) :
    statusOf (db.setRow d row) d = some row.status :=
  statusOf_of_get? ((Dict.get?_set ..).trans (if_pos rfl))

theorem mem_rowsByTeam [LinearOrder F] {db : Db F} {teamId : String} {row : QueueRow F} :
    row ∈ db.rowsByTeam teamId ↔ (∃ d, (d, row) ∈ db.queue) ∧ row.teamId = teamId := by
  rw [Db.rowsByTeam, List.mem_insertionSort, List.mem_filter, decide_eq_true_iff, List.mem_map]
  refine and_congr_left fun _ => ⟨?_, fun ⟨d, hd⟩ => ⟨_, hd, rfl⟩⟩
  rintro ⟨⟨d, _⟩, hp, rfl⟩
  exact ⟨d, hp⟩

section Registration

def SameWork (db db' : Db F) : Prop := db'.queue = db.queue ∧ db'.handoffs = db.handoffs

theorem atomically_sameWork {α : Type} {f : Db F → Except Error (α × Db F)} {db : Db F}
    (hf : ∀ a db', f db = .ok (a, db') → SameWork db db') : SameWork db (atomically f db).2 := by
  rw [atomically]
  split
  next a db' h => exact hf a db' h
  next => exact ⟨rfl, rfl⟩

theorem createTeam_sameWork {teamId lead title : String} {now : F} {db db' : Db F}
    {team : AgentTeam F} (h : db.createTeamWithLeadOnce teamId lead title now = .ok (team, db')) :
    SameWork db db' := by
  obtain ⟨_, -, h⟩ := bind_ok.mp h
  rw [Db.createTeamWithLead] at h
  split at h
  · obtain ⟨_, -, h⟩ := bind_ok.mp h
    obtain ⟨_, -, h⟩ := bind_ok.mp h
    cases h
    exact ⟨rfl, rfl⟩
  · obtain ⟨_, -, h⟩ := bind_ok.mp h
    cases h
    exact ⟨rfl, rfl⟩

theorem registerSingle_sameWork {teamId : String} {config : WorkerConfig F}
    {path branch : Option String} {now : F} {db db' : Db F} {session : AgentSession F}
    (h : db.registerSingleWorkerOnce repr teamId config path branch now = .ok (session, db')) :
    SameWork db db' := by
  obtain ⟨_, -, h⟩ := bind_ok.mp h
  rw [Db.registerSingleWorker] at h
  split at h
  · cases h
  · obtain ⟨_, -, h⟩ := bind_ok.mp h
    obtain ⟨_, -, h⟩ := bind_ok.mp h
    obtain ⟨db₁, h₁, h⟩ := bind_ok.mp h
    cases h
    unfold Db.insertWorktree at h₁
    split at h₁
    · cases h₁
      exact ⟨rfl, rfl⟩
    · obtain ⟨_, -, h₁⟩ := bind_ok.mp h₁
      cases h₁
      exact ⟨rfl, rfl⟩

theorem registerBatch_sameWork {teamId lead : String} {configs : List (WorkerConfig F)}
    {maxWorkers : Int} {now : F} {db db' : Db F} {created : List (AgentSession F)}
    (h : db.registerWorkerBatchOnce teamId lead configs maxWorkers now = .ok (created, db')) :
    SameWork db db' := by
  obtain ⟨_, -, h⟩ := bind_ok.mp h
  obtain ⟨_, -, h⟩ := bind_ok.mp h
  obtain ⟨_, -, h⟩ := bind_ok.mp h
  obtain ⟨_, -, h⟩ := bind_ok.mp h
  obtain ⟨_, -, h⟩ := bind_ok.mp h
  cases h
  exact ⟨rfl, rfl⟩

end Registration

variable [FloatText F]

theorem status_of_read {row : QueueRow F} {item : QueueItem F}
    (h : rowToQueueItem row = .ok item) : item.status = row.status := by
  rw [rowToQueueItem] at h
  split at h
  · cases h
    rfl
  · cases h

theorem dispatchId_of_read {row : QueueRow F} {item : QueueItem F}
    (h : rowToQueueItem row = .ok item) : item.dispatchId = row.dispatchId := by
  rw [rowToQueueItem] at h
  split at h
  · cases h
    rfl
  · cases h

variable [LinearOrder F]

inductive RowChange (w : World F) (db : Db F) (d : String) :
    (o : Op F) → Except Error o.Ret → QueueRow F → Prop
  | inserted (item : QueueItem F) (hd : item.dispatchId = d) (hnew : db.queue.get? d = none)
      (hdup : (item.dedupKey.filter (· ≠ "")).bind (db.duplicateOf item.teamId) = none) :
      RowChange w db d (.insertQueueItemOnce item) (.ok item) (toRow item)
  | steered {lead guidance priority row item item'} (hrow : db.queue.get? d = some row)
      (hread : rowToQueueItem row = .ok item) (hact : row.status.active = true)
      (hst : item'.steeringInstructions = item.steeringInstructions ++
        (guidance.map fun g => guidanceEntry g lead w.time).toList) :
      RowChange w db d (.steerQueueItemOnce lead d guidance priority) (.ok item')
        { row with
          steeringJson := (toRow item').steeringJson
          priority := item'.priority
          updatedAt := w.later }
  | cancelled {lead reason row item item'} (hrow : db.queue.get? d = some row)
      (hread : rowToQueueItem row = .ok item) (hact : row.status.active = true)
      (hst : item'.steeringInstructions = item.steeringInstructions ++
        if reason = "" then [] else [cancellationEntry reason lead w.time]) :
      RowChange w db d (.cancelActiveQueueItem d lead reason) (.ok item')
        { row with
          status := .cancelled
          steeringJson := (toRow item').steeringJson
          updatedAt := w.later }
  | marked {row} (r) (hrow : db.queue.get? d = some row)
      (hst : row.status ∉ [.running, .completed, .cancelled]) :
      RowChange w db d (.markTaskResuming d) r { row with status := .running, updatedAt := w.time }
  | created (item : QueueItem F) (hd : item.dispatchId = d) (hrow : db.queue.get? d = none) :
      RowChange w db d (.saveQueueItem item) (.ok ()) (toRow item)
  | saved (item : QueueItem F) {row} (hd : item.dispatchId = d)
      (hrow : db.queue.get? d = some row) :
      RowChange w db d (.saveQueueItem item) (.ok ()) (row.assign item)
  | finalized {teamId evidence status workerId row} (hd : evidence.dispatchId = d)
      (hrow : db.queue.get? d = some row) (hnew : db.handoffs.get? d = none) :
      RowChange w db d (.finalizeHandoff teamId evidence (some status) workerId) (.ok ())
        { row with status, updatedAt := w.time }

def Changes (w : World F) (db : Db F) (o : Op F) (p : Except Error o.Ret × Db F) : Prop :=
  p.2.queue = db.queue ∨ ∃ d row, p.2.queue = db.queue.set d row ∧ RowChange w db d o p.1 row

theorem changes_of_eq {w : World F} {db : Db F} {o : Op F} {p : Except Error o.Ret × Db F}
    (h : p.2.queue = db.queue) : Changes w db o p := .inl h

section Operations

variable {w : World F} {db db' : Db F} {item item' : QueueItem F} {d lead reason : String}

theorem insert_ok (h : db.insertQueueItemOnce item = .ok (item', db')) :
    db' = db ∨ (item.dedupKey.filter (· ≠ "")).bind (db.duplicateOf item.teamId) = none ∧
      db.queue.get? item.dispatchId = none ∧ item' = item ∧
      db' = db.setRow item.dispatchId (toRow item) := by
  rw [Db.insertQueueItemOnce] at h
  split at h
  · obtain ⟨read, -, h⟩ := map_ok.mp h
    cases h
    exact .inl rfl
  next hdup =>
    split at h
    · cases h
    next hrow =>
      obtain ⟨rfl, rfl⟩ := Prod.mk.inj (Except.ok.inj h)
      exact .inr ⟨hdup, hrow, rfl, rfl⟩

omit [LinearOrder F] in
theorem steer_ok {guidance : Option (Guidance F)} {priority : Option Int} {time later : F}
    (h : db.steerQueueItemOnce lead d guidance priority time later = .ok (item', db')) :
    ∃ row item, db.queue.get? d = some row ∧ rowToQueueItem row = .ok item ∧
      row.status.active = true ∧ item'.steeringInstructions = item.steeringInstructions ++
        (guidance.map fun g => guidanceEntry g lead time).toList ∧
      db' = db.setRow d { row with
        steeringJson := (toRow item').steeringJson
        priority := item'.priority
        updatedAt := later } := by
  obtain ⟨_, -, h⟩ := bind_ok.mp h
  rw [Db.steerBody] at h
  split at h
  · cases h
  next row hrow =>
    obtain ⟨item, hread, h⟩ := bind_ok.mp h
    obtain ⟨_, -, h⟩ := bind_ok.mp h
    obtain ⟨_, hact, h⟩ := bind_ok.mp h
    obtain ⟨_, -, h⟩ := bind_ok.mp h
    obtain ⟨rfl, rfl⟩ := Prod.mk.inj (Except.ok.inj h)
    rw [require_ok, status_of_read hread] at hact
    exact ⟨row, item, hrow, hread, hact, rfl, rfl⟩

omit [LinearOrder F] in
theorem cancel_ok {time later : F}
    (h : db.cancelActiveQueueItem d lead reason time later = .ok (item', db')) :
    ∃ row item, db.queue.get? d = some row ∧ rowToQueueItem row = .ok item ∧
      row.status.active = true ∧ item'.steeringInstructions = item.steeringInstructions ++
        (if reason = "" then [] else [cancellationEntry reason lead time]) ∧
      db' = db.setRow d { row with
        status := .cancelled
        steeringJson := (toRow item').steeringJson
        updatedAt := later } := by
  rw [Db.cancelActiveQueueItem] at h
  split at h
  · cases h
  next row hrow =>
    obtain ⟨item, hread, h⟩ := bind_ok.mp h
    obtain ⟨_, hact, h⟩ := bind_ok.mp h
    obtain ⟨rfl, rfl⟩ := Prod.mk.inj (Except.ok.inj h)
    rw [require_ok, status_of_read hread] at hact
    exact ⟨row, item, hrow, hread, hact, rfl, rfl⟩

theorem insert_changes (item : QueueItem F) :
    Changes w db (.insertQueueItemOnce item) (atomically (Db.insertQueueItemOnce item) db) := by
  rcases atomically_cases (Db.insertQueueItemOnce item) db with ⟨e, -, h⟩ | ⟨item', db', hf, h⟩
  · exact .inl (by rw [h])
  rcases insert_ok hf with rfl | ⟨hdup, hrow, rfl, rfl⟩
  · exact .inl (by rw [h])
  · rw [h]
    exact .inr ⟨_, _, rfl, .inserted _ rfl hrow hdup⟩

theorem steer_changes (lead d : String) (guidance : Option (Guidance F)) (priority : Option Int) :
    Changes w db (.steerQueueItemOnce lead d guidance priority)
      (atomically (Db.steerQueueItemOnce lead d guidance priority w.time w.later) db) := by
  rcases atomically_cases (Db.steerQueueItemOnce lead d guidance priority w.time w.later) db with
    ⟨e, -, h⟩ | ⟨item', db', hf, h⟩
  · exact .inl (by rw [h])
  · obtain ⟨row, item, hrow, hread, hact, hst, rfl⟩ := steer_ok hf
    rw [h]
    exact .inr ⟨d, _, rfl, .steered hrow hread hact hst⟩

theorem cancel_changes (d lead reason : String) :
    Changes w db (.cancelActiveQueueItem d lead reason)
      (atomically (Db.cancelActiveQueueItem d lead reason w.time w.later) db) := by
  rcases atomically_cases (Db.cancelActiveQueueItem d lead reason w.time w.later) db with
    ⟨e, -, h⟩ | ⟨item', db', hf, h⟩
  · exact .inl (by rw [h])
  · obtain ⟨row, item, hrow, hread, hact, hst, rfl⟩ := cancel_ok hf
    rw [h]
    exact .inr ⟨d, _, rfl, .cancelled hrow hread hact hst⟩

theorem mark_changes (d : String) :
    Changes w db (.markTaskResuming d) (db.markTaskResuming repr d w.time) := by
  rw [Db.markTaskResuming]
  split
  · exact .inl rfl
  next row hrow =>
    split
    · exact .inl rfl
    · exact .inl rfl
    · exact .inl rfl
    next h₁ h₂ h₃ =>
      refine .inr ⟨d, _, rfl, .marked _ hrow ?_⟩
      simp only [List.mem_cons, List.not_mem_nil, or_false, not_or]
      exact ⟨h₁, h₂, h₃⟩

theorem save_changes (item : QueueItem F) :
    Changes w db (.saveQueueItem item) (.ok (), db.saveQueueItem item) := by
  cases hrow : db.queue.get? item.dispatchId with
  | none => exact .inr ⟨_, _, by simp [Db.saveQueueItem, Db.setRow, hrow], .created item rfl hrow⟩
  | some row => exact .inr ⟨_, _, by simp [Db.saveQueueItem, Db.setRow, hrow], .saved item rfl hrow⟩

theorem finalize_changes (teamId : String) (evidence : HandoffEvidence F)
    (status : Option QueueTaskStatus) (workerId : String) :
    Changes w db (.finalizeHandoff teamId evidence status workerId)
      (atomically (Db.finalizeHandoff repr teamId evidence status workerId w.time) db) := by
  unfold atomically Db.finalizeHandoff
  cases hnew : db.handoffs.get? evidence.dispatchId with
  | some _ => exact .inl rfl
  | none =>
    cases status with
    | none => exact .inl rfl
    | some status =>
      cases hrow : db.queue.get? evidence.dispatchId with
      | none => exact .inl rfl
      | some row => exact .inr ⟨_, _, rfl, .finalized rfl hrow hnew⟩

end Operations

theorem run_changes (o : Op F) (w : World F) (db : Db F) :
    Changes w db o (run repr o w db) := by
  cases o with
  | createTeamWithLeadOnce =>
    exact changes_of_eq (atomically_sameWork fun _ _ => createTeam_sameWork).1
  | registerSingleWorkerOnce =>
    exact changes_of_eq (atomically_sameWork fun _ _ => registerSingle_sameWork).1
  | registerWorkerBatchOnce =>
    exact changes_of_eq (atomically_sameWork fun _ _ => registerBatch_sameWork).1
  | insertQueueItemOnce item => exact insert_changes item
  | steerQueueItemOnce lead d guidance priority => exact steer_changes lead d guidance priority
  | cancelActiveQueueItem d lead reason => exact cancel_changes d lead reason
  | markTaskResuming d => exact mark_changes d
  | saveQueueItem item => exact save_changes item
  | finalizeHandoff teamId evidence status workerId =>
    exact finalize_changes teamId evidence status workerId
  | _ => exact changes_of_eq rfl

theorem exec_changes (repr : String → String) (o : Op F) (w : World F) (db : Db F) :
    Changes w db o (exec repr o w db) := by
  rw [exec]
  split
  · exact .inl rfl
  · exact run_changes o w db

theorem exec_atomically (repr : String → String) (w : World F) (db : Db F) {o : Op F}
    {f : Db F → Except Error (o.Ret × Db F)}
    (hrun : run repr o w db = atomically f db) :
    (∃ e, exec repr o w db = (.error e, db)) ∨
      ∃ a db', f db = .ok (a, db') ∧ exec repr o w db = (.ok a, db') := by
  rw [exec]
  split
  · exact .inl ⟨_, rfl⟩
  · rw [hrun]
    rcases atomically_cases f db with ⟨e, -, h⟩ | h
    · exact .inl ⟨e, h⟩
    · exact .inr h

section Effects

variable {o : Op F} {w : World F} {db : Db F} {d : String}

theorem row_exec (repr : String → String) (o : Op F) (w : World F) (db : Db F) (d : String) :
    (exec repr o w db).2.queue.get? d = db.queue.get? d ∨
      ∃ row, (exec repr o w db).2.queue.get? d = some row ∧
        RowChange w db d o (exec repr o w db).1 row := by
  rcases exec_changes repr o w db with h | ⟨d', row, h, hc⟩
  · exact .inl (by rw [h])
  · rw [h, Dict.get?_set]
    by_cases hd : d' = d
    · subst hd
      exact .inr ⟨row, if_pos rfl, hc⟩
    · exact .inl (if_neg hd)

theorem RowChange.dispatchId (hk : Keyed db) {r : Except Error o.Ret} {row : QueueRow F}
    (hc : RowChange w db d o r row) : row.dispatchId = d := by
  cases hc with
  | inserted item hd => exact hd
  | steered hrow => exact (hk.id_of_get? hrow :)
  | cancelled hrow => exact (hk.id_of_get? hrow :)
  | marked r hrow => exact (hk.id_of_get? hrow :)
  | created item hd => exact hd
  | saved item hd hrow => exact (hk.id_of_get? hrow :)
  | finalized hd hrow => exact (hk.id_of_get? hrow :)

theorem keyed_exec (hk : Keyed db) : Keyed (exec repr o w db).2 := by
  rcases exec_changes repr o w db with h | ⟨d, row, h, hc⟩
  · exact ⟨h ▸ hk.nodup, h ▸ hk.ids⟩
  · refine ⟨h ▸ Dict.nodup_keys_set hk.nodup _ _, fun p hp => ?_⟩
    rw [h] at hp
    rcases Dict.mem_set hp with hp | rfl
    · exact hk.ids p hp
    · exact hc.dispatchId hk

theorem expected_exec (hk : Keyed db) : Expected o (exec repr o w db).1 := by
  rw [exec]
  split
  next h => cases o <;> trivial
  cases o with
  | loadQueueItem d =>
    rw [run, Db.loadQueueItem]
    cases hrow : db.queue.get? d with
    | none => trivial
    | some row =>
      cases hread : rowToQueueItem row with
      | error e => simp only [hread]; trivial
      | ok item =>
        simp only [hread]
        exact (dispatchId_of_read hread).trans (hk.id_of_get? hrow)
  | listQueueByTeam teamId =>
    rw [run, Db.listQueueByTeam]
    cases hread : (db.rowsByTeam teamId).mapM rowToQueueItem with
    | error e => trivial
    | ok items =>
      have hids := mapM_keys (·.dispatchId) (·.dispatchId)
        (fun _ _ => dispatchId_of_read) hread
      change (items.map (·.dispatchId)).Nodup
      rw [hids]
      exact nodup_rowsByTeam hk teamId
  | markTaskResuming d =>
    rw [run, Db.markTaskResuming]
    cases hrow : db.queue.get? d with
    | none => trivial
    | some row =>
      simp only
      split <;> try trivial
      cases hread : rowToQueueItem row with
      | error e => trivial
      | ok item => exact ⟨(dispatchId_of_read hread).trans (hk.id_of_get? hrow), rfl⟩
  | _ => trivial

inductive Shows (w : World F) (row : QueueRow F) : Op F → QueueItem F → Prop
  | read {o item} (hread : rowToQueueItem row = .ok item) : Shows w row o item
  | marked {d item} (hread : rowToQueueItem row = .ok item) (hst : row.status ≠ .running) :
      Shows w row (.markTaskResuming d) { item with status := .running, updatedAt := w.time }

omit [LinearOrder F] in
theorem shows_load (hk : Keyed db) {d' : String} {item : QueueItem F}
    (hs : shown d (.loadQueueItem d') (db.loadQueueItem d') = some item) :
    ∃ row, db.queue.get? d = some row ∧ rowToQueueItem row = .ok item := by
  rw [Db.loadQueueItem] at hs
  cases hrow : db.queue.get? d' with
  | none => simp only [hrow] at hs; cases hs
  | some row =>
    simp only [hrow] at hs
    cases hread : rowToQueueItem row with
    | error e => simp only [hread] at hs; cases hs
    | ok read =>
      simp only [hread] at hs
      change (some read).filter (·.dispatchId = d) = some item at hs
      obtain ⟨hitem, hd⟩ := Option.filter_eq_some_iff.mp hs
      obtain rfl := Option.some.inj hitem
      have hid : read.dispatchId = d := of_decide_eq_true hd
      rw [dispatchId_of_read hread, hk.id_of_get? hrow] at hid
      exact ⟨row, hid ▸ hrow, hread⟩

theorem shows_list (hk : Keyed db) {teamId : String} {item : QueueItem F}
    (hs : shown d (.listQueueByTeam teamId) (db.listQueueByTeam teamId) = some item) :
    ∃ row, db.queue.get? d = some row ∧ rowToQueueItem row = .ok item := by
  rw [Db.listQueueByTeam] at hs
  cases hread : (db.rowsByTeam teamId).mapM rowToQueueItem with
  | error e => rw [hread] at hs; cases hs
  | ok items =>
    rw [hread] at hs
    have hd : item.dispatchId = d := by simpa using List.find?_some hs
    obtain ⟨row, hrow, hread⟩ := mem_mapM hread (List.mem_of_find?_eq_some hs)
    obtain ⟨d', hmem⟩ := (mem_rowsByTeam.mp hrow).1
    have hid : d' = d := (hk.ids _ hmem).symm.trans ((dispatchId_of_read hread).symm.trans hd)
    exact ⟨row, Dict.get?_of_mem hk.nodup (hid ▸ hmem), hread⟩

omit [LinearOrder F] in
theorem shows_mark {d' : String} {item : QueueItem F}
    (hs : shown d (.markTaskResuming d') (db.markTaskResuming repr d' w.time).1 = some item)
    (hk : Keyed db) :
    ∃ row, db.queue.get? d = some row ∧ Shows w row (.markTaskResuming d') item := by
  rw [Db.markTaskResuming] at hs
  cases hrow : db.queue.get? d' with
  | none => simp only [hrow] at hs; cases hs
  | some row =>
    simp only [hrow] at hs
    split at hs
    · cases hs
    · cases hs
    · cases hs
    next hst _ _ =>
      cases hread : rowToQueueItem row with
      | error e => rw [hread] at hs; cases hs
      | ok read =>
        rw [hread] at hs
        change (if read.dispatchId = d then _ else none) = _ at hs
        split at hs
        next hid =>
          rw [dispatchId_of_read hread, hk.id_of_get? hrow] at hid
          subst hid
          obtain rfl := Option.some.inj hs
          exact ⟨row, hrow, .marked hread hst⟩
        next => cases hs

theorem shows_exec (hk : Keyed db) {item : QueueItem F}
    (hs : shown d o (exec repr o w db).1 = some item) :
    (o = .saveQueueItem item ∧ item.dispatchId = d) ∨
      ∃ row, db.queue.get? d = some row ∧ Shows w row o item := by
  rw [exec] at hs
  split at hs
  next => cases o <;> cases hs
  cases o with
  | loadQueueItem d' =>
    obtain ⟨row, hrow, hread⟩ := shows_load hk hs
    exact .inr ⟨row, hrow, .read hread⟩
  | listQueueByTeam teamId =>
    obtain ⟨row, hrow, hread⟩ := shows_list hk hs
    exact .inr ⟨row, hrow, .read hread⟩
  | markTaskResuming d' => exact .inr (shows_mark hs hk)
  | saveQueueItem item' =>
    change (if item'.dispatchId = d then _ else none) = _ at hs
    split at hs
    next hd =>
      obtain rfl := Option.some.inj hs
      exact .inl ⟨rfl, hd⟩
    next => cases hs
  | _ => simp [shown] at hs

end Effects

section Handoffs

theorem insert_handoffs (item : QueueItem F) (db : Db F) :
    (atomically (Db.insertQueueItemOnce item) db).2.handoffs = db.handoffs := by
  rcases atomically_cases (Db.insertQueueItemOnce item) db with ⟨e, -, h⟩ | ⟨item', db', hf, h⟩
  · rw [h]
  · rw [h]
    rcases insert_ok hf with rfl | ⟨-, -, -, rfl⟩ <;> rfl

omit [LinearOrder F] in
theorem steer_handoffs (lead d : String) (guidance : Option (Guidance F)) (priority : Option Int)
    (time later : F) (db : Db F) :
    (atomically (Db.steerQueueItemOnce lead d guidance priority time later) db).2.handoffs =
      db.handoffs := by
  rcases atomically_cases (Db.steerQueueItemOnce lead d guidance priority time later) db with
    ⟨e, -, h⟩ | ⟨item', db', hf, h⟩
  · rw [h]
  · obtain ⟨row, item, -, -, -, -, rfl⟩ := steer_ok hf
    rw [h]
    rfl

omit [LinearOrder F] in
theorem cancel_handoffs (d lead reason : String) (time later : F) (db : Db F) :
    (atomically (Db.cancelActiveQueueItem d lead reason time later) db).2.handoffs =
      db.handoffs := by
  rcases atomically_cases (Db.cancelActiveQueueItem d lead reason time later) db with
    ⟨e, -, h⟩ | ⟨item', db', hf, h⟩
  · rw [h]
  · obtain ⟨row, item, -, -, -, -, rfl⟩ := cancel_ok hf
    rw [h]
    rfl

omit [LinearOrder F] in
theorem mark_handoffs (d : String) (now : F) (db : Db F) :
    (db.markTaskResuming repr d now).2.handoffs = db.handoffs := by
  rw [Db.markTaskResuming]
  split
  · rfl
  · split <;> rfl

theorem finalize_exec (repr : String → String) (teamId : String) (evidence : HandoffEvidence F)
    (status : Option QueueTaskStatus) (workerId : String) (w : World F) (db : Db F) :
    (∃ e, exec repr (.finalizeHandoff teamId evidence status workerId) w db = (.error e, db)) ∨
      db.handoffs.get? evidence.dispatchId = none ∧ ∃ db',
        db.finalizeHandoff repr teamId evidence status workerId w.time = .ok ((), db') ∧
        exec repr (.finalizeHandoff teamId evidence status workerId) w db = (.ok (), db') := by
  rcases exec_atomically repr w db
    (o := .finalizeHandoff teamId evidence status workerId) rfl with h | ⟨⟨⟩, db', hf, h⟩
  · exact .inl h
  refine .inr ⟨?_, db', hf, h⟩
  unfold Db.finalizeHandoff at hf
  split at hf
  · cases hf
  next hnew => exact hnew

theorem handoffs_exec (repr : String → String) (o : Op F) (w : World F) (db : Db F) :
    (exec repr o w db).2.handoffs = db.handoffs ∨
      ∃ teamId evidence status workerId, o = .finalizeHandoff teamId evidence status workerId ∧
        db.handoffs.get? evidence.dispatchId = none ∧
        (exec repr o w db).2.handoffs =
          db.handoffs.set evidence.dispatchId (teamId, evidence) := by
  cases o with
  | finalizeHandoff teamId evidence status workerId =>
    rcases finalize_exec repr teamId evidence status workerId w db with
      ⟨e, h⟩ | ⟨hnew, db', hf, h⟩
    · exact .inl (by rw [h])
    · refine .inr ⟨_, _, _, _, rfl, hnew, ?_⟩
      unfold Db.finalizeHandoff at hf
      rw [hnew] at hf
      rw [h, ← (Prod.mk.inj (Except.ok.inj hf)).2]
  | _ =>
    left
    rw [exec]
    split
    · rfl
    first
    | rfl
    | exact (atomically_sameWork fun _ _ => createTeam_sameWork).2
    | exact (atomically_sameWork fun _ _ => registerSingle_sameWork).2
    | exact (atomically_sameWork fun _ _ => registerBatch_sameWork).2
    | exact insert_handoffs ..
    | exact steer_handoffs ..
    | exact cancel_handoffs ..
    | exact mark_handoffs ..

end Handoffs

end SubagentBridge.Supervisor
