import SubagentBridge.Server.InterruptedWork
import SubagentBridge.Server.UnstartedLifecycle

/-! What replacing the task records of a run does to the evidence in them. -/

namespace SubagentBridge.Server

open Library Domain Planner Qa Team SqliteStore Execution

variable {B : Type} {api : BudgetApi B} {host : Host}

def SameEvidence (t t' : TaskRecord) : Prop :=
  t'.taskId = t.taskId ∧ t'.status = .verified ∧ t'.evidenceIds = t.evidenceIds

instance (t t' : TaskRecord) : Decidable (SameEvidence t t') :=
  inferInstanceAs (Decidable (_ ∧ _ ∧ _))

/-- What a run had verified, in memory and in the database, is verified by the same evidence. -/
structure KeepsEvidence (runId : String) (s s' : State B) : Prop where
  memory : ∀ t ∈ s.memory.taskRecords runId, HasEvidence t →
    ∃ t' ∈ s'.memory.taskRecords runId, SameEvidence t t'
  db : ∀ t ∈ s.db.loadTasksForRun runId, HasEvidence t →
    ∃ t' ∈ s'.db.loadTasksForRun runId, SameEvidence t t'

/-- Among the events `h`, a pending record of the task was written to the database. -/
def PendingStored (h : List (ServerEvent B)) (id : String) : Prop :=
  ∃ t : TaskRecord, t.taskId = id ∧ t.status = .pending ∧ ⟨.upsertTask t, .ok ()⟩ ∈ h

def storesPending (id : String) : ServerEvent B → Bool
  | ⟨.upsertTask t, .ok _⟩ => decide (t.taskId = id ∧ t.status = .pending)
  | _ => false

theorem storesPending_iff {id : String} {e : ServerEvent B} : storesPending id e = true ↔
    ∃ t : TaskRecord, t.taskId = id ∧ t.status = .pending ∧ e = ⟨.upsertTask t, .ok ()⟩ := by
  constructor
  · rw [storesPending.eq_def]
    split
    next t _ =>
      intro h
      obtain ⟨hid, hst⟩ := of_decide_eq_true h
      exact ⟨t, hid, hst, rfl⟩
    next => intro h; cases h
  · rintro ⟨t, hid, hst, rfl⟩
    exact decide_eq_true ⟨hid, hst⟩

instance (h : List (ServerEvent B)) (id : String) : Decidable (PendingStored h id) :=
  decidable_of_iff (∃ e ∈ h, storesPending id e = true) (by
    simp only [storesPending_iff, PendingStored]
    constructor
    · rintro ⟨_, hmem, t, hid, hst, rfl⟩
      exact ⟨t, hid, hst, hmem⟩
    · rintro ⟨t, hid, hst, hmem⟩
      exact ⟨_, hmem, t, hid, hst, rfl⟩)

/-- No pending record was written over a row with evidence; and where a record in memory has
evidence, not the last one of the decomposition, after which those in memory are replaced. -/
structure Spared (runId : String) (s : State B) (h : List (ServerEvent B)) : Prop where
  rows : ∀ t ∈ s.db.loadTasksForRun runId, HasEvidence t → ¬ PendingStored h t.taskId
  memory : ∀ t ∈ s.memory.taskRecords runId, HasEvidence t →
    ¬ PendingStored h (TaskDecomposer.qaTaskId runId)

instance (runId : String) (s : State B) (h : List (ServerEvent B)) :
    Decidable (Spared runId s h) :=
  decidable_of_iff ((∀ t ∈ s.db.loadTasksForRun runId, HasEvidence t → ¬ PendingStored h t.taskId) ∧
    ∀ t ∈ s.memory.taskRecords runId, HasEvidence t →
      ¬ PendingStored h (TaskDecomposer.qaTaskId runId))
    ⟨fun ⟨hrows, hmemory⟩ => ⟨hrows, hmemory⟩, fun hs => ⟨hs.rows, hs.memory⟩⟩

def Op.Inert : Op B → Prop
  | .upsertTask _ | .runIsolated _ _ | .runQa _ _ => False
  | _ => True

section Evidence

variable {runId : String} {s s' : State B} {h h' : List (ServerEvent B)}

theorem PendingStored.append {id : String} :
    PendingStored (h ++ h') id ↔ PendingStored h id ∨ PendingStored h' id := by
  simp only [PendingStored, List.mem_append, and_or_left, exists_or]

theorem not_stored_of_inert (hi : ∀ e ∈ h, e.op.Inert) (id : String) : ¬ PendingStored h id := by
  rintro ⟨t, -, -, hmem⟩
  exact hi _ hmem

theorem not_starts_of_inert {e : ServerEvent B} (hi : e.op.Inert) : ¬ Starts e := by
  obtain ⟨o, x⟩ := e
  rintro ⟨hlaunches, -⟩
  cases o with
  | runIsolated | runQa => exact hi
  | _ => exact hlaunches rfl

theorem Tidy.mem_loadTasks (ht : Tidy s) {t : TaskRecord} : t ∈ s.db.loadTasksForRun runId ↔
    s.db.tasks.get? t.taskId = some t ∧ t.runId = runId := by
  simp only [Db.loadTasksForRun, List.mem_filter, List.mem_map, decide_eq_true_eq]
  constructor
  · rintro ⟨⟨p, hp, rfl⟩, hrun⟩
    have hget := Dict.get?_of_mem ht.rowKeys hp
    exact ⟨(ht.rows _ _ hget).1 ▸ hget, hrun⟩
  · rintro ⟨hget, hrun⟩
    exact ⟨⟨_, Dict.mem_of_get? hget, rfl⟩, hrun⟩

theorem Owned.decomposed {t : TaskRecord} (ho : Owned t) (ht : HasEvidence t) :
    t.taskId ∈ taskIds t.runId := by
  obtain ⟨-, hd | ⟨-, hst | hst⟩⟩ := ho
  · exact hd
  · exact absurd ht.1 (by simp [hst])
  · exact absurd ht.1 (by simp [hst])

end Evidence

/-! ## How far an execution comes -/

/-- It came to an end before the records in memory were replaced. -/
structure Halted (runId : String) (s s' : State B) (h : List (ServerEvent B)) : Prop where
  starts : ∀ e ∈ h, ¬ Starts e
  last : ¬ PendingStored h (TaskDecomposer.qaTaskId runId)
  tasks : ∀ rs, s.memory.tasks.get? runId = some rs → s'.memory.tasks.get? runId = some rs
  spared : ∀ id t, s.db.tasks.get? id = some t → HasEvidence t → ¬ PendingStored h id →
    s'.db.tasks.get? id = some t
  lost : ∀ id row, PendingStored h id → s'.db.tasks.get? id = some row → row.status = .pending

/-- It replaced all of them. -/
structure Renewed (runId : String) (s' : State B) (h : List (ServerEvent B)) : Prop where
  stored : ∀ id ∈ taskIds runId, PendingStored h id
  bare : (∃ e ∈ h, Starts e) ∨ Bare runId s'

section Progress

variable {runId : String} {s s' s'' : State B} {h h' : List (ServerEvent B)}

theorem Halted.spared_iff (hh : Halted runId s s' h) (ht : Tidy s) (ht' : Tidy s') :
    Spared runId s h ↔ KeepsEvidence runId s s' := by
  constructor
  · intro hspared
    refine ⟨fun t hmem he => ⟨t, ?_, rfl, he.1, rfl⟩, fun t hmem he => ⟨t, ?_, rfl, he.1, rfl⟩⟩
    · rw [Memory.taskRecords] at hmem ⊢
      cases hrs : s.memory.tasks.get? runId with
      | none => simp [hrs] at hmem
      | some rs => rwa [hh.tasks rs hrs, ← hrs]
    · obtain ⟨hget, hrun⟩ := ht.mem_loadTasks.mp hmem
      exact ht'.mem_loadTasks.mpr ⟨hh.spared _ t hget he (hspared.rows t hmem he), hrun⟩
  · intro hkeeps
    refine ⟨fun t hmem he hstored => ?_, fun _ _ _ => hh.last⟩
    obtain ⟨t', hmem', hid, hst, -⟩ := hkeeps.db t hmem he
    have hget := (ht'.mem_loadTasks.mp hmem').1
    rw [hid] at hget
    cases hst.symm.trans (hh.lost _ t' hstored hget)

theorem Renewed.bare_of_spared (hr : Renewed runId s' h) (ht : Tidy s)
    (hspared : Spared runId s h) : Bare runId s := by
  refine List.forall_mem_append.mpr ⟨fun t hmem he => ?_, fun t hmem he => ?_⟩
  · exact hspared.memory t hmem he (hr.stored _ (by simp [taskIds]))
  · obtain ⟨hget, hrun⟩ := ht.mem_loadTasks.mp hmem
    have hid := (ht.rows _ _ hget).2.1.decomposed he
    exact hspared.rows t hmem he (hr.stored _ (hrun ▸ hid))

theorem Bare.keepsEvidence (hb : Bare runId s) : KeepsEvidence runId s s' :=
  ⟨fun t hmem he => absurd he (hb t (List.mem_append_left _ hmem)),
    fun t hmem he => absurd he (hb t (List.mem_append_right _ hmem))⟩

theorem Bare.spared (hb : Bare runId s) : Spared runId s h :=
  ⟨fun t hmem he => absurd he (hb t (List.mem_append_right _ hmem)),
    fun t hmem he => absurd he (hb t (List.mem_append_left _ hmem))⟩

theorem KeepsEvidence.bare (hk : KeepsEvidence runId s s') (hb : Bare runId s') :
    Bare runId s := by
  have hnone {t t' : TaskRecord} (he : HasEvidence t) (hsame : SameEvidence t t') :
      HasEvidence t' := ⟨hsame.2.1, hsame.2.2 ▸ he.2⟩
  refine List.forall_mem_append.mpr ⟨fun t hmem he => ?_, fun t hmem he => ?_⟩
  · obtain ⟨t', hmem', hsame⟩ := hk.memory t hmem he
    exact hb t' (List.mem_append_left _ hmem') (hnone he hsame)
  · obtain ⟨t', hmem', hsame⟩ := hk.db t hmem he
    exact hb t' (List.mem_append_right _ hmem') (hnone he hsame)

theorem Halted.inert (hh : Halted runId s s' h) (hi : ∀ e ∈ h', e.op.Inert)
    (hdb : s''.db.tasks = s'.db.tasks)
    (htasks : ∀ rs, s'.memory.tasks.get? runId = some rs → s''.memory.tasks.get? runId = some rs) :
    Halted runId s s'' (h ++ h') := by
  have hstored (id : String) : PendingStored (h ++ h') id ↔ PendingStored h id := by
    rw [PendingStored.append, or_iff_left (not_stored_of_inert hi id)]
  refine ⟨List.forall_mem_append.mpr ⟨hh.starts, fun e he => not_starts_of_inert (hi e he)⟩,
    (hstored _).not.mpr hh.last, fun rs hrs => htasks rs (hh.tasks rs hrs), ?_, ?_⟩
  · intro id t hget he hnot
    rw [hdb]
    exact hh.spared id t hget he ((hstored id).not.mp hnot)
  · intro id row hst hget
    rw [hdb] at hget
    exact hh.lost id row ((hstored id).mp hst) hget

theorem Halted.refl : Halted runId s s [] := by
  have hnot (id : String) : ¬ PendingStored (B := B) [] id :=
    not_stored_of_inert (List.forall_mem_nil _) id
  exact ⟨List.forall_mem_nil _, hnot _, fun _ => id, fun _ _ hget _ _ => hget,
    fun id _ hst => absurd hst (hnot id)⟩

theorem Renewed.append (hr : Renewed runId s' h) (hb : Bare runId s' → Bare runId s'')
    (h' : List (ServerEvent B)) : Renewed runId s'' (h ++ h') := by
  refine ⟨fun id hid => PendingStored.append.mpr (.inl (hr.stored id hid)), hr.bare.imp ?_ hb⟩
  rintro ⟨e, he, hs⟩
  exact ⟨e, List.mem_append_left _ he, hs⟩

end Progress

/-! ## The records of a new decomposition -/

section Register

variable {W : World B → Prop} {m : Moment B} {s₁ : State B} {runId : String} {ts : List TaskRecord}

/-- The records `done` have been written since `s₁`, one after the other. -/
structure Writing (s₁ : State B) (done : List TaskRecord) (s : State B)
    (h : List (ServerEvent B)) : Prop where
  tidy : Tidy s
  memory : s.memory = s₁.memory
  stored : ∀ id, PendingStored h id ↔ id ∈ done.map (·.taskId)
  starts : ∀ e ∈ h, ¬ Starts e
  others : ∀ id, id ∉ done.map (·.taskId) → s.db.tasks.get? id = s₁.db.tasks.get? id
  fresh : ∀ id ∈ done.map (·.taskId), ∀ row, s.db.tasks.get? id = some row → row.status = .pending

theorem Writing.next {s : State B} {done : List TaskRecord} {h : List (ServerEvent B)}
    {t : TaskRecord} (hw : Writing s₁ done s h) (hstatus : t.status = .pending) (ho : Owned t)
    {db : Db} (hdb : s.db.upsertTask t = .ok ((), db)) :
    Writing s₁ (done ++ [t]) { s with db } (h ++ [⟨.upsertTask t, .ok ()⟩]) := by
  obtain ⟨-, -, row, hrows⟩ := Lifecycle.upsertTask_frame hdb
  obtain ⟨row', hrow', hst, -⟩ := Lifecycle.upsertTask_row hdb
  have hrow : row.status = .pending := by
    rw [hrows, Dict.get?_set, if_pos rfl] at hrow'
    rw [Option.some.inj hrow', hst, hstatus]
  refine ⟨hw.tidy.upsertTask ho hdb, hw.memory, fun id => ?_, ?_, fun id hid => ?_,
    fun id hid r hr => ?_⟩
  · have hnew : PendingStored (B := B) [⟨.upsertTask t, .ok ()⟩] id ↔ id = t.taskId := by
      constructor
      · rintro ⟨t', rfl, -, hmem⟩
        cases List.mem_singleton.mp hmem
        rfl
      · rintro rfl
        exact ⟨t, rfl, hstatus, List.mem_singleton_self _⟩
    rw [PendingStored.append, hw.stored, hnew, List.map_append, List.mem_append, List.map_singleton,
      List.mem_singleton]
  · refine List.forall_mem_append.mpr ⟨hw.starts, List.forall_mem_singleton.mpr fun hs => ?_⟩
    exact hs.1 rfl
  · simp only [List.map_append, List.mem_append, List.map_singleton, List.mem_singleton,
      not_or] at hid
    rw [← hw.others id hid.1]
    simp only [hrows, Dict.get?_set, if_neg (Ne.symm hid.2)]
  · simp only [hrows, Dict.get?_set] at hr
    split at hr
    next =>
      cases hr
      exact hrow
    next hne =>
      simp only [List.map_append, List.mem_append, List.map_singleton, List.mem_singleton] at hid
      exact hw.fresh id (hid.resolve_right (Ne.symm hne)) r hr

theorem Writing.fails {s : State B} {done : List TaskRecord} {h : List (ServerEvent B)}
    (hw : Writing s₁ done s h) (t : TaskRecord) (e : Error) :
    Writing s₁ done s (h ++ [⟨.upsertTask t, .error e⟩]) := by
  refine ⟨hw.tidy, hw.memory, fun id => ?_, ?_, hw.others, hw.fresh⟩
  · have hnot : ¬ PendingStored (B := B) [⟨.upsertTask t, .error e⟩] id := by
      rintro ⟨t', -, -, hmem⟩
      cases List.mem_singleton.mp hmem
    rw [PendingStored.append, or_iff_left hnot, hw.stored]
  · refine List.forall_mem_append.mpr ⟨hw.starts, List.forall_mem_singleton.mpr fun hs => ?_⟩
    exact hs.1 rfl

theorem storeRecords_writing {done : List TaskRecord} {h : List (ServerEvent B)}
    (hts : ∀ t ∈ ts, t.status = .pending ∧ Owned t) (hw : Writing s₁ done m.state h) :
    (Proc.forEach ts fun t => perform (.upsertTask t)).Ensures W (fun _ _ => True)
      (fun m' r => ∃ written rest h', ts = written ++ rest ∧ m'.history = m.history ++ h' ∧
        Writing s₁ (done ++ written) m'.state (h ++ h') ∧ (r = .ok () → rest = []) ∧
          ∀ e, r = .error e → rest ≠ []) m := by
  induction ts generalizing m done h with
  | nil =>
    refine ⟨[], [], [], rfl, by simp, by simpa using hw, fun _ => rfl, nofun⟩
  | cons t ts ih =>
    obtain ⟨⟨hstatus, ho⟩, hts⟩ := List.forall_mem_cons.mp hts
    apply Proc.Ensures.bind (M := fun m' r =>
      (r = .ok () → ∃ h', m'.history = m.history ++ h' ∧
        Writing s₁ (done ++ [t]) m'.state (h ++ h')) ∧
      ∀ e, r = .error e → ∃ h', m'.history = m.history ++ h' ∧
        Writing s₁ done m'.state (h ++ h'))
    · apply ensures_perform (.upsertTask t)
      intro w _ _
      refine ⟨trivial, ?_⟩
      rcases writing_cases w m.state (Db.upsertTask t) with ⟨e, he⟩ | ⟨db, hdb, he⟩
      · have hexec : (runtime B).exec (.upsertTask t) w m.state = (.error e, m.state) := he
        rw [Runtime.after, Runtime.answer, hexec]
        refine ⟨fun hok => ?_, fun _ _ => ⟨[⟨.upsertTask t, .error e⟩], rfl, hw.fails t e⟩⟩
        rw [show (exec (.upsertTask t) w m.state).1 = .error e from congrArg Prod.fst he] at hok
        cases hok
      · have hexec : (runtime B).exec (.upsertTask t) w m.state = (.ok (),
          { m.state with db }) := he
        rw [Runtime.after, Runtime.answer, hexec]
        refine ⟨fun _ => ⟨[⟨.upsertTask t, .ok ()⟩], rfl, hw.next hstatus ho hdb⟩, fun _ hr => ?_⟩
        rw [show (exec (.upsertTask t) w m.state).1 = .ok () from congrArg Prod.fst he] at hr
        cases hr
    · rintro m' _ ⟨hok, -⟩
      obtain ⟨h₁, hh₁, hw₁⟩ := hok rfl
      apply (ih hts hw₁).post
      rintro m'' r ⟨written, rest, h₂, rfl, hh₂, hw₂, hdone, hrest⟩
      refine ⟨t :: written, rest, h₁ ++ h₂, rfl, ?_, ?_, hdone, hrest⟩
      · rw [hh₂, hh₁, List.append_assoc]
      · simpa [List.append_assoc] using hw₂
    · rintro m' e ⟨-, herr⟩
      obtain ⟨h₁, hh₁, hw₁⟩ := herr e rfl
      refine ⟨[], t :: ts, h₁, rfl, hh₁, ?_, nofun, fun _ _ => List.cons_ne_nil _ _⟩
      simpa using hw₁

theorem ids_records (goal runId : String) :
    (TaskDecomposer.records goal runId).map (·.taskId) = taskIds runId := rfl

theorem pending_records (goal : String) (hrun : IsRunId runId) :
    ∀ t ∈ TaskDecomposer.records goal runId, t.status = .pending ∧ Owned t := by
  intro t ht
  obtain ⟨hid, hd⟩ := decomposed_records runId goal t ht
  refine ⟨?_, hid ▸ hrun, .inl (hid ▸ hd)⟩
  simp only [TaskDecomposer.records, List.mem_cons, List.not_mem_nil, or_false] at ht
  rcases ht with rfl | rfl | rfl <;> rfl

theorem last_not_written {goal : String} {written rest : List TaskRecord}
    (hsplit : TaskDecomposer.records goal runId = written ++ rest) (hrest : rest ≠ []) :
    TaskDecomposer.qaTaskId runId ∉ written.map (·.taskId) := by
  have hids : written.map (·.taskId) ++ rest.map (·.taskId) = taskIds runId := by
    rw [← List.map_append, ← hsplit, ids_records]
  have hlast : (rest.map (·.taskId)).getLast? = some (TaskDecomposer.qaTaskId runId) := by
    have hall := congrArg List.getLast? hids
    rw [List.getLast?_append_of_ne_nil _ (by simpa using hrest)] at hall
    exact hall
  have hnodup := hids ▸ nodup_taskIds runId
  exact fun hmem => (List.nodup_append.mp hnodup).2.2 _ hmem _ (List.mem_of_getLast? hlast) rfl

theorem clearPending_ensures (ht : Tidy m.state) :
    (ignoring (perform (.deletePendingTasks runId))).Ensures W (fun _ _ => True)
      (fun (m' : Moment B) r => r = .ok () ∧ ∃ h, m'.history = m.history ++ h ∧
        Writing m'.state [] m'.state h ∧ m'.state.memory = m.state.memory ∧
        ∀ id t, m.state.db.tasks.get? id = some t → HasEvidence t →
          m'.state.db.tasks.get? id = some t) m := by
  have hdelete : (perform (.deletePendingTasks runId)).Ensures W (fun _ _ => True)
      (fun (m' : Moment B) _ => ∃ h, m'.history = m.history ++ h ∧
        Writing m'.state [] m'.state h ∧ m'.state.memory = m.state.memory ∧
        ∀ id t, m.state.db.tasks.get? id = some t → HasEvidence t →
          m'.state.db.tasks.get? id = some t) m := by
    apply ensures_perform (.deletePendingTasks runId)
    intro w _ _
    have hstarts :
      ∀ e ∈ [(⟨.deletePendingTasks runId, (exec (.deletePendingTasks runId) w m.state).1⟩ :
        ServerEvent B)], ¬ Starts e := List.forall_mem_singleton.mpr fun hs => hs.1 rfl
    have hstored (id : String) : ¬ PendingStored [(⟨.deletePendingTasks runId,
        (exec (.deletePendingTasks runId) w m.state).1⟩ : ServerEvent B)] id := by
      rintro ⟨t, -, -, hmem⟩
      cases List.mem_singleton.mp hmem
    have hwriting {s : State B} (hs : Tidy s) : Writing s [] s [⟨.deletePendingTasks runId,
        (exec (.deletePendingTasks runId) w m.state).1⟩] :=
      ⟨hs, rfl, fun id => iff_of_false (hstored id) List.not_mem_nil, hstarts,
        fun _ _ => rfl, nofun⟩
    refine ⟨trivial, _, rfl, ?_⟩
    rcases writing_cases w m.state (Db.deletePendingTasks runId) with ⟨e, he⟩ | ⟨db, hdb, he⟩
    · have hstate : ((runtime B).after (.deletePendingTasks runId) w m).state = m.state :=
        congrArg Prod.snd he
      rw [hstate]
      exact ⟨hwriting ht, rfl, fun _ _ hget _ => hget⟩
    · have hstate : ((runtime B).after (.deletePendingTasks runId) w m).state =
          { m.state with db } := congrArg Prod.snd he
      rw [hstate]
      refine ⟨hwriting (ht.deletePendingTasks hdb), rfl, fun id t hget hev => ?_⟩
      cases deleteTasks_ok hdb
      simp only [Dict.get?_filter ht.rowKeys, Option.filter_eq_some_iff]
      exact ⟨hget, by simp [hev.1]⟩
  exact hdelete.tryCatch (fun _ _ hm => ⟨rfl, hm⟩) fun _ _ hm => ⟨rfl, hm⟩

theorem Writing.installed {s : State B} {h : List (ServerEvent B)} {goal : String}
    (hrun : IsRunId runId) (hw : Writing s₁ (TaskDecomposer.records goal runId) s h) :
    Tidy { s with memory := { s.memory with
      tasks := s.memory.tasks.set runId (TaskDecomposer.records goal runId) } } ∧
    Bare runId { s with memory := { s.memory with
      tasks := s.memory.tasks.set runId (TaskDecomposer.records goal runId) } } := by
  have hrecords := pending_records goal hrun
  have htidy : Tidy { s with memory := { s.memory with
      tasks := s.memory.tasks.set runId (TaskDecomposer.records goal runId) } } :=
    hw.tidy.setTasks fun t hmem =>
      ⟨(decomposed_records runId goal t hmem).1, (hrecords t hmem).2⟩
  refine ⟨htidy, List.forall_mem_append.mpr ⟨fun t hmem he => ?_, fun t hmem he => ?_⟩⟩
  · have hmem' : t ∈ TaskDecomposer.records goal runId := by
      simpa [Memory.taskRecords, Dict.get?_set] using hmem
    cases he.1.symm.trans (hrecords t hmem').1
  · obtain ⟨hget, hid⟩ := htidy.mem_loadTasks.mp hmem
    have hmem' := (htidy.rows _ _ hget).2.1.decomposed he
    cases he.1.symm.trans (hw.fresh _ (hid ▸ hmem') t hget)

theorem registerTasks_progress (ht : Tidy m.state) (hrun : IsRunId runId) (goal : String) :
    (registerTasks runId (TaskDecomposer.records goal runId)).Ensures W (fun _ _ => True)
      (fun (m' : Moment B) r => ∃ h, m'.history = m.history ++ h ∧
        (∀ e, r = .error e → Halted runId m.state m'.state h) ∧
        (r = .ok () → (∀ e ∈ h, ¬ Starts e) ∧ (∀ id ∈ taskIds runId, PendingStored h id) ∧
          Bare runId m'.state ∧ Tidy m'.state)) m := by
  have hrecords := pending_records goal hrun
  apply (clearPending_ensures ht).bind
  · rintro m₁ _ ⟨-, h₁, hh₁, hw₁, hmemory, hrows⟩
    apply (storeRecords_writing hrecords hw₁).bind
    · rintro m₂ _ ⟨written, rest, h₂, hsplit, hh₂, hw₂, hdone, -⟩
      rw [hdone rfl, List.append_nil] at hsplit
      rw [List.nil_append, ← hsplit] at hw₂
      obtain ⟨htidy, hbare⟩ := hw₂.installed hrun
      apply ensures_perform (.modify _)
      intro w _ _
      refine ⟨trivial, h₁ ++ h₂ ++ [⟨.modify fun m => { m with
        tasks := m.tasks.set runId (TaskDecomposer.records goal runId) }, .ok ()⟩], ?_,
        fun _ he => (by cases he), fun _ => ⟨?_, ?_, hbare, htidy⟩⟩
      · rw [Runtime.after_history, hh₂, hh₁]
        simp only [List.append_assoc]
        rfl
      · refine List.forall_mem_append.mpr ⟨hw₂.starts, ?_⟩
        exact List.forall_mem_singleton.mpr fun hs => hs.1 rfl
      · exact fun id hid => PendingStored.append.mpr (.inl ((hw₂.stored id).mpr hid))
    · rintro m₂ e ⟨written, rest, h₂, hsplit, hh₂, hw₂, -, hrest⟩
      rw [List.nil_append] at hw₂
      refine ⟨h₁ ++ h₂, by rw [hh₂, hh₁, List.append_assoc], fun _ _ => ?_,
        fun he => (by cases he)⟩
      refine ⟨hw₂.starts, ?_, ?_, ?_, ?_⟩
      · exact (hw₂.stored _).not.mpr (last_not_written hsplit (hrest e rfl))
      · intro rs hrs
        rwa [hw₂.memory, hmemory]
      · intro id t hget he hnot
        rw [hw₂.others id ((hw₂.stored id).not.mp hnot)]
        exact hrows id t hget he
      · exact fun id row hst => hw₂.fresh id ((hw₂.stored id).mp hst) row
  · rintro m₁ e ⟨hr, -⟩
    cases hr

end Register

end SubagentBridge.Server
