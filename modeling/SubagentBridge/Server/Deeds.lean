import SubagentBridge.Library.GuardedService
import SubagentBridge.Server.Records

/-! What the calls of the server do to its records, operation by operation. -/

namespace SubagentBridge.Server

open Library Domain Planner Qa Team SqliteStore Execution

variable {B : Type} {api : BudgetApi B} {host : Host}

/-! ## First tasks -/

def isFirst (taskId : String) : Bool := "task_".toList.isPrefixOf taskId.toList

theorem isFirst_of_initial {taskId : String} (h : IsInitial taskId) : isFirst taskId = true := by
  obtain ⟨hex, rfl⟩ := h
  simp [isFirst, taskIdOf, List.isPrefixOf]

theorem not_isFirst {runId taskId : String} (hr : IsRunId runId) (h : Decomposed runId taskId) :
    isFirst taskId = false := by
  obtain ⟨hex, rfl⟩ := hr
  rw [decomposed_iff] at h
  rcases h with h | h | h <;> simp [isFirst, h, runIdOf, List.isPrefixOf]

def NoFirst (db : Db) (runId : String) : Prop :=
  ∀ p ∈ db.tasks, p.2.runId = runId → isFirst p.1 = false

instance (db : Db) (runId : String) : Decidable (NoFirst db runId) :=
  inferInstanceAs (Decidable (∀ _ ∈ _, _))

/-! ## Deeds -/

def Unfinished (s : State B) (runId : String) : Prop :=
  ∃ run, s.memory.runs.get? runId = some run ∧ run.status ≠ .completed

def AllVerified (s : State B) (runId : String) : Prop :=
  ∀ t ∈ s.memory.taskRecords runId ++ s.db.loadTasksForRun runId, t.status = .verified

def Wrote (s s' : State B) (f : Db → Except SqliteStore.Error (Unit × Db)) : Prop :=
  s' = s ∨ ∃ db, f s.db = .ok ((), db) ∧ s' = { s with db }

inductive Look (runId : String) (s s' : State B) : Op B → Prop
  | idle {o : Op B} : o.Idle → SameRecords s s' → Look runId s s' o
  | run {o : Op B} : o.quiet = true → s' = cacheRun s runId → Look runId s s' o
  | tasks {o : Op B} : o.quiet = true → s' = cacheTasks s runId → Look runId s s' o

structure Rights where
  execute : Prop
  submit : Prop
  cancel : Prop

/-- What one operation of a call does to the run `runId`.  Where `strict` holds, a completed
run is left completed, and only a verified one is marked so. -/
inductive Deed (strict : Prop) (rights : Rights) (runId : String) (s s' : State B) : Op B → Prop
  | looks {o : Op B} : Look runId s s' o → Deed strict rights runId s s' o
  | marks {g : Memory B → Memory B} (run : RunRecord) (status : RunStatus) :
    s.memory.runs.get? runId = some run →
    (strict → run.status = .completed → status = .completed) →
    (run.status = .cancelled → status = .cancelled) →
    (strict → status = .completed → AllVerified s runId) →
    s' = { s with memory := { s.memory with
      runs := s.memory.runs.set runId { run with status } } } →
    Deed strict rights runId s s' (.modify g)
  | stores {r : RunRecord} : s.memory.runs.get? runId = some r →
    Wrote s s' (fun db => .ok ((), db.upsertRun r)) → Deed strict rights runId s s' (.upsertRun r)
  | clears : rights.execute → Unfinished s runId → Wrote s s' (Db.deletePendingTasks runId) →
    Deed strict rights runId s s' (.deletePendingTasks runId)
  | registers {t : TaskRecord} : rights.execute → Unfinished s runId → t.runId = runId →
    Decomposed runId t.taskId → Wrote s s' (Db.upsertTask t) →
    Deed strict rights runId s s' (.upsertTask t)
  | installs {g : Memory B → Memory B} (rs : List TaskRecord) :
    Unfinished s runId ∨ (∀ t ∈ rs, t ∈ s.memory.taskRecords runId) →
    (∀ t ∈ rs, t.runId = runId ∧ Owned t) →
    s' = { s with memory := { s.memory with tasks := s.memory.tasks.set runId rs } } →
    Deed strict rights runId s s' (.modify g)
  | works {o : Op B} (l : Lifecycle) (taskId : String) : rights.execute → Unfinished s runId →
    l.runId = runId → Decomposed runId taskId → l.Effect taskId s s' o →
    Deed strict rights runId s s' o
  | cancels {t : TaskRecord} : rights.cancel → Unfinished s runId → t ∈ s.memory.taskRecords runId →
    t.status = .cancelled → (s.db.runs.get? runId).any (·.status = .cancelled) = true →
    Wrote s s' (Db.upsertTask t) → Deed strict rights runId s s' (.upsertTask t)
  | opens {r : RunRecord} : rights.submit → IsRunId runId → r.runId = runId →
    r.status = .submitted → s.db.runs.get? runId = none →
    Wrote s s' (fun db => .ok ((), db.upsertRun r)) →
    Deed strict rights runId s s' (.upsertRun r)
  | starts {t : TaskRecord} : rights.submit → t.runId = runId → IsInitial t.taskId →
    t.status = .pending → s.db.tasks.get? t.taskId = none → s.memory.runs.get? runId = none →
    (s.db.runs.get? runId).any (·.status = .submitted) = true → Wrote s s' (Db.upsertTask t) →
    Deed strict rights runId s s' (.upsertTask t)
  | remembers {g : Memory B → Memory B} (r : RunRecord) (t : TaskRecord) : rights.submit →
    s.memory.runs.get? runId = none → r.runId = runId → r.status = .submitted →
    t.runId = runId → Owned t → (s.db.runs.get? runId).any (·.status = .submitted) = true →
    s' = { s with memory := { s.memory with
      runs := s.memory.runs.set runId r, tasks := s.memory.tasks.set runId [t] } } →
    Deed strict rights runId s s' (.modify g)
  | forgets {g : Memory B → Memory B} : rights.submit →
    (s.memory.runs.get? runId).any (·.status = .submitted) = true →
    s' = { s with memory := { s.memory with
      runs := s.memory.runs.erase runId, tasks := s.memory.tasks.erase runId
      runCommands := s.memory.runCommands.erase runId } } →
    Deed strict rights runId s s' (.modify g)
  | withdraws : rights.submit → s.memory.runs.get? runId = none →
    (∀ r ∈ s.db.runs.get? runId, r.status = .submitted) → Wrote s s' (Db.deleteRun runId) →
    Deed strict rights runId s s' (.deleteRun runId)

def Does (strict : Prop) (rights : Rights) (runId : String) (m m' : Moment B) : Prop :=
  ∃ e : ServerEvent B, m'.history = m.history ++ [e] ∧
    Deed strict rights runId m.state m'.state e.op

section Deeds

variable {strict : Prop} {rights : Rights} {runId : String} {s s' : State B} {o : Op B}

theorem Wrote.tidy (h : Tidy s) {f : Db → Except SqliteStore.Error (Unit × Db)}
    (hw : Wrote s s' f) (hf : ∀ db, f s.db = .ok ((), db) → Tidy { s with db }) : Tidy s' := by
  rcases hw with rfl | ⟨db, hdb, rfl⟩
  · exact h
  · exact hf db hdb

theorem Look.tidy (h : Tidy s) (hl : Look runId s s' o) : Tidy s' := by
  cases hl with
  | idle _ hs => exact h.same hs
  | run _ hs => exact hs ▸ h.cacheRun runId
  | tasks _ hs => exact hs ▸ h.cacheTasks runId

theorem Tidy.isRunId (h : Tidy s) (hr : Unfinished s runId) : IsRunId runId := by
  obtain ⟨run, hrun, -⟩ := hr
  exact (h.runs _ _ hrun).2

theorem Deed.tidy (h : Tidy s) (hd : Deed strict rights runId s s' o) : Tidy s' := by
  cases hd with
  | looks hl => exact hl.tidy h
  | marks run status hrun _ _ _ hs =>
    subst hs
    have hid : run.runId = runId ∧ IsRunId runId := h.runs _ _ hrun
    exact h.setRun (r := { run with status }) hid (h.stored _ (by simp [hrun]))
  | stores hr hw =>
    obtain ⟨hid, hrun⟩ := h.runs _ _ hr
    refine hw.tidy h fun db hdb => ?_
    cases hdb
    exact h.upsertRun (hid ▸ hrun)
  | clears _ _ hw => exact hw.tidy h fun _ hdb => h.deletePendingTasks hdb
  | registers _ hun hrun hid hw =>
    subst hrun
    exact hw.tidy h fun _ hdb => h.upsertTask ⟨h.isRunId hun, .inl hid⟩ hdb
  | installs rs _ hrs hs => exact hs ▸ h.setTasks hrs
  | works l taskId _ _ hl hid he =>
    subst hl
    exact h.effect hid he
  | cancels _ _ ht _ _ hw => exact hw.tidy h fun _ hdb => h.upsertTask (h.records _ _ ht).2 hdb
  | opens _ hrun hid _ _ hw =>
    refine hw.tidy h fun db hdb => ?_
    cases hdb
    exact h.upsertRun (hid ▸ hrun)
  | starts _ hid hinit hst _ _ hdb hw =>
    refine hw.tidy h fun _ hok => h.upsertTask ⟨?_, .inr ⟨hinit, .inl hst⟩⟩ hok
    obtain ⟨r, hr, -⟩ := (Option.any_eq_true _ _).mp hdb
    exact hid ▸ (h.dbRuns _ _ hr).2
  | remembers r t _ _ hid _ ht ho hdb hs =>
    obtain ⟨r', hr', -⟩ := (Option.any_eq_true _ _).mp hdb
    have hrun := h.setRun (r := r) ⟨hid, (h.dbRuns _ _ hr').2⟩ (by simp [hr'])
    have htask : ∀ t' ∈ [t], t'.runId = runId ∧ Owned t' := by simp [ht, ho]
    exact hs ▸ hrun.setTasks htask
  | forgets _ _ hs =>
    subst hs
    refine ⟨h.rowKeys, h.rows, ?_, h.dbRuns, ?_, ?_⟩
    · intro id t ht
      simp only [Memory.taskRecords, Dict.get?_erase] at ht
      split at ht
      next => cases ht
      next => exact h.records id t ht
    · intro id r hr
      simp only [Dict.get?_erase] at hr
      split at hr
      next => cases hr
      next => exact h.runs id r hr
    · intro id hid
      simp only [Dict.get?_erase] at hid
      split at hid
      next => exact absurd rfl hid
      next => exact h.stored id hid
  | withdraws _ hmem _ hw => exact hw.tidy h fun _ hdb => h.deleteRun hdb hmem

/-! ### Other runs -/

structure Elsewhere (runId : String) (s s' : State B) : Prop where
  runs : ∀ id, id ≠ runId → s'.memory.runs.get? id = s.memory.runs.get? id
  tasks : ∀ id, id ≠ runId → s'.memory.tasks.get? id = s.memory.tasks.get? id
  dbRuns : ∀ id, id ≠ runId → s'.db.runs.get? id = s.db.runs.get? id
  rows : ∀ id t, isFirst id = false → t.runId ≠ runId →
    (s'.db.tasks.get? id = some t ↔ s.db.tasks.get? id = some t)
  older : ∀ id t, s'.db.tasks.get? id = some t → t.runId ≠ runId →
    ∃ t₀, s.db.tasks.get? id = some t₀ ∧ t₀.runId = t.runId

theorem Elsewhere.of_same (hruns : s'.memory.runs = s.memory.runs)
    (htasks : s'.memory.tasks = s.memory.tasks) (hdbRuns : s'.db.runs = s.db.runs)
    (hrows : s'.db.tasks = s.db.tasks) : Elsewhere runId s s' := by
  refine ⟨fun _ _ => by rw [hruns], fun _ _ => by rw [htasks], fun _ _ => by rw [hdbRuns],
    fun _ _ _ _ => by rw [hrows], fun id t ht _ => ⟨t, ?_, rfl⟩⟩
  rw [← hrows]
  exact ht

theorem Elsewhere.refl : Elsewhere runId s s := .of_same rfl rfl rfl rfl

theorem Elsewhere.of_memory {memory : Memory B}
    (hruns : ∀ id, id ≠ runId → memory.runs.get? id = s.memory.runs.get? id)
    (htasks : ∀ id, id ≠ runId → memory.tasks.get? id = s.memory.tasks.get? id) :
    Elsewhere runId s { s with memory } :=
  ⟨hruns, htasks, fun _ _ => rfl, fun _ _ _ _ => Iff.rfl, fun _ t ht _ => ⟨t, ht, rfl⟩⟩

theorem Wrote.elsewhere {f : Db → Except SqliteStore.Error (Unit × Db)} (hw : Wrote s s' f)
    (hf : ∀ db, f s.db = .ok ((), db) → Elsewhere runId s { s with db }) :
    Elsewhere runId s s' := by
  rcases hw with rfl | ⟨db, hdb, rfl⟩
  · exact .refl
  · exact hf db hdb

theorem elsewhere_upsertRun {r : RunRecord} (hr : r.runId = runId) :
    Elsewhere runId s { s with db := s.db.upsertRun r } := by
  refine ⟨fun _ _ => rfl, fun _ _ => rfl, fun id hne => ?_, fun _ _ _ _ => Iff.rfl,
    fun _ t ht _ => ⟨t, ht, rfl⟩⟩
  rw [get?_upsertRun, if_neg]
  rintro rfl
  exact hne hr

theorem Tidy.row_runId (h : Tidy s) {t row : TaskRecord} (ht : Owned t)
    (hrow : s.db.tasks.get? t.taskId = some row) (hfirst : isFirst t.taskId = false) :
    row.runId = t.runId := by
  obtain ⟨hid, ⟨-, ho⟩, -⟩ := h.rows _ _ hrow
  have hd : Decomposed t.runId t.taskId := by
    rcases ht.2 with hd | hi
    · exact hd
    · rw [isFirst_of_initial hi.1] at hfirst
      cases hfirst
  rcases ho with ho | ho
  · exact (hid ▸ ho).injective hd
  · exact absurd (hid ▸ ho.1) (hd.not_initial ht.1)

theorem Tidy.elsewhere_upsertTask (h : Tidy s) {t : TaskRecord} (ht : Owned t)
    (hrun : t.runId = runId) {db : Db} (hdb : s.db.upsertTask t = .ok ((), db)) :
    Elsewhere runId s { s with db } := by
  subst hrun
  have hset (row : TaskRecord) (hfirst : isFirst t.taskId = false → row.runId = t.runId)
      (hold : row.runId = t.runId ∨
        ∃ t₀, s.db.tasks.get? t.taskId = some t₀ ∧ t₀.runId = row.runId)
      (hnew : isFirst t.taskId = false → ∀ t₀, s.db.tasks.get? t.taskId = some t₀ →
        t₀.runId = t.runId) :
      Elsewhere t.runId s { s with db := { s.db with tasks := s.db.tasks.set t.taskId row } } := by
    refine ⟨fun _ _ => rfl, fun _ _ => rfl, fun _ _ => rfl, fun id t' hf hne => ?_,
      fun id t' ht' hne => ?_⟩
    · simp only [Dict.get?_set]
      split
      next hid =>
        subst hid
        constructor
        · intro heq
          cases heq
          exact absurd (hfirst hf) hne
        · exact fun heq => absurd (hnew hf _ heq) hne
      next => rfl
    · simp only [Dict.get?_set] at ht'
      split at ht'
      next hid =>
        subst hid
        cases ht'
        exact hold.resolve_left hne
      next => exact ⟨t', ht', rfl⟩
  rcases upsertTask_cases hdb with ⟨row, hrow, rfl⟩ | ⟨hnone, -, rfl⟩
  · have hrun : isFirst t.taskId = false → row.runId = t.runId := h.row_runId ht hrow
    exact hset _ hrun (.inr ⟨row, hrow, rfl⟩) fun hf t₀ ht₀ => h.row_runId ht ht₀ hf
  · refine hset t (fun _ => rfl) (.inl rfl) fun _ t₀ ht₀ => ?_
    rw [hnone] at ht₀
    cases ht₀

theorem Tidy.elsewhere_dropRows (h : Tidy s) {p : String × TaskRecord → Bool}
    (hp : ∀ q ∈ s.db.tasks, q.2.runId ≠ runId → p q = true) {runs : Dict String RunRecord}
    (hruns : ∀ id, id ≠ runId → runs.get? id = s.db.runs.get? id) :
    Elsewhere runId s { s with db := { s.db with runs, tasks := s.db.tasks.filter p } } := by
  refine ⟨fun _ _ => rfl, fun _ _ => rfl, hruns, fun id t _ hne => ?_, fun id t ht _ => ?_⟩
  · simp only [Dict.get?_filter h.rowKeys, Option.filter_eq_some_iff, and_iff_left_iff_imp]
    exact fun hget => hp (id, t) (Dict.mem_of_get? hget) hne
  · simp only [Dict.get?_filter h.rowKeys, Option.filter_eq_some_iff] at ht
    exact ⟨t, ht.1, rfl⟩

theorem Tidy.elsewhere_deleteRun (h : Tidy s) {db : Db}
    (hdb : s.db.deleteRun runId = .ok ((), db)) : Elsewhere runId s { s with db } := by
  simp only [Db.deleteRun, bind_ok, require_ok] at hdb
  obtain ⟨⟨_, db₁⟩, hdel, _, -, hdb⟩ := hdb
  cases hdb
  cases deleteTasks_ok hdel
  apply h.elsewhere_dropRows
  · intro q _ hne
    simpa using hne
  · intro id hne
    rw [Dict.get?_erase, if_neg (Ne.symm hne)]

theorem Look.elsewhere (hl : Look runId s s' o) : Elsewhere runId s s' := by
  cases hl with
  | idle _ hs => exact .of_same hs.runs hs.tasks hs.dbRuns hs.rows
  | run _ hs =>
    subst hs
    rw [cacheRun]
    split
    next => exact .of_memory (fun id hne => by rw [Dict.get?_set, if_neg (Ne.symm hne)])
              fun _ _ => rfl
    next => exact .refl
  | tasks _ hs =>
    subst hs
    rw [cacheTasks]
    split
    next => exact .of_memory (fun _ _ => rfl)
              fun id hne => by rw [Dict.get?_set, if_neg (Ne.symm hne)]
    next => exact .refl

theorem elsewhere_effect (h : Tidy s) {l : Lifecycle} {taskId : String} (hl : l.runId = runId)
    (hid : Decomposed runId taskId) (he : l.Effect taskId s s' o) : Elsewhere runId s s' := by
  subst hl
  cases he with
  | asks _ hs => exact hs ▸ .refl
  | coordinates systems hs =>
    subst hs
    exact .of_memory (fun _ _ => rfl) fun _ _ => rfl
  | edits f _ hs =>
    subst hs
    exact .of_memory (fun _ _ => rfl) fun id hne => by rw [Dict.get?_set, if_neg (Ne.symm hne)]
  | writes hr _ hm hdb =>
    obtain ⟨hrun, ho⟩ := h.records _ _ (mem_of_recordOf hr)
    rcases hdb with hdb | hdb
    · exact .of_same (by rw [hm]) (by rw [hm]) (by rw [hdb]) (by rw [hdb])
    · have hs' : s' = { s with db := s'.db } := by rw [← hm]
      rw [hs']
      exact h.elsewhere_upsertTask ho hrun hdb
  | dispatches _ hm hdb =>
    rcases hdb with hdb | hdb
    · exact .of_same (by rw [hm]) (by rw [hm]) (by rw [hdb]) (by rw [hdb])
    · obtain ⟨hruns, hrows⟩ := Lifecycle.upsertDispatch_frame hdb
      exact .of_same (by rw [hm]) (by rw [hm]) hruns hrows
  | develops _ _ hs => exact hs ▸ .refl
  | tests hs => exact hs ▸ .refl

theorem Deed.elsewhere (h : Tidy s) (hd : Deed strict rights runId s s' o) :
    Elsewhere runId s s' := by
  cases hd with
  | looks hl => exact hl.elsewhere
  | marks run status _ _ _ _ hs =>
    subst hs
    exact .of_memory (fun id hne => by rw [Dict.get?_set, if_neg (Ne.symm hne)]) fun _ _ => rfl
  | stores hr hw =>
    refine hw.elsewhere fun db hdb => ?_
    cases hdb
    exact elsewhere_upsertRun (h.runs _ _ hr).1
  | clears _ _ hw =>
    refine hw.elsewhere fun db hdb => ?_
    cases deleteTasks_ok hdb
    apply h.elsewhere_dropRows
    · intro q _ hne
      simp [hne]
    · exact fun _ _ => rfl
  | registers _ hun hrun hid hw =>
    subst hrun
    exact hw.elsewhere fun _ hdb => h.elsewhere_upsertTask ⟨h.isRunId hun, .inl hid⟩ rfl hdb
  | installs rs _ _ hs =>
    subst hs
    exact .of_memory (fun _ _ => rfl) fun id hne => by rw [Dict.get?_set, if_neg (Ne.symm hne)]
  | works l taskId _ _ hl hid he => exact elsewhere_effect h hl hid he
  | cancels _ _ ht _ _ hw =>
    obtain ⟨hrun, ho⟩ := h.records _ _ ht
    exact hw.elsewhere fun _ hdb => h.elsewhere_upsertTask ho hrun hdb
  | opens _ _ hid _ _ hw =>
    refine hw.elsewhere fun db hdb => ?_
    cases hdb
    exact elsewhere_upsertRun hid
  | starts _ hid hinit hst _ _ hdb hw =>
    obtain ⟨r, hr, -⟩ := (Option.any_eq_true _ _).mp hdb
    exact hw.elsewhere fun _ hok =>
      h.elsewhere_upsertTask ⟨hid ▸ (h.dbRuns _ _ hr).2, .inr ⟨hinit, .inl hst⟩⟩ hid hok
  | remembers r t _ _ _ _ _ _ _ hs =>
    subst hs
    exact .of_memory (fun id hne => by rw [Dict.get?_set, if_neg (Ne.symm hne)])
      fun id hne => by rw [Dict.get?_set, if_neg (Ne.symm hne)]
  | forgets _ _ hs =>
    subst hs
    exact .of_memory (fun id hne => by rw [Dict.get?_erase, if_neg (Ne.symm hne)])
      fun id hne => by rw [Dict.get?_erase, if_neg (Ne.symm hne)]
  | withdraws _ _ _ hw => exact hw.elsewhere fun _ hdb => h.elsewhere_deleteRun hdb

end Deeds

/-! ## Calls -/

def Careful : Op B → World B → Moment B → Prop
  | .deletePendingTasks runId, w, m =>
    NoFirst (exec (.deletePendingTasks runId) w m.state).2.db runId
  | _, _, _ => True

def Executable (host : Host) (s : State B) (runId : String) : Prop :=
  ∃ run ∈ knownRun s runId, isOver run.status = false ∧ host.resolve run.workspacePath ≠ none

def Request.may (host : Host) (q : Request) (s : State B) (runId : String) : Rights where
  execute := q.run? = none ∨ q.executes = some runId ∧ Executable host s runId
  submit := q.run? = none
  cancel := q.cancels = true

section Calls

variable {W : World B → Prop} {G : Op B → World B → Moment B → Prop} {m : Moment B}
variable {strict : Prop} {rights : Rights} {runId workspace : String} {run : RunRecord} {α : Type}

theorem wrote_writing (w : World B) (s : State B)
    (f : Db → Except SqliteStore.Error (Unit × Db)) : Wrote s (writing w s f).2 f := by
  rcases writing_cases w s f with ⟨e, he⟩ | ⟨db, hdb, he⟩
  · exact .inl (congrArg Prod.snd he)
  · exact .inr ⟨db, hdb, congrArg Prod.snd he⟩

theorem Wrote.memory {s s' : State B} {f : Db → Except SqliteStore.Error (Unit × Db)}
    (h : Wrote s s' f) : s'.memory = s.memory := by
  rcases h with rfl | ⟨db, -, rfl⟩ <;> rfl

theorem allowsIdle_does : AllowsIdle (Does (B := B) strict rights runId) :=
  fun _ w m ho => ⟨_, rfl, .looks (.idle ho (ho.same w m.state))⟩

theorem idle_does {p : Call B α} (hp : p.Only Op.Idle) :
    p.Ensures W (Does strict rights runId) (fun m' _ => SameRecords m.state m'.state) m :=
  idle_ensures allowsIdle_does hp

theorem ask_does {o : Op B} (ho : o.Idle) :
    (perform o).Ensures W (Does strict rights runId)
      (fun m' _ => SameRecords m.state m'.state) m := by
  have hp : (perform o).Only Op.Idle := (Proc.only_op (S := sig B) o).mpr ho
  exact idle_does hp

theorem minor_does {p : Call B α} (hp : p.Only Op.Minor) :
    p.Ensures W (Does strict rights runId) (fun m' _ => SameRecords m.state m'.state) m :=
  idle_does (hp.mono fun _ ho => ho.idle)

theorem findRun_does : (findRun runId).Ensures W (Does strict rights runId)
    (Answers m.state (cacheRun m.state runId) (knownRun m.state runId)) m := by
  apply findRun_ensures allowsIdle_does.asking
  intro o w m₁ h₁ ho hs
  exact ⟨_, rfl, .looks (.run ho (h₁ ▸ hs))⟩

theorem findTasks_does : (findTasks runId).Ensures W (Does strict rights runId)
    (Answers m.state (cacheTasks m.state runId) (knownTasks m.state runId)) m := by
  apply findTasks_ensures allowsIdle_does.asking
  intro o w m₁ h₁ ho hs
  exact ⟨_, rfl, .looks (.tasks ho (h₁ ▸ hs))⟩

theorem saveRunStatus_does {status : RunStatus} (hrun : m.state.memory.runs.get? runId = some run)
    (hkeep : strict → run.status = .completed → status = .completed)
    (hcancelled : run.status = .cancelled → status = .cancelled)
    (hver : strict → status = .completed → AllVerified m.state runId) :
    (saveRunStatus runId run status).Ensures W (Does strict rights runId)
      (Proc.Returns fun m' _ => m'.state = savedStatus m.state runId run status) m := by
  have hsteps : (saveRunStatus runId run status).Ensures W (Does strict rights runId)
      (fun _ _ => True) m := by
    apply ensures_modify_bind
    · exact fun w => ⟨_, rfl, .marks run status hrun hkeep hcancelled hver rfl⟩
    intro m₁ h₁ _
    apply ensures_perform (.upsertRun { run with status })
    intro w _ _
    refine ⟨⟨_, rfl, .stores ?_ (wrote_writing _ _ _)⟩, trivial⟩
    simp [h₁, Dict.get?_set]
  exact (hsteps.with (saveRunStatus_ensures runId run status)).post fun _ _ h => h.2

theorem ensures_forEach {T : Moment B → Moment B → Prop} {K : Moment B → Prop} {ι : Type}
    {f : ι → Call B Unit} {xs : List ι} (hm : K m)
    (hf : ∀ x ∈ xs, ∀ m, K m → (f x).Ensures W T (fun m' _ => K m') m) :
    (Proc.forEach xs f).Ensures W T (fun m' _ => K m') m := by
  induction xs generalizing m with
  | nil => exact hm
  | cons x xs ih =>
    rw [List.forall_mem_cons] at hf
    exact (hf.1 m hm).bind (fun m₁ _ h₁ => ih h₁ hf.2) fun _ _ h => h

/-! ### The tasks of an execution -/

theorem NoFirst.wrote {s s' : State B} (h : NoFirst s.db runId) {t : TaskRecord}
    (ht : isFirst t.taskId = false) (hw : Wrote s s' (Db.upsertTask t)) : NoFirst s'.db runId := by
  rcases hw with rfl | ⟨db, hdb, rfl⟩
  · exact h
  · have hset (row : TaskRecord) :
        NoFirst { s.db with tasks := s.db.tasks.set t.taskId row } runId := by
      intro p hp hrun
      rcases Dict.mem_set hp with hp | hp
      · exact h p hp hrun
      · rw [hp]
        exact ht
    rcases upsertTask_cases hdb with ⟨row, -, rfl⟩ | ⟨-, -, rfl⟩
    · exact hset _
    · exact hset t

theorem decomposed_records (runId goal : String) :
    ∀ t ∈ TaskDecomposer.records goal runId, t.runId = runId ∧ Decomposed runId t.taskId := by
  intro t ht
  simp only [TaskDecomposer.records, List.mem_cons, List.not_mem_nil, or_false] at ht
  rcases ht with rfl | rfl | rfl <;>
    exact ⟨rfl, by simp [Decomposed, TaskDecomposer.pendingRecord]⟩

theorem registerTasks_does (hG : strict → ∀ o w m, G o w m → Careful o w m) (hmay : rights.execute)
    (hrun : IsRunId runId) (hun : Unfinished m.state runId) (goal : String) :
    (registerTasks runId (TaskDecomposer.records goal runId)).EnsuresOn G (Does strict rights runId)
      (Proc.Returns fun m' _ => m'.state.memory = { m.state.memory with
          tasks := m.state.memory.tasks.set runId (TaskDecomposer.records goal runId) } ∧
        (strict → NoFirst m'.state.db runId)) m := by
  have hrecords := decomposed_records runId goal
  have hdelete : (perform (.deletePendingTasks runId)).EnsuresOn G (Does strict rights runId)
      (fun m' _ => m'.state.memory = m.state.memory ∧ (strict → NoFirst m'.state.db runId)) m := by
    apply Proc.ensuresOn_op
    intro w _ hw
    have hwrote := wrote_writing w m.state (Db.deletePendingTasks runId)
    exact ⟨⟨_, rfl, .clears hmay hun hwrote⟩, hwrote.memory, fun hs => hG hs _ _ _ hw⟩
  have hclear : (ignoring (perform (.deletePendingTasks runId))).EnsuresOn G
    (Does strict rights runId)
      (fun m' _ => m'.state.memory = m.state.memory ∧ (strict → NoFirst m'.state.db runId)) m :=
    hdelete.tryCatch (fun _ _ h => h) fun _ _ h => h
  apply hclear.bind
  · rintro m₁ _ ⟨hm₁, hno₁⟩
    have hloop : (Proc.forEach (TaskDecomposer.records goal runId) fun r =>
        perform (.upsertTask r)).Ensures (fun _ => True) (Does strict rights runId)
          (fun m' _ => m'.state.memory = m.state.memory ∧
            (strict → NoFirst m'.state.db runId)) m₁ := by
      refine ensures_forEach ⟨hm₁, hno₁⟩ fun t ht m₂ h₂ => ?_
      obtain ⟨hm₂, hno₂⟩ := h₂
      obtain ⟨hid, hd⟩ := hrecords t ht
      apply ensures_perform (.upsertTask t)
      intro w _ _
      have hwrote := wrote_writing w m₂.state (Db.upsertTask t)
      refine ⟨⟨_, rfl, .registers hmay ?_ hid hd hwrote⟩, hwrote.memory.trans hm₂, fun hs => ?_⟩
      · rw [Unfinished, hm₂]
        exact hun
      · exact (hno₂ hs).wrote (not_isFirst hrun hd) hwrote
    apply hloop.on.bind
    · rintro m₂ _ ⟨hm₂, hno₂⟩
      apply Proc.ensuresOn_op
      intro w _ _
      refine ⟨⟨_, rfl, .installs _ (.inl ?_) (fun t ht => ?_) rfl⟩, fun _ _ => ⟨?_, hno₂⟩⟩
      · rw [Unfinished, hm₂]
        exact hun
      · obtain ⟨hid, hd⟩ := hrecords t ht
        rw [Owned, hid]
        exact ⟨rfl, hrun, .inl hd⟩
      · simp only [Runtime.after_state, exec, hm₂]
    · exact fun _ _ _ => Proc.returns_error _
  · exact fun _ _ _ => Proc.returns_error _

def taskIds (runId : String) : List String :=
  [TaskDecomposer.pmTaskId runId, TaskDecomposer.devTaskId runId, TaskDecomposer.qaTaskId runId]

theorem nodup_taskIds (runId : String) : (taskIds runId).Nodup := by
  simp [taskIds, TaskDecomposer.pmTaskId, TaskDecomposer.devTaskId, TaskDecomposer.qaTaskId,
    ← String.toList_inj]

theorem recordOf_of_mem {t : TaskRecord} {rs : List TaskRecord} (hn : (rs.map (·.taskId)).Nodup)
    (ht : t ∈ rs) : recordOf t.taskId rs = some t := by
  induction rs with
  | nil => cases ht
  | cons r rs ih =>
    rw [List.map_cons, List.nodup_cons] at hn
    rw [recordOf_cons]
    rcases List.mem_cons.mp ht with rfl | ht
    · have hnone : recordOf t.taskId rs = none :=
        recordOf_eq_none.mpr fun r hr heq => hn.1 (heq ▸ List.mem_map_of_mem hr)
      simp [hnone]
    · simp [ih hn.2 ht]

structure Working (strict : Prop) (runId : String) (run : RunRecord) (s : State B) : Prop where
  tidy : Tidy s
  run : s.memory.runs.get? runId = some run
  ids : (s.memory.taskRecords runId).map (·.taskId) = taskIds runId
  noFirst : strict → NoFirst s.db runId

theorem Working.same {s s' : State B} (h : Working strict runId run s) (hs : SameRecords s s') :
    Working strict runId run s' := by
  refine ⟨h.tidy.same hs, hs.runs ▸ h.run, ?_, ?_⟩
  · rw [Memory.taskRecords, hs.tasks]
    exact h.ids
  · rw [NoFirst, hs.rows]
    exact h.noFirst

theorem Working.allVerified {s : State B} {l : Lifecycle} (h : Working strict runId run s)
    (hl : l.runId = runId) (hstore : l.useStore = true) (hs : strict)
    (hver : ∀ id ∈ taskIds runId, l.Verified id s) : AllVerified s runId := by
  subst hl
  intro t ht
  rcases List.mem_append.mp ht with ht | ht
  · have hid : t.taskId ∈ taskIds l.runId := h.ids ▸ List.mem_map_of_mem ht
    have hnodup : ((s.memory.taskRecords l.runId).map (·.taskId)).Nodup :=
      h.ids ▸ nodup_taskIds l.runId
    exact (hver _ hid).record t (recordOf_of_mem hnodup ht)
  · simp only [Db.loadTasksForRun, List.mem_filter, List.mem_map, decide_eq_true_eq] at ht
    obtain ⟨⟨p, hp, rfl⟩, hrun⟩ := ht
    have hget := Dict.get?_of_mem h.tidy.rowKeys hp
    obtain ⟨hkey, ⟨-, ho⟩, -⟩ := h.tidy.rows _ _ hget
    have hid : p.1 ∈ taskIds l.runId := by
      rcases ho with ho | ho
      · exact hrun ▸ hkey ▸ ho
      · have hfirst := h.noFirst hs p hp hrun
        rw [← hkey, isFirst_of_initial ho.1] at hfirst
        cases hfirst
    obtain ⟨t, ht, heq⟩ := List.mem_map.mp (h.ids ▸ hid)
    have hrecord : recordOf p.1 (s.memory.taskRecords l.runId) = some t := by
      rw [← heq]
      exact recordOf_of_mem (h.ids ▸ nodup_taskIds l.runId) ht
    obtain ⟨row, hrow, hst, -⟩ := (hver _ hid).row hstore t hrecord
    cases hget.symm.trans hrow
    rw [hst]
    exact (hver _ hid).record t hrecord

theorem Does.tidy {m m' : Moment B} (h : Does strict rights runId m m') (ht : Tidy m.state) :
    Tidy m'.state := by
  obtain ⟨e, -, hd⟩ := h
  exact hd.tidy ht

theorem cacheRun_known {s : State B} (h : knownRun s runId = some run) :
    (cacheRun s runId).memory.runs.get? runId = some run := by
  rw [knownRun, Option.or_eq_some_iff] at h
  rcases h with h | ⟨hnone, h⟩
  · rw [cacheRun]
    split
    next hnone _ => rw [hnone] at h; cases h
    next => exact h
  · simp [cacheRun, hnone, h, Dict.get?_set]

theorem cacheRun_of_known {s : State B} (hr : s.memory.runs.get? runId = some run) :
    cacheRun s runId = s := by
  simp [cacheRun, hr]

theorem Working.step {l : Lifecycle} {ids : List String} {m m' : Moment B} (hmay : rights.execute)
    (h : Working strict runId run m.state) (hopen : isOver run.status = false)
    (hl : l.runId = runId) (hids : ∀ id ∈ ids, id ∈ taskIds runId) (hs : l.Steps ids m m') :
    Does strict rights runId m m' ∧ Working strict runId run m'.state := by
  subst hl
  have hun : Unfinished m.state l.runId :=
    ⟨run, h.run, fun hst => by simp [isOver, hst] at hopen⟩
  rcases hs with ⟨hsame, e, hq, hh⟩ | ⟨_, _, -, -, -, hnone, -⟩ | ⟨id, hid, e, hh, he⟩
  · refine ⟨⟨e, hh, .looks (.run hq ?_)⟩, ?_⟩
    · rw [hsame, cacheRun_of_known h.run]
    · rw [hsame]
      exact h
  · exact absurd hnone (h.tidy.stored _ (by simp [h.run]))
  · have hd : Decomposed l.runId id := hids id hid
    have htidy := h.tidy.effect hd he
    have hframe := he.frame
    have hrun' : m'.state.memory.runs.get? l.runId = some run := by
      rw [hframe.runs]
      exact h.run
    refine ⟨⟨e, hh, .works l id hmay hun rfl hd he⟩, htidy, hrun', hframe.ids.trans h.ids,
      fun hstrict p hp hrun => ?_⟩
    by_cases hne : p.1 = id
    · exact hne ▸ not_isFirst (h.tidy.isRunId hun) hd
    · have hget := Dict.get?_of_mem htidy.rowKeys hp
      rw [hframe.rows _ hne] at hget
      exact h.noFirst hstrict p (Dict.mem_of_get? hget) hrun

theorem mem_distinctRecords {t : TaskRecord} {rs : List TaskRecord}
    (ht : t ∈ Lifecycle.distinctRecords rs) : t ∈ rs := by
  have hfold (rs all : List TaskRecord) (d : Dict String TaskRecord) (hd : ∀ p ∈ d, p.2 ∈ all)
      (hrs : ∀ r ∈ rs, r ∈ all) :
      ∀ p ∈ rs.foldl (fun d r => d.set r.taskId r) d, p.2 ∈ all := by
    induction rs generalizing d with
    | nil => exact hd
    | cons r rs ih =>
      rw [List.forall_mem_cons] at hrs
      refine ih _ (fun p hp => ?_) hrs.2
      rcases Dict.mem_set hp with hp | rfl
      · exact hd p hp
      · exact hrs.1
  obtain ⟨p, hp, rfl⟩ := List.mem_map.mp ht
  exact hfold rs rs [] (by simp) (fun _ => id) p hp

theorem isOver_ne {status status' : RunStatus} (hopen : isOver status = false)
    (hover : isOver status' = true) : status ≠ status' := by
  rintro rfl
  rw [hopen] at hover
  cases hover

theorem settleRun_does {result : LifecycleResult} (h : Working strict runId run m.state)
    (hopen : isOver run.status = false)
    (hres : ∀ tasks, result = .completed tasks → (strict → AllVerified m.state runId) ∧
      ∀ t ∈ tasks, t ∈ m.state.memory.taskRecords runId) :
    (settleRun runId run result).Ensures W (Does strict rights runId) (fun _ _ => True) m := by
  cases result with
  | completed tasks =>
    obtain ⟨hver, htasks⟩ := hres tasks rfl
    apply (saveRunStatus_does h.run (fun _ _ => rfl) (fun hc => absurd hc (isOver_ne hopen rfl))
      fun hs _ => hver hs).bind
    · intro m₁ _ h₁
      have hstate := h₁ _ rfl
      have hrecords : m₁.state.memory.taskRecords runId = m.state.memory.taskRecords runId := by
        rw [hstate]
        rfl
      apply ensures_modify_bind
      · intro w
        refine ⟨_, rfl, .installs tasks (.inr fun t ht => ?_) (fun t ht => ?_) rfl⟩
        · rw [hrecords]
          exact htasks t ht
        · exact h.tidy.records runId t (htasks t ht)
      · exact fun _ _ _ => trivial
    · exact fun _ _ _ => trivial
  | failed f =>
    apply (saveRunStatus_does h.run (fun _ hc => absurd hc (isOver_ne hopen rfl))
      (fun hc => absurd hc (isOver_ne hopen rfl)) fun _ hc => by cases hc).bind
    · exact fun _ _ _ => trivial
    · exact fun _ _ _ => trivial

/-! ### Executions -/

theorem getTaskEvidence_does (taskId : String) :
    (getTaskEvidence runId taskId).Ensures W (Does (B := B) strict rights runId)
      (fun _ _ => True) m := by
  apply findTasks_does.bind
  · intro m₁ rs _
    split <;> trivial
  · exact fun _ _ _ => trivial

theorem block_does {reason actionId : String} (h : Working strict runId run m.state)
    (hopen : isOver run.status = false) :
    (block runId workspace reason actionId run).Ensures W (Does strict rights runId)
      (fun _ _ => True) m := by
  have hlog : (ignoring (perform (.appendOnce workspace ⟨"run:" ++ runId, "gate:" ++ actionId,
      "COMMAND_GATED", [("run_id", runId), ("category", "UNAUTHORIZED_COMMAND"),
        ("reason", reason), ("action_id", actionId)]⟩)) : Call B Unit).Only Op.Idle :=
    idle_appendOnce _ _
  apply (idle_does hlog).bind
  · intro m₁ _ h₁
    apply (saveRunStatus_does (h.same h₁).run (fun _ hc => absurd hc (isOver_ne hopen rfl))
      (fun hc => absurd hc (isOver_ne hopen rfl)) fun _ hc => by cases hc).bind
    · exact fun _ _ _ => trivial
    · exact fun _ _ _ => trivial
  · exact fun _ _ _ => trivial

theorem executeCommands_does {plan : TaskDecomposer.Plan} (hmay : rights.execute)
    (h : Working strict runId run m.state) (hopen : isOver run.status = false)
    (hplan : plan.dependencies.keys = taskIds runId) (commands : Dict String (List String)) :
    (executeCommands api host runId workspace run plan commands).Ensures W
      (Does strict rights runId)
      (fun _ _ => True) m := by
  apply (idle_does (idle_gateCommands runId workspace commands)).bind
  · intro m₁ gated h₁
    have hw₁ := h.same h₁
    split
    next reason actionId => exact block_does hw₁ hopen
    next =>
      apply Proc.Ensures.bind (ask_does (o := .openWorkspace workspace) trivial)
      · intro m₂ _ h₂
        have hw₂ := hw₁.same h₂
        apply ((minor_does (only_createCoordinatorForRun plan commands)).with
          (createCoordinatorForRun_returns plan commands)).bind
        · rintro m₃ l ⟨h₃, hfor⟩
          have hl := hfor l rfl
          have hids : ∀ id ∈ l.orderIn m₃.state, id ∈ taskIds runId := by
            intro id hid
            rw [← hplan]
            exact (hl.order_iff id).mp hid
          have hexec : (l.execute api).Ensures W (Does strict rights runId) (fun m' r =>
              Proc.Returns (l.Completes (l.orderIn m₃.state)) m' r ∧
                Working strict runId run m'.state) m₃ :=
            l.execute_steps.under (hw₂.same h₃) fun _ _ hK hT => hK.step hmay hopen hl.runId hids hT
          apply hexec.bind
          · rintro m₄ result ⟨hres, hw₄⟩
            refine settleRun_does hw₄ hopen fun tasks htasks => ?_
            subst htasks
            obtain ⟨hver, hdistinct⟩ := hres _ rfl
            refine ⟨fun hs => hw₄.allVerified hl.runId hl.useStore hs fun id hid => ?_,
              fun t ht => ?_⟩
            · rw [← hplan] at hid
              exact hver id ((hl.order_iff id).mpr hid)
            · rw [hdistinct, hl.runId] at ht
              exact mem_distinctRecords ht
          · exact fun _ _ _ => trivial
        · exact fun _ _ _ => trivial
      · exact fun _ _ _ => trivial
  · exact fun _ _ _ => trivial

variable (hG : strict → ∀ o w m, G o w m → Careful o w m)
include hG

theorem executeOpenRun_does (ht : Tidy m.state)
    (hrun : m.state.memory.runs.get? runId = some run) (hopen : isOver run.status = false)
    (hmay : host.resolve run.workspacePath ≠ none → rights.execute)
    (commandMap : Dict String (List String)) :
    (executeOpenRun api host runId run commandMap).EnsuresOn G (Does strict rights runId)
      (fun _ _ => True) m := by
  rw [executeOpenRun, resolvePath]
  cases hw : host.resolve run.workspacePath with
  | none => trivial
  | some workspace =>
    have hmay : rights.execute := hmay (by simp [hw])
    apply (minor_does only_getProductionSystem).on.bind
    · intro m₂ _ h₂
      apply Proc.EnsuresOn.bind (ask_does (o := .inspectTree workspace) trivial).on
      · intro m₃ tree h₃
        have hsame := h₂.trans h₃
        apply Proc.EnsuresOn.bind (M := fun m' r => m' = m₃ ∧ ∀ plan, r = .ok plan →
          plan.records = TaskDecomposer.records run.goal runId ∧
            plan.dependencies.keys = taskIds runId)
        · rw [lift]
          apply Proc.ensuresOn_ofExcept
          refine ⟨rfl, fun plan hplan => ?_⟩
          cases hd : TaskDecomposer.decomposeGoal run.goal runId
            (resolveTreeSha tree.1 tree.2) "v1" with
          | error e => rw [hd] at hplan; cases hplan
          | ok plan' =>
            rw [hd] at hplan
            cases hplan
            exact decomposeGoal_ok hd
        · rintro m₃' plan ⟨rfl, hplan⟩
          obtain ⟨hrecords, hkeys⟩ := hplan plan rfl
          have hrun₃ : m₃'.state.memory.runs.get? runId = some run := hsame.runs ▸ hrun
          have ht₃ := ht.same hsame
          have hun : Unfinished m₃'.state runId := ⟨run, hrun₃, isOver_ne hopen rfl⟩
          rw [hrecords]
          have hreg := registerTasks_does hG hmay (ht₃.isRunId hun) hun run.goal
          apply (hreg.under ht₃ fun m m' hK hT => ⟨hT, hT.tidy hK⟩).bind
          · rintro m₄ _ ⟨h₄, ht₄⟩
            obtain ⟨hm₄, hno⟩ := h₄ _ rfl
            have hw₄ : Working strict runId run m₄.state := by
              refine ⟨ht₄, by rw [hm₄]; exact hrun₃, ?_, hno⟩
              rw [hm₄, Memory.taskRecords, Dict.get?_set, if_pos rfl]
              rfl
            apply (minor_does only_effectiveCommands).on.bind
            · intro m₅ commands h₅
              exact (executeCommands_does hmay (hw₄.same h₅) hopen hkeys commands).on
            · exact fun _ _ _ => trivial
          · exact fun _ _ _ => trivial
        · exact fun _ _ _ => trivial
      · exact fun _ _ _ => trivial
    · exact fun _ _ _ => trivial

theorem executeRun_does (ht : Tidy m.state) (hmay : Executable host m.state runId → rights.execute)
    (commandMap : Dict String (List String)) :
    (executeRun api host runId commandMap).EnsuresOn G (Does strict rights runId)
      (fun _ _ => True) m := by
  apply findRun_does.on.bind
  · rintro m₁ found (⟨hr, h₁⟩ | ⟨⟨_, hr⟩, -⟩)
    · cases hr
      have ht₁ : Tidy m₁.state := h₁ ▸ ht.cacheRun runId
      cases hk : knownRun m.state runId with
      | none => trivial
      | some run =>
        have hrun : m₁.state.memory.runs.get? runId = some run := by
          rw [h₁]
          exact cacheRun_known hk
        by_cases hover : isOver run.status = true
        · simp only [hover, if_true]
          apply Proc.EnsuresOn.bind (ask_does (o := .memory) trivial).on
          · exact fun _ _ _ => trivial
          · exact fun _ _ _ => trivial
        · have hopen := Bool.eq_false_iff.mpr hover
          simp only [hopen]
          exact executeOpenRun_does hG ht₁ hrun hopen
            (fun hw => hmay ⟨run, hk, hopen, hw⟩) commandMap
    · cases hr
  · exact fun _ _ _ => trivial

theorem executeTask_does (ht : Tidy m.state) (hmay : Executable host m.state runId → rights.execute)
    (taskId : String) (command : List String) :
    (executeTask api host runId taskId command).EnsuresOn G (Does strict rights runId)
      (fun _ _ => True) m := by
  apply Proc.EnsuresOn.bind (ask_does (o := .memory) trivial).on
  · intro m₁ memory h₁
    have hmay₁ : Executable host m₁.state runId → rights.execute := by
      rintro ⟨run, hk, hopen, hw⟩
      rw [knownRun, h₁.runs, h₁.dbRuns] at hk
      exact hmay ⟨run, hk, hopen, hw⟩
    apply (executeRun_does hG (ht.same h₁) hmay₁ _).bind
    · intro m₂ res _
      split
      next => trivial
      next =>
        apply (getTaskEvidence_does taskId).on.bind
        · intro m₃ evidence _
          apply Proc.EnsuresOn.bind (ask_does (o := .memory) trivial).on
          · exact fun _ _ _ => trivial
          · exact fun _ _ _ => trivial
        · exact fun _ _ _ => trivial
    · exact fun _ _ _ => trivial
  · exact fun _ _ _ => trivial

omit hG

/-! ### Submissions -/

structure Entered (runId : String) (s : State B) : Prop where
  memory : (s.memory.runs.get? runId).any (·.status = .submitted) = true
  db : (s.db.runs.get? runId).any (·.status = .submitted) = true

theorem Entered.same {s s' : State B} (h : Entered runId s) (hs : SameRecords s s') :
    Entered runId s' := ⟨hs.runs ▸ h.memory, hs.dbRuns ▸ h.db⟩

theorem enterSubmission_does {task : TaskRecord} (hsub : rights.submit) (ht : Tidy m.state)
    (hrunId : IsRunId runId)
    (hdb : m.state.db.runs.get? runId = none) (hid : run.runId = runId)
    (hst : run.status = .submitted) (htask : task.runId = runId) (hinit : IsInitial task.taskId)
    (hpend : task.status = .pending) (hnone : m.state.db.tasks.get? task.taskId = none) :
    (enterSubmission run task).Ensures W (Does strict rights runId)
      (Proc.Returns fun m' _ => Entered runId m'.state) m := by
  have hmem : m.state.memory.runs.get? runId = none := by
    by_contra hne
    exact ht.stored _ hne hdb
  have hentered : (perform (.upsertRun run)).Ensures W (Does strict rights runId)
      (Proc.Returns fun m' _ => m'.state = { m.state with db := m.state.db.upsertRun run }) m := by
    apply ensures_perform (.upsertRun run)
    intro w _ _
    refine ⟨⟨_, rfl, .opens hsub hrunId hid hst hdb (wrote_writing _ _ _)⟩, fun _ hok => ?_⟩
    simp only [exec, writing] at hok
    split at hok
    next => cases hok
    next hw =>
      change (writing w m.state _).2 = _
      rw [writing, if_neg hw]
  apply hentered.then
  intro m₁ _ h₁
  have hrow : (m₁.state.db.runs.get? runId).any (·.status = .submitted) = true := by
    simp [h₁, get?_upsertRun, hid, hdb, hst]
  have hstarted : (perform (.upsertTask task)).Ensures W (Does strict rights runId)
      (fun m' _ => m'.state.db.runs = m₁.state.db.runs ∧
        m'.state.memory.runs.get? runId = none) m₁ := by
    apply ensures_perform (.upsertTask task)
    intro w _ _
    have hwrote := wrote_writing w m₁.state (Db.upsertTask task)
    refine ⟨⟨_, rfl, .starts hsub htask hinit hpend (by rw [h₁]; exact hnone)
      (by rw [h₁]; exact hmem) hrow hwrote⟩, ?_⟩
    refine ⟨?_, ?_⟩
    · rcases hwrote with hs | ⟨db, hok, hs⟩
      · exact congrArg (·.db.runs) hs
      · exact (congrArg (·.db.runs) hs).trans (Lifecycle.upsertTask_frame hok).1
    · have hm : (exec (.upsertTask task) w m₁.state).2.memory = m.state.memory := by
        rw [show (exec (.upsertTask task) w m₁.state).2.memory = m₁.state.memory from
          hwrote.memory, h₁]
      rw [Runtime.after_state, hm]
      exact hmem
  apply hstarted.first
  rintro m₂ _ ⟨h₂, hmem₂⟩
  apply ensures_perform (.modify _)
  intro w _ _
  have howned : Owned task := ⟨htask ▸ hrunId, .inr ⟨hinit, .inl hpend⟩⟩
  refine ⟨⟨_, rfl, .remembers run task hsub hmem₂ hid hst htask howned (h₂ ▸ hrow) ?_⟩,
    fun _ _ => ⟨?_, ?_⟩⟩
  · simp [exec, hid]
  · simp [exec, hid, Dict.get?_set, hst]
  · exact h₂ ▸ hrow

theorem withdrawSubmission_does (hsub : rights.submit) (h : Entered runId m.state) :
    (withdrawSubmission runId).Ensures W (Does strict rights runId) (fun _ _ => True) m := by
  apply ensures_modify_bind
  · exact fun w => ⟨_, rfl, .forgets hsub h.memory rfl⟩
  intro m₁ h₁ _
  have hdelete : (perform (.deleteRun runId)).Ensures W (Does strict rights runId)
    (fun _ _ => True) m₁ := by
    apply ensures_perform (.deleteRun runId)
    intro w _ _
    refine ⟨⟨_, rfl, .withdraws hsub ?_ ?_ (wrote_writing _ _ _)⟩, trivial⟩
    · simp [h₁, Dict.get?_erase]
    · intro r hr
      obtain ⟨r', hr', hst⟩ := (Option.any_eq_true _ _).mp h.db
      rw [h₁, hr'] at hr
      cases hr
      exact of_decide_eq_true hst
  exact hdelete.tryCatch (fun _ _ _ => trivial) fun _ _ _ => trivial

/-! ### Cancellations -/

theorem idle_auditCancellation {reason : String} : (ignoring do
    let workspace ← resolvePath host run.workspacePath
    getProductionSystem workspace
    perform (.appendOnce workspace ⟨"run:" ++ runId, "cancel:" ++ runId, "RUN_CANCELLED",
      [("run_id", runId), ("reason", reason)]⟩) : Call B Unit).Only Op.Idle := by
  apply Proc.Only.tryCatch
  · apply Proc.Only.bind
    · rw [resolvePath]
      split <;> trivial
    · intro workspace
      apply Proc.Only.bind (only_getProductionSystem.mono fun _ ho => ho.idle)
      exact fun _ => (Proc.only_op _).mpr trivial
  · exact fun _ => trivial

theorem owned_cancelled {t : TaskRecord} (h : Owned t) : Owned { t with status := .cancelled } :=
  ⟨h.1, h.2.imp id fun hi => ⟨hi.1, .inr rfl⟩⟩

structure Cancelled (runId : String) (rs : List TaskRecord) (s : State B) : Prop where
  tidy : Tidy s
  memory : (s.memory.runs.get? runId).any (·.status = .cancelled) = true
  db : (s.db.runs.get? runId).any (·.status = .cancelled) = true
  records : s.memory.tasks.get? runId = some rs

theorem Cancelled.unfinished {s : State B} {rs : List TaskRecord} (h : Cancelled runId rs s) :
    Unfinished s runId := by
  obtain ⟨run, hrun, hst⟩ := (Option.any_eq_true _ _).mp h.memory
  refine ⟨run, hrun, fun hc => ?_⟩
  rw [hc] at hst
  cases hst

theorem cancelTasks_does (hcan : rights.cancel) (done ts : List TaskRecord)
    (h : Cancelled runId (done ++ ts) m.state) :
    (cancelTasks runId done ts).Ensures W (Does strict rights runId) (fun _ _ => True) m := by
  induction ts generalizing done m with
  | nil => trivial
  | cons t ts ih =>
    rw [cancelTasks]
    split
    next =>
      apply ih
      rw [List.append_assoc]
      exact h
    next =>
      have hrecords : ∀ t' ∈ done ++ { t with status := .cancelled } :: ts,
          t'.runId = runId ∧ Owned t' := by
        have hold : ∀ t' ∈ done ++ t :: ts, t'.runId = runId ∧ Owned t' := by
          intro t' ht'
          exact h.tidy.records runId t' (by simpa [Memory.taskRecords, h.records] using ht')
        intro t' ht'
        simp only [List.mem_append, List.mem_cons] at ht' hold
        rcases ht' with ht' | rfl | ht'
        · exact hold t' (.inl ht')
        · obtain ⟨hid, ho⟩ := hold t (.inr (.inl rfl))
          exact ⟨hid, owned_cancelled ho⟩
        · exact hold t' (.inr (.inr ht'))
      have hset : Does strict rights runId m ((runtime B).after (.modify fun m => { m with
          tasks := m.tasks.set runId (done ++ { t with status := .cancelled } :: ts) }) {} m) :=
        ⟨_, rfl, .installs _ (.inl h.unfinished) hrecords rfl⟩
      apply ensures_modify_bind fun _ => hset
      intro m₁ h₁ _
      have hc₁ : Cancelled runId (done ++ { t with status := .cancelled } :: ts) m₁.state := by
        refine ⟨?_, by rw [h₁]; exact h.memory, by rw [h₁]; exact h.db,
          by rw [h₁, Dict.get?_set, if_pos rfl]⟩
        have htidy := hset.tidy h.tidy
        rw [h₁]
        exact htidy
      have hwrite : (perform (.upsertTask { t with status := .cancelled })).Ensures W
          (Does strict rights runId) (fun m' _ => Cancelled runId
            (done ++ { t with status := .cancelled } :: ts) m'.state) m₁ := by
        apply ensures_perform (.upsertTask _)
        intro w _ _
        have hwrote : Wrote m₁.state ((runtime B).after (.upsertTask _) w m₁).state
            (Db.upsertTask { t with status := .cancelled }) := wrote_writing _ _ _
        have hdoes : Does strict rights runId m₁
            ((runtime B).after (.upsertTask { t with status := .cancelled }) w m₁) := by
          refine ⟨_, rfl, .cancels hcan hc₁.unfinished ?_ rfl hc₁.db hwrote⟩
          rw [Memory.taskRecords, hc₁.records]
          simp
        refine ⟨hdoes, hdoes.tidy hc₁.tidy, ?_, ?_, ?_⟩
        · rw [hwrote.memory]
          exact hc₁.memory
        · rcases hwrote with hs | ⟨db, hok, hs⟩
          · rw [hs]
            exact hc₁.db
          · rw [hs, (Lifecycle.upsertTask_frame hok).1]
            exact hc₁.db
        · rw [hwrote.memory]
          exact hc₁.records
      apply hwrite.bind
      · intro m₂ _ h₂
        apply ih
        rw [List.append_assoc]
        exact h₂
      · exact fun _ _ _ => trivial

theorem Answers.tidy {α : Type} {s s' : State B} {a : α} {r : Except Error α}
    (h : Answers s s' a m r) (hs : Tidy s) (hs' : Tidy s') : Tidy m.state := by
  rcases h with ⟨-, h⟩ | ⟨-, h⟩
  · exact h ▸ hs'
  · exact h ▸ hs

theorem cancelRun_does (hcan : rights.cancel) (ht : Tidy m.state)
    (hopen : strict → ∀ run ∈ knownRun m.state runId, run.status ≠ .completed) (reason : String) :
    (cancelRun host runId reason).Ensures W (Does strict rights runId) (fun _ _ => True) m := by
  apply findRun_does.bind
  · rintro m₁ found (⟨hr, h₁⟩ | ⟨⟨_, hr⟩, -⟩)
    · cases hr
      have ht₁ : Tidy m₁.state := h₁ ▸ ht.cacheRun runId
      cases hk : knownRun m.state runId with
      | none => trivial
      | some run =>
        have hrun : m₁.state.memory.runs.get? runId = some run := by
          rw [h₁]
          exact cacheRun_known hk
        have hsave : (saveRunStatus runId run .cancelled).Ensures W (Does strict rights runId)
            (Proc.Returns fun m' _ => m'.state = savedStatus m₁.state runId run .cancelled) m₁ :=
          saveRunStatus_does hrun (fun hs hc => absurd hc (hopen hs run hk)) (fun _ => rfl)
            fun _ hc => by cases hc
        apply (hsave.under ht₁ fun m m' hK hT => ⟨hT, hT.tidy hK⟩).bind
        · rintro m₂ _ ⟨h₂, ht₂⟩
          have hstate := h₂ _ rfl
          have hid : run.runId = runId := (ht₁.runs _ _ hrun).1
          have hmemory : (m₂.state.memory.runs.get? runId).any (·.status = .cancelled) = true := by
            rw [hstate, savedStatus_memory]
            rfl
          have hdb : (m₂.state.db.runs.get? runId).any (·.status = .cancelled) = true := by
            have hst := savedStatus_db m₁.state runId run .cancelled
            rw [hid] at hst
            obtain ⟨r, hr, hst⟩ := Option.map_eq_some_iff.mp hst
            rw [hstate, hr]
            simpa using hst
          apply findTasks_does.bind
          · rintro m₃ rs (⟨hrs, h₃⟩ | ⟨⟨_, hrs⟩, -⟩)
            · cases hrs
              have hc : Cancelled runId ([] ++ knownTasks m₂.state runId) m₃.state := by
                rw [h₃]
                refine ⟨ht₂.cacheTasks runId, ?_, ?_, ?_⟩
                · rw [cacheTasks]
                  split <;> exact hmemory
                · rw [cacheTasks]
                  split <;> exact hdb
                · rw [cacheTasks, knownTasks]
                  split
                  next hnone => simp [hnone, Dict.get?_set]
                  next rs hsome => simp [hsome]
              apply (cancelTasks_does hcan [] _ hc).bind
              · intro m₄ _ _
                apply (idle_does idle_auditCancellation).bind
                · exact fun _ _ _ => trivial
                · exact fun _ _ _ => trivial
              · exact fun _ _ _ => trivial
            · cases hrs
          · exact fun _ _ _ => trivial
        · exact fun _ _ _ => trivial
    · cases hr
  · exact fun _ _ _ => trivial

/-! ### Every call -/

theorem draw_does {T : Moment B → Moment B → Prop}
    (hT : ∀ w, possible .uuid4 w m.state = true → T m ((runtime B).after .uuid4 w m)) :
    (perform .uuid4).EnsuresOn G T (fun m' r => m'.state = m.state ∧ ∀ hex, r = .ok hex →
      runIdOf hex ∉ m.state.db.runs.keys ∧ taskIdOf hex ∉ m.state.db.tasks.keys) m := by
  apply Proc.ensuresOn_op
  intro w hp _
  refine ⟨hT w hp, rfl, fun hex hr => ?_⟩
  cases hr
  have hfresh := of_decide_eq_true hp
  exact ⟨hfresh.1, hfresh.2.2⟩

theorem submitGoal_does (hG : strict → ∀ o w m, G o w m → Careful o w m) (ht : Tidy m.state)
    {rights : String → Rights} (hsub : ∀ id, (rights id).submit)
    (hmay : ∀ id, (rights id).execute) (q : Submission) : (submitGoal api host q).EnsuresOn G
      (fun m₁ m₂ => ∃ id, id ∉ m.state.db.runs.keys ∧ Does strict (rights id) id m₁ m₂)
        (fun _ _ => True) m := by
  rw [submitGoal]
  split
  next => trivial
  next =>
    rw [resolvePath]
    cases host.resolve (orDefault q.workspacePath host.cwd) with
    | none => trivial
    | some workspace =>
      have hdraw (w : World B) (hw : possible .uuid4 w m.state = true) :
          ∃ id, id ∉ m.state.db.runs.keys ∧
            Does strict (rights id) id m ((runtime B).after .uuid4 w m) :=
        ⟨runIdOf w.text, (of_decide_eq_true hw).1, allowsIdle_does .uuid4 w m trivial⟩
      apply (draw_does hdraw).bind
      · rintro m₁ hex ⟨h₁, hfresh⟩
        obtain ⟨hrun, -⟩ := hfresh hex rfl
        -- from here on the run is known
        suffices h : Proc.EnsuresOn G (Does strict (rights (runIdOf hex)) (runIdOf hex))
          (fun _ _ => True) m₁ _ from
          h.mono (fun _ _ hd => ⟨_, hrun, hd⟩) fun _ _ => id
        apply (draw_does fun w _ => allowsIdle_does .uuid4 w m₁ trivial).bind
        · rintro m₂ hex' ⟨h₂, hfresh'⟩
          obtain ⟨-, htask⟩ := hfresh' hex' rfl
          have hcommands : (Proc.when (q.commands ≠ []) (perform (.modify fun m => { m with
              runCommands := m.runCommands.set (runIdOf hex) q.commands })) :
              Call B Unit).Only Op.Idle := Proc.only_when ((Proc.only_op _).mpr fun _ => ⟨rfl, rfl⟩)
          apply (idle_does hcommands).on.bind
          · intro m₃ _ h₃
            have ht₃ : Tidy m₃.state := by
              rw [h₂, h₁] at h₃
              exact ht.same h₃
            have hdb : m₃.state.db.runs.get? (runIdOf hex) = none := by
              rw [h₃.dbRuns, h₂, h₁]
              exact Dict.notMem_keys.mp hrun
            have hnone : m₃.state.db.tasks.get? (taskIdOf hex') = none := by
              rw [h₃.rows, h₂]
              exact Dict.notMem_keys.mp htask
            apply ((enterSubmission_does (hsub _) ht₃ ⟨hex, rfl⟩ hdb rfl rfl rfl ⟨hex', rfl⟩ rfl
              hnone).under ht₃ fun m m' hK hT => ⟨hT, Does.tidy hT hK⟩).on.bind
            · rintro m₄ _ ⟨h₄, ht₄⟩
              have hentered := h₄ _ rfl
              apply (idle_does (idle_auditSubmission _ _ _)).on.bind
              · intro m₅ failed h₅
                split
                next e =>
                  apply (withdrawSubmission_does (hsub _) (hentered.same h₅)).on.bind
                  · exact fun _ _ _ => trivial
                  · exact fun _ _ _ => trivial
                next =>
                  split
                  next => exact executeRun_does hG (ht₄.same h₅) (fun _ => hmay _) q.commands
                  next => trivial
              · exact fun _ _ _ => trivial
            · exact fun _ _ _ => trivial
          · exact fun _ _ _ => trivial
        · exact fun _ _ _ => trivial
      · exact fun _ _ _ => trivial

def WorksOn (q : Request) (s : State B) (runId : String) : Prop :=
  q.run? = some runId ∨ q.run? = none ∧ runId ∉ s.db.runs.keys

def CallDoes (strict : Prop) (host : Host) (q : Request) (s : State B) (m m' : Moment B) : Prop :=
  ∃ runId, WorksOn q s runId ∧ Does strict (q.may host s runId) runId m m'

theorem body_does (hG : strict → ∀ o w m, G o w m → Careful o w m) (ht : Tidy m.state)
    (q : Request) (hopen : strict → ∀ runId reason, q = .cancelRun runId reason →
      ∀ run ∈ knownRun m.state runId, run.status ≠ .completed) :
    (body api host q).EnsuresOn G (CallDoes strict host q m.state) (fun _ _ => True) m := by
  have named {runId : String} {p : Call B Response} (hq : q.run? = some runId)
      (hp : p.EnsuresOn G (Does strict (q.may host m.state runId) runId)
        (fun _ _ => True) m) :
      p.EnsuresOn G (CallDoes strict host q m.state) (fun _ _ => True) m :=
    hp.mono (fun _ _ hd => ⟨runId, .inl hq, hd⟩) fun _ _ => id
  have executes {runId : String} (hq : q.executes = some runId)
      (he : Executable host m.state runId) : (q.may host m.state runId).execute := .inr ⟨hq, he⟩
  cases q with
  | submitGoal q =>
    have hsubmit : ∀ id, ((Request.submitGoal q).may host m.state id).submit := fun _ => rfl
    have hexecute : ∀ id, ((Request.submitGoal q).may host m.state id).execute :=
      fun _ => .inl rfl
    apply (submitGoal_does hG ht hsubmit hexecute q).mono
    · rintro m₁ m₂ ⟨id, hid, hd⟩
      exact ⟨id, .inr ⟨rfl, hid⟩, hd⟩
    · exact fun _ _ => id
  | executeRun runId commands =>
    exact named rfl (executeRun_does hG ht (executes rfl) commands)
  | executeTask runId taskId command =>
    exact named rfl (executeTask_does hG ht (executes rfl) taskId command)
  | cancelRun runId reason =>
    exact named rfl (cancelRun_does rfl ht (fun hs => hopen hs runId reason rfl) reason).on
  | getRun runId =>
    refine named rfl (findRun_does.on.bind (fun m₁ found _ => ?_) fun _ _ _ => trivial)
    split
    next => trivial
    next => exact findTasks_does.on.bind (fun _ _ _ => trivial) fun _ _ _ => trivial
  | listTasks runId =>
    exact named rfl (findTasks_does.on.bind (fun _ _ _ => trivial) fun _ _ _ => trivial)
  | getTaskEvidence runId taskId => exact named rfl (getTaskEvidence_does taskId).on

end Calls

end SubagentBridge.Server
