import SubagentBridge.Server.Deeds
import SubagentBridge.Server.LifecycleStages

/-! A lifecycle that starts no process verifies nothing. -/

namespace SubagentBridge.Server

open Library Domain Planner Qa Team SqliteStore Execution

variable {B : Type} {api : BudgetApi B} {host : Host}

def Starts (e : ServerEvent B) : Prop := e.op.launches ≠ none ∧ e.ans ≠ .error .os

def HasEvidence (t : TaskRecord) : Prop := t.status = .verified ∧ t.evidenceIds ≠ []

instance (t : TaskRecord) : Decidable (HasEvidence t) := inferInstanceAs (Decidable (_ ∧ _))

def Bare (runId : String) (s : State B) : Prop :=
  ∀ t ∈ s.memory.taskRecords runId ++ s.db.loadTasksForRun runId, ¬ HasEvidence t

/-- Since `m₀` a process was started, or there is still no evidence. -/
def Dormant (runId : String) (m₀ m : Moment B) : Prop :=
  ∃ h, m.history = m₀.history ++ h ∧ ((∃ e ∈ h, Starts e) ∨ Bare runId m.state)

section Bare

variable {runId : String} {s s' : State B}

theorem Bare.same (h : Bare runId s) (hm : s'.memory.tasks = s.memory.tasks)
    (hdb : s'.db.tasks = s.db.tasks) : Bare runId s' := by
  rw [Bare, Memory.taskRecords, Db.loadTasksForRun, hm, hdb]
  exact h

theorem Bare.setTasks (h : Bare runId s) {rs : List TaskRecord} (hrs : ∀ t ∈ rs, ¬ HasEvidence t) :
    Bare runId { s with memory := { s.memory with tasks := s.memory.tasks.set runId rs } } := by
  have hrecords : ({ s.memory with tasks := s.memory.tasks.set runId rs } : Memory B).taskRecords
      runId = rs := by simp [Memory.taskRecords, Dict.get?_set]
  rw [Bare, hrecords]
  exact List.forall_mem_append.mpr ⟨hrs, (List.forall_mem_append.mp h).2⟩

theorem Bare.upsertTask (h : Bare runId s) {t : TaskRecord} (ht : ¬ HasEvidence t) {db : Db}
    (hdb : s.db.upsertTask t = .ok ((), db)) : Bare runId { s with db } := by
  obtain ⟨hmemory, hrows⟩ := List.forall_mem_append.mp h
  refine List.forall_mem_append.mpr ⟨hmemory, ?_⟩
  have hset (row : TaskRecord) (hrow : ¬ HasEvidence row) :
      ∀ t' ∈ ({ s.db with tasks := s.db.tasks.set t.taskId row } : Db).loadTasksForRun runId,
        ¬ HasEvidence t' := by
    intro t' ht'
    simp only [Db.loadTasksForRun, List.mem_filter, List.mem_map, decide_eq_true_eq] at ht' hrows
    obtain ⟨⟨p, hp, rfl⟩, hrun⟩ := ht'
    rcases Dict.mem_set hp with hp | rfl
    · exact hrows p.2 ⟨⟨p, hp, rfl⟩, hrun⟩
    · exact hrow
  rcases upsertTask_cases hdb with ⟨row, -, rfl⟩ | ⟨-, -, rfl⟩
  · exact hset _ ht
  · exact hset t ht

theorem Bare.cacheTasks (h : Bare runId s) : Bare runId (cacheTasks s runId) := by
  rw [Server.cacheTasks]
  split
  next => exact h.setTasks (List.forall_mem_append.mp h).2
  next => exact h

end Bare

/-! ## Operations that leave the task records alone -/

def Op.Calm (o : Op B) : Prop := ∀ (w : World B) (s : State B),
  (exec o w s).2.memory.tasks = s.memory.tasks ∧ (exec o w s).2.db.tasks = s.db.tasks

theorem Op.Idle.calm {o : Op B} (ho : o.Idle) : o.Calm := fun w s =>
  ⟨(ho.same w s).tasks, (ho.same w s).rows⟩

theorem Op.Minor.calm {o : Op B} (ho : o.Minor) : o.Calm := ho.idle.calm

theorem Op.asks.calm {o : Op B} (ho : o.asks) : o.Calm := ho.idle.calm

theorem calm_upsertRun (r : RunRecord) : (Op.upsertRun r : Op B).Calm := by
  intro w s
  rcases upsertRun_cases r w s with hs | hs <;> rw [hs] <;> exact ⟨rfl, rfl⟩

theorem calm_upsertDispatch (d : DispatchRow) : (Op.upsertDispatch d : Op B).Calm := by
  intro w s
  rcases writing_cases w s (Db.upsertDispatch d) with ⟨e, he⟩ | ⟨db, hdb, he⟩
  · simp [exec, he]
  · simp [exec, he, (Lifecycle.upsertDispatch_frame hdb).2]

theorem calm_coordinate {α : Type} (workspace : String)
    (f : String → SupervisedCoordinator B → Result (SupervisedCoordinator B) α) :
    (coordinate workspace f).Only Op.Calm := by
  refine Proc.only_op_bind (fun _ _ => ⟨rfl, rfl⟩) fun id => ?_
  refine Proc.only_op_bind (fun _ _ => ⟨rfl, rfl⟩) fun m => ?_
  split
  next => trivial
  next c _ =>
    exact Proc.only_op_bind (minor_setCoordinator (f id c).2).calm fun _ => Proc.only_ofExcept _

section Rules

variable {W : World B → Prop} {m₀ m : Moment B} {runId : String} {α β : Type}

theorem calm_bare {p : Call B α} (hp : p.Only Op.Calm) (hb : Bare runId m.state) :
    p.Ensures W (fun _ _ => True) (fun m' _ => Bare runId m'.state) m := by
  apply hp.ensures (I := fun m' : Moment B => Bare runId m'.state) hb
  intro o w m' ho _ _ h
  exact ⟨trivial, h.same (ho w m'.state).1 (ho w m'.state).2⟩

theorem keeps_bind {K : Moment B → Prop} {p : Call B α} {f : α → Call B β}
    (hp : p.Ensures W (fun _ _ => True) (fun m' _ => K m') m)
    (hf : ∀ m' a, K m' → (f a).Ensures W (fun _ _ => True) (fun m' _ => K m') m') :
    (p.bind f).Ensures W (fun _ _ => True) (fun m' _ => K m') m :=
  hp.bind (fun m' a => hf m' a) fun _ _ h => h

theorem Dormant.refl (hb : Bare runId m.state) : Dormant runId m m := ⟨[], by simp, .inr hb⟩

theorem Dormant.trans {m' : Moment B} (hd : Dormant runId m₀ m)
    (h : Bare runId m.state → Dormant runId m m') (hh : m.history <+: m'.history) :
    Dormant runId m₀ m' := by
  obtain ⟨h₁, hh₁, hstarted | hbare⟩ := hd
  · obtain ⟨h₂, hh₂⟩ := hh
    refine ⟨h₁ ++ h₂, by rw [← hh₂, hh₁, List.append_assoc], .inl ?_⟩
    obtain ⟨e, he, hs⟩ := hstarted
    exact ⟨e, List.mem_append_left _ he, hs⟩
  · obtain ⟨h₂, hh₂, hs⟩ := h hbare
    refine ⟨h₁ ++ h₂, by rw [hh₂, hh₁, List.append_assoc], hs.imp_left ?_⟩
    rintro ⟨e, he, hs⟩
    exact ⟨e, List.mem_append_right _ he, hs⟩

theorem Dormant.ensures (hd : Dormant runId m₀ m) {p : Call B α}
    (hp : Bare runId m.state →
      p.Ensures W (fun _ _ => True) (fun m' _ => Dormant runId m m') m) :
    p.Ensures W (fun _ _ => True) (fun m' _ => Dormant runId m₀ m') m := by
  by_cases hb : Bare runId m.state
  · apply ((hp hb).with (Proc.ensures_extends p)).post
    rintro m' r ⟨hd', hh⟩
    exact hd.trans (fun _ => hd') hh
  · apply (Proc.ensures_extends p).post
    exact fun m' r hh => hd.trans (fun hb' => absurd hb' hb) hh

theorem Dormant.ensures_bare (hd : Dormant runId m₀ m) {p : Call B α}
    (hp : Bare runId m.state →
      p.Ensures W (fun _ _ => True) (fun m' _ => Bare runId m'.state) m) :
    p.Ensures W (fun _ _ => True) (fun m' _ => Dormant runId m₀ m') m := by
  refine hd.ensures fun hb => ((hp hb).with (Proc.ensures_extends p)).post ?_
  rintro m' r ⟨hb', h, hh⟩
  exact ⟨h, hh.symm, .inr hb'⟩

end Rules

/-! ## The lifecycle -/

namespace Lifecycle

variable {W : World B → Prop} {m₀ m : Moment B} {l : Lifecycle} {taskId : String}

theorem saveRecord_bare {f : TaskRecord → TaskRecord} (hf : ∀ t, ¬ HasEvidence (f t))
    (hb : Bare l.runId m.state) : (l.saveRecord taskId f).Ensures W (fun _ _ => True)
      (fun m' _ => Bare l.runId m'.state) m := by
  apply ensures_memory_bind tolerant_true.asking
  intro m₁ h₁ _
  have hrecords : ∀ t ∈ modifyRecord taskId f (m.state.memory.taskRecords l.runId),
      ¬ HasEvidence t := by
    intro t ht
    rcases mem_modifyRecord ht with ht | ⟨t', -, -, rfl⟩
    · exact hb t (List.mem_append_left _ ht)
    · exact hf t'
  apply ensures_modify_bind fun _ => trivial
  intro m₂ h₂ _
  have hb₂ : Bare l.runId m₂.state := by
    rw [h₂, h₁]
    exact hb.setTasks hrecords
  split
  next t ht =>
    refine Proc.ensures_when (fun _ => ?_) fun _ => hb₂
    apply ensures_perform (.upsertTask t)
    intro w _ _
    refine ⟨trivial, ?_⟩
    rcases writing_cases w m₂.state (Db.upsertTask t) with ⟨e, he⟩ | ⟨db, hdb, he⟩
    · simpa [exec, he] using hb₂
    · simpa [exec, he] using hb₂.upsertTask (hrecords t (mem_of_recordOf ht)) hdb
  next => exact hb₂

theorem saveStatus_bare {status : TaskStatus} (hs : status ≠ .verified)
    (hb : Bare l.runId m.state) :
    (l.saveStatus taskId status).Ensures W (fun _ _ => True)
      (fun m' _ => Bare l.runId m'.state) m :=
  saveRecord_bare (fun _ he => hs he.1) hb

theorem calm_logEvent (key eventType : String) (payload : Dict String String) :
    (l.logEvent key eventType payload : Call B Unit).Only Op.Calm :=
  (asks_logEvent key eventType payload).mono fun _ ho => ho.calm

theorem freezeTask_bare (hb : Bare l.runId m.state) :
    (l.freezeTask taskId).Ensures W (fun _ _ => True) (fun m' _ => Bare l.runId m'.state) m := by
  apply ensures_memory_bind tolerant_true.asking
  intro m₁ h₁ _
  rw [← h₁] at hb
  split
  next => exact hb
  next r _ =>
    apply keeps_bind (calm_bare (calm_coordinate _ _) hb)
    intro m₂ _ hb₂
    apply keeps_bind (saveStatus_bare (by decide) hb₂)
    intro m₃ _ hb₃
    exact keeps_bind (calm_bare (calm_logEvent _ _ _) hb₃) fun _ _ hb₄ => hb₄

theorem missingCommand_bare (hb : Bare l.runId m.state) :
    (l.missingCommand taskId).Ensures W (fun _ _ => True)
      (fun m' _ => Bare l.runId m'.state) m := by
  apply keeps_bind (saveStatus_bare (by decide) hb)
  intro m₁ _ hb₁
  exact keeps_bind (calm_bare (calm_logEvent _ _ _) hb₁) fun _ _ hb₂ => hb₂

theorem beginDispatch_bare (hb : Bare l.runId m.state) :
    (l.beginDispatch api taskId).Ensures W (fun _ _ => True)
      (fun m' _ => Bare l.runId m'.state) m := by
  apply keeps_bind (calm_bare (calm_coordinate _ _) hb)
  intro m₁ plan hb₁
  apply keeps_bind (saveStatus_bare (by decide) hb₁)
  intro m₂ _ hb₂
  apply keeps_bind
    (calm_bare (Proc.only_when ((Proc.only_op _).mpr (calm_upsertDispatch _))) hb₂)
  intro m₃ _ hb₃
  exact keeps_bind (calm_bare (calm_logEvent _ _ _) hb₃) fun _ _ hb₄ => hb₄

theorem develop_dormant {cmd : List String} {runId : String} (hb : Bare runId m.state) :
    (develop taskId cmd).Ensures W (fun _ _ => True) (fun m' r => Bare runId m'.state ∧
      ∀ exitCode, r = .ok exitCode → exitCode = 0 →
        ∃ h, m'.history = m.history ++ h ∧ ∃ e ∈ h, Starts e) m := by
  apply Proc.Ensures.tryCatch (M := fun m' r => Bare runId m'.state ∧
    ∀ exitCode, r = .ok exitCode → ∃ h, m'.history = m.history ++ h ∧ ∃ e ∈ h, Starts e)
  · apply ensures_perform_bind
    intro w _ _
    have hb' : Bare runId ((runtime B).after (.runIsolated taskId cmd) w m).state := hb.same rfl rfl
    refine ⟨trivial, fun result hresult =>
      ⟨hb', fun _ _ => ⟨_, rfl, _, List.mem_singleton_self _, ?_⟩⟩,
      fun e _ => ⟨hb', fun _ he => by cases he⟩⟩
    refine ⟨by simp [Op.launches], ?_⟩
    show (exec (.runIsolated taskId cmd) w m.state).1 ≠ .error .os
    rw [hresult]
    exact fun he => by cases he
  · rintro m' exitCode ⟨hb', hstarts⟩
    exact ⟨hb', fun _ _ _ => hstarts exitCode rfl⟩
  · rintro m' e ⟨hb', -⟩
    refine ⟨hb', fun exitCode hr hzero => ?_⟩
    cases hr
    cases hzero

theorem executeDispatched_dormant {cmd : List String} {plan : DispatchPlan}
    (hb : Bare l.runId m.state) : (l.executeDispatched api taskId cmd plan).Ensures W
      (fun _ _ => True) (fun m' _ => Dormant l.runId m m') m := by
  have hd : Dormant l.runId m m := .refl hb
  rw [executeDispatched]
  split
  next =>
    apply keeps_bind (hd.ensures_bare fun hb => calm_bare (calm_coordinate _ _) hb)
    exact fun _ _ hd' => hd'
  next =>
    have hconsult : (Proc.when (l.consultModel = true) (l.consult taskId) : Call B Unit).Only
        Op.Calm := Proc.only_when (asks_consult.mono fun _ ho => ho.calm)
    apply keeps_bind (hd.ensures_bare fun hb => calm_bare hconsult hb)
    intro m₁ _ hd₁
    refine hd₁.ensures fun hb₁ => ?_
    apply ((develop_dormant hb₁).with (Proc.ensures_extends _)).bind
    · rintro m₂ exitCode ⟨⟨hb₂, hstarts⟩, hh⟩
      by_cases hzero : exitCode = 0
      · -- from here on it does not matter what is verified
        obtain ⟨h, hh, hs⟩ := hstarts exitCode rfl hzero
        apply (Proc.ensures_extends _).post
        rintro m₃ r ⟨h', hh'⟩
        refine ⟨h ++ h', by rw [← hh', hh, List.append_assoc], .inl ?_⟩
        obtain ⟨e, he, hs⟩ := hs
        exact ⟨e, List.mem_append_left _ he, hs⟩
      · obtain ⟨h, hh⟩ := hh
        have hd₂ : Dormant l.runId m₁ m₂ := ⟨h, hh.symm, .inr hb₂⟩
        rw [conclude, if_pos hzero]
        apply keeps_bind (hd₂.ensures_bare fun hb => calm_bare (calm_coordinate _ _) hb)
        intro m₃ _ hd₃
        apply keeps_bind (hd₃.ensures_bare fun hb => saveStatus_bare (by decide) hb)
        exact fun _ _ hd₄ => hd₄
    · rintro m₂ e ⟨⟨hb₂, -⟩, h, hh⟩
      exact ⟨h, hh.symm, .inr hb₂⟩

theorem executeTask_dormant (hd : Dormant l.runId m₀ m) : (l.executeTask api taskId).Ensures W
    (fun _ _ => True) (fun m' _ => Dormant l.runId m₀ m') m := by
  apply keeps_bind (hd.ensures_bare freezeTask_bare)
  intro m₁ role hd₁
  split
  next => exact hd₁.ensures_bare missingCommand_bare
  next cmd _ =>
    apply keeps_bind (hd₁.ensures_bare beginDispatch_bare)
    intro m₂ plan hd₂
    exact hd₂.ensures executeDispatched_dormant

theorem executeTasks_dormant (taskIds : List String) (hd : Dormant l.runId m₀ m) :
    (l.executeTasks api taskIds).Ensures W (fun _ _ => True)
      (fun m' _ => Dormant l.runId m₀ m') m := by
  induction taskIds generalizing m with
  | nil => exact hd
  | cons taskId taskIds ih =>
    apply keeps_bind (executeTask_dormant hd)
    intro m₁ f hd₁
    split
    next => exact hd₁
    next => exact ih hd₁

theorem calm_enterRun : (l.enterRun : Call B Unit).Only Op.Calm := by
  refine Proc.only_op_bind (fun w s => ?_) fun run => ?_
  · rw [show (exec (.getRun l.runId) w s).2 = s from reading_state _ _ _]
    exact ⟨rfl, rfl⟩
  · split
    next => trivial
    next => exact (Proc.only_op _).mpr (calm_upsertRun _)

theorem execute_dormant (hd : Dormant l.runId m₀ m) : (l.execute api).Ensures W
    (fun _ _ => True) (fun m' _ => Dormant l.runId m₀ m') m := by
  apply keeps_bind (hd.ensures_bare fun hb => calm_bare (Proc.only_when calm_enterRun) hb)
  intro m₁ _ hd₁
  apply keeps_bind (hd₁.ensures_bare fun hb =>
    calm_bare ((Proc.only_op _).mpr fun _ _ => ⟨rfl, rfl⟩) hb)
  intro m₂ memory hd₂
  split
  next => exact hd₂
  next c _ =>
    apply keeps_bind (executeTasks_dormant c.order hd₂)
    intro m₃ f hd₃
    split
    next => exact hd₃
    next =>
      apply keeps_bind
        (hd₃.ensures_bare fun hb => calm_bare ((Proc.only_op _).mpr fun _ _ => ⟨rfl, rfl⟩) hb)
      exact fun _ _ hd₄ => hd₄

end Lifecycle

end SubagentBridge.Server
