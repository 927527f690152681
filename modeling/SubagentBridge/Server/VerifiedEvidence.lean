import SubagentBridge.Server.ReplacedRecords

/-! Verified evidence across executions that execute nothing. -/

namespace SubagentBridge.Server

open Library Domain Planner Qa Team SqliteStore Execution

variable {B : Type} {api : BudgetApi B} {host : Host}

/-! ## An execution -/

section Execution

variable {W : World B → Prop} {m₀ m : Moment B} {runId workspace : String} {α : Type}

/-- The end of an execution that began at `m₀`, with the events `h`. -/
structure Ending (host : Host) (runId : String) (m₀ m : Moment B) (r : Except Error Response)
    (h : List (ServerEvent B)) : Prop where
  history : m.history = m₀.history ++ h
  progress : (Halted runId m₀.state m.state h ∧
    ∀ res, r = .ok res → ¬ Executable host m₀.state runId) ∨ Renewed runId m.state h
  executable : ∀ id, PendingStored h id → Executable host m₀.state runId
  blocked : ∀ res, r = .ok res → res.isBlocked = true → ∀ e ∈ h, ¬ Starts e

def Ends (host : Host) (runId : String) (m₀ m : Moment B) (r : Except Error Response) : Prop :=
  ∃ h, Ending host runId m₀ m r h

/-- So far no task was written and no process was started, and the tasks are where they were. -/
structure Early (runId : String) (m₀ m : Moment B) : Prop where
  tidy : Tidy m.state
  known : knownRun m.state runId = knownRun m₀.state runId
  rows : m.state.db.tasks = m₀.state.db.tasks
  tasks : ∀ rs, m₀.state.memory.tasks.get? runId = some rs →
    m.state.memory.tasks.get? runId = some rs
  inert : ∃ h, m.history = m₀.history ++ h ∧ ∀ e ∈ h, e.op.Inert

theorem Op.Idle.inert {o : Op B} (ho : o.Idle) : o.Inert := by
  cases o with
  | upsertTask | runIsolated | runQa => exact ho
  | _ => trivial

theorem Early.refl (ht : Tidy m.state) : Early runId m m :=
  ⟨ht, rfl, rfl, fun _ => id, [], by simp, List.forall_mem_nil _⟩

theorem Early.trans {m' : Moment B} (he : Early runId m₀ m) (he' : Early runId m m') :
    Early runId m₀ m' := by
  obtain ⟨h, hh, hi⟩ := he.inert
  obtain ⟨h', hh', hi'⟩ := he'.inert
  exact ⟨he'.tidy, he'.known.trans he.known, he'.rows.trans he.rows,
    fun rs hrs => he'.tasks rs (he.tasks rs hrs), h ++ h', by rw [hh', hh, List.append_assoc],
    List.forall_mem_append.mpr ⟨hi, hi'⟩⟩

theorem Early.idle {p : Call B α} (he : Early runId m₀ m) (hp : p.Only Op.Idle) :
    p.Ensures W (fun _ _ => True) (fun m' _ => Early runId m₀ m') m := by
  apply ((idle_ensures (fun _ _ _ _ => trivial) hp).with hp.events).post
  rintro m' r ⟨hsame, h', hh', hi⟩
  refine he.trans ⟨he.tidy.same hsame, ?_, hsame.rows, fun rs hrs => ?_, h', hh',
    fun e hmem => (hi e hmem).inert⟩
  · rw [knownRun, hsame.runs, hsame.dbRuns]
    rfl
  · rwa [hsame.tasks]

theorem Early.ends {r : Except Error Response} (he : Early runId m₀ m)
    (hr : ∀ res, r = .ok res → ¬ Executable host m₀.state runId) : Ends host runId m₀ m r := by
  obtain ⟨h, hh, hi⟩ := he.inert
  have hhalted := Halted.refl.inert (s := m₀.state) hi he.rows he.tasks
  rw [List.nil_append] at hhalted
  exact ⟨h, hh, .inl ⟨hhalted, hr⟩, fun id hst => absurd hst (not_stored_of_inert hi id),
    fun _ _ _ e hmem => not_starts_of_inert (hi e hmem)⟩

theorem Early.fails (he : Early runId m₀ m) (e : Error) : Ends host runId m₀ m (.error e) :=
  he.ends fun _ hr => (by cases hr)

theorem Early.halts {m' : Moment B} {h' : List (ServerEvent B)} (he : Early runId m₀ m)
    (hh' : m'.history = m.history ++ h') (hhalted : Halted runId m.state m'.state h')
    (hex : Executable host m₀.state runId) (e : Error) : Ends host runId m₀ m' (.error e) := by
  obtain ⟨h, hh, hi⟩ := he.inert
  have hstored (id : String) : PendingStored (h ++ h') id ↔ PendingStored h' id := by
    rw [PendingStored.append, or_iff_right (not_stored_of_inert hi id)]
  refine ⟨h ++ h', by rw [hh', hh, List.append_assoc], .inl ⟨⟨?_, ?_, ?_, ?_, ?_⟩, nofun⟩,
    fun _ _ => hex, nofun⟩
  · exact List.forall_mem_append.mpr
      ⟨fun e hmem => not_starts_of_inert (hi e hmem), hhalted.starts⟩
  · exact (hstored _).not.mpr hhalted.last
  · exact fun rs hrs => hhalted.tasks rs (he.tasks rs hrs)
  · intro id t hget hev hnot
    exact hhalted.spared id t (he.rows ▸ hget) hev ((hstored id).not.mp hnot)
  · exact fun id row hst => hhalted.lost id row ((hstored id).mp hst)

theorem knownRun_cacheRun (s : State B) : knownRun (cacheRun s runId) runId = knownRun s runId := by
  cases hk : knownRun s runId with
  | none =>
    simp only [knownRun, Option.or_eq_none_iff] at hk
    simp [cacheRun, knownRun, hk]
  | some run => rw [knownRun, cacheRun_known hk, Option.some_or]

theorem findRun_early (ht : Tidy m.state) : (findRun runId).Ensures W (fun _ _ => True)
    (fun m' r => Early runId m m' ∧ ∀ found, r = .ok found → found = knownRun m.state runId) m := by
  have hinert : (findRun runId : Call B _).Only Op.Inert := by
    refine Proc.only_op_bind trivial fun memory => ?_
    split
    next => trivial
    next =>
      refine Proc.only_op_bind trivial fun found => ?_
      split
      next => trivial
      next => exact Proc.only_op_bind trivial fun _ => trivial
  have htasks : (cacheRun m.state runId).memory.tasks = m.state.memory.tasks ∧
      (cacheRun m.state runId).db = m.state.db := by
    rw [cacheRun]
    split <;> exact ⟨rfl, rfl⟩
  apply ((findRun_ensures tolerant_true.asking (tolerant_true.allows _)).with hinert.events).post
  rintro m' r ⟨⟨hr, hs⟩ | ⟨⟨_, hr⟩, hs⟩, hi⟩
  · refine ⟨⟨hs ▸ ht.cacheRun runId, hs ▸ knownRun_cacheRun _, by rw [hs, htasks.2],
      fun rs hrs => ?_, hi⟩, fun found hf => ?_⟩
    · rw [hs, htasks.1]
      exact hrs
    · cases hr.symm.trans hf
      rfl
  · refine ⟨⟨hs ▸ ht, by rw [hs], by rw [hs], fun rs hrs => hs ▸ hrs, hi⟩, fun found hf => ?_⟩
    cases hr.symm.trans hf

/-! ### The lifecycle -/

theorem calm_saveRunStatus (run : RunRecord) (status : RunStatus) :
    (saveRunStatus runId run status : Call B Unit).Only Op.Calm :=
  Proc.only_op_bind (fun _ _ => ⟨rfl, rfl⟩) fun _ => (Proc.only_op _).mpr (calm_upsertRun _)

theorem settleRun_dormant {run : RunRecord} {result : LifecycleResult} (hd : Dormant runId m₀ m)
    (hres : ∀ tasks, result = .completed tasks → ∀ t ∈ tasks,
      t ∈ m.state.memory.taskRecords runId) :
    (settleRun runId run result).Ensures W (fun _ _ => True)
      (fun m' _ => Dormant runId m₀ m') m := by
  cases result with
  | completed tasks =>
    refine hd.ensures_bare fun hb => ?_
    have hbare : ∀ t ∈ tasks, ¬ HasEvidence t := fun t hmem =>
      hb t (List.mem_append_left _ (hres tasks rfl t hmem))
    apply keeps_bind (calm_bare (calm_saveRunStatus run .completed) hb)
    intro m₁ _ hb₁
    apply ensures_modify_bind fun _ => trivial
    intro m₂ h₂ _
    have hb₂ : Bare runId m₂.state := by
      rw [h₂]
      exact hb₁.setTasks hbare
    exact hb₂
  | failed f =>
    apply keeps_bind (hd.ensures_bare fun hb => calm_bare (calm_saveRunStatus run .failed) hb)
    exact fun _ _ hd₁ => hd₁

theorem settleRun_notBlocked {run : RunRecord} {result : LifecycleResult} :
    (settleRun runId run result).Ensures W (fun _ _ => True)
      (Proc.Returns fun _ res => res.isBlocked = false) m := by
  cases result with
  | completed tasks =>
    apply (ensures_trivial _).first
    intro m₁ _ _
    apply (ensures_trivial _).first
    exact fun _ _ _ => (Proc.returns_ok _).mpr rfl
  | failed f =>
    apply (ensures_trivial _).first
    exact fun _ _ _ => (Proc.returns_ok _).mpr rfl

theorem executeCommands_ends {run : RunRecord} {plan : TaskDecomposer.Plan}
    (hb : Bare runId m.state) (commands : Dict String (List String)) :
    (executeCommands api host runId workspace run plan commands).Ensures W (fun _ _ => True)
      (fun m' r => ∃ h, m'.history = m.history ++ h ∧
        ((∃ e ∈ h, Starts e) ∨ Bare runId m'.state) ∧
        ∀ res, r = .ok res → res.isBlocked = true → ∀ e ∈ h, ¬ Starts e) m := by
  have hidle : (gateCommands host runId workspace commands : Call B _).Only Op.Idle :=
    idle_gateCommands runId workspace commands
  apply ((calm_bare (hidle.mono fun _ ho => ho.calm) hb).with hidle.events).bind
  · rintro m₁ gated ⟨hb₁, h₁, hh₁, hi₁⟩
    have hno₁ : ∀ e ∈ h₁, ¬ Starts e := fun e hmem => not_starts_of_inert (hi₁ e hmem).inert
    split
    next reason actionId =>
      have hblock : (block runId workspace reason actionId run : Call B _).Only
          fun o : Op B => o.Calm ∧ o.Inert := by
        refine Proc.Only.bind ?_ fun _ => Proc.Only.bind ?_ fun _ => trivial
        · exact (idle_appendOnce _ _).mono fun _ ho => ⟨ho.calm, ho.inert⟩
        · refine Proc.only_op_bind ⟨fun _ _ => ⟨rfl, rfl⟩, trivial⟩ fun _ => ?_
          exact (Proc.only_op _).mpr ⟨calm_upsertRun _, trivial⟩
      apply ((calm_bare (hblock.mono fun _ ho => ho.1) hb₁).with hblock.events).post
      rintro m₂ r ⟨hb₂, h₂, hh₂, hi₂⟩
      refine ⟨h₁ ++ h₂, by rw [hh₂, hh₁, List.append_assoc], .inr hb₂, fun _ _ _ => ?_⟩
      exact List.forall_mem_append.mpr
        ⟨hno₁, fun e hmem => not_starts_of_inert (hi₂ e hmem).2⟩
    next =>
      have hd₁ : Dormant runId m m₁ := ⟨h₁, hh₁, .inr hb₁⟩
      apply Proc.Ensures.bind (M := fun m' _ => Dormant runId m m')
      · exact hd₁.ensures_bare fun hb =>
          calm_bare ((Proc.only_op _).mpr fun _ _ => ⟨rfl, rfl⟩) hb
      · intro m₂ _ hd₂
        have hcreate : (createCoordinatorForRun runId workspace plan commands : Call B _).Only
            Op.Minor := only_createCoordinatorForRun plan commands
        apply ((hd₂.ensures_bare fun hb => calm_bare (hcreate.mono fun _ ho => ho.calm) hb).with
          (createCoordinatorForRun_returns plan commands)).bind
        · rintro m₃ l ⟨hd₃, hfor⟩
          have hl : l.runId = runId := (hfor l rfl).runId
          subst hl
          have hsteps : (l.execute api).Ensures W (fun _ _ => True)
              (Proc.Returns (l.Completes (l.orderIn m₃.state))) m₃ :=
            l.execute_steps.mono (fun _ _ _ => trivial) fun _ _ h => h
          apply ((l.execute_dormant hd₃).with hsteps).bind
          · rintro m₄ result ⟨hd₄, hres⟩
            apply ((settleRun_dormant hd₄ ?_).with settleRun_notBlocked).post
            · rintro m₅ r ⟨⟨h, hh, hdone⟩, hnot⟩
              refine ⟨h, hh, hdone, fun res hr hblocked => ?_⟩
              rw [hnot res hr] at hblocked
              cases hblocked
            · rintro tasks rfl t hmem
              rw [(hres _ rfl).2] at hmem
              exact mem_distinctRecords hmem
          · rintro m₄ e ⟨⟨h, hh, hdone⟩, -⟩
            exact ⟨h, hh, hdone, nofun⟩
        · rintro m₃ e ⟨⟨h, hh, hdone⟩, -⟩
          exact ⟨h, hh, hdone, nofun⟩
      · rintro m₂ e ⟨h, hh, hdone⟩
        exact ⟨h, hh, hdone, nofun⟩
  · rintro m₁ e ⟨hb₁, h₁, hh₁, -⟩
    exact ⟨h₁, hh₁, .inr hb₁, nofun⟩

def Replaced (runId : String) (m₀ m : Moment B) : Prop :=
  ∃ h, m.history = m₀.history ++ h ∧ (∀ e ∈ h, ¬ Starts e) ∧
    (∀ id ∈ taskIds runId, PendingStored h id) ∧
    Bare runId m.state

theorem Replaced.halts (hr : Replaced runId m₀ m) (hex : Executable host m₀.state runId)
    (e : Error) : Ends host runId m₀ m (.error e : Except Error Response) := by
  obtain ⟨h, hh, -, hstored, hb⟩ := hr
  exact ⟨h, hh, .inr ⟨hstored, .inr hb⟩, fun _ _ => hex, nofun⟩

theorem Replaced.idle {p : Call B α} (hr : Replaced runId m₀ m) (hp : p.Only Op.Idle) :
    p.Ensures W (fun _ _ => True) (fun m' _ => Replaced runId m₀ m') m := by
  obtain ⟨h, hh, hno, hstored, hb⟩ := hr
  apply ((calm_bare (hp.mono fun _ ho => ho.calm) hb).with hp.events).post
  rintro m' r ⟨hb', h', hh', hi⟩
  refine ⟨h ++ h', by rw [hh', hh, List.append_assoc], ?_,
    fun id hid => PendingStored.append.mpr (.inl (hstored id hid)), hb'⟩
  exact List.forall_mem_append.mpr ⟨hno, fun e hmem => not_starts_of_inert (hi e hmem).inert⟩

theorem Replaced.ends {m' : Moment B} {r : Except Error Response} (hr : Replaced runId m₀ m)
    (hex : Executable host m₀.state runId)
    (hh : ∃ h, m'.history = m.history ++ h ∧ ((∃ e ∈ h, Starts e) ∨ Bare runId m'.state) ∧
      ∀ res, r = .ok res → res.isBlocked = true → ∀ e ∈ h, ¬ Starts e) :
    Ends host runId m₀ m' r := by
  obtain ⟨h, hh₀, hno, hstored, -⟩ := hr
  obtain ⟨h', hh', hdone, hblocked⟩ := hh
  refine ⟨h ++ h', by rw [hh', hh₀, List.append_assoc], .inr ⟨fun id hid => ?_, ?_⟩,
    fun _ _ => hex, ?_⟩
  · exact PendingStored.append.mpr (.inl (hstored id hid))
  · rcases hdone with ⟨e, hmem, hs⟩ | hb
    · exact .inl ⟨e, List.mem_append_right _ hmem, hs⟩
    · exact .inr hb
  · intro res hres hb
    exact List.forall_mem_append.mpr ⟨hno, hblocked res hres hb⟩

theorem executeOpenRun_ends {run : RunRecord} (he : Early runId m₀ m) (hrun : IsRunId runId)
    (hknown : knownRun m₀.state runId = some run) (hopen : isOver run.status = false)
    (commandMap : Dict String (List String)) :
    (executeOpenRun api host runId run commandMap).Ensures W (fun _ _ => True)
      (Ends host runId m₀) m := by
  rw [executeOpenRun, resolvePath]
  cases hw : host.resolve run.workspacePath with
  | none => exact he.fails _
  | some workspace =>
    have hex : Executable host m₀.state runId := ⟨run, hknown, hopen, by simp [hw]⟩
    apply (he.idle (only_getProductionSystem.mono fun _ ho => ho.idle)).bind
    · intro m₁ _ he₁
      have hinspect : (perform (.inspectTree workspace) : Call B _).Only Op.Idle :=
        (Proc.only_op _).mpr trivial
      apply Proc.Ensures.bind (he₁.idle hinspect)
      · intro m₂ tree he₂
        apply ensures_lift_bind
        · intro plan hplan
          rw [(decomposeGoal_ok hplan).1]
          apply (registerTasks_progress he₂.tidy hrun run.goal).bind
          · rintro m₃ _ ⟨h₃, hh₃, -, hok⟩
            obtain ⟨hno, hstored, hb, -⟩ := hok rfl
            obtain ⟨h, hh, hi⟩ := he₂.inert
            have hr₃ : Replaced runId m₀ m₃ := by
              refine ⟨h ++ h₃, by rw [hh₃, hh, List.append_assoc], ?_,
                fun id hid => PendingStored.append.mpr (.inr (hstored id hid)), hb⟩
              exact List.forall_mem_append.mpr
                ⟨fun e hmem => not_starts_of_inert (hi e hmem), hno⟩
            apply (hr₃.idle (only_effectiveCommands.mono fun _ ho => ho.idle)).bind
            · intro m₄ commands hr₄
              obtain ⟨_, -, -, -, hb₄⟩ := id hr₄
              exact (executeCommands_ends hb₄ commands).post fun m₅ r hend => hr₄.ends hex hend
            · exact fun m₄ e hr₄ => hr₄.halts hex e
          · rintro m₃ e ⟨h₃, hh₃, herr, -⟩
            exact he₂.halts hh₃ (herr e rfl) hex e
        · exact fun e _ => he₂.fails _
      · exact fun m₂ e he₂ => he₂.fails e
    · exact fun m₁ e he₁ => he₁.fails e

theorem executeRun_ends (he : Early runId m₀ m) (commandMap : Dict String (List String)) :
    (executeRun api host runId commandMap).Ensures W (fun _ _ => True) (Ends host runId m₀) m := by
  apply (findRun_early he.tidy).bind
  · rintro m₁ found ⟨he₁, hfound⟩
    have hknown : knownRun m₀.state runId = found := he.known ▸ (hfound _ rfl).symm
    have he₁ := he.trans he₁
    split
    next => exact he₁.ends fun _ _ ⟨run, hk, _⟩ => by cases hknown.symm.trans hk
    next run =>
      split
      next hover =>
        have hmemory : (perform .memory : Call B _).Only Op.Idle := (Proc.only_op _).mpr trivial
        apply Proc.Ensures.bind (he₁.idle hmemory)
        · refine fun m₂ _ he₂ => he₂.ends fun _ _ ⟨run', hk, hopen, _⟩ => ?_
          cases hknown.symm.trans hk
          rw [hover] at hopen
          cases hopen
        · exact fun m₂ e he₂ => he₂.fails e
      next hopen =>
        have hk := (hfound _ rfl).symm
        exact executeOpenRun_ends he₁ (he.tidy.known hk).2 hknown (by simpa using hopen) commandMap
  · exact fun m₁ e he₁ => (he.trans he₁.1).fails e

theorem getTaskEvidence_after (taskId : String) :
    (getTaskEvidence runId taskId).Ensures W (fun _ _ => True) (fun m' _ =>
      (∃ h, m'.history = m.history ++ h ∧ ∀ e ∈ h, e.op.Inert) ∧
        (m'.state = m.state ∨ m'.state = cacheTasks m.state runId)) m := by
  have hinert : (getTaskEvidence runId taskId : Call B _).Only Op.Inert := by
    refine Proc.Only.bind ?_ fun rs => ?_
    · refine Proc.only_op_bind trivial fun memory => ?_
      split
      next => trivial
      next => exact Proc.only_op_bind trivial fun _ => Proc.only_op_bind trivial fun _ => trivial
    · split <;> trivial
  have hstate : (getTaskEvidence runId taskId).Ensures W (fun _ _ => True) (fun m' _ =>
      m'.state = m.state ∨ m'.state = cacheTasks m.state runId) m := by
    apply (findTasks_ensures tolerant_true.asking (tolerant_true.allows _)).bind
    · rintro m₁ rs (⟨-, h₁⟩ | ⟨-, h₁⟩)
      · split <;> exact .inr h₁
      · split <;> exact .inl h₁
    · rintro m₁ e (⟨-, h₁⟩ | ⟨-, h₁⟩)
      · exact .inr h₁
      · exact .inl h₁
  apply (hinert.events.with hstate).post
  exact fun _ _ h => h

theorem Ends.after {m' : Moment B} {r r' : Except Error Response} {h : List (ServerEvent B)}
    (he : Ends host runId m₀ m r) (hh : m'.history = m.history ++ h) (hi : ∀ e ∈ h, e.op.Inert)
    (hs : m'.state = m.state ∨ m'.state = cacheTasks m.state runId)
    (hr : ∀ res', r' = .ok res' → ∃ res, r = .ok res ∧ res.isBlocked = res'.isBlocked) :
    Ends host runId m₀ m' r' := by
  obtain ⟨h₀, hh₀, hdone, hex, hblocked⟩ := he
  have hstored (id : String) : PendingStored (h₀ ++ h) id ↔ PendingStored h₀ id := by
    rw [PendingStored.append, or_iff_left (not_stored_of_inert hi id)]
  have htasks : m'.state.db.tasks = m.state.db.tasks ∧
      (∀ rs, m.state.memory.tasks.get? runId = some rs →
        m'.state.memory.tasks.get? runId = some rs) ∧
      (Bare runId m.state → Bare runId m'.state) := by
    rcases hs with hs | hs
    · exact hs ▸ ⟨rfl, fun _ => id, id⟩
    · refine hs ▸ ⟨?_, fun rs hrs => ?_, Bare.cacheTasks⟩
      · rw [cacheTasks]
        split <;> rfl
      · rwa [cacheTasks, hrs]
  refine ⟨h₀ ++ h, by rw [hh, hh₀, List.append_assoc], ?_,
    fun id hst => hex id ((hstored id).mp hst), fun res' hr' hb => ?_⟩
  · rcases hdone with ⟨hd, hnot⟩ | hd
    · refine .inl ⟨hd.inert hi htasks.1 htasks.2.1, fun res' hr' => ?_⟩
      obtain ⟨res, hr, -⟩ := hr res' hr'
      exact hnot res hr
    · exact .inr (hd.append htasks.2.2 h)
  · obtain ⟨res, hr, heq⟩ := hr res' hr'
    exact List.forall_mem_append.mpr
      ⟨hblocked res hr (heq.trans hb), fun e hmem => not_starts_of_inert (hi e hmem)⟩

theorem executeTask_ends (he : Early runId m₀ m) (taskId : String) (command : List String) :
    (executeTask api host runId taskId command).Ensures W (fun _ _ => True)
      (Ends host runId m₀) m := by
  have hmemory : (perform .memory : Call B _).Only Op.Idle := (Proc.only_op _).mpr trivial
  apply Proc.Ensures.bind (he.idle hmemory)
  · intro m₁ memory he₁
    apply (executeRun_ends he₁ _).bind
    · intro m₂ res hend
      split
      next =>
        refine hend.after (by simp) (List.forall_mem_nil _) (.inl rfl) fun res' hr' => ?_
        cases hr'
        exact ⟨_, rfl, rfl⟩
      next =>
        apply (getTaskEvidence_after taskId).bind
        · rintro m₃ evidence ⟨⟨h, hh, hi⟩, hs⟩
          have hend₃ : Ends host runId m₀ m₃ (.ok res) :=
            hend.after hh hi hs fun res' hr' => ⟨res', hr', rfl⟩
          apply ensures_perform_bind
          intro w _ _
          refine ⟨trivial, fun memory _ => ?_, fun e he => by cases he⟩
          have hi₄ : ∀ e ∈ [(⟨.memory, (exec .memory w m₃.state).1⟩ : ServerEvent B)],
              e.op.Inert := List.forall_mem_singleton.mpr trivial
          refine hend₃.after rfl hi₄ (.inl rfl) fun res' hr' => ?_
          cases hr'
          exact ⟨res, rfl, rfl⟩
        · rintro m₃ e ⟨⟨h, hh, hi⟩, hs⟩
          exact hend.after hh hi hs nofun
    · exact fun m₂ e hend => hend
  · exact fun m₁ e he₁ => he₁.fails e

end Execution

/-! ## The server -/

section Runs

variable {m : Moment B} {runId : String}

theorem executes_ends {W : World B → Prop} {q : Request} (ht : Tidy m.state)
    (hq : q.executes = some runId) :
    (body api host q).Ensures W (fun _ _ => True) (Ends host runId m) m := by
  cases q with
  | executeRun runId' commands =>
    cases hq
    exact executeRun_ends (.refl ht) commands
  | executeTask runId' taskId command =>
    cases hq
    exact executeTask_ends (.refl ht) taskId command
  | _ => cases hq

theorem Ending.spared {r : Except Error Response} {m' : Moment B} {h : List (ServerEvent B)}
    (he : Ending host runId m m' r h) (hs : ¬ Executable host m.state runId ∨ Bare runId m.state) :
    Spared runId m.state h := by
  rcases hs with hs | hs
  · have hnot (id : String) : ¬ PendingStored h id := fun hst => hs (he.executable id hst)
    exact ⟨fun _ _ _ => hnot _, fun _ _ _ => hnot _⟩
  · exact hs.spared

/-- What becomes of the evidence of a run, whatever ran before and however its execution ends. A
call that is blocked, or raises, or starts no process, keeps all of it exactly where the database
accepted no new record in the place of one that had it. When it answers, this is so exactly where
the run could not be executed or nothing of it had been verified before. -/
structure Survives (host : Host) (runId : String) (m m' : Moment B) (r : Except Error Response)
    (h : List (ServerEvent B)) : Prop where
  history : m'.history = m.history ++ h
  blocked : ∀ res, r = .ok res → res.isBlocked = true → ∀ e ∈ h, ¬ Starts e
  kept : Spared runId m.state h → KeepsEvidence runId m.state m'.state
  spared : (∀ e ∈ h, ¬ Starts e) → KeepsEvidence runId m.state m'.state → Spared runId m.state h
  before : ¬ Executable host m.state runId ∨ Bare runId m.state → Spared runId m.state h
  answered : ∀ res, r = .ok res → Spared runId m.state h →
    ¬ Executable host m.state runId ∨ Bare runId m.state

theorem evidence_survives {ls : List (server api host).Label} {q : Request} {ws : List (World B)}
    {c' : (server api host).Config} {r : Except Error Response}
    (hrun : Library.Run Service.step ((server api host).initial emptyState)
      (ls ++ (server api host).serve q ws) c')
    (hr : c'.outcome = some r) (hq : q.executes = some runId) :
    ∃ c h, Library.Run Service.step ((server api host).initial emptyState) ls c ∧
      Survives host runId c.moment c'.moment r h := by
  obtain ⟨c, hbefore, hcall⟩ := Path.split hrun
  have ht := tidy_of_run hbefore
  have ht' := tidy_of_run hrun
  have hbody : (body api host q).Ensures (fun _ => True) (fun _ _ => True)
      (Ends host runId c.moment) c.moment := executes_ends ht hq
  obtain ⟨h, hend⟩ := Service.ensures_serve (fun _ _ _ => trivial) hcall hbody hr
  refine ⟨c, h, hbefore, hend.history, hend.blocked, fun hspared => ?_, fun hno hkeeps => ?_,
    hend.spared, fun res hres hspared => ?_⟩
  · rcases hend.progress with ⟨hd, -⟩ | hd
    · exact (hd.spared_iff ht ht').mp hspared
    · exact (hd.bare_of_spared ht hspared).keepsEvidence
  · rcases hend.progress with ⟨hd, -⟩ | hd
    · exact (hd.spared_iff ht ht').mpr hkeeps
    · rcases hd.bare with ⟨e, hmem, hs⟩ | hb
      · exact absurd hs (hno e hmem)
      · exact (hkeeps.bare hb).spared
  · rcases hend.progress with ⟨-, hnot⟩ | hd
    · exact .inl (hnot res hres)
    · exact .inr (hd.bare_of_spared ht hspared)

end Runs

section Sample

def halfVerified : List sampleServer.Label :=
  sampleServer.serve (.submitGoal sampleGoal) (List.replicate 9 (sampleWorld "a")) ++
    sampleServer.serve (.executeRun "run_a" [("PM", samplePrint)])
      (List.replicate 85 (sampleWorld "b"))

def gatedExecution : List sampleServer.Label :=
  sampleServer.serve (.executeRun "run_a" [("default", ["rm"])])
    (List.replicate 17 (sampleWorld "c"))

/-- The gate comes after the records have been replaced. -/
theorem evidence_overwritten : ∃ c c' : sampleServer.Config,
    Library.Run Service.step (sampleServer.initial emptyState) halfVerified c ∧
      Library.Run Service.step c gatedExecution c' ∧
      (∃ res, c'.outcome = some (.ok res) ∧ res.isBlocked = true) ∧
      ¬ KeepsEvidence "run_a" c.moment.state c'.moment.state := by
  have hrun : (Library.exec Service.step (sampleServer.initial emptyState) halfVerified).any
      (fun c => (Library.exec Service.step c gatedExecution).any fun c' =>
        (c'.outcome.any fun r => r.toOption.any (·.isBlocked)) &&
        decide (∃ t ∈ c.moment.state.memory.taskRecords "run_a", HasEvidence t ∧
          ∀ t' ∈ c'.moment.state.memory.taskRecords "run_a", ¬ SameEvidence t t')) = true := by
    decide +kernel
  obtain ⟨c, hc, h⟩ := (Option.any_eq_true _ _).mp hrun
  obtain ⟨c', hc', h⟩ := (Option.any_eq_true _ _).mp h
  obtain ⟨hout, hlost⟩ := Bool.and_eq_true_iff.mp h
  obtain ⟨r, hr, hblocked⟩ := (Option.any_eq_true _ _).mp hout
  obtain ⟨res, hres, hblocked⟩ := (Option.any_eq_true _ _).mp hblocked
  obtain ⟨t, ht, he, hnone⟩ := of_decide_eq_true hlost
  refine ⟨c, c', path_of_exec hc, path_of_exec hc', ⟨res, ?_, hblocked⟩, fun hk => ?_⟩
  · rw [hr, ok_of_toOption hres]
  · obtain ⟨t', ht', hsame⟩ := hk.memory t ht he
    exact hnone t' ht' hsame

def failedExecution : List sampleServer.Label :=
  sampleServer.serve (.executeRun "run_a" [("default", ["rm"])])
    (List.replicate 4 (sampleWorld "c") ++ [{ sampleWorld "c" with fails := true }])

/-- It raises and loses nothing. -/
theorem evidence_survives_failed : ∃ c c' : sampleServer.Config,
    Library.Run Service.step (sampleServer.initial emptyState) halfVerified c ∧
      (∃ e, c'.outcome = some (.error e)) ∧
      (∃ t ∈ c.moment.state.db.loadTasksForRun "run_a", HasEvidence t) ∧
      KeepsEvidence "run_a" c.moment.state c'.moment.state := by
  have hrun : (Library.exec Service.step (sampleServer.initial emptyState) halfVerified).any
      (fun c => decide (∃ t ∈ c.moment.state.db.loadTasksForRun "run_a", HasEvidence t) &&
        (Library.exec Service.step (sampleServer.initial emptyState)
          (halfVerified ++ failedExecution)).any fun c' =>
            (c'.outcome.any fun r => r.toOption.isNone) &&
            decide (Spared "run_a" c.moment.state
              (c'.moment.history.drop c.moment.history.length))) = true := by
    decide +kernel
  obtain ⟨c, hc, h⟩ := (Option.any_eq_true _ _).mp hrun
  obtain ⟨hev, h⟩ := Bool.and_eq_true_iff.mp h
  obtain ⟨c', hc', h⟩ := (Option.any_eq_true _ _).mp h
  obtain ⟨hout, hspared⟩ := Bool.and_eq_true_iff.mp h
  obtain ⟨r, hr, hnone⟩ := (Option.any_eq_true _ _).mp hout
  obtain ⟨c₀, events, hc₀, hs⟩ := evidence_survives (path_of_exec hc') hr rfl
  obtain rfl : c = c₀ := (path_of_exec hc).unique hc₀
  refine ⟨c, c', path_of_exec hc, ?_, of_decide_eq_true hev, hs.kept ?_⟩
  · cases r with
    | error e => exact ⟨e, hr⟩
    | ok res => cases hnone
  · rw [hs.history, List.drop_left] at hspared
    exact of_decide_eq_true hspared

end Sample

end SubagentBridge.Server
