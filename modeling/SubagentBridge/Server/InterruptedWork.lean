import SubagentBridge.Server.Deeds

/-! Tasks that were in flight when the server was killed. -/

namespace SubagentBridge.Server

open Library Domain Planner Qa Team SqliteStore Execution

variable {B : Type} {api : BudgetApi B} {host : Host}

def Op.startsTask (taskId : String) : Op B → Bool
  | .runIsolated id _ | .runQa id _ => id = taskId
  | _ => false

structure HasRow (runId taskId : String) (m : Moment B) : Prop where
  tidy : Tidy m.state
  row : ∃ row, m.state.db.tasks.get? taskId = some row ∧ row.runId = runId

/-- An operation of the call `q` starts no process for the task, and it writes the row of the
task only if the call cancels. -/
structure SparesTask (taskId : String) (q : Request) (m m' : Moment B) : Prop where
  next : ∃ e, m'.history = m.history ++ [e] ∧ e.op.startsTask taskId = false
  row : q.cancels = false → m'.state.db.tasks.get? taskId = m.state.db.tasks.get? taskId

section Deeds

variable {strict : Prop} {rights : Rights} {runId runId' taskId : String} {s s' : State B}
variable {o : Op B} {m m' : Moment B} {q : Request}

theorem Look.quiet (h : Look runId s s' o) : o.startsTask taskId = false := by
  cases h with
  | idle ho =>
    cases o with
    | runIsolated | runQa => cases ho
    | _ => rfl
  | run ho | tasks ho =>
    cases o with
    | runIsolated | runQa => cases ho
    | _ => rfl

theorem Look.row (h : Look runId s s' o) : s'.db.tasks = s.db.tasks := by
  cases h with
  | idle _ hs => exact hs.rows
  | run _ hs =>
    rw [hs, cacheRun]
    split <;> rfl
  | tasks _ hs =>
    rw [hs, cacheTasks]
    split <;> rfl

theorem Deed.process (hd : Deed strict rights runId s s' o) (ho : o.startsTask taskId = true) :
    rights.execute ∧ Decomposed runId taskId := by
  cases hd with
  | looks hl =>
    rw [hl.quiet] at ho
    cases ho
  | works l id hex _ _ hid he =>
    cases he with
    | asks hq =>
      cases o with
      | runIsolated | runQa => cases hq
      | _ => cases ho
    | develops | tests =>
      obtain rfl := of_decide_eq_true ho
      exact ⟨hex, hid⟩
    | _ => cases ho
  | _ => cases ho

theorem Deed.written (hd : Deed strict rights runId s s' o) (hex : ¬ rights.execute)
    (hsub : ¬ rights.submit) : s'.db.tasks = s.db.tasks ∨
      rights.cancel ∧ ∃ t, Wrote s s' (Db.upsertTask t) := by
  cases hd with
  | looks hl => exact .inl hl.row
  | marks _ _ _ _ _ _ hs | installs _ _ _ hs => exact .inl (hs ▸ rfl)
  | stores _ hw =>
    rcases hw with rfl | ⟨db, hdb, rfl⟩
    · exact .inl rfl
    · cases hdb
      exact .inl rfl
  | clears h | registers h | works _ _ h => exact absurd h hex
  | cancels h _ _ _ _ hw => exact .inr ⟨h, _, hw⟩
  | opens h | starts h | remembers _ _ h | forgets h | withdraws h => exact absurd h hsub

theorem Wrote.row {t row : TaskRecord} (hw : Wrote s s' (Db.upsertTask t))
    (hrow : s.db.tasks.get? taskId = some row) :
    ∃ row', s'.db.tasks.get? taskId = some row' ∧ row'.runId = row.runId := by
  rcases hw with rfl | ⟨db, hdb, rfl⟩
  · exact ⟨row, hrow, rfl⟩
  · rcases upsertTask_cases hdb with ⟨row', hrow', rfl⟩ | ⟨hnone, -, rfl⟩
    · simp only [Dict.get?_set]
      split
      next hid =>
        subst hid
        cases hrow.symm.trans hrow'
        exact ⟨_, rfl, rfl⟩
      next => exact ⟨row, hrow, rfl⟩
    · simp only [Dict.get?_set]
      split
      next hid =>
        subst hid
        rw [hnone] at hrow
        cases hrow
      next => exact ⟨row, hrow, rfl⟩

/-- What may execute the tasks of the run, or write their rows, is not the call `q`. -/
structure Barred (q : Request) (rights : Rights) : Prop where
  execute : ¬ rights.execute
  submit : ¬ rights.submit
  cancel : q.cancels = false → ¬ rights.cancel

theorem Does.spares (hm : HasRow runId' taskId m) (hid : Decomposed runId' taskId)
    (hbarred : runId = runId' → Barred q rights) (hd : Does strict rights runId m m') :
    SparesTask taskId q m m' ∧ HasRow runId' taskId m' := by
  obtain ⟨e, he, hd⟩ := hd
  obtain ⟨row, hrow, hrun⟩ := hm.row
  have htidy := hd.tidy hm.tidy
  have hprocess : e.op.startsTask taskId = false := by
    by_contra hne
    obtain ⟨hex, hid'⟩ := hd.process (by simpa using hne)
    exact (hbarred (hid'.injective hid)).execute hex
  by_cases heq : runId = runId'
  · obtain ⟨hex, hsub, hcan⟩ := hbarred heq
    rcases hd.written hex hsub with hsame | ⟨hcancel, t, hw⟩
    · refine ⟨⟨⟨e, he, hprocess⟩, fun _ => by rw [hsame]⟩, htidy, row, ?_, hrun⟩
      rw [hsame]
      exact hrow
    · obtain ⟨row', hrow', hrun'⟩ := hw.row hrow
      exact ⟨⟨⟨e, he, hprocess⟩, fun hq => absurd hcancel (hcan hq)⟩, htidy, row', hrow',
        hrun'.trans hrun⟩
  · have hfirst : isFirst taskId = false :=
      not_isFirst (hrun ▸ (hm.tidy.rows _ _ hrow).2.1.1) hid
    have hsame : m'.state.db.tasks.get? taskId = some row :=
      ((hd.elsewhere hm.tidy).rows taskId row hfirst (hrun ▸ Ne.symm heq)).mpr hrow
    exact ⟨⟨⟨e, he, hprocess⟩, fun _ => hsame.trans hrow.symm⟩, htidy, row, hsame, hrun⟩

end Deeds

section Runs

variable {runId taskId : String}

def KeepsOff (api : BudgetApi B) (host : Host) (runId : String) :
    Service.Conditions (server api host) where
  request q m := q.executes = some runId → ¬ Executable host m.state runId

theorem body_spares_task {q : Request} {m : Moment B} (hid : Decomposed runId taskId)
    (hoff : (KeepsOff api host runId).request q m) (hm : HasRow runId taskId m) :
    (body api host q).EnsuresOn (KeepsOff api host runId).act
      (fun m m' => SparesTask taskId q m m' ∧ HasRow runId taskId m') (fun _ _ => True) m := by
  have hmem : runId ∈ m.state.db.runs.keys := by
    obtain ⟨row, hrow, hrun⟩ := hm.row
    exact hrun ▸ (hm.tidy.rows _ _ hrow).2.2
  have hbody : (body api host q).EnsuresOn (KeepsOff api host runId).act
      (CallDoes False host q m.state) (fun _ _ => True) m :=
    body_does False.elim hm.tidy q False.elim
  apply (hbody.under hm fun m₁ m₂ hm₁ hd => ?_).mono (fun _ _ => id) fun _ _ _ => trivial
  obtain ⟨id, hworks, hd⟩ := hd
  have hspares := hd.spares hm₁ hid (q := q) ?_
  · exact ⟨hspares, hspares.2⟩
  · rintro rfl
    have hrun : q.run? = some id := hworks.resolve_right fun hnew => hnew.2 hmem
    refine ⟨?_, fun hnone => ?_, fun hq hcancel => ?_⟩
    · rintro (hnone | ⟨hex, he⟩)
      · rw [hrun] at hnone
        cases hnone
      · exact hoff hex he
    · rw [Request.may, hrun] at hnone
      cases hnone
    · rw [Request.may, hq] at hcancel
      cases hcancel

theorem HasRow.restarted {m : Moment B} (hm : HasRow runId taskId m) :
    HasRow runId taskId ⟨rehydrate m.state, m.history⟩ := by
  refine ⟨hm.tidy.rehydrate, ?_⟩
  obtain ⟨row, hrow, hrun⟩ := hm.row
  refine ⟨Db.resetStatus row, ?_, ?_⟩
  · change m.state.db.resetStaleActiveTasks.tasks.get? taskId = _
    rw [get?_resetStaleActiveTasks, hrow]
    rfl
  · rw [Db.resetStatus]
    split <;> exact hrun

abbrev Upheld (api : BudgetApi B) (host : Host) (runId taskId : String)
    (c : (server api host).Config) : Prop :=
  Service.Upheld (KeepsOff api host runId)
    (fun q m m' => SparesTask taskId q m m' ∧ HasRow runId taskId m') (HasRow runId taskId) c

theorem upheld {c c' : (server api host).Config} {ls : List (server api host).Label}
    (hid : Decomposed runId taskId) (h : Upheld api host runId taskId c)
    (hrun : Path Service.step (KeepsOff api host runId).Met c ls c') :
    Upheld api host runId taskId c' :=
  Service.upheld (fun _ _ hoff hm => body_spares_task hid hoff hm) (fun _ _ _ _ hd => hd.2)
    (fun _ _ hm => hm.restarted) h hrun

theorem tidy_of_run {c : (server api host).Config} {ls : List (server api host).Label}
    (hrun : Library.Run Service.step ((server api host).initial emptyState) ls c) :
    Tidy c.moment.state := by
  let free : Service.Conditions (server api host) := {}
  have hpath : Path Service.step free.Met ((server api host).initial emptyState) ls c := by
    refine hrun.mono fun c l _ => ?_
    cases l with
    | act w => rw [Service.Conditions.Met]; split <;> trivial
    | _ => trivial
  have hstart : Service.Upheld free (fun _ m m' => Tidy m.state → Tidy m'.state)
      (fun m => Tidy m.state) ((server api host).initial emptyState) :=
    ⟨tidy_emptyState, fun _ _ hc => (by cases hc)⟩
  refine (Service.upheld (fun q m _ hm => ?_) (fun _ _ _ hm hT => hT hm)
    (fun _ _ hm => hm.rehydrate) hstart hpath).always
  have hbody : (body api host q).EnsuresOn free.act (CallDoes False host q m.state)
      (fun _ _ => True) m := body_does False.elim hm q False.elim
  apply hbody.mono
  · rintro m₁ m₂ ⟨_, -, hd⟩
    exact hd.tidy
  · exact fun _ _ => id

theorem decomposed_of_inFlight {s : State B} {t : TaskRecord} (h : Tidy s)
    (hrow : s.db.tasks.get? taskId = some t) (hflight : t.status.inFlight = true) :
    Decomposed t.runId taskId := by
  obtain ⟨hid, ⟨-, ho⟩, -⟩ := h.rows _ _ hrow
  rcases ho with ho | ⟨-, hst | hst⟩
  · exact hid ▸ ho
  · rw [hst] at hflight
    cases hflight
  · rw [hst] at hflight
    cases hflight

structure LeftAlone (taskId : String) (m : Moment B) (ls : List (server api host).Label)
    (c : (server api host).Config) : Prop where
  history : ∃ h, c.moment.history = m.history ++ h ∧ ∀ e ∈ h, e.op.startsTask taskId = false
  calls : ∀ q p, c.call = some (q, p) → .request q ∈ ls
  status : (∀ q, .request q ∈ ls → q.cancels = false) →
    (c.moment.state.db.tasks.get? taskId).map (·.status) = some .recoveryRequired

theorem LeftAlone.step {m : Moment B} {ls : List (server api host).Label}
    {c c' : (server api host).Config} {l : (server api host).Label}
    (h : LeftAlone taskId m ls c) (hup : Upheld api host runId taskId c)
    (hl : (KeepsOff api host runId).Met c l) (hs : Service.step c l = some c') :
    LeftAlone taskId m (ls ++ [l]) c' := by
  obtain ⟨hist, hhist, hquiet⟩ := h.history
  have holder {q : Request} (hq : .request q ∈ ls) : .request q ∈ ls ++ [l] :=
    List.mem_append_left _ hq
  cases l with
  | request q =>
    simp only [Service.step] at hs
    split at hs
    next =>
      cases hs
      refine ⟨⟨hist, hhist, hquiet⟩, fun q' p hc => ?_, fun hq => h.status fun q hq' =>
        hq q (holder hq')⟩
      cases hc
      exact List.mem_append_right _ (List.mem_singleton_self _)
    next => cases hs
  | act w =>
    obtain ⟨q, ⟨p, hc⟩, hspares, -⟩ := hup.transition hl hs
    obtain ⟨e, he, hprocess⟩ := hspares.next
    refine ⟨⟨hist ++ [e], by rw [he, hhist, List.append_assoc], ?_⟩,
      fun q' p' hc' => ?_, fun hq => ?_⟩
    · intro e' he'
      rcases List.mem_append.mp he' with he' | he'
      · exact hquiet e' he'
      · rw [List.mem_singleton.mp he']
        exact hprocess
    · obtain ⟨q₁, o, k, hc₁, -, rfl⟩ := Service.step_act hs
      cases hc'
      exact holder (h.calls _ _ hc₁)
    · rw [hspares.row (hq q (holder (h.calls q p hc)))]
      exact h.status fun q hq' => hq q (holder hq')
  | restart =>
    cases hs
    refine ⟨⟨hist, hhist, hquiet⟩, fun q p hc => (by cases hc), fun hq => ?_⟩
    obtain ⟨row, hrow, hst⟩ :=
      Option.map_eq_some_iff.mp (h.status fun q hq' => hq q (holder hq'))
    change (c.moment.state.db.resetStaleActiveTasks.tasks.get? taskId).map (·.status) = _
    simp [get?_resetStaleActiveTasks, hrow, Db.resetStatus, TaskStatus.inFlight, hst]

/-- After a crash in the middle of a task, and whatever is called then, the task is left as the
new process found it, if its run is not executed while that could do something. -/
theorem interrupted_left_alone {ls₁ ls₂ : List (server api host).Label}
    {c₁ c₂ : (server api host).Config} {t : TaskRecord}
    (h₁ : Library.Run Service.step ((server api host).initial emptyState) ls₁ c₁)
    (hrow : c₁.moment.state.db.tasks.get? taskId = some t) (hflight : t.status.inFlight = true)
    (h₂ : Path Service.step (KeepsOff api host t.runId).Met c₁ (.restart :: ls₂) c₂) :
    ((rehydrate c₁.moment.state).db.tasks.get? taskId).map (·.status) = some .recoveryRequired ∧
    LeftAlone taskId c₁.moment ls₂ c₂ ∧
    ∀ w c', (KeepsOff api host t.runId).Met c₂ (.act w) →
      Service.step c₂ (.act w) = some c' → ∀ q p, c₂.call = some (q, p) → q.cancels = false →
      c'.moment.state.db.tasks.get? taskId = c₂.moment.state.db.tasks.get? taskId := by
  have htidy := tidy_of_run h₁
  have hid := decomposed_of_inFlight htidy hrow hflight
  have hstatus : ((rehydrate c₁.moment.state).db.tasks.get? taskId).map (·.status) =
      some .recoveryRequired := by
    change (c₁.moment.state.db.resetStaleActiveTasks.tasks.get? taskId).map (·.status) = _
    simp [get?_resetStaleActiveTasks, hrow, Db.resetStatus, hflight]
  obtain ⟨c, -, hs, hpath⟩ := h₂.uncons
  cases hs
  have hstart : Upheld api host t.runId taskId
      ⟨⟨rehydrate c₁.moment.state, c₁.moment.history⟩, none⟩ := by
    have hm : HasRow t.runId taskId c₁.moment := ⟨htidy, t, hrow, rfl⟩
    exact ⟨hm.restarted, fun _ _ hc => (by cases hc)⟩
  refine ⟨hstatus, ?_, fun w c' hl hs q p hc hq => ?_⟩
  · have halone : LeftAlone taskId c₁.moment []
        (⟨⟨rehydrate c₁.moment.state, c₁.moment.history⟩, none⟩ : (server api host).Config) :=
      ⟨⟨[], by simp, by simp⟩, fun _ _ hc => (by cases hc), fun _ => hstatus⟩
    clear h₂
    induction hpath with
    | refl => exact halone
    | tail hpath hl hs ih => exact ih.step (upheld hid hstart hpath) hl hs
  · obtain ⟨q', ⟨p', hc'⟩, hspares, -⟩ := (upheld hid hstart hpath).transition hl hs
    cases hc.symm.trans hc'
    exact hspares.row hq

end Runs

section Sample

def interruptedRun : List sampleServer.Label :=
  sampleServer.serve (.submitGoal sampleGoal) (List.replicate 9 (sampleWorld "a")) ++
    sampleServer.serve (.executeRun "run_a" [("default", samplePrint)])
      (List.replicate 45 (sampleWorld "b"))

def redoneRun : List sampleServer.Label :=
  .restart :: sampleServer.serve (.executeRun "run_a" [("default", samplePrint)])
    (List.replicate 50 (sampleWorld "c"))

/-- An execution after the crash starts the task once more. -/
theorem interrupted_redone : ∃ c₁ c₂ : sampleServer.Config,
    Library.Run Service.step (sampleServer.initial emptyState) interruptedRun c₁ ∧
    (c₁.moment.state.db.tasks.get? "run_a_pm").any (·.status.inFlight) = true ∧
    Library.Run Service.step c₁ redoneRun c₂ ∧
    (∃ e ∈ c₂.moment.history.drop c₁.moment.history.length,
      e.op.startsTask "run_a_pm" = true) ∧
    (c₂.moment.state.db.tasks.get? "run_a_pm").map (·.status) ≠ some .recoveryRequired := by
  have hrun : (Library.exec Service.step (sampleServer.initial emptyState) interruptedRun).any
      (fun c₁ => (c₁.moment.state.db.tasks.get? "run_a_pm").any (·.status.inFlight) &&
        (Library.exec Service.step c₁ redoneRun).any fun c₂ =>
          (c₂.moment.history.drop c₁.moment.history.length).any
            (·.op.startsTask "run_a_pm") &&
          decide ((c₂.moment.state.db.tasks.get? "run_a_pm").map (·.status) ≠
            some .recoveryRequired)) = true := by
    decide +kernel
  obtain ⟨c₁, hc₁, h⟩ := (Option.any_eq_true _ _).mp hrun
  obtain ⟨hflight, h⟩ := Bool.and_eq_true_iff.mp h
  obtain ⟨c₂, hc₂, h⟩ := (Option.any_eq_true _ _).mp h
  obtain ⟨hstarts, hrow⟩ := Bool.and_eq_true_iff.mp h
  exact ⟨c₁, c₂, path_of_exec hc₁, hflight, path_of_exec hc₂, List.any_eq_true.mp hstarts,
    of_decide_eq_true hrow⟩

instance (s : State B) (runId : String) : Decidable (Executable host s runId) :=
  decidable_of_iff ((knownRun s runId).any fun run =>
    isOver run.status = false ∧ host.resolve run.workspacePath ≠ none) (by
      simp [Executable, Option.any_eq_true])

instance decidable_keepsOff (q : Request) (s : State B) (runId : String) :
    Decidable (q.executes = some runId → ¬ Executable host s runId) := inferInstance

instance (runId : String) (c : (server api host).Config) :
    (l : (server api host).Label) → Decidable ((KeepsOff api host runId).Met c l)
  | .request q => decidable_keepsOff q c.moment.state runId
  | .act w => isTrue (by rw [Service.Conditions.Met]; split <;> trivial)
  | .restart => isTrue trivial

def laterCalls : List sampleServer.Label :=
  sampleServer.serve (.submitGoal sampleGoal) (List.replicate 9 (sampleWorld "d")) ++
    sampleServer.serve (.executeRun "run_d" [("default", samplePrint)])
      (List.replicate 45 (sampleWorld "e")) ++
    .restart :: sampleServer.serve (.listTasks "run_a") [sampleWorld "f"]

/-- After the crash another goal is submitted, its run is executed until the server is killed
once more, and then the tasks of the first run are asked for. -/
theorem interrupted_outlived : ∃ c₁ c₂ : sampleServer.Config,
    c₂.outcome.isSome = true ∧
    (∃ e ∈ c₂.moment.history.drop c₁.moment.history.length,
      e.op.startsTask "run_d_pm" = true) ∧
    LeftAlone "run_a_pm" c₁.moment laterCalls c₂ := by
  have hrun : (Library.exec Service.step (sampleServer.initial emptyState) interruptedRun).any
      (fun c₁ => (c₁.moment.state.db.tasks.get? "run_a_pm").any (fun t => t.status.inFlight &&
        (Library.exec (restrict Service.step
          (KeepsOff BudgetLedger.api sampleHost t.runId).Met) c₁ (.restart :: laterCalls)).any
          fun c₂ => c₂.outcome.isSome &&
            (c₂.moment.history.drop c₁.moment.history.length).any
              (·.op.startsTask "run_d_pm"))) = true := by
    decide +kernel
  obtain ⟨c₁, hc₁, h⟩ := (Option.any_eq_true _ _).mp hrun
  obtain ⟨t, hrow, h⟩ := (Option.any_eq_true _ _).mp h
  obtain ⟨hflight, h⟩ := Bool.and_eq_true_iff.mp h
  obtain ⟨c₂, hc₂, h⟩ := run_of_any h
  obtain ⟨hout, hstarts⟩ := Bool.and_eq_true_iff.mp h
  exact ⟨c₁, c₂, hout, List.any_eq_true.mp hstarts,
    (interrupted_left_alone (path_of_exec hc₁) hrow hflight (path_of_restrict hc₂)).2.1⟩

end Sample

end SubagentBridge.Server
