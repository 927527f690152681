import SubagentBridge.Planner.Budget
import SubagentBridge.Server.Tools

/-! What the small steps of the tools do: one specification each, for every discipline that
leaves quiet operations alone. -/

namespace SubagentBridge.Server

open Library Domain Planner Qa Team SqliteStore Execution

variable {B : Type}

/-- An operation that writes nothing to the database, starts no process and uses up no
approval. -/
def Op.quiet : Op B → Bool
  | .consumeApproval _ | .upsertRun _ | .upsertTask _ | .upsertDispatch _ | .upsertPendingAction _
  | .deletePendingTasks _ | .deleteRun _ | .runIsolated _ _ | .runQa _ _ => false
  | _ => true

theorem memory_writing (w : World B) (s : State B) (f : Db → Except SqliteStore.Error (Unit × Db)) :
    (writing w s f).2.memory = s.memory := by
  rw [writing]
  split
  next => rfl
  next => split <;> rfl

theorem writing_cases (w : World B) (s : State B) (f : Db → Except SqliteStore.Error (Unit × Db)) :
    (∃ e, writing w s f = (.error e, s)) ∨
      ∃ db, f s.db = .ok ((), db) ∧ writing w s f = (.ok (), { s with db }) := by
  rw [writing]
  split
  next => exact .inl ⟨_, rfl⟩
  next =>
    split
    next db h => exact .inr ⟨db, h, rfl⟩
    next => exact .inl ⟨_, rfl⟩

theorem upsertRun_cases (r : RunRecord) (w : World B) (s : State B) :
    (exec (.upsertRun r) w s).2 = s ∨
      (exec (.upsertRun r) w s).2 = { s with db := s.db.upsertRun r } := by
  rcases writing_cases w s fun db => .ok ((), db.upsertRun r) with ⟨e, he⟩ | ⟨db, hdb, he⟩
  · exact .inl (congrArg Prod.snd he)
  · cases hdb
    exact .inr (congrArg Prod.snd he)

theorem reading_state {α : Type} (w : World B) (s : State B) (f : Db → α) :
    (reading w s f).2 = s := by
  rw [reading]
  split <;> rfl

def Op.changesMemory : Op B → Bool
  | .modify _ | .consumeApproval _ => true
  | _ => false

theorem memory_of_not_changes {o : Op B} (ho : o.changesMemory = false) (w : World B)
    (s : State B) : (exec o w s).2.memory = s.memory := by
  cases o with
  | modify | consumeApproval => cases ho
  | upsertRun | upsertTask | upsertDispatch | upsertPendingAction | deletePendingTasks
  | deleteRun => exact memory_writing _ _ _
  | getRun | loadTasksForRun => exact congrArg State.memory (reading_state _ _ _)
  | _ => rfl

theorem db_of_quiet {o : Op B} (ho : o.quiet = true) (w : World B) (s : State B) :
    (exec o w s).2.db = s.db := by
  cases o with
  | getRun | loadTasksForRun => exact congrArg State.db (reading_state _ _ _)
  | consumeApproval | upsertRun | upsertTask | upsertDispatch | upsertPendingAction
  | deletePendingTasks | deleteRun | runIsolated | runQa => cases ho
  | _ => rfl

def Op.asks (o : Op B) : Prop := o.quiet = true ∧ o.changesMemory = false

theorem Op.asks.state {o : Op B} (ho : o.asks) (w : World B) (s : State B) :
    (exec o w s).2 = s := by
  have hdb := db_of_quiet ho.1 w s
  have hmemory := memory_of_not_changes ho.2 w s
  cases hs : (exec o w s).2 with
  | mk memory db =>
    rw [hs] at hdb hmemory
    cases s
    exact congrArg₂ State.mk hmemory hdb

def AllowsAsking (T : Moment B → Moment B → Prop) : Prop :=
  ∀ o w m, o.asks → T m ((runtime B).after o w m)

def Tolerant (T : Moment B → Moment B → Prop) : Prop :=
  ∀ o w m, o.quiet = true → T m ((runtime B).after o w m)

theorem Tolerant.asking {T : Moment B → Moment B → Prop} (hT : Tolerant T) : AllowsAsking T :=
  fun o w m ho => hT o w m ho.1

def Next (m m' : Moment B) : Prop :=
  ∃ e : ServerEvent B, e.op.quiet = true ∧ m'.history = m.history ++ [e]

theorem tolerant_true : Tolerant fun (_ _ : Moment B) => True := fun _ _ _ _ => trivial

section Rules

variable {W : World B → Prop} {T : Moment B → Moment B → Prop} {m : Moment B} {α β : Type}
variable {Q : Moment B → Except Error β → Prop}

theorem ensures_perform_bind (o : Op B) (f : o.Ret → Call B β)
    (h : ∀ w, possible o w m.state → W w → T m ((runtime B).after o w m) ∧
      (∀ a, (exec o w m.state).1 = .ok a → (f a).Ensures W T Q ((runtime B).after o w m)) ∧
      ∀ e, (exec o w m.state).1 = .error e → Q ((runtime B).after o w m) (.error e)) :
    ((perform o).bind f).Ensures W T Q m := by
  intro w hp hw
  obtain ⟨hT, hok, herr⟩ := h w hp hw
  refine ⟨hT, ?_⟩
  change ((Proc.ofExcept (exec o w m.state).1).bind f).Ensures W T Q _
  cases ha : (exec o w m.state).1 with
  | ok a => exact hok a ha
  | error e => exact herr e ha

theorem ensures_perform (o : Op B) {Q : Moment B → Except Error o.Ret → Prop}
    (h : ∀ w, possible o w m.state → W w →
      T m ((runtime B).after o w m) ∧ Q ((runtime B).after o w m) (exec o w m.state).1) :
    (perform o).Ensures W T Q m := Proc.ensures_op h

theorem ensures_memory_bind (hT : AllowsAsking T) {f : Memory B → Call B β}
    (h : ∀ m', m'.state = m.state → Next m m' → (f m.state.memory).Ensures W T Q m') :
    ((perform .memory).bind f).Ensures W T Q m := by
  apply ensures_perform_bind
  intro w _ _
  refine ⟨hT _ w m ⟨rfl, rfl⟩, ?_, fun e he => by cases he⟩
  intro a ha
  cases ha
  exact h _ rfl ⟨_, rfl, rfl⟩

theorem ensures_modify_bind {g : Memory B → Memory B} {f : Unit → Call B β}
    (hT : ∀ w, T m ((runtime B).after (.modify g) w m))
    (h : ∀ m', m'.state = { m.state with memory := g m.state.memory } → Next m m' →
      (f ()).Ensures W T Q m') : ((perform (.modify g)).bind f).Ensures W T Q m := by
  apply ensures_perform_bind
  intro w _ _
  exact ⟨hT w, fun _ _ => h _ rfl ⟨_, rfl, rfl⟩, fun e he => by cases he⟩

theorem ensures_ask_bind (hT : AllowsAsking T) {o : Op B} {f : o.Ret → Call B β} (ho : o.asks)
    (hok : ∀ m' a, m'.state = m.state → Next m m' → (f a).Ensures W T Q m')
    (herr : ∀ m' e, m'.state = m.state → Next m m' → Q m' (.error e)) :
    ((perform o).bind f).Ensures W T Q m := by
  apply ensures_perform_bind
  intro w _ _
  have hstate : ((runtime B).after o w m).state = m.state := ho.state w m.state
  exact ⟨hT _ w m ho, fun a _ => hok _ a hstate ⟨_, ho.1, rfl⟩,
    fun e _ => herr _ e hstate ⟨_, ho.1, rfl⟩⟩

theorem ensures_read_bind (hT : AllowsAsking T) {o : Op B} {f : o.Ret → Call B β}
    {read : Db → o.Ret} (ha : o.asks) (ho : ∀ w s, exec o w s = reading w s read)
    (hok : ∀ m', m'.state = m.state → Next m m' → (f (read m.state.db)).Ensures W T Q m')
    (herr : ∀ m' e, m'.state = m.state → Next m m' → Q m' (.error e)) :
    ((perform o).bind f).Ensures W T Q m := by
  apply ensures_perform_bind
  intro w _ _
  have hstate : ((runtime B).after o w m).state = m.state := ha.state w m.state
  refine ⟨hT _ w m ha, fun a hanswer => ?_, fun e _ => herr _ e hstate ⟨_, ha.1, rfl⟩⟩
  rw [ho w m.state, reading] at hanswer
  split at hanswer
  next => cases hanswer
  next =>
    cases hanswer
    exact hok _ hstate ⟨_, ha.1, rfl⟩

theorem ensures_lift_bind {x : Except Domain.Error α} {f : α → Call B β}
    (hok : ∀ a, x = .ok a → (f a).Ensures W T Q m)
    (herr : ∀ e, x = .error e → Q m (.error (.raised e))) :
    ((lift x).bind f).Ensures W T Q m := by
  cases x with
  | ok a => exact hok a rfl
  | error e => exact herr e rfl

theorem ensures_trivial (p : Call B β) :
    p.Ensures W (fun _ _ => True) (fun _ _ => True) m := by
  induction p generalizing m with
  | ret a => trivial
  | raise e => trivial
  | call o k ih => exact fun w _ _ => ⟨trivial, ih _⟩

end Rules

/-! ## Runs and tasks in memory -/

def knownRun (s : State B) (runId : String) : Option RunRecord :=
  (s.memory.runs.get? runId).or (s.db.runs.get? runId)

/-- The state after a look at a run: a run that only the database has is in memory now. -/
def cacheRun (s : State B) (runId : String) : State B :=
  match s.memory.runs.get? runId, s.db.runs.get? runId with
  | none, some r => { s with memory := { s.memory with runs := s.memory.runs.set runId r } }
  | _, _ => s

def cacheTasks (s : State B) (runId : String) : State B :=
  match s.memory.tasks.get? runId with
  | none => { s with memory := { s.memory with
      tasks := s.memory.tasks.set runId (s.db.loadTasksForRun runId) } }
  | some _ => s

def knownTasks (s : State B) (runId : String) : List TaskRecord :=
  (s.memory.tasks.get? runId).getD (s.db.loadTasksForRun runId)

/-- `r` is the answer `a` with the state `s'`, or an error with the state `s` as it was. -/
def Answers {α : Type} (s s' : State B) (a : α) (m : Moment B) (r : Except Error α) : Prop :=
  r = .ok a ∧ m.state = s' ∨ (∃ e, r = .error e) ∧ m.state = s

section Finding

variable {W : World B → Prop} {T : Moment B → Moment B → Prop} {m : Moment B}

/-- A discipline that allows a quiet operation from here to the state `s'`. -/
def Allows (T : Moment B → Moment B → Prop) (m : Moment B) (s' : State B) : Prop :=
  ∀ o w m₁, m₁.state = m.state → o.quiet = true → (exec o w m₁.state).2 = s' →
    T m₁ ((runtime B).after o w m₁)

theorem Tolerant.allows (hT : Tolerant T) (s' : State B) : Allows T m s' :=
  fun o w m₁ _ ho _ => hT o w m₁ ho

theorem findRun_ensures {runId : String} (hask : AllowsAsking T)
    (hT : Allows T m (cacheRun m.state runId)) : (findRun runId).Ensures W T
      (Answers m.state (cacheRun m.state runId) (knownRun m.state runId)) m := by
  apply ensures_memory_bind hask
  intro m₁ h₁ _
  simp only [cacheRun, knownRun] at hT ⊢
  cases hr : m.state.memory.runs.get? runId with
  | some r => exact .inl ⟨rfl, h₁⟩
  | none =>
    simp only [hr] at hT
    apply ensures_read_bind hask ⟨rfl, rfl⟩ fun _ _ => rfl
    · intro m₂ h₂ _
      rw [h₁] at h₂
      simp only [h₁, Db.getRun]
      cases hrow : m.state.db.runs.get? runId with
      | none => exact .inl ⟨rfl, h₂⟩
      | some r =>
        simp only [hrow] at hT
        apply ensures_modify_bind
        · exact fun w => hT _ w m₂ h₂ rfl (by rw [h₂]; rfl)
        · intro m₃ h₃ _
          exact .inl ⟨rfl, by rw [h₃, h₂]⟩
    · exact fun m₂ e h₂ _ => .inr ⟨⟨e, rfl⟩, h₂.trans h₁⟩

theorem findTasks_ensures {runId : String} (hask : AllowsAsking T)
    (hT : Allows T m (cacheTasks m.state runId)) : (findTasks runId).Ensures W T
      (Answers m.state (cacheTasks m.state runId) (knownTasks m.state runId)) m := by
  apply ensures_memory_bind hask
  intro m₁ h₁ _
  simp only [cacheTasks, knownTasks] at hT ⊢
  cases hr : m.state.memory.tasks.get? runId with
  | some rs => exact .inl ⟨rfl, h₁⟩
  | none =>
    simp only [hr] at hT
    apply ensures_read_bind hask ⟨rfl, rfl⟩ fun _ _ => rfl
    · intro m₂ h₂ _
      rw [h₁] at h₂
      apply ensures_modify_bind
      · exact fun w => hT _ w m₂ h₂ rfl (by rw [h₂, h₁]; rfl)
      · intro m₃ h₃ _
        exact .inl ⟨by rw [h₁]; rfl, by rw [h₃, h₂, h₁]⟩
    · exact fun m₂ e h₂ _ => .inr ⟨⟨e, rfl⟩, h₂.trans h₁⟩

end Finding

section Saving

variable {W : World B → Prop} {m : Moment B}

def savedStatus (s : State B) (runId : String) (run : RunRecord)
    (status : RunStatus) : State B where
  memory := { s.memory with runs := s.memory.runs.set runId { run with status } }
  db := s.db.upsertRun { run with status }

theorem saveRunStatus_ensures (runId : String) (run : RunRecord) (status : RunStatus) :
    (saveRunStatus runId run status).Ensures W (fun _ _ => True)
      (fun m' r => ∀ u, r = .ok u → m'.state = savedStatus m.state runId run status) m := by
  apply ensures_modify_bind fun _ => trivial
  intro m₁ h₁ _
  apply ensures_perform (.upsertRun { run with status })
  intro w _ _
  refine ⟨trivial, fun u hu => ?_⟩
  simp only [exec] at hu
  change (writing w m₁.state _).2 = _
  rw [writing] at hu ⊢
  split at hu
  next => cases hu
  next hw => simp only [hw, h₁, savedStatus]; rfl

theorem savedStatus_memory (s : State B) (runId : String) (run : RunRecord) (status : RunStatus) :
    (savedStatus s runId run status).memory.runs.get? runId = some { run with status } := by
  simp [savedStatus, Dict.get?_set]

theorem savedStatus_db (s : State B) (runId : String) (run : RunRecord) (status : RunStatus) :
    ((savedStatus s runId run status).db.runs.get? run.runId).map (·.status) = some status := by
  simp only [savedStatus, Db.upsertRun, Dict.get?_set, if_true, Option.map_some]
  split <;> rfl

end Saving

/-! ## A small server -/

section Sample

def sampleHost : Host where
  cwd := "/w"
  resolve := some
  executable := "/bin/py"
  sysPrefix := "/usr"
  basePrefix := "/usr"
  tempDir := "/tmp"
  parse := fun _ => some [.call (some "print") [] 0]
  sha256 := id
  repr := id

def samplePrint : List String := ["/bin/py", "-c", "print()"]

def sampleGoal : Submission := ⟨"g", none, none, false, []⟩

/-- An environment in which everything succeeds; `text` is what is drawn as an identifier. -/
def sampleWorld (text : String) : World BudgetLedger where
  text := text
  system := some (⟨10000, 100000, 3, []⟩, [("tests/t", zeros 64)])
  tree := (some (0, "t1"), "")
  status := some (0, [])
  present := true
  digest := some (zeros 64)
  process := .exited 0 ""
  qaRun := ⟨0, .report (.node "testsuite" [("tests", some 1)] []), ""⟩

abbrev sampleServer : Service (sig BudgetLedger) Error := server BudgetLedger.api sampleHost

def emptyState {B : Type} : State B := ⟨⟨[], [], [], [], [], []⟩, .empty⟩

def completedRun : List sampleServer.Label :=
  sampleServer.serve (.submitGoal sampleGoal) (List.replicate 9 (sampleWorld "a")) ++
    sampleServer.serve (.executeRun "run_a" [("default", samplePrint)])
      (List.replicate 163 (sampleWorld "b"))

end Sample

end SubagentBridge.Server
