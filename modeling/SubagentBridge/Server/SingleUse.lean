import SubagentBridge.Server.GatedCommands

/-! Approvals over whole runs of the server: each serves once. -/

namespace SubagentBridge.Server

open Library Domain Planner Qa Team SqliteStore Execution

variable {B : Type} {api : BudgetApi B} {host : Host}

def spent (h : List (ServerEvent B)) : List String :=
  h.filterMap fun e => match e.op with
    | .consumeApproval fp => some fp
    | _ => none

def Spends (m m' : Moment B) : Prop :=
  m'.state.memory.approvedCommands = m.state.memory.approvedCommands ∧
      spent m'.history = spent m.history ∨
    ∃ fp a, m.state.memory.approvedCommands.get? fp = some a ∧ a.consumed = false ∧
      m'.state.memory.approvedCommands = spend fp m.state.memory.approvedCommands ∧
      spent m'.history = spent m.history ++ [fp]

structure SpentOnce (m : Moment B) : Prop where
  nodup : (spent m.history).Nodup
  served : ∀ fp ∈ spent m.history, ∀ a, m.state.memory.approvedCommands.get? fp = some a →
    a.consumed = true

theorem SpentOnce.step {m m' : Moment B} (h : SpentOnce m) (hs : Spends m m') : SpentOnce m' := by
  rcases hs with ⟨htable, hspent⟩ | ⟨fp, a, ha, hfresh, htable, hspent⟩
  · exact ⟨hspent ▸ h.nodup, by rw [hspent, htable]; exact h.served⟩
  · have hnew : fp ∉ spent m.history := by
      intro hmem
      rw [h.served fp hmem a ha] at hfresh
      cases hfresh
    refine ⟨hspent ▸ List.Nodup.append h.nodup (List.nodup_singleton fp) (by simpa using hnew), ?_⟩
    intro fp' hmem a' ha'
    rw [htable] at ha'
    rw [hspent] at hmem
    cases hc : a'.consumed with
    | true => rfl
    | false =>
      have hold := spend_unconsumed ha' hc
      rcases List.mem_append.mp hmem with hmem | hmem
      · exact (h.served fp' hmem a' hold).symm.trans hc |>.symm
      · cases List.mem_singleton.mp hmem
        rw [spend, ha, Dict.get?_set, if_pos rfl] at ha'
        cases ha'
        cases hc

def Op.KeepsApprovals : Op B → Prop
  | .modify f => ∀ m, (f m).approvedCommands = m.approvedCommands
  | .consumeApproval _ => False
  | _ => True

theorem Op.KeepsGate.approvals {o : Op B} (ho : o.KeepsGate) : o.KeepsApprovals := by
  cases o with
  | modify f => exact fun m => (ho m).1
  | consumeApproval => exact ho
  | _ => trivial

theorem Op.KeepsApprovals.spends {o : Op B} (ho : o.KeepsApprovals) (w : World B) (m : Moment B) :
    Spends m ((runtime B).after o w m) := by
  refine .inl ⟨?_, ?_⟩
  · cases hc : o.changesMemory with
    | false => exact congrArg Memory.approvedCommands (memory_of_not_changes hc w m.state)
    | true =>
      cases o with
      | modify f => exact ho m.state.memory
      | consumeApproval => cases ho
      | _ => cases hc
  · cases o with
    | consumeApproval => cases ho
    | _ => simp [spent, Runtime.after]

theorem spares_spends : Spares (Spends (B := B)) where
  keeps o w m ho := ho.approvals.spends w m
  spends fp a w m ha hfresh := by
    refine .inr ⟨fp, a, ha, hfresh, consumeApproval_approved _ _, ?_⟩
    simp [spent, Runtime.after]

section Tools

variable {W : World B → Prop} {m : Moment B} {α : Type}

theorem spends_of_only {p : Call B α} (hp : p.Only Op.KeepsApprovals) :
    p.Ensures W Spends (fun _ _ => True) m :=
  hp.ensures trivial fun _ w m ho _ _ _ => ⟨ho.spends w m, trivial⟩

theorem spends_of_keepsGate {p : Call B α} (hp : p.Only Op.KeepsGate) :
    p.Ensures W Spends (fun _ _ => True) m := spends_of_only (hp.mono fun _ ho => ho.approvals)

theorem spends_perform_bind {β : Type} {o : Op B} (ho : o.KeepsApprovals) {f : o.Ret → Call B β}
    (hf : ∀ m a, (f a).Ensures W Spends (fun _ _ => True) m) :
    ((perform o).bind f).Ensures W Spends (fun _ _ => True) m :=
  (spends_of_only ((Proc.only_op (S := sig B) o).mpr ho)).seq hf

theorem only_resolvePath (A : Op B → Prop) (path : String) : (resolvePath host path).Only A := by
  rw [resolvePath]
  split <;> trivial

theorem execute_spends {l : Lifecycle} :
    (l.execute api).Ensures W Spends (fun _ _ => True) m := by
  apply l.execute_steps.mono _ fun _ _ _ => trivial
  intro m m' hstep
  obtain ⟨happroved, e, he, hfp, -⟩ := steps_event hstep
  refine .inl ⟨happroved, ?_⟩
  rw [he, spent, List.filterMap_append, ← spent]
  cases hop : e.op with
  | consumeApproval fp => exact absurd hop (hfp fp)
  | _ => simp [hop]

theorem executeCommands_spends (runId workspace : String) (run : RunRecord)
    (plan : TaskDecomposer.Plan) (commands : Dict String (List String)) :
    (executeCommands api host runId workspace run plan commands).Ensures W Spends
      (fun _ _ => True) m := by
  apply Proc.Ensures.seq
    ((gateCommands_ensures spares_spends commands .refl).post fun _ _ _ => trivial)
  intro m₁ gated
  split
  next reason actionId => exact spends_of_keepsGate (only_block reason actionId run)
  next =>
    apply spends_perform_bind (o := .openWorkspace workspace) trivial
    intro m₂ _
    apply Proc.Ensures.seq
      (spends_of_keepsGate (only_minor (only_createCoordinatorForRun plan commands)))
    intro m₃ l
    apply Proc.Ensures.seq execute_spends
    exact fun m₄ result => spends_of_keepsGate (only_settleRun run result)

theorem executeRun_spends (runId : String) (commandMap : Dict String (List String)) :
    (executeRun api host runId commandMap).Ensures W Spends (fun _ _ => True) m := by
  apply Proc.Ensures.seq (spends_of_keepsGate only_findRun)
  intro m₁ found
  split
  next => trivial
  next run =>
    split
    next => exact spends_of_keepsGate (Proc.only_op_bind trivial fun _ => trivial)
    next =>
      apply Proc.Ensures.seq (spends_of_keepsGate (only_resolvePath _ _))
      intro m₂ workspace
      apply Proc.Ensures.seq (spends_of_keepsGate (only_minor only_getProductionSystem))
      intro m₃ _
      apply spends_perform_bind (o := .inspectTree workspace) trivial
      intro m₄ tree
      apply Proc.Ensures.seq (spends_of_keepsGate (Proc.only_ofExcept _))
      intro m₅ plan
      apply Proc.Ensures.seq (spends_of_keepsGate (only_registerTasks plan.records))
      intro m₆ _
      apply Proc.Ensures.seq (spends_of_keepsGate (only_minor only_effectiveCommands))
      intro m₇ commands
      exact executeCommands_spends _ _ _ _ _

theorem only_findTasks (runId : String) : (findTasks runId : Call B _).Only Op.KeepsGate := by
  apply Proc.only_op_bind trivial
  intro m
  split
  next => trivial
  next =>
    apply Proc.only_op_bind trivial
    intro rs
    exact Proc.only_op_bind (fun _ => ⟨rfl, rfl⟩) fun _ => trivial

theorem only_getTaskEvidence (runId taskId : String) :
    (getTaskEvidence runId taskId : Call B _).Only Op.KeepsGate := by
  apply Proc.Only.bind (only_findTasks runId)
  intro rs
  split <;> trivial

theorem executeTask_spends (runId taskId : String) (command : List String) :
    (executeTask api host runId taskId command).Ensures W Spends (fun _ _ => True) m := by
  apply spends_perform_bind (o := .memory) trivial
  intro m₁ memory
  apply Proc.Ensures.seq (executeRun_spends runId _)
  intro m₂ res
  split
  next => trivial
  next =>
    apply Proc.Ensures.seq (spends_of_keepsGate (only_getTaskEvidence runId taskId))
    intro m₃ evidence
    exact spends_of_keepsGate (Proc.only_op_bind trivial fun _ => trivial)

theorem only_withdrawSubmission (runId : String) :
    (withdrawSubmission runId : Call B _).Only Op.KeepsApprovals := by
  apply Proc.only_op_bind fun _ => rfl
  exact fun _ => Proc.Only.tryCatch ((Proc.only_op _).mpr trivial) fun _ => trivial

theorem submitGoal_spends (q : Submission) :
    (submitGoal api host q).Ensures W Spends (fun _ _ => True) m := by
  rw [submitGoal]
  split
  next => trivial
  next =>
    apply Proc.Ensures.seq (spends_of_keepsGate (only_resolvePath _ _))
    intro m₁ workspace
    apply spends_perform_bind (o := .uuid4) trivial
    intro m₂ hex
    apply spends_perform_bind (o := .uuid4) trivial
    intro m₃ hex'
    apply Proc.Ensures.seq (spends_of_only (Proc.only_when ((Proc.only_op _).mpr fun _ => rfl)))
    intro m₄ _
    apply Proc.Ensures.seq
    · apply spends_of_keepsGate
      apply Proc.only_op_bind trivial
      intro _
      apply Proc.only_op_bind trivial
      exact fun _ => (Proc.only_op _).mpr fun _ => ⟨rfl, rfl⟩
    · intro m₅ _
      apply Proc.Ensures.seq
      · apply spends_of_keepsGate
        apply Proc.Only.tryCatch
        · apply Proc.Only.bind (only_minor only_getProductionSystem)
          exact fun _ => Proc.only_op_bind trivial fun _ => trivial
        · exact fun _ => trivial
      · intro m₆ audited
        split
        next =>
          apply Proc.Ensures.seq (spends_of_only (only_withdrawSubmission _))
          exact fun _ _ => trivial
        next =>
          split
          next => exact executeRun_spends _ _
          next => trivial

theorem only_cancelTasks (runId : String) (done rs : List TaskRecord) :
    (cancelTasks runId done rs : Call B _).Only Op.KeepsGate := by
  induction rs generalizing done with
  | nil => trivial
  | cons t rs ih =>
    rw [cancelTasks]
    split
    next => exact ih _
    next =>
      apply Proc.only_op_bind fun _ => ⟨rfl, rfl⟩
      intro _
      exact Proc.only_op_bind trivial fun _ => ih _

theorem cancelRun_spends (runId reason : String) :
    (cancelRun host runId reason : Call B _).Ensures W Spends (fun _ _ => True) m := by
  apply Proc.Ensures.seq (spends_of_keepsGate only_findRun)
  intro m₁ found
  split
  next => trivial
  next run =>
    apply Proc.Ensures.seq (spends_of_keepsGate (only_saveRunStatus run .cancelled))
    intro m₂ _
    apply Proc.Ensures.seq (spends_of_keepsGate (only_findTasks runId))
    intro m₃ rs
    apply Proc.Ensures.seq (spends_of_keepsGate (only_cancelTasks runId [] rs))
    intro m₄ _
    apply Proc.Ensures.seq
    · apply spends_of_keepsGate
      apply Proc.Only.tryCatch
      · apply Proc.Only.bind (only_resolvePath _ _)
        intro workspace
        apply Proc.Only.bind (only_minor only_getProductionSystem)
        exact fun _ => (Proc.only_op _).mpr trivial
      · exact fun _ => trivial
    · exact fun _ _ => trivial

theorem body_spends (q : Request) :
    (body api host q).Ensures W Spends (fun _ _ => True) m := by
  cases q with
  | submitGoal q => exact submitGoal_spends q
  | executeRun runId commands => exact executeRun_spends runId commands
  | executeTask runId taskId command => exact executeTask_spends runId taskId command
  | cancelRun runId reason => exact cancelRun_spends runId reason
  | getRun runId =>
    apply Proc.Ensures.seq (spends_of_keepsGate only_findRun)
    intro m₁ found
    split
    next => trivial
    next => exact Proc.Ensures.seq (spends_of_keepsGate (only_findTasks runId)) fun _ _ => trivial
  | listTasks runId =>
    exact Proc.Ensures.seq (spends_of_keepsGate (only_findTasks runId)) fun _ _ => trivial
  | getTaskEvidence runId taskId => exact spends_of_keepsGate (only_getTaskEvidence runId taskId)

end Tools

theorem SpentOnce.restart {m : Moment B} (h : SpentOnce m) :
    SpentOnce ⟨rehydrate m.state, m.history⟩ :=
  ⟨h.nodup, fun _ _ a ha => by cases ha⟩

theorem spentOnce_of_run {s₀ : State B} {ls : List (server api host).Label}
    {c : (server api host).Config}
    (hrun : Library.Run Service.step ((server api host).initial s₀) ls c) : SpentOnce c.moment := by
  have hsecured : Service.Secured (fun _ => True) (fun _ => Spends) SpentOnce SpentOnce c := by
    apply Service.secured (A := fun _ _ => True) (fun c l _ => by cases l <;> trivial) ?_
      (fun _ _ _ h hs => h.step hs) (fun _ h => h) (fun _ h => h.restart) ?_ hrun
    · intro q m _ h
      exact ((body_spends q).keeps h fun _ _ h hs => h.step hs).post fun _ _ hk => hk.2
    · exact ⟨List.nodup_nil, fun _ hmem => by cases hmem⟩
  exact hsecured.always

/-- The gate is complete.  Wherever an execution starts from, every developer's process is
authorized when it is started, and an entry that was gated at its turn has blocked the run; and
no approval serves twice, however many calls and restarts there are. -/
theorem default_deny (s₀ : State B) (ls : List (server api host).Label)
    (c : (server api host).Config) (m : Moment B) (runId : String)
    (commandMap : Dict String (List String)) :
    (executeRun api host runId commandMap).Ensures (fun _ => True)
        (StartsAuthorized host runId commandMap m) (BlocksGated host runId commandMap m) m ∧
      (Library.Run Service.step ((server api host).initial s₀) ls c →
        (spent c.moment.history).Nodup) :=
  ⟨executeRun_ensures m, fun hrun => (spentOnce_of_run hrun).nodup⟩

end SubagentBridge.Server
