import SubagentBridge.Planner.TaskDagLaws
import SubagentBridge.Server.LifecycleLaws

/-! The parts of a call that only keep books: they look at the workspace, the production system
and the coordinator, and leave runs, tasks, commands and approvals alone. -/

namespace SubagentBridge.Server

open Library Domain Planner Qa Team SqliteStore Execution

variable {B : Type} {host : Host}

def Op.Minor : Op B → Prop
  | .modify f => ∀ m, (f m).runs = m.runs ∧ (f m).tasks = m.tasks ∧
      (f m).runCommands = m.runCommands ∧ (f m).approvedCommands = m.approvedCommands
  | .consumeApproval _ | .upsertRun _ | .upsertTask _ | .upsertDispatch _ | .deletePendingTasks _
  | .deleteRun _ | .runIsolated _ _ | .runQa _ _ => False
  | _ => True

section Parts

variable {runId workspace : String} {commandMap : Dict String (List String)}

theorem only_pendingActionFor (key : String) (cmd : List String) :
    (pendingActionFor host runId key workspace cmd : Call B String).Only Op.Minor := by
  apply Proc.only_op_bind trivial
  intro m
  split
  next => trivial
  next =>
    apply Proc.only_op_bind trivial
    intro actionId
    apply Proc.only_op_bind fun _ => ⟨rfl, rfl, rfl, rfl⟩
    intro _
    exact Proc.only_op_bind trivial fun _ => trivial

theorem only_getProductionSystem : (getProductionSystem workspace : Call B _).Only Op.Minor := by
  apply Proc.only_op_bind trivial
  intro m
  split
  next => trivial
  next =>
    apply Proc.only_op_bind trivial
    rintro ⟨budget, pins⟩
    apply Proc.Only.bind (Proc.only_ofExcept _)
    intro gate
    exact (Proc.only_op _).mpr fun _ => ⟨rfl, rfl, rfl, rfl⟩

theorem only_registerPrincipal (id : String) (role : Role) :
    (registerPrincipal workspace id role : Call B _).Only Op.Minor := by
  apply Proc.only_op_bind trivial
  intro secret
  apply Proc.only_op_bind trivial
  intro m
  split
  next => trivial
  next =>
    apply Proc.Only.bind (Proc.only_ofExcept _)
    rintro ⟨p, identities⟩
    exact Proc.only_op_bind (fun _ => ⟨rfl, rfl, rfl, rfl⟩) fun _ => trivial

theorem minor_setCoordinator (c : SupervisedCoordinator B) :
    (Op.modify fun m => m.setCoordinator workspace c).Minor := by
  intro m
  simp only [Memory.setCoordinator]
  split <;> exact ⟨rfl, rfl, rfl, rfl⟩

theorem only_createCoordinatorForRun (plan : TaskDecomposer.Plan)
    (commands : Dict String (List String)) :
    (createCoordinatorForRun runId workspace plan commands : Call B _).Only Op.Minor := by
  apply Proc.Only.bind (only_registerPrincipal _ _)
  intro pm
  apply Proc.Only.bind (only_registerPrincipal _ _)
  intro developer
  apply Proc.Only.bind (only_registerPrincipal _ _)
  intro qa
  apply Proc.Only.bind (only_registerPrincipal _ _)
  intro executor
  apply Proc.Only.bind (Proc.only_ofExcept _)
  intro run
  apply Proc.only_op_bind trivial
  intro m
  split
  next => trivial
  next =>
    apply Proc.Only.bind (Proc.only_ofExcept _)
    intro c
    exact Proc.only_op_bind (minor_setCoordinator c) fun _ => trivial

theorem only_effectiveCommands :
    (effectiveCommands runId commandMap : Call B _).Only Op.Minor :=
  Proc.only_op_bind trivial fun _ => trivial

end Parts

/-! ## The lifecycle of a run -/

theorem create_order {run : Domain.Run} {tasks : Dict String Task}
    {dependencies : Dict String (List String)} {identities : IdentityRegistry}
    {receipts : ReceiptIssuerRegistry} {budget : B} {hashes : Dict String String}
    {c : SupervisedCoordinator B}
    (h : SupervisedCoordinator.create run tasks dependencies identities receipts budget hashes =
      .ok c) : c.order.Nodup ∧ ∀ id, id ∈ c.order ↔ id ∈ dependencies.keys := by
  simp only [SupervisedCoordinator.create, bind_ok, require_ok] at h
  obtain ⟨_, -, _, -, order, horder, _, -, h⟩ := h
  cases h
  exact validateTaskDag_ok horder

theorem coordinator?_setCoordinator {m : Memory B} {workspace : String} {sys : System B}
    (h : m.systems.get? workspace = some sys) (c : SupervisedCoordinator B) :
    (m.setCoordinator workspace c).coordinator? workspace = some c := by
  simp [Memory.setCoordinator, Memory.coordinator?, h, Dict.get?_set]

structure Lifecycle.For (l : Lifecycle) (runId workspace : String) (plan : TaskDecomposer.Plan)
    (commands : Dict String (List String)) (s : State B) : Prop where
  runId : l.runId = runId
  workspace : l.workspace = workspace
  commands : l.commands = commands
  useStore : l.useStore = true
  order_iff : ∀ id, id ∈ l.orderIn s ↔ id ∈ plan.dependencies.keys

section Prepare

variable {W : World B → Prop} {m : Moment B} {runId workspace : String}

theorem createCoordinatorForRun_returns (plan : TaskDecomposer.Plan)
    (commands : Dict String (List String)) :
    (createCoordinatorForRun runId workspace plan commands).Ensures W (fun _ _ => True)
      (Proc.Returns fun m' l => l.For runId workspace plan commands m'.state) m := by
  apply (ensures_trivial _).first
  intro m₁ pm _
  apply (ensures_trivial _).first
  intro m₂ developer _
  apply (ensures_trivial _).first
  intro m₃ qa _
  apply (ensures_trivial _).first
  intro m₄ executor _
  apply ensures_lift_bind _ fun e _ => Proc.returns_error _
  intro run _
  apply ensures_memory_bind tolerant_true.asking
  intro m₅ h₅ _
  split
  next => exact Proc.returns_error _
  next sys hsys =>
    apply ensures_lift_bind _ fun e _ => Proc.returns_error _
    intro c hc
    apply ensures_modify_bind fun _ => trivial
    intro m₆ h₆ _
    refine (Proc.returns_ok _).mpr ⟨rfl, rfl, rfl, rfl, ?_⟩
    have hsys₅ : m₅.state.memory.systems.get? workspace = some sys := h₅ ▸ hsys
    rw [Lifecycle.orderIn, h₆, coordinator?_setCoordinator hsys₅]
    exact (create_order hc).2

theorem decomposeGoal_ok {goal treeSha policyRevision : String} {plan : TaskDecomposer.Plan}
    (h : TaskDecomposer.decomposeGoal goal runId treeSha policyRevision = .ok plan) :
    plan.records = TaskDecomposer.records goal runId ∧
      plan.dependencies.keys = [TaskDecomposer.pmTaskId runId, TaskDecomposer.devTaskId runId,
        TaskDecomposer.qaTaskId runId] := by
  simp only [TaskDecomposer.decomposeGoal, bind_ok] at h
  obtain ⟨_, -, _, -, _, -, h⟩ := h
  cases h
  exact ⟨rfl, rfl⟩

end Prepare

end SubagentBridge.Server
