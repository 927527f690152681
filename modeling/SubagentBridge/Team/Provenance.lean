import SubagentBridge.Team.CoordinatorLaws

/-! Where a verified state comes from, in every state that calls reach. -/

namespace SubagentBridge.Team

open Library Domain Planner Qa SupervisedCoordinator

variable {B : Type} {api : BudgetApi B} {uuid4 : Nat → String}

def Initial (s : State B) : Prop :=
  ∃ run tasks dependencies budget hashes,
    create run tasks dependencies .empty .empty budget hashes = .ok s.coordinator ∧ s.calls = 0

/-- The registries hold what registered principals issued, under identifiers drawn so far. -/
structure Issued (uuid4 : Nat → String) (s : State B) : Prop where
  receipts : ∀ k r, s.coordinator.receipts.receipts.get? k = some r →
    s.coordinator.identities.IsMember r.issuerId .executor ∧ ∃ i < s.calls, k = uuid4 i
  verdicts : ∀ k v, s.coordinator.receipts.verdicts.get? k = some v →
    s.coordinator.identities.IsMember v.qaPrincipalId .qa ∧ v.receiptIds ≠ [] ∧
      (∀ i ∈ v.receiptIds, s.coordinator.receipts.Backs v.scope i) ∧ ∃ i < s.calls, k = uuid4 i

section Registries

variable {s t : State B} {q : Call B}

theorem step_effect (h : step api uuid4 s q = some t) :
    Effect (uuid4 s.calls) q s.coordinator t.coordinator ∧ t.calls = s.calls + 1 := by
  cases h
  exact ⟨perform_effect q, rfl⟩

theorem SupervisedCoordinator.Effect.isMember {id : String} {c c' : SupervisedCoordinator B}
    {p : String} {role : Role}
    (he : Effect id q c c') (h : c.identities.IsMember p role) : c'.identities.IsMember p role :=
  let ⟨secret, hs⟩ := h
  ⟨secret, he.members _ _ hs⟩

theorem Issued.kept (hu : Function.Injective uuid4) (hs : Issued uuid4 s)
    (h : step api uuid4 s q = some t) :
    (∀ k r, s.coordinator.receipts.receipts.get? k = some r →
      t.coordinator.receipts.receipts.get? k = some r) ∧
    ∀ k v, s.coordinator.receipts.verdicts.get? k = some v →
      t.coordinator.receipts.verdicts.get? k = some v := by
  obtain ⟨he, -⟩ := step_effect h
  have hnew : ∀ k, (∃ i < s.calls, k = uuid4 i) → uuid4 s.calls ≠ k := by
    rintro k ⟨i, hi, rfl⟩ heq
    exact absurd (hu heq) (by omega)
  cases he.recorded with
  | none hr hv => exact ⟨fun k r => by rw [hr]; exact id, fun k v => by rw [hv]; exact id⟩
  | receipt r' hr hv _ _ =>
    refine ⟨fun k r hk => ?_, fun k v => by rw [hv]; exact id⟩
    rw [hr, Dict.get?_set, if_neg (hnew k (hs.receipts k r hk).2), hk]
  | verdict v' hr hv _ _ _ _ =>
    refine ⟨fun k r => by rw [hr]; exact id, fun k v hk => ?_⟩
    rw [hv, Dict.get?_set, if_neg (hnew k (hs.verdicts k v hk).2.2.2), hk]

theorem Issued.step (hu : Function.Injective uuid4) (hs : Issued uuid4 s)
    (h : step api uuid4 s q = some t) : Issued uuid4 t := by
  obtain ⟨he, hcalls⟩ := step_effect h
  obtain ⟨hkeptR, -⟩ := hs.kept hu h
  have hback : ∀ (sc : Scope) i, s.coordinator.receipts.Backs sc i →
      t.coordinator.receipts.Backs sc i := fun sc i ⟨r, hr, hb⟩ => ⟨r, hkeptR i r hr, hb⟩
  have hdrawn : ∀ k, (∃ i < s.calls, k = uuid4 i) → ∃ i < t.calls, k = uuid4 i :=
    fun k ⟨i, hi, hk⟩ => ⟨i, by omega, hk⟩
  have hlast : ∃ i < t.calls, uuid4 s.calls = uuid4 i := ⟨s.calls, by omega, rfl⟩
  have holdR : ∀ k r, s.coordinator.receipts.receipts.get? k = some r →
      t.coordinator.identities.IsMember r.issuerId .executor ∧ ∃ i < t.calls, k = uuid4 i :=
    fun k r hk => ⟨he.isMember (hs.receipts k r hk).1, hdrawn k (hs.receipts k r hk).2⟩
  have holdV : ∀ k v, s.coordinator.receipts.verdicts.get? k = some v →
      t.coordinator.identities.IsMember v.qaPrincipalId .qa ∧ v.receiptIds ≠ [] ∧
        (∀ i ∈ v.receiptIds, t.coordinator.receipts.Backs v.scope i) ∧
        ∃ i < t.calls, k = uuid4 i := by
    intro k v hk
    obtain ⟨hm, hne, hb, hd⟩ := hs.verdicts k v hk
    exact ⟨he.isMember hm, hne, fun i hi => hback _ i (hb i hi), hdrawn k hd⟩
  cases he.recorded with
  | none hr hv => exact ⟨fun k r hk => holdR k r (hr ▸ hk), fun k v hk => holdV k v (hv ▸ hk)⟩
  | receipt r' hr hv hid hm =>
    refine ⟨fun k r hk => ?_, fun k v hk => holdV k v (hv ▸ hk)⟩
    rw [hr, Dict.get?_set] at hk
    split at hk
    next heq =>
      cases hk
      exact ⟨he.isMember hm, heq ▸ hlast⟩
    next => exact holdR k r hk
  | verdict v' hr hv hid hm hne hb =>
    refine ⟨fun k r hk => holdR k r (hr ▸ hk), fun k v hk => ?_⟩
    rw [hv, Dict.get?_set] at hk
    split at hk
    next heq =>
      cases hk
      exact ⟨he.isMember hm, hne, fun i hi => hback _ i (hb i hi), heq ▸ hlast⟩
    next => exact holdV k v hk

end Registries

/-! ## Verified tasks -/

section Verified

variable {s t : State B} {q : Call B} {id : String} {agg agg' : TaskAggregate}

structure Verifies (api : BudgetApi B) (uuid4 : Nat → String) (s t : State B) (r : QaReview)
    (id : String) (agg : TaskAggregate) (v : QaVerdict) (d : Dispatch) : Prop where
  step : step api uuid4 s (.qaReview r) = some t
  task : r.taskId = id
  reviewer : v.qaPrincipalId = r.qa.principalId
  before : ∃ old, s.coordinator.tasks.get? id = some old ∧ old.state = .processSucceeded
  after : t.coordinator.tasks.get? id = some agg
  state : agg.state = .verified
  accepting : Accepting s.coordinator.testHashes agg.task.acceptanceCriteria agg.task.treeSha
    r.checkout
  verdict : agg.qaVerdict = some v
  dispatch : agg.activeDispatch = some d
  tree : agg.verifiedTreeSha = some agg.task.treeSha
  accepted : v.accepted = true
  scope : v.scope = ⟨agg.task.taskId, d.dispatchId, agg.task.treeSha⟩
  registered : t.coordinator.receipts.verdicts.get? v.verdictId = some v

theorem verified_step (h : step api uuid4 s q = some t)
    (hget : t.coordinator.tasks.get? id = some agg) (hv : agg.state = .verified) :
    s.coordinator.tasks.get? id = some agg ∨
      ∃ r v d, q = .qaReview r ∧ Verifies api uuid4 s t r id agg v d := by
  obtain ⟨he, -⟩ := step_effect h
  cases he.tasks with
  | none ht => exact .inl (ht ▸ hget)
  | one id' old new hold ht hm =>
    have hget' := hget
    rw [ht, Dict.get?_set] at hget'
    split at hget'
    next hid =>
      subst hid
      cases hget'
      cases hm with
      | keyUsed _ hs _ => rw [hs] at hv; cases hv
      | freezes _ hs => rw [hs] at hv; cases hv
      | begins _ _ _ _ _ _ _ hs _ => rcases hs with hs | hs <;> rw [hs] at hv <;> cases hv
      | succeeds _ hs => rw [hs] at hv; cases hv
      | blocks _ hs => rw [hs] at hv; cases hv
      | verifies r d v hq hid hs hd hacc hscope haccepted hqa hreg hnew =>
        subst hq hnew
        exact .inr ⟨r, v, d, rfl,
          ⟨h, hid, hqa, ⟨old, hold, hs⟩, hget, rfl, hacc, rfl, hd, rfl, haccepted, hscope, hreg⟩⟩
      | reconciles _ hs _ => rw [hs] at hv; cases hv
    next => exact .inl hget'
  | trees tree _ ht =>
    rw [ht] at hget
    obtain ⟨old, hold, hr | ⟨rfl, -⟩⟩ := get?_updateAll hget
    · cases hr with
      | kept hs _ => exact .inl (hs ▸ hold)
      | recovers _ hs => rw [hs] at hv; cases hv
      | moves _ hs _ => rcases hs with hs | hs <;> rw [hs] at hv <;> cases hv
    · exact .inl hold

theorem taskId_step (h : step api uuid4 s q = some t)
    (hs : ∀ id agg, s.coordinator.tasks.get? id = some agg → agg.task.taskId = id) :
    ∀ id agg, t.coordinator.tasks.get? id = some agg → agg.task.taskId = id := by
  intro id agg hget
  obtain ⟨he, -⟩ := step_effect h
  cases he.tasks with
  | none ht => exact hs id agg (ht ▸ hget)
  | one id' old new hold ht hm =>
    rw [ht, Dict.get?_set] at hget
    split at hget
    next hid =>
      subst hid
      cases hget
      have hid' := hs _ _ hold
      cases hm with
      | keyUsed _ _ ht => rw [ht, hid']
      | freezes _ hs => rw [hs]; exact hid'
      | begins _ _ _ _ _ _ _ _ ht => rw [ht, hid']
      | succeeds _ hs => rw [hs]; exact hid'
      | blocks _ hs => rw [hs]; exact hid'
      | verifies _ _ _ _ _ _ _ _ _ _ _ _ hs => rw [hs]; exact hid'
      | reconciles _ _ ht => rw [ht, hid']
    next => exact hs id agg hget
  | trees tree _ ht =>
    rw [ht] at hget
    obtain ⟨old, hold, hr | ⟨rfl, -⟩⟩ := get?_updateAll hget
    · cases hr with
      | kept h' _ => rw [h']; exact hs id old hold
      | recovers _ h' => rw [h']; exact hs id old hold
      | moves _ _ h' => rw [h']; exact hs id old hold
    · exact hs id agg hold

theorem initial_tasks (h : Initial s) (hget : s.coordinator.tasks.get? id = some agg) :
    agg.state = .created ∧ agg.task.taskId = id := by
  obtain ⟨run, tasks, dependencies, budget, hashes, hc, -⟩ := h
  simp only [create, bind_ok, require_ok] at hc
  obtain ⟨_, -, _, hids, order, -, _, -, hc⟩ := hc
  rw [← Except.ok.inj hc] at hget
  obtain ⟨p, hp, hpe⟩ := List.mem_map.mp (Dict.mem_of_get? hget)
  cases hpe
  exact ⟨rfl, (hids p hp).1⟩

theorem initial_issued (h : Initial s) : Issued uuid4 s := by
  obtain ⟨run, tasks, dependencies, budget, hashes, hc, -⟩ := h
  simp only [create, bind_ok, require_ok] at hc
  obtain ⟨_, -, _, -, order, -, _, -, hc⟩ := hc
  constructor
  · intro k r hk
    rw [← Except.ok.inj hc] at hk
    cases hk
  · intro k v hk
    rw [← Except.ok.inj hc] at hk
    cases hk

def ReviewedIn (api : BudgetApi B) (uuid4 : Nat → String) (s₀ : State B) (ls : List (Call B))
    (s : State B) (id : String) (agg : TaskAggregate) (v : QaVerdict) (d : Dispatch) : Prop :=
  ∃ ls₁ s₁ r s₂ ls₂, ls = ls₁ ++ .qaReview r :: ls₂ ∧ Library.Run (step api uuid4) s₀ ls₁ s₁ ∧
    Verifies api uuid4 s₁ s₂ r id agg v d ∧ Library.Run (step api uuid4) s₂ ls₂ s

/-- What a run keeps: the registries are as issued, tasks keep their identity, and every
verified task has its review, with the verdict still registered. -/
structure Kept (api : BudgetApi B) (uuid4 : Nat → String) (s₀ : State B) (ls : List (Call B))
    (s : State B) : Prop where
  issued : Issued uuid4 s
  hashes : s.coordinator.testHashes = s₀.coordinator.testHashes
  ids : ∀ id agg, s.coordinator.tasks.get? id = some agg → agg.task.taskId = id
  reviewed : ∀ id agg, s.coordinator.tasks.get? id = some agg → agg.state = .verified →
    ∃ v d, ReviewedIn api uuid4 s₀ ls s id agg v d ∧
      s.coordinator.receipts.verdicts.get? v.verdictId = some v

theorem kept (hu : Function.Injective uuid4) {s₀ : State B} (h₀ : Initial s₀)
    {ls : List (Call B)} (h : Library.Run (step api uuid4) s₀ ls s) : Kept api uuid4 s₀ ls s := by
  induction h with
  | refl =>
    refine ⟨initial_issued h₀, rfl, fun id agg hget => (initial_tasks h₀ hget).2, ?_⟩
    intro id agg hget hv
    rw [(initial_tasks h₀ hget).1] at hv
    cases hv
  | @tail s t ls q hrun _ hst ih =>
    refine ⟨ih.issued.step hu hst, (step_effect hst).1.testHashes.trans ih.hashes,
      taskId_step hst ih.ids, ?_⟩
    intro id agg hget hv
    obtain hold | ⟨r, v, d, rfl, hver⟩ := verified_step hst hget hv
    · obtain ⟨v, d, ⟨ls₁, s₁, r, s₂, ls₂, rfl, h₁, hver, h₂⟩, hreg⟩ := ih.reviewed id agg hold hv
      refine ⟨v, d, ⟨ls₁, s₁, r, s₂, ls₂ ++ [q], by simp, h₁, hver, .tail h₂ trivial hst⟩, ?_⟩
      exact (ih.issued.kept hu hst).2 _ _ hreg
    · exact ⟨v, d, ⟨ls, s, r, t, [], rfl, hrun, hver, .refl⟩, hver.registered⟩

structure Provenance (s : State B) (id : String) (agg : TaskAggregate) (v : QaVerdict)
    (d : Dispatch) : Prop where
  tree : agg.verifiedTreeSha = some agg.task.treeSha
  verdict : agg.qaVerdict = some v
  dispatch : agg.activeDispatch = some d
  registered : s.coordinator.receipts.verdicts.get? v.verdictId = some v
  accepted : v.accepted = true
  scope : v.scope = ⟨id, d.dispatchId, agg.task.treeSha⟩
  issuer : s.coordinator.identities.IsMember v.qaPrincipalId .qa
  backed : ∃ i ∈ v.receiptIds, ∃ r ∈ s.coordinator.receipts.receipts.get? i,
    r.scope = v.scope ∧ r.exitCode = 0 ∧ s.coordinator.identities.IsMember r.issuerId .executor

/-- Every verified task of every reachable state was verified by a QA review of the run,
on the pinned tests, its own tree and its frozen criteria, and the verdict is still
registered, with a successful executor receipt behind it. -/
theorem verified_provenance (hu : Function.Injective uuid4) {s₀ : State B} (h₀ : Initial s₀)
    {ls : List (Call B)} (h : Library.Run (step api uuid4) s₀ ls s)
    (hget : s.coordinator.tasks.get? id = some agg) (hv : agg.state = .verified) :
    ∃ v d, Provenance s id agg v d ∧ ∃ ls₁ s₁ r s₂ ls₂,
      ls = ls₁ ++ .qaReview r :: ls₂ ∧ Library.Run (step api uuid4) s₀ ls₁ s₁ ∧
      Verifies api uuid4 s₁ s₂ r id agg v d ∧ Library.Run (step api uuid4) s₂ ls₂ s ∧
      Accepting s₀.coordinator.testHashes agg.task.acceptanceCriteria agg.task.treeSha
        r.checkout := by
  have hk := kept hu h₀ h
  obtain ⟨v, d, ⟨ls₁, s₁, r, s₂, ls₂, hls, h₁, hver, h₂⟩, hreg⟩ := hk.reviewed id agg hget hv
  obtain ⟨hqa, hne, hback, -⟩ := hk.issued.verdicts _ _ hreg
  refine ⟨v, d, ?_, ls₁, s₁, r, s₂, ls₂, hls, h₁, hver, h₂, (kept hu h₀ h₁).hashes ▸ hver.accepting⟩
  refine ⟨hver.tree, hver.verdict, hver.dispatch, hreg, hver.accepted, ?_, hqa, ?_⟩
  · rw [hver.scope, hk.ids id agg hget]
  · obtain ⟨i, hi⟩ := List.exists_mem_of_ne_nil _ hne
    obtain ⟨receipt, hr, hscope, hexit⟩ := hback i hi
    exact ⟨i, hi, receipt, hr, hscope, hexit, (hk.issued.receipts _ _ hr).1⟩

end Verified

/-! ## A run that verifies -/

section Sample

def sampleUuid (n : Nat) : String := .ofList (List.replicate (n + 1) 'u')

theorem sampleUuid_injective : Function.Injective sampleUuid := by
  intro n m h
  have hlen := congrArg String.length h
  simpa [sampleUuid] using hlen

def principal (role : Role) : Principal := ⟨role.value, role, "token"⟩

def registerCall (role : Role) : Call BudgetLedger := .register role.value role "token"

def sampleTask (taskId tree : String) (dependencies : List String) :
    Option ((String × Task) × String × List String) :=
  (Task.create taskId "run" ["AC"] tree "policy").toOption.map fun t =>
    ((taskId, t), taskId, dependencies)

def sampleStart (specs : List (String × String × List String)) : Option (State BudgetLedger) := do
  let tasks ← specs.mapM fun (taskId, tree, dependencies) => sampleTask taskId tree dependencies
  let c ← (create ⟨"run", "project", "policy"⟩ (tasks.map (·.1)) (tasks.map (·.2)) .empty .empty
    (⟨100, 100, 10, []⟩ : BudgetLedger) [("tests/t", .ofList (List.replicate 64 '0'))]).toOption
  return ⟨c, 0⟩

theorem sampleStart_initial {specs : List (String × String × List String)}
    {s : State BudgetLedger} (h : sampleStart specs = some s) : Initial s := by
  simp only [sampleStart, Option.bind_eq_bind, Option.bind_eq_some_iff] at h
  obtain ⟨tasks, -, c, hc, h⟩ := h
  cases h
  exact ⟨_, _, _, _, _, ok_of_toOption hc, rfl⟩

def registerAll : List (Call BudgetLedger) :=
  [registerCall .pm, registerCall .developer, registerCall .qa, registerCall .executor]

/-- Dispatches a task at position `n` of a run and has it verified. -/
def verifyCalls (n : Nat) (taskId tree key : String) : List (Call BudgetLedger) :=
  let scope : Scope := ⟨taskId, sampleUuid n, tree⟩
  [.begin taskId (principal .pm) key 0 0,
    .reportProcessSucceeded (principal .developer) taskId (sampleUuid n) tree,
    .issue (principal .executor) scope 0,
    .createEvidence (sampleUuid (n + 2)) scope,
    .qaReview ⟨principal .qa, taskId,
      [⟨sampleUuid (n + 3), sampleUuid (n + 2), taskId, sampleUuid n, tree⟩],
      ⟨["AC"], [("tests/t", .ofList (List.replicate 64 '0'))], tree, true, false⟩, 0⟩]

def verifiedAt (s : State B) (id tree : String) : Bool :=
  (s.coordinator.tasks.get? id).any fun agg => agg.state = .verified ∧ agg.task.treeSha = tree

def provenanceCalls : List (Call BudgetLedger) :=
  registerAll ++ .freeze "A" (principal .pm) :: verifyCalls 5 "A" "t1" "key"

theorem provenance_sample : ∃ (s₀ s : State BudgetLedger) (agg : TaskAggregate),
    Initial s₀ ∧ Library.Run (step BudgetLedger.api sampleUuid) s₀ provenanceCalls s ∧
    s.coordinator.tasks.get? "A" = some agg ∧ agg.state = .verified ∧
    ∃ v d, Provenance s "A" agg v d := by
  have hrun : ((sampleStart [("A", "t1", [])]).bind fun s₀ =>
      exec (step BudgetLedger.api sampleUuid) s₀ provenanceCalls).any
        (verifiedAt · "A" "t1") = true := by decide +kernel
  obtain ⟨s, hs, hver⟩ := (Option.any_eq_true _ _).mp hrun
  obtain ⟨s₀, h₀, hexec⟩ := Option.bind_eq_some_iff.mp hs
  obtain ⟨agg, hget, hstate⟩ := (Option.any_eq_true _ _).mp hver
  have hv : agg.state = .verified := (by simpa using hstate : _ ∧ _).1
  obtain ⟨v, d, hp, -⟩ := verified_provenance sampleUuid_injective (sampleStart_initial h₀)
    (path_of_exec hexec) hget hv
  exact ⟨s₀, s, agg, sampleStart_initial h₀, path_of_exec hexec, hget, hv, v, d, hp⟩

end Sample

end SubagentBridge.Team
