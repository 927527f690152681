import Mathlib.Data.List.Perm.Subperm
import SubagentBridge.Team.Coordinator

/-! What each call does to tasks and registries, and what every sequence of calls
therefore keeps: where verified states come from. -/

namespace SubagentBridge.Team

open Library Domain Planner Qa

variable {B : Type} {api : BudgetApi B}

/-! ## Registries -/

section Registry

variable {reg reg' : ReceiptIssuerRegistry} {identities : IdentityRegistry} {p : Principal}
variable {role : Role} {s : Scope} {uuid4 : String}

theorem member_of_require {u : Unit} (h : identities.require p role = .ok u) :
    identities.IsMember p.principalId role :=
  ⟨_, (require_ok.mp h).1⟩

theorem createQaVerdict_ok {evidence : List Evidence} {accepted : Bool} {v : QaVerdict}
    (h : reg.createQaVerdict identities uuid4 p evidence s accepted = .ok (v, reg')) :
    identities.IsMember p.principalId .qa ∧
      v = ⟨uuid4, p.principalId, s.taskId, s.dispatchId, s.treeSha,
        evidence.map (·.receiptId), accepted⟩ ∧
      reg' = { reg with verdicts := reg.verdicts.set uuid4 v } ∧
      evidence ≠ [] ∧ ∀ item ∈ evidence, reg.Backs s item.receiptId := by
  simp only [ReceiptIssuerRegistry.createQaVerdict, bind_ok, require_ok] at h
  obtain ⟨_, hqa, _, hne, _, -, _, hall, hv⟩ := h
  cases hv
  refine ⟨member_of_require hqa, rfl, rfl, hne, ?_⟩
  intro item hitem
  have hcheck := forM_ok hall item hitem
  simp only [ReceiptIssuerRegistry.checkItem, bind_ok, require_ok] at hcheck
  obtain ⟨_, -, _, -, hb⟩ := hcheck
  exact hb

theorem issue_ok {exitCode : Int} {r : ExecutorReceipt}
    (h : reg.issue identities uuid4 p s exitCode = .ok (r, reg')) :
    identities.IsMember r.issuerId .executor ∧ r.receiptId = uuid4 ∧
      reg' = { reg with receipts := reg.receipts.set uuid4 r } := by
  simp only [ReceiptIssuerRegistry.issue, bind_ok, require_ok] at h
  obtain ⟨_, hexec, _, -, hr⟩ := h
  cases hr
  exact ⟨member_of_require hexec, rfl, rfl⟩

theorem createEvidence_ok {receiptId : String} {e : Evidence}
    (h : reg.createEvidence uuid4 receiptId s = .ok (e, reg')) :
    reg'.receipts = reg.receipts ∧ reg'.verdicts = reg.verdicts := by
  rw [ReceiptIssuerRegistry.createEvidence] at h
  split at h
  next => cases h
  next =>
    simp only [bind_ok, require_ok] at h
    obtain ⟨_, -, _, -, he⟩ := h
    cases he
    exact ⟨rfl, rfl⟩

theorem register_ok {id secret : String} {identities' : IdentityRegistry}
    (h : identities.register id role secret = .ok (p, identities')) (k : String)
    (m : Role × String) (hk : identities.members.get? k = some m) :
    identities'.members.get? k = some m := by
  simp only [IdentityRegistry.register, bind_ok, require_ok] at h
  obtain ⟨_, -, _, hnew, hr⟩ := h
  cases hr
  rw [Dict.get?_set, if_neg]
  · exact hk
  · rintro rfl
    rw [hnew] at hk
    cases hk

end Registry

/-! ## The QA gate -/

section Gate

open QaEvidenceGate

variable {gate : QaEvidenceGate} {reg reg' : ReceiptIssuerRegistry} {identities : IdentityRegistry}
variable {uuid4 taskId dispatchId expectedTree : String} {qa : Principal} {evidence : List Evidence}
variable {co : Checkout} {fixRound : Int} {decision : EvidenceDecision}

theorem perm_of_covers {covered criteria : List String} (h : Covers covered criteria)
    (hc : criteria.Nodup) : covered.Perm criteria := by
  obtain ⟨⟨hsub, hsup⟩, hlen⟩ := h
  refine (List.Subperm.perm_of_length_le (List.subperm_of_subset hc fun x hx => hsup x hx) ?_).symm
  rw [hlen]

/-- The checkout is the one that was frozen, and no waiver stands in for evidence. -/
structure Accepting (testHashes : Dict String String) (criteria : List String) (tree : String)
    (co : Checkout) : Prop where
  clean : co.clean = true
  hashes : ∀ path, co.actualTestHashes.get? path = testHashes.get? path
  tree : co.actualTree = tree
  noWaiver : co.humanWaiver = false
  covered : co.coveredCriteria.Perm criteria

theorem check_some {v : QaVerdict} (hcrit : gate.criteria.Nodup)
    (h : gate.check reg identities uuid4 qa evidence co taskId dispatchId expectedTree fixRound =
      (decision, some v, reg')) :
    Accepting gate.testHashes gate.criteria expectedTree co ∧
      reg.createQaVerdict identities uuid4 qa evidence ⟨taskId, dispatchId, expectedTree⟩ true =
        .ok (v, reg') := by
  rw [check] at h
  split_ifs at h with h₁ h₂ h₃ h₄ h₅ h₆ h₇
  all_goals try cases h
  split at h
  next v' reg'' hv =>
    cases h
    simp only [not_or, Bool.not_eq_false, not_not] at h₃ h₄ h₅ h₆
    exact ⟨⟨h₃.1, fun path => (Dict.same_iff h₄ path).symm, h₃.2.2, by simpa using h₆,
      perm_of_covers h₅ hcrit⟩, hv⟩
  next => cases h

theorem check_none (h : gate.check reg identities uuid4 qa evidence co taskId dispatchId
    expectedTree fixRound = (decision, none, reg')) : reg' = reg := by
  rw [check] at h
  split_ifs at h
  all_goals try (cases h; rfl)
  split at h
  next => cases h
  next => cases h; rfl

theorem create_ok {criteria : List String} {hashes : Dict String String}
    (h : QaEvidenceGate.create criteria hashes = .ok gate) : gate = ⟨criteria, hashes⟩ := by
  simp only [QaEvidenceGate.create, bind_ok] at h
  obtain ⟨_, -, _, -, _, -, hg⟩ := h
  exact (Except.ok.inj hg).symm

end Gate

/-! ## What a call does -/

namespace SupervisedCoordinator

/-- What a call other than `update_tree` does to the one task it is about. -/
inductive Move (q : Call B) (c c' : SupervisedCoordinator B) (id : String)
    (agg agg' : TaskAggregate) : Prop
  | keyUsed : agg.state = .frozen → agg'.state = .frozen → agg'.task = agg.task →
      Move q c c' id agg agg'
  | freezes : agg.state = .created ∨ agg.state = .blocked →
      agg' = { agg with state := .frozen } → Move q c c' id agg agg'
  | begins (pm : Principal) (key : String) (tokens cost : Int) :
      q = .begin id pm key tokens cost → agg.state = .frozen →
      (∀ dep ∈ (c.dependencies.get? id).getD [], ∃ a, c.tasks.get? dep = some a ∧
        a.state = .verified) →
      agg'.state = .dispatched ∨ agg'.state = .recoveryRequired → agg'.task = agg.task →
      Move q c c' id agg agg'
  | succeeds : agg.state = .dispatched → agg' = { agg with state := .processSucceeded } →
      Move q c c' id agg agg'
  | blocks : agg.state = .processSucceeded → agg' = agg.block → Move q c c' id agg agg'
  | verifies (r : QaReview) (d : Dispatch) (v : QaVerdict) : q = .qaReview r → r.taskId = id →
      agg.state = .processSucceeded → agg.activeDispatch = some d →
      Accepting c.testHashes agg.task.acceptanceCriteria agg.task.treeSha r.checkout →
      v.scope = ⟨agg.task.taskId, d.dispatchId, agg.task.treeSha⟩ → v.accepted = true →
      v.qaPrincipalId = r.qa.principalId → c'.receipts.verdicts.get? v.verdictId = some v →
      agg' = { agg with
        state := .verified, qaVerdict := some v, verifiedTreeSha := some agg.task.treeSha } →
      Move q c c' id agg agg'
  | reconciles : agg.state = .recoveryRequired → agg'.state = .frozen →
      agg'.task.taskId = agg.task.taskId → Move q c c' id agg agg'

inductive Change (q : Call B) (c c' : SupervisedCoordinator B) : Prop
  | none : c'.tasks = c.tasks → Change q c c'
  | one (id : String) (agg agg' : TaskAggregate) : c.tasks.get? id = some agg →
      c'.tasks = c.tasks.set id agg' → Move q c c' id agg agg' → Change q c c'
  | trees (newTreeSha : String) : q = .updateTree newTreeSha →
      c'.tasks = (updateAll newTreeSha c.tasks).2 → Change q c c'

/-- What a call adds to the registry of receipts and verdicts, under a new identifier. -/
inductive Recorded (uuid4 : String) (identities : IdentityRegistry)
    (reg reg' : ReceiptIssuerRegistry) : Prop
  | none : reg'.receipts = reg.receipts → reg'.verdicts = reg.verdicts →
      Recorded uuid4 identities reg reg'
  | receipt (r : ExecutorReceipt) : reg'.receipts = reg.receipts.set uuid4 r →
      reg'.verdicts = reg.verdicts → r.receiptId = uuid4 →
      identities.IsMember r.issuerId .executor → Recorded uuid4 identities reg reg'
  | verdict (v : QaVerdict) : reg'.receipts = reg.receipts →
      reg'.verdicts = reg.verdicts.set uuid4 v → v.verdictId = uuid4 →
      identities.IsMember v.qaPrincipalId .qa → v.receiptIds ≠ [] →
      (∀ i ∈ v.receiptIds, reg.Backs v.scope i) → Recorded uuid4 identities reg reg'

structure Effect (uuid4 : String) (q : Call B) (c c' : SupervisedCoordinator B) : Prop where
  dependencies : c'.dependencies = c.dependencies
  testHashes : c'.testHashes = c.testHashes
  members : ∀ k m, c.identities.members.get? k = some m → c'.identities.members.get? k = some m
  recorded : Recorded uuid4 c.identities c.receipts c'.receipts
  tasks : Change q c c'

section Effects

variable {uuid4 : String} {q : Call B} {c : SupervisedCoordinator B} {α : Type}

theorem Effect.refl : Effect uuid4 q c c :=
  ⟨rfl, rfl, fun _ _ h => h, .none rfl rfl, .none rfl⟩

theorem Effect.one {c' : SupervisedCoordinator B} {id : String} {agg agg' : TaskAggregate}
    (hd : c'.dependencies = c.dependencies) (ht : c'.testHashes = c.testHashes)
    (hi : c'.identities = c.identities) (hr : c'.receipts = c.receipts)
    (hget : c.tasks.get? id = some agg) (hset : c'.tasks = c.tasks.set id agg')
    (hm : Move q c c' id agg agg') : Effect uuid4 q c c' :=
  ⟨hd, ht, fun _ _ h => hi ▸ h, .none (by rw [hr]) (by rw [hr]), .one id agg agg' hget hset hm⟩

theorem Effect.orRaise {s : SupervisedCoordinator B} {x : Except Error α} {β : Type}
    {k : α → Result (SupervisedCoordinator B) β} (hraise : Effect uuid4 q c s)
    (hgo : ∀ a, x = .ok a → Effect uuid4 q c (k a).2) : Effect uuid4 q c (orRaise x s k).2 := by
  cases x with
  | ok a => exact hgo a rfl
  | error e => exact hraise

theorem Effect.withTask {id missing : String}
    {k : TaskAggregate → Result (SupervisedCoordinator B) α}
    (hgo : ∀ agg, c.tasks.get? id = some agg → Effect uuid4 q c (k agg).2) :
    Effect uuid4 q c (c.withTask id missing k).2 := by
  rw [SupervisedCoordinator.withTask]
  split
  next agg h => exact hgo agg h
  next => exact .refl

@[simp] theorem releaseDispatch_tasks (id : String) :
    (c.releaseDispatch api id).tasks = c.tasks := by
  rw [releaseDispatch]
  split <;> rfl

@[simp] theorem releaseDispatch_dependencies (id : String) :
    (c.releaseDispatch api id).dependencies = c.dependencies := by
  rw [releaseDispatch]
  split <;> rfl

@[simp] theorem releaseDispatch_testHashes (id : String) :
    (c.releaseDispatch api id).testHashes = c.testHashes := by
  rw [releaseDispatch]
  split <;> rfl

@[simp] theorem releaseDispatch_identities (id : String) :
    (c.releaseDispatch api id).identities = c.identities := by
  rw [releaseDispatch]
  split <;> rfl

@[simp] theorem releaseDispatch_receipts (id : String) :
    (c.releaseDispatch api id).receipts = c.receipts := by
  rw [releaseDispatch]
  split <;> rfl

theorem freeze_effect (id : String) (pm : Principal) :
    Effect uuid4 (.freeze id pm) c (c.freeze id pm).2 := by
  refine .orRaise .refl fun _ _ => .withTask fun agg hagg => .orRaise .refl fun agg' h => ?_
  simp only [TaskAggregate.freeze, bind_ok, require_ok] at h
  obtain ⟨_, -, _, hs, h⟩ := h
  exact .one rfl rfl rfl rfl hagg rfl (.freezes hs (Except.ok.inj h).symm)

theorem reportProcessSucceeded_effect (developer : Principal) (id dispatchId treeSha : String) :
    Effect uuid4 (.reportProcessSucceeded developer id dispatchId treeSha) c
      (c.reportProcessSucceeded developer id dispatchId treeSha).2 := by
  refine .orRaise .refl fun _ _ => .withTask fun agg hagg => .orRaise .refl fun agg' h => ?_
  simp only [TaskAggregate.processSucceeded, bind_ok, require_ok] at h
  obtain ⟨_, -, _, hs, h⟩ := h
  exact .one rfl rfl rfl rfl hagg rfl (.succeeds hs (Except.ok.inj h).symm)

theorem precheck_ok {id key : String} {agg : TaskAggregate} {tokens cost : Int} {u : Unit}
    (h : c.precheck api id agg key tokens cost = .ok u) :
    agg.state = .frozen ∧ ∀ dep ∈ (c.dependencies.get? id).getD [],
      ∃ a, c.tasks.get? dep = some a ∧ a.state = .verified := by
  simp only [precheck, bind_ok, require_ok] at h
  obtain ⟨_, hs, _, hdeps, -⟩ := h
  refine ⟨hs, ?_⟩
  intro dep hdep
  have hv := forM_ok hdeps dep hdep
  rw [requireVerified] at hv
  split at hv
  next a ha => exact ⟨a, ha, require_ok.mp hv⟩
  next => cases hv

theorem dispatch_cases {agg : TaskAggregate} (hs : agg.state = .frozen)
    (identities : IdentityRegistry) (uuid4 : String) (pm : Principal) (key : String) :
    (agg.dispatch identities uuid4 pm key).2.task = agg.task ∧
      ((∃ e, (agg.dispatch identities uuid4 pm key).1 = .error e ∧
        (agg.dispatch identities uuid4 pm key).2.state = .frozen) ∨
      ∃ d, (agg.dispatch identities uuid4 pm key).1 = .ok d ∧
        (agg.dispatch identities uuid4 pm key).2.state = .dispatched) := by
  simp only [TaskAggregate.dispatch, orRaise]
  split
  next =>
    split
    next =>
      split
      next =>
        split
        next d hd => exact ⟨rfl, .inr ⟨d, rfl, rfl⟩⟩
        next e he => exact ⟨rfl, .inl ⟨e, rfl, hs⟩⟩
      next e he => exact ⟨rfl, .inl ⟨e, rfl, hs⟩⟩
    next e he => exact ⟨rfl, .inl ⟨e, rfl, hs⟩⟩
  next e he => exact ⟨rfl, .inl ⟨e, rfl, hs⟩⟩

theorem begin_effect (id : String) (pm : Principal) (key : String) (tokens cost : Int) :
    Effect uuid4 (.begin id pm key tokens cost) c (c.begin api uuid4 id pm key tokens cost).2 := by
  refine .orRaise .refl fun _ _ => .withTask fun agg hagg => .orRaise .refl fun _ hpre => ?_
  obtain ⟨hs, hdeps⟩ := precheck_ok hpre
  obtain ⟨htask, ⟨e, he, hs'⟩ | ⟨d, hd, hs'⟩⟩ := dispatch_cases hs c.identities uuid4 pm key
  · simp only [he, orRaise_error]
    exact .one rfl rfl rfl rfl hagg rfl (.keyUsed hs hs' htask)
  · simp only [hd, orRaise_ok]
    refine .orRaise ?_ fun _ _ => ?_
    · exact .one rfl rfl rfl rfl hagg (Dict.set_set _ _ _ _)
        (.begins pm key tokens cost rfl hs hdeps (.inr rfl) htask)
    · exact .one rfl rfl rfl rfl hagg rfl (.begins pm key tokens cost rfl hs hdeps (.inl hs') htask)

theorem qaVerified_ok {agg agg' : TaskAggregate} {identities : IdentityRegistry}
    {receipts : ReceiptIssuerRegistry} {qa : Principal} {v : QaVerdict}
    (h : agg.qaVerified identities receipts qa v = .ok agg') :
    ∃ d, agg.state = .processSucceeded ∧ agg.activeDispatch = some d ∧
      receipts.verdicts.get? v.verdictId = some v ∧
      v.scope = ⟨agg.task.taskId, d.dispatchId, agg.task.treeSha⟩ ∧ v.accepted = true ∧
      v.qaPrincipalId = qa.principalId ∧
      agg'.markVerified identities qa = .ok { agg with
        state := .verified, qaVerdict := some v, verifiedTreeSha := some agg.task.treeSha } := by
  simp only [TaskAggregate.qaVerified, bind_ok] at h
  obtain ⟨_, hqa, h⟩ := h
  split at h
  next d hs hd =>
    simp only [ReceiptIssuerRegistry.requireVerdict, bind_ok, require_ok] at h
    obtain ⟨_, ⟨_, hreg, _, hscope, _, hacc, -⟩, _, hid, h⟩ := h
    cases h
    refine ⟨d, hs, hd, hreg, hscope, hacc, hid, ?_⟩
    simp [TaskAggregate.markVerified, hqa, hid, require, bind, Except.bind, pure, Except.pure]
  next => cases h

theorem recorded_verdict {p : Principal} {s : Scope} {evidence : List Evidence} {accepted : Bool}
    {v : QaVerdict} {reg reg' : ReceiptIssuerRegistry} {identities : IdentityRegistry}
    (h : reg.createQaVerdict identities uuid4 p evidence s accepted = .ok (v, reg')) :
    Recorded uuid4 identities reg reg' := by
  obtain ⟨hmem, rfl, rfl, hne, hback⟩ := createQaVerdict_ok h
  refine .verdict _ rfl rfl rfl hmem (by simpa using hne) ?_
  intro i hi
  obtain ⟨item, hitem, rfl⟩ := List.mem_map.mp hi
  exact hback item hitem

variable {r : QaReview} {agg : TaskAggregate} {receipts : ReceiptIssuerRegistry}

theorem failReview_effect {currentRound : Int} {decision : EvidenceDecision}
    (hagg : c.tasks.get? r.taskId = some agg) (hs : agg.state = .processSucceeded)
    (hr : Recorded uuid4 c.identities c.receipts receipts) :
    Effect uuid4 (.qaReview r) c
      (failReview api r agg currentRound decision { c with receipts }).2 := by
  simp only [failReview]
  split
  next =>
    refine ⟨by simp [setTask], by simp [setTask], by simp [setTask], by simpa [setTask] using hr,
      .one r.taskId agg agg.block hagg (by simp [setTask]) (.blocks hs rfl)⟩
  next => exact ⟨rfl, rfl, fun _ _ h => h, hr, .none rfl⟩

theorem passReview_effect {decision : EvidenceDecision} {v : QaVerdict}
    (hagg : c.tasks.get? r.taskId = some agg)
    (hr : Recorded uuid4 c.identities c.receipts receipts)
    (hacc : Accepting c.testHashes agg.task.acceptanceCriteria agg.task.treeSha r.checkout) :
    Effect uuid4 (.qaReview r) c (passReview api r agg decision v { c with receipts }).2 := by
  rw [passReview]
  cases hq : agg.qaVerified c.identities receipts r.qa v with
  | error e => exact ⟨rfl, rfl, fun _ _ h => h, hr, .none rfl⟩
  | ok agg' =>
    obtain ⟨d, hs, hd, hreg, hscope, haccepted, hid, hmark⟩ := qaVerified_ok hq
    simp only [orRaise_ok, setTask, hmark]
    refine ⟨by simp, by simp, by simp, by simpa using hr, .one r.taskId agg _ hagg ?_
      (.verifies r d v rfl rfl hs hd hacc hscope haccepted hid ?_ rfl)⟩
    · simp
    · simpa using hreg

theorem qaReview_effect (r : QaReview) :
    Effect uuid4 (.qaReview r) c (c.qaReview api uuid4 r).2 := by
  refine .orRaise .refl fun _ hqa => .withTask fun agg hagg => ?_
  split
  next d hs hd =>
    simp only
    split
    next => refine .one ?_ ?_ ?_ ?_ hagg ?_ (.blocks hs rfl) <;> simp [setTask]
    next =>
      refine .orRaise .refl fun gate hgate => ?_
      obtain rfl := create_ok hgate
      rcases hcheck : QaEvidenceGate.check _ c.receipts c.identities uuid4 r.qa r.evidence
          r.checkout agg.task.taskId d.dispatchId agg.task.treeSha _ with
        ⟨decision, verdict, receipts⟩
      cases verdict with
      | none =>
        obtain rfl := check_none hcheck
        exact failReview_effect hagg hs (.none rfl rfl)
      | some v =>
        obtain ⟨hacc, hv⟩ := check_some agg.task.criteria.2.2 hcheck
        simp only [settleReview]
        split
        next => exact passReview_effect hagg (recorded_verdict hv) hacc
        next => exact failReview_effect hagg hs (recorded_verdict hv)
  next => exact .refl

theorem reconcileRecovery_effect (id : String) (pm : Principal) (newTreeSha : Option String) :
    Effect uuid4 (.reconcileRecovery id pm newTreeSha) c
      (c.reconcileRecovery api id pm newTreeSha).2 := by
  refine .orRaise .refl fun _ _ => .withTask fun agg hagg => .orRaise .refl fun _ hs =>
    .orRaise ?_ fun agg' h => ?_
  · exact ⟨by simp, by simp, by simp, by simpa using .none rfl rfl, .none (by simp)⟩
  · simp only [TaskAggregate.reconcile, bind_ok, require_ok] at h
    obtain ⟨_, -, _, hrec, task, htask, h⟩ := h
    obtain rfl := Except.ok.inj h
    exact .one (by simp [setTask]) (by simp [setTask]) (by simp [setTask]) (by simp [setTask]) hagg
      (congrArg (Dict.set · id _) (releaseDispatch_tasks id))
      (.reconciles hrec rfl (Task.atTree_ok htask).1)

theorem updateTree_effect (newTreeSha : String) :
    Effect uuid4 (.updateTree newTreeSha) c (c.updateTree newTreeSha).2 :=
  .orRaise .refl fun _ _ =>
    ⟨rfl, rfl, fun _ _ h => h, .none rfl rfl, .trees newTreeSha rfl rfl⟩

theorem perform_effect (q : Call B) : Effect uuid4 q c (perform api uuid4 c q) := by
  cases q with
  | register principalId role secret =>
    rw [perform]
    split
    next p identities h => exact ⟨rfl, rfl, register_ok h, .none rfl rfl, .none rfl⟩
    next => exact .refl
  | issue executor s exitCode =>
    rw [perform]
    split
    next r receipts h =>
      obtain ⟨hmem, hid, rfl⟩ := issue_ok h
      exact ⟨rfl, rfl, fun _ _ h => h, .receipt r rfl rfl hid hmem, .none rfl⟩
    next => exact .refl
  | createEvidence receiptId s =>
    rw [perform]
    split
    next e receipts h =>
      obtain ⟨hr, hv⟩ := createEvidence_ok h
      exact ⟨rfl, rfl, fun _ _ h => h, .none hr hv, .none rfl⟩
    next => exact .refl
  | createQaVerdict qa evidence s accepted =>
    rw [perform]
    split
    next v receipts h => exact ⟨rfl, rfl, fun _ _ h => h, recorded_verdict h, .none rfl⟩
    next => exact .refl
  | freeze taskId pm => exact freeze_effect taskId pm
  | begin taskId pm key tokens cost => exact begin_effect taskId pm key tokens cost
  | reportProcessSucceeded developer taskId dispatchId treeSha =>
    exact reportProcessSucceeded_effect developer taskId dispatchId treeSha
  | releaseDispatch taskId =>
    exact ⟨by simp [perform], by simp [perform], by simp [perform],
      by simpa [perform] using .none rfl rfl, .none (by simp [perform])⟩
  | qaReview r => exact qaReview_effect r
  | updateTree newTreeSha => exact updateTree_effect newTreeSha
  | reconcileRecovery taskId pm newTreeSha => exact reconcileRecovery_effect taskId pm newTreeSha
  | otherBudgetUse budget => exact ⟨rfl, rfl, fun _ _ h => h, .none rfl rfl, .none rfl⟩

end Effects

/-! ## Tree updates -/

section Trees

variable {tree : String} {agg agg' : TaskAggregate}

inductive Retree (tree : String) (agg agg' : TaskAggregate) : Prop
  | kept : agg' = agg → agg.task.treeSha = tree ∨ agg.state = .recoveryRequired →
      Retree tree agg agg'
  | recovers : agg.state = .dispatched ∨ agg.state = .processSucceeded →
      agg' = agg.recoverUnknown → Retree tree agg agg'
  | moves : Identity tree → agg'.state = .created ∨ agg'.state = .frozen →
      agg'.task.taskId = agg.task.taskId → Retree tree agg agg'

theorem changeTree_cases (hne : agg.task.treeSha ≠ tree) (hs : agg.state ≠ .recoveryRequired) :
    (∃ agg', agg.changeTree tree = .ok agg' ∧ Retree tree agg agg') ∨
      (∃ e, agg.changeTree tree = .error e) ∧ ¬ Identity tree := by
  cases ht : agg.task.atTree tree with
  | ok task =>
    obtain ⟨hid, -, htree⟩ := Task.atTree_ok ht
    have hempty : tree ≠ "" := by
      rintro rfl
      exact absurd htree.1 (by decide)
    have hok : agg.changeTree tree = .ok { agg with
        task, state := .frozen, verifiedTreeSha := none, qaVerdict := none,
        activeDispatch := none } := by
      simp [TaskAggregate.changeTree, require, hempty, Ne.symm hne, hs, ht, bind, Except.bind,
        pure, Except.pure]
    exact .inl ⟨_, hok, .moves htree (.inr rfl) hid⟩
  | error e =>
    refine .inr ⟨?_, Task.atTree_error ht⟩
    by_cases hempty : tree = ""
    · simp [TaskAggregate.changeTree, require, hempty, bind, Except.bind]
    · simp [TaskAggregate.changeTree, require, hempty, Ne.symm hne, hs, ht, bind, Except.bind]

theorem updateOne_cases (tree : String) (agg : TaskAggregate) :
    (∃ agg', updateOne tree agg = .ok agg' ∧ Retree tree agg agg') ∨
      (∃ e, updateOne tree agg = .error e) ∧ ¬ Identity tree := by
  rw [updateOne]
  split
  next h => exact .inl ⟨agg, rfl, .kept rfl (.inl h)⟩
  next hne =>
    split
    next hs => exact .inl ⟨_, rfl, .recovers (.inl hs) rfl⟩
    next hs => exact .inl ⟨_, rfl, .recovers (.inr hs) rfl⟩
    next hs => exact .inl ⟨_, rfl, .kept rfl (.inr hs)⟩
    next hs =>
      cases ht : agg.task.atTree tree with
      | ok task =>
        obtain ⟨hid, -, htree⟩ := Task.atTree_ok ht
        have hmove : Retree tree agg { agg with task } := .moves htree (.inl hs) hid
        exact .inl ⟨_, rfl, hmove⟩
      | error e => exact .inr ⟨⟨e, rfl⟩, Task.atTree_error ht⟩
    next _ _ hs _ => exact changeTree_cases hne hs

/-- A task after the loop: untouched, or as its turn left it.  Over a valid tree, every
task has its turn. -/
theorem get?_updateAll {tasks : Dict String TaskAggregate} {id : String}
    (h : (updateAll tree tasks).2.get? id = some agg') :
    ∃ agg, tasks.get? id = some agg ∧ (Retree tree agg agg' ∨ agg' = agg ∧ ¬ Identity tree) := by
  induction tasks with
  | nil => cases h
  | cons p tasks ih =>
    obtain ⟨k, a⟩ := p
    rw [updateAll] at h
    obtain ⟨a', ha, hr⟩ | ⟨⟨e, he⟩, hid⟩ := updateOne_cases tree a
    · simp only [ha, orRaise_ok, Dict.get?_cons] at h ⊢
      split at h
      next hk => exact ⟨a, by simp [hk], .inl (Option.some.inj h ▸ hr)⟩
      next hk =>
        rw [if_neg hk]
        exact ih h
    · simp only [he, orRaise_error] at h
      exact ⟨agg', h, .inr ⟨rfl, hid⟩⟩

end Trees

end SupervisedCoordinator

end SubagentBridge.Team
