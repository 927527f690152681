import SubagentBridge.Team.Reservations

/-! What a call of the coordinator has done once it returns: to the one task that it is about,
and to the reservation that the task holds. -/

namespace SubagentBridge.Team

open Library Domain Planner Qa SupervisedCoordinator

variable {B : Type} {api : BudgetApi B} {c c' c'' : SupervisedCoordinator B} {uuid4 id : String}

def SupervisedCoordinator.state? (c : SupervisedCoordinator B) (id : String) : Option TaskState :=
  (c.tasks.get? id).map (·.state)

def SupervisedCoordinator.contract? (c : SupervisedCoordinator B) (id : String) : Option Task :=
  (c.tasks.get? id).map (·.task)

structure Aside (id : String) (c c' : SupervisedCoordinator B) : Prop where
  order : c'.order = c.order
  dependencies : c'.dependencies = c.dependencies
  testHashes : c'.testHashes = c.testHashes
  contract : ∀ id', c'.contract? id' = c.contract? id'
  tasks : ∀ id', id' ≠ id → c'.tasks.get? id' = c.tasks.get? id'

theorem Aside.refl : Aside id c c := ⟨rfl, rfl, rfl, fun _ => rfl, fun _ _ => rfl⟩

theorem Aside.trans (h : Aside id c c') (h' : Aside id c' c'') : Aside id c c'' where
  order := h'.order.trans h.order
  dependencies := h'.dependencies.trans h.dependencies
  testHashes := h'.testHashes.trans h.testHashes
  contract id' := (h'.contract id').trans (h.contract id')
  tasks id' hne := (h'.tasks id' hne).trans (h.tasks id' hne)

theorem Aside.state (h : Aside id c c') {id' : String} (hne : id' ≠ id) :
    c'.state? id' = c.state? id' := by
  rw [state?, state?, h.tasks id' hne]

theorem aside_set {agg agg' : TaskAggregate} (hget : c.tasks.get? id = some agg)
    (hset : c'.tasks = c.tasks.set id agg') (htask : agg'.task = agg.task)
    (ho : c'.order = c.order) (hd : c'.dependencies = c.dependencies)
    (ht : c'.testHashes = c.testHashes) : Aside id c c' := by
  refine ⟨ho, hd, ht, fun id' => ?_, fun id' hne => ?_⟩
  · rw [contract?, contract?, hset, Dict.get?_set]
    split
    next h => simp [← h, hget, htask]
    next => rfl
  · rw [hset, Dict.get?_set, if_neg (Ne.symm hne)]

theorem state?_set {agg : TaskAggregate} {state : TaskState}
    (hset : c'.tasks = c.tasks.set id agg) (hs : agg.state = state) :
    c'.state? id = some state := by
  rw [state?, hset, Dict.get?_set, if_pos rfl, Option.map_some, hs]

/-! ## Reservations -/

/-- A ledger that makes new reservations only and, where `Dependable` holds, releases every
reservation that it holds. -/
structure Exact (ledger : Ledger api) (Dependable : B → Prop) : Prop where
  fresh : ∀ {b x tokens cost}, (api.reserve x tokens cost b).1 = .ok () → ¬ ledger.Holds b x
  release : ∀ {b x}, Dependable b → ledger.Holds b x → (api.release x b).1 = .ok ()
  reserved : ∀ {b x tokens cost}, Dependable b → Dependable (api.reserve x tokens cost b).2
  released : ∀ {b x}, Dependable b → Dependable (api.release x b).2

/-- Reservations of nonnegative amounts, which are all that `reserve` makes. -/
def Nonnegative (b : BudgetLedger) : Prop :=
  ∀ x r, b.reservations.get? x = some r → 0 ≤ r.tokenAllowance ∧ 0 ≤ r.costMicrounits

theorem memory_exact : Exact memoryLedger Nonnegative where
  fresh := by
    intro b x tokens cost h hholds
    simp only [BudgetLedger.api] at h
    cases hr : b.reserve x tokens cost with
    | error e => rw [hr] at h; cases h
    | ok r => exact hholds (BudgetLedger.reserve_ok hr).2.1
  release := by
    intro b x hnonneg hholds
    obtain ⟨r, hr⟩ := Option.ne_none_iff_exists'.mp hholds
    obtain ⟨htokens, hcost⟩ := hnonneg x r hr
    simp [BudgetLedger.api, BudgetLedger.release, hr, htokens, hcost, require, bind, Except.bind,
      pure, Except.pure]
  reserved := by
    intro b x tokens cost hnonneg y r hr
    simp only [BudgetLedger.api] at hr
    cases h : b.reserve x tokens cost with
    | error e =>
      rw [h] at hr
      exact hnonneg y r hr
    | ok p =>
      obtain ⟨p, b'⟩ := p
      obtain ⟨hamounts, -, -, rfl, rfl⟩ := BudgetLedger.reserve_ok h
      rw [h, orRaise_ok, Dict.get?_set] at hr
      split at hr
      next =>
        cases hr
        exact hamounts
      next => exact hnonneg y r hr
  released := by
    intro b x hnonneg y r hr
    obtain ⟨e, h⟩ | ⟨t, k, h⟩ := memory_release b x
    · rw [h] at hr
      exact hnonneg y r hr
    · rw [h, Dict.get?_erase] at hr
      split at hr
      next => cases hr
      next => exact hnonneg y r hr

section Books

variable {ledger : Ledger api} {Dependable : B → Prop} {before : String → Prop}

structure Settled (ledger : Ledger api) (Dependable : B → Prop) (before : String → Prop)
    (c : SupervisedCoordinator B) : Prop where
  dependable : Dependable c.budget
  active : ∀ id, c.activeIds.get? id = none
  holds : ∀ x, ledger.Holds c.budget x ↔ before x

structure Engaged (ledger : Ledger api) (Dependable : B → Prop) (before : String → Prop)
    (id : String) (c : SupervisedCoordinator B) : Prop where
  dependable : Dependable c.budget
  active : ∀ id', id' ≠ id → c.activeIds.get? id' = none
  reservation : ∃ d, c.activeIds.get? id = some d ∧ ¬ before d ∧
    ∀ x, ledger.Holds c.budget x ↔ before x ∨ x = d

theorem Settled.congr (h : Settled ledger Dependable before c) (hb : c'.budget = c.budget)
    (ha : c'.activeIds = c.activeIds) : Settled ledger Dependable before c' :=
  ⟨hb ▸ h.dependable, ha ▸ h.active, hb ▸ h.holds⟩

theorem Engaged.congr (h : Engaged ledger Dependable before id c) (hb : c'.budget = c.budget)
    (ha : c'.activeIds = c.activeIds) : Engaged ledger Dependable before id c' :=
  ⟨hb ▸ h.dependable, ha ▸ h.active, by rw [ha, hb]; exact h.reservation⟩

theorem Engaged.release (hexact : Exact ledger Dependable)
    (h : Engaged ledger Dependable before id c) :
    Settled ledger Dependable before (c.releaseDispatch api id) := by
  obtain ⟨d, hd, hnew, hholds⟩ := h.reservation
  have hok : (api.release d c.budget).1 = .ok () :=
    hexact.release h.dependable ((hholds d).mpr (.inr rfl))
  rw [releaseDispatch, hd]
  refine ⟨hexact.released h.dependable, fun id' => ?_, fun x => ?_⟩
  · rw [Dict.get?_erase]
    split
    next => rfl
    next hne => exact h.active id' (Ne.symm hne)
  · rw [ledger.release, hholds, hok]
    constructor
    · rintro ⟨hx | rfl, hne⟩
      · exact hx
      · exact absurd ⟨rfl, rfl⟩ hne
    · exact fun hx => ⟨.inl hx, fun hd => hnew (hd.2 ▸ hx)⟩

theorem Settled.release (h : Settled ledger Dependable before c) :
    Settled ledger Dependable before (c.releaseDispatch api id) := by
  rw [releaseDispatch, h.active]
  exact h

theorem Settled.engages (hexact : Exact ledger Dependable)
    (h : Settled ledger Dependable before c) {d : String} {tokens cost : Int}
    (hok : (api.reserve d tokens cost c.budget).1 = .ok ())
    (hb : c'.budget = (api.reserve d tokens cost c.budget).2)
    (ha : c'.activeIds = c.activeIds.set id d) : Engaged ledger Dependable before id c' := by
  refine ⟨hb ▸ hexact.reserved h.dependable, fun id' hne => ?_, d, ?_, ?_, fun x => ?_⟩
  · rw [ha, Dict.get?_set, if_neg (Ne.symm hne)]
    exact h.active id'
  · rw [ha, Dict.get?_set, if_pos rfl]
  · rw [← h.holds]
    exact hexact.fresh hok
  · rw [hb, ledger.reserve, h.holds, hok]
    simp

end Books

/-! ## Calls that return -/

theorem freeze_ok {pm : Principal} {u : Unit} (h : c.freeze id pm = (.ok u, c')) :
    Aside id c c' ∧ c'.budget = c.budget ∧ c'.activeIds = c.activeIds ∧
      c'.state? id = some .frozen := by
  rw [freeze] at h
  cases hpm : c.identities.require pm .pm with
  | error e => rw [hpm] at h; cases h
  | ok _ =>
    rw [hpm, orRaise_ok, withTask] at h
    split at h
    next agg hget =>
      cases hf : agg.freeze c.identities pm with
      | error e => rw [hf] at h; cases h
      | ok agg' =>
        rw [hf, orRaise_ok] at h
        cases h
        simp only [TaskAggregate.freeze, bind_ok, require_ok] at hf
        obtain ⟨_, -, _, -, hf⟩ := hf
        cases hf
        exact ⟨aside_set hget rfl rfl rfl rfl rfl, rfl, rfl, state?_set rfl rfl⟩
    next => cases h

structure Begun (api : BudgetApi B) (tokens cost : Int) (id : String) (plan : DispatchPlan)
    (c c' : SupervisedCoordinator B) : Prop where
  aside : Aside id c c'
  dependencies : ∀ dep ∈ (c.dependencies.get? id).getD [], c.state? dep = some .verified
  state : c'.state? id = some .dispatched
  reserved : (api.reserve plan.dispatchId tokens cost c.budget).1 = .ok ()
  budget : c'.budget = (api.reserve plan.dispatchId tokens cost c.budget).2
  activeIds : c'.activeIds = c.activeIds.set id plan.dispatchId

theorem begin_ok {pm : Principal} {key : String} {tokens cost : Int} {plan : DispatchPlan}
    (h : c.begin api uuid4 id pm key tokens cost = (.ok plan, c')) :
    Begun api tokens cost id plan c c' := by
  rw [begin] at h
  cases hpm : c.identities.require pm .pm with
  | error e => rw [hpm] at h; cases h
  | ok _ =>
    rw [hpm, orRaise_ok, withTask] at h
    split at h
    next agg hget =>
      cases hpre : c.precheck api id agg key tokens cost with
      | error e => rw [hpre] at h; cases h
      | ok _ =>
        obtain ⟨hs, hdeps⟩ := precheck_ok hpre
        obtain ⟨htask, ⟨e, he, -⟩ | ⟨d, hd, hs'⟩⟩ := dispatch_cases hs c.identities uuid4 pm key
        · simp only [hpre, orRaise_ok, he, orRaise_error] at h
          cases h
        · simp only [hpre, orRaise_ok, hd, setTask] at h
          cases hr : (api.reserve d.dispatchId tokens cost c.budget).1 with
          | error e => simp only [hr, orRaise_error] at h; cases h
          | ok _ =>
            simp only [hr, orRaise_ok] at h
            cases h
            refine ⟨aside_set hget rfl htask rfl rfl rfl, ?_, state?_set rfl hs', hr, rfl, rfl⟩
            intro dep hdep
            obtain ⟨a, ha, hv⟩ := hdeps dep hdep
            rw [state?, ha, Option.map_some, hv]
    next => cases h

theorem reportProcessSucceeded_ok {developer : Principal} {dispatchId tree : String} {u : Unit}
    (h : c.reportProcessSucceeded developer id dispatchId tree = (.ok u, c')) :
    Aside id c c' ∧ c'.budget = c.budget ∧ c'.activeIds = c.activeIds ∧
      c'.state? id = some .processSucceeded := by
  rw [reportProcessSucceeded] at h
  cases hdev : c.identities.require developer .developer with
  | error e => rw [hdev] at h; cases h
  | ok _ =>
    rw [hdev, orRaise_ok, withTask] at h
    split at h
    next agg hget =>
      cases hp : agg.processSucceeded dispatchId tree with
      | error e => rw [hp] at h; cases h
      | ok agg' =>
        rw [hp, orRaise_ok] at h
        cases h
        simp only [TaskAggregate.processSucceeded, bind_ok, require_ok] at hp
        obtain ⟨_, -, _, -, hp⟩ := hp
        cases hp
        exact ⟨aside_set hget rfl rfl rfl rfl rfl, rfl, rfl, state?_set rfl rfl⟩
    next => cases h

/-! ## Reviews -/

def Releases (api : BudgetApi B) (id : String) (c c' : SupervisedCoordinator B) : Prop :=
  c'.budget = (c.releaseDispatch api id).budget ∧
    c'.activeIds = (c.releaseDispatch api id).activeIds

theorem releases_of_eq (hb : c'.budget = c.budget) (ha : c'.activeIds = c.activeIds) :
    Releases api id c (c'.releaseDispatch api id) := by
  rw [Releases, releaseDispatch, releaseDispatch, hb, ha]
  split
  next => exact ⟨hb, ha⟩
  next => exact ⟨rfl, rfl⟩

section

variable {ledger : Ledger api} {Dependable : B → Prop} {before : String → Prop}

theorem Engaged.releases (hexact : Exact ledger Dependable)
    (h : Engaged ledger Dependable before id c) (hr : Releases api id c c') :
    Settled ledger Dependable before c' := (h.release hexact).congr hr.1 hr.2

theorem Engaged.then_release (hexact : Exact ledger Dependable)
    (h : Engaged ledger Dependable before id c)
    (hr : c'.budget = c.budget ∧ c'.activeIds = c.activeIds ∨ Releases api id c c') :
    Settled ledger Dependable before (c'.releaseDispatch api id) := by
  rcases hr with ⟨hb, ha⟩ | hr
  · exact (h.congr hb ha).release hexact
  · exact (h.releases hexact hr).release

end

structure Reviewed (api : BudgetApi B) (r : QaReview) (d : EvidenceDecision)
    (c c' : SupervisedCoordinator B) : Prop where
  aside : Aside r.taskId c c'
  reservation : c'.budget = c.budget ∧ c'.activeIds = c.activeIds ∨ Releases api r.taskId c c'
  passed : d.status = .qaVerified → c'.state? r.taskId = some .verified ∧
    Releases api r.taskId c c' ∧ ∃ task, c.contract? r.taskId = some task ∧
      Accepting c.testHashes task.acceptanceCriteria task.treeSha r.checkout
  failed : d.status ≠ .qaVerified → c'.state? r.taskId ≠ some .verified

section Reviews

variable {r : QaReview} {agg : TaskAggregate} {d d' : EvidenceDecision} {n : Int}
  {receipts : ReceiptIssuerRegistry}

@[simp] theorem releaseDispatch_order : (c.releaseDispatch api id).order = c.order := by
  rw [releaseDispatch]
  split <;> rfl

@[simp] theorem releaseDispatch_state (id' : String) :
    (c.releaseDispatch api id).state? id' = c.state? id' := by
  rw [state?, releaseDispatch_tasks, ← state?]

theorem aside_releaseDispatch : Aside id c (c.releaseDispatch api id) where
  order := releaseDispatch_order
  dependencies := releaseDispatch_dependencies id
  testHashes := releaseDispatch_testHashes id
  contract id' := by rw [contract?, releaseDispatch_tasks, ← contract?]
  tasks id' _ := by rw [releaseDispatch_tasks]

theorem aside_release {agg' : TaskAggregate} (hget : c.tasks.get? id = some agg)
    (hset : c'.tasks = c.tasks.set id agg') (htask : agg'.task = agg.task)
    (ho : c'.order = c.order) (hd : c'.dependencies = c.dependencies)
    (ht : c'.testHashes = c.testHashes) : Aside id c (c'.releaseDispatch api id) := by
  refine aside_set hget ?_ htask ?_ ?_ ?_
  · rw [releaseDispatch_tasks, hset]
  · rw [releaseDispatch_order, ho]
  · rw [releaseDispatch_dependencies, hd]
  · rw [releaseDispatch_testHashes, ht]

theorem reviewed_block (hget : c.tasks.get? r.taskId = some agg)
    (hset : c'.tasks = c.tasks.set r.taskId agg.block) (ho : c'.order = c.order)
    (hd : c'.dependencies = c.dependencies) (ht : c'.testHashes = c.testHashes)
    (hb : c'.budget = c.budget) (ha : c'.activeIds = c.activeIds) :
    Reviewed api r exhausted c (c'.releaseDispatch api r.taskId) := by
  refine ⟨aside_release hget hset rfl ho hd ht, .inr (releases_of_eq hb ha), ?_, ?_⟩
  · intro hverified
    cases hverified
  · intro _ hstate
    rw [releaseDispatch_state, state?_set hset rfl] at hstate
    cases hstate

theorem failReview_reviewed (hget : c.tasks.get? r.taskId = some agg)
    (hs : agg.state = .processSucceeded) (hd : d'.status ≠ .qaVerified)
    (h : failReview api r agg n d' { c with receipts } = (.ok d, c')) : Reviewed api r d c c' := by
  rw [failReview] at h
  split at h
  next =>
    cases h
    exact reviewed_block hget rfl rfl rfl rfl rfl rfl
  next =>
    cases h
    refine ⟨⟨rfl, rfl, rfl, fun _ => rfl, fun _ _ => rfl⟩, .inl ⟨rfl, rfl⟩,
      fun hverified => absurd hverified hd, fun _ hstate => ?_⟩
    simp [state?, hget, hs] at hstate

theorem passReview_reviewed {v : QaVerdict} (hget : c.tasks.get? r.taskId = some agg)
    (hacc : Accepting c.testHashes agg.task.acceptanceCriteria agg.task.treeSha r.checkout)
    (hd : d'.status = .qaVerified)
    (h : passReview api r agg d' v { c with receipts } = (.ok d, c')) :
    Reviewed api r d c c' := by
  rw [passReview] at h
  cases hq : agg.qaVerified c.identities receipts r.qa v with
  | error e => rw [hq] at h; cases h
  | ok agg' =>
    obtain ⟨-, -, -, -, -, -, -, hmark⟩ := qaVerified_ok hq
    simp only [hq, orRaise_ok, setTask, hmark] at h
    cases h
    refine ⟨aside_release hget (Dict.set_set _ _ _ _) rfl rfl rfl rfl,
      .inr (releases_of_eq rfl rfl), fun _ => ⟨?_, releases_of_eq rfl rfl, agg.task, ?_, hacc⟩, ?_⟩
    · rw [releaseDispatch_state]
      exact state?_set (Dict.set_set _ _ _ _) rfl
    · rw [contract?, hget, Option.map_some]
    · exact fun hne => absurd hd hne

theorem qaReview_ok (h : c.qaReview api uuid4 r = (.ok d, c')) : Reviewed api r d c c' := by
  rw [qaReview, withTask] at h
  cases hqa : c.identities.require r.qa .qa with
  | error e => rw [hqa] at h; cases h
  | ok _ =>
    rw [hqa, orRaise_ok] at h
    cases hget : c.tasks.get? r.taskId with
    | none => rw [hget] at h; cases h
    | some agg =>
      rw [hget] at h
      dsimp only at h
      split at h
      next dispatch hs hd =>
        change (if 3 ≤ currentRound c r then _ else _) = _ at h
        split at h
        next =>
          cases h
          exact reviewed_block hget rfl rfl rfl rfl rfl rfl
        next hcap =>
          have hnonneg : 0 ≤ currentRound c r := le_max_of_le_right (le_max_right _ _)
          cases hgate : QaEvidenceGate.create agg.task.acceptanceCriteria c.testHashes with
          | error e => rw [hgate] at h; cases h
          | ok gate =>
            rw [hgate, orRaise_ok] at h
            obtain rfl := create_ok hgate
            rcases hcheck : QaEvidenceGate.check ⟨agg.task.acceptanceCriteria, c.testHashes⟩
              c.receipts c.identities uuid4 r.qa r.evidence r.checkout agg.task.taskId
              dispatch.dispatchId agg.task.treeSha (currentRound c r) with
              ⟨decision, verdict, receipts⟩
            have hsettle : settleReview api r agg (currentRound c r) decision verdict
                { c with receipts } = (.ok d, c') := by
              rw [← h]
              change _ = settleReview api r agg (currentRound c r)
                (QaEvidenceGate.check ⟨agg.task.acceptanceCriteria, c.testHashes⟩ _ _ _ _ _ _ _ _
                  _ (currentRound c r)).1 (QaEvidenceGate.check _ _ _ _ _ _ _ _ _ _
                  (currentRound c r)).2.1 { c with receipts := (QaEvidenceGate.check _ _ _ _ _ _ _ _
                  _ _ (currentRound c r)).2.2 }
              rw [hcheck]
            rcases check_status hnonneg hcap hcheck with ⟨hv, hstatus⟩ | ⟨rfl, hstatus⟩
            · obtain ⟨v, rfl⟩ := Option.isSome_iff_exists.mp hv
              obtain ⟨hacc, -⟩ := check_some agg.task.criteria.2.2 hcheck
              simp only [settleReview, hstatus] at hsettle
              exact passReview_reviewed hget hacc hstatus hsettle
            · exact failReview_reviewed hget hs (by simp [hstatus]) hsettle
      next => cases h

end Reviews

end SubagentBridge.Team
