import Mathlib.Data.Finset.Card
import SubagentBridge.Planner.DurableBudgetLaws
import SubagentBridge.Team.FailedBegins
import SubagentBridge.Team.FixRounds
import SubagentBridge.Team.TreeUpdates

/-! The reservations of a coordinator that is the only user of its ledger, and the tasks that hold
them. -/

namespace SubagentBridge.Team

open Library Domain Planner Qa SupervisedCoordinator

variable {B : Type} {api : BudgetApi B} {c c' : SupervisedCoordinator B} {uuid4 id : String}
variable {agg agg' : TaskAggregate}

/-! ## Ledgers -/

/-- A budget ledger: the reservations that it holds, and what its calls make of them. -/
structure Ledger (api : BudgetApi B) where
  Holds : B → String → Prop
  count : ∀ {b snap} {ids : Finset String}, api.snapshot b = .ok snap →
    (∀ x ∈ ids, Holds b x) → ids.card ≤ snap.active
  reserve : ∀ {b x tokens cost y}, Holds (api.reserve x tokens cost b).2 y ↔
    Holds b y ∨ (api.reserve x tokens cost b).1 = .ok () ∧ y = x
  release : ∀ {b x y}, Holds (api.release x b).2 y ↔
    Holds b y ∧ ¬ ((api.release x b).1 = .ok () ∧ y = x)
  workers_reserve : ∀ b x tokens cost, api.maxWorkers (api.reserve x tokens cost b).2 =
    api.maxWorkers b
  workers_release : ∀ b x, api.maxWorkers (api.release x b).2 = api.maxWorkers b

theorem card_le_of_keys {κ α : Type} [DecidableEq κ] {d : Dict κ α} {f : String → κ}
    (hf : Function.Injective f) {ids : Finset String} (h : ∀ x ∈ ids, f x ∈ d.keys) :
    ids.card ≤ d.length := by
  classical
  have hsub : ids.image f ⊆ d.keys.toFinset := by
    intro k hk
    obtain ⟨x, hx, rfl⟩ := Finset.mem_image.mp hk
    exact List.mem_toFinset.mpr (h x hx)
  calc ids.card = (ids.image f).card := (Finset.card_image_of_injective _ hf).symm
    _ ≤ d.keys.toFinset.card := Finset.card_le_card hsub
    _ ≤ d.keys.length := List.toFinset_card_le _
    _ = d.length := List.length_map _

theorem memory_reserve (b : BudgetLedger) (x : String) (tokens cost : Int) :
    (∃ e, BudgetLedger.api.reserve x tokens cost b = (.error e, b)) ∨ ∃ t k r,
      BudgetLedger.api.reserve x tokens cost b =
        (.ok (), { b with tokens := t, cost := k, reservations := b.reservations.set x r }) := by
  rw [BudgetLedger.api]
  cases h : b.reserve x tokens cost with
  | error e => exact .inl ⟨e, by simp only [h, orRaise_error]⟩
  | ok p =>
    simp only [h, orRaise_ok]
    simp only [BudgetLedger.reserve, bind_ok, require_ok] at h
    obtain ⟨_, -, _, -, _, -, h⟩ := h
    cases h
    exact .inr ⟨_, _, _, rfl⟩

theorem memory_release (b : BudgetLedger) (x : String) :
    (∃ e, BudgetLedger.api.release x b = (.error e, b)) ∨ ∃ t k,
      BudgetLedger.api.release x b =
        (.ok (), { b with tokens := t, cost := k, reservations := b.reservations.erase x }) := by
  rw [BudgetLedger.api]
  cases h : b.release x 0 0 with
  | error e => exact .inl ⟨e, by simp only [h, orRaise_error]⟩
  | ok b' =>
    simp only [h, orRaise_ok]
    simp only [BudgetLedger.release, bind_ok] at h
    obtain ⟨_, -, h⟩ := h
    split at h
    next => cases h
    next =>
      obtain ⟨_, -, h⟩ := bind_ok.mp h
      cases h
      exact .inr ⟨_, _, rfl⟩

def memoryLedger : Ledger BudgetLedger.api where
  Holds b x := b.reservations.get? x ≠ none
  count h hids := by
    cases h
    exact card_le_of_keys Function.injective_id fun x hx =>
      by_contra fun hmem => hids x hx (Dict.notMem_keys.mp hmem)
  reserve := by
    intro b x tokens cost y
    obtain ⟨e, h⟩ | ⟨t, k, r, h⟩ := memory_reserve b x tokens cost
    · simp [h]
    · simp only [h, Dict.get?_set]
      grind
  release := by
    intro b x y
    obtain ⟨e, h⟩ | ⟨t, k, h⟩ := memory_release b x
    · simp [h]
    · simp only [h, Dict.get?_erase]
      grind
  workers_reserve b x tokens cost := by
    obtain ⟨e, h⟩ | ⟨t, k, r, h⟩ := memory_reserve b x tokens cost
    · rw [h]
    · rw [h]; rfl
  workers_release b x := by
    obtain ⟨e, h⟩ | ⟨t, k, h⟩ := memory_release b x
    · rw [h]
    · rw [h]; rfl

theorem durable_exec (b : Opened) (o : DurableBudgetLedger.Op) :
    (∃ e, DurableBudgetLedger.exec o (b.fails o) b.db = (.error e, b.db)) ∨
      DurableBudgetLedger.exec o (b.fails o) b.db = DurableBudgetLedger.run o b.db := by
  rw [DurableBudgetLedger.exec]
  split
  next => exact .inl ⟨_, rfl⟩
  next => exact .inr rfl

theorem durable_reserve (b : Opened) (x : String) (tokens cost : Int) :
    (∃ e, Opened.budget.reserve x tokens cost b = (.error e, b)) ∨ ∃ ledgers r,
      Opened.budget.reserve x tokens cost b =
        (.ok (), { b with db := ⟨ledgers, b.db.reservations.set (b.ledgerId, x) r⟩ }) := by
  simp only [Opened.budget, Opened.run, DurableBudgetLedger.reserve, Proc.bind_eq,
    Proc.solo_require_bind]
  split
  next =>
    rw [solo_perform]
    obtain ⟨e, h⟩ | h := durable_exec b (.reserve b.ledgerId x tokens cost)
    · exact .inl ⟨_, by rw [h]; rfl⟩
    · rw [h, DurableBudgetLedger.run]
      obtain ⟨e, -, h⟩ | ⟨r, db, hr, h⟩ :=
        atomically_cases (DurableBudgetLedger.Db.reserve b.ledgerId x tokens cost) b.db
      · exact .inl ⟨_, by rw [h]; rfl⟩
      · obtain ⟨row, -, -, -, rfl⟩ := DurableBudgetLedger.reserve_ok hr
        exact .inr ⟨_, _, by rw [h]; rfl⟩
  next => exact .inl ⟨_, rfl⟩

theorem durable_release (b : Opened) (x : String) :
    (∃ e, Opened.budget.release x b = (.error e, b)) ∨ ∃ ledgers,
      Opened.budget.release x b =
        (.ok (), { b with db := ⟨ledgers, b.db.reservations.erase (b.ledgerId, x)⟩ }) := by
  simp only [Opened.budget, Opened.run, DurableBudgetLedger.release, Proc.bind_eq,
    Proc.solo_require_bind]
  split
  next =>
    rw [solo_perform]
    obtain ⟨e, h⟩ | h := durable_exec b (.release b.ledgerId x 0 0)
    · exact .inl ⟨_, by rw [h]; rfl⟩
    · rw [h, DurableBudgetLedger.run]
      obtain ⟨e, -, h⟩ | ⟨_, db, hr, h⟩ :=
        atomically_cases (DurableBudgetLedger.Db.release b.ledgerId x 0 0) b.db
      · exact .inl ⟨_, by rw [h]; rfl⟩
      · obtain ⟨_, row, -, -, -, rfl⟩ := DurableBudgetLedger.release_ok hr
        exact .inr ⟨_, by rw [h]; rfl⟩
  next => exact .inl ⟨_, rfl⟩

theorem durable_count {b : Opened} {snap : Snapshot} {ids : Finset String}
    (h : Opened.budget.snapshot b = .ok snap)
    (hids : ∀ x ∈ ids, b.db.reservations.get? (b.ledgerId, x) ≠ none) :
    ids.card ≤ snap.active := by
  rw [(snapshot_ok h).2.2, DurableBudgetLedger.Db.activeCount]
  apply card_le_of_keys (f := (b.ledgerId, ·)) (Prod.mk_right_injective _)
  intro x hx
  obtain ⟨r, hr⟩ := Option.ne_none_iff_exists'.mp (hids x hx)
  exact List.mem_map_of_mem (List.mem_filter.mpr ⟨Dict.mem_of_get? hr, by simp⟩)

def durableLedger : Ledger Opened.budget where
  Holds b x := b.db.reservations.get? (b.ledgerId, x) ≠ none
  count := durable_count
  reserve := by
    intro b x tokens cost y
    obtain ⟨e, h⟩ | ⟨ledgers, r, h⟩ := durable_reserve b x tokens cost
    · simp [h]
    · simp only [h, Dict.get?_set]
      grind
  release := by
    intro b x y
    obtain ⟨e, h⟩ | ⟨ledgers, h⟩ := durable_release b x
    · simp [h]
    · simp only [h, Dict.get?_erase]
      grind
  workers_reserve b x tokens cost := by
    obtain ⟨e, h⟩ | ⟨ledgers, r, h⟩ := durable_reserve b x tokens cost
    · rw [h]
    · rw [h]; rfl
  workers_release b x := by
    obtain ⟨e, h⟩ | ⟨ledgers, h⟩ := durable_release b x
    · rw [h]
    · rw [h]; rfl

/-! ## What a call books -/

def Outstanding (agg : TaskAggregate) : Prop := InFlight agg ∨ agg.state = .recoveryRequired

structure Steady (agg agg' : TaskAggregate) : Prop where
  dispatch : ∀ d, agg'.activeDispatch = some d → agg.activeDispatch = some d
  inFlight : InFlight agg' → InFlight agg ∧ agg'.activeDispatch = agg.activeDispatch
  outstanding : Outstanding agg → Outstanding agg' ∧ agg'.activeDispatch = agg.activeDispatch

structure Ended (agg agg' : TaskAggregate) : Prop where
  dispatch : ∀ d, agg'.activeDispatch = some d → agg.activeDispatch = some d
  ended : ¬ InFlight agg'

/-- What a release of the dispatch of `id` makes of the task `id'`. -/
def Freed (id id' : String) (agg agg' : TaskAggregate) : Prop :=
  if id' = id then Ended agg agg' else agg' = agg

theorem Steady.refl (agg : TaskAggregate) : Steady agg agg :=
  ⟨fun _ h => h, fun h => ⟨h, rfl⟩, fun h => ⟨h, rfl⟩⟩

theorem Steady.closed (hd : ∀ d, agg'.activeDispatch = some d → agg.activeDispatch = some d)
    (h : ¬ Outstanding agg) (h' : ¬ InFlight agg') : Steady agg agg' :=
  ⟨hd, fun hin => absurd hin h', fun hout => absurd hout h⟩

def GivesBack (api : BudgetApi B) (c : SupervisedCoordinator B) (id : String) : Prop :=
  ∀ x ∈ c.activeIds.get? id, (api.release x c.budget).1 = .ok ()

inductive Booking (api : BudgetApi B) (uuid4 : String) (c c' : SupervisedCoordinator B) : Prop
  | steady : c'.activeIds = c.activeIds → c'.budget = c.budget →
      (∀ id, Option.Rel Steady (c.tasks.get? id) (c'.tasks.get? id)) → Booking api uuid4 c c'
  | begins (id : String) (agg agg' : TaskAggregate) (d : Dispatch) (tokens cost : Int)
      (snap : Snapshot) : c.tasks.get? id = some agg → agg.state = .frozen →
      api.snapshot c.budget = .ok snap → snap.active < api.maxWorkers c.budget →
      c'.tasks = c.tasks.set id agg' → agg'.activeDispatch = some d → d.dispatchId = uuid4 →
      c'.budget = (api.reserve uuid4 tokens cost c.budget).2 →
      ((api.reserve uuid4 tokens cost c.budget).1 = .ok () ∧ agg'.state = .dispatched ∧
        c'.activeIds = c.activeIds.set id uuid4 ∨
      (∀ u, (api.reserve uuid4 tokens cost c.budget).1 ≠ .ok u) ∧ agg'.state = .recoveryRequired ∧
        c'.activeIds = c.activeIds) → Booking api uuid4 c c'
  | frees (id : String) : GivesBack api c id → c'.activeIds = (c.releaseDispatch api id).activeIds →
      c'.budget = (c.releaseDispatch api id).budget →
      (∀ id', Option.Rel (Freed id id') (c.tasks.get? id') (c'.tasks.get? id')) →
      Booking api uuid4 c c'

theorem rel_refl {R : TaskAggregate → TaskAggregate → Prop} (hR : ∀ agg, R agg agg)
    (x : Option TaskAggregate) : Option.Rel R x x := by
  cases x with
  | none => exact .none
  | some agg => exact .some (hR agg)

theorem Booking.same (h : c'.tasks = c.tasks) (hids : c'.activeIds = c.activeIds)
    (hb : c'.budget = c.budget) : Booking api uuid4 c c' :=
  .steady hids hb fun _ => h ▸ rel_refl Steady.refl _

theorem Booking.refl : Booking api uuid4 c c := .same rfl rfl rfl

theorem Booking.set (hget : c.tasks.get? id = some agg) (hs : Steady agg agg')
    (h : c'.tasks = c.tasks.set id agg') (hids : c'.activeIds = c.activeIds)
    (hb : c'.budget = c.budget) : Booking api uuid4 c c' := by
  refine .steady hids hb fun id' => ?_
  rw [h, Dict.get?_set]
  split
  next hid =>
    subst hid
    rw [hget]
    exact .some hs
  next => exact rel_refl Steady.refl _

theorem Booking.close (hback : GivesBack api c id) (hget : c.tasks.get? id = some agg)
    (he : Ended agg agg')
    (h : c'.tasks = c.tasks.set id agg')
    (hids : c'.activeIds = (c.releaseDispatch api id).activeIds)
    (hb : c'.budget = (c.releaseDispatch api id).budget) : Booking api uuid4 c c' := by
  refine .frees id hback hids hb fun id' => ?_
  rw [h, Dict.get?_set]
  split
  next hid =>
    subst hid
    rw [hget]
    exact .some (by rwa [Freed, if_pos rfl])
  next hid => exact rel_refl (fun agg => by rw [Freed, if_neg (Ne.symm hid)]) _

theorem freeze_booking (pm : Principal) : Booking api uuid4 c (c.freeze id pm).2 := by
  refine orRaise_snd .refl fun _ _ => withTask_snd .refl fun agg hagg =>
    orRaise_snd .refl fun agg' h => ?_
  simp only [TaskAggregate.freeze, bind_ok, require_ok] at h
  obtain ⟨_, -, _, hs, h⟩ := h
  have hsteady : Steady agg agg' := by
    cases h
    refine .closed (fun _ h => h) ?_ ?_
    · rcases hs with hs | hs <;> simp [Outstanding, InFlight, hs]
    · simp [InFlight]
  exact .set hagg hsteady rfl rfl rfl

theorem reportProcessSucceeded_booking (developer : Principal) (dispatchId tree : String) :
    Booking api uuid4 c (c.reportProcessSucceeded developer id dispatchId tree).2 := by
  refine orRaise_snd .refl fun _ _ => withTask_snd .refl fun agg hagg =>
    orRaise_snd .refl fun agg' h => ?_
  simp only [TaskAggregate.processSucceeded, bind_ok, require_ok] at h
  obtain ⟨_, -, _, hs, h⟩ := h
  have hsteady : Steady agg agg' := by
    cases h
    exact ⟨fun _ h => h, fun _ => ⟨.inl hs, rfl⟩, fun _ => ⟨.inl (.inr rfl), rfl⟩⟩
  exact .set hagg hsteady rfl rfl rfl

theorem dispatch_record (uuid4 : String) (hs : agg.state = .frozen)
    (identities : IdentityRegistry) (pm : Principal) (key : String) :
    (∃ e agg', agg.dispatch identities uuid4 pm key = (.error e, agg') ∧ agg'.state = .frozen ∧
      agg'.activeDispatch = agg.activeDispatch) ∨
    ∃ d agg', agg.dispatch identities uuid4 pm key = (.ok d, agg') ∧ agg'.state = .dispatched ∧
      agg'.activeDispatch = some d ∧ d.dispatchId = uuid4 := by
  rw [TaskAggregate.dispatch]
  cases identities.require pm .pm with
  | error e => exact .inl ⟨e, agg, rfl, hs, rfl⟩
  | ok _ =>
    rw [orRaise_ok, hs, require, if_pos rfl, orRaise_ok]
    by_cases hkey : key ≠ "" ∧ key ∉ agg.usedKeys
    · rw [require, if_pos hkey, orRaise_ok]
      dsimp only
      cases hd : Dispatch.create uuid4 agg.task.taskId (agg.attempt + 1) key agg.task.treeSha
        agg.task.policyRevision with
      | error e => exact .inl ⟨e, _, rfl, rfl, rfl⟩
      | ok d =>
        simp only [Dispatch.create, bind_ok] at hd
        obtain ⟨_, -, _, -, _, -, _, -, _, -, _, -, hd⟩ := hd
        cases hd
        exact .inr ⟨_, _, rfl, rfl, rfl, rfl⟩
    · rw [require, if_neg hkey]
      exact .inl ⟨_, agg, rfl, hs, rfl⟩

theorem begin_booking (pm : Principal) (key : String) (tokens cost : Int) :
    Booking api uuid4 c (c.begin api uuid4 id pm key tokens cost).2 := by
  refine orRaise_snd .refl fun _ _ => withTask_snd .refl fun agg hagg =>
    orRaise_snd .refl fun _ hpre => ?_
  obtain ⟨hs, -, -, snap, hsnap, hroom⟩ := precheck_parts hpre
  have hactive : snap.active < api.maxWorkers c.budget := by omega
  obtain ⟨e, agg', h, hs', hd⟩ | ⟨d, agg', h, hs', hd, hid⟩ :=
    dispatch_record uuid4 hs c.identities pm key
  · have hsteady : Steady agg agg' := by
      apply Steady.closed fun _ h => hd ▸ h
      · simp [Outstanding, InFlight, hs]
      · simp [InFlight, hs']
    simp only [h, orRaise_error]
    exact .set hagg hsteady rfl rfl rfl
  · simp only [h, orRaise_ok]
    subst hid
    rcases hr : api.reserve d.dispatchId tokens cost c.budget with ⟨e | _, budget⟩
    · simp only [setTask, hr, orRaise_error]
      refine .begins id agg agg'.recoverUnknown d tokens cost snap hagg hs hsnap hactive ?_ hd rfl
        (by rw [hr]) (.inr ⟨by simp [hr], rfl, rfl⟩)
      exact Dict.set_set _ _ _ _
    · simp only [setTask, hr, orRaise_ok]
      exact .begins id agg agg' d tokens cost snap hagg hs hsnap hactive rfl hd rfl (by rw [hr])
        (.inl ⟨by rw [hr], hs', rfl⟩)

theorem releaseDispatch_ledger (hids : c'.activeIds = c.activeIds) (hb : c'.budget = c.budget) :
    (c'.releaseDispatch api id).activeIds = (c.releaseDispatch api id).activeIds ∧
      (c'.releaseDispatch api id).budget = (c.releaseDispatch api id).budget := by
  rw [releaseDispatch, releaseDispatch, hids, hb]
  split
  next => exact ⟨hids, hb⟩
  next => exact ⟨rfl, rfl⟩

theorem Booking.release (hback : GivesBack api c id) (hget : c.tasks.get? id = some agg)
    (he : Ended agg agg')
    (h : c'.tasks = c.tasks.set id agg') (hids : c'.activeIds = c.activeIds)
    (hb : c'.budget = c.budget) : Booking api uuid4 c (c'.releaseDispatch api id) := by
  exact .close hback hget he ((releaseDispatch_tasks id).trans h)
    (releaseDispatch_ledger hids hb).1 (releaseDispatch_ledger hids hb).2

theorem ended_block : Ended agg agg.block := ⟨fun _ h => h, by simp [InFlight, TaskAggregate.block]⟩

theorem settleReview_booking {r : QaReview} {currentRound : Int} {decision : EvidenceDecision}
    {v : Option QaVerdict} {receipts : ReceiptIssuerRegistry}
    (hback : GivesBack api c r.taskId) (hagg : c.tasks.get? r.taskId = some agg) :
    Booking api uuid4 c
      (settleReview api r agg currentRound decision v { c with receipts }).2 := by
  unfold settleReview
  split
  next v _ =>
    rw [passReview]
    refine orRaise_snd (.same rfl rfl rfl) fun agg' h => ?_
    obtain ⟨d, hs, hd, -, -, -, -, hmark⟩ := qaVerified_ok h
    simp only [setTask, hmark, orRaise_ok]
    have hended : Ended agg { agg with
        state := .verified, qaVerdict := some v, verifiedTreeSha := some agg.task.treeSha } :=
      ⟨fun _ h => h, by simp [InFlight]⟩
    exact .release hback hagg hended (Dict.set_set _ _ _ _) rfl rfl
  next =>
    rw [failReview]
    split
    next => exact .release hback hagg ended_block rfl rfl rfl
    next => exact .same rfl rfl rfl

theorem qaReview_booking {r : QaReview} (hback : GivesBack api c r.taskId) :
    Booking api uuid4 c (c.qaReview api uuid4 r).2 := by
  refine orRaise_snd .refl fun _ _ => withTask_snd .refl fun agg hagg => ?_
  split
  next =>
    dsimp only
    split
    next => exact .release hback hagg ended_block rfl rfl rfl
    next => exact orRaise_snd .refl fun _ _ => settleReview_booking hback hagg
  next => exact .refl

theorem Booking.free (hback : GivesBack api c id)
    (h : ∀ agg, c.tasks.get? id = some agg → ¬ InFlight agg) :
    Booking api uuid4 c (c.releaseDispatch api id) := by
  refine .frees id hback rfl rfl fun id' => ?_
  rw [releaseDispatch_tasks]
  cases hget : c.tasks.get? id' with
  | none => exact .none
  | some agg =>
    apply Option.Rel.some
    rw [Freed]
    split
    next hid => exact ⟨fun _ h => h, h agg (hid ▸ hget)⟩
    next => rfl

theorem reconcileRecovery_booking (hback : GivesBack api c id) (pm : Principal)
    (newTreeSha : Option String) :
    Booking api uuid4 c (c.reconcileRecovery api id pm newTreeSha).2 := by
  refine orRaise_snd .refl fun _ _ => withTask_snd .refl fun agg hagg =>
    orRaise_snd .refl fun _ hs => ?_
  have hs := require_ok.mp hs
  refine orRaise_snd (.free hback ?_) fun agg' h => ?_
  · intro agg₀ hagg₀
    cases hagg.symm.trans hagg₀
    simp [InFlight, hs]
  · simp only [TaskAggregate.reconcile, bind_ok] at h
    obtain ⟨_, -, _, -, task, -, h⟩ := h
    have hended : Ended agg agg' := by
      cases h
      exact ⟨by simp, by simp [InFlight]⟩
    exact .close hback hagg hended
      (congrArg (Dict.set · id agg') (releaseDispatch_tasks id)) rfl rfl

theorem changeTree_steady {tree : String} (hout : ¬ Outstanding agg)
    (h : agg.changeTree tree = .ok agg') : Steady agg agg' := by
  rw [TaskAggregate.changeTree] at h
  obtain ⟨_, -, h⟩ := bind_ok.mp h
  split at h
  next =>
    cases h
    exact .refl agg
  next =>
    obtain ⟨_, -, h⟩ := bind_ok.mp h
    obtain ⟨task, -, h⟩ := bind_ok.mp h
    cases h
    exact .closed (by simp) hout (by simp [InFlight])

theorem recoverUnknown_steady (agg : TaskAggregate) : Steady agg agg.recoverUnknown :=
  ⟨fun _ h => h, by simp [InFlight, TaskAggregate.recoverUnknown], fun _ => ⟨.inr rfl, rfl⟩⟩

theorem updateOne_steady {tree : String} (h : updateOne tree agg = .ok agg') :
    Steady agg agg' := by
  rw [updateOne] at h
  split at h
  next => cases h; exact .refl agg
  next =>
    split at h
    next => cases h; exact recoverUnknown_steady agg
    next => cases h; exact recoverUnknown_steady agg
    next => cases h; exact .refl agg
    next hs =>
      obtain ⟨task, -, h⟩ := bind_ok.mp h
      cases h
      exact .closed (fun _ h => h) (by simp [Outstanding, InFlight, hs]) (by simp [InFlight, hs])
    next hd hp hr _ => exact changeTree_steady (fun h => h.elim (fun h => h.elim hd hp) hr) h

theorem updateAll_steady (tree : String) (tasks : Dict String TaskAggregate) :
    Option.Rel Steady (tasks.get? id) ((updateAll tree tasks).2.get? id) := by
  induction tasks with
  | nil => exact .none
  | cons p tasks ih =>
    rw [updateAll]
    cases h : updateOne tree p.2 with
    | error e => exact rel_refl Steady.refl _
    | ok agg' =>
      rw [orRaise_ok, Dict.get?_cons, Dict.get?_cons]
      split
      next => exact .some (updateOne_steady h)
      next => exact ih

/-! ## Runs -/

section

variable {uuid4 : Nat → String} {s t : State B} {q : Call B}

/-- The coordinator is the only user of its ledger, which gives back what it holds, and no
dispatch is released while it is in flight. -/
def Orderly (api : BudgetApi B) (s : State B) : Call B → Prop
  | .releaseDispatch id => (∀ agg ∈ s.coordinator.tasks.get? id, ¬ InFlight agg) ∧
      GivesBack api s.coordinator id
  | .qaReview r => GivesBack api s.coordinator r.taskId
  | .reconcileRecovery id _ _ => GivesBack api s.coordinator id
  | .otherBudgetUse _ => False
  | _ => True

theorem perform_booking {uuid4 : String} (hq : Orderly api s q) :
    Booking api uuid4 s.coordinator (perform api uuid4 s.coordinator q) := by
  cases q with
  | register => rw [perform]; split <;> exact .same rfl rfl rfl
  | issue => rw [perform]; split <;> exact .same rfl rfl rfl
  | createEvidence => rw [perform]; split <;> exact .same rfl rfl rfl
  | createQaVerdict => rw [perform]; split <;> exact .same rfl rfl rfl
  | freeze taskId pm => exact freeze_booking pm
  | begin taskId pm key tokens cost => exact begin_booking pm key tokens cost
  | reportProcessSucceeded developer taskId dispatchId tree =>
    exact reportProcessSucceeded_booking developer dispatchId tree
  | releaseDispatch taskId => exact .free hq.2 hq.1
  | qaReview r => exact qaReview_booking hq
  | updateTree tree =>
    exact orRaise_snd .refl fun _ _ => .steady rfl rfl fun id => updateAll_steady tree _
  | reconcileRecovery taskId pm newTreeSha => exact reconcileRecovery_booking hq pm newTreeSha
  | otherBudgetUse => exact hq.elim

structure Sound (ledger : Ledger api) (n : Nat) (uuid4 : Nat → String) (s : State B) : Prop where
  drawn : ∀ id agg d, s.coordinator.tasks.get? id = some agg → agg.activeDispatch = some d →
    ∃ i < s.calls, d.dispatchId = uuid4 i
  apart : ∀ id id' agg agg' d d', s.coordinator.tasks.get? id = some agg →
    s.coordinator.tasks.get? id' = some agg' → agg.activeDispatch = some d →
    agg'.activeDispatch = some d' → d.dispatchId = d'.dispatchId → id = id'
  entered : ∀ id x, s.coordinator.activeIds.get? id = some x →
    ledger.Holds s.coordinator.budget x ∧ ∃ agg d, s.coordinator.tasks.get? id = some agg ∧
      agg.activeDispatch = some d ∧ d.dispatchId = x ∧ Outstanding agg
  inFlight : ∀ id agg, s.coordinator.tasks.get? id = some agg → InFlight agg →
    ∃ d, agg.activeDispatch = some d ∧ s.coordinator.activeIds.get? id = some d.dispatchId
  held : ∀ x, ledger.Holds s.coordinator.budget x →
    ∃ id, s.coordinator.activeIds.get? id = some x
  room : ∀ ids : Finset String, (∀ x ∈ ids, ledger.Holds s.coordinator.budget x) →
    ids.card ≤ n
  workers : api.maxWorkers s.coordinator.budget = n

variable {ledger : Ledger api} {n : Nat}

theorem rel_some {R : TaskAggregate → TaskAggregate → Prop} {x : Option TaskAggregate}
    (h : Option.Rel R x (some agg')) : ∃ agg, x = some agg ∧ R agg agg' := by
  cases h with
  | some h => exact ⟨_, rfl, h⟩

theorem some_rel {R : TaskAggregate → TaskAggregate → Prop} {x : Option TaskAggregate}
    (h : Option.Rel R (some agg) x) : ∃ agg', x = some agg' ∧ R agg agg' := by
  cases h with
  | some h => exact ⟨_, rfl, h⟩

theorem none_rel {R : TaskAggregate → TaskAggregate → Prop} {x : Option TaskAggregate}
    (h : Option.Rel R none x) : x = none := by
  cases h
  rfl

theorem Sound.dispatches (hs : Sound ledger n uuid4 s)
    (h : ∀ id agg d, c'.tasks.get? id = some agg → agg.activeDispatch = some d →
      ∃ agg, s.coordinator.tasks.get? id = some agg ∧ agg.activeDispatch = some d) :
    (∀ id agg d, c'.tasks.get? id = some agg → agg.activeDispatch = some d →
      ∃ i < s.calls + 1, d.dispatchId = uuid4 i) ∧
    ∀ id id' agg agg' d d', c'.tasks.get? id = some agg → c'.tasks.get? id' = some agg' →
      agg.activeDispatch = some d → agg'.activeDispatch = some d' → d.dispatchId = d'.dispatchId →
      id = id' := by
  constructor
  · intro id agg d hget hd
    obtain ⟨agg₀, hget₀, hd₀⟩ := h id agg d hget hd
    obtain ⟨n, hn, hid⟩ := hs.drawn id agg₀ d hget₀ hd₀
    exact ⟨n, by omega, hid⟩
  · intro id id' agg agg' d d' hget hget' hd hd' heq
    obtain ⟨agg₀, hget₀, hd₀⟩ := h id agg d hget hd
    obtain ⟨agg₁, hget₁, hd₁⟩ := h id' agg' d' hget' hd'
    exact hs.apart id id' agg₀ agg₁ d d' hget₀ hget₁ hd₀ hd₁ heq

theorem Sound.steady (hs : Sound ledger n uuid4 s) (hids : c'.activeIds = s.coordinator.activeIds)
    (hb : c'.budget = s.coordinator.budget)
    (h : ∀ id, Option.Rel Steady (s.coordinator.tasks.get? id) (c'.tasks.get? id)) :
    Sound ledger n uuid4 ⟨c', s.calls + 1⟩ := by
  have hback : ∀ id agg, c'.tasks.get? id = some agg →
      ∃ agg₀, s.coordinator.tasks.get? id = some agg₀ ∧ Steady agg₀ agg := by
    intro id agg hget
    exact rel_some (hget ▸ h id)
  have hold : ∀ id agg d, c'.tasks.get? id = some agg → agg.activeDispatch = some d →
      ∃ agg, s.coordinator.tasks.get? id = some agg ∧ agg.activeDispatch = some d := by
    intro id agg d hget hd
    obtain ⟨agg₀, hget₀, hsteady⟩ := hback id agg hget
    exact ⟨agg₀, hget₀, hsteady.dispatch d hd⟩
  obtain ⟨hdrawn, hapart⟩ := hs.dispatches hold
  refine ⟨hdrawn, hapart, ?_, ?_, ?_, ?_, hb ▸ hs.workers⟩
  · intro id x hx
    obtain ⟨hheld, agg, d, hget, hd, hid, hout⟩ := hs.entered id x (hids ▸ hx)
    obtain ⟨agg', hget', hsteady⟩ := some_rel (hget ▸ h id)
    obtain ⟨hout', hsame⟩ := hsteady.outstanding hout
    exact ⟨hb ▸ hheld, agg', d, hget', hsame.trans hd, hid, hout'⟩
  · intro id agg hget hin
    obtain ⟨agg₀, hget₀, hsteady⟩ := hback id agg hget
    obtain ⟨hin₀, hsame⟩ := hsteady.inFlight hin
    obtain ⟨d, hd, hx⟩ := hs.inFlight id agg₀ hget₀ hin₀
    exact ⟨d, hsame.trans hd, hids ▸ hx⟩
  · exact hids ▸ hb ▸ hs.held
  · exact hb ▸ hs.room

theorem release_activeIds (c : SupervisedCoordinator B) (id id' : String) :
    (c.releaseDispatch api id).activeIds.get? id' =
      if id = id' then none else c.activeIds.get? id' := by
  rw [releaseDispatch]
  split
  next h =>
    split
    next hid => exact hid ▸ h
    next => rfl
  next => exact Dict.get?_erase _ _ _

theorem release_holds (hback : GivesBack api c id) {x : String} :
    ledger.Holds (c.releaseDispatch api id).budget x ↔
      ledger.Holds c.budget x ∧ c.activeIds.get? id ≠ some x := by
  rw [releaseDispatch]
  split
  next h => simp [h]
  next y h =>
    dsimp only
    rw [ledger.release, hback y h, h]
    simp [eq_comm]

theorem release_workers (ledger : Ledger api) (c : SupervisedCoordinator B) (id : String) :
    api.maxWorkers (c.releaseDispatch api id).budget = api.maxWorkers c.budget := by
  rw [releaseDispatch]
  split
  next => rfl
  next => exact ledger.workers_release _ _

theorem Sound.frees (hs : Sound ledger n uuid4 s) (hback : GivesBack api s.coordinator id)
    (hids : c'.activeIds = (s.coordinator.releaseDispatch api id).activeIds)
    (hb : c'.budget = (s.coordinator.releaseDispatch api id).budget)
    (h : ∀ id', Option.Rel (Freed id id') (s.coordinator.tasks.get? id') (c'.tasks.get? id')) :
    Sound ledger n uuid4 ⟨c', s.calls + 1⟩ := by
  have hother : ∀ id', id' ≠ id → c'.tasks.get? id' = s.coordinator.tasks.get? id' := by
    intro id' hne
    have hrel := h id'
    cases hx : s.coordinator.tasks.get? id' with
    | none => exact none_rel (hx ▸ hrel)
    | some agg =>
      obtain ⟨agg', hget, hfreed⟩ := some_rel (hx ▸ hrel)
      rw [Freed, if_neg hne] at hfreed
      rw [hget, hfreed]
  have hended : ∀ agg, c'.tasks.get? id = some agg →
      ∃ agg₀, s.coordinator.tasks.get? id = some agg₀ ∧ Ended agg₀ agg := by
    intro agg hget
    obtain ⟨agg₀, hget₀, hfreed⟩ := rel_some (hget ▸ h id)
    exact ⟨agg₀, hget₀, by rwa [Freed, if_pos rfl] at hfreed⟩
  have hold : ∀ id' agg d, c'.tasks.get? id' = some agg → agg.activeDispatch = some d →
      ∃ agg, s.coordinator.tasks.get? id' = some agg ∧ agg.activeDispatch = some d := by
    intro id' agg d hget hd
    by_cases hid : id' = id
    · subst hid
      obtain ⟨agg₀, hget₀, he⟩ := hended agg hget
      exact ⟨agg₀, hget₀, he.dispatch d hd⟩
    · exact ⟨agg, hother id' hid ▸ hget, hd⟩
  obtain ⟨hdrawn, hapart⟩ := hs.dispatches hold
  refine ⟨hdrawn, hapart, ?_, ?_, ?_, ?_, ?_⟩
  · intro id' x hx
    rw [hids, release_activeIds] at hx
    split at hx
    next => cases hx
    next hid =>
      obtain ⟨hheld, agg, d, hget, hd, hdx, hout⟩ := hs.entered id' x hx
      refine ⟨?_, agg, d, (hother id' (Ne.symm hid)).trans hget, hd, hdx, hout⟩
      rw [hb, release_holds hback]
      refine ⟨hheld, fun hy => hid ?_⟩
      obtain ⟨-, agg', d', hget', hd', hdx', -⟩ := hs.entered id x hy
      exact hs.apart id id' agg' agg d' d hget' hget hd' hd (hdx'.trans hdx.symm)
  · intro id' agg hget hin
    by_cases hid : id' = id
    · subst hid
      obtain ⟨_, -, he⟩ := hended agg hget
      exact absurd hin he.ended
    · obtain ⟨d, hd, hx⟩ := hs.inFlight id' agg (hother id' hid ▸ hget) hin
      exact ⟨d, hd, by rw [hids, release_activeIds, if_neg (Ne.symm hid), hx]⟩
  · intro x hx
    rw [hb, release_holds hback] at hx
    obtain ⟨id', hx'⟩ := hs.held x hx.1
    refine ⟨id', ?_⟩
    rw [hids, release_activeIds, if_neg, hx']
    rintro rfl
    exact hx.2 hx'
  · intro ids hall
    apply hs.room
    intro x hx
    have hheld := hall x hx
    rw [hb, release_holds hback] at hheld
    exact hheld.1
  · exact hb ▸ (release_workers ledger _ _).trans hs.workers

theorem Sound.fresh (hu : Function.Injective uuid4) (hs : Sound ledger n uuid4 s) {d : Dispatch}
    (hget : s.coordinator.tasks.get? id = some agg) (hd : agg.activeDispatch = some d) :
    d.dispatchId ≠ uuid4 s.calls := by
  intro heq
  obtain ⟨m, hm, hid⟩ := hs.drawn id agg d hget hd
  have := hu (hid.symm.trans heq)
  omega

theorem Sound.unlisted (hs : Sound ledger n uuid4 s) (hagg : s.coordinator.tasks.get? id = some agg)
    (hfrozen : agg.state = .frozen) {id' x : String}
    (hx : s.coordinator.activeIds.get? id' = some x) : id ≠ id' := by
  rintro rfl
  obtain ⟨-, agg₀, -, hget, -, -, hout⟩ := hs.entered id x hx
  cases hagg.symm.trans hget
  simp [Outstanding, InFlight, hfrozen] at hout

/-- A task that gets the identifier drawn last stays apart from the others. -/
theorem Sound.draws (hu : Function.Injective uuid4) (hs : Sound ledger n uuid4 s) {d : Dispatch}
    (htasks : c'.tasks = s.coordinator.tasks.set id agg') (hd : agg'.activeDispatch = some d)
    (hid : d.dispatchId = uuid4 s.calls) :
    (∀ id agg d, c'.tasks.get? id = some agg → agg.activeDispatch = some d →
      ∃ i < s.calls + 1, d.dispatchId = uuid4 i) ∧
    ∀ id id' agg agg' d d', c'.tasks.get? id = some agg → c'.tasks.get? id' = some agg' →
      agg.activeDispatch = some d → agg'.activeDispatch = some d' → d.dispatchId = d'.dispatchId →
      id = id' := by
  have hget : ∀ id', c'.tasks.get? id' = if id = id' then some agg'
      else s.coordinator.tasks.get? id' := fun id' => by rw [htasks, Dict.get?_set]
  constructor
  · intro id' agg₁ d₁ hget₁ hd₁
    rw [hget] at hget₁
    split at hget₁
    next =>
      cases hget₁
      cases hd.symm.trans hd₁
      exact ⟨s.calls, Nat.lt_succ_self _, hid⟩
    next =>
      obtain ⟨m, hm, hid⟩ := hs.drawn id' agg₁ d₁ hget₁ hd₁
      exact ⟨m, Nat.lt_succ_of_lt hm, hid⟩
  · intro id₁ id₂ agg₁ agg₂ d₁ d₂ hget₁ hget₂ hd₁ hd₂ heq
    rw [hget] at hget₁ hget₂
    split at hget₁ <;> split at hget₂
    next h₁ h₂ => exact h₁.symm.trans h₂
    next h₁ h₂ =>
      cases hget₁
      cases hd.symm.trans hd₁
      exact absurd (heq.symm.trans hid) (hs.fresh hu hget₂ hd₂)
    next h₁ h₂ =>
      cases hget₂
      cases hd.symm.trans hd₂
      exact absurd (heq.trans hid) (hs.fresh hu hget₁ hd₁)
    next => exact hs.apart id₁ id₂ agg₁ agg₂ d₁ d₂ hget₁ hget₂ hd₁ hd₂ heq

/-- Where the ledger counts fewer reservations than it has room for, one more fits. -/
theorem Sound.reserves_room (hs : Sound ledger n uuid4 s) {tokens cost : Int} {snap : Snapshot}
    {x : String} (hsnap : api.snapshot s.coordinator.budget = .ok snap)
    (hactive : snap.active < api.maxWorkers s.coordinator.budget) (ids : Finset String)
    (hall : ∀ y ∈ ids, ledger.Holds (api.reserve x tokens cost s.coordinator.budget).2 y) :
    ids.card ≤ n := by
  classical
  have hheld : ∀ y ∈ ids.erase x, ledger.Holds s.coordinator.budget y := by
    intro y hy
    obtain ⟨hne, hy⟩ := Finset.mem_erase.mp hy
    have hy := hall y hy
    rw [ledger.reserve] at hy
    exact hy.resolve_right fun h => hne h.2
  have hcount := ledger.count hsnap hheld
  have hcard : ids.card - 1 ≤ (ids.erase x).card := Finset.pred_card_le_card_erase
  have hworkers := hs.workers
  omega

theorem Sound.admits (hu : Function.Injective uuid4) (hs : Sound ledger n uuid4 s) {d : Dispatch}
    {tokens cost : Int} {snap : Snapshot} (hagg : s.coordinator.tasks.get? id = some agg)
    (hfrozen : agg.state = .frozen) (hsnap : api.snapshot s.coordinator.budget = .ok snap)
    (hactive : snap.active < api.maxWorkers s.coordinator.budget)
    (htasks : c'.tasks = s.coordinator.tasks.set id agg') (hd : agg'.activeDispatch = some d)
    (hid : d.dispatchId = uuid4 s.calls)
    (hb : c'.budget = (api.reserve (uuid4 s.calls) tokens cost s.coordinator.budget).2)
    (hok : (api.reserve (uuid4 s.calls) tokens cost s.coordinator.budget).1 = .ok ())
    (hstate : agg'.state = .dispatched)
    (hids : c'.activeIds = s.coordinator.activeIds.set id (uuid4 s.calls)) :
    Sound ledger n uuid4 ⟨c', s.calls + 1⟩ := by
  have hget : ∀ id', c'.tasks.get? id' = if id = id' then some agg'
      else s.coordinator.tasks.get? id' := fun id' => by rw [htasks, Dict.get?_set]
  obtain ⟨hdrawn, hapart⟩ := hs.draws hu htasks hd hid
  refine ⟨hdrawn, hapart, ?_, ?_, ?_, hb ▸ hs.reserves_room hsnap hactive,
    hb ▸ (ledger.workers_reserve _ _ _ _).trans hs.workers⟩
  · intro id' x hx
    rw [hids, Dict.get?_set] at hx
    split at hx
    next hid' =>
      cases hx
      refine ⟨by rw [hb, ledger.reserve]; exact .inr ⟨hok, rfl⟩, agg', d, ?_, hd, hid, ?_⟩
      · rw [hget, if_pos hid']
      · exact .inl (.inl hstate)
    next hne =>
      obtain ⟨hheld, agg₁, d₁, hget₁, hd₁, hx₁, hout⟩ := hs.entered id' x hx
      refine ⟨by rw [hb, ledger.reserve]; exact .inl hheld, agg₁, d₁, ?_, hd₁, hx₁, hout⟩
      rw [hget, if_neg hne, hget₁]
  · intro id' agg₁ hget₁ hin
    rw [hget] at hget₁
    split at hget₁
    next hid' =>
      cases hget₁
      exact ⟨d, hd, by rw [hids, Dict.get?_set, if_pos hid', hid]⟩
    next hne =>
      obtain ⟨d₁, hd₁, hx⟩ := hs.inFlight id' agg₁ hget₁ hin
      exact ⟨d₁, hd₁, by rw [hids, Dict.get?_set, if_neg hne, hx]⟩
  · intro x hx
    rw [hb, ledger.reserve] at hx
    rcases hx with hx | ⟨-, rfl⟩
    · obtain ⟨id', hx'⟩ := hs.held x hx
      exact ⟨id', by rw [hids, Dict.get?_set, if_neg (hs.unlisted hagg hfrozen hx'), hx']⟩
    · exact ⟨id, by rw [hids, Dict.get?_set, if_pos rfl]⟩

theorem Sound.refuses (hu : Function.Injective uuid4) (hs : Sound ledger n uuid4 s) {d : Dispatch}
    {tokens cost : Int} {snap : Snapshot} (hagg : s.coordinator.tasks.get? id = some agg)
    (hfrozen : agg.state = .frozen) (hsnap : api.snapshot s.coordinator.budget = .ok snap)
    (hactive : snap.active < api.maxWorkers s.coordinator.budget)
    (htasks : c'.tasks = s.coordinator.tasks.set id agg') (hd : agg'.activeDispatch = some d)
    (hid : d.dispatchId = uuid4 s.calls)
    (hb : c'.budget = (api.reserve (uuid4 s.calls) tokens cost s.coordinator.budget).2)
    (herr : ∀ u, (api.reserve (uuid4 s.calls) tokens cost s.coordinator.budget).1 ≠ .ok u)
    (hstate : agg'.state = .recoveryRequired) (hids : c'.activeIds = s.coordinator.activeIds) :
    Sound ledger n uuid4 ⟨c', s.calls + 1⟩ := by
  have hget : ∀ id', c'.tasks.get? id' = if id = id' then some agg'
      else s.coordinator.tasks.get? id' := fun id' => by rw [htasks, Dict.get?_set]
  obtain ⟨hdrawn, hapart⟩ := hs.draws hu htasks hd hid
  refine ⟨hdrawn, hapart, ?_, ?_, ?_, hb ▸ hs.reserves_room hsnap hactive,
    hb ▸ (ledger.workers_reserve _ _ _ _).trans hs.workers⟩
  · intro id' x hx
    rw [hids] at hx
    obtain ⟨hheld, agg₁, d₁, hget₁, hd₁, hx₁, hout⟩ := hs.entered id' x hx
    refine ⟨by rw [hb, ledger.reserve]; exact .inl hheld, agg₁, d₁, ?_, hd₁, hx₁, hout⟩
    rw [hget, if_neg (hs.unlisted hagg hfrozen hx), hget₁]
  · intro id' agg₁ hget₁ hin
    rw [hget] at hget₁
    split at hget₁
    next =>
      cases hget₁
      simp [InFlight, hstate] at hin
    next =>
      obtain ⟨d₁, hd₁, hx⟩ := hs.inFlight id' agg₁ hget₁ hin
      exact ⟨d₁, hd₁, by rw [hids, hx]⟩
  · intro x hx
    rw [hb, ledger.reserve] at hx
    rcases hx with hx | ⟨hok, -⟩
    · exact hids ▸ hs.held x hx
    · exact absurd hok (herr ())

theorem Sound.kept (hu : Function.Injective uuid4) (hs : Sound ledger n uuid4 s)
    (hq : Orderly api s q) (h : step api uuid4 s q = some t) : Sound ledger n uuid4 t := by
  cases h
  have hbooking : Booking api (uuid4 s.calls) s.coordinator _ := perform_booking hq
  cases hbooking with
  | steady hids hb h => exact hs.steady hids hb h
  | begins id agg agg' d tokens cost snap hagg hf hsnap hactive ht hd hid hb hcase =>
    rcases hcase with ⟨hok, hstate, hids⟩ | ⟨herr, hstate, hids⟩
    · exact hs.admits hu hagg hf hsnap hactive ht hd hid hb hok hstate hids
    · exact hs.refuses hu hagg hf hsnap hactive ht hd hid hb herr hstate hids
  | frees id hback hids hb h => exact hs.frees hback hids hb h

theorem initial_dispatch (h : Initial s) (hget : s.coordinator.tasks.get? id = some agg) :
    agg.state = .created ∧ agg.activeDispatch = none := by
  obtain ⟨run, tasks, dependencies, budget, hashes, hc, -⟩ := h
  simp only [create, bind_ok, require_ok] at hc
  obtain ⟨_, -, _, -, order, -, _, -, hc⟩ := hc
  rw [← Except.ok.inj hc] at hget
  obtain ⟨p, -, hp⟩ := List.mem_map.mp (Dict.mem_of_get? hget)
  cases hp
  exact ⟨rfl, rfl⟩

theorem initial_activeIds (h : Initial s) : s.coordinator.activeIds.get? id = none := by
  obtain ⟨run, tasks, dependencies, budget, hashes, hc, -⟩ := h
  simp only [create, bind_ok, require_ok] at hc
  obtain ⟨_, -, _, -, order, -, _, -, hc⟩ := hc
  rw [← Except.ok.inj hc]
  rfl

theorem Sound.initial (h : Initial s) (hempty : ∀ x, ¬ ledger.Holds s.coordinator.budget x) :
    Sound ledger (api.maxWorkers s.coordinator.budget) uuid4 s := by
  have hnone : ∀ id agg d, s.coordinator.tasks.get? id = some agg →
    agg.activeDispatch ≠ some d := by
    intro id agg d hget
    rw [(initial_dispatch h hget).2]
    simp
  refine ⟨?_, ?_, ?_, ?_, ?_, ?_, rfl⟩
  · exact fun id agg d hget hd => absurd hd (hnone id agg d hget)
  · exact fun id _ agg _ d _ hget _ hd => absurd hd (hnone id agg d hget)
  · intro id x hx
    rw [initial_activeIds h] at hx
    cases hx
  · intro id agg hget hin
    simp [InFlight, (initial_dispatch h hget).1] at hin
  · exact fun x hx => absurd hx (hempty x)
  · intro ids hall
    rw [Finset.eq_empty_of_forall_notMem fun x hx => hempty x (hall x hx)]
    exact Nat.zero_le _

structure Covered (ledger : Ledger api) (n : Nat) (c : SupervisedCoordinator B) : Prop where
  owned : ∀ x, ledger.Holds c.budget x → ∃ id agg d, c.tasks.get? id = some agg ∧
    agg.activeDispatch = some d ∧ d.dispatchId = x ∧ Outstanding agg
  atMost : ∀ ids : Finset String, (∀ id ∈ ids, ∃ agg, c.tasks.get? id = some agg ∧ InFlight agg) →
    ids.card ≤ n

def MovesCovered (ledger : Ledger api) (c c' : SupervisedCoordinator B) : Prop :=
  ∀ id agg agg', c.tasks.get? id = some agg → c'.tasks.get? id = some agg' →
    agg'.state ≠ agg.state → agg'.state = .processSucceeded ∨ agg'.state = .verified →
    ∃ d, agg.activeDispatch = some d ∧ ledger.Holds c.budget d.dispatchId

theorem Sound.covered (hs : Sound ledger n uuid4 s) : Covered ledger n s.coordinator where
  owned x hx := by
    obtain ⟨id, hid⟩ := hs.held x hx
    obtain ⟨-, agg, d, hget, hd, hx, hout⟩ := hs.entered id x hid
    exact ⟨id, agg, d, hget, hd, hx, hout⟩
  atMost ids hids := by
    classical
    let entry (id : String) : String := (s.coordinator.activeIds.get? id).getD ""
    have hentry : ∀ id ∈ ids, s.coordinator.activeIds.get? id = some (entry id) := by
      intro id hid
      obtain ⟨agg, hget, hin⟩ := hids id hid
      obtain ⟨d, -, hx⟩ := hs.inFlight id agg hget hin
      simp only [entry, hx, Option.getD_some]
    -- two tasks have no entry in common, as their dispatches differ
    have hinj : Set.InjOn entry ids := by
      intro id hid id' hid' heq
      obtain ⟨-, agg, d, hget, hd, hx, -⟩ := hs.entered id _ (hentry id hid)
      obtain ⟨-, agg', d', hget', hd', hx', -⟩ := hs.entered id' _ (hentry id' hid')
      exact hs.apart id id' agg agg' d d' hget hget' hd hd' (hx.trans (heq.trans hx'.symm))
    rw [← Finset.card_image_of_injOn hinj]
    apply hs.room
    intro x hx
    obtain ⟨id, hid, rfl⟩ := Finset.mem_image.mp hx
    exact (hs.entered id _ (hentry id hid)).1

theorem Sound.movesCovered (hs : Sound ledger n uuid4 s) (h : step api uuid4 s q = some t) :
    MovesCovered ledger s.coordinator t.coordinator := by
  intro id agg agg' hget hget' hne hstate
  suffices hin : InFlight agg by
    obtain ⟨d, hd, hx⟩ := hs.inFlight id agg hget hin
    exact ⟨d, hd, (hs.entered id _ hx).1⟩
  cases (step_effect h).1.tasks with
  | none ht =>
    rw [ht, hget] at hget'
    cases hget'
    exact absurd rfl hne
  | one id' old new hold ht hm =>
    rw [ht, Dict.get?_set] at hget'
    split at hget'
    next hid =>
      subst hid
      cases hget'
      cases hold.symm.trans hget
      cases hm with
      | keyUsed hs hs' => exact absurd (hs'.trans hs.symm) hne
      | freezes _ heq => simp [heq] at hstate
      | begins _ _ _ _ _ _ _ hs' => rcases hs' with hs' | hs' <;> simp [hs'] at hstate
      | succeeds hs => exact .inl hs
      | blocks _ heq => simp [heq, TaskAggregate.block] at hstate
      | verifies _ _ _ _ _ hs => exact .inr hs
      | reconciles _ hs' => simp [hs'] at hstate
    next =>
      cases hget.symm.trans hget'
      exact absurd rfl hne
  | trees tree _ ht =>
    rw [ht] at hget'
    obtain ⟨old, hold, hr | ⟨rfl, -⟩⟩ := get?_updateAll hget'
    · cases hold.symm.trans hget
      cases hr with
      | kept heq _ => exact absurd (congrArg _ heq) hne
      | recovers _ heq => simp [heq, TaskAggregate.recoverUnknown] at hstate
      | moves _ hs' _ => rcases hs' with hs' | hs' <;> simp [hs'] at hstate
    · cases hold.symm.trans hget
      exact absurd rfl hne

/-- In a run without a release of work in flight, the reservations cover the work that runs. -/
theorem reservations_cover (ledger : Ledger api) (hu : Function.Injective uuid4) {s₀ : State B}
    (h₀ : Initial s₀) (hempty : ∀ x, ¬ ledger.Holds s₀.coordinator.budget x) {ls : List (Call B)}
    (h : Path (step api uuid4) (Orderly api) s₀ ls s) :
    Covered ledger (api.maxWorkers s₀.coordinator.budget) s.coordinator ∧ ∀ q t,
      step api uuid4 s q = some t →
      MovesCovered ledger s.coordinator t.coordinator := by
  have hs := h.invariant (Sound.initial h₀ hempty) fun _ _ _ hs hq h => hs.kept hu hq h
  exact ⟨hs.covered, fun q t ht => hs.movesCovered ht⟩

end

/-! ## A release of work in flight -/

instance (api : BudgetApi B) (c : SupervisedCoordinator B) (id : String) :
    Decidable (GivesBack api c id) := by
  unfold GivesBack
  infer_instance

instance (api : BudgetApi B) (s : State B) : (q : Call B) → Decidable (Orderly api s q)
  | .releaseDispatch id => inferInstanceAs (Decidable
      ((∀ agg ∈ s.coordinator.tasks.get? id, ¬ InFlight agg) ∧ GivesBack api s.coordinator id))
  | .qaReview r => inferInstanceAs (Decidable (GivesBack api s.coordinator r.taskId))
  | .reconcileRecovery id _ _ => inferInstanceAs (Decidable (GivesBack api s.coordinator id))
  | .otherBudgetUse _ => inferInstanceAs (Decidable False)
  | .register .. | .issue .. | .createEvidence .. | .createQaVerdict .. | .freeze .. | .begin ..
  | .reportProcessSucceeded .. | .updateTree .. => inferInstanceAs (Decidable True)

def releaseCalls : List (Call BudgetLedger) :=
  registerAll ++ [.freeze "A" (principal .pm), .begin "A" (principal .pm) "key" 1 1,
    .releaseDispatch "A"]

def lateReport : Call BudgetLedger :=
  .reportProcessSucceeded (principal .developer) "A" (sampleUuid 5) "t1"

def stateIs (c : SupervisedCoordinator B) (id : String) (state : TaskState) : Bool :=
  (c.tasks.get? id).any (·.state = state)

theorem empty_holds {c : SupervisedCoordinator BudgetLedger} (h : c.budget.reservations = [])
    (x : String) : ¬ memoryLedger.Holds c.budget x := by
  simp [memoryLedger, h]

theorem reservations_verified : ∃ s₀ s : State BudgetLedger, Initial s₀ ∧
    Path (step BudgetLedger.api sampleUuid) (Orderly BudgetLedger.api) s₀ provenanceCalls s ∧
    stateIs s.coordinator "A" .verified = true ∧ Covered memoryLedger 10 s.coordinator := by
  have hrun : ((sampleStart [("A", "t1", [])]).bind fun s₀ =>
      if s₀.coordinator.budget.reservations = [] ∧ s₀.coordinator.budget.maxWorkers = 10 then
        (exec (restrict (step BudgetLedger.api sampleUuid) (Orderly BudgetLedger.api)) s₀
          provenanceCalls)
      else none).any (fun s => stateIs s.coordinator "A" .verified) = true := by decide +kernel
  obtain ⟨s, hs, hstate⟩ := (Option.any_eq_true _ _).mp hrun
  obtain ⟨s₀, h₀, hexec⟩ := Option.bind_eq_some_iff.mp hs
  split at hexec
  next hbudget =>
    have hpath := path_of_restrict (path_of_exec hexec)
    have hinit := sampleStart_initial h₀
    have hcover := reservations_cover memoryLedger sampleUuid_injective hinit
      (empty_holds hbudget.1) hpath
    exact ⟨s₀, s, hinit, hpath, hstate, hbudget.2 ▸ hcover.1⟩
  next => cases hexec

/-- The report of a dispatch that was released is accepted. -/
theorem reservations_released : ∃ s₀ s t : State BudgetLedger, Initial s₀ ∧
    (∀ x, ¬ memoryLedger.Holds s₀.coordinator.budget x) ∧
    Library.Run (step BudgetLedger.api sampleUuid) s₀ releaseCalls s ∧
    step BudgetLedger.api sampleUuid s lateReport = some t ∧
    ¬ MovesCovered memoryLedger s.coordinator t.coordinator := by
  have hrun : (sampleStart [("A", "t1", [])]).any (fun s₀ =>
      s₀.coordinator.budget.reservations = [] ∧
      (exec (step BudgetLedger.api sampleUuid) s₀ releaseCalls).any fun s =>
        s.coordinator.budget.reservations = [] ∧ stateIs s.coordinator "A" .dispatched ∧
        stateIs (perform BudgetLedger.api (sampleUuid s.calls) s.coordinator lateReport) "A"
          .processSucceeded) = true := by decide +kernel
  obtain ⟨s₀, h₀, hs⟩ := (Option.any_eq_true _ _).mp hrun
  obtain ⟨hempty, hs⟩ := of_decide_eq_true hs
  obtain ⟨s, hexec, hs⟩ := (Option.any_eq_true _ _).mp hs
  obtain ⟨hheld, hbefore, hafter⟩ := of_decide_eq_true hs
  refine ⟨s₀, s, _, sampleStart_initial h₀, empty_holds hempty, path_of_exec hexec, rfl, ?_⟩
  intro hcover
  obtain ⟨agg, hget, hstate⟩ := (Option.any_eq_true _ _).mp hbefore
  obtain ⟨agg', hget', hstate'⟩ := (Option.any_eq_true _ _).mp hafter
  have hstate : agg.state = .dispatched := of_decide_eq_true hstate
  have hstate' : agg'.state = .processSucceeded := of_decide_eq_true hstate'
  obtain ⟨d, -, hd⟩ := hcover "A" agg agg' hget hget' (by simp [hstate, hstate']) (.inl hstate')
  exact empty_holds hheld _ hd

end SubagentBridge.Team
