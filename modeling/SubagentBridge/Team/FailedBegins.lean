import SubagentBridge.Library.Solo
import SubagentBridge.Planner.DurableBudget
import SubagentBridge.Team.Provenance

/-! What a `begin` that raises leaves behind. -/

namespace SubagentBridge.Team

open Library Domain Planner SupervisedCoordinator

variable {B : Type} {api : BudgetApi B} {c : SupervisedCoordinator B} {uuid4 taskId key : String}
variable {pm : Principal} {tokens cost : Int} {agg : TaskAggregate}

/-! ## Ledgers -/

/-- A durable ledger that was opened with some parameters, on a file in which SQLite fails some
of the statements. -/
structure Opened where
  db : DurableBudgetLedger.Db
  ledgerId : String
  maxWorkers : Nat
  fails : DurableBudgetLedger.Op → Bool

namespace Opened

def raised : DurableBudgetLedger.Error → Domain.Error
  | .raised e => e
  | .overflow => .storage "OverflowError"
  | .integrity => .storage "IntegrityError"
  | .type => .storage "TypeError"
  | .operational => .storage "OperationalError"

def run {α : Type} (p : DurableBudgetLedger.Call α) (b : Opened) : Domain.Result Opened α :=
  let (r, db) := p.solo (fun o => DurableBudgetLedger.exec o (b.fails o)) b.db
  (r.mapError raised, { b with db })

def budget : BudgetApi Opened where
  maxWorkers b := b.maxWorkers
  snapshot b := (b.run (DurableBudgetLedger.snapshot b.ledgerId)).1
  reserve dispatchId tokenAllowance costMicrounits b :=
    let (r, b) := b.run
      (DurableBudgetLedger.reserve b.ledgerId dispatchId tokenAllowance costMicrounits)
    (r.map fun _ => (), b)
  release dispatchId b := b.run (DurableBudgetLedger.release b.ledgerId dispatchId 0 0)

end Opened

def Accepts (api : BudgetApi B) (b : B) (dispatchId : String) (tokens cost : Int) : Prop :=
  (api.reserve dispatchId tokens cost b).1 = .ok ()

instance (b : B) (dispatchId : String) (tokens cost : Int) :
    Decidable (Accepts api b dispatchId tokens cost) := by
  unfold Accepts
  cases (api.reserve dispatchId tokens cost b).1 with
  | error e => exact isFalse nofun
  | ok _ => exact isTrue rfl

structure Affordable (api : BudgetApi B) (b : B) (tokens cost : Int) : Prop where
  nonneg : 0 ≤ tokens ∧ 0 ≤ cost
  room : ∃ snap, api.snapshot b = .ok snap ∧
    ¬ (api.maxWorkers b ≤ snap.active ∨ snap.tokensAvailable < tokens ∨ snap.costAvailable < cost)

theorem memory_accepts {b : BudgetLedger} (ha : Affordable BudgetLedger.api b tokens cost)
    (hid : Identity uuid4) :
    Accepts BudgetLedger.api b uuid4 tokens cost ↔ b.reservations.get? uuid4 = none := by
  obtain ⟨hnonneg, snap, hsnap, hroom⟩ := ha
  cases hsnap
  have hroom : ¬ (b.maxWorkers ≤ b.reservations.length ∨ b.tokens < tokens ∨ b.cost < cost) := hroom
  rw [Accepts, BudgetLedger.api]
  simp only [BudgetLedger.reserve, require, hid.1, hnonneg, and_self, if_true, hroom,
    not_false_eq_true,
    bind, Except.bind]
  by_cases hnew : b.reservations.get? uuid4 = none
  · simp [hnew, pure, Except.pure]
  · simp [hnew]

def HasRoom (b : Opened) (uuid4 : String) (tokens cost : Int) : Prop :=
  ∃ row ∈ b.db.ledgers.get? b.ledgerId, b.db.activeCount b.ledgerId < row.maxWorkers ∧
    b.db.reservations.get? (b.ledgerId, uuid4) = none ∧
    (DurableBudgetLedger.storable (row.tokensRemaining - tokens) ∧
      DurableBudgetLedger.storable (row.costRemaining - cost)) ∧
    DurableBudgetLedger.storable tokens ∧ DurableBudgetLedger.storable cost

theorem mapError_ok {ε ε' α : Type} {f : ε → ε'} {x : Except ε α} {a : α} :
    x.mapError f = .ok a ↔ x = .ok a := by
  cases x <;> simp [Except.mapError]

theorem solo_perform {o : DurableBudgetLedger.Op} {b : Opened} {db : DurableBudgetLedger.Db} :
    (DurableBudgetLedger.perform o).solo (fun o => DurableBudgetLedger.exec o (b.fails o)) db =
      DurableBudgetLedger.exec o (b.fails o) db :=
  Proc.solo_op (S := DurableBudgetLedger.sig) o

theorem snapshot_ok {b : Opened} {snap : Snapshot} (h : Opened.budget.snapshot b = .ok snap) :
    snap.tokensAvailable = ((b.db.ledgers.get? b.ledgerId).map (·.tokensRemaining)).getD 0 ∧
      snap.costAvailable = ((b.db.ledgers.get? b.ledgerId).map (·.costRemaining)).getD 0 ∧
      snap.active = b.db.activeCount b.ledgerId := by
  obtain ⟨t, ht⟩ : ∃ t, (DurableBudgetLedger.snapshot b.ledgerId).solo
      (fun o => DurableBudgetLedger.exec o (b.fails o)) b.db = (.ok snap, t) :=
    ⟨_, Prod.ext (mapError_ok.mp h) rfl⟩
  obtain ⟨row, db, hrow, ht⟩ := Proc.solo_bind_ok.mp ht
  obtain ⟨active, db', hactive, ht⟩ := Proc.solo_bind_ok.mp ht
  cases ht
  rw [solo_perform, DurableBudgetLedger.exec] at hrow hactive
  split at hrow
  next => cases hrow
  next =>
    cases hrow
    split at hactive
    next => cases hactive
    next =>
      cases hactive
      exact ⟨rfl, rfl, rfl⟩

theorem affordable_row {b : Opened} (ha : Affordable Opened.budget b tokens cost)
    {row : DurableBudgetLedger.LedgerRow} (hrow : b.db.ledgers.get? b.ledgerId = some row) :
    ¬ (row.tokensRemaining < tokens ∨ row.costRemaining < cost) := by
  obtain ⟨-, snap, hsnap, hroom⟩ := ha
  obtain ⟨htokens, hcost, -⟩ := snapshot_ok hsnap
  rw [hrow] at htokens hcost
  intro hor
  exact hroom (.inr (by rwa [htokens, hcost]))

theorem accepts_iff {b : Opened} (ha : Affordable Opened.budget b tokens cost)
    (hid : Identity uuid4) : Accepts Opened.budget b uuid4 tokens cost ↔
      ∃ r db, DurableBudgetLedger.exec (.reserve b.ledgerId uuid4 tokens cost)
        (b.fails (.reserve b.ledgerId uuid4 tokens cost)) b.db = (.ok r, db) := by
  have hreserve : (DurableBudgetLedger.reserve b.ledgerId uuid4 tokens cost).solo
      (fun o => DurableBudgetLedger.exec o (b.fails o)) b.db =
      DurableBudgetLedger.exec (.reserve b.ledgerId uuid4 tokens cost)
        (b.fails (.reserve b.ledgerId uuid4 tokens cost)) b.db := by
    rw [DurableBudgetLedger.reserve, Proc.bind_eq, Proc.solo_require_bind,
      if_pos ⟨hid.1, ha.nonneg⟩, solo_perform]
  simp only [Accepts, Opened.budget, Opened.run, hreserve]
  rcases DurableBudgetLedger.exec (.reserve b.ledgerId uuid4 tokens cost)
    (b.fails (.reserve b.ledgerId uuid4 tokens cost)) b.db with ⟨e | r, db⟩ <;>
    simp [Except.mapError, Except.map]

theorem durable_accepts {b : Opened} (ha : Affordable Opened.budget b tokens cost)
    (hid : Identity uuid4) : Accepts Opened.budget b uuid4 tokens cost ↔
      b.fails (.reserve b.ledgerId uuid4 tokens cost) = false ∧ HasRoom b uuid4 tokens cost := by
  rw [accepts_iff ha hid, DurableBudgetLedger.exec]
  cases b.fails (.reserve b.ledgerId uuid4 tokens cost) with
  | true => simp
  | false =>
    simp only [Bool.false_eq_true, if_false, DurableBudgetLedger.run, atomically_ok, true_and,
      DurableBudgetLedger.Db.reserve, HasRoom]
    cases hrow : b.db.ledgers.get? b.ledgerId with
    | none => simp
    | some row =>
      have henough := affordable_row ha hrow
      simp only [Option.mem_some_iff, exists_eq_left', or_iff_left henough, bind_ok, require_ok,
        not_le]
      constructor
      · rintro ⟨r, db, _, hnew, _, hroom, _, hleft, _, hallowed, -⟩
        exact ⟨hroom, hnew, hleft, hallowed⟩
      · rintro ⟨hroom, hnew, hleft, hallowed⟩
        exact ⟨_, _, (), hnew, (), hroom, (), hleft, (), hallowed, rfl⟩

/-! ## A call of `begin` -/

structure Ledgered where
  state : TaskState
  activeDispatch : Option Dispatch
  attempt : Nat
  usedKeys : List String
  deriving DecidableEq

def ledgered (agg : TaskAggregate) : Ledgered :=
  ⟨agg.state, agg.activeDispatch, agg.attempt, agg.usedKeys⟩

structure Unchanged (c c' : SupervisedCoordinator B) : Prop where
  tasks : ∀ id, (c'.tasks.get? id).map ledgered = (c.tasks.get? id).map ledgered
  budget : c'.budget = c.budget
  activeIds : c'.activeIds = c.activeIds

structure Admitted (api : BudgetApi B) (c : SupervisedCoordinator B) (taskId : String)
    (pm : Principal) (key : String) (tokens cost : Int) (agg : TaskAggregate) : Prop where
  manager : c.identities.require pm .pm = .ok ()
  task : c.tasks.get? taskId = some agg
  checked : c.precheck api taskId agg key tokens cost = .ok ()
  new : key ∉ agg.usedKeys

theorem precheck_parts (h : c.precheck api taskId agg key tokens cost = .ok ()) :
    agg.state = .frozen ∧ key ≠ "" ∧ Affordable api c.budget tokens cost := by
  simp only [precheck, bind_ok, require_ok] at h
  obtain ⟨_, hs, _, -, _, hnonneg, _, hkey, snap, hsnap, hroom⟩ := h
  exact ⟨hs, hkey, hnonneg, snap, hsnap, hroom⟩

def keyUsed (agg : TaskAggregate) (key : String) : TaskAggregate :=
  { agg with usedKeys := key :: agg.usedKeys, attempt := agg.attempt + 1 }

theorem Admitted.dispatch (h : Admitted api c taskId pm key tokens cost agg) :
    agg.dispatch c.identities uuid4 pm key =
      orRaise (Dispatch.create uuid4 agg.task.taskId (agg.attempt + 1) key agg.task.treeSha
        agg.task.policyRevision) (keyUsed agg key) fun d =>
        (.ok d, { keyUsed agg key with activeDispatch := some d, state := .dispatched }) := by
  obtain ⟨hs, hkey, -⟩ := precheck_parts h.checked
  simp [TaskAggregate.dispatch, h.manager, hs, hkey, h.new, require, keyUsed]

theorem create_iff (uuid4 key : String) (agg : TaskAggregate) (n : Nat) :
    (∃ d, Dispatch.create uuid4 agg.task.taskId (n + 1) key
    agg.task.treeSha agg.task.policyRevision = .ok d) ↔ Identity uuid4 ∧ Identity key := by
  obtain ⟨htask, -, htree, hpolicy⟩ := agg.task.ids
  simp only [Dispatch.create, identity, bind_ok, require_ok, htask, htree, hpolicy, true_and]
  constructor
  · rintro ⟨d, _, huuid, _, _, hkey, -⟩
    exact ⟨huuid, hkey⟩
  · rintro ⟨huuid, hkey⟩
    exact ⟨_, (), huuid, (), (), hkey, (), (), (), Nat.le_add_left .., rfl⟩

theorem Unchanged.refl (c : SupervisedCoordinator B) : Unchanged c c := ⟨fun _ => rfl, rfl, rfl⟩

theorem begin_refused (hnone : ∀ agg, ¬ Admitted api c taskId pm key tokens cost agg) :
    Unchanged c (c.begin api uuid4 taskId pm key tokens cost).2 := by
  rw [begin, withTask]
  cases hpm : c.identities.require pm .pm with
  | error e => exact .refl c
  | ok _ =>
    rw [orRaise_ok]
    cases hget : c.tasks.get? taskId with
    | none => exact .refl c
    | some agg =>
      cases hpre : c.precheck api taskId agg key tokens cost with
      | error e => simpa only [hpre, orRaise_error] using .refl c
      | ok _ =>
        obtain ⟨hs, hkey, -⟩ := precheck_parts hpre
        have hused : key ∈ agg.usedKeys := by
          by_contra hnew
          exact hnone agg ⟨hpm, hget, hpre, hnew⟩
        have hdispatch : agg.dispatch c.identities uuid4 pm key =
            (.error (.invalidTransition "duplicate or missing idempotency key"), agg) := by
          simp [TaskAggregate.dispatch, hpm, hs, hused, require]
        simp only [hpre, orRaise_ok, hdispatch, orRaise_error]
        refine ⟨fun id => ?_, rfl, rfl⟩
        rw [setTask, Dict.get?_set]
        split
        next hid => rw [← hid, hget]
        next => rfl

theorem begin_admitted (uuid4 : String) (h : Admitted api c taskId pm key tokens cost agg) :
    ((c.begin api uuid4 taskId pm key tokens cost).1.toOption.isSome ↔
      Identity uuid4 ∧ Identity key ∧ Accepts api c.budget uuid4 tokens cost) ∧
    ∃ agg', (c.begin api uuid4 taskId pm key tokens cost).2.tasks.get? taskId = some agg' ∧
      agg'.usedKeys = key :: agg.usedKeys := by
  have hcreate := create_iff uuid4 key agg agg.attempt
  rw [begin, withTask, h.manager, orRaise_ok, h.task]
  simp only [h.checked, orRaise_ok, h.dispatch]
  cases hd : Dispatch.create uuid4 agg.task.taskId (agg.attempt + 1) key agg.task.treeSha
      agg.task.policyRevision with
  | error e =>
    rw [hd] at hcreate
    refine ⟨iff_of_false (by simp [Except.toOption]) fun hall => ?_,
      keyUsed agg key, by simp [setTask, Dict.get?_set], rfl⟩
    obtain ⟨d, hd⟩ := hcreate.mpr ⟨hall.1, hall.2.1⟩
    cases hd
  | ok d =>
    rw [hd] at hcreate
    obtain ⟨huuid, hkey⟩ := hcreate.mp ⟨d, rfl⟩
    have hid : d.dispatchId = uuid4 := by
      simp only [Dispatch.create, bind_ok] at hd
      obtain ⟨_, -, _, -, _, -, _, -, _, -, _, -, hd⟩ := hd
      cases hd
      rfl
    simp only [orRaise_ok, hid, setTask, huuid, hkey, true_and, Accepts]
    cases (api.reserve uuid4 tokens cost c.budget).1 with
    | error e =>
      exact ⟨by simp [Except.toOption], _, (Dict.get?_set ..).trans (if_pos rfl), rfl⟩
    | ok _ => exact ⟨by simp [Except.toOption], _, (Dict.get?_set ..).trans (if_pos rfl), rfl⟩

/-- A `begin` that raises changes nothing, unless it was admitted and then the record of the
dispatch is refused or the ledger does not take the reservation. -/
theorem begin_unchanged :
    (∀ e, (c.begin api uuid4 taskId pm key tokens cost).1 = .error e →
      Unchanged c (c.begin api uuid4 taskId pm key tokens cost).2) ↔
    ∀ agg, Admitted api c taskId pm key tokens cost agg →
      Identity uuid4 ∧ Identity key ∧ Accepts api c.budget uuid4 tokens cost := by
  constructor
  · intro hall agg h
    obtain ⟨hok, agg', hget, hused⟩ := begin_admitted uuid4 h
    rw [← hok]
    cases hr : (c.begin api uuid4 taskId pm key tokens cost).1 with
    | ok plan => rfl
    | error e =>
      have htasks := (hall e hr).tasks taskId
      rw [hget, h.task] at htasks
      have hkeys := congrArg Ledgered.usedKeys (Option.some.inj htasks)
      exact absurd (hused.symm.trans hkeys) (List.cons_ne_self _ _)
  · intro hall e he
    by_cases hadmitted : ∃ agg, Admitted api c taskId pm key tokens cost agg
    · obtain ⟨agg, h⟩ := hadmitted
      have hok := (begin_admitted uuid4 h).1.mpr (hall agg h)
      rw [he] at hok
      cases hok
    · exact begin_refused (not_exists.mp hadmitted)

/-! ### A line break in the key -/

def frozenCalls : List (Call BudgetLedger) := registerAll ++ [.freeze "A" (principal .pm)]

/-- The call of `begin` raises, and what it must not touch of the task is touched. -/
def touched (s : State BudgetLedger) : Bool :=
  let (r, c) :=
    s.coordinator.begin BudgetLedger.api (sampleUuid s.calls) "A" (principal .pm) "\n" 0 0
  r.toOption.isNone && (c.tasks.get? "A").map ledgered ≠ (s.coordinator.tasks.get? "A").map ledgered

/-- The key is used up and the attempt counted, although the call raises. -/
theorem begin_touched : ∃ (s₀ s : State BudgetLedger) (e : Error), Initial s₀ ∧
    Library.Run (step BudgetLedger.api sampleUuid) s₀ frozenCalls s ∧
    (s.coordinator.begin BudgetLedger.api (sampleUuid s.calls) "A" (principal .pm) "\n" 0 0).1 =
      .error e ∧
    ¬ Unchanged s.coordinator (s.coordinator.begin BudgetLedger.api (sampleUuid s.calls) "A"
      (principal .pm) "\n" 0 0).2 := by
  have hrun : ((sampleStart [("A", "t1", [])]).bind fun s₀ =>
      exec (step BudgetLedger.api sampleUuid) s₀ frozenCalls).any touched = true := by
    decide +kernel
  obtain ⟨s, hs, htouched⟩ := (Option.any_eq_true _ _).mp hrun
  obtain ⟨s₀, h₀, hexec⟩ := Option.bind_eq_some_iff.mp hs
  simp only [touched, Bool.and_eq_true, decide_eq_true_eq, Option.isNone_iff_eq_none] at htouched
  obtain ⟨hraise, hne⟩ := htouched
  cases hr : (s.coordinator.begin BudgetLedger.api (sampleUuid s.calls) "A" (principal .pm) "\n"
      0 0).1 with
  | error e =>
    exact ⟨s₀, s, e, sampleStart_initial h₀, path_of_exec hexec, hr, fun hall =>
      hne (hall.tasks "A")⟩
  | ok plan =>
    rw [hr] at hraise
    cases hraise

end SubagentBridge.Team
