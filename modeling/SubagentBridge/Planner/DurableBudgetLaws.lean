import Mathlib.Algebra.Order.Group.Int
import SubagentBridge.Library.Escrow
import SubagentBridge.Planner.DurableBudget

/-! Both budget ledgers are escrows: what a call or a statement does to them. -/

namespace SubagentBridge.Planner

open Library Domain

abbrev Amount := Int × Int

instance : PartialOrder Amount :=
  @Prod.instPartialOrder Int Int Int.instLinearOrder.toPartialOrder
    Int.instLinearOrder.toPartialOrder

def settlement (held : Dict String Amount) (dispatchId : String) (refund : Amount)
    (succeeded : Bool) : List (Settlement Amount) :=
  if succeeded then (held.get? dispatchId).toList.map (⟨·, refund⟩) else []

theorem settlement_ok {held : Dict String Amount} {dispatchId : String} {a : Amount}
    (h : held.get? dispatchId = some a) (refund : Amount) :
    settlement held dispatchId refund true = [⟨a, refund⟩] := by
  simp [settlement, h]

/-! ## In memory -/

def Reservation.amount (r : Reservation) : Amount := (r.tokenAllowance, r.costMicrounits)

def amounts (d : Dict String Reservation) : Dict String Amount := d.map fun p => (p.1, p.2.amount)

section Amounts

variable {d : Dict String Reservation} {dispatchId : String}

theorem get?_amounts (d : Dict String Reservation) (dispatchId : String) :
    (amounts d).get? dispatchId = (d.get? dispatchId).map Reservation.amount := by
  induction d with
  | nil => rfl
  | cons p d ih =>
    rw [amounts, List.map_cons, Dict.get?_cons, Dict.get?_cons]
    split
    · rfl
    · exact ih

theorem get?_amounts_none (h : d.get? dispatchId = none) : (amounts d).get? dispatchId = none := by
  rw [get?_amounts, h]
  rfl

theorem get?_amounts_some {r : Reservation} (h : d.get? dispatchId = some r) :
    (amounts d).get? dispatchId = some r.amount := by
  rw [get?_amounts, h]
  rfl

theorem amounts_set {r : Reservation} (h : d.get? dispatchId = none) :
    amounts (d.set dispatchId r) = (amounts d).set dispatchId r.amount := by
  rw [Dict.set_of_notMem (Dict.notMem_keys.mpr h),
    Dict.set_of_notMem (Dict.notMem_keys.mpr (get?_amounts_none h))]
  simp [amounts]

theorem amounts_erase (d : Dict String Reservation) (dispatchId : String) :
    amounts (d.erase dispatchId) = (amounts d).erase dispatchId := by
  simp [amounts, Dict.erase, List.filter_map, Function.comp_def]

end Amounts

namespace BudgetLedger

variable {b b' : BudgetLedger} {dispatchId : String}

def account (b : BudgetLedger) : Escrow String Amount :=
  ⟨(b.tokens, b.cost), amounts b.reservations⟩

def settled (b : BudgetLedger) : LedgerCall → List (Settlement Amount)
  | .release dispatchId unusedTokens unusedCost =>
    settlement (amounts b.reservations) dispatchId (unusedTokens, unusedCost)
      (b.release dispatchId unusedTokens unusedCost).toBool
  | _ => []

def step (b : BudgetLedger) (call : LedgerCall) : Option BudgetLedger := some (b.perform call).2

theorem reserve_ok {tokenAllowance costMicrounits : Int} {r : Reservation}
    (h : b.reserve dispatchId tokenAllowance costMicrounits = .ok (r, b')) :
    (0 ≤ tokenAllowance ∧ 0 ≤ costMicrounits) ∧ b.reservations.get? dispatchId = none ∧
      (b.reservations.length < b.maxWorkers ∧ tokenAllowance ≤ b.tokens ∧
        costMicrounits ≤ b.cost) ∧
      r = ⟨dispatchId, tokenAllowance, costMicrounits⟩ ∧
      b' = { b with
        tokens := b.tokens - tokenAllowance, cost := b.cost - costMicrounits,
        reservations := b.reservations.set dispatchId r } := by
  obtain ⟨_, hvalid, h⟩ := bind_ok.mp h
  obtain ⟨_, hnew, h⟩ := bind_ok.mp h
  obtain ⟨_, hroom, h⟩ := bind_ok.mp h
  rw [require_ok] at hvalid hnew hroom
  cases h
  exact ⟨hvalid.2, hnew, by omega, rfl, rfl⟩

theorem release_ok {unusedTokens unusedCost : Int}
    (h : b.release dispatchId unusedTokens unusedCost = .ok b') :
    ∃ r, b.reservations.get? dispatchId = some r ∧ (0 ≤ unusedTokens ∧ 0 ≤ unusedCost) ∧
      (unusedTokens ≤ r.tokenAllowance ∧ unusedCost ≤ r.costMicrounits) ∧
      b' = { b with
        tokens := b.tokens + unusedTokens, cost := b.cost + unusedCost,
        reservations := b.reservations.erase dispatchId } := by
  obtain ⟨_, hvalid, h⟩ := bind_ok.mp h
  rw [require_ok] at hvalid
  split at h
  · cases h
  next r hr =>
    obtain ⟨_, hle, h⟩ := bind_ok.mp h
    rw [require_ok] at hle
    cases h
    exact ⟨r, hr, hvalid, hle, rfl⟩

theorem perform_moves (b : BudgetLedger) (call : LedgerCall) :
    (b.perform call).2.maxWorkers = b.maxWorkers ∧
      Escrow.Moves b.maxWorkers b.account (b.settled call) (b.perform call).2.account := by
  cases call with
  | reserve dispatchId tokenAllowance costMicrounits =>
    cases h : b.reserve dispatchId tokenAllowance costMicrounits with
    | error e => simp [perform, settled, h, Escrow.Moves.stay]
    | ok p =>
      obtain ⟨hvalid, hnew, ⟨hroom, htokens, hcost⟩, hr, hb⟩ := reserve_ok h
      have hlen : ((amounts b.reservations).length : Int) < b.maxWorkers := by
        rw [amounts, List.length_map]
        exact_mod_cast hroom
      simp only [perform, h, orRaise_ok, hb, settled, account, amounts_set hnew, hr]
      exact ⟨trivial, .reserve (a := (tokenAllowance, costMicrounits)) (get?_amounts_none hnew)
        ⟨hvalid.1, hvalid.2⟩ ⟨htokens, hcost⟩ hlen⟩
  | release dispatchId unusedTokens unusedCost =>
    cases h : b.release dispatchId unusedTokens unusedCost with
    | error e => simp [perform, settled, h, Except.toBool, settlement, Escrow.Moves.stay]
    | ok b' =>
      obtain ⟨r, hget, hvalid, hle, rfl⟩ := release_ok h
      have hheld := get?_amounts_some hget
      simp only [perform, h, orRaise_ok, settled, Except.toBool, settlement_ok hheld, account,
        amounts_erase]
      exact ⟨trivial, .settle (r := (unusedTokens, unusedCost)) hheld ⟨hvalid.1, hvalid.2⟩
        ⟨hle.1, hle.2⟩⟩
  | snapshot => exact ⟨rfl, .stay⟩
  | connect => exact ⟨rfl, .stay⟩

theorem perform_error {call : LedgerCall} {e : Error} (h : (b.perform call).1 = .error e) :
    (b.perform call).2 = b := by
  cases call with
  | reserve dispatchId tokenAllowance costMicrounits =>
    rw [perform] at h ⊢
    cases hr : b.reserve dispatchId tokenAllowance costMicrounits with
    | error => rfl
    | ok =>
      rw [hr] at h
      cases h
  | release dispatchId unusedTokens unusedCost =>
    rw [perform] at h ⊢
    cases hr : b.release dispatchId unusedTokens unusedCost with
    | error => rfl
    | ok =>
      rw [hr] at h
      cases h
  | snapshot => rfl
  | connect => rfl

theorem conserved_run {tokens cost maxWorkers : Int} {b₀ : BudgetLedger} {ls : List LedgerCall}
    (h₀ : create tokens cost maxWorkers = .ok b₀) (hrun : Run step b₀ ls b) :
    b.maxWorkers = maxWorkers ∧
      Escrow.Conserved maxWorkers (tokens, cost) b.account (trace step settled b₀ ls) := by
  induction hrun with
  | refl =>
    obtain ⟨_, hvalid, h₀⟩ := bind_ok.mp h₀
    rw [require_ok] at hvalid
    cases h₀
    have hmax : ((maxWorkers.toNat : Nat) : Int) = maxWorkers := by omega
    exact ⟨hmax, Escrow.conserved_initial ⟨hvalid.1, hvalid.2.1⟩ hvalid.2.2.le⟩
  | @tail b b' ls call hp _ hs ih =>
    obtain ⟨hmax, hmoves⟩ := perform_moves b call
    obtain rfl := Option.some.inj hs
    rw [trace_snoc _ hp]
    refine ⟨by rw [hmax]; exact ih.1, ih.2.move ?_⟩
    rw [← ih.1]
    exact hmoves

end BudgetLedger

/-! ## In the database -/

namespace DurableBudgetLedger

def ReservationRow.amount (r : ReservationRow) : Amount := (r.tokenAllowance, r.costMicrounits)

def rowsOf (ledgerId : String) (t : Dict (String × String) ReservationRow) : Dict String Amount :=
  t.filterMap fun p => if p.1.1 = ledgerId then some (p.1.2, p.2.amount) else none

section Rows

variable {t : Dict (String × String) ReservationRow} {ledgerId ledgerId' dispatchId : String}

theorem rowsOf_cons (p : (String × String) × ReservationRow) : rowsOf ledgerId (p :: t) =
    if p.1.1 = ledgerId then (p.1.2, p.2.amount) :: rowsOf ledgerId t else rowsOf ledgerId t := by
  by_cases h : p.1.1 = ledgerId <;> simp [rowsOf, h]

theorem get?_rowsOf (t : Dict (String × String) ReservationRow) (ledgerId dispatchId : String) :
    (rowsOf ledgerId t).get? dispatchId =
      (t.get? (ledgerId, dispatchId)).map ReservationRow.amount := by
  induction t with
  | nil => rfl
  | cons p t ih =>
    obtain ⟨⟨l, d⟩, r⟩ := p
    rw [rowsOf_cons, Dict.get?_cons]
    by_cases hl : l = ledgerId
    · by_cases hd : d = dispatchId <;> simp [hl, hd, Dict.get?_cons, ih]
    · simp [hl, ih]

theorem length_rowsOf (db : Db) (ledgerId : String) :
    (rowsOf ledgerId db.reservations).length = db.activeCount ledgerId := by
  rw [Db.activeCount]
  induction db.reservations with
  | nil => rfl
  | cons p t ih =>
    rw [rowsOf_cons]
    by_cases h : p.1.1 = ledgerId <;> simp [h, ih]

theorem get?_rowsOf_none (h : t.get? (ledgerId, dispatchId) = none) :
    (rowsOf ledgerId t).get? dispatchId = none := by
  rw [get?_rowsOf, h]
  rfl

theorem get?_rowsOf_some {r : ReservationRow} (h : t.get? (ledgerId, dispatchId) = some r) :
    (rowsOf ledgerId t).get? dispatchId = some r.amount := by
  rw [get?_rowsOf, h]
  rfl

theorem rowsOf_set {r : ReservationRow} (h : t.get? (ledgerId, dispatchId) = none) :
    rowsOf ledgerId (t.set (ledgerId, dispatchId) r) =
      (rowsOf ledgerId t).set dispatchId r.amount := by
  rw [Dict.set_of_notMem (Dict.notMem_keys.mpr h),
    Dict.set_of_notMem (Dict.notMem_keys.mpr (get?_rowsOf_none h))]
  simp [rowsOf]

theorem rowsOf_set_other {r : ReservationRow} (hne : ledgerId' ≠ ledgerId)
    (h : t.get? (ledgerId', dispatchId) = none) :
    rowsOf ledgerId (t.set (ledgerId', dispatchId) r) = rowsOf ledgerId t := by
  rw [Dict.set_of_notMem (Dict.notMem_keys.mpr h)]
  simp [rowsOf, hne]

theorem rowsOf_erase (t : Dict (String × String) ReservationRow) (ledgerId dispatchId : String) :
    rowsOf ledgerId (t.erase (ledgerId, dispatchId)) =
      (rowsOf ledgerId t).erase dispatchId := by
  induction t with
  | nil => rfl
  | cons p t ih =>
    obtain ⟨⟨l, d⟩, r⟩ := p
    rw [Dict.erase_cons, rowsOf_cons]
    by_cases hl : l = ledgerId
    · by_cases hd : d = dispatchId <;> simp [hl, hd, rowsOf_cons, Dict.erase_cons, ih]
    · simp [hl, rowsOf_cons, ih]

theorem rowsOf_erase_other (t : Dict (String × String) ReservationRow) (dispatchId : String)
    (hne : ledgerId' ≠ ledgerId) :
    rowsOf ledgerId (t.erase (ledgerId', dispatchId)) = rowsOf ledgerId t := by
  induction t with
  | nil => rfl
  | cons p t ih =>
    obtain ⟨⟨l, d⟩, r⟩ := p
    rw [Dict.erase_cons]
    split
    next hkey =>
      obtain ⟨rfl, rfl⟩ := Prod.mk.inj hkey
      rw [rowsOf_cons, if_neg hne, ih]
    next => rw [rowsOf_cons, rowsOf_cons, ih]

end Rows

def account (ledgerId : String) (row : LedgerRow) (db : Db) : Escrow String Amount :=
  ⟨(row.tokensRemaining, row.costRemaining), rowsOf ledgerId db.reservations⟩

def settled (ledgerId : String) (db : Db) (succeeded : Bool) : Op → List (Settlement Amount)
  | .release ledgerId' dispatchId unusedTokens unusedCost =>
    if ledgerId' = ledgerId then
      settlement (rowsOf ledgerId db.reservations) dispatchId (unusedTokens, unusedCost) succeeded
    else []
  | _ => []

def Op.Valid : Op → Prop
  | .insertLedger _ tokens costMicrounits maxWorkers =>
    0 ≤ tokens ∧ 0 ≤ costMicrounits ∧ 0 < maxWorkers
  | .reserve _ _ tokenAllowance costMicrounits => 0 ≤ tokenAllowance ∧ 0 ≤ costMicrounits
  | _ => True

def Fresh (ledgerId : String) (db : Db) : Prop :=
  db.ledgers.get? ledgerId = none ∧ rowsOf ledgerId db.reservations = []

section Steps

variable {db db' : Db} {ledgerId ledgerId' dispatchId : String} {row : LedgerRow} {o : Op}
variable {fails : Bool} {tokens cost maxWorkers : Int}

theorem insert_ok (h : db.insertLedger ledgerId tokens cost maxWorkers = .ok ((), db')) :
    db.ledgers.get? ledgerId = none ∧
      db' = { db with ledgers := db.ledgers.set ledgerId ⟨tokens, cost, maxWorkers⟩ } := by
  obtain ⟨_, -, h⟩ := bind_ok.mp h
  obtain ⟨_, hnew, h⟩ := bind_ok.mp h
  rw [require_ok] at hnew
  cases h
  exact ⟨hnew, rfl⟩

theorem reserve_ok {r : Reservation}
    (h : db.reserve ledgerId dispatchId tokens cost = .ok (r, db')) :
    ∃ row, db.ledgers.get? ledgerId = some row ∧
      db.reservations.get? (ledgerId, dispatchId) = none ∧
      ((db.activeCount ledgerId : Int) < row.maxWorkers ∧ tokens ≤ row.tokensRemaining ∧
        cost ≤ row.costRemaining) ∧
      db' = {
        ledgers := db.ledgers.set ledgerId
          ⟨row.tokensRemaining - tokens, row.costRemaining - cost, row.maxWorkers⟩
        reservations := db.reservations.set (ledgerId, dispatchId) ⟨tokens, cost⟩ } := by
  rw [Db.reserve] at h
  split at h
  · cases h
  next row hrow =>
    obtain ⟨_, hnew, h⟩ := bind_ok.mp h
    obtain ⟨_, hroom, h⟩ := bind_ok.mp h
    obtain ⟨_, -, h⟩ := bind_ok.mp h
    obtain ⟨_, -, h⟩ := bind_ok.mp h
    rw [require_ok] at hnew hroom
    cases h
    exact ⟨row, hrow, hnew, by omega, rfl⟩

theorem release_ok (h : db.release ledgerId dispatchId tokens cost = .ok ((), db')) :
    ∃ r row, db.reservations.get? (ledgerId, dispatchId) = some r ∧
      db.ledgers.get? ledgerId = some row ∧
      ((0 ≤ tokens ∧ tokens ≤ r.tokenAllowance) ∧ 0 ≤ cost ∧ cost ≤ r.costMicrounits) ∧
      db' = {
        ledgers := db.ledgers.set ledgerId
          ⟨row.tokensRemaining + tokens, row.costRemaining + cost, row.maxWorkers⟩
        reservations := db.reservations.erase (ledgerId, dispatchId) } := by
  rw [Db.release] at h
  split at h
  · cases h
  next r hr =>
    obtain ⟨_, hle, h⟩ := bind_ok.mp h
    rw [require_ok] at hle
    split at h
    · cases h
    next row hrow =>
      obtain ⟨_, -, h⟩ := bind_ok.mp h
      cases h
      exact ⟨r, row, hr, hrow, hle, rfl⟩

theorem exec_error {e : Error} (h : (exec o fails db).1 = .error e) : (exec o fails db).2 = db := by
  rw [exec] at h ⊢
  split
  · rfl
  next hf =>
    rw [if_neg hf] at h
    cases o with
    | selectLedger | countActive => rfl
    | insertLedger | reserve | release => exact atomically_error h

def LedgerRow.plus (row : LedgerRow) (tokens cost : Int) : LedgerRow :=
  ⟨row.tokensRemaining + tokens, row.costRemaining + cost, row.maxWorkers⟩

/-- The step of a ledger that is open, whichever ledger the statement is about. -/
structure Stepped (ledgerId : String) (row : LedgerRow) (db : Db) (xs : List (Settlement Amount))
    (db' : Db) : Prop where
  step : ∃ row', db'.ledgers.get? ledgerId = some row' ∧ row'.maxWorkers = row.maxWorkers ∧
    Escrow.Moves row.maxWorkers (account ledgerId row db) xs (account ledgerId row' db')

theorem Stepped.stay (hrow : db.ledgers.get? ledgerId = some row) :
    Stepped ledgerId row db [] db := ⟨⟨row, hrow, rfl, .stay⟩⟩

theorem Stepped.other (hrow : db.ledgers.get? ledgerId = some row)
    (hledger : db'.ledgers.get? ledgerId = db.ledgers.get? ledgerId)
    (hrows : rowsOf ledgerId db'.reservations = rowsOf ledgerId db.reservations) :
    Stepped ledgerId row db [] db' := by
  refine ⟨⟨row, hledger.trans hrow, rfl, ?_⟩⟩
  rw [account, account, hrows]
  exact .stay

theorem settled_error (db : Db) (ledgerId : String) (o : Op) :
    settled ledgerId db false o = [] := by
  cases o <;> simp [settled, settlement]

theorem run_stepped (hv : o.Valid) (hrow : db.ledgers.get? ledgerId = some row) :
    Stepped ledgerId row db (settled ledgerId db (run o db).1.toBool o) (run o db).2 := by
  cases o with
  | selectLedger | countActive => exact .stay hrow
  | insertLedger ledgerId' tokens cost maxWorkers =>
    rw [run]
    rcases atomically_cases (Db.insertLedger ledgerId' tokens cost maxWorkers) db with
      ⟨e, -, hat⟩ | ⟨_, db', h, hat⟩
    · rw [hat]
      exact .stay hrow
    · obtain ⟨hnew, rfl⟩ := insert_ok h
      have hne : ledgerId' ≠ ledgerId := fun he => by cases (he ▸ hnew).symm.trans hrow
      rw [hat]
      exact .other hrow (by rw [Dict.get?_set, if_neg hne]) rfl
  | reserve ledgerId' dispatchId tokens cost =>
    rw [run]
    rcases atomically_cases (Db.reserve ledgerId' dispatchId tokens cost) db with
      ⟨e, -, hat⟩ | ⟨r, db', h, hat⟩
    · rw [hat]
      exact .stay hrow
    · obtain ⟨row', hrow', hnew, ⟨hroom, htokens, hcost⟩, rfl⟩ := reserve_ok h
      rw [hat]
      by_cases hne : ledgerId' = ledgerId
      · subst hne
        obtain rfl := Option.some.inj (hrow'.symm.trans hrow)
        have hlen : ((rowsOf ledgerId' db.reservations).length : Int) < row'.maxWorkers := by
          rw [length_rowsOf]
          exact hroom
        refine ⟨⟨row'.plus (-tokens) (-cost), ?_, rfl, ?_⟩⟩
        · rw [Dict.get?_set, if_pos rfl]
          rfl
        · rw [account, account, rowsOf_set hnew]
          exact .reserve (a := (tokens, cost)) (get?_rowsOf_none hnew) ⟨hv.1, hv.2⟩
            ⟨htokens, hcost⟩ hlen
      · exact .other hrow (by rw [Dict.get?_set, if_neg hne]) (rowsOf_set_other hne hnew)
  | release ledgerId' dispatchId tokens cost =>
    rw [run]
    rcases atomically_cases (Db.release ledgerId' dispatchId tokens cost) db with
      ⟨e, -, hat⟩ | ⟨_, db', h, hat⟩
    · rw [hat]
      exact settled_error db ledgerId _ ▸ .stay hrow
    · obtain ⟨r, row', hr, hrow', hle, rfl⟩ := release_ok h
      simp only [hat, settled, Except.toBool]
      by_cases hne : ledgerId' = ledgerId
      · subst hne
        obtain rfl := Option.some.inj (hrow'.symm.trans hrow)
        rw [if_pos rfl, settlement_ok (get?_rowsOf_some hr)]
        refine ⟨⟨row'.plus tokens cost, ?_, rfl, ?_⟩⟩
        · rw [Dict.get?_set, if_pos rfl]
          rfl
        · rw [account, account, rowsOf_erase]
          exact .settle (r := (tokens, cost)) (get?_rowsOf_some hr) ⟨hle.1.1, hle.2.1⟩
            ⟨hle.1.2, hle.2.2⟩
      · rw [if_neg hne]
        exact .other hrow (by rw [Dict.get?_set, if_neg hne]) (rowsOf_erase_other _ _ hne)

theorem exec_stepped (fails : Bool) (hv : o.Valid) (hrow : db.ledgers.get? ledgerId = some row) :
    Stepped ledgerId row db (settled ledgerId db (exec o fails db).1.toBool o)
      (exec o fails db).2 := by
  rw [exec]
  split
  · exact settled_error db ledgerId o ▸ .stay hrow
  · exact run_stepped hv hrow

end Steps

end DurableBudgetLedger

end SubagentBridge.Planner
