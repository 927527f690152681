import Mathlib.Algebra.Group.Int.Defs
import SubagentBridge.Library.Interleaving
import SubagentBridge.Planner.Budget

/-! The budget ledger in SQLite: any number of connections on one file.  A reservation and a
release are one `BEGIN IMMEDIATE` block each; opening and the snapshot are separate statements. -/

namespace SubagentBridge.Planner

open Library Domain

namespace DurableBudgetLedger

/-- What the methods raise: an error of the in-memory ledger too, or one of the database. -/
inductive Error
  | raised (e : Domain.Error)
  | overflow
  | integrity
  | type
  | operational
  deriving DecidableEq

structure LedgerRow where
  tokensRemaining : Int
  costRemaining : Int
  maxWorkers : Int
  deriving DecidableEq

structure ReservationRow where
  tokenAllowance : Int
  costMicrounits : Int
  deriving DecidableEq

structure Db where
  ledgers : Dict String LedgerRow
  reservations : Dict (String × String) ReservationRow

/-- An integer that SQLite stores; binding another one raises. -/
def storable (n : Int) : Prop := -2 ^ 63 ≤ n ∧ n < 2 ^ 63

instance (n : Int) : Decidable (storable n) := inferInstanceAs (Decidable (_ ∧ _))

namespace Db

def activeCount (db : Db) (ledgerId : String) : Nat :=
  (db.reservations.filter (·.1.1 = ledgerId)).length

def insertLedger (ledgerId : String) (tokens costMicrounits maxWorkers : Int) (db : Db) :
    Except Error (Unit × Db) := do
  require (storable tokens ∧ storable costMicrounits ∧ storable maxWorkers) .overflow
  require (db.ledgers.get? ledgerId = none) .integrity
  return ((), { db with ledgers := db.ledgers.set ledgerId ⟨tokens, costMicrounits, maxWorkers⟩ })

def reserve (ledgerId dispatchId : String) (tokenAllowance costMicrounits : Int) (db : Db) :
    Except Error (Reservation × Db) :=
  match db.ledgers.get? ledgerId with
  | none => .error (.raised (.budgetExceeded "budget ledger not initialized"))
  | some row => do
    require (db.reservations.get? (ledgerId, dispatchId) = none)
      (.raised (.budgetExceeded "dispatch cannot reserve twice"))
    require (¬ (row.maxWorkers ≤ db.activeCount ledgerId ∨ row.tokensRemaining < tokenAllowance ∨
        row.costRemaining < costMicrounits))
      (.raised (.budgetExceeded "concurrency or token/cost ceiling exceeded"))
    let newTokens := row.tokensRemaining - tokenAllowance
    let newCost := row.costRemaining - costMicrounits
    require (storable newTokens ∧ storable newCost) .overflow
    require (storable tokenAllowance ∧ storable costMicrounits) .overflow
    return (⟨dispatchId, tokenAllowance, costMicrounits⟩,
      { ledgers := db.ledgers.set ledgerId
          { row with tokensRemaining := newTokens, costRemaining := newCost }
        reservations := db.reservations.set (ledgerId, dispatchId)
          ⟨tokenAllowance, costMicrounits⟩ })

def release (ledgerId dispatchId : String) (unusedTokens unusedCost : Int) (db : Db) :
    Except Error (Unit × Db) :=
  match db.reservations.get? (ledgerId, dispatchId) with
  | none => .error (.raised (.key "unknown dispatch"))
  | some r => do
    require ((0 ≤ unusedTokens ∧ unusedTokens ≤ r.tokenAllowance) ∧
        0 ≤ unusedCost ∧ unusedCost ≤ r.costMicrounits)
      (.raised (.value "refund not verified by reservation"))
    match db.ledgers.get? ledgerId with
    | none => .error .type
    | some row => do
      let newTokens := row.tokensRemaining + unusedTokens
      let newCost := row.costRemaining + unusedCost
      require (storable newTokens ∧ storable newCost) .overflow
      return ((),
        { ledgers := db.ledgers.set ledgerId
            { row with tokensRemaining := newTokens, costRemaining := newCost }
          reservations := db.reservations.erase (ledgerId, dispatchId) })

end Db

inductive Op
  | selectLedger (ledgerId : String)
  | insertLedger (ledgerId : String) (tokens costMicrounits maxWorkers : Int)
  | reserve (ledgerId dispatchId : String) (tokenAllowance costMicrounits : Int)
  | release (ledgerId dispatchId : String) (unusedTokens unusedCost : Int)
  | countActive (ledgerId : String)

abbrev Op.Ret : Op → Type
  | .selectLedger _ => Option LedgerRow
  | .insertLedger _ _ _ _ | .release _ _ _ _ => Unit
  | .reserve _ _ _ _ => Reservation
  | .countActive _ => Nat

abbrev sig : Signature := ⟨Op, Op.Ret⟩

abbrev Call (α : Type) := Proc sig Error α

def perform (o : Op) : Call o.Ret := Proc.op (S := sig) o

def run : (o : Op) → Db → Except Error o.Ret × Db
  | .selectLedger ledgerId, db => (.ok (db.ledgers.get? ledgerId), db)
  | .insertLedger ledgerId tokens costMicrounits maxWorkers, db =>
    atomically (Db.insertLedger ledgerId tokens costMicrounits maxWorkers) db
  | .reserve ledgerId dispatchId tokenAllowance costMicrounits, db =>
    atomically (Db.reserve ledgerId dispatchId tokenAllowance costMicrounits) db
  | .release ledgerId dispatchId unusedTokens unusedCost, db =>
    atomically (Db.release ledgerId dispatchId unusedTokens unusedCost) db
  | .countActive ledgerId, db => (.ok (db.activeCount ledgerId), db)

def exec (o : Op) (fails : Bool) (db : Db) : Except Error o.Ret × Db :=
  if fails then (.error .operational, db) else run o db

def openLedger (ledgerId : String) (tokens costMicrounits maxWorkers : Int) : Call Unit := do
  Proc.require (0 ≤ tokens ∧ 0 ≤ costMicrounits ∧ 0 < maxWorkers)
    (.raised (.value "nonnegative integer budgets and positive worker ceiling required"))
  match ← perform (.selectLedger ledgerId) with
  | none => perform (.insertLedger ledgerId tokens costMicrounits maxWorkers)
  | some _ => return ()

def reserve (ledgerId dispatchId : String) (tokenAllowance costMicrounits : Int) :
    Call Reservation := do
  Proc.require (isBlank dispatchId = false ∧ 0 ≤ tokenAllowance ∧ 0 ≤ costMicrounits)
    (.raised (.value "dispatch ID and nonnegative integer ceilings required"))
  perform (.reserve ledgerId dispatchId tokenAllowance costMicrounits)

def release (ledgerId dispatchId : String) (unusedTokens unusedCost : Int) : Call Unit := do
  Proc.require (0 ≤ unusedTokens ∧ 0 ≤ unusedCost)
    (.raised (.value "refunds must be nonnegative integers"))
  perform (.release ledgerId dispatchId unusedTokens unusedCost)

def snapshot (ledgerId : String) : Call Snapshot := do
  let row ← perform (.selectLedger ledgerId)
  let active ← perform (.countActive ledgerId)
  return ⟨(row.map (·.tokensRemaining)).getD 0, (row.map (·.costRemaining)).getD 0, active⟩

end DurableBudgetLedger

inductive LedgerCall
  | reserve (dispatchId : String) (tokenAllowance costMicrounits : Int)
  | release (dispatchId : String) (unusedTokens unusedCost : Int)
  | snapshot
  | connect

inductive Answer
  | reservation (r : Reservation)
  | none
  | snapshot (s : Snapshot)
  deriving DecidableEq

def BudgetLedger.perform : LedgerCall → BudgetLedger → Except Error Answer × BudgetLedger
  | .reserve dispatchId tokenAllowance costMicrounits, b =>
    orRaise (b.reserve dispatchId tokenAllowance costMicrounits) b fun (r, b) =>
      (.ok (.reservation r), b)
  | .release dispatchId unusedTokens unusedCost, b =>
    orRaise (b.release dispatchId unusedTokens unusedCost) b fun b => (.ok .none, b)
  | .snapshot, b => (.ok (.snapshot b.snapshot), b)
  | .connect, b => (.ok .none, b)

namespace DurableBudgetLedger

structure Connection where
  ledgerId : String
  tokens : Int
  costMicrounits : Int
  maxWorkers : Int

def body (request : Connection × LedgerCall) : Call Answer :=
  let conn := request.1
  match request.2 with
  | .reserve dispatchId tokenAllowance costMicrounits => do
    return .reservation (← reserve conn.ledgerId dispatchId tokenAllowance costMicrounits)
  | .release dispatchId unusedTokens unusedCost => do
    release conn.ledgerId dispatchId unusedTokens unusedCost
    return .none
  | .snapshot => do return .snapshot (← snapshot conn.ledgerId)
  | .connect => do
    openLedger conn.ledgerId conn.tokens conn.costMicrounits conn.maxWorkers
    return .none

abbrev connections : Machine where
  sig := sig
  Err := Error
  Res := Answer
  Request := Connection × LedgerCall
  State := Db
  World := Bool
  possible _ _ _ := true
  exec := exec
  body := body

end DurableBudgetLedger

end SubagentBridge.Planner
