import SubagentBridge.Domain.Contracts
import SubagentBridge.Library.Dict

/-! Reservation of token and cost budget. -/

namespace SubagentBridge.Planner

open Library Domain

structure Snapshot where
  tokensAvailable : Int
  costAvailable : Int
  active : Nat
  deriving DecidableEq

/-- What the coordinator uses of a budget ledger.  A durable ledger answers from a
file, so every call may raise. -/
structure BudgetApi (B : Type) where
  maxWorkers : B → Nat
  snapshot : B → Except Error Snapshot
  reserve : String → Int → Int → B → Result B Unit
  release : String → B → Result B Unit

structure Reservation where
  dispatchId : String
  tokenAllowance : Int
  costMicrounits : Int
  deriving DecidableEq

structure BudgetLedger where
  tokens : Int
  cost : Int
  maxWorkers : Nat
  reservations : Dict String Reservation
  deriving DecidableEq

namespace BudgetLedger

def create (tokens costMicrounits maxWorkers : Int) : Except Error BudgetLedger := do
  require (0 ≤ tokens ∧ 0 ≤ costMicrounits ∧ 0 < maxWorkers)
    (.value "nonnegative integer budgets and positive worker ceiling required")
  return ⟨tokens, costMicrounits, maxWorkers.toNat, []⟩

def reserve (dispatchId : String) (tokenAllowance costMicrounits : Int) (b : BudgetLedger) :
    Except Error (Reservation × BudgetLedger) := do
  require (isBlank dispatchId = false ∧ 0 ≤ tokenAllowance ∧ 0 ≤ costMicrounits)
    (.value "dispatch ID and nonnegative integer ceilings required")
  require (b.reservations.get? dispatchId = none) (.budgetExceeded "dispatch cannot reserve twice")
  require (¬ (b.maxWorkers ≤ b.reservations.length ∨ b.tokens < tokenAllowance ∨
      b.cost < costMicrounits))
    (.budgetExceeded "concurrency or token/cost ceiling exceeded")
  let r : Reservation := ⟨dispatchId, tokenAllowance, costMicrounits⟩
  return (r, { b with
    tokens := b.tokens - tokenAllowance, cost := b.cost - costMicrounits,
    reservations := b.reservations.set dispatchId r })

def release (dispatchId : String) (unusedTokens unusedCost : Int) (b : BudgetLedger) :
    Except Error BudgetLedger := do
  require (0 ≤ unusedTokens ∧ 0 ≤ unusedCost) (.value "refunds must be nonnegative integers")
  match b.reservations.get? dispatchId with
  | none => throw (.key "unknown dispatch")
  | some r =>
    require (unusedTokens ≤ r.tokenAllowance ∧ unusedCost ≤ r.costMicrounits)
      (.value "refund not verified by reservation")
    return { b with
      tokens := b.tokens + unusedTokens, cost := b.cost + unusedCost,
      reservations := b.reservations.erase dispatchId }

def snapshot (b : BudgetLedger) : Snapshot := ⟨b.tokens, b.cost, b.reservations.length⟩

def api : BudgetApi BudgetLedger where
  maxWorkers b := b.maxWorkers
  snapshot b := .ok b.snapshot
  reserve dispatchId tokenAllowance costMicrounits b :=
    orRaise (b.reserve dispatchId tokenAllowance costMicrounits) b fun (_, b) => (.ok (), b)
  release dispatchId b := orRaise (b.release dispatchId 0 0) b fun b => (.ok (), b)

end BudgetLedger

end SubagentBridge.Planner
