import Mathlib.Algebra.GroupWithZero.Nat
import Mathlib.Data.List.Sort
import SubagentBridge.Domain.Contracts
import SubagentBridge.Library.Dict

/-! Validation of the task graph: an iterative depth-first walk that yields an order
of work, dependencies first. -/

namespace SubagentBridge.Planner

open Library Domain

structure Walk where
  stack : List (String × Bool)
  visiting : List String
  visited : List String
  result : List String
  deriving DecidableEq

/-- One turn of the `while` loop; a stack entry is marked when it is left. -/
def Walk.turn (graph : Dict String (List String)) (w : Walk) : Except Error Walk :=
  match w.stack with
  | [] => .ok w
  | (node, true) :: stack =>
    .ok { stack, visiting := w.visiting.erase node, visited := node :: w.visited,
          result := w.result ++ [node] }
  | (node, false) :: stack =>
    if node ∈ w.visiting then .error (.value "dependency cycle")
    else if node ∈ w.visited then .ok { w with stack }
    else
      let deps := ((graph.get? node).getD []).filter (· ∉ w.visited)
      .ok { w with stack := deps.map (·, false) ++ (node, true) :: stack,
                   visiting := node :: w.visiting }

/-- Every turn takes one entry off the stack, and entries are put there once for a
root, once for leaving a node and once for a dependency. -/
def turnBound (graph : Dict String (List String)) : Nat :=
  2 * graph.length + (graph.map (·.2.length)).sum + 1

def Walk.drain (graph : Dict String (List String)) : Nat → Walk → Except Error Walk
  | 0, w => .ok w
  | n + 1, w => if w.stack = [] then .ok w else (w.turn graph).bind (drain graph n)

def walkFrom (graph : Dict String (List String)) (w : Walk) (task : String) : Except Error Walk :=
  if task ∈ w.visited then .ok w
  else { w with stack := [(task, false)] }.drain graph (turnBound graph)

def TaskId (task : String) : Prop := isBlank task = false ∧ task.length ≤ 256

instance (task : String) : Decidable (TaskId task) := by
  unfold TaskId
  infer_instance

def checkDeps (dependencies : Dict String (List String)) (deps : List String) :
    Except Error Unit := do
  require ((∀ dep ∈ deps, TaskId dep) ∧ deps.Nodup)
    (.value "dependencies must have unique valid IDs")
  require (∀ dep ∈ deps, dep ∈ dependencies.keys) (.value "unknown dependency")

def validateTaskDag (dependencies acceptanceCriteria : Dict String (List String)) :
    Except Error (List String) := do
  require (dependencies ≠ [] ∧ (∀ k ∈ dependencies.keys, k ∈ acceptanceCriteria.keys) ∧
      ∀ k ∈ acceptanceCriteria.keys, k ∈ dependencies.keys)
    (.value "complete task list and AC required")
  require (∀ task ∈ dependencies.keys, TaskId task)
    (.value "task IDs must be bounded nonempty text")
  require (∀ p ∈ acceptanceCriteria,
      isBlank p.1 = false ∧ p.2 ≠ [] ∧ (∀ x ∈ p.2, isBlank x = false) ∧ p.2.Nodup)
    (.value "each task needs unique measurable AC")
  dependencies.forM fun p => checkDeps dependencies p.2
  let w ← (dependencies.keys.insertionSort (· ≤ ·)).foldlM (walkFrom dependencies) ⟨[], [], [], []⟩
  return w.result

end SubagentBridge.Planner
