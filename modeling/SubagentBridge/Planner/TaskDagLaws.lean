import Mathlib.Algebra.Order.BigOperators.Group.List
import SubagentBridge.Planner.TaskDag

/-! The order that the validation of a task graph answers: every task once. -/

namespace SubagentBridge.Planner

open Library Domain

namespace Walk

variable {graph : Dict String (List String)} {w w' : Walk}

def marked (w : Walk) : List String := (w.stack.filter (·.2)).map (·.1)

structure Inv (graph : Dict String (List String)) (w : Walk) : Prop where
  known : ∀ p ∈ w.stack, p.1 ∈ graph.keys
  visited_known : ∀ k ∈ w.visited, k ∈ graph.keys
  result_iff : ∀ k, k ∈ w.result ↔ k ∈ w.visited
  nodup : w.result.Nodup
  visiting : w.visiting = w.marked
  visiting_nodup : w.visiting.Nodup
  disjoint : ∀ k ∈ w.visiting, k ∉ w.visited

def fresh (graph : Dict String (List String)) (w : Walk) : Nat :=
  (graph.map fun p => if p.1 ∈ w.visited ∨ p.1 ∈ w.visiting then 0 else p.2.length + 1).sum

def potential (graph : Dict String (List String)) (w : Walk) : Nat := w.stack.length + fresh graph w

theorem fresh_enter {node : String} {deps : List String} (hget : graph.get? node = some deps)
    (hvisited : node ∉ w.visited) (hvisiting : node ∉ w.visiting) (stack : List (String × Bool)) :
    fresh graph { w with stack, visiting := node :: w.visiting } + (deps.length + 1) ≤
      fresh graph w := by
  induction graph with
  | nil => cases hget
  | cons p graph ih =>
    obtain ⟨k, ds⟩ := p
    rw [Dict.get?_cons] at hget
    simp only [fresh, List.map_cons, List.sum_cons] at ih ⊢
    split at hget
    next hk =>
      subst hk
      cases hget
      have htail : (graph.map fun p =>
            if p.1 ∈ w.visited ∨ p.1 ∈ k :: w.visiting then 0 else p.2.length + 1).sum ≤
          (graph.map fun p =>
            if p.1 ∈ w.visited ∨ p.1 ∈ w.visiting then 0 else p.2.length + 1).sum := by
        apply List.sum_le_sum
        intro p _
        split <;> split <;> simp_all
      have hhead : k ∈ w.visited ∨ k ∈ k :: w.visiting := .inr (List.mem_cons_self ..)
      have hfresh : ¬ (k ∈ w.visited ∨ k ∈ w.visiting) := not_or.mpr ⟨hvisited, hvisiting⟩
      rw [if_pos hhead, if_neg hfresh]
      omega
    next hk =>
      have hhead : (k ∈ w.visited ∨ k ∈ node :: w.visiting) ↔ (k ∈ w.visited ∨ k ∈ w.visiting) := by
        rw [List.mem_cons, or_iff_right (fun h : k = node => hk h)]
      simp only [hhead]
      have := ih hget
      omega

theorem fresh_leave {node : String} (h : node ∈ w.visiting) (hnodup : w.visiting.Nodup)
    (stack : List (String × Bool)) (result : List String) :
    fresh graph ⟨stack, w.visiting.erase node, node :: w.visited, result⟩ = fresh graph w := by
  have hmem : ∀ k, (k ∈ node :: w.visited ∨ k ∈ w.visiting.erase node) ↔
      (k ∈ w.visited ∨ k ∈ w.visiting) := by
    intro k
    rw [List.mem_cons, hnodup.mem_erase_iff]
    by_cases hk : k = node
    · simp [hk, h]
    · simp [hk]
  simp only [fresh, hmem]

/-- What a turn of the loop owes: less is left to do, and nothing is forgotten. -/
structure Progress (graph : Dict String (List String)) (w w' : Walk) : Prop where
  inv : w'.Inv graph
  less : potential graph w' < potential graph w
  keeps : ∀ k, k ∈ w.visited ∨ k ∈ w.stack.map (·.1) → k ∈ w'.visited ∨ k ∈ w'.stack.map (·.1)

section Turns

variable {node : String} {stack : List (String × Bool)} {visiting visited result : List String}

theorem progress_leave (hi : Inv graph ⟨(node, true) :: stack, visiting, visited, result⟩) :
    Progress graph ⟨(node, true) :: stack, visiting, visited, result⟩
      ⟨stack, visiting.erase node, node :: visited, result ++ [node]⟩ := by
  have hknown := List.forall_mem_cons.mp hi.known
  have hvisiting : visiting = node :: (stack.filter (·.2)).map (·.1) := hi.visiting
  have hnode : node ∈ visiting := hvisiting ▸ List.mem_cons_self ..
  have herase : visiting.erase node = (stack.filter (·.2)).map (·.1) := by
    rw [hvisiting, List.erase_cons_head]
  have hnotin : node ∉ visited := hi.disjoint node hnode
  refine ⟨⟨hknown.2, ?_, ?_, ?_, herase, hi.visiting_nodup.erase node, ?_⟩, ?_, ?_⟩
  · exact List.forall_mem_cons.mpr ⟨hknown.1, hi.visited_known⟩
  · intro k
    simp [hi.result_iff k, or_comm]
  · refine hi.nodup.append (List.nodup_singleton node) ?_
    rw [List.disjoint_singleton, hi.result_iff]
    exact hnotin
  · intro k hk
    rw [hi.visiting_nodup.mem_erase_iff] at hk
    simp [hk.1, hi.disjoint k hk.2]
  · have hfresh : fresh graph ⟨stack, visiting.erase node, node :: visited, result ++ [node]⟩ =
        fresh graph ⟨(node, true) :: stack, visiting, visited, result⟩ :=
      fresh_leave hnode hi.visiting_nodup stack (result ++ [node])
    simp only [potential, List.length_cons, hfresh]
    omega
  · intro k hk
    simp only [List.map_cons, List.mem_cons] at hk ⊢
    tauto

theorem progress_skip (hi : Inv graph ⟨(node, false) :: stack, visiting, visited, result⟩)
    (hvisited : node ∈ visited) :
    Progress graph ⟨(node, false) :: stack, visiting, visited, result⟩
      ⟨stack, visiting, visited, result⟩ := by
  have hknown := List.forall_mem_cons.mp hi.known
  refine ⟨⟨hknown.2, hi.visited_known, hi.result_iff, hi.nodup, hi.visiting, hi.visiting_nodup,
    hi.disjoint⟩, ?_, ?_⟩
  · simp only [potential, List.length_cons, fresh]
    omega
  · intro k hk
    simp only [List.map_cons, List.mem_cons] at hk ⊢
    rcases hk with hk | rfl | hk
    · exact .inl hk
    · exact .inl hvisited
    · exact .inr hk

theorem progress_enter {deps : List String} (hget : graph.get? node = some deps)
    (hdeps : ∀ d ∈ deps, d ∈ graph.keys)
    (hi : Inv graph ⟨(node, false) :: stack, visiting, visited, result⟩)
    (hvisiting : node ∉ visiting) (hvisited : node ∉ visited) :
    Progress graph ⟨(node, false) :: stack, visiting, visited, result⟩
      ⟨(deps.filter (· ∉ visited)).map (·, false) ++ (node, true) :: stack, node :: visiting,
        visited, result⟩ := by
  have hknown := List.forall_mem_cons.mp hi.known
  refine ⟨⟨?_, hi.visited_known, hi.result_iff, hi.nodup, ?_, ?_, ?_⟩, ?_, ?_⟩
  · intro p hp
    rcases List.mem_append.mp hp with hp | hp
    · obtain ⟨d, hd, rfl⟩ := List.mem_map.mp hp
      exact hdeps d (List.mem_of_mem_filter hd)
    · exact (List.mem_cons.mp hp).elim (fun hp => hp ▸ hknown.1) (hknown.2 p)
  · have hmarked : visiting = (stack.filter (·.2)).map (·.1) := hi.visiting
    have hnone : ((deps.filter (· ∉ visited)).map fun d => (d, false)).filter (·.2) = [] := by
      simp
    simp only [marked, List.filter_append, hnone, List.nil_append, List.filter_cons, if_true,
      List.map_cons, hmarked]
  · exact List.nodup_cons.mpr ⟨hvisiting, hi.visiting_nodup⟩
  · exact List.forall_mem_cons.mpr ⟨hvisited, hi.disjoint⟩
  · have hfresh := fresh_enter (w := ⟨(node, false) :: stack, visiting, visited, result⟩) hget
      hvisited hvisiting ((deps.filter (· ∉ visited)).map (·, false) ++ (node, true) :: stack)
    have hlen := List.length_filter_le (· ∉ visited) deps
    simp only [potential, List.length_append, List.length_map, List.length_cons] at hfresh ⊢
    omega
  · intro k hk
    simp only [List.map_cons, List.mem_cons, List.map_append, List.mem_append] at hk ⊢
    tauto

end Turns

def Closed (graph : Dict String (List String)) : Prop :=
  ∀ k deps, graph.get? k = some deps → ∀ d ∈ deps, d ∈ graph.keys

theorem turn_ok (hclosed : Closed graph) (hi : w.Inv graph) (hne : w.stack ≠ [])
    (h : w.turn graph = .ok w') : Progress graph w w' := by
  obtain ⟨stack, visiting, visited, result⟩ := w
  cases stack with
  | nil => exact absurd rfl hne
  | cons p stack =>
    obtain ⟨node, mark⟩ := p
    cases mark with
    | true =>
      cases h
      exact progress_leave hi
    | false =>
      simp only [turn] at h
      split at h
      next => cases h
      next hvisiting =>
        split at h
        next hvisited =>
          cases h
          exact progress_skip hi hvisited
        next hvisited =>
          have hknown : node ∈ graph.keys := hi.known _ (List.mem_cons_self ..)
          cases hget : graph.get? node with
          | none => exact absurd hknown (Dict.notMem_keys.mpr hget)
          | some deps =>
            rw [hget] at h
            cases h
            exact progress_enter hget (hclosed node deps hget) hi hvisiting hvisited

structure Done (graph : Dict String (List String)) (w w' : Walk) : Prop where
  inv : w'.Inv graph
  stack : w'.stack = []
  keeps : ∀ k, k ∈ w.visited ∨ k ∈ w.stack.map (·.1) → k ∈ w'.visited

theorem drain_ok (hclosed : Closed graph) {n : Nat} (hi : w.Inv graph) (hn : potential graph w ≤ n)
    (h : w.drain graph n = .ok w') : Done graph w w' := by
  induction n generalizing w with
  | zero =>
    have hstack : w.stack = [] := by
      rw [← List.length_eq_zero_iff]
      rw [potential] at hn
      omega
    cases h
    exact ⟨hi, hstack, fun k hk => by simpa [hstack] using hk⟩
  | succ n ih =>
    rw [drain] at h
    split at h
    next hstack =>
      cases h
      exact ⟨hi, hstack, fun k hk => by simpa [hstack] using hk⟩
    next hstack =>
      cases hturn : w.turn graph with
      | error e =>
        rw [hturn] at h
        cases h
      | ok w₁ =>
        rw [hturn] at h
        have hp := turn_ok hclosed hi hstack hturn
        have hd := ih hp.inv (by have := hp.less; omega) h
        exact ⟨hd.inv, hd.stack, fun k hk => hd.keeps k (hp.keeps k hk)⟩

theorem root_inv {task : String} (htask : task ∈ graph.keys) (hi : w.Inv graph)
    (hstack : w.stack = []) : Inv graph { w with stack := [(task, false)] } := by
  refine ⟨?_, hi.visited_known, hi.result_iff, hi.nodup, ?_, hi.visiting_nodup, hi.disjoint⟩
  · simpa using htask
  · rw [hi.visiting]
    simp [marked, hstack]

theorem root_bound (graph : Dict String (List String)) (w : Walk) (task : String) :
    potential graph { w with stack := [(task, false)] } ≤ turnBound graph := by
  have hfresh : fresh graph w ≤ (graph.map fun p => p.2.length + 1).sum := by
    apply List.sum_le_sum
    intro p _
    split <;> simp
  have hsum : (graph.map fun p => p.2.length + 1).sum =
      (graph.map (·.2.length)).sum + graph.length := by
    simp [List.sum_map_add]
  simp only [potential, turnBound, List.length_cons, List.length_nil]
  simp only [fresh] at hfresh ⊢
  omega

theorem walkFrom_ok (hclosed : Closed graph) {task : String} (htask : task ∈ graph.keys)
    (hi : w.Inv graph) (hstack : w.stack = []) (h : walkFrom graph w task = .ok w') :
    Done graph w w' ∧ task ∈ w'.visited := by
  rw [walkFrom] at h
  split at h
  next hvisited =>
    cases h
    exact ⟨⟨hi, hstack, fun k hk => by simpa [hstack] using hk⟩, hvisited⟩
  next hvisited =>
    have hd := drain_ok hclosed (root_inv htask hi hstack) (root_bound graph w task) h
    exact ⟨⟨hd.inv, hd.stack, fun k hk => hd.keeps k (.inl (by simpa [hstack] using hk))⟩,
      hd.keeps task (.inr (by simp))⟩

theorem foldl_ok (hclosed : Closed graph) {tasks : List String} (hi : w.Inv graph)
    (hstack : w.stack = []) (htasks : ∀ t ∈ tasks, t ∈ graph.keys)
    (h : tasks.foldlM (walkFrom graph) w = .ok w') :
    w'.Inv graph ∧ (∀ k ∈ w.visited, k ∈ w'.visited) ∧ ∀ t ∈ tasks, t ∈ w'.visited := by
  induction tasks generalizing w with
  | nil =>
    cases h
    exact ⟨hi, fun _ => id, fun _ ht => by cases ht⟩
  | cons t tasks ih =>
    rw [List.forall_mem_cons] at htasks
    rw [List.foldlM_cons, bind_ok] at h
    obtain ⟨w₁, h₁, h⟩ := h
    obtain ⟨hd, ht⟩ := walkFrom_ok hclosed htasks.1 hi hstack h₁
    obtain ⟨hi', hkeeps, hall⟩ := ih hd.inv hd.stack htasks.2 h
    exact ⟨hi', fun k hk => hkeeps k (hd.keeps k (.inl hk)),
      List.forall_mem_cons.mpr ⟨hkeeps t ht, hall⟩⟩

end Walk

theorem validateTaskDag_ok {dependencies acceptanceCriteria : Dict String (List String)}
    {order : List String} (h : validateTaskDag dependencies acceptanceCriteria = .ok order) :
    order.Nodup ∧ ∀ task, task ∈ order ↔ task ∈ dependencies.keys := by
  simp only [validateTaskDag, bind_ok, require_ok] at h
  obtain ⟨_, -, _, -, _, -, _, hdeps, w, hw, h⟩ := h
  cases h
  have hclosed : Walk.Closed dependencies := by
    intro k deps hget d hd
    have hcheck := forM_ok hdeps (k, deps) (Dict.mem_of_get? hget)
    simp only [checkDeps, bind_ok, require_ok] at hcheck
    obtain ⟨_, -, hknown⟩ := hcheck
    exact hknown d hd
  have hstart : Walk.Inv dependencies ⟨[], [], [], []⟩ := by
    constructor <;> simp [Walk.marked]
  have hkeys : ∀ t ∈ dependencies.keys.insertionSort (· ≤ ·), t ∈ dependencies.keys :=
    fun t ht => (List.mem_insertionSort _).mp ht
  obtain ⟨hi, -, hall⟩ := Walk.foldl_ok hclosed hstart rfl hkeys hw
  refine ⟨hi.nodup, fun task => ⟨fun ht => hi.visited_known task ((hi.result_iff task).mp ht), ?_⟩⟩
  intro ht
  exact (hi.result_iff task).mpr (hall task ((List.mem_insertionSort _).mpr ht))

end SubagentBridge.Planner
