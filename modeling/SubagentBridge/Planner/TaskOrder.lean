import Mathlib.Data.String.Basic
import SubagentBridge.Library.Topological
import SubagentBridge.Planner.TaskDagLaws

/-! The validation of a task graph sorts it: dependencies come first, and only cycles are
refused. -/

namespace SubagentBridge.Planner

open Library Domain

def Depends (graph : Dict String (List String)) (task dep : String) : Prop :=
  ∃ deps, graph.get? task = some deps ∧ dep ∈ deps

def Cyclic (graph : Dict String (List String)) : Prop :=
  ∃ task, Relation.TransGen (Depends graph) task task

namespace Walk

variable {graph : Dict String (List String)} {w w' : Walk}

structure Ordered (graph : Dict String (List String)) (w : Walk) : Prop where
  sorted : Topological (Depends graph) w.result
  pending : ∀ above node below, w.stack = above ++ (node, true) :: below →
    ∀ dep, Depends graph node dep → dep ∈ w.visited ∨ dep ∈ above.map (·.1)
  needed : ∀ above node below, w.stack = above ++ (node, true) :: below →
    ∀ p ∈ above, Relation.TransGen (Depends graph) node p.1

section Turns

variable {node : String} {mark : Bool} {stack : List (String × Bool)}
variable {visiting visited result : List String}

theorem Ordered.tail (ho : Ordered graph ⟨(node, mark) :: stack, visiting, visited, result⟩)
    {above below : List (String × Bool)} {m : String} (h : stack = above ++ (m, true) :: below) :
    (∀ dep, Depends graph m dep → dep ∈ visited ∨ dep = node ∨ dep ∈ above.map (·.1)) ∧
      Relation.TransGen (Depends graph) m node ∧
      ∀ p ∈ above, Relation.TransGen (Depends graph) m p.1 := by
  have hstack : (node, mark) :: stack = ((node, mark) :: above) ++ (m, true) :: below := by
    rw [h, List.cons_append]
  refine ⟨fun dep hdep => ?_, ?_, fun p hp => ?_⟩
  · simpa using ho.pending _ m below hstack dep hdep
  · exact ho.needed _ m below hstack (node, mark) List.mem_cons_self
  · exact ho.needed _ m below hstack p (List.mem_cons_of_mem _ hp)

theorem ordered_leave (hi : Inv graph ⟨(node, true) :: stack, visiting, visited, result⟩)
    (ho : Ordered graph ⟨(node, true) :: stack, visiting, visited, result⟩) :
    Ordered graph ⟨stack, visiting.erase node, node :: visited, result ++ [node]⟩ := by
  refine ⟨ho.sorted.snoc fun dep hdep => ?_, ?_, ?_⟩
  · have hdone := ho.pending [] node stack rfl dep hdep
    simpa using (hi.result_iff dep).mpr (by simpa using hdone)
  · intro above m below hstack dep hdep
    rcases (ho.tail hstack).1 dep hdep with hdone | rfl | habove
    · exact .inl (List.mem_cons_of_mem _ hdone)
    · exact .inl List.mem_cons_self
    · exact .inr habove
  · exact fun above m below hstack => (ho.tail hstack).2.2

theorem ordered_skip (hvisited : node ∈ visited)
    (ho : Ordered graph ⟨(node, false) :: stack, visiting, visited, result⟩) :
    Ordered graph ⟨stack, visiting, visited, result⟩ := by
  refine ⟨ho.sorted, ?_, ?_⟩
  · intro above m below hstack dep hdep
    rcases (ho.tail hstack).1 dep hdep with hdone | rfl | habove
    · exact .inl hdone
    · exact .inl hvisited
    · exact .inr habove
  · exact fun above m below hstack => (ho.tail hstack).2.2

theorem enter_split {deps : List String} {above below : List (String × Bool)} {m : String}
    (h : deps.map (·, false) ++ (node, true) :: stack = above ++ (m, true) :: below) :
    (above = deps.map (·, false) ∧ m = node) ∨
      ∃ above', above = deps.map (·, false) ++ (node, true) :: above' ∧
        stack = above' ++ (m, true) :: below := by
  induction deps generalizing above with
  | nil =>
    cases above with
    | nil =>
      cases h
      exact .inl ⟨rfl, rfl⟩
    | cons p above =>
      cases h
      exact .inr ⟨above, rfl, rfl⟩
  | cons d deps ih =>
    cases above with
    | nil => cases h
    | cons p above =>
      rw [List.map_cons, List.cons_append, List.cons_append, List.cons.injEq] at h
      obtain ⟨rfl, h⟩ := h
      rcases ih h with ⟨rfl, rfl⟩ | ⟨above', rfl, hstack⟩
      · exact .inl ⟨rfl, rfl⟩
      · exact .inr ⟨above', rfl, hstack⟩

theorem ordered_enter {deps : List String} (hget : graph.get? node = some deps)
    (ho : Ordered graph ⟨(node, false) :: stack, visiting, visited, result⟩) :
    Ordered graph ⟨(deps.filter (· ∉ visited)).map (·, false) ++ (node, true) :: stack,
      node :: visiting, visited, result⟩ := by
  refine ⟨ho.sorted, ?_, ?_⟩
  · intro above m below hstack dep hdep
    rcases enter_split hstack with ⟨rfl, rfl⟩ | ⟨above', rfl, hrest⟩
    · obtain ⟨deps', hget', hmem⟩ := hdep
      cases hget.symm.trans hget'
      by_cases hdone : dep ∈ visited
      · exact .inl hdone
      · exact .inr (by simpa using ⟨hmem, hdone⟩)
    · rcases (ho.tail hrest).1 dep hdep with hdone | rfl | habove
      · exact .inl hdone
      · exact .inr (by simp)
      · exact .inr (by simpa using .inr (.inr (by simpa using habove)))
  · intro above m below hstack p hp
    have hdirect : ∀ d ∈ deps, Depends graph node d := fun d hd => ⟨deps, hget, hd⟩
    rcases enter_split hstack with ⟨rfl, rfl⟩ | ⟨above', rfl, hrest⟩
    · obtain ⟨d, hd, rfl⟩ := List.mem_map.mp hp
      exact .single (hdirect d (List.mem_of_mem_filter hd))
    · obtain ⟨-, hnode, habove⟩ := ho.tail hrest
      rcases List.mem_append.mp hp with hp | hp
      · obtain ⟨d, hd, rfl⟩ := List.mem_map.mp hp
        exact hnode.tail (hdirect d (List.mem_of_mem_filter hd))
      · rcases List.mem_cons.mp hp with rfl | hp
        · exact hnode
        · exact habove p hp

end Turns

theorem turn_ordered (hi : w.Inv graph) (ho : Ordered graph w) (hne : w.stack ≠ []) :
    (∃ w', w.turn graph = .ok w' ∧ Ordered graph w') ∨
      w.turn graph = .error (.value "dependency cycle") ∧ Cyclic graph := by
  obtain ⟨stack, visiting, visited, result⟩ := w
  cases stack with
  | nil => exact absurd rfl hne
  | cons p stack =>
    obtain ⟨node, mark⟩ := p
    cases mark with
    | true => exact .inl ⟨_, rfl, ordered_leave hi ho⟩
    | false =>
      simp only [turn]
      by_cases hvisiting : node ∈ visiting
      · rw [if_pos hvisiting]
        refine .inr ⟨rfl, node, ?_⟩
        -- the task was entered and is needed for itself
        have hmark : (node, true) ∈ stack := by
          have hmarked : visiting = marked ⟨(node, false) :: stack, visiting, visited, result⟩ :=
            hi.visiting
          rw [hmarked] at hvisiting
          simpa [marked] using hvisiting
        obtain ⟨above, below, hstack⟩ := List.append_of_mem hmark
        exact (ho.tail hstack).2.1
      · rw [if_neg hvisiting]
        by_cases hvisited : node ∈ visited
        · rw [if_pos hvisited]
          exact .inl ⟨_, rfl, ordered_skip hvisited ho⟩
        · rw [if_neg hvisited]
          have hknown : node ∈ graph.keys := hi.known _ List.mem_cons_self
          cases hget : graph.get? node with
          | none => exact absurd hknown (Dict.notMem_keys.mpr hget)
          | some deps => exact .inl ⟨_, rfl, ordered_enter hget ho⟩

/-! ## The loops without bound -/

inductive Loop (graph : Dict String (List String)) : Walk → Except Error Walk → Prop
  | done {w : Walk} : w.stack = [] → Loop graph w (.ok w)
  | raise {w : Walk} {e : Error} : w.stack ≠ [] → w.turn graph = .error e → Loop graph w (.error e)
  | turn {w w' : Walk} {r : Except Error Walk} :
      w.stack ≠ [] → w.turn graph = .ok w' → Loop graph w' r → Loop graph w r

/-- The `for` loop runs over the tasks from a walk to an outcome. -/
inductive Roots (graph : Dict String (List String)) :
    List String → Walk → Except Error Walk → Prop
  | nil {w : Walk} : Roots graph [] w (.ok w)
  | skip {task : String} {tasks : List String} {w : Walk} {r : Except Error Walk} :
      task ∈ w.visited → Roots graph tasks w r → Roots graph (task :: tasks) w r
  | walk {task : String} {tasks : List String} {w w' : Walk} {r : Except Error Walk} :
      task ∉ w.visited → Loop graph { w with stack := [(task, false)] } (.ok w') →
      Roots graph tasks w' r → Roots graph (task :: tasks) w r
  | raise {task : String} {tasks : List String} {w : Walk} {e : Error} :
      task ∉ w.visited → Loop graph { w with stack := [(task, false)] } (.error e) →
      Roots graph (task :: tasks) w (.error e)

def Outcome (graph : Dict String (List String)) : Except Error Walk → Prop
  | .ok w => Ordered graph w
  | .error e => e = .value "dependency cycle" ∧ Cyclic graph

theorem drain_loop (hclosed : Closed graph) {n : Nat} (hi : w.Inv graph) (ho : Ordered graph w)
    (hn : potential graph w ≤ n) :
    Loop graph w (w.drain graph n) ∧ Outcome graph (w.drain graph n) := by
  induction n generalizing w with
  | zero =>
    have hstack : w.stack = [] := by
      rw [← List.length_eq_zero_iff]
      rw [potential] at hn
      omega
    exact ⟨.done hstack, ho⟩
  | succ n ih =>
    rw [drain]
    split
    next hstack => exact ⟨.done hstack, ho⟩
    next hstack =>
      rcases turn_ordered hi ho hstack with ⟨w', hturn, ho'⟩ | ⟨hturn, hcyclic⟩
      · have hp := turn_ok hclosed hi hstack hturn
        obtain ⟨hloop, hout⟩ := ih hp.inv ho' (by have := hp.less; omega)
        rw [hturn]
        exact ⟨.turn hstack hturn hloop, hout⟩
      · rw [hturn]
        exact ⟨.raise hstack hturn, rfl, hcyclic⟩

theorem root_ordered {task : String} (ho : Ordered graph w) :
    Ordered graph { w with stack := [(task, false)] } := by
  have hnone : ∀ above node below, [(task, false)] ≠ above ++ (node, true) :: below := by
    intro above node below h
    cases above with
    | nil => cases h
    | cons p above => simp at h
  exact ⟨ho.sorted, fun above node below h => absurd h (hnone above node below),
    fun above node below h => absurd h (hnone above node below)⟩

theorem foldl_roots (hclosed : Closed graph) {tasks : List String} (hi : w.Inv graph)
    (hstack : w.stack = []) (ho : Ordered graph w) (htasks : ∀ t ∈ tasks, t ∈ graph.keys) :
    Roots graph tasks w (tasks.foldlM (walkFrom graph) w) ∧
      Outcome graph (tasks.foldlM (walkFrom graph) w) := by
  induction tasks generalizing w with
  | nil => exact ⟨.nil, ho⟩
  | cons t tasks ih =>
    rw [List.forall_mem_cons] at htasks
    have hok (w₁ : Walk) (h : walkFrom graph w t = .ok w₁) : Done graph w w₁ :=
      (walkFrom_ok hclosed htasks.1 hi hstack h).1
    rw [List.foldlM_cons]
    by_cases hvisited : t ∈ w.visited
    · have hsame : walkFrom graph w t = .ok w := if_pos hvisited
      rw [hsame]
      obtain ⟨hroots, hout⟩ := ih hi hstack ho htasks.2
      exact ⟨.skip hvisited hroots, hout⟩
    · have hwalk : walkFrom graph w t = drain graph (turnBound graph)
        { w with stack := [(t, false)] } := if_neg hvisited
      obtain ⟨hloop, hout⟩ := drain_loop hclosed (root_inv htasks.1 hi hstack) (root_ordered ho)
        (root_bound graph w t)
      rw [← hwalk] at hloop hout
      cases hr : walkFrom graph w t with
      | error e =>
        rw [hr] at hloop hout
        exact ⟨.raise hvisited hloop, hout⟩
      | ok w₁ =>
        rw [hr] at hloop hout
        have hd := hok w₁ hr
        obtain ⟨hroots, hout⟩ := ih hd.inv hd.stack hout htasks.2
        exact ⟨.walk hvisited hloop hroots, hout⟩

end Walk

/-! ## The validation -/

variable {dependencies acceptanceCriteria : Dict String (List String)}

structure WellFormed (dependencies acceptanceCriteria : Dict String (List String)) : Prop where
  nonempty : dependencies ≠ []
  same : ∀ k, k ∈ dependencies.keys ↔ k ∈ acceptanceCriteria.keys
  ids : ∀ task ∈ dependencies.keys, TaskId task
  criteria : ∀ p ∈ acceptanceCriteria,
    isBlank p.1 = false ∧ p.2 ≠ [] ∧ (∀ x ∈ p.2, isBlank x = false) ∧ p.2.Nodup

def Known (dependencies : Dict String (List String)) : Prop :=
  ∀ p ∈ dependencies, ∀ dep ∈ p.2, dep ∈ dependencies.keys

def Distinct (dependencies : Dict String (List String)) : Prop := ∀ p ∈ dependencies, p.2.Nodup

structure Checked (dependencies acceptanceCriteria : Dict String (List String)) : Prop where
  wellFormed : WellFormed dependencies acceptanceCriteria
  known : Known dependencies
  distinct : Distinct dependencies

def start : Walk := ⟨[], [], [], []⟩

def roots (dependencies : Dict String (List String)) : List String :=
  dependencies.keys.insertionSort (· ≤ ·)

def Answers (dependencies acceptanceCriteria : Dict String (List String))
    (r : Except Error (List String)) : Prop :=
  (Checked dependencies acceptanceCriteria ∧
    r = ((roots dependencies).foldlM (walkFrom dependencies) start).map (·.result)) ∨
  ¬ Checked dependencies acceptanceCriteria ∧ ∃ text, r = .error (.value text)

theorem checkDeps_cases (ids : ∀ task ∈ dependencies.keys, TaskId task) (deps : List String) :
    (checkDeps dependencies deps = .ok () → deps.Nodup ∧ ∀ dep ∈ deps, dep ∈ dependencies.keys) ∧
      ∀ e, checkDeps dependencies deps = .error e →
        ¬ (deps.Nodup ∧ ∀ dep ∈ deps, dep ∈ dependencies.keys) ∧ ∃ text, e = .value text := by
  constructor
  · intro h
    simp only [checkDeps, bind_ok, require_ok] at h
    obtain ⟨_, hids, hknown⟩ := h
    exact ⟨hids.2, hknown⟩
  · intro e h
    rw [checkDeps] at h
    rcases bind_error.mp h with h | ⟨_, -, h⟩
    · simp only [require] at h
      split at h
      next => cases h
      next hids =>
        cases h
        exact ⟨fun hall => hids ⟨fun dep hdep => ids dep (hall.2 dep hdep), hall.1⟩, _, rfl⟩
    · simp only [require] at h
      split at h
      next => cases h
      next hknown =>
        cases h
        exact ⟨fun hall => hknown hall.2, _, rfl⟩

theorem validateTaskDag_answers (dependencies acceptanceCriteria : Dict String (List String)) :
    Answers dependencies acceptanceCriteria
      (validateTaskDag dependencies acceptanceCriteria) := by
  rw [validateTaskDag]
  apply require_bind_cases
  · intro hsame
    refine .inr ⟨fun hc => hsame ⟨hc.wellFormed.nonempty, ?_, ?_⟩, _, rfl⟩
    · exact fun k => (hc.wellFormed.same k).mp
    · exact fun k => (hc.wellFormed.same k).mpr
  intro hsame
  apply require_bind_cases
  · exact fun hids => .inr ⟨fun hc => hids hc.wellFormed.ids, _, rfl⟩
  intro hids
  apply require_bind_cases
  · exact fun hcriteria => .inr ⟨fun hc => hcriteria hc.wellFormed.criteria, _, rfl⟩
  intro hcriteria
  have hwell : WellFormed dependencies acceptanceCriteria :=
    ⟨hsame.1, fun k => ⟨hsame.2.1 k, hsame.2.2 k⟩, hids, hcriteria⟩
  rcases forM_cases (fun p => checkDeps dependencies p.2) dependencies with
    ⟨hok, hall⟩ | ⟨p, hp, e, he, herr⟩
  · rw [hok]
    refine .inl ⟨⟨hwell, fun p hp => ?_, fun p hp => ?_⟩, ?_⟩
    · exact ((checkDeps_cases hids p.2).1 (hall p hp)).2
    · exact ((checkDeps_cases hids p.2).1 (hall p hp)).1
    · rw [roots, start]
      cases List.foldlM (walkFrom dependencies) ⟨[], [], [], []⟩
        (dependencies.keys.insertionSort (· ≤ ·)) <;> rfl
  · rw [herr]
    obtain ⟨hbad, text, rfl⟩ := (checkDeps_cases hids p.2).2 e he
    exact .inr ⟨fun hc => hbad ⟨hc.distinct p hp, hc.known p hp⟩, text, rfl⟩

theorem Checked.closed (h : Checked dependencies acceptanceCriteria) :
    Walk.Closed dependencies :=
  fun k deps hget dep hdep => h.known (k, deps) (Dict.mem_of_get? hget) dep hdep

theorem roots_known : ∀ task ∈ roots dependencies, task ∈ dependencies.keys :=
  fun _ htask => (List.mem_insertionSort _).mp htask

theorem Checked.walk (h : Checked dependencies acceptanceCriteria) :
    Walk.Roots dependencies (roots dependencies) start
        ((roots dependencies).foldlM (walkFrom dependencies) start) ∧
      Walk.Outcome dependencies ((roots dependencies).foldlM (walkFrom dependencies) start) := by
  have hinv : Walk.Inv dependencies start := by
    constructor <;> simp [Walk.marked, start]
  have hordered : Walk.Ordered dependencies start := by
    refine ⟨.nil, ?_, ?_⟩ <;> intro above node below hstack <;> simp [start] at hstack
  exact Walk.foldl_roots h.closed hinv rfl hordered roots_known

theorem validateTaskDag_sorted {order : List String}
    (h : validateTaskDag dependencies acceptanceCriteria = .ok order) :
    Topological (Depends dependencies) order := by
  rcases validateTaskDag_answers dependencies acceptanceCriteria with ⟨hc, heq⟩ | ⟨-, text, heq⟩
  · rw [h] at heq
    obtain ⟨w, hw, rfl⟩ := map_ok.mp heq.symm
    have hout := hc.walk.2
    rw [hw] at hout
    exact hout.sorted
  · cases h.symm.trans heq

theorem acyclic_of_ok {order : List String}
    (h : validateTaskDag dependencies acceptanceCriteria = .ok order) : ¬ Cyclic dependencies := by
  obtain ⟨hnodup, hmem⟩ := validateTaskDag_ok h
  rintro ⟨task, hcycle⟩
  obtain ⟨dep, ⟨deps, hget, -⟩, -⟩ := Relation.TransGen.head'_iff.mp hcycle
  have htask : task ∈ order :=
    (hmem task).mpr (by_contra fun hnot => by simp [Dict.notMem_keys.mp hnot] at hget)
  exact (validateTaskDag_sorted h).acyclic hnodup htask hcycle

theorem validateTaskDag_error {e : Error}
    (h : validateTaskDag dependencies acceptanceCriteria = .error e) :
    (∃ text, e = .value text) ∧
      (¬ Checked dependencies acceptanceCriteria ∨ Cyclic dependencies) := by
  rcases validateTaskDag_answers dependencies acceptanceCriteria with ⟨hc, heq⟩ | ⟨hc, text, heq⟩
  · rw [h] at heq
    have hout := hc.walk.2
    rw [map_error heq.symm] at hout
    exact ⟨⟨_, hout.1⟩, .inr hout.2⟩
  · cases h.symm.trans heq
    exact ⟨⟨text, rfl⟩, .inl hc⟩

/-! ## The order of the mappings -/

section Order

variable {dependencies' acceptanceCriteria' : Dict String (List String)}

theorem keys_perm (h : dependencies.Perm dependencies') :
    dependencies.keys.Perm dependencies'.keys := h.map _

theorem roots_perm (h : dependencies.Perm dependencies') :
    roots dependencies = roots dependencies' := by
  have hperm : (roots dependencies).Perm (roots dependencies') :=
    (List.perm_insertionSort _ _).trans ((keys_perm h).trans (List.perm_insertionSort _ _).symm)
  exact hperm.eq_of_pairwise' (List.pairwise_insertionSort (· ≤ ·) dependencies.keys)
    (List.pairwise_insertionSort (· ≤ ·) dependencies'.keys)

theorem walkFrom_perm (hn : dependencies.keys.Nodup) (h : dependencies.Perm dependencies') :
    walkFrom dependencies = walkFrom dependencies' := by
  have hturn : Walk.turn dependencies = Walk.turn dependencies' := by
    funext w
    obtain ⟨stack, visiting, visited, result⟩ := w
    cases stack with
    | nil => rfl
    | cons p stack =>
      obtain ⟨node, mark⟩ := p
      cases mark with
      | true => rfl
      | false => simp only [Walk.turn, Dict.get?_perm hn h]
  have hbound : turnBound dependencies = turnBound dependencies' := by
    rw [turnBound, turnBound, h.length_eq, (h.map _).sum_eq]
  have hdrain : Walk.drain dependencies = Walk.drain dependencies' := by
    funext n w
    induction n generalizing w with
    | zero => rfl
    | succ n ih =>
      rw [Walk.drain, Walk.drain, hturn]
      congr 2
      funext w
      exact ih w
  funext w task
  rw [walkFrom, walkFrom, hdrain, hbound]

theorem Checked.perm (hd : dependencies.Perm dependencies')
    (ha : acceptanceCriteria.Perm acceptanceCriteria')
    (h : Checked dependencies acceptanceCriteria) :
    Checked dependencies' acceptanceCriteria' := by
  have hkeys : ∀ {k}, k ∈ dependencies'.keys ↔ k ∈ dependencies.keys :=
    fun {k} => (keys_perm hd).symm.mem_iff
  refine ⟨⟨?_, fun k => ?_, fun task ht => ?_, fun p hp => ?_⟩, fun p hp dep hdep => ?_,
    fun p hp => ?_⟩
  · exact fun hnil => h.wellFormed.nonempty (List.perm_nil.mp (hnil ▸ hd))
  · rw [hkeys, h.wellFormed.same k]
    exact (keys_perm ha).mem_iff
  · exact h.wellFormed.ids task (hkeys.mp ht)
  · exact h.wellFormed.criteria p (ha.mem_iff.mpr hp)
  · exact hkeys.mpr (h.known p (hd.mem_iff.mpr hp) dep hdep)
  · exact h.distinct p (hd.mem_iff.mpr hp)

theorem validateTaskDag_perm (hn : dependencies.keys.Nodup) (hd : dependencies.Perm dependencies')
    (ha : acceptanceCriteria.Perm acceptanceCriteria') :
    (validateTaskDag dependencies acceptanceCriteria).toOption =
      (validateTaskDag dependencies' acceptanceCriteria').toOption := by
  rcases validateTaskDag_answers dependencies acceptanceCriteria with ⟨hc, h⟩ | ⟨hc, text, h⟩ <;>
    rcases validateTaskDag_answers dependencies' acceptanceCriteria' with
      ⟨hc', h'⟩ | ⟨hc', text', h'⟩
  · rw [h, h', roots_perm hd, walkFrom_perm hn hd]
  · exact absurd (hc.perm hd ha) hc'
  · exact absurd (hc'.perm hd.symm ha.symm) hc
  · rw [h, h']
    rfl

end Order

/-- The validation ends and sorts the tasks, dependencies first, and raises just where it must. -/
theorem validateTaskDag_sorts (hn : dependencies.keys.Nodup) :
    -- the unbounded loops end with the answer
    (Checked dependencies acceptanceCriteria →
      ∃ r, Walk.Roots dependencies (roots dependencies) start r ∧
        validateTaskDag dependencies acceptanceCriteria = r.map (·.result)) ∧
    (¬ Known dependencies ∨ ¬ Distinct dependencies ∨ Cyclic dependencies →
      ∃ text, validateTaskDag dependencies acceptanceCriteria = .error (.value text)) ∧
    (WellFormed dependencies acceptanceCriteria → Known dependencies → Distinct dependencies →
      ¬ Cyclic dependencies → ∃ order, validateTaskDag dependencies acceptanceCriteria = .ok order ∧
        order.Perm dependencies.keys ∧ ∀ before task after, order = before ++ task :: after →
          ∀ dep, Depends dependencies task dep → dep ∈ before) ∧
    ∀ dependencies' acceptanceCriteria', dependencies.Perm dependencies' →
      acceptanceCriteria.Perm acceptanceCriteria' →
      (validateTaskDag dependencies acceptanceCriteria).toOption =
        (validateTaskDag dependencies' acceptanceCriteria').toOption := by
  refine ⟨?_, ?_, ?_, fun _ _ => validateTaskDag_perm hn⟩
  · intro hc
    refine ⟨_, hc.walk.1, ?_⟩
    rcases validateTaskDag_answers dependencies acceptanceCriteria with ⟨-, h⟩ | ⟨hnot, -⟩
    · exact h
    · exact absurd hc hnot
  · intro hbad
    cases h : validateTaskDag dependencies acceptanceCriteria with
    | error e =>
      obtain ⟨text, rfl⟩ := (validateTaskDag_error h).1
      exact ⟨text, rfl⟩
    | ok order =>
      rcases validateTaskDag_answers dependencies acceptanceCriteria with ⟨hc, -⟩ | ⟨-, text, heq⟩
      · exact absurd hbad (by simp [hc.known, hc.distinct, acyclic_of_ok h])
      · cases h.symm.trans heq
  · intro hwell hknown hdistinct hacyclic
    cases h : validateTaskDag dependencies acceptanceCriteria with
    | error e =>
      rcases (validateTaskDag_error h).2 with hnot | hcyclic
      · exact absurd ⟨hwell, hknown, hdistinct⟩ hnot
      · exact absurd hcyclic hacyclic
    | ok order =>
      obtain ⟨hnodup, hmem⟩ := validateTaskDag_ok h
      refine ⟨order, rfl, (List.perm_ext_iff_of_nodup hnodup hn).mpr hmem, ?_⟩
      intro before task after horder dep hdep
      exact (validateTaskDag_sorted h).before horder hdep

def diamond : Dict String (List String) :=
  [("a", ["b", "c"]), ("b", ["d"]), ("c", ["d"]), ("d", [])]

def diamondCriteria : Dict String (List String) :=
  [("a", ["AC"]), ("b", ["AC"]), ("c", ["AC"]), ("d", ["AC"])]

theorem validateTaskDag_sorts_diamond :
    ∃ order, validateTaskDag diamond diamondCriteria = .ok order ∧ order.Perm diamond.keys ∧
      ∀ before task after, order = before ++ task :: after →
        ∀ dep, Depends diamond task dep → dep ∈ before := by
  have hok : validateTaskDag diamond diamondCriteria = .ok ["d", "b", "c", "a"] := by
    decide +kernel
  have hsorts := (@validateTaskDag_sorts diamond diamondCriteria (by decide)).2.2.1
  rcases validateTaskDag_answers diamond diamondCriteria with ⟨hc, -⟩ | ⟨-, text, herr⟩
  · exact hsorts hc.wellFormed hc.known hc.distinct (acyclic_of_ok hok)
  · cases hok.symm.trans herr

end SubagentBridge.Planner
