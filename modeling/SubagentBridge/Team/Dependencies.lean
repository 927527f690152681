import SubagentBridge.Team.Provenance

/-! Verified work and the work it builds on: when do the dependencies of a verified task
stay verified, on the same tree? -/

namespace SubagentBridge.Team

open Library Domain Planner Qa SupervisedCoordinator

variable {B : Type} {api : BudgetApi B} {uuid4 : Nat → String}
variable {s t : State B} {q : Call B} {id : String} {agg agg' : TaskAggregate}

def State.deps (s : State B) (id : String) : List String :=
  (s.coordinator.dependencies.get? id).getD []

def DepsAt (s : State B) (id tree : String) : Prop :=
  ∀ dep ∈ s.deps id, ∃ a, s.coordinator.tasks.get? dep = some a ∧ a.state = .verified ∧
    a.task.treeSha = tree

/-- What `begin` leaves unchecked: a task that it is about to dispatch, since the task is
frozen and its dependencies are verified, stands on the tree of its dependencies. -/
def TreesAgree (s : State B) : Call B → Prop
  | .begin id _ _ _ _ => ∀ agg ∈ s.coordinator.tasks.get? id, agg.state = .frozen →
      (∀ dep ∈ s.deps id, ∃ a ∈ s.coordinator.tasks.get? dep, a.state = .verified) →
        ∀ dep ∈ s.deps id, ∀ a ∈ s.coordinator.tasks.get? dep,
          a.task.treeSha = agg.task.treeSha
  | _ => True

instance (s : State B) (q : Call B) : Decidable (TreesAgree s q) := by
  unfold TreesAgree
  split <;> infer_instance

def Active (state : TaskState) : Prop :=
  state = .dispatched ∨ state = .processSucceeded ∨ state = .verified

def Consistent (s : State B) : Prop :=
  ∀ id agg, s.coordinator.tasks.get? id = some agg → Active agg.state →
    DepsAt s id agg.task.treeSha

theorem move_not_verified {c c' : SupervisedCoordinator B} (h : Move q c c' id agg agg') :
    agg.state ≠ .verified := by
  cases h with
  | keyUsed hs _ _ => rw [hs]; decide
  | freezes hs _ => rcases hs with hs | hs <;> rw [hs] <;> decide
  | begins _ _ _ _ _ hs _ _ _ => rw [hs]; decide
  | succeeds hs _ => rw [hs]; decide
  | blocks hs _ => rw [hs]; decide
  | verifies _ _ _ _ _ hs _ _ _ _ _ _ _ => rw [hs]; decide
  | reconciles hs _ _ => rw [hs]; decide

theorem move_active {c c' : SupervisedCoordinator B} (h : Move q c c' id agg agg')
    (ha : Active agg'.state) : agg'.task = agg.task ∧ (Active agg.state ∨
      agg.state = .frozen ∧ (∃ pm key tokens cost, q = .begin id pm key tokens cost) ∧
        ∀ dep ∈ (c.dependencies.get? id).getD [],
          ∃ a, c.tasks.get? dep = some a ∧ a.state = .verified) := by
  cases h with
  | keyUsed _ hs _ => simp [Active, hs] at ha
  | freezes _ hs => simp [Active, hs] at ha
  | begins pm key tokens cost hq hs hdeps _ ht =>
    exact ⟨ht, .inr ⟨hs, ⟨pm, key, tokens, cost, hq⟩, hdeps⟩⟩
  | succeeds hs hnew => exact ⟨by rw [hnew], .inl (.inl hs)⟩
  | blocks _ hs => simp [Active, hs, TaskAggregate.block] at ha
  | verifies _ _ _ _ _ hs _ _ _ _ _ _ hnew => exact ⟨by rw [hnew], .inl (.inr (.inl hs))⟩
  | reconciles _ hs _ => simp [Active, hs] at ha

theorem depsAt_congr (hd : t.coordinator.dependencies = s.coordinator.dependencies)
    {tree : String} (h : DepsAt s id tree)
    (hkeep : ∀ dep a, s.coordinator.tasks.get? dep = some a → a.state = .verified →
      a.task.treeSha = tree → t.coordinator.tasks.get? dep = some a) : DepsAt t id tree := by
  intro dep hdep
  rw [State.deps, hd] at hdep
  obtain ⟨a, ha, hv, ht⟩ := h dep hdep
  exact ⟨a, hkeep dep a ha hv ht, hv, ht⟩

theorem consistent_one {c' : SupervisedCoordinator B} {n : Nat} {id' : String}
    (hs : Consistent s) (hG : TreesAgree s q)
    (hd : c'.dependencies = s.coordinator.dependencies)
    (hold : s.coordinator.tasks.get? id' = some agg)
    (hset : c'.tasks = s.coordinator.tasks.set id' agg')
    (hm : Move q s.coordinator c' id' agg agg') : Consistent ⟨c', n⟩ := by
  have hkeep : ∀ dep a, s.coordinator.tasks.get? dep = some a → a.state = .verified →
      c'.tasks.get? dep = some a := by
    intro dep a ha hv
    rw [hset, Dict.get?_set, if_neg, ha]
    rintro rfl
    rw [hold] at ha
    cases ha
    exact move_not_verified hm hv
  intro id a hget hactive
  simp only [hset, Dict.get?_set] at hget
  split at hget
  next hid =>
    subst hid
    cases hget
    obtain ⟨htask, hact | ⟨hfrozen, ⟨pm, key, tokens, cost, rfl⟩, hdeps⟩⟩ := move_active hm hactive
    · rw [htask]
      exact depsAt_congr hd (hs _ _ hold hact) fun dep a ha hv _ => hkeep dep a ha hv
    · rw [htask]
      have hat : DepsAt s id' agg.task.treeSha := by
        intro dep hdep
        obtain ⟨a, ha, hv⟩ := hdeps dep hdep
        exact ⟨a, ha, hv, hG agg hold hfrozen hdeps dep hdep a ha⟩
      exact depsAt_congr hd hat fun dep a ha hv _ => hkeep dep a ha hv
  next => exact depsAt_congr hd (hs _ _ hget hactive) fun dep a ha hv _ => hkeep dep a ha hv

/-- A verified task on the new tree is passed over by the loop of `update_tree`; over an
invalid tree the loop raises before it changes one. -/
theorem get?_updateAll_verified {tree : String} {tasks : Dict String TaskAggregate}
    (hget : tasks.get? id = some agg) (hv : agg.state = .verified)
    (ht : agg.task.treeSha = tree ∨ ¬ Identity tree) :
    (updateAll tree tasks).2.get? id = some agg := by
  induction tasks with
  | nil => cases hget
  | cons p tasks ih =>
    obtain ⟨k, a⟩ := p
    rw [updateAll]
    cases hone : updateOne tree a with
    | error e => exact hget
    | ok a' =>
      simp only [orRaise_ok, Dict.get?_cons] at hget ⊢
      split
      next hk =>
        rw [if_pos hk] at hget
        cases hget
        obtain ⟨a'', ha'', hr⟩ | ⟨⟨e, he⟩, -⟩ := updateOne_cases tree agg
        · rw [hone] at ha''
          cases ha''
          cases hr with
          | kept h _ => exact congrArg some h
          | recovers h _ => rcases h with h | h <;> rw [h] at hv <;> cases hv
          | moves hid _ _ =>
            rcases ht with ht | ht
            · simp [updateOne, ht] at hone
              rw [hone]
            · exact absurd hid ht
        · rw [hone] at he
          cases he
      next hk =>
        rw [if_neg hk] at hget
        exact ih hget

theorem consistent_trees {c' : SupervisedCoordinator B} {n : Nat} {tree : String}
    (hs : Consistent s) (hd : c'.dependencies = s.coordinator.dependencies)
    (hset : c'.tasks = (updateAll tree s.coordinator.tasks).2) : Consistent ⟨c', n⟩ := by
  intro id a hget hactive
  rw [hset] at hget
  obtain ⟨old, hold, hr | ⟨rfl, hid⟩⟩ := get?_updateAll hget
  · cases hr with
    | kept h htree =>
      subst h
      rcases htree with htree | hrec
      · refine depsAt_congr hd (hs _ _ hold hactive) fun dep a ha hv ht => ?_
        simp only [hset]
        exact get?_updateAll_verified ha hv (.inl (ht.trans htree))
      · simp [Active, hrec] at hactive
    | recovers _ h => simp [Active, h, TaskAggregate.recoverUnknown] at hactive
    | moves _ h _ => rcases h with h | h <;> simp [Active, h] at hactive
  · refine depsAt_congr hd (hs _ _ hold hactive) fun dep a ha hv _ => ?_
    simp only [hset]
    exact get?_updateAll_verified ha hv (.inr hid)

theorem consistent_step (hs : Consistent s) (hG : TreesAgree s q)
    (h : step api uuid4 s q = some t) : Consistent t := by
  obtain ⟨he, -⟩ := step_effect h
  cases he.tasks with
  | none ht =>
    intro id agg hget hactive
    exact depsAt_congr he.dependencies (hs id agg (ht ▸ hget) hactive)
      fun dep a ha _ _ => ht ▸ ha
  | one id agg agg' hold hset hm => exact consistent_one hs hG he.dependencies hold hset hm
  | trees tree _ hset => exact consistent_trees hs he.dependencies hset

/-- As long as every dispatch finds the task on the tree of its verified dependencies,
the dependencies of a verified task are verified on its tree, in every state of the run. -/
theorem verified_dependencies {s₀ : State B} (h₀ : Initial s₀) {ls : List (Call B)}
    (h : Path (step api uuid4) TreesAgree s₀ ls s)
    (hget : s.coordinator.tasks.get? id = some agg) (hv : agg.state = .verified) :
    DepsAt s id agg.task.treeSha := by
  have hcons : Consistent s := by
    refine h.invariant ?_ fun s q t hs hG hst => consistent_step hs hG hst
    intro id agg hget hactive
    rw [(initial_tasks h₀ hget).1] at hactive
    simp [Active] at hactive
  exact hcons id agg hget (.inr (.inr hv))

/-! ## Runs over two tasks, `B` on top of `A` -/

section Sample

def twoTasks : Option (State BudgetLedger) := sampleStart [("A", "t1", []), ("B", "t1", ["A"])]

def stateOf (s : State B) (id : String) : Option (TaskState × String) :=
  (s.coordinator.tasks.get? id).map fun agg => (agg.state, agg.task.treeSha)

def inOrder : List (Call BudgetLedger) :=
  registerAll ++ [.freeze "A" (principal .pm), .freeze "B" (principal .pm)] ++
    verifyCalls 6 "A" "t1" "key" ++ verifyCalls 11 "B" "t1" "key"

theorem verified_dependencies_inOrder : ∃ (s₀ s : State BudgetLedger) (agg : TaskAggregate),
    Initial s₀ ∧ Path (step BudgetLedger.api sampleUuid) TreesAgree s₀ inOrder s ∧
    s.coordinator.tasks.get? "B" = some agg ∧ agg.state = .verified ∧
    DepsAt s "B" agg.task.treeSha := by
  have hrun : (twoTasks.bind fun s₀ =>
      exec (restrict (step BudgetLedger.api sampleUuid) TreesAgree) s₀ inOrder).any
        (verifiedAt · "B" "t1") = true := by decide +kernel
  obtain ⟨s, hs, hver⟩ := (Option.any_eq_true _ _).mp hrun
  obtain ⟨s₀, h₀, hexec⟩ := Option.bind_eq_some_iff.mp hs
  obtain ⟨agg, hget, hstate⟩ := (Option.any_eq_true _ _).mp hver
  have hv : agg.state = .verified := (by simpa using hstate : _ ∧ _).1
  have hpath := path_of_restrict (path_of_exec hexec)
  exact ⟨s₀, s, agg, sampleStart_initial h₀, hpath, hget, hv,
    verified_dependencies (sampleStart_initial h₀) hpath hget hv⟩

/-- `A` is verified and `B` dispatched on the first tree.  A new tree returns `A` to
work, and leaves `B` to recovery on the old one, from where it is dispatched again once
`A` is verified anew. -/
def offTree : List (Call BudgetLedger) :=
  registerAll ++ [.freeze "A" (principal .pm), .freeze "B" (principal .pm)] ++
    verifyCalls 6 "A" "t1" "key" ++
    [.begin "B" (principal .pm) "key" 0 0, .updateTree "t2",
      .reconcileRecovery "B" (principal .pm) none] ++
    verifyCalls 14 "A" "t2" "again" ++ verifyCalls 19 "B" "t1" "again"

/-- `B` is verified on the first tree while `A` is verified on the second; back on the
first tree, `B` stays verified on top of unverified work. -/
theorem verified_off_tree : ∃ s₀ s t : State BudgetLedger, Initial s₀ ∧
    Library.Run (step BudgetLedger.api sampleUuid) s₀ offTree s ∧
    Library.Run (step BudgetLedger.api sampleUuid) s [.updateTree "t1"] t ∧
    s.deps "B" = ["A"] ∧ stateOf s "B" = some (.verified, "t1") ∧
    stateOf s "A" = some (.verified, "t2") ∧
    t.deps "B" = ["A"] ∧ stateOf t "B" = some (.verified, "t1") ∧
    stateOf t "A" = some (.frozen, "t1") := by
  have hrun : twoTasks.any (fun s₀ =>
      (exec (step BudgetLedger.api sampleUuid) s₀ offTree).any fun s =>
        (exec (step BudgetLedger.api sampleUuid) s [.updateTree "t1"]).any fun t =>
          s.deps "B" = ["A"] ∧ stateOf s "B" = some (.verified, "t1") ∧
          stateOf s "A" = some (.verified, "t2") ∧
          t.deps "B" = ["A"] ∧ stateOf t "B" = some (.verified, "t1") ∧
          stateOf t "A" = some (.frozen, "t1")) = true := by decide +kernel
  obtain ⟨s₀, h₀, hs⟩ := (Option.any_eq_true _ _).mp hrun
  obtain ⟨s, hs, ht⟩ := run_of_any hs
  obtain ⟨t, ht, hst⟩ := run_of_any ht
  exact ⟨s₀, s, t, sampleStart_initial h₀, hs, ht, of_decide_eq_true hst⟩

end Sample

end SubagentBridge.Team
