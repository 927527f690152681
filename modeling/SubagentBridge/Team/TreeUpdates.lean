import SubagentBridge.Team.Provenance

/-! Tree updates: whether one that raises has left all tasks alone, and which tasks are on another
tree after one that returns. -/

namespace SubagentBridge.Team

open Library Domain Planner SupervisedCoordinator

variable {B : Type} {c : SupervisedCoordinator B} {tree : String} {agg : TaskAggregate}
variable {tasks : Dict String TaskAggregate}

structure Standing where
  state : TaskState
  treeSha : String
  verdict : Option QaVerdict
  activeDispatch : Option Dispatch
  deriving DecidableEq

def standing (agg : TaskAggregate) : Standing :=
  ⟨agg.state, agg.task.treeSha, agg.qaVerdict, agg.activeDispatch⟩

def standings (tasks : Dict String TaskAggregate) : List (String × Standing) :=
  tasks.map fun p => (p.1, standing p.2)

/-- A raise has changed nothing, and a return leaves no work standing on another tree. -/
def AllOrNothing (tree : String) (c : SupervisedCoordinator B) : Prop :=
  match c.updateTree tree with
  | (.error _, c') => standings c'.tasks = standings c.tasks
  | (.ok _, c') => ∀ p ∈ c'.tasks,
    p.2.state = .verified ∨ p.2.state = .dispatched ∨ p.2.state = .processSucceeded →
      p.2.task.treeSha = tree

instance (tree : String) (c : SupervisedCoordinator B) : Decidable (AllOrNothing tree c) := by
  unfold AllOrNothing
  split <;> infer_instance

abbrev InFlight (agg : TaskAggregate) : Prop :=
  agg.state = .dispatched ∨ agg.state = .processSucceeded

abbrev PassedOver (agg : TaskAggregate) : Prop := InFlight agg ∨ agg.state = .recoveryRequired

/-- The tree is valid, or no work is in flight in front of the first task that gets a record with
the new tree. -/
def Untorn (tree : String) (tasks : Dict String TaskAggregate) : Prop :=
  tree = "" ∨ Identity tree ∨ (∀ p ∈ tasks, PassedOver p.2) ∨
    ∀ p ∈ tasks.takeWhile fun p => PassedOver p.2, ¬ InFlight p.2

instance (tree : String) (tasks : Dict String TaskAggregate) : Decidable (Untorn tree tasks) := by
  unfold Untorn
  infer_instance

/-! ## Valid trees -/

theorem retree_tree {agg' : TaskAggregate} (h : Retree tree agg agg')
    (hs : agg'.state = .verified ∨ agg'.state = .dispatched ∨ agg'.state = .processSucceeded) :
    agg'.task.treeSha = tree := by
  cases h with
  | kept heq hor =>
    subst heq
    rcases hor with ht | hr
    · exact ht
    · simp [hr] at hs
  | recovers _ heq => simp [heq, TaskAggregate.recoverUnknown] at hs
  | moves _ hs' _ => rcases hs' with hs' | hs' <;> simp [hs'] at hs

theorem updateAll_valid (hid : Identity tree) (tasks : Dict String TaskAggregate) :
    (updateAll tree tasks).1 = .ok () ∧ ∀ p ∈ (updateAll tree tasks).2,
      p.2.state = .verified ∨ p.2.state = .dispatched ∨ p.2.state = .processSucceeded →
        p.2.task.treeSha = tree := by
  induction tasks with
  | nil => exact ⟨rfl, by simp [updateAll]⟩
  | cons p tasks ih =>
    obtain ⟨k, a⟩ := p
    obtain ⟨a', ha, hr⟩ | ⟨-, hno⟩ := updateOne_cases tree a
    · rw [updateAll, ha]
      exact ⟨ih.1, List.forall_mem_cons.mpr ⟨retree_tree hr, ih.2⟩⟩
    · exact absurd hid hno

/-! ## Trees that no record is built with -/

def given (agg : TaskAggregate) : TaskAggregate :=
  if InFlight agg then agg.recoverUnknown else agg

section Invalid

variable (hid : ¬ Identity tree)

include hid

theorem updateOne_passed (hp : PassedOver agg) : updateOne tree agg = .ok (given agg) := by
  have hne : agg.task.treeSha ≠ tree := fun h => hid (h ▸ agg.task.ids.2.2.1)
  rw [updateOne, if_neg hne, given]
  rcases hp with (hs | hs) | hs <;> simp [hs]

theorem updateOne_refused (hp : ¬ PassedOver agg) : ∃ e, updateOne tree agg = .error e := by
  obtain ⟨agg', -, hr⟩ | ⟨he, -⟩ := updateOne_cases tree agg
  · cases hr with
    | kept _ hor =>
      rcases hor with ht | hr
      · exact absurd (ht ▸ agg.task.ids.2.2.1) hid
      · exact absurd (.inr hr) hp
    | recovers hs _ => exact absurd (.inl hs) hp
    | moves hyes _ _ => exact absurd hyes hid
  · exact he

theorem updateAll_passed (hall : ∀ p ∈ tasks, PassedOver p.2) :
    updateAll tree tasks = (.ok (), tasks.map fun p => (p.1, given p.2)) := by
  induction tasks with
  | nil => rfl
  | cons p tasks ih =>
    rw [List.forall_mem_cons] at hall
    rw [updateAll, updateOne_passed hid hall.1, orRaise_ok, ih hall.2]
    rfl

theorem updateAll_refused (hsome : ∃ p ∈ tasks, ¬ PassedOver p.2) :
    ∃ e, updateAll tree tasks = (.error e,
      (tasks.takeWhile fun p => PassedOver p.2).map (fun p => (p.1, given p.2)) ++
        tasks.dropWhile fun p => PassedOver p.2) := by
  induction tasks with
  | nil => simp at hsome
  | cons p tasks ih =>
    by_cases hp : PassedOver p.2
    · have hrest : ∃ p ∈ tasks, ¬ PassedOver p.2 := by
        obtain ⟨p', hp', hno⟩ := hsome
        rcases List.mem_cons.mp hp' with rfl | hp'
        · exact absurd hp hno
        · exact ⟨p', hp', hno⟩
      obtain ⟨e, he⟩ := ih hrest
      refine ⟨e, ?_⟩
      rw [updateAll, updateOne_passed hid hp, orRaise_ok, he,
        List.takeWhile_cons_of_pos (by simpa using hp),
        List.dropWhile_cons_of_pos (by simpa using hp)]
      rfl
    · obtain ⟨e, he⟩ := updateOne_refused hid hp
      refine ⟨e, ?_⟩
      rw [updateAll, he, orRaise_error, List.takeWhile_cons_of_neg (by simpa using hp),
        List.dropWhile_cons_of_neg (by simpa using hp)]
      rfl

end Invalid

theorem standing_given : standing (given agg) = standing agg ↔ ¬ InFlight agg := by
  rw [given]
  split
  next h =>
    refine iff_of_false (fun heq => ?_) (not_not.mpr h)
    have hs : TaskState.recoveryRequired = agg.state := congrArg Standing.state heq
    rcases h with h | h <;> simp [h] at hs
  next h => exact iff_of_true rfl h

theorem standings_given (before after : Dict String TaskAggregate) :
    standings ((before.map fun p => (p.1, given p.2)) ++ after) = standings (before ++ after) ↔
      ∀ p ∈ before, ¬ InFlight p.2 := by
  rw [standings, standings, List.map_append, List.map_append, List.append_cancel_right_eq,
    List.map_map, List.map_inj_left]
  refine forall₂_congr fun p _ => ?_
  rw [Function.comp_apply, Prod.mk.injEq, and_iff_right rfl, standing_given]

/-- A tree update is all or nothing unless the tree is not valid and work in flight stands in
front of the first task that gets a new record. -/
theorem updateTree_all_or_nothing (tree : String) (c : SupervisedCoordinator B) :
    AllOrNothing tree c ↔ Untorn tree c.tasks := by
  by_cases hempty : tree = ""
  · subst hempty
    exact iff_of_true rfl (.inl rfl)
  have hupdate : c.updateTree tree =
      ((updateAll tree c.tasks).1, { c with tasks := (updateAll tree c.tasks).2 }) := by
    simp [updateTree, require, hempty]
  rw [AllOrNothing, hupdate, Untorn, or_iff_right hempty]
  by_cases hid : Identity tree
  · obtain ⟨hok, htrees⟩ := updateAll_valid hid c.tasks
    rw [hok]
    exact iff_of_true htrees (.inl hid)
  rw [or_iff_right hid]
  by_cases hall : ∀ p ∈ c.tasks, PassedOver p.2
  · rw [updateAll_passed hid hall]
    refine iff_of_true (fun p hp hs => ?_) (.inl hall)
    obtain ⟨p', hp', rfl⟩ := List.mem_map.mp hp
    dsimp only [given] at hs
    split at hs
    next => simp [TaskAggregate.recoverUnknown] at hs
    next hno =>
      have hrec := (hall p' hp').resolve_left hno
      simp [hrec] at hs
  · rw [or_iff_right hall]
    obtain ⟨e, he⟩ := updateAll_refused hid (by simpa using hall)
    rw [he]
    dsimp only
    have hgiven := standings_given (c.tasks.takeWhile fun p => PassedOver p.2)
      (c.tasks.dropWhile fun p => PassedOver p.2)
    rwa [List.takeWhile_append_dropWhile] at hgiven

/-! ### A line break in the tree -/

def tornCalls : List (Call BudgetLedger) :=
  registerAll ++ [.freeze "A" (principal .pm), .begin "A" (principal .pm) "key" 0 0]

/-- The update raises at the second task, with the first one moved to recovery. -/
theorem updateTree_torn : ∃ (s₀ s : State BudgetLedger), Initial s₀ ∧
    Library.Run (step BudgetLedger.api sampleUuid) s₀ tornCalls s ∧
    ¬ AllOrNothing "\n" s.coordinator := by
  have hrun : ((sampleStart [("A", "t1", []), ("B", "t1", [])]).bind fun s₀ =>
      exec (step BudgetLedger.api sampleUuid) s₀ tornCalls).any
        (fun s => ¬ AllOrNothing "\n" s.coordinator) = true := by decide +kernel
  obtain ⟨s, hs, htorn⟩ := (Option.any_eq_true _ _).mp hrun
  obtain ⟨s₀, h₀, hexec⟩ := Option.bind_eq_some_iff.mp hs
  exact ⟨s₀, s, sampleStart_initial h₀, path_of_exec hexec, of_decide_eq_true htorn⟩

end SubagentBridge.Team
